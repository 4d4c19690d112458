/-!
# Stretches of a text

A text is a row of bytes, of which each character takes one to four.  An offset counts the bytes in
front of a place, and it is on a boundary if the place is not inside of a character.  Text is cut
out from one boundary to another.  Main statement: any characters of the text are cut out between
the offset of those in front of them and the offset of both together.
-/

namespace Lox.Text

variable {s : String} {before within rest : List Char}

/-! ## Boundaries -/

/-- The offset is in the text or at its end, and not inside of a character. -/
def OnBoundary (s : String) (offset : Nat) : Prop := (String.Pos.Raw.mk offset).IsValid s

instance (s : String) (offset : Nat) : Decidable (OnBoundary s offset) :=
  decidable_of_iff (String.Pos.Raw.isValid s ⟨offset⟩ = true) String.Pos.Raw.isValid_eq_true_iff

theorem OnBoundary.le {offset : Nat} (h : OnBoundary s offset) : offset ≤ s.utf8ByteSize :=
  h.le_utf8ByteSize

/-- The offset behind the characters at the front of a text. -/
def offset (cs : List Char) : Nat := (String.ofList cs).utf8ByteSize

theorem offset_append (cs ds : List Char) : offset (cs ++ ds) = offset cs + offset ds := by
  rw [offset, String.ofList_append, String.utf8ByteSize_append]
  rfl

theorem offset_singleton (c : Char) : offset [c] = c.utf8Size := by
  rw [offset, ← String.singleton_eq_ofList, String.utf8ByteSize_singleton]

/-- All characters together reach to the end of the text. -/
theorem offset_toList (s : String) : offset s.toList = s.utf8ByteSize := by
  rw [offset, String.ofList_toList]

/-- More characters reach further. -/
theorem offset_le_of_prefix {cs ds : List Char} (h : cs <+: ds) : offset cs ≤ offset ds := by
  obtain ⟨rest, rfl⟩ := h
  rw [offset_append]
  exact Nat.le_add_right _ _

/-- An offset behind whole characters is on a boundary. -/
theorem onBoundary_of_prefix (h : before <+: s.toList) : OnBoundary s (offset before) := by
  obtain ⟨rest, hrest⟩ := h
  refine String.Pos.Raw.isValid_iff_exists_append.mpr
    ⟨String.ofList before, String.ofList rest, ?_, rfl⟩
  rw [← String.ofList_append, hrest, String.ofList_toList]

/-! ## Cutting out -/

/-- What stands in a text from one offset to another.  Nothing can be cut out if the offsets are not
in order, or if one of them is not on a boundary. -/
def stretch? (s : String) (start stop : Nat) : Option String :=
  if h : start ≤ stop ∧ OnBoundary s start ∧ OnBoundary s stop then
    some (String.extract ⟨⟨start⟩, h.2.1⟩ ⟨⟨stop⟩, h.2.2⟩)
  else none

/-- Between two such offsets the characters in between are cut out.  As bytes, these stand behind
the front part, and are themselves the front of what is left. -/
theorem stretch?_eq (h : s.toList = before ++ (within ++ rest)) :
    stretch? s (offset before) (offset (before ++ within)) = some (String.ofList within) := by
  have hfront : before <+: s.toList := ⟨_, h.symm⟩
  have hback : before ++ within <+: s.toList := ⟨rest, by rw [h, List.append_assoc]⟩
  have hle := offset_le_of_prefix (List.prefix_append before within)
  rw [stretch?, dif_pos ⟨hle, onBoundary_of_prefix hfront, onBoundary_of_prefix hback⟩]
  let front := (String.ofList before).toByteArray
  let back := (String.ofList within).toByteArray
  have hbytes : s.toByteArray = front ++ (back ++ (String.ofList rest).toByteArray) := by
    rw [← String.toByteArray_append, ← String.toByteArray_append, ← String.ofList_append,
      ← String.ofList_append, ← h, String.ofList_toList]
  refine congrArg some (String.toByteArray_inj.mp ?_)
  calc s.toByteArray.extract (offset before) (offset (before ++ within))
    _ = s.toByteArray.extract (front.size + 0) (front.size + back.size) := by
      rw [offset_append]
      rfl
    _ = (back ++ (String.ofList rest).toByteArray).extract 0 back.size := by
      rw [hbytes, ByteArray.extract_append_size_add]
    _ = back := ByteArray.extract_append_eq_left rfl

/-- What stands behind an offset is cut out up to the end of the text. -/
theorem stretch?_behind (h : s.toList = before ++ rest) :
    stretch? s (offset before) s.utf8ByteSize = some (String.ofList rest) := by
  rw [← offset_toList, h]
  exact stretch?_eq (by rw [h, List.append_nil])

/-! ## Quotes -/

def bytes (s : String) : List UInt8 := s.toByteArray.data.toList

/-- There are at least two bytes, and the first and the last are quotes. -/
def InQuotes (s : String) : Prop :=
  2 ≤ s.utf8ByteSize ∧ (bytes s).head? = some '"'.toUInt8 ∧
    (bytes s).getLast? = some '"'.toUInt8

theorem bytes_append (s t : String) : bytes (s ++ t) = bytes s ++ bytes t := by
  rw [bytes, String.toByteArray_append, ByteArray.data_append, Array.toList_append]
  rfl

section

variable {body : List Char} (h : s.toList = '"' :: (body ++ ['"']))
include h

/-- A text with a quote at each end has them off bounds of each other. -/
theorem inQuotes_of_toList : InQuotes s := by
  have hs : s = "\"" ++ (String.ofList body ++ "\"") := by
    rw [← String.ofList_toList (s := s), h]
    simp
  have hbytes : bytes s = '"'.toUInt8 :: (bytes (String.ofList body) ++ ['"'.toUInt8]) := by
    rw [hs, bytes_append, bytes_append]
    rfl
  refine ⟨?_, ?_, ?_⟩
  · rw [hs, String.utf8ByteSize_append, String.utf8ByteSize_append]
    exact Nat.add_le_add_left (Nat.le_add_left 1 _) 1
  · rw [hbytes, List.head?_cons]
  · rw [hbytes, ← List.cons_append, List.getLast?_concat]

/-- Between quotes of one byte each, all characters are cut out. -/
theorem stretch?_inQuotes : stretch? s 1 (s.utf8ByteSize - 1) = some (String.ofList body) := by
  have hlength : offset ('"' :: body) = s.utf8ByteSize - 1 := by
    rw [← offset_toList, h, ← List.cons_append, offset_append]
    rfl
  have hcut : stretch? s (offset ['"']) (offset (['"'] ++ body)) = some (String.ofList body) :=
    stretch?_eq h
  rwa [List.singleton_append, hlength] at hcut

end

end Lox.Text
