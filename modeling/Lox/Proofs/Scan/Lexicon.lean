import Lox.Scan

/-!
# Lexicons in use

A lexicon begins with the reserved words and only ever grows at its end.  So the identity of a
symbol is the place where its spelling stands in every later lexicon as well, and whether a word is
reserved depends on its spelling alone, whatever the lexicon has met before.
-/

namespace Lox

/-- An element is found at the same place in every longer list. -/
theorem idxOf?_of_prefix {l l' : List String} {a : String} {i : Nat} (h : l <+: l')
    (hi : l.idxOf? a = some i) : l'.idxOf? a = some i := by
  rw [List.idxOf?_eq_some_iff] at hi ⊢
  obtain ⟨hlt, hget, hbefore⟩ := hi
  refine ⟨Nat.lt_of_lt_of_le hlt h.length_le, ?_, ?_⟩
  · rw [← h.getElem hlt]
    exact hget
  · intro j hj
    rw [← h.getElem (Nat.lt_trans hj hlt)]
    exact hbefore j hj

namespace Lexicon

/-- The spellings that a lexicon has met, as a list. -/
abbrev words (lexicon : Lexicon) : List String := lexicon.spellings.toList

/-- The lexicon after it has met further names. -/
def knowing (lexicon : Lexicon) (names : List String) : Lexicon :=
  names.foldl (fun lexicon name => (lexicon.intern name).2) lexicon

/-- The reserved words come first. -/
def Proper (lexicon : Lexicon) : Prop := Keyword.all.map Keyword.spelling <+: lexicon.words

/-- Names are only added at the end, and so those that are known keep their symbols. -/
theorem words_prefix_intern (lexicon : Lexicon) (name : String) :
    lexicon.words <+: (lexicon.intern name).2.words := by
  unfold intern
  split
  · exact List.prefix_rfl
  · rw [words, words, Array.toList_push]
    exact List.prefix_append _ _

theorem words_prefix_knowing (lexicon : Lexicon) (names : List String) :
    lexicon.words <+: (lexicon.knowing names).words := by
  induction names generalizing lexicon with
  | nil => exact List.prefix_rfl
  | cons name names ih => exact (lexicon.words_prefix_intern name).trans (ih _)

/-- A symbol stands at the place of its spelling. -/
theorem idxOf?_intern (lexicon : Lexicon) (name : String) :
    (lexicon.intern name).2.words.idxOf? name = some (lexicon.intern name).1.id := by
  unfold intern
  split
  · next id hid => rwa [← List.idxOf?_toArray, Array.toArray_toList]
  · next hnone =>
    have hnew : name ∉ lexicon.words := by
      rw [Array.idxOf?_eq_none_iff] at hnone
      exact mt Array.mem_toList_iff.mp hnone
    rw [words, Array.toList_push, List.idxOf?_eq_some_iff]
    refine ⟨by simp, by simp, ?_⟩
    intro j hj hname
    rw [List.getElem_append_left (by simpa using hj)] at hname
    exact hnew (hname ▸ List.getElem_mem _)

/-- At the beginning the keywords are known, each as its own symbol. -/
theorem proper_reserved : reserved.Proper :=
  List.prefix_rfl

/-- Looking up a name keeps the keywords first. -/
theorem Proper.intern {lexicon : Lexicon} (h : lexicon.Proper) (name : String) :
    (lexicon.intern name).2.Proper :=
  h.trans (lexicon.words_prefix_intern name)

/-- And so do any number of names that were met before. -/
theorem Proper.knowing {lexicon : Lexicon} (h : lexicon.Proper) (names : List String) :
    (lexicon.knowing names).Proper :=
  h.trans (lexicon.words_prefix_knowing names)

/-- Where the reserved words come first, a word is reserved if it is spelled like one of them. -/
theorem Proper.keyword?_intern {lexicon : Lexicon} (h : lexicon.Proper) {name : String}
    {k : Keyword} : (lexicon.intern name).1.keyword? = some k ↔ k.spelling = name := by
  have hplace := lexicon.idxOf?_intern name
  have hproper := h.intern name
  constructor
  · intro hk
    obtain ⟨hlt, hk⟩ := List.getElem?_eq_some_iff.mp hk
    obtain ⟨_, hget, -⟩ := List.idxOf?_eq_some_iff.mp hplace
    rw [← hproper.getElem (by simpa using hlt), List.getElem_map, hk] at hget
    exact hget
  · rintro rfl
    have hmem : k.spelling ∈ Keyword.all.map Keyword.spelling :=
      List.mem_map_of_mem (Keyword.mem_all k)
    cases hi : (Keyword.all.map Keyword.spelling).idxOf? k.spelling with
    | none => exact absurd hmem (List.idxOf?_eq_none_iff.mp hi)
    | some i =>
        have hid := idxOf?_of_prefix hproper hi
        rw [hplace, Option.some_inj] at hid
        obtain ⟨hlt, hget, -⟩ := List.idxOf?_eq_some_iff.mp hi
        rw [List.getElem_map] at hget
        rw [Symbol.keyword?, hid, List.getElem?_eq_some_iff]
        exact ⟨by simpa using hlt, Keyword.spelling_injective hget⟩

end Lexicon

end Lox
