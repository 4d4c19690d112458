import Lox.Piece

/-!
# Comments in comments

The marks of block comments are paired from left to right.  The comments that are open are counted,
and the count has a bound: what stands behind the mark that opens a comment is closed by its own
mark, or it overruns, or neither.  Main statement: `closeComment` splits a text behind a front part
that is of one of the first two kinds, and finds none only if there is none.
-/

namespace Lox

/-! ## Texts of comments -/

/-- The text behind the mark that opens a comment, up to and with the mark that closes it.  In
between stand whole comments, and characters at which neither mark begins.  No more than `room`
comments are open at once inside. -/
inductive Enclosed : (room : Nat) → List Char → Prop
  | close {room : Nat} : Enclosed room ['*', '/']
  | comment {room : Nat} {inner cs : List Char} :
      Enclosed room inner → Enclosed (room + 1) cs →
      Enclosed (room + 1) ('/' :: '*' :: (inner ++ cs))
  | char {room : Nat} {c : Char} {cs : List Char} :
      ¬['/', '*'] <+: c :: cs → ¬['*', '/'] <+: c :: cs → Enclosed room cs → Enclosed room (c :: cs)

/-- The text behind the mark that opens a comment, if it is not closed in front of the mark that
opens one comment too many inside, up to and with that mark. -/
inductive Overrun : (room : Nat) → List Char → Prop
  | mark : Overrun 0 ['/', '*']
  | inside {room : Nat} {cs : List Char} :
      Overrun room cs → Overrun (room + 1) ('/' :: '*' :: cs)
  | comment {room : Nat} {inner cs : List Char} :
      Enclosed room inner → Overrun (room + 1) cs →
      Overrun (room + 1) ('/' :: '*' :: (inner ++ cs))
  | char {room : Nat} {c : Char} {cs : List Char} :
      ¬['/', '*'] <+: c :: cs → ¬['*', '/'] <+: c :: cs → Overrun room cs → Overrun room (c :: cs)

theorem Enclosed.ne_nil {room : Nat} {cs : List Char} (h : Enclosed room cs) : cs ≠ [] := by
  cases h <;> exact List.cons_ne_nil _ _

theorem Overrun.ne_nil {room : Nat} {cs : List Char} (h : Overrun room cs) : cs ≠ [] := by
  cases h <;> exact List.cons_ne_nil _ _

namespace Piece

/-! ## Counting -/

/-- How many comments can be counted while they are open inside of one that is open as well. -/
def room : Nat := Nat.pow 2 31 - 2

/-- `depth` counts the comments that are open, and `room` more can be counted. -/
structure Counts (depth : Int32) (opened room : Nat) : Prop where
  toInt : depth.toInt = opened
  sum : opened + room = Nat.pow 2 31 - 1

namespace Counts

variable {depth : Int32} {opened room : Nat}

theorem one : Counts 1 1 Piece.room := ⟨rfl, rfl⟩

/-- As long as one is open, the count says so. -/
theorem pos (h : Counts depth (opened + 1) room) : 0 < depth := by
  rw [Int32.lt_iff_toInt_lt, h.toInt]
  exact Int.natCast_pos.mpr (Nat.succ_pos opened)

/-- If the count says so, one is open. -/
theorem exists_succ (h : Counts depth opened room) (hpos : 0 < depth) :
    ∃ n, opened = n + 1 := by
  rw [Int32.lt_iff_toInt_lt, h.toInt] at hpos
  exact Nat.exists_eq_add_one.mpr (Int.natCast_pos.mp hpos)

/-- If it does not, none is open. -/
theorem eq_zero (h : Counts depth opened room) (hpos : ¬0 < depth) : opened = 0 := by
  rw [Int32.lt_iff_toInt_lt, h.toInt] at hpos
  exact Nat.eq_zero_of_not_pos fun h => hpos (Int.natCast_pos.mpr h)

/-- One more is opened. -/
theorem succ (h : Counts depth opened (room + 1)) : Counts (depth + 1) (opened + 1) room := by
  obtain ⟨hopened, hroom⟩ := h
  have hone : (1 : Int32).toInt = 1 := rfl
  refine ⟨?_, (Nat.succ_add_eq_add_succ opened room).trans hroom⟩
  rw [Nat.pow_eq] at hroom
  rw [Int32.toInt_add, hopened, hone]
  exact Int.bmod_eq_of_le (by omega) (by omega)

/-- One is closed. -/
theorem pred (h : Counts depth (opened + 1) room) : Counts (depth - 1) opened (room + 1) := by
  obtain ⟨hopened, hroom⟩ := h
  have hone : (1 : Int32).toInt = 1 := rfl
  refine ⟨?_, (Nat.succ_add_eq_add_succ opened room).symm.trans hroom⟩
  rw [Nat.pow_eq] at hroom
  rw [Int32.toInt_sub, hopened, hone]
  rw [Int.bmod_eq_of_le (by omega) (by omega)]
  omega

/-- Without room, the count goes below zero. -/
theorem not_pos_succ (h : Counts depth opened 0) : ¬0 < depth + 1 := by
  have hmax : depth.toInt = Int32.maxValue.toInt := by
    rw [h.toInt, ← Nat.add_zero opened, h.sum]
    rfl
  rw [Int32.toInt_inj.mp hmax]
  decide

end Counts

/-- Whether a mark begins at a character is seen at this one and the next. -/
theorem marks_append {c : Char} {cs : List Char} (hcs : cs ≠ []) (hopen : ¬['/', '*'] <+: c :: cs)
    (hclose : ¬['*', '/'] <+: c :: cs) (rest : List Char) :
    ¬['/', '*'] <+: c :: (cs ++ rest) ∧ ¬['*', '/'] <+: c :: (cs ++ rest) := by
  obtain ⟨d, cs, rfl⟩ := List.exists_cons_of_ne_nil hcs
  simpa only [List.cons_append, List.cons_prefix_cons, List.nil_prefix, and_true] using
    And.intro hopen hclose

/-- Where no mark begins in a text, none begins in a front part of it. -/
theorem marks_of_prefix {c : Char} {cs front : List Char}
    (hopen : ∀ tail, c = '/' → cs = '*' :: tail → False)
    (hclose : ∀ tail, c = '*' → cs = '/' :: tail → False) (hfront : front <+: cs) :
    ¬['/', '*'] <+: c :: front ∧ ¬['*', '/'] <+: c :: front := by
  constructor
  · intro hmark
    obtain ⟨rfl, hstar⟩ := List.cons_prefix_cons.mp hmark
    obtain ⟨tail, rfl⟩ := hstar.trans hfront
    exact hopen tail rfl rfl
  · intro hmark
    obtain ⟨rfl, hslash⟩ := List.cons_prefix_cons.mp hmark
    obtain ⟨tail, rfl⟩ := hslash.trans hfront
    exact hclose tail rfl rfl

/-- An enclosed text closes one comment. -/
theorem closeComment_enclosed {room : Nat} {body : List Char} (h : Enclosed room body)
    {depth : Int32} {opened : Nat} (hcounts : Counts depth (opened + 1) room) (rest : List Char) :
    closeComment depth (body ++ rest) =
      (closeComment (depth - 1) rest).map fun (b, r) => (body ++ b, r) := by
  induction h generalizing depth opened rest with
  | close => exact closeComment_close hcounts.pos rest
  | comment _ _ ih₁ ih₂ =>
      rw [List.cons_append, List.cons_append, closeComment_open hcounts.pos, List.append_assoc,
        ih₁ hcounts.succ, Int32.add_sub_cancel, ih₂ hcounts]
      simp only [Option.map_map, Function.comp_def, List.append_assoc, List.cons_append]
  | char hopen hclose hcs ih =>
      obtain ⟨hopen, hclose⟩ := marks_append hcs.ne_nil hopen hclose rest
      rw [List.cons_append, closeComment_char hcounts.pos hopen hclose, ih hcounts]
      simp only [Option.map_map, Function.comp_def, List.cons_append]

/-- A text that overruns is split behind its last mark. -/
theorem closeComment_overrun {room : Nat} {body : List Char} (h : Overrun room body)
    {depth : Int32} {opened : Nat} (hcounts : Counts depth (opened + 1) room) (rest : List Char) :
    closeComment depth (body ++ rest) = some (body, rest) := by
  induction h generalizing depth opened rest with
  | mark =>
      refine (closeComment_open hcounts.pos rest).trans ?_
      rw [closeComment_of_not_pos hcounts.not_pos_succ]
      rfl
  | inside _ ih =>
      rw [List.cons_append, List.cons_append, closeComment_open hcounts.pos, ih hcounts.succ]
      rfl
  | comment hinner _ ih =>
      rw [List.cons_append, List.cons_append, closeComment_open hcounts.pos, List.append_assoc,
        closeComment_enclosed hinner hcounts.succ, Int32.add_sub_cancel, ih hcounts]
      rfl
  | char hopen hclose hcs ih =>
      obtain ⟨hopen, hclose⟩ := marks_append hcs.ne_nil hopen hclose rest
      rw [List.cons_append, closeComment_char hcounts.pos hopen hclose, ih hcounts]
      rfl

/-- What closes so many comments, where there is room for more: as many texts that are enclosed, one
behind the other, or fewer and one that overruns. -/
inductive Closing : (opened room : Nat) → List Char → Prop
  | none {room : Nat} : Closing 0 room []
  | part {opened room : Nat} {first last : List Char} :
      Enclosed room first → Closing opened (room + 1) last →
      Closing (opened + 1) room (first ++ last)
  | overrun {opened room : Nat} {cs : List Char} : Overrun room cs → Closing (opened + 1) room cs

/-- What is split off closes the comments that are open. -/
theorem closing_of_closeComment {depth : Int32} {opened room : Nat}
    (hcounts : Counts depth opened room) {cs body rest : List Char}
    (h : closeComment depth cs = some (body, rest)) : Closing opened room body := by
  fun_induction closeComment depth cs generalizing opened room body rest with
  | case1 => cases h
  | case2 depth hpos cs ih =>
      obtain ⟨⟨inside, _⟩, hinside, ⟨⟩⟩ := Option.map_eq_some_iff.mp h
      obtain ⟨opened, rfl⟩ := hcounts.exists_succ hpos
      cases room with
      | zero =>
          rw [closeComment_of_not_pos hcounts.not_pos_succ] at hinside
          cases hinside
          exact .overrun .mark
      | succ room =>
          cases ih hcounts.succ hinside with
          | overrun hover => exact .overrun (.inside hover)
          | part hinner hlast =>
              cases hlast with
              | overrun hover => exact .overrun (.comment hinner hover)
              | part hfirst hlast =>
                  rw [← List.append_assoc]
                  exact .part (.comment hinner hfirst) hlast
  | case3 depth hpos cs ih =>
      obtain ⟨⟨last, _⟩, hlast, ⟨⟩⟩ := Option.map_eq_some_iff.mp h
      obtain ⟨opened, rfl⟩ := hcounts.exists_succ hpos
      exact .part .close (ih hcounts.pred hlast)
  | case4 depth hpos c cs hopen hclose ih =>
      obtain ⟨⟨body, rest⟩, hbody, ⟨⟩⟩ := Option.map_eq_some_iff.mp h
      obtain ⟨opened, rfl⟩ := hcounts.exists_succ hpos
      have hcs : body <+: cs := ⟨rest, closeComment_append hbody⟩
      cases ih hcounts hbody with
      | overrun hover =>
          obtain ⟨hopen, hclose⟩ := marks_of_prefix hopen hclose hcs
          exact .overrun (.char hopen hclose hover)
      | part hfirst hlast =>
          obtain ⟨hopen, hclose⟩ :=
            marks_of_prefix hopen hclose ((List.prefix_append _ _).trans hcs)
          exact .part (.char hopen hclose hfirst) hlast
  | case5 depth cs hpos =>
      cases h
      obtain rfl := hcounts.eq_zero hpos
      exact .none

/-- A text is split behind a front part that is enclosed or overruns, if it has one. -/
theorem closeComment_eq_some {cs body rest : List Char} :
    closeComment 1 cs = some (body, rest) ↔
      (Enclosed room body ∨ Overrun room body) ∧ body ++ rest = cs := by
  constructor
  · intro h
    refine ⟨?_, closeComment_append h⟩
    cases closing_of_closeComment .one h with
    | overrun hover => exact .inr hover
    | part hfirst hlast =>
        cases hlast
        rw [List.append_nil]
        exact .inl hfirst
  · rintro ⟨henclosed | hover, rfl⟩
    · rw [closeComment_enclosed henclosed .one, Int32.sub_self, closeComment_of_not_pos (by decide)]
      simp
    · exact closeComment_overrun hover .one rest

/-- There is nothing to split behind if no front part of the text is of either kind. -/
theorem closeComment_eq_none {cs : List Char} :
    closeComment 1 cs = none ↔ ∀ body, body <+: cs → ¬Enclosed room body ∧ ¬Overrun room body := by
  constructor
  · rintro h body ⟨rest, rfl⟩
    rw [← not_or]
    intro hsplit
    rw [closeComment_eq_some.mpr ⟨hsplit, rfl⟩] at h
    cases h
  · intro h
    cases hclose : closeComment 1 cs with
    | none => rfl
    | some split =>
        obtain ⟨hsplit, hcs⟩ := closeComment_eq_some.mp hclose
        exact absurd hsplit (not_or.mpr (h _ ⟨_, hcs⟩))

/-! ## Marks that open comments -/

end Piece

end Lox
