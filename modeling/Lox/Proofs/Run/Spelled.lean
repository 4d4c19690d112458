import Lox.Proofs.Run.Moved
import Lox.Proofs.Scan.Joining

/-!
# Programs spelled alike

Which symbol a name has depends on what the lexicon has met before.  A program can tell whether two
names are the same, and a function shows how it is spelled, but nothing else about a symbol can be
told: with the symbols of one lexicon a program runs as with those of another.
-/

namespace Lox

/-- Equal symbols of a lexicon are spelled alike, and the other way round. -/
theorem Lexicon.symbol_eq_iff (lexicon : Lexicon) {x y : Symbol} :
    lexicon.symbol x = lexicon.symbol y ↔ x.name = y.name := by
  constructor
  · intro h
    have hname := congrArg Symbol.name h
    rwa [symbol, symbol, name_intern, name_intern] at hname
  · intro h
    rw [symbol, symbol, h]

/-- The symbol that a lexicon has for a name is spelled like it. -/
@[simp] theorem Lexicon.name_symbol (lexicon : Lexicon) (x : Symbol) :
    (lexicon.symbol x).name = x.name :=
  lexicon.name_intern x.name

variable {lexicon lexicon' : Lexicon}

/-- Both runs have one program, the first one with the symbols of one lexicon and the second one
with those of another, also in the functions that the program declares. -/
def Translation.spelled (lexicon lexicon' : Lexicon) : Translation where
  symbol x x' := ∃ y : Symbol, x = lexicon.symbol y ∧ x' = lexicon'.symbol y
  line := Eq
  expr e e' := ∃ e₀ : Expr, e = e₀.rename lexicon.symbol id ∧ e' = e₀.rename lexicon'.symbol id
  stmt s s' := ∃ s₀ : Stmt, s = s₀.rename lexicon.symbol id ∧ s' = s₀.rename lexicon'.symbol id
  body ss ss' := ∃ ss₀ : List Stmt, ss = ss₀.map (Stmt.rename lexicon.symbol id) ∧
    ss' = ss₀.map (Stmt.rename lexicon'.symbol id)
  symbol_iff := by
    rintro _ _ _ _ ⟨x, rfl, rfl⟩ ⟨y, rfl, rfl⟩
    rw [Lexicon.symbol_eq_iff, Lexicon.symbol_eq_iff]
  expr_cases := by
    rintro _ _ ⟨e, rfl, rfl⟩
    exact .renames (fun x _ => ⟨x, rfl, rfl⟩) (fun _ => rfl) fun e _ => ⟨e, rfl, rfl⟩
  stmt_cases := by
    rintro _ _ ⟨s, rfl, rfl⟩
    refine .renames (fun x _ => ⟨x, rfl, rfl⟩) ?_ (fun e _ => ⟨e, rfl, rfl⟩) ?_ ?_
    · intro x _ _ _
      rw [Lexicon.name_symbol, Lexicon.name_symbol]
    · exact fun part _ => ⟨part, rfl, rfl⟩
    · exact fun _ _ ss _ => ⟨ss, rfl, rfl⟩
  body_cases := by
    rintro _ _ ⟨ss, rfl, rfl⟩
    refine List.forall₂_map_left_iff.mpr (List.forall₂_map_right_iff.mpr ?_)
    exact List.forall₂_same.mpr fun s _ => ⟨s, rfl, rfl⟩

/-- The runs may use all frames. -/
def Likeness.spelled (lexicon lexicon' : Lexicon) : Likeness where
  toTranslation := .spelled lexicon lexicon'
  frame _ _ := True
  start := 0
  kept _ := none
  kept' _ := none
  frame_mono _ := id
  frame_new _ := trivial

/-- A run fails as it does with other symbols: a name that is not defined shows in its spelling. -/
theorem Failure.Like.eq_of_spelled {e e' : Failure} (h : e.Like (.spelled lexicon lexicon') e') :
    e = e' := by
  cases h with
  | outputRefused => rfl
  | fault hl he =>
      cases hl
      cases he with
      | same _ => rfl
      | undefinedVariable hx =>
          obtain ⟨x, rfl, rfl⟩ := hx
          rw [Lexicon.name_symbol, Lexicon.name_symbol]

/-- A run goes on as it does with other symbols, if it starts so. -/
theorem like_execAll_spelled {clock : Nat → Number} {s s' : State} (fuel : Nat)
    (program : List Stmt) (hs : s.Like (.spelled lexicon lexicon') .empty s') :
    (execAll clock fuel globals (program.map (Stmt.rename lexicon.symbol id)) s).Like
      (.spelled lexicon lexicon') .empty s.store.frames.size
      (Flow.Like (.spelled lexicon lexicon'))
      (execAll clock fuel globals (program.map (Stmt.rename lexicon'.symbol id)) s') := by
  refine like_execAll fuel ?_ trivial hs
  exact (Likeness.spelled lexicon lexicon').body_cases ⟨program, rfl, rfl⟩

/-- At first only the clock is there, and its name has the same symbol in both lexicons. -/
theorem State.like_initial {clockName : Symbol} (room : Option Nat)
    (hclock : lexicon.symbol clockName = clockName)
    (hclock' : lexicon'.symbol clockName = clockName) :
    (State.initial clockName room).Like (.spelled lexicon lexicon') .empty
      (.initial clockName room) := by
  have hname : (Translation.spelled lexicon lexicon').symbol clockName clockName :=
    ⟨clockName, hclock.symm, hclock'.symm⟩
  exact State.like_initial_everywhere (fun _ _ hy => Translation.symbol_iff _ hy hname) rfl room

end Lox
