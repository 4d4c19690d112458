import Lox.Proofs.Run.Reach

/-!
# Programs on other lines

A program whose lines are all counted from further on runs as before, and so do the functions that
it declares; only faults are blamed on other lines.  Both programs may find functions in their
stores that come from elsewhere, and these are the same for both.
-/

namespace Lox

/-! ## Functions of a program -/

/-- A function with the given body is declared somewhere in the statement. -/
inductive Stmt.Declares : Stmt → List Stmt → Prop
  | function {f : Symbol} {params : List Symbol} {body : List Stmt} :
      Declares (.function f params body) body
  | part {s part : Stmt} {body : List Stmt} :
      part ∈ s.parts → Declares part body → Declares s body

/-- The body of a function declares for the statement that declares the function. -/
theorem Stmt.Declares.trans {s inner : Stmt} {body body' : List Stmt} (h : s.Declares body)
    (hinner : inner ∈ body) (h' : inner.Declares body') : s.Declares body' := by
  induction h with
  | function => exact .part hinner h'
  | part hpart _ ih => exact .part hpart (ih hinner)

/-- Somewhere in the program a function with the given body is declared. -/
def DeclaredIn (program body : List Stmt) : Prop := ∃ s ∈ program, s.Declares body

/-! ## Likeness -/

/-- The second run counts the lines of the program from `k` lines further on, also in the functions
that the program declares, and has everything else in common with the first run. -/
def Translation.moved (k : Nat) (program : List Stmt) : Translation where
  symbol := Eq
  line l l' := l' = l ∨ l' = l + .ofNat k
  expr e e' := e' = e ∨ e' = e.rename id (· + .ofNat k)
  stmt s s' := s' = s ∨
    s' = s.rename id (· + .ofNat k) ∧ ∀ body, s.Declares body → DeclaredIn program body
  body ss ss' := ss' = ss ∨ ss' = ss.map (Stmt.rename id (· + .ofNat k)) ∧ DeclaredIn program ss
  symbol_iff := eq_iff_of_eq
  expr_cases := by
    rintro _ e (rfl | rfl)
    · exact .refl (fun _ => rfl) (fun _ => .inl rfl) (fun _ => .inl rfl) e
    · exact .rename (fun _ _ => rfl) (fun _ => .inr rfl) fun _ _ => .inr rfl
  stmt_cases := by
    rintro _ s (rfl | ⟨rfl, hdeclares⟩)
    · exact .refl (fun _ => rfl) (fun _ => .inl rfl) (fun _ => .inl rfl) (fun _ => .inl rfl) s
    · refine .rename (fun _ _ => rfl) (fun _ _ _ _ => rfl) (fun _ _ => .inr rfl) ?_ ?_
      · exact fun part hpart => .inr ⟨rfl, fun body hbody => hdeclares body (.part hpart hbody)⟩
      · rintro name params ss rfl
        exact .inr ⟨rfl, hdeclares ss .function⟩
  body_cases := by
    rintro _ ss (rfl | ⟨rfl, s, hs, hdeclares⟩)
    · exact List.forall₂_same.mpr fun _ _ => .inl rfl
    · refine List.forall₂_map_right_iff.mpr (List.forall₂_same.mpr fun inner hinner => ?_)
      exact .inr ⟨rfl, fun body hbody => ⟨s, hs, hdeclares.trans hinner hbody⟩⟩

/-- The runs may use all frames. -/
def Likeness.moved (k : Nat) (program : List Stmt) : Likeness where
  toTranslation := .moved k program
  frame _ _ := True
  start := 0
  kept _ := none
  kept' _ := none
  frame_mono _ := id
  frame_new _ := trivial

section

variable {k : Nat} {program : List Stmt}

/-- A store is like itself, whatever functions are in it. -/
theorem Store.like_moved (store : Store) : store.Like (.moved k program) store where
  size_eq := rfl
  functions_eq := rfl
  start_le := Nat.zero_le _
  inside i _ := by
    cases store.frames[i]? with
    | none => exact .none
    | some frame =>
        refine .some ⟨rfl, fun _ _ => trivial, ?_⟩
        rintro x _ rfl
        cases frame.lookup x with
        | none => exact .none
        | some v =>
            refine .some (Value.like_self (fun _ => rfl) (fun _ => ?_) fun _ _ => trivial)
            exact .inl rfl
  outside i hi := absurd ⟨0, trivial⟩ hi

/-- A run that fails on moved lines fails as before, except for the line to blame. -/
theorem Failure.Like.of_moved {e e' : Failure} (h : e.Like (.moved k program) e') :
    (∃ l l' fault, e = .fault l fault ∧ e' = .fault l' fault ∧ (l' = l ∨ l' = l + .ofNat k)) ∨
      e = .outputRefused ∧ e' = .outputRefused := by
  cases h with
  | outputRefused => exact .inr ⟨rfl, rfl⟩
  | fault hl he =>
      cases he with
      | same _ => exact .inl ⟨_, _, _, rfl, rfl, hl⟩
      | undefinedVariable hx =>
          cases hx
          exact .inl ⟨_, _, _, rfl, rfl, hl⟩

end

end Lox
