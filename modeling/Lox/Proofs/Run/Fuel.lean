import Lox.Eval

/-!
# More fuel

A run that does not lack fuel ends in the same way with any larger amount of it.  Outcomes are put
in order for this: to lack fuel is below everything else, and every other outcome is below itself
only.  The order is kept by sequences, and so by every task of the evaluator.
-/

namespace Lox

namespace Outcome

variable {α β : Type}

instance (o : Outcome α) : Decidable (o = .outOfFuel) :=
  match o with
  | .done _ _ => isFalse nofun
  | .failed _ _ => isFalse nofun
  | .outOfFuel => isTrue rfl

/-- The outcomes are the same, if fuel was not lacking for the first one. -/
def Le (o o' : Outcome α) : Prop := o = .outOfFuel ∨ o = o'

theorem le_refl (o : Outcome α) : o.Le o := .inr rfl

/-- More fuel than more fuel is more fuel. -/
theorem le_trans {o o' o'' : Outcome α} : o.Le o' → o'.Le o'' → o.Le o'' := by
  rintro (rfl | rfl) h
  · exact .inl rfl
  · exact h

/-- An outcome for which there was enough fuel is the outcome with more. -/
theorem Le.eq {o o' : Outcome α} (h : o.Le o') (hne : o ≠ .outOfFuel) : o' = o := by
  rcases h with rfl | rfl
  · exact absurd rfl hne
  · rfl

/-- Outcomes that grow with every unit of fuel grow with fuel. -/
theorem le_of_le {o : Nat → Outcome α} (h : ∀ n, (o n).Le (o (n + 1))) {n m : Nat} (hnm : n ≤ m) :
    (o n).Le (o m) := by
  induction hnm with
  | refl => exact le_refl _
  | step _ ih => exact le_trans ih (h _)

/-- What comes second has to be compared only from where both of the first are done. -/
theorem Le.bind_of_done {x x' : Action α} {f f' : α → Action β} {s : State}
    (hx : (x s).Le (x' s))
    (hf : ∀ a t, x s = .done a t → x' s = .done a t → (f a t).Le (f' a t)) :
    ((x >>= f) s).Le ((x' >>= f') s) := by
  rw [Action.bind_apply, Action.bind_apply]
  rcases hx with hx | hx
  · rw [hx]
    exact .inl rfl
  · rw [← hx]
    cases hdone : x s with
    | done a t => exact hf a t hdone (hx ▸ hdone)
    | failed e t => exact le_refl _
    | outOfFuel => exact le_refl _

/-- Both steps may be given more fuel. -/
theorem Le.bind {x x' : Action α} {f f' : α → Action β} {s : State} (hx : (x s).Le (x' s))
    (hf : ∀ a s, (f a s).Le (f' a s)) : ((x >>= f) s).Le ((x' >>= f') s) :=
  hx.bind_of_done fun a t _ _ => hf a t

/-- Where each run stays below one of the other kind, the same outcomes are reached, apart from that
of lacking fuel. -/
theorem exists_eq_iff_of_le {o o' : Nat → Outcome α} (h : ∀ n, ∃ m, (o n).Le (o' m))
    (h' : ∀ n, ∃ m, (o' n).Le (o m)) {r : Outcome α} (hr : r ≠ .outOfFuel) :
    (∃ n, o n = r) ↔ ∃ n, o' n = r := by
  constructor
  · rintro ⟨n, rfl⟩
    obtain ⟨m, hle⟩ := h n
    exact ⟨m, hle.eq hr⟩
  · rintro ⟨n, rfl⟩
    obtain ⟨m, hle⟩ := h' n
    exact ⟨m, hle.eq hr⟩

theorem le_ite {c : Prop} [Decidable c] {x x' y y' : Action α} {s : State} (hx : (x s).Le (x' s))
    (hy : (y s).Le (y' s)) : ((if c then x else y) s).Le ((if c then x' else y') s) := by
  split
  · exact hx
  · exact hy

end Outcome

open Lox.Outcome

mutual

/-- One more unit of fuel changes nothing but that it may be enough.  The induction is the recursion
of the evaluator. -/
theorem eval_le_succ {clock : Nat → Number} {i : FrameId} {e : Expr} {s : State} (fuel : Nat) :
    (eval clock fuel i e s).Le (eval clock (fuel + 1) i e s) := by
  match fuel, e with
  | 0, _ => exact .inl rfl
  | _ + 1, .literal _ => exact le_refl _
  | fuel + 1, .group e => exact eval_le_succ fuel
  | _ + 1, .var _ _ => exact le_refl _
  | fuel + 1, .assign x e line =>
      refine (eval_le_succ fuel).bind ?_
      exact fun v s => le_refl _
  | fuel + 1, .unary op e line =>
      refine (eval_le_succ fuel).bind ?_
      exact fun v s => le_refl _
  | fuel + 1, .binary op left right line =>
      refine (eval_le_succ fuel).bind fun v s => ?_
      refine (eval_le_succ fuel).bind fun w s => ?_
      exact le_refl _
  | fuel + 1, .logical .and left right =>
      refine (eval_le_succ fuel).bind fun v s => ?_
      exact le_ite (eval_le_succ fuel) (le_refl _)
  | fuel + 1, .logical .or left right =>
      refine (eval_le_succ fuel).bind fun v s => ?_
      exact le_ite (le_refl _) (eval_le_succ fuel)
  | fuel + 1, .conditional condition yes no =>
      refine (eval_le_succ fuel).bind fun v s => ?_
      exact le_ite (eval_le_succ fuel) (eval_le_succ fuel)
  | fuel + 1, .call callee args line =>
      refine (eval_le_succ fuel).bind fun v s => ?_
      refine (evalAll_le_succ fuel).bind fun vs s => ?_
      cases v with
      | function f => exact le_ite (call_le_succ fuel) (le_refl _)
      | _ => exact le_refl _
termination_by structural fuel

theorem evalAll_le_succ {clock : Nat → Number} {i : FrameId} {es : List Expr} {s : State}
    (fuel : Nat) : (evalAll clock fuel i es s).Le (evalAll clock (fuel + 1) i es s) := by
  match fuel, es with
  | 0, _ => exact .inl rfl
  | _ + 1, [] => exact le_refl _
  | fuel + 1, e :: es =>
      refine (eval_le_succ fuel).bind fun v s => ?_
      refine (evalAll_le_succ fuel).bind fun vs s => ?_
      exact le_refl _
termination_by structural fuel

theorem call_le_succ {clock : Nat → Number} {f : Function} {args : List Value} {s : State}
    (fuel : Nat) : (call clock fuel f args s).Le (call clock (fuel + 1) f args s) := by
  match fuel, f with
  | 0, _ => exact .inl rfl
  | _ + 1, ⟨_, _, .native .clock _⟩ => exact le_refl _
  | _ + 1, ⟨_, _, .native (.host _) _⟩ => exact le_refl _
  | fuel + 1, ⟨_, _, .closure params body parent⟩ =>
      refine (le_refl _).bind fun frame s => ?_
      refine (le_refl _).bind fun _ s => ?_
      refine (execAll_le_succ fuel).bind fun flow s => ?_
      exact le_refl _
termination_by structural fuel

theorem exec_le_succ {clock : Nat → Number} {i : FrameId} {st : Stmt} {s : State} (fuel : Nat) :
    (exec clock fuel i st s).Le (exec clock (fuel + 1) i st s) := by
  match fuel, st with
  | 0, _ => exact .inl rfl
  | fuel + 1, .expr e =>
      refine (eval_le_succ fuel).bind ?_
      exact fun v s => le_refl _
  | fuel + 1, .print e =>
      refine (eval_le_succ fuel).bind ?_
      exact fun v s => le_refl _
  | _ + 1, .var _ none => exact le_refl _
  | fuel + 1, .var x (some e) =>
      refine (eval_le_succ fuel).bind ?_
      exact fun v s => le_refl _
  | fuel + 1, .block body =>
      refine (le_refl _).bind fun inner s => ?_
      exact execAll_le_succ fuel
  | fuel + 1, .ifThen e yes =>
      refine (eval_le_succ fuel).bind fun v s => ?_
      exact le_ite (exec_le_succ fuel) (le_refl _)
  | fuel + 1, .ifElse e yes no =>
      refine (eval_le_succ fuel).bind fun v s => ?_
      exact le_ite (exec_le_succ fuel) (exec_le_succ fuel)
  | fuel + 1, .while_ e body =>
      refine (eval_le_succ fuel).bind fun v s => ?_
      refine le_ite ?_ (le_refl _)
      refine (exec_le_succ fuel).bind fun flow s => ?_
      cases flow with
      | normal => exact exec_le_succ fuel
      | break_ => exact le_refl _
      | return_ v => exact le_refl _
  | _ + 1, .break_ => exact le_refl _
  | _ + 1, .function _ _ _ => exact le_refl _
  | _ + 1, .return_ none => exact le_refl _
  | fuel + 1, .return_ (some e) =>
      refine (eval_le_succ fuel).bind ?_
      exact fun v s => le_refl _
termination_by structural fuel

theorem execAll_le_succ {clock : Nat → Number} {i : FrameId} {ss : List Stmt} {s : State}
    (fuel : Nat) : (execAll clock fuel i ss s).Le (execAll clock (fuel + 1) i ss s) := by
  match fuel, ss with
  | 0, _ => exact .inl rfl
  | _ + 1, [] => exact le_refl _
  | fuel + 1, st :: ss =>
      refine (exec_le_succ fuel).bind fun flow s => ?_
      cases flow with
      | normal => exact execAll_le_succ fuel
      | break_ => exact le_refl _
      | return_ v => exact le_refl _
termination_by structural fuel

end

section

variable {clock : Nat → Number} {i : FrameId} {s : State} {n m : Nat}

/-- Any more fuel changes nothing either. -/
theorem eval_le {e : Expr} (h : n ≤ m) : (eval clock n i e s).Le (eval clock m i e s) :=
  le_of_le (o := fun n => eval clock n i e s) eval_le_succ h

theorem exec_le {st : Stmt} (h : n ≤ m) : (exec clock n i st s).Le (exec clock m i st s) :=
  le_of_le (o := fun n => exec clock n i st s) exec_le_succ h

theorem execAll_le {ss : List Stmt} (h : n ≤ m) :
    (execAll clock n i ss s).Le (execAll clock m i ss s) :=
  le_of_le (o := fun n => execAll clock n i ss s) execAll_le_succ h

theorem run_le {program : List Stmt} (h : n ≤ m) :
    (run clock n program s).Le (run clock m program s) :=
  (execAll_le h).bind fun _ _ => le_refl _

end

end Lox
