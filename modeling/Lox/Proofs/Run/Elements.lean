import Lox.Eval

/-!
# What actions are made of

The evaluator works on the state through a few elementary actions, one after the other, and what it
does next depends on the values that they gave.  So a property of actions holds of every task if the
elementary actions have it and sequences keep it.
-/

namespace Lox

namespace Action

variable {α β γ : Type}

theorem bind_pure_eq (x : Action α) : x >>= pure = x := by
  funext s
  rw [bind_apply]
  cases x s <;> rfl

theorem bind_bind_eq (x : Action α) (f : α → Action β) (g : β → Action γ) :
    x >>= f >>= g = x >>= fun a => f a >>= g := by
  funext s
  rw [bind_apply, bind_apply, bind_apply]
  cases x s <;> rfl

instance : LawfulMonad Action := .mk' Action bind_pure_eq (fun _ _ => rfl) bind_bind_eq

end Action

/-- The action is a sequence of elementary ones. -/
inductive Action.Composed (clock : Nat → Number) : {α : Type} → Action α → Prop
  | pure {α : Type} (a : α) : Composed clock (Pure.pure a)
  | bind {α β : Type} {x : Action α} {f : α → Action β} :
      Composed clock x → (∀ a, Composed clock (f a)) → Composed clock (x >>= f)
  | exhausted {α : Type} : Composed clock (Action.exhausted : Action α)
  | fault {α : Type} (line : Position) (e : Fault) :
      Composed clock (fail (.fault line e) : Action α)
  | newFrame (parent : Option FrameId) : Composed clock (newFrame parent)
  | define (i : FrameId) (x : Symbol) (v : Value) : Composed clock (define i x v)
  | get (i : FrameId) (x : Symbol) (line : Position) : Composed clock (get i x line)
  | assign (i : FrameId) (x : Symbol) (v : Value) (line : Position) :
      Composed clock (assign i x v line)
  | defineFunction (i : FrameId) (x : Symbol) (code : Code) :
      Composed clock (defineFunction i x code)
  | print (v : Value) : Composed clock (print v)
  | readClock : Composed clock (readClock clock)

namespace Action.Composed

variable {clock : Nat → Number} {α : Type}

/-- A choice is composed if both of its sides are. -/
theorem ite {c : Prop} [Decidable c] {x y : Action α} (hx : Composed clock x)
    (hy : Composed clock y) : Composed clock (if c then x else y) := by
  split
  · exact hx
  · exact hy

theorem blame (line : Position) (r : Except Fault α) : Composed clock (Action.blame line r) := by
  cases r with
  | ok a => exact .pure a
  | error e => exact .fault line e

/-- Any number of names are defined one by one. -/
theorem defineAll (i : FrameId) (bs : List (Symbol × Value)) :
    Composed clock (Action.defineAll i bs) := by
  induction bs with
  | nil => exact .pure ()
  | cons b bs ih => exact .bind (.define i b.1 b.2) fun _ => ih

end Action.Composed

open Lox.Action

mutual

/-- Every run is composed of single steps.  The induction is the recursion of the evaluator. -/
theorem composed_eval {clock : Nat → Number} {i : FrameId} {e : Expr} (fuel : Nat) :
    Composed clock (eval clock fuel i e) := by
  match fuel, e with
  | 0, _ => exact .exhausted
  | _ + 1, .literal _ => exact .pure _
  | fuel + 1, .group e => exact composed_eval fuel
  | _ + 1, .var _ line => exact .get _ _ line
  | fuel + 1, .assign x e line =>
      refine .bind (composed_eval fuel) fun v => ?_
      exact .bind (.assign i x v line) fun _ => .pure v
  | fuel + 1, .unary op e line =>
      refine .bind (composed_eval fuel) fun v => ?_
      exact .blame line _
  | fuel + 1, .binary op left right line =>
      refine .bind (composed_eval fuel) fun v => ?_
      refine .bind (composed_eval fuel) fun w => ?_
      exact .blame line _
  | fuel + 1, .logical .and left right =>
      refine .bind (composed_eval fuel) fun v => ?_
      exact .ite (composed_eval fuel) (.pure v)
  | fuel + 1, .logical .or left right =>
      refine .bind (composed_eval fuel) fun v => ?_
      exact .ite (.pure v) (composed_eval fuel)
  | fuel + 1, .conditional condition yes no =>
      refine .bind (composed_eval fuel) fun v => ?_
      exact .ite (composed_eval fuel) (composed_eval fuel)
  | fuel + 1, .call callee args line =>
      refine .bind (composed_eval fuel) fun v => ?_
      refine .bind (composed_evalAll fuel) fun vs => ?_
      cases v with
      | function f => exact .ite (composed_call fuel) (.fault line _)
      | _ => exact .fault line _
termination_by structural fuel

theorem composed_evalAll {clock : Nat → Number} {i : FrameId} {es : List Expr} (fuel : Nat) :
    Composed clock (evalAll clock fuel i es) := by
  match fuel, es with
  | 0, _ => exact .exhausted
  | _ + 1, [] => exact .pure _
  | fuel + 1, e :: es =>
      refine .bind (composed_eval fuel) fun v => ?_
      exact .bind (composed_evalAll fuel) fun vs => .pure _
termination_by structural fuel

theorem composed_call {clock : Nat → Number} {f : Function} {args : List Value} (fuel : Nat) :
    Composed clock (call clock fuel f args) := by
  match fuel, f with
  | 0, _ => exact .exhausted
  | _ + 1, ⟨_, _, .native .clock _⟩ => exact .bind .readClock fun now => .pure _
  | _ + 1, ⟨_, _, .native (.host _) _⟩ => exact .pure _
  | fuel + 1, ⟨_, _, .closure params body parent⟩ =>
      refine .bind (.newFrame _) fun frame => ?_
      refine .bind (.defineAll frame _) fun _ => ?_
      refine .bind (composed_execAll fuel) fun flow => ?_
      cases flow <;> exact .pure _
termination_by structural fuel

theorem composed_exec {clock : Nat → Number} {i : FrameId} {st : Stmt} (fuel : Nat) :
    Composed clock (exec clock fuel i st) := by
  match fuel, st with
  | 0, _ => exact .exhausted
  | fuel + 1, .expr e => exact .bind (composed_eval fuel) fun v => .pure _
  | fuel + 1, .print e =>
      refine .bind (composed_eval fuel) fun v => ?_
      exact .bind (.print v) fun _ => .pure _
  | _ + 1, .var x none => exact .bind (.define i x .nil) fun _ => .pure _
  | fuel + 1, .var x (some e) =>
      refine .bind (composed_eval fuel) fun v => ?_
      exact .bind (.define i x v) fun _ => .pure _
  | fuel + 1, .block body => exact .bind (.newFrame _) fun inner => composed_execAll fuel
  | fuel + 1, .ifThen e yes =>
      refine .bind (composed_eval fuel) fun v => ?_
      exact .ite (composed_exec fuel) (.pure _)
  | fuel + 1, .ifElse e yes no =>
      refine .bind (composed_eval fuel) fun v => ?_
      exact .ite (composed_exec fuel) (composed_exec fuel)
  | fuel + 1, .while_ e body =>
      refine .bind (composed_eval fuel) fun v => ?_
      refine .ite ?_ (.pure _)
      refine .bind (composed_exec fuel) fun flow => ?_
      cases flow with
      | normal => exact composed_exec fuel
      | break_ => exact .pure _
      | return_ v => exact .pure _
  | _ + 1, .break_ => exact .pure _
  | _ + 1, .function f params body =>
      exact .bind (.defineFunction i f _) fun _ => .pure _
  | _ + 1, .return_ none => exact .pure _
  | fuel + 1, .return_ (some e) => exact .bind (composed_eval fuel) fun v => .pure _
termination_by structural fuel

theorem composed_execAll {clock : Nat → Number} {i : FrameId} {ss : List Stmt} (fuel : Nat) :
    Composed clock (execAll clock fuel i ss) := by
  match fuel, ss with
  | 0, _ => exact .exhausted
  | _ + 1, [] => exact .pure _
  | fuel + 1, st :: ss =>
      refine .bind (composed_exec fuel) fun flow => ?_
      cases flow with
      | normal => exact composed_execAll fuel
      | break_ => exact .pure _
      | return_ v => exact .pure _
termination_by structural fuel

end

/-- Running a program is a sequence of elementary actions. -/
theorem composed_run {clock : Nat → Number} {fuel : Nat} {program : List Stmt} :
    Composed clock (run clock fuel program) :=
  .bind (composed_execAll fuel) fun _ => .pure ()

end Lox
