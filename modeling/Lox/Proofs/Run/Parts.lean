import Lox.Eval
import Mathlib.Logic.Relation

/-!
# The parts of a run

The evaluator works on tasks: it evaluates expressions, calls functions and executes statements,
and each task starts others.  `Starts` lists which ones, with the state in which each of them
begins, one rule for every place where the evaluator calls itself.  What is started at any depth
happens `During` the task.
-/

namespace Lox

/-- What the evaluator is asked to do. -/
inductive Task
  | eval (frame : FrameId) (e : Expr)
  | evalAll (frame : FrameId) (es : List Expr)
  | call (f : Function) (args : List Value)
  | exec (frame : FrameId) (s : Stmt)
  | execAll (frame : FrameId) (ss : List Stmt)

/-- A task that is about to begin. -/
structure Moment where
  fuel : Nat
  task : Task
  state : State

/-- The first task starts the second one as a part of its own work. -/
inductive Starts (clock : Nat → Number) : Moment → Moment → Prop
  | group {n : Nat} {i : FrameId} {e : Expr} {s : State} :
      Starts clock ⟨n + 1, .eval i (.group e), s⟩ ⟨n, .eval i e, s⟩
  | assign {n : Nat} {i : FrameId} {x : Symbol} {e : Expr} {line : Position} {s : State} :
      Starts clock ⟨n + 1, .eval i (.assign x e line), s⟩ ⟨n, .eval i e, s⟩
  | unary {n : Nat} {i : FrameId} {op : UnaryOp} {e : Expr} {line : Position} {s : State} :
      Starts clock ⟨n + 1, .eval i (.unary op e line), s⟩ ⟨n, .eval i e, s⟩
  | binaryLeft {n : Nat} {i : FrameId} {op : BinaryOp} {left right : Expr} {line : Position}
      {s : State} :
      Starts clock ⟨n + 1, .eval i (.binary op left right line), s⟩ ⟨n, .eval i left, s⟩
  | binaryRight {n : Nat} {i : FrameId} {op : BinaryOp} {left right : Expr} {line : Position}
      {s s' : State} {v : Value} : eval clock n i left s = .done v s' →
      Starts clock ⟨n + 1, .eval i (.binary op left right line), s⟩ ⟨n, .eval i right, s'⟩
  | logicalLeft {n : Nat} {i : FrameId} {op : LogicalOp} {left right : Expr} {s : State} :
      Starts clock ⟨n + 1, .eval i (.logical op left right), s⟩ ⟨n, .eval i left, s⟩
  | andRight {n : Nat} {i : FrameId} {left right : Expr} {s s' : State} {v : Value} :
      eval clock n i left s = .done v s' → v.truthy = true →
      Starts clock ⟨n + 1, .eval i (.logical .and left right), s⟩ ⟨n, .eval i right, s'⟩
  | orRight {n : Nat} {i : FrameId} {left right : Expr} {s s' : State} {v : Value} :
      eval clock n i left s = .done v s' → v.truthy = false →
      Starts clock ⟨n + 1, .eval i (.logical .or left right), s⟩ ⟨n, .eval i right, s'⟩
  | condition {n : Nat} {i : FrameId} {condition yes no : Expr} {s : State} :
      Starts clock ⟨n + 1, .eval i (.conditional condition yes no), s⟩ ⟨n, .eval i condition, s⟩
  | conditionYes {n : Nat} {i : FrameId} {condition yes no : Expr} {s s' : State} {v : Value} :
      eval clock n i condition s = .done v s' → v.truthy = true →
      Starts clock ⟨n + 1, .eval i (.conditional condition yes no), s⟩ ⟨n, .eval i yes, s'⟩
  | conditionNo {n : Nat} {i : FrameId} {condition yes no : Expr} {s s' : State} {v : Value} :
      eval clock n i condition s = .done v s' → v.truthy = false →
      Starts clock ⟨n + 1, .eval i (.conditional condition yes no), s⟩ ⟨n, .eval i no, s'⟩
  | callee {n : Nat} {i : FrameId} {callee : Expr} {args : List Expr} {line : Position}
      {s : State} :
      Starts clock ⟨n + 1, .eval i (.call callee args line), s⟩ ⟨n, .eval i callee, s⟩
  | arguments {n : Nat} {i : FrameId} {callee : Expr} {args : List Expr} {line : Position}
      {s s' : State} {v : Value} : eval clock n i callee s = .done v s' →
      Starts clock ⟨n + 1, .eval i (.call callee args line), s⟩ ⟨n, .evalAll i args, s'⟩
  | call {n : Nat} {i : FrameId} {callee : Expr} {args : List Expr} {line : Position}
      {s s' s'' : State} {f : Function} {vs : List Value} :
      eval clock n i callee s = .done (.function f) s' →
      evalAll clock n i args s' = .done vs s'' → vs.length = f.arity →
      Starts clock ⟨n + 1, .eval i (.call callee args line), s⟩ ⟨n, .call f vs, s''⟩
  | first {n : Nat} {i : FrameId} {e : Expr} {es : List Expr} {s : State} :
      Starts clock ⟨n + 1, .evalAll i (e :: es), s⟩ ⟨n, .eval i e, s⟩
  | others {n : Nat} {i : FrameId} {e : Expr} {es : List Expr} {s s' : State} {v : Value} :
      eval clock n i e s = .done v s' →
      Starts clock ⟨n + 1, .evalAll i (e :: es), s⟩ ⟨n, .evalAll i es, s'⟩
  | body {n : Nat} {f : Function} {args : List Value} {params : List Symbol} {body : List Stmt}
      {parent i : FrameId} {s s' s'' : State} :
      f.code = .closure params body parent →
      Action.newFrame (some parent) s = .done i s' →
      Action.defineAll i (params.zip args) s' = .done () s'' →
      Starts clock ⟨n + 1, .call f args, s⟩ ⟨n, .execAll i body, s''⟩
  | expr {n : Nat} {i : FrameId} {e : Expr} {s : State} :
      Starts clock ⟨n + 1, .exec i (.expr e), s⟩ ⟨n, .eval i e, s⟩
  | print {n : Nat} {i : FrameId} {e : Expr} {s : State} :
      Starts clock ⟨n + 1, .exec i (.print e), s⟩ ⟨n, .eval i e, s⟩
  | init {n : Nat} {i : FrameId} {x : Symbol} {e : Expr} {s : State} :
      Starts clock ⟨n + 1, .exec i (.var x (some e)), s⟩ ⟨n, .eval i e, s⟩
  | block {n : Nat} {i j : FrameId} {body : List Stmt} {s s' : State} :
      Action.newFrame (some i) s = .done j s' →
      Starts clock ⟨n + 1, .exec i (.block body), s⟩ ⟨n, .execAll j body, s'⟩
  | ifThen {n : Nat} {i : FrameId} {e : Expr} {yes : Stmt} {s : State} :
      Starts clock ⟨n + 1, .exec i (.ifThen e yes), s⟩ ⟨n, .eval i e, s⟩
  | ifThenYes {n : Nat} {i : FrameId} {e : Expr} {yes : Stmt} {s s' : State} {v : Value} :
      eval clock n i e s = .done v s' → v.truthy = true →
      Starts clock ⟨n + 1, .exec i (.ifThen e yes), s⟩ ⟨n, .exec i yes, s'⟩
  | ifElse {n : Nat} {i : FrameId} {e : Expr} {yes no : Stmt} {s : State} :
      Starts clock ⟨n + 1, .exec i (.ifElse e yes no), s⟩ ⟨n, .eval i e, s⟩
  | ifElseYes {n : Nat} {i : FrameId} {e : Expr} {yes no : Stmt} {s s' : State} {v : Value} :
      eval clock n i e s = .done v s' → v.truthy = true →
      Starts clock ⟨n + 1, .exec i (.ifElse e yes no), s⟩ ⟨n, .exec i yes, s'⟩
  | ifElseNo {n : Nat} {i : FrameId} {e : Expr} {yes no : Stmt} {s s' : State} {v : Value} :
      eval clock n i e s = .done v s' → v.truthy = false →
      Starts clock ⟨n + 1, .exec i (.ifElse e yes no), s⟩ ⟨n, .exec i no, s'⟩
  | while_ {n : Nat} {i : FrameId} {e : Expr} {body : Stmt} {s : State} :
      Starts clock ⟨n + 1, .exec i (.while_ e body), s⟩ ⟨n, .eval i e, s⟩
  | whileBody {n : Nat} {i : FrameId} {e : Expr} {body : Stmt} {s s' : State} {v : Value} :
      eval clock n i e s = .done v s' → v.truthy = true →
      Starts clock ⟨n + 1, .exec i (.while_ e body), s⟩ ⟨n, .exec i body, s'⟩
  | whileAgain {n : Nat} {i : FrameId} {e : Expr} {body : Stmt} {s s' s'' : State} {v : Value} :
      eval clock n i e s = .done v s' → v.truthy = true →
      exec clock n i body s' = .done .normal s'' →
      Starts clock ⟨n + 1, .exec i (.while_ e body), s⟩ ⟨n, .exec i (.while_ e body), s''⟩
  | return_ {n : Nat} {i : FrameId} {e : Expr} {s : State} :
      Starts clock ⟨n + 1, .exec i (.return_ (some e)), s⟩ ⟨n, .eval i e, s⟩
  | head {n : Nat} {i : FrameId} {st : Stmt} {ss : List Stmt} {s : State} :
      Starts clock ⟨n + 1, .execAll i (st :: ss), s⟩ ⟨n, .exec i st, s⟩
  | rest {n : Nat} {i : FrameId} {st : Stmt} {ss : List Stmt} {s s' : State} :
      exec clock n i st s = .done .normal s' →
      Starts clock ⟨n + 1, .execAll i (st :: ss), s⟩ ⟨n, .execAll i ss, s'⟩

/-- The second task is started in the course of the first one, at any depth. -/
def During (clock : Nat → Number) : Moment → Moment → Prop := Relation.ReflTransGen (Starts clock)

/-! ## Nothing is missing

That a run lacks fuel shows at a task that begins without any, wherever in the evaluator it is
started.  So there is no place that `Starts` has no rule for.
-/

/-- In the course of the task, one begins without fuel. -/
def Starves (clock : Nat → Number) (m : Moment) : Prop := ∃ m', During clock m m' ∧ m'.fuel = 0

/-- What starts a part that starves, starves itself. -/
theorem Starts.starves {clock : Nat → Number} {m m' : Moment} (h : Starts clock m m')
    (hm' : Starves clock m') : Starves clock m := by
  obtain ⟨m'', hduring, hfuel⟩ := hm'
  exact ⟨m'', .head h hduring, hfuel⟩

namespace Action

variable {α β : Type} {s : State}

/-- If fuel runs out in two steps, it does so in one of them. -/
theorem bind_eq_outOfFuel {x : Action α} {f : α → Action β} :
    (x >>= f) s = .outOfFuel ↔
      x s = .outOfFuel ∨ ∃ a s', x s = .done a s' ∧ f a s' = .outOfFuel := by
  rw [bind_apply]
  cases h : x s with
  | done a s' =>
      constructor
      · exact fun hf => .inr ⟨a, s', rfl, hf⟩
      · rintro (⟨⟨⟩⟩ | ⟨_, _, ⟨⟩, hf⟩)
        exact hf
  | failed e s' => simp
  | outOfFuel => simp

/-- If fuel runs out at a choice, it does so on the side that is taken. -/
theorem ite_eq_outOfFuel {c : Prop} [Decidable c] {x y : Action α} :
    (if c then x else y) s = .outOfFuel ↔ c ∧ x s = .outOfFuel ∨ ¬c ∧ y s = .outOfFuel := by
  by_cases hc : c <;> simp [hc]

theorem blame_ne_outOfFuel {line : Position} {r : Except Fault α} :
    blame line r s ≠ .outOfFuel := by
  cases r <;> nofun

theorem get_ne_outOfFuel {i : FrameId} {x : Symbol} {line : Position} :
    get i x line s ≠ .outOfFuel := by
  rw [get]
  cases s.store.get? i x <;> nofun

theorem assign_ne_outOfFuel {i : FrameId} {x : Symbol} {v : Value} {line : Position} :
    assign i x v line s ≠ .outOfFuel := by
  rw [assign]
  cases s.store.owner? x i <;> nofun

/-- Binding names takes no fuel. -/
theorem defineAll_ne_outOfFuel {i : FrameId} {bs : List (Symbol × Value)} :
    defineAll i bs s ≠ .outOfFuel := by
  induction bs generalizing s with
  | nil => nofun
  | cons b bs ih => exact ih

theorem print_ne_outOfFuel {v : Value} : print v s ≠ .outOfFuel := by
  rw [print]
  obtain ⟨output, complete⟩ := s.output.write (v.text ++ "\n").toUTF8
  cases complete <;> nofun

end Action

open Lox.Action

mutual

/-- Where fuel runs out, there is a part for which there was none left.  The induction is the
recursion of the evaluator. -/
theorem starves_eval {clock : Nat → Number} {i : FrameId} {e : Expr} {s : State} (fuel : Nat)
    (h : eval clock fuel i e s = .outOfFuel) : Starves clock ⟨fuel, .eval i e, s⟩ := by
  match fuel, e with
  | 0, _ => exact ⟨_, .refl, rfl⟩
  | _ + 1, .literal _ => cases h
  | fuel + 1, .group e => exact Starts.group.starves (starves_eval fuel h)
  | _ + 1, .var _ _ => exact absurd h get_ne_outOfFuel
  | fuel + 1, .assign x e line =>
      rcases bind_eq_outOfFuel.mp h with h | ⟨v, s', -, h⟩
      · exact Starts.assign.starves (starves_eval fuel h)
      · rcases bind_eq_outOfFuel.mp h with h | ⟨_, _, _, ⟨⟩⟩
        exact absurd h assign_ne_outOfFuel
  | fuel + 1, .unary op e line =>
      rcases bind_eq_outOfFuel.mp h with h | ⟨v, s', -, h⟩
      · exact Starts.unary.starves (starves_eval fuel h)
      · exact absurd h blame_ne_outOfFuel
  | fuel + 1, .binary op left right line =>
      rcases bind_eq_outOfFuel.mp h with h | ⟨v, s', hv, h⟩
      · exact Starts.binaryLeft.starves (starves_eval fuel h)
      rcases bind_eq_outOfFuel.mp h with h | ⟨w, s'', -, h⟩
      · exact (Starts.binaryRight hv).starves (starves_eval fuel h)
      · exact absurd h blame_ne_outOfFuel
  | fuel + 1, .logical .and left right =>
      rcases bind_eq_outOfFuel.mp h with h | ⟨v, s', hv, h⟩
      · exact Starts.logicalLeft.starves (starves_eval fuel h)
      rcases ite_eq_outOfFuel.mp h with ⟨ht, h⟩ | ⟨_, ⟨⟩⟩
      exact (Starts.andRight hv ht).starves (starves_eval fuel h)
  | fuel + 1, .logical .or left right =>
      rcases bind_eq_outOfFuel.mp h with h | ⟨v, s', hv, h⟩
      · exact Starts.logicalLeft.starves (starves_eval fuel h)
      rcases ite_eq_outOfFuel.mp h with ⟨_, ⟨⟩⟩ | ⟨ht, h⟩
      exact (Starts.orRight hv (Bool.eq_false_iff.mpr ht)).starves (starves_eval fuel h)
  | fuel + 1, .conditional condition yes no =>
      rcases bind_eq_outOfFuel.mp h with h | ⟨v, s', hv, h⟩
      · exact Starts.condition.starves (starves_eval fuel h)
      rcases ite_eq_outOfFuel.mp h with ⟨ht, h⟩ | ⟨ht, h⟩
      · exact (Starts.conditionYes hv ht).starves (starves_eval fuel h)
      · exact (Starts.conditionNo hv (Bool.eq_false_iff.mpr ht)).starves (starves_eval fuel h)
  | fuel + 1, .call callee args line =>
      rcases bind_eq_outOfFuel.mp h with h | ⟨v, s', hv, h⟩
      · exact Starts.callee.starves (starves_eval fuel h)
      rcases bind_eq_outOfFuel.mp h with h | ⟨vs, s'', hvs, h⟩
      · exact (Starts.arguments hv).starves (starves_evalAll fuel h)
      cases v with
      | function f =>
          rcases ite_eq_outOfFuel.mp h with ⟨harity, h⟩ | ⟨_, ⟨⟩⟩
          exact (Starts.call hv hvs harity).starves (starves_call fuel h)
      | _ => cases h
termination_by structural fuel

theorem starves_evalAll {clock : Nat → Number} {i : FrameId} {es : List Expr} {s : State}
    (fuel : Nat) (h : evalAll clock fuel i es s = .outOfFuel) :
    Starves clock ⟨fuel, .evalAll i es, s⟩ := by
  match fuel, es with
  | 0, _ => exact ⟨_, .refl, rfl⟩
  | _ + 1, [] => cases h
  | fuel + 1, e :: es =>
      rcases bind_eq_outOfFuel.mp h with h | ⟨v, s', hv, h⟩
      · exact Starts.first.starves (starves_eval fuel h)
      rcases bind_eq_outOfFuel.mp h with h | ⟨_, _, _, ⟨⟩⟩
      exact (Starts.others hv).starves (starves_evalAll fuel h)
termination_by structural fuel

theorem starves_call {clock : Nat → Number} {f : Function} {args : List Value} {s : State}
    (fuel : Nat) (h : call clock fuel f args s = .outOfFuel) :
    Starves clock ⟨fuel, .call f args, s⟩ := by
  match fuel, f with
  | 0, _ => exact ⟨_, .refl, rfl⟩
  | _ + 1, ⟨_, _, .native .clock _⟩ => cases h
  | _ + 1, ⟨_, _, .native (.host _) _⟩ => cases h
  | fuel + 1, ⟨_, _, .closure params body parent⟩ =>
      rcases bind_eq_outOfFuel.mp h with ⟨⟨⟩⟩ | ⟨frame, s', hframe, h⟩
      rcases bind_eq_outOfFuel.mp h with h | ⟨_, s'', hdefine, h⟩
      · exact absurd h defineAll_ne_outOfFuel
      rcases bind_eq_outOfFuel.mp h with h | ⟨flow, _, _, h⟩
      · exact (Starts.body rfl hframe hdefine).starves (starves_execAll fuel h)
      · cases flow <;> cases h
termination_by structural fuel

theorem starves_exec {clock : Nat → Number} {i : FrameId} {st : Stmt} {s : State} (fuel : Nat)
    (h : exec clock fuel i st s = .outOfFuel) : Starves clock ⟨fuel, .exec i st, s⟩ := by
  match fuel, st with
  | 0, _ => exact ⟨_, .refl, rfl⟩
  | fuel + 1, .expr e =>
      rcases bind_eq_outOfFuel.mp h with h | ⟨_, _, _, ⟨⟩⟩
      exact Starts.expr.starves (starves_eval fuel h)
  | fuel + 1, .print e =>
      rcases bind_eq_outOfFuel.mp h with h | ⟨v, s', -, h⟩
      · exact Starts.print.starves (starves_eval fuel h)
      rcases bind_eq_outOfFuel.mp h with h | ⟨_, _, _, ⟨⟩⟩
      exact absurd h print_ne_outOfFuel
  | _ + 1, .var _ none => cases h
  | fuel + 1, .var x (some e) =>
      rcases bind_eq_outOfFuel.mp h with h | ⟨_, _, _, ⟨⟩⟩
      exact Starts.init.starves (starves_eval fuel h)
  | fuel + 1, .block body =>
      rcases bind_eq_outOfFuel.mp h with ⟨⟨⟩⟩ | ⟨inner, s', hframe, h⟩
      exact (Starts.block hframe).starves (starves_execAll fuel h)
  | fuel + 1, .ifThen e yes =>
      rcases bind_eq_outOfFuel.mp h with h | ⟨v, s', hv, h⟩
      · exact Starts.ifThen.starves (starves_eval fuel h)
      rcases ite_eq_outOfFuel.mp h with ⟨ht, h⟩ | ⟨_, ⟨⟩⟩
      exact (Starts.ifThenYes hv ht).starves (starves_exec fuel h)
  | fuel + 1, .ifElse e yes no =>
      rcases bind_eq_outOfFuel.mp h with h | ⟨v, s', hv, h⟩
      · exact Starts.ifElse.starves (starves_eval fuel h)
      rcases ite_eq_outOfFuel.mp h with ⟨ht, h⟩ | ⟨ht, h⟩
      · exact (Starts.ifElseYes hv ht).starves (starves_exec fuel h)
      · exact (Starts.ifElseNo hv (Bool.eq_false_iff.mpr ht)).starves (starves_exec fuel h)
  | fuel + 1, .while_ e body =>
      rcases bind_eq_outOfFuel.mp h with h | ⟨v, s', hv, h⟩
      · exact Starts.while_.starves (starves_eval fuel h)
      rcases ite_eq_outOfFuel.mp h with ⟨ht, h⟩ | ⟨_, ⟨⟩⟩
      rcases bind_eq_outOfFuel.mp h with h | ⟨flow, s'', hflow, h⟩
      · exact (Starts.whileBody hv ht).starves (starves_exec fuel h)
      cases flow with
      | normal => exact (Starts.whileAgain hv ht hflow).starves (starves_exec fuel h)
      | break_ => cases h
      | return_ v => cases h
  | _ + 1, .break_ => cases h
  | _ + 1, .function _ _ _ => cases h
  | _ + 1, .return_ none => cases h
  | fuel + 1, .return_ (some e) =>
      rcases bind_eq_outOfFuel.mp h with h | ⟨_, _, _, ⟨⟩⟩
      exact Starts.return_.starves (starves_eval fuel h)
termination_by structural fuel

theorem starves_execAll {clock : Nat → Number} {i : FrameId} {ss : List Stmt} {s : State}
    (fuel : Nat) (h : execAll clock fuel i ss s = .outOfFuel) :
    Starves clock ⟨fuel, .execAll i ss, s⟩ := by
  match fuel, ss with
  | 0, _ => exact ⟨_, .refl, rfl⟩
  | _ + 1, [] => cases h
  | fuel + 1, st :: ss =>
      rcases bind_eq_outOfFuel.mp h with h | ⟨flow, s', hflow, h⟩
      · exact Starts.head.starves (starves_exec fuel h)
      cases flow with
      | normal => exact (Starts.rest hflow).starves (starves_execAll fuel h)
      | break_ => cases h
      | return_ v => cases h
termination_by structural fuel

end

end Lox
