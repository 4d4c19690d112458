import Lox.Action
import Lox.Operator

/-!
# Running programs

Fuel bounds the depth of a run and the number of rounds of its loops: a run that finishes does so
with any sufficient amount of fuel.  The clock is given as the sequence of its readings.
-/

namespace Lox

/-- How a statement finished. -/
inductive Flow
  | normal
  /-- The innermost loop is to stop. -/
  | break_
  /-- The call under way is to end with a value. -/
  | return_ (value : Value)

mutual

/-- The value of an expression in a frame. -/
def eval (clock : Nat → Number) : (fuel : Nat) → FrameId → Expr → Action Value
  | 0, _, _ => .exhausted
  | fuel + 1, frame, e =>
    match e with
    | .literal value => pure (.ofLiteral value)
    | .group inner => eval clock fuel frame inner
    | .var x line => .get frame x line
    | .assign x rhs line => do
      let v ← eval clock fuel frame rhs
      .assign frame x v line
      pure v
    | .unary op operand line => do
      let v ← eval clock fuel frame operand
      .blame line (op.apply v)
    | .binary op left right line => do
      let v ← eval clock fuel frame left
      let w ← eval clock fuel frame right
      .blame line (op.apply v w)
    | .logical .and left right => do
      let v ← eval clock fuel frame left
      if v.truthy then eval clock fuel frame right else pure v
    | .logical .or left right => do
      let v ← eval clock fuel frame left
      if v.truthy then pure v else eval clock fuel frame right
    | .conditional condition yes no => do
      let v ← eval clock fuel frame condition
      if v.truthy then eval clock fuel frame yes else eval clock fuel frame no
    | .call callee args line => do
      let v ← eval clock fuel frame callee
      let vs ← evalAll clock fuel frame args
      match v with
      | .function f =>
        if vs.length = f.arity then call clock fuel f vs
        else .fail (.fault line (.argumentCount f.arity vs.length))
      | _ => .fail (.fault line .notCallable)
termination_by structural fuel => fuel

/-- The values of expressions, from left to right. -/
def evalAll (clock : Nat → Number) : (fuel : Nat) → FrameId → List Expr → Action (List Value)
  | 0, _, _ => .exhausted
  | _ + 1, _, [] => pure []
  | fuel + 1, frame, e :: es => do
    let v ← eval clock fuel frame e
    let vs ← evalAll clock fuel frame es
    pure (v :: vs)
termination_by structural fuel => fuel

/-- Calls a function with as many arguments as it has parameters.  The parameters live in a frame of
their own, whose parent is the frame where the function was declared. -/
def call (clock : Nat → Number) : (fuel : Nat) → Function → List Value → Action Value
  | 0, _, _ => .exhausted
  | fuel + 1, f, args =>
    match f.code with
    | .native .clock _ => do
      let now ← .readClock clock
      pure (.number now)
    | .native (.host answer) _ => pure ((answer (args.map Value.literal?)).among args)
    | .closure params body parent => do
      let frame ← .newFrame (some parent)
      .defineAll frame (params.zip args)
      match ← execAll clock fuel frame body with
      | .return_ v => pure v
      | _ => pure .nil
termination_by structural fuel => fuel

/-- Executes a statement in a frame. -/
def exec (clock : Nat → Number) : (fuel : Nat) → FrameId → Stmt → Action Flow
  | 0, _, _ => .exhausted
  | fuel + 1, frame, s =>
    match s with
    | .expr e => do
      let _ ← eval clock fuel frame e
      pure .normal
    | .print e => do
      let v ← eval clock fuel frame e
      .print v
      pure .normal
    | .var x none => do
      .define frame x .nil
      pure .normal
    | .var x (some init) => do
      let v ← eval clock fuel frame init
      .define frame x v
      pure .normal
    | .block body => do
      let inner ← .newFrame (some frame)
      execAll clock fuel inner body
    | .ifThen condition yes => do
      let v ← eval clock fuel frame condition
      if v.truthy then exec clock fuel frame yes else pure .normal
    | .ifElse condition yes no => do
      let v ← eval clock fuel frame condition
      if v.truthy then exec clock fuel frame yes else exec clock fuel frame no
    | .while_ condition body => do
      let v ← eval clock fuel frame condition
      if v.truthy then
        match ← exec clock fuel frame body with
        | .normal => exec clock fuel frame (.while_ condition body)
        | .break_ => pure .normal
        | .return_ v => pure (.return_ v)
      else pure .normal
    | .break_ => pure .break_
    | .function x params body => do
      .defineFunction frame x (.closure params body frame)
      pure .normal
    | .return_ none => pure (.return_ .nil)
    | .return_ (some e) => do
      let v ← eval clock fuel frame e
      pure (.return_ v)
termination_by structural fuel => fuel

/-- Executes statements in order, up to one that does not finish normally. -/
def execAll (clock : Nat → Number) : (fuel : Nat) → FrameId → List Stmt → Action Flow
  | 0, _, _ => .exhausted
  | _ + 1, _, [] => pure .normal
  | fuel + 1, frame, s :: rest => do
    match ← exec clock fuel frame s with
    | .normal => execAll clock fuel frame rest
    | flow => pure flow
termination_by structural fuel => fuel

end

example (clock : Nat → Number) (x : Symbol) (u v : Value) (s : State) :
    call clock 1 ⟨0, x, .native .argumentCount 2⟩ [u, v] s = .done (.number (.ofNat 2)) s := rfl

example (clock : Nat → Number) (x : Symbol) (u v : Value) (s : State) :
    call clock 1 ⟨0, x, .native .lastArgument 2⟩ [u, v] s = .done v s := rfl

/-- The frame of the global names. -/
def globals : FrameId := 0

/-- The state in which a program starts: the only global name is that of the clock. -/
def State.initial (clockName : Symbol) (room : Option Nat) : State :=
  let (frame, store) := Store.empty.newFrame none
  let (f, store) := store.newFunction clockName (.native .clock 0)
  ⟨store.define frame clockName (.function f), { room }, 0⟩

/-- Runs a program in the frame of the global names.  A `break` or `return` outside of everything
ends it. -/
def run (clock : Nat → Number) (fuel : Nat) (program : List Stmt) : Action Unit := do
  let _ ← execAll clock fuel globals program
  pure ()

end Lox
