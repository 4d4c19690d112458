import Lox.Fault
import Lox.Output
import Lox.Store

/-!
# Actions

An action works on a state and ends in one of three ways: it is done, it fails and keeps what it did
so far, or it runs out of fuel.  Actions form a monad in which a failure ends the whole run.
-/

namespace Lox

/-- What running a program changes. -/
structure State where
  store : Store
  output : Output
  /-- How often the clock was read. -/
  readings : Nat

inductive Outcome (α : Type)
  | done (value : α) (state : State)
  | failed (failure : Failure) (state : State)
  | outOfFuel

def Action (α : Type) : Type := State → Outcome α

namespace Action

variable {α β : Type}

@[always_inline]
instance : Monad Action where
  pure a := fun s => .done a s
  bind x f := fun s =>
    match x s with
    | .done a s => f a s
    | .failed e s => .failed e s
    | .outOfFuel => .outOfFuel

@[simp] theorem pure_apply (a : α) (s : State) : (pure a : Action α) s = .done a s := rfl

theorem bind_apply (x : Action α) (f : α → Action β) (s : State) :
    (x >>= f) s = match x s with
      | .done a s => f a s
      | .failed e s => .failed e s
      | .outOfFuel => .outOfFuel := rfl

@[inline] def exhausted : Action α := fun _ => .outOfFuel

@[inline] def fail (e : Failure) : Action α := fun s => .failed e s

/-- A fault is blamed on a line. -/
@[inline] def blame (line : Position) (r : Except Fault α) : Action α :=
  match r with
  | .ok a => pure a
  | .error e => fail (.fault line e)

/-- Makes a frame without bindings. -/
def newFrame (parent : Option FrameId) : Action FrameId := fun s =>
  let (i, store) := s.store.newFrame parent
  .done i { s with store }

/-- Binds a name in a frame. -/
def define (i : FrameId) (x : Symbol) (v : Value) : Action Unit := fun s =>
  .done () { s with store := s.store.define i x v }

/-- Binds names one after the other. -/
def defineAll (i : FrameId) : List (Symbol × Value) → Action Unit
  | [] => pure ()
  | (x, v) :: rest => do
    define i x v
    defineAll i rest

/-- The value of a name, which must be bound. -/
def get (i : FrameId) (x : Symbol) (line : Position) : Action Value := fun s =>
  match s.store.get? i x with
  | some v => .done v s
  | none => .failed (.fault line (.undefinedVariable x.name)) s

/-- Gives a name, which must be bound, a new value. -/
def assign (i : FrameId) (x : Symbol) (v : Value) (line : Position) : Action Unit := fun s =>
  match s.store.owner? x i with
  | some j => .done () { s with store := s.store.define j x v }
  | none => .failed (.fault line (.undefinedVariable x.name)) s

theorem assign_apply (i : FrameId) (x : Symbol) (v : Value) (line : Position) (s : State) :
    assign i x v line s = match s.store.assign? i x v with
      | some store => .done () { s with store }
      | none => .failed (.fault line (.undefinedVariable x.name)) s := by
  unfold assign Store.assign?
  cases s.store.owner? x i <;> rfl

/-- Makes a function and binds its name in a frame. -/
def defineFunction (i : FrameId) (x : Symbol) (code : Code) : Action Unit := fun s =>
  let (f, store) := s.store.newFunction x code
  .done () { s with store := store.define i x (.function f) }

/-- Writes the text of a value, and a newline. -/
def print (v : Value) : Action Unit := fun s =>
  let (output, complete) := s.output.write (v.text ++ "\n").toUTF8
  if complete then .done () { s with output } else .failed .outputRefused { s with output }

/-- Reads the clock. -/
def readClock (clock : Nat → Number) : Action Number := fun s =>
  .done (clock s.readings) { s with readings := s.readings + 1 }

end Action

end Lox
