import Lox.Value

/-!
# The store

Names are bound in frames, and a frame may have a parent, made before it.  The owner of a name, seen
from a frame, is the nearest frame on the way up that binds it.  Frames are numbered in the order in
which they are made and are never removed.
-/

namespace Lox

structure Frame where
  parent : Option FrameId
  bindings : List (Symbol × Value)

namespace Frame

/-- The value that bindings give to a name. -/
def find (x : Symbol) : List (Symbol × Value) → Option Value
  | [] => none
  | (y, v) :: rest => if y = x then some v else find x rest

def lookup (f : Frame) (x : Symbol) : Option Value := find x f.bindings

/-- Binds a name, or binds it anew in its old place. -/
def rebind (x : Symbol) (v : Value) : List (Symbol × Value) → List (Symbol × Value)
  | [] => [(x, v)]
  | (y, w) :: rest => if y = x then (x, v) :: rest else (y, w) :: rebind x v rest

def define (f : Frame) (x : Symbol) (v : Value) : Frame :=
  { f with bindings := rebind x v f.bindings }

@[simp] theorem parent_define (f : Frame) (x : Symbol) (v : Value) :
    (f.define x v).parent = f.parent := rfl

theorem find_rebind (x y : Symbol) (v : Value) (bs : List (Symbol × Value)) :
    find y (rebind x v bs) = if y = x then some v else find y bs := by
  induction bs with
  | nil => simp [rebind, find, eq_comm]
  | cons b bs ih =>
    obtain ⟨z, w⟩ := b
    by_cases hz : z = x <;> by_cases hy : y = x <;> simp_all [rebind, find, eq_comm]

/-- A name that is bound in a frame has the value given to it, and the others have theirs. -/
theorem lookup_define (f : Frame) (x y : Symbol) (v : Value) :
    (f.define x v).lookup y = if y = x then some v else f.lookup y :=
  find_rebind x y v f.bindings

end Frame

/-- All frames, and the number of functions made so far. -/
structure Store where
  frames : Array Frame
  functions : Nat

namespace Store

def empty : Store := ⟨#[], 0⟩

/-- Makes a frame without bindings. -/
def newFrame (s : Store) (parent : Option FrameId) : FrameId × Store :=
  (s.frames.size, { s with frames := s.frames.push ⟨parent, []⟩ })

/-- Makes a function, which no other function equals. -/
def newFunction (s : Store) (name : Symbol) (code : Code) : Function × Store :=
  (⟨s.functions, name, code⟩, { s with functions := s.functions + 1 })

/-- Binds a name in a frame. -/
def define (s : Store) (i : FrameId) (x : Symbol) (v : Value) : Store :=
  { s with frames := s.frames.modify i (·.define x v) }

/-- The owner of a name, seen from a frame. -/
def owner? (s : Store) (x : Symbol) (i : FrameId) : Option FrameId :=
  match s.frames[i]? with
  | none => none
  | some frame =>
    if (frame.lookup x).isSome then some i
    else
      match frame.parent with
      | none => none
      | some p => if p < i then owner? s x p else none
termination_by i

/-- The value of a name, seen from a frame. -/
def get? (s : Store) (i : FrameId) (x : Symbol) : Option Value :=
  (s.owner? x i).bind fun j => s.frames[j]?.bind (·.lookup x)

/-- Gives a name a new value where it is bound, if it is bound anywhere on the way up. -/
def assign? (s : Store) (i : FrameId) (x : Symbol) (v : Value) : Option Store :=
  (s.owner? x i).map fun j => s.define j x v

end Store

end Lox
