import Lox.Action

/-!
# How actions end

`Outcome.Ends` says of an action what holds when it is done and what holds when it fails.  Running
out of fuel is never held against it, so that the rule for sequences needs no case for it.  Behind
it stands the property of stores that is kept most often: all bound values satisfy a predicate.
-/

namespace Lox

/-! ## Outcomes -/

namespace Outcome

variable {α β : Type}

/-- The outcome is done as the first predicate asks, or failed as the second one asks. -/
def Ends (done : α → State → Prop) (failed : Failure → State → Prop) : Outcome α → Prop
  | .done a s => done a s
  | .failed e s => failed e s
  | .outOfFuel => True

variable {done : α → State → Prop} {failed : Failure → State → Prop}

/-- What comes second starts where what comes first is done. -/
theorem Ends.bind {x : Action α} {f : α → Action β} {s : State} {last : β → State → Prop}
    (hx : (x s).Ends done failed) (hf : ∀ a s', done a s' → (f a s').Ends last failed) :
    ((x >>= f) s).Ends last failed := by
  rw [Action.bind_apply]
  cases h : x s with
  | done a s' =>
      rw [h] at hx
      exact hf a s' hx
  | failed e s' =>
      rw [h] at hx
      exact hx
  | outOfFuel => trivial

end Outcome

/-- Sequences come to the same if their first parts do, and their second parts where the first ones
are done. -/
theorem Action.bind_eq_bind {α β : Type} {x x' : Action α} {f f' : α → Action β} {s : State}
    (hx : x s = x' s) (hf : ∀ a t, x s = .done a t → f a t = f' a t) :
    (x >>= f) s = (x' >>= f') s := by
  rw [bind_apply, bind_apply, ← hx]
  cases hdone : x s with
  | done a t => exact hf a t hdone
  | failed e t => rfl
  | outOfFuel => rfl

/-- A sequence that is done has done both of its parts. -/
theorem Action.bind_eq_done {α β : Type} {x : Action α} {f : α → Action β} {b : β} {s s'' : State} :
    (x >>= f) s = .done b s'' ↔ ∃ a s', x s = .done a s' ∧ f a s' = .done b s'' := by
  rw [bind_apply]
  cases x s with
  | done a s' =>
      constructor
      · exact fun hf => ⟨a, s', rfl, hf⟩
      · rintro ⟨_, _, ⟨⟩, hf⟩
        exact hf
  | failed e s' => simp
  | outOfFuel => simp

/-! ## Bound values -/

/-- Every binding of the frame has a value in `P`. -/
def Frame.Holds (P : Value → Prop) (frame : Frame) : Prop := ∀ b ∈ frame.bindings, P b.2

/-- Every binding of every frame has a value in `P`. -/
def Store.Holds (P : Value → Prop) (store : Store) : Prop :=
  ∀ (i : FrameId) (frame : Frame), store.frames[i]? = some frame → frame.Holds P

variable {P Q : Value → Prop}

namespace Frame

theorem Holds.mono {frame : Frame} (h : frame.Holds P) (hPQ : ∀ v, P v → Q v) : frame.Holds Q :=
  fun b hb => hPQ _ (h b hb)

/-- A value that replaces another one has to be of the same sort. -/
theorem forall_mem_rebind {x : Symbol} {v : Value} {bs : List (Symbol × Value)} (hv : P v)
    (h : ∀ b ∈ bs, P b.2) : ∀ b ∈ rebind x v bs, P b.2 := by
  induction bs with
  | nil => exact List.forall_mem_singleton.mpr hv
  | cons b bs ih =>
      obtain ⟨hb, hbs⟩ := List.forall_mem_cons.mp h
      rw [rebind]
      split
      · exact List.forall_mem_cons.mpr ⟨hv, hbs⟩
      · exact List.forall_mem_cons.mpr ⟨hb, ih hbs⟩

/-- A frame stays as it is but for the value that is defined. -/
theorem Holds.define {frame : Frame} (h : frame.Holds P) (x : Symbol) {v : Value} (hv : P v) :
    (frame.define x v).Holds P :=
  forall_mem_rebind hv h

/-- What is found in a frame is of the sort of all values in it. -/
theorem Holds.lookup {frame : Frame} (h : frame.Holds P) {x : Symbol} {v : Value}
    (hx : frame.lookup x = some v) : P v := by
  rw [Frame.lookup] at hx
  rw [Frame.Holds] at h
  generalize frame.bindings = bs at h hx
  induction bs with
  | nil => cases hx
  | cons b bs ih =>
      obtain ⟨hb, hbs⟩ := List.forall_mem_cons.mp h
      rw [find] at hx
      split at hx
      · cases hx
        exact hb
      · exact ih hbs hx

end Frame

namespace Store

/-- What holds of all values in a store may be weakened. -/
theorem Holds.mono {store : Store} (h : store.Holds P) (hPQ : ∀ v, P v → Q v) : store.Holds Q :=
  fun i frame hi => (h i frame hi).mono hPQ

/-- Nothing is wrong with a store that has no frames. -/
theorem holds_empty : empty.Holds P := by
  intro i frame hi
  simp [empty] at hi

variable {store : Store}

/-- A new frame has no values in it. -/
theorem Holds.newFrame (h : store.Holds P) (parent : Option FrameId) :
    (store.newFrame parent).2.Holds P := by
  intro i frame hi
  simp only [Store.newFrame, Array.getElem?_push] at hi
  split at hi
  · cases hi
    nofun
  · exact h i frame hi

theorem Holds.newFunction (h : store.Holds P) (x : Symbol) (code : Code) :
    (store.newFunction x code).2.Holds P := h

theorem Holds.define (h : store.Holds P) (i : FrameId) (x : Symbol) {v : Value} (hv : P v) :
    (store.define i x v).Holds P := by
  intro j frame hj
  simp only [Store.define, Array.getElem?_modify] at hj
  split at hj
  · obtain ⟨frame', hframe, rfl⟩ := Option.map_eq_some_iff.mp hj
    exact (h j frame' hframe).define x hv
  · exact h j frame hj

/-- What a name stands for is of the sort of all values in the store. -/
theorem Holds.get? (h : store.Holds P) {i : FrameId} {x : Symbol} {v : Value}
    (hx : store.get? i x = some v) : P v := by
  obtain ⟨j, -, hj⟩ := Option.bind_eq_some_iff.mp hx
  obtain ⟨frame, hframe, hv⟩ := Option.bind_eq_some_iff.mp hj
  exact (h j frame hframe).lookup hv

end Store

end Lox
