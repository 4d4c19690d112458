import Lox.Proofs.Run.Lockstep
import Mathlib.Logic.Relation

/-!
# Frames within reach

A frame leads to its parent, and to the frames that the functions bound in it close over.  What a
run can use is what it reaches along such links, and the frames that it makes itself.  Two runs from
stores that agree on all frames within reach are alike, whatever the other frames hold.
-/

namespace Lox

/-! ## Reach -/

namespace Store

/-- One step along a link. -/
inductive Link (store : Store) (i : FrameId) : FrameId → Prop
  | parent {frame : Frame} {p : FrameId} :
      store.frames[i]? = some frame → frame.parent = some p → Link store i p
  | bound {frame : Frame} {x : Symbol} {v : Value} {j : FrameId} :
      store.frames[i]? = some frame → frame.lookup x = some v → v.frame? = some j →
      Link store i j

/-- Every link leads to a frame. -/
def Valid (store : Store) : Prop := ∀ i j, store.Link i j → j < store.frames.size

/-- Links lead from one of the roots to the frame. -/
def Reaches (store : Store) (roots : Set FrameId) (j : FrameId) : Prop :=
  ∃ i ∈ roots, Relation.ReflTransGen store.Link i j

/-- The frame was within reach in the store, or it was made afterwards and is one of the first
`n`. -/
def Within (store : Store) (roots : Set FrameId) (n : Nat) (i : FrameId) : Prop :=
  store.Reaches roots i ∨ store.frames.size ≤ i ∧ i < n

variable {store : Store} {roots : Set FrameId} {i j : FrameId}

theorem reaches_root (hi : i ∈ roots) : store.Reaches roots i := ⟨i, hi, .refl⟩

/-- What a frame links to is reached with it. -/
theorem Reaches.link (h : store.Reaches roots i) (hij : store.Link i j) :
    store.Reaches roots j := by
  obtain ⟨r, hr, hri⟩ := h
  exact ⟨r, hr, hri.tail hij⟩

/-- In a store without dangling links only frames are reached. -/
theorem Reaches.lt_size (h : store.Reaches roots j) (hvalid : store.Valid)
    (hroots : ∀ i ∈ roots, i < store.frames.size) : j < store.frames.size := by
  obtain ⟨i, hi, hij⟩ := h
  cases hij with
  | refl => exact hroots j hi
  | tail _ hlink => exact hvalid _ _ hlink

end Store

/-! ## The same program twice -/

theorem Translation.eq_iff_of_eq {x x' y y' : Symbol} (hx : x = x') (hy : y = y') :
    x = y ↔ x' = y' := by
  rw [hx, hy]

/-- Both runs have the same program. -/
def Translation.same : Translation where
  symbol := Eq
  line := Eq
  expr := Eq
  stmt := Eq
  body := Eq
  symbol_iff := eq_iff_of_eq
  expr_cases := by
    rintro e _ rfl
    exact .refl (fun _ => rfl) (fun _ => rfl) (fun _ => rfl) e
  stmt_cases := by
    rintro s _ rfl
    exact .refl (fun _ => rfl) (fun _ => rfl) (fun _ => rfl) (fun _ => rfl) s
  body_cases := by
    rintro ss _ rfl
    exact List.forall₂_same.mpr fun _ _ => rfl

/-- The runs have the same program, and use no more than what is within reach from the roots.  The
other frames keep what they hold in the two stores. -/
def Likeness.within (store store' : Store) (roots : Set FrameId) : Likeness where
  toTranslation := .same
  frame := store.Within roots
  start := store.frames.size
  kept i := store.frames[i]?
  kept' i := store'.frames[i]?
  frame_mono := by
    rintro n m i hnm (h | ⟨hle, hlt⟩)
    · exact .inl h
    · exact .inr ⟨hle, Nat.lt_of_lt_of_le hlt hnm⟩
  frame_new hn := .inr ⟨hn, Nat.lt_succ_self _⟩

section

variable {store store' : Store} {roots : Set FrameId} {n : Nat}

/-- The frames that may be used are those that are reached, and new ones. -/
theorem Likeness.inside_within {i : FrameId} :
    (within store store' roots).Inside i ↔ store.Reaches roots i ∨ store.frames.size ≤ i := by
  constructor
  · rintro ⟨n, h | h⟩
    · exact .inl h
    · exact .inr h.1
  · rintro (h | h)
    · exact ⟨0, .inl h⟩
    · exact ⟨i + 1, .inr ⟨h, Nat.lt_succ_self i⟩⟩

/-- Values that are alike in runs of the same program are equal, and do not lead out of reach. -/
theorem Value.Like.of_within {v v' : Value} (h : v.Like (.within store store' roots) n v') :
    v' = v ∧ ∀ j ∈ v.frame?, store.Within roots n j := by
  cases h with
  | nil | bool | number | string => exact ⟨rfl, nofun⟩
  | @function f f' hid hname _ hcode =>
      obtain ⟨id, name, code⟩ := f
      obtain ⟨id', name', code'⟩ := f'
      cases hid
      cases hname
      cases hcode with
      | native => exact ⟨rfl, nofun⟩
      | closure hparams hbody hi =>
          cases List.forall₂_eq_eq_eq.le _ _ hparams
          cases hbody
          refine ⟨rfl, ?_⟩
          rintro _ ⟨⟩
          exact hi

/-- The frames have the same parent, and give the same value to every name. -/
structure Frame.Agrees (frame frame' : Frame) : Prop where
  parent_eq : frame.parent = frame'.parent
  lookup_eq : ∀ x, frame.lookup x = frame'.lookup x

/-- There are as many frames and functions in both stores, which agree on the frames that can be
seen. -/
structure Store.Agrees (seen : FrameId → Prop) (store store' : Store) : Prop where
  size_eq : store.frames.size = store'.frames.size
  functions_eq : store.functions = store'.functions
  frames : ∀ i, seen i → Option.Rel Frame.Agrees store.frames[i]? store'.frames[i]?

/-- Frames that are alike agree, and lead only to frames that may be used. -/
theorem Frame.Like.of_within {frame frame' : Frame}
    (h : frame.Like (.within store store' roots) n frame') :
    frame.Agrees frame' ∧
      ∀ x, ∀ v ∈ frame.lookup x, ∀ j ∈ v.frame?, store.Within roots n j := by
  have hlookup (x : Symbol) : frame.lookup x = frame'.lookup x ∧
      ∀ v ∈ frame.lookup x, ∀ j ∈ v.frame?, store.Within roots n j := by
    have hlike : Option.Rel _ (frame.lookup x) (frame'.lookup x) := h.lookup rfl
    generalize frame.lookup x = o, frame'.lookup x = o' at hlike
    cases hlike with
    | none => exact ⟨rfl, nofun⟩
    | some hv =>
        obtain ⟨rfl, hv⟩ := hv.of_within
        refine ⟨rfl, ?_⟩
        rintro _ ⟨⟩
        exact hv
  exact ⟨⟨h.parent_eq, fun x => (hlookup x).1⟩, fun x => (hlookup x).2⟩

/-- At the start, the frames within reach are those that both runs may use. -/
theorem Store.Agrees.like (h : store.Agrees (store.Reaches roots) store') :
    store.Like (.within store store' roots) store' where
  size_eq := h.size_eq
  functions_eq := h.functions_eq
  start_le := Nat.le_refl _
  inside i hi := by
    rcases Likeness.inside_within.mp hi with hi | hi
    · have hframe := h.frames i hi
      generalize ho : store.frames[i]? = o, store'.frames[i]? = o' at hframe
      cases hframe with
      | none => exact .none
      | @some frame frame' hframe =>
          refine .some ⟨hframe.parent_eq, fun p hp => .inl (hi.link (.parent ho hp)), ?_⟩
          rintro x _ rfl
          rw [← hframe.lookup_eq]
          cases hv : frame.lookup x with
          | none => exact .none
          | some v =>
              exact .some (Value.like_self (fun _ => rfl) (fun _ => rfl) fun j hj =>
                .inl (hi.link (.bound ho hv hj)))
    · rw [Array.getElem?_eq_none hi, Array.getElem?_eq_none (h.size_eq ▸ hi)]
      exact .none
  outside i _ := ⟨rfl, rfl⟩

end

end Lox
