import Lox.Proofs.Run.Legal
import Lox.Proofs.Run.Translation

/-!
# Likeness of two runs

Two runs can be compared step by step although their programs, their stores or their outputs differ
in some respects.  A `Translation` says how the programs may differ, in names and in lines; a
`Likeness` adds which frames both runs may use and what the other frames hold.  Values and stores
are alike if they differ in these respects only, and states may differ besides in what the second
run has written before.  All that an action can do to a state keeps states alike.
-/

namespace Lox

/-- What two runs have in common, and in what they may differ. -/
structure Likeness extends Translation where
  /-- The frames that both runs may use, once there are so many frames. -/
  frame : Nat → FrameId → Prop
  /-- The number of frames from which on every new frame may be used. -/
  start : Nat
  /-- What the other frames hold in the first run. -/
  kept : FrameId → Option Frame
  /-- What the other frames hold in the second run. -/
  kept' : FrameId → Option Frame
  frame_mono {n m : Nat} {i : FrameId} : n ≤ m → frame n i → frame m i
  frame_new {n : Nat} : start ≤ n → frame (n + 1) n

namespace Likeness

/-- The frame may be used at some time. -/
def Inside (L : Likeness) (i : FrameId) : Prop := ∃ n, L.frame n i

end Likeness

variable {L : Likeness} {n m : Nat}

/-! ## Values -/

/-- The frame that a function closes over. -/
def Code.frame? : Code → Option FrameId
  | native _ _ => none
  | closure _ _ i => some i

/-- The frame that a value closes over, if it is a function that a program declared. -/
def Value.frame? : Value → Option FrameId
  | function f => f.code.frame?
  | _ => none

/-- Functions are alike if they are one function to the programs: their code corresponds, and what
it closes over is the same frame. -/
inductive Code.Like (L : Likeness) (n : Nat) : Code → Code → Prop
  | native {native : Native} {arity : Nat} : Like L n (.native native arity) (.native native arity)
  | closure {params params' : List Symbol} {ss ss' : List Stmt} {i : FrameId} :
      List.Forall₂ L.symbol params params' → L.body ss ss' → L.frame n i →
      Like L n (.closure params ss i) (.closure params' ss' i)

inductive Value.Like (L : Likeness) (n : Nat) : Value → Value → Prop
  | nil : Like L n .nil .nil
  | bool {b : Bool} : Like L n (.bool b) (.bool b)
  | number {a : Number} : Like L n (.number a) (.number a)
  | string {t : String} : Like L n (.string t) (.string t)
  | function {f f' : Function} :
      f.identity = f'.identity → L.symbol f.name f'.name → f.name.name = f'.name.name →
      f.code.Like L n f'.code → Like L n (.function f) (.function f')

inductive Flow.Like (L : Likeness) (n : Nat) : Flow → Flow → Prop
  | normal : Like L n .normal .normal
  | break_ : Like L n .break_ .break_
  | return_ {v v' : Value} : v.Like L n v' → Like L n (.return_ v) (.return_ v')

section

variable (hsymbol : ∀ x, L.symbol x x) (hbody : ∀ ss, L.body ss ss)

include hsymbol hbody

/-- Code is like itself, if the frame that it closes over may be used. -/
theorem Code.like_self {code : Code} (h : ∀ j ∈ code.frame?, L.frame n j) :
    code.Like L n code := by
  cases code with
  | native _ _ => exact .native
  | closure _ _ j => exact .closure (List.forall₂_same.mpr fun x _ => hsymbol x) (hbody _) (h j rfl)

/-- A value is like itself, if it does not lead to a frame that may not be used. -/
theorem Value.like_self {v : Value} (h : ∀ j ∈ v.frame?, L.frame n j) : v.Like L n v := by
  cases v with
  | nil => exact .nil
  | bool _ => exact .bool
  | number _ => exact .number
  | string _ => exact .string
  | function f => exact .function rfl (hsymbol _) rfl (Code.like_self hsymbol hbody h)

end

/-- More frames can only become usable. -/
theorem Code.Like.mono {code code' : Code} (h : code.Like L n code') (hnm : n ≤ m) :
    code.Like L m code' := by
  cases h with
  | native => exact .native
  | closure hparams hbody hi => exact .closure hparams hbody (L.frame_mono hnm hi)

theorem Code.Like.arity_eq {code code' : Code} (h : code.Like L n code') :
    code.arity = code'.arity := by
  cases h with
  | native => rfl
  | closure hparams _ _ => exact hparams.length_eq

namespace Value.Like

variable {v v' w w' : Value}

theorem mono (h : v.Like L n v') (hnm : n ≤ m) : v.Like L m v' := by
  cases h with
  | nil => exact .nil
  | bool => exact .bool
  | number => exact .number
  | string => exact .string
  | function hid hname hspelling hcode => exact .function hid hname hspelling (hcode.mono hnm)

/-- Values that are alike are the same to everything that a program can do with them. -/
theorem truthy_eq (h : v.Like L n v') : v.truthy = v'.truthy := by
  cases h <;> rfl

theorem literal?_eq (h : v.Like L n v') : v.literal? = v'.literal? := by
  cases h <;> rfl

theorem text_eq (h : v.Like L n v') : v.text = v'.text := by
  cases h with
  | @function f f' _ _ hspelling hcode =>
      obtain ⟨id, name, code⟩ := f
      obtain ⟨id', name', code'⟩ := f'
      cases hcode with
      | native => rfl
      | closure _ _ _ =>
          simp only at hspelling
          simp [text, Function.text, Function.isNative, hspelling]
  | _ => rfl

/-- Functions are equal by identity, and so they are equal to the same ones. -/
theorem equals_eq (hv : v.Like L n v') (hw : w.Like L n w') : v.equals w = v'.equals w' := by
  cases hv with
  | function hf _ _ _ =>
      cases hw with
      | function hg _ _ _ => simp only [equals, hf, hg]
      | _ => rfl
  | _ => cases hw <;> rfl

end Value.Like

/-! ## Operators

An operator does not tell like operands apart, and no operator makes a function.
-/

section

variable {v v' w w' u : Value}

/-- Operators give and fail with the same on values that are alike. -/
theorem UnaryOp.apply_eq {op : UnaryOp} (h : v.Like L n v') : op.apply v = op.apply v' := by
  cases op with
  | not => rw [apply, apply, h.truthy_eq]
  | neg => cases h <;> rfl

/-- A value that is no function is like itself. -/
theorem Value.Plain.like (h : v.Plain) : v.Like L n v := by
  cases v with
  | nil => exact .nil
  | bool _ => exact .bool
  | number _ => exact .number
  | string _ => exact .string
  | function f => exact h.elim

theorem Value.add_eq (hv : v.Like L n v') (hw : w.Like L n w') : v.add w = v'.add w' := by
  have hv_text := hv.text_eq
  have hw_text := hw.text_eq
  cases hv <;> cases hw <;> simp_all [Value.add]

theorem Value.onNumbers_eq (f : Number → Number → Except Fault Value) (hv : v.Like L n v')
    (hw : w.Like L n w') : v.onNumbers f w = v'.onNumbers f w' := by
  cases hv <;> cases hw <;> rfl

/-- And so do those with two operands. -/
theorem BinaryOp.apply_eq {op : BinaryOp} (hv : v.Like L n v') (hw : w.Like L n w') :
    op.apply v w = op.apply v' w' := by
  cases op with
  | equal | notEqual => rw [apply, apply, hv.equals_eq hw]
  | add => exact Value.add_eq hv hw
  | _ => exact Value.onNumbers_eq _ hv hw

end

/-! ## Stores -/

/-- The frames have the same parent, which may be used, and bind the same names to like values. -/
structure Frame.Like (L : Likeness) (n : Nat) (frame frame' : Frame) : Prop where
  parent_eq : frame.parent = frame'.parent
  parent : ∀ p ∈ frame.parent, L.frame n p
  lookup : ∀ {x x'}, L.symbol x x' →
    Option.Rel (Value.Like L n) (frame.lookup x) (frame'.lookup x')

/-- There are as many frames and functions in both stores.  The frames that may be used are alike,
and the others hold what they are said to keep. -/
structure Store.Like (L : Likeness) (store store' : Store) : Prop where
  size_eq : store.frames.size = store'.frames.size
  functions_eq : store.functions = store'.functions
  start_le : L.start ≤ store.frames.size
  inside : ∀ i, L.Inside i →
    Option.Rel (Frame.Like L store.frames.size) store.frames[i]? store'.frames[i]?
  outside : ∀ i, ¬L.Inside i →
    store.frames[i]? = L.kept i ∧ store'.frames[i]? = L.kept' i

theorem Frame.Like.mono {frame frame' : Frame} (h : frame.Like L n frame') (hnm : n ≤ m) :
    frame.Like L m frame' where
  parent_eq := h.parent_eq
  parent p hp := L.frame_mono hnm (h.parent p hp)
  lookup hx := by
    have hlookup := h.lookup hx
    revert hlookup
    generalize frame.lookup _ = v, frame'.lookup _ = v'
    rintro (hv | _)
    · exact .some (hv.mono hnm)
    · exact .none

/-- Frames stay alike if values that are alike are defined in both. -/
theorem Frame.Like.define {frame frame' : Frame} (h : frame.Like L n frame') {x x' : Symbol}
    (hx : L.symbol x x') {v v' : Value} (hv : v.Like L n v') :
    (frame.define x v).Like L n (frame'.define x' v') where
  parent_eq := h.parent_eq
  parent := h.parent
  lookup {y y'} hy := by
    rw [Frame.lookup_define, Frame.lookup_define]
    by_cases hyx : y = x
    · rw [if_pos hyx, if_pos ((L.symbol_iff hy hx).mp hyx)]
      exact .some hv
    · rw [if_neg hyx, if_neg (mt (L.symbol_iff hy hx).mpr hyx)]
      exact h.lookup hy

namespace Store.Like

variable {store store' : Store} {i : FrameId} {x x' : Symbol} {v v' : Value}

/-- A name has the same owner in both stores, and the owner may be used.  Where neither frame binds
the name, both walks go on from the same parent. -/
theorem owner? (h : store.Like L store') (hx : L.symbol x x') (hi : L.frame store.frames.size i) :
    store.owner? x i = store'.owner? x' i ∧
      ∀ j ∈ store.owner? x i, L.frame store.frames.size j := by
  induction i using Nat.strongRecOn with
  | ind i ih =>
      have hframe := h.inside i ⟨_, hi⟩
      rw [Store.owner?, Store.owner?]
      generalize store.frames[i]? = o, store'.frames[i]? = o' at hframe
      cases hframe with
      | none => exact ⟨rfl, nofun⟩
      | @some frame frame' hframe =>
          have hlookup := hframe.lookup hx
          have hparent := hframe.parent
          simp only [← hframe.parent_eq]
          generalize frame.lookup x = b, frame'.lookup x' = b' at hlookup
          cases hlookup with
          | some _ =>
              refine ⟨rfl, ?_⟩
              rintro _ ⟨⟩
              exact hi
          | none =>
              cases hp : frame.parent with
              | none =>
                  refine ⟨rfl, ?_⟩
                  rintro _ ⟨⟩
              | some p =>
                  by_cases hlt : p < i
                  · simpa [hlt] using ih p hlt (hparent p hp)
                  · simp [hlt]

/-- The same name stands for values that are alike, or is bound in neither store. -/
theorem get? (h : store.Like L store') (hx : L.symbol x x') (hi : L.frame store.frames.size i) :
    Option.Rel (Value.Like L store.frames.size) (store.get? i x) (store'.get? i x') := by
  obtain ⟨howner, hknown⟩ := h.owner? hx hi
  rw [Store.get?, Store.get?, ← howner]
  cases hj : store.owner? x i with
  | none => exact .none
  | some j =>
      have hframe := h.inside j ⟨_, hknown j hj⟩
      simp only [Option.bind_some]
      generalize store.frames[j]? = o, store'.frames[j]? = o' at hframe
      cases hframe with
      | none => exact .none
      | some hframe => exact hframe.lookup hx

/-- Stores stay alike if values that are alike are defined in the same frame of both. -/
theorem define (h : store.Like L store') (hx : L.symbol x x') (hi : L.frame store.frames.size i)
    (hv : v.Like L store.frames.size v') :
    (store.define i x v).Like L (store'.define i x' v') where
  size_eq := by simpa [Store.define] using h.size_eq
  functions_eq := h.functions_eq
  start_le := by simpa [Store.define] using h.start_le
  inside j hj := by
    have hframe := h.inside j hj
    simp only [Store.define, Array.getElem?_modify, Array.size_modify]
    by_cases hij : i = j
    · rw [if_pos hij, if_pos hij]
      generalize store.frames[j]? = o, store'.frames[j]? = o' at hframe
      cases hframe with
      | none => exact .none
      | some hframe => exact .some (hframe.define hx hv)
    · rw [if_neg hij, if_neg hij]
      exact hframe
  outside j hj := by
    have hij : i ≠ j := by
      rintro rfl
      exact hj ⟨_, hi⟩
    simp only [Store.define, Array.getElem?_modify, if_neg hij]
    exact h.outside j hj

/-- A new frame in both has the same position and no bindings. -/
theorem newFrame (h : store.Like L store') {p : FrameId} (hp : L.frame store.frames.size p) :
    (store.newFrame (some p)).2.Like L (store'.newFrame (some p)).2 where
  size_eq := by simpa [Store.newFrame] using h.size_eq
  functions_eq := h.functions_eq
  start_le := by
    have := h.start_le
    simp only [Store.newFrame, Array.size_push]
    omega
  inside i hi := by
    simp only [Store.newFrame, Array.getElem?_push, Array.size_push, ← h.size_eq]
    by_cases hnew : i = store.frames.size
    · rw [if_pos hnew, if_pos hnew]
      refine .some ⟨rfl, ?_, fun _ => .none⟩
      rintro _ ⟨⟩
      exact L.frame_mono (Nat.le_succ _) hp
    · rw [if_neg hnew, if_neg hnew]
      have hframe := h.inside i hi
      generalize store.frames[i]? = o, store'.frames[i]? = o' at hframe
      cases hframe with
      | none => exact .none
      | some hframe => exact .some (hframe.mono (Nat.le_succ _))
  outside i hi := by
    have hold : i ≠ store.frames.size := by
      rintro rfl
      exact hi ⟨_, L.frame_new h.start_le⟩
    simp only [Store.newFrame, Array.getElem?_push, ← h.size_eq, if_neg hold]
    exact h.outside i hi

/-- A new function in both has the same identity. -/
theorem newFunction (h : store.Like L store') (x x' : Symbol) (code code' : Code) :
    (store.newFunction x code).2.Like L (store'.newFunction x' code').2 where
  size_eq := h.size_eq
  functions_eq := congrArg (· + 1) h.functions_eq
  start_le := h.start_le
  inside := h.inside
  outside := h.outside

end Store.Like

/-! ## States -/

/-- Nothing tells the states apart but what the likeness leaves open, and that the output of the
second one is ahead. -/
structure State.Like (L : Likeness) (ahead : ByteArray) (s s' : State) : Prop where
  store : s.store.Like L s'.store
  room_eq : s.output.room = s'.output.room
  written_eq : s'.output.written = ahead ++ s.output.written
  readings_eq : s.readings = s'.readings

/-- With nothing written ahead, both outputs are the same. -/
theorem State.Like.output_eq {s s' : State} (h : s.Like L .empty s') : s.output = s'.output := by
  obtain ⟨_, ⟨written, room⟩, _⟩ := s
  obtain ⟨_, ⟨written', room'⟩, _⟩ := s'
  have hwritten : written' = .empty ++ written := h.written_eq
  rw [ByteArray.empty_append] at hwritten
  cases hwritten
  cases h.room_eq
  rfl

/-- The programs may differ in this way, and the runs may use all frames. -/
def Translation.everywhere (t : Translation) : Likeness where
  toTranslation := t
  frame _ _ := True
  start := 0
  kept _ := none
  kept' _ := none
  frame_mono _ := id
  frame_new _ := trivial

/-- At first only the clock is there.  Its name may be one that neither program has. -/
theorem State.like_initial_everywhere {t : Translation} {x x' : Symbol}
    (hx : ∀ y y', t.symbol y y' → (y = x ↔ y' = x')) (hspelling : x.name = x'.name)
    (room : Option Nat) :
    (State.initial x room).Like t.everywhere .empty (.initial x' room) := by
  let first (x : Symbol) : Frame := Frame.define ⟨none, []⟩ x (.function ⟨0, x, .native .clock 0⟩)
  have hfirst : (first x).Like t.everywhere 1 (first x') := by
    refine ⟨rfl, nofun, fun {y y'} hy => ?_⟩
    rw [Frame.lookup_define, Frame.lookup_define]
    by_cases h : y = x
    · obtain rfl := (hx y y' hy).mp h
      subst h
      rw [if_pos rfl, if_pos rfl]
      exact .some (.function rfl hy hspelling .native)
    · rw [if_neg h, if_neg (mt (hx y y' hy).mpr h)]
      exact .none
  refine ⟨⟨rfl, rfl, Nat.zero_le _, fun i _ => ?_, fun i hi => absurd ⟨0, trivial⟩ hi⟩, rfl, rfl,
    rfl⟩
  match i with
  | 0 => exact .some hfirst
  | _ + 1 => exact .none

/-- Whether a text fits depends on the room only, and being ahead is kept. -/
theorem Output.write_like {o o' : Output} {ahead : ByteArray} (bytes : ByteArray)
    (hroom : o.room = o'.room) (hwritten : o'.written = ahead ++ o.written) :
    (o.write bytes).2 = (o'.write bytes).2 ∧ (o.write bytes).1.room = (o'.write bytes).1.room ∧
      (o'.write bytes).1.written = ahead ++ (o.write bytes).1.written := by
  rw [write, write, ← hroom, hwritten]
  cases o.room with
  | none => exact ⟨rfl, rfl, ByteArray.append_assoc⟩
  | some room =>
      by_cases hfits : bytes.size ≤ room
      · simp only [if_pos hfits]
        exact ⟨trivial, trivial, ByteArray.append_assoc⟩
      · simp only [if_neg hfits]
        exact ⟨trivial, trivial, ByteArray.append_assoc⟩

/-- The fault does not tell a name. -/
def Fault.Nameless : Fault → Prop
  | undefinedVariable _ => False
  | _ => True

/-- Only a name is blamed for a fault that mentions it. -/
theorem Fault.Suspects.nameless {e : Fault} {kind : Kind} (h : e.Suspects kind)
    (hkind : ∀ x, kind ≠ .identifier x) : e.Nameless := by
  cases e with
  | undefinedVariable name =>
      obtain ⟨x, -, rfl⟩ := h
      exact hkind x rfl
  | _ => trivial

theorem UnaryOp.nameless_of_apply {op : UnaryOp} {v : Value} {e : Fault}
    (h : op.apply v = .error e) : e.Nameless :=
  (suspects_of_apply h).1.nameless fun _ => by cases op <;> exact Kind.noConfusion

theorem BinaryOp.nameless_of_apply {op : BinaryOp} {v w : Value} {e : Fault}
    (h : op.apply v w = .error e) : e.Nameless :=
  (suspects_of_apply h).1.nameless fun _ => by cases op <;> exact Kind.noConfusion

/-- A name that is not defined is told by both faults as it is called in the two runs, and every
other fault is the same. -/
inductive Fault.Like (L : Likeness) : Fault → Fault → Prop
  | same {e : Fault} : e.Nameless → Like L e e
  | undefinedVariable {x x' : Symbol} :
      L.symbol x x' → Like L (.undefinedVariable x.name) (.undefinedVariable x'.name)

inductive Failure.Like (L : Likeness) : Failure → Failure → Prop
  | fault {l l' : Position} {e e' : Fault} :
      L.line l l' → e.Like L e' → Like L (.fault l e) (.fault l' e')
  | outputRefused : Like L .outputRefused .outputRefused

/-- The outcomes are of one sort, with like states and like values.  No frame is lost, where there
were `n` of them before. -/
inductive Outcome.Like {α : Type} (L : Likeness) (ahead : ByteArray) (n : Nat)
    (value : Nat → α → α → Prop) : Outcome α → Outcome α → Prop
  | done {a a' : α} {s s' : State} :
      value s.store.frames.size a a' → s.Like L ahead s' → n ≤ s.store.frames.size →
      Like L ahead n value (.done a s) (.done a' s')
  | failed {e e' : Failure} {s s' : State} :
      e.Like L e' → s.Like L ahead s' → n ≤ s.store.frames.size →
      Like L ahead n value (.failed e s) (.failed e' s')
  | outOfFuel : Like L ahead n value .outOfFuel .outOfFuel

section

variable {α β : Type} {ahead : ByteArray} {s s' : State}

/-- Both runs have enough fuel or neither has. -/
theorem Outcome.Like.eq_outOfFuel_iff {value : Nat → α → α → Prop} {o o' : Outcome α}
    (h : o.Like L ahead n value o') : o = .outOfFuel ↔ o' = .outOfFuel := by
  cases h with
  | done _ _ _ => simp
  | failed _ _ _ => simp
  | outOfFuel => exact Iff.rfl

/-- What comes second starts in like states, with all the frames that there were before. -/
theorem Outcome.Like.bind {x x' : Action α} {f f' : α → Action β} {first : Nat → α → α → Prop}
    {last : Nat → β → β → Prop} (hx : (x s).Like L ahead n first (x' s'))
    (hf : ∀ a a' t t', first t.store.frames.size a a' → t.Like L ahead t' →
      n ≤ t.store.frames.size →
      (f a t).Like L ahead t.store.frames.size last (f' a' t')) :
    ((x >>= f) s).Like L ahead n last ((x' >>= f') s') := by
  rw [Action.bind_apply, Action.bind_apply]
  generalize x s = o, x' s' = o' at hx
  cases hx with
  | outOfFuel => exact .outOfFuel
  | failed he hs hn => exact .failed he hs hn
  | @done a a' t t' ha ht hn =>
      have hlast := hf a a' t t' ha ht hn
      simp only
      generalize f a t = o, f' a' t' = o' at hlast
      cases hlast with
      | outOfFuel => exact .outOfFuel
      | failed he hs hm => exact .failed he hs (hn.trans hm)
      | done hb hs hm => exact .done hb hs (hn.trans hm)

namespace Action

/-- A step that does nothing leaves both as they are. -/
theorem like_pure {value : Nat → α → α → Prop} {a a' : α} (ha : value s.store.frames.size a a')
    (hs : s.Like L ahead s') :
    ((pure a : Action α) s).Like L ahead s.store.frames.size value ((pure a' : Action α) s') :=
  .done ha hs (Nat.le_refl _)

/-- Both runs go the same way at a choice on which they agree. -/
theorem like_ite {value : Nat → α → α → Prop} {b b' : Bool} {x x' y y' : Action α} (hb : b = b')
    (hx : (x s).Like L ahead n value (x' s')) (hy : (y s).Like L ahead n value (y' s')) :
    ((if b then x else y) s).Like L ahead n value ((if b' then x' else y') s') := by
  subst hb
  split
  · exact hx
  · exact hy

/-- Both runs fail alike. -/
theorem like_fault {value : Nat → α → α → Prop} {l l' : Position} {e e' : Fault} (hl : L.line l l')
    (he : e.Like L e') (hs : s.Like L ahead s') :
    ((fail (.fault l e) : Action α) s).Like L ahead s.store.frames.size value
      ((fail (.fault l' e') : Action α) s') :=
  .failed (.fault hl he) hs (Nat.le_refl _)

/-- The same result is blamed on corresponding lines. -/
theorem like_blame {l l' : Position} {r : Except Fault Value} (hl : L.line l l')
    (hok : ∀ v, r = .ok v → v.Like L s.store.frames.size v)
    (herror : ∀ e, r = .error e → e.Nameless) (hs : s.Like L ahead s') :
    (blame l r s).Like L ahead s.store.frames.size (Value.Like L) (blame l' r s') := by
  cases r with
  | ok v => exact like_pure (hok v rfl) hs
  | error e => exact like_fault hl (.same (herror e rfl)) hs

variable {i : FrameId} {x x' : Symbol} {v v' : Value}

/-- A frame made in both runs may be used in both. -/
theorem like_newFrame (hs : s.Like L ahead s') (hi : L.frame s.store.frames.size i) :
    (newFrame (some i) s).Like L ahead s.store.frames.size (fun n j j' => j' = j ∧ L.frame n j)
      (newFrame (some i) s') := by
  refine .done ⟨hs.store.size_eq.symm, ?_⟩ ⟨hs.store.newFrame hi, hs.room_eq, hs.written_eq,
    hs.readings_eq⟩ ?_
  · simpa [Store.newFrame] using L.frame_new hs.store.start_le
  · simp

theorem like_define (hs : s.Like L ahead s') (hi : L.frame s.store.frames.size i)
    (hx : L.symbol x x') (hv : v.Like L s.store.frames.size v') :
    (define i x v s).Like L ahead s.store.frames.size (fun _ _ _ => True) (define i x' v' s') := by
  refine .done trivial ⟨hs.store.define hx hi hv, hs.room_eq, hs.written_eq, hs.readings_eq⟩ ?_
  simp [Store.define]

/-- Parameters are bound to arguments one by one in both runs. -/
theorem like_defineAll {bs bs' : List (Symbol × Value)} (hs : s.Like L ahead s')
    (hn : n ≤ s.store.frames.size) (hi : L.frame n i)
    (hbs : List.Forall₂ (fun b b' => L.symbol b.1 b'.1 ∧ b.2.Like L n b'.2) bs bs') :
    (defineAll i bs s).Like L ahead s.store.frames.size (fun _ _ _ => True)
      (defineAll i bs' s') := by
  induction hbs generalizing s s' with
  | nil => exact like_pure trivial hs
  | cons hb _ ih =>
      refine (like_define hs (L.frame_mono hn hi) hb.1 (hb.2.mono hn)).bind ?_
      intro _ _ t t' _ ht hm
      exact ih ht (hn.trans hm)

/-- The same name is read in both runs, or blamed in both. -/
theorem like_get {l l' : Position} (hs : s.Like L ahead s') (hi : L.frame s.store.frames.size i)
    (hx : L.symbol x x') (hl : L.line l l') :
    (get i x l s).Like L ahead s.store.frames.size (Value.Like L) (get i x' l' s') := by
  have hget := hs.store.get? hx hi
  rw [get, get]
  generalize s.store.get? i x = o, s'.store.get? i x' = o' at hget
  cases hget with
  | some hv => exact like_pure hv hs
  | none => exact like_fault hl (.undefinedVariable hx) hs

/-- The same binding is changed in both runs, or the name is blamed in both. -/
theorem like_assign {l l' : Position} (hs : s.Like L ahead s') (hi : L.frame s.store.frames.size i)
    (hx : L.symbol x x') (hv : v.Like L s.store.frames.size v') (hl : L.line l l') :
    (assign i x v l s).Like L ahead s.store.frames.size (fun _ _ _ => True)
      (assign i x' v' l' s') := by
  obtain ⟨howner, hknown⟩ := hs.store.owner? hx hi
  rw [assign, assign, ← howner]
  cases hj : s.store.owner? x i with
  | some j => exact like_define hs (hknown j hj) hx hv
  | none => exact like_fault hl (.undefinedVariable hx) hs

/-- Code that corresponds makes functions that are alike. -/
theorem like_defineFunction {code code' : Code} (hs : s.Like L ahead s')
    (hi : L.frame s.store.frames.size i) (hx : L.symbol x x') (hspelling : x.name = x'.name)
    (hcode : code.Like L s.store.frames.size code') :
    (defineFunction i x code s).Like L ahead s.store.frames.size (fun _ _ _ => True)
      (defineFunction i x' code' s') := by
  have hf : (Value.function (s.store.newFunction x code).1).Like L s.store.frames.size
      (.function (s'.store.newFunction x' code').1) :=
    .function hs.store.functions_eq hx hspelling hcode
  refine .done trivial ⟨(hs.store.newFunction x x' code code').define hx hi hf, hs.room_eq,
    hs.written_eq, hs.readings_eq⟩ ?_
  simp [Store.define]

/-- Both runs write the same, or are refused the same. -/
theorem like_print (hs : s.Like L ahead s') (hv : v.Like L s.store.frames.size v') :
    (print v s).Like L ahead s.store.frames.size (fun _ _ _ => True) (print v' s') := by
  obtain ⟨hcomplete, hroom, hwritten⟩ :=
    Output.write_like (v.text ++ "\n").toUTF8 hs.room_eq hs.written_eq
  rw [print, print, ← hv.text_eq]
  simp only [← hcomplete]
  split
  · exact .done trivial ⟨hs.store, hroom, hwritten, hs.readings_eq⟩ (Nat.le_refl _)
  · exact .failed .outputRefused ⟨hs.store, hroom, hwritten, hs.readings_eq⟩ (Nat.le_refl _)

/-- Both runs read the clock at the same turn. -/
theorem like_readClock (clock : Nat → Number) (hs : s.Like L ahead s') :
    (readClock clock s).Like L ahead s.store.frames.size (fun _ a a' => a = a')
      (readClock clock s') := by
  refine .done (congrArg clock hs.readings_eq) ⟨hs.store, hs.room_eq, hs.written_eq, ?_⟩
    (Nat.le_refl _)
  exact congrArg (· + 1) hs.readings_eq

end Action

end

end Lox
