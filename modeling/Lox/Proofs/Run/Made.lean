import Lox.Proofs.Run.Legal
import Lox.Proofs.Run.Moved
import Lox.Proofs.Run.Scoping

/-!
# Functions that were made

Functions are copied freely, from frame to frame and through the hands of the evaluator, but each
was made once.  So the functions made in the course of a run are put down in a list that only grows,
at the place of their identity, and all that a store or a value has to do with functions is told by
the list: whatever function it holds is the one that the list has under its identity.
-/

namespace Lox

/-! ## Declarations -/

/-- The declaration of a function. -/
structure Declaration where
  name : Symbol
  params : List Symbol
  body : List Stmt

namespace Declaration

def stmt (d : Declaration) : Stmt := .function d.name d.params d.body

/-- A function that the declaration makes. -/
def function (d : Declaration) (identity : Nat) (frame : FrameId) : Function :=
  ⟨identity, d.name, .closure d.params d.body frame⟩

end Declaration

/-- The statement stands somewhere in another one, or is that one. -/
inductive Stmt.Occurs (inner : Stmt) : Stmt → Prop
  | refl : Occurs inner inner
  | part {s part : Stmt} : part ∈ s.parts → Occurs inner part → Occurs inner s

/-- A statement occurs in itself and in what occurs in its parts. -/
theorem Stmt.occurs_iff {inner s : Stmt} :
    inner.Occurs s ↔ inner = s ∨ ∃ part ∈ s.parts, inner.Occurs part := by
  constructor
  · rintro (_ | ⟨hpart, h⟩)
    · exact .inl rfl
    · exact .inr ⟨_, hpart, h⟩
  · rintro (rfl | ⟨part, hpart, h⟩)
    · exact .refl
    · exact .part hpart h

variable {D : Set Declaration}

/-- Every function that is declared somewhere in the statement is one of the declarations. -/
def Stmt.Within (D : Set Declaration) (s : Stmt) : Prop :=
  ∀ d : Declaration, d.stmt.Occurs s → d ∈ D

/-- What a part declares, the whole declares. -/
theorem Stmt.Within.part {s part : Stmt} (h : s.Within D) (hpart : part ∈ s.parts) :
    part.Within D :=
  fun d hd => h d (.part hpart hd)

/-! ## The list of functions -/

/-- The function is native, or one of the declarations made it in one of the first `n` frames. -/
inductive Function.Sound (D : Set Declaration) (n : Nat) : Function → Prop
  | native {f : Function} : f.isNative = true → Sound D n f
  | declared {d : Declaration} {identity : Nat} {i : FrameId} :
      d ∈ D → (∀ st ∈ d.body, st.Within D) → i < n → Sound D n (d.function identity i)

theorem Function.Sound.mono {n m : Nat} {f : Function} (h : f.Sound D n) (hnm : n ≤ m) :
    f.Sound D m := by
  cases h with
  | native h => exact .native h
  | declared hd hbody hi => exact .declared hd hbody (Nat.lt_of_lt_of_le hi hnm)

/-- A function that a program declared has a body of its program, and closes over a frame that was
there before. -/
theorem Function.Sound.of_closure {n : Nat} {f : Function} (h : f.Sound D n) {params : List Symbol}
    {body : List Stmt} {i : FrameId} (hcode : f.code = .closure params body i) :
    (∀ st ∈ body, st.Within D) ∧ i < n := by
  cases h with
  | native h => simp [isNative, hcode] at h
  | declared _ hbody hi =>
      cases hcode
      exact ⟨hbody, hi⟩

/-- A function is the one that the list has under its identity. -/
def Value.MadeIn (made : List Function) : Value → Prop
  | function f => made[f.identity]? = some f
  | _ => True

section

variable {made made' : List Function} {v : Value}

/-- What was made stays made. -/
theorem Value.MadeIn.mono (h : v.MadeIn made) (hmade : made <+: made') : v.MadeIn made' := by
  cases v with
  | function f =>
      obtain ⟨later, rfl⟩ := hmade
      obtain ⟨hlt, -⟩ := List.getElem?_eq_some_iff.mp h
      exact (List.getElem?_append_left hlt).trans h
  | _ => trivial

/-- A value that is no function need not be made. -/
theorem Value.Plain.madeIn (h : v.Plain) : v.MadeIn made := by
  cases v with
  | function f => exact h.elim
  | _ => trivial

end

/-! ## Sound stores -/

/-- Whatever may be bound in between. -/
abbrev Store.Grows (before after : Store) : Prop := before.Gains (fun _ _ => True) after

/-- Growing twice is growing. -/
theorem Store.Grows.trans {before mid after : Store} (h : before.Grows mid)
    (h' : mid.Grows after) : before.Grows after :=
  Gains.trans h h' fun _ _ _ _ => trivial

/-- Parents come before their children, and all functions are on the list of those made so far. -/
structure Store.Sound (D : Set Declaration) (made : List Function) (store : Store) : Prop where
  length_eq : made.length = store.functions
  parent_lt : ∀ i, ∀ p ∈ store.parent? i, p < i
  function : ∀ f ∈ made, f.Sound D store.frames.size
  holds : store.Holds (Value.MadeIn made)

namespace Store.Sound

variable {made : List Function} {store : Store} {i : FrameId} {v : Value}

/-- The parent of a new frame is older. -/
theorem newFrame (h : store.Sound D made) (hi : i < store.frames.size) :
    (store.newFrame (some i)).2.Sound D made where
  length_eq := h.length_eq
  parent_lt := by
    refine parent_lt_newFrame h.parent_lt ?_
    rintro p ⟨⟩
    exact hi
  function f hf := (h.function f hf).mono (by simp [Store.newFrame])
  holds := h.holds.newFrame _

/-- A value that was made may be bound. -/
theorem define (h : store.Sound D made) (i : FrameId) (x : Symbol) (hv : v.MadeIn made) :
    (store.define i x v).Sound D made where
  length_eq := h.length_eq
  parent_lt j p hp := h.parent_lt j p (parent?_define ▸ hp)
  function f hf := (h.function f hf).mono (by simp [Store.define])
  holds := h.holds.define i x hv

/-- The next function goes to the end of the list, where its identity is. -/
theorem madeIn_newFunction (h : store.Sound D made) (x : Symbol) (code : Code) :
    (Value.function (store.newFunction x code).1).MadeIn
      (made ++ [(store.newFunction x code).1]) := by
  rw [Value.MadeIn]
  exact (congrArg _ h.length_eq.symm).trans List.getElem?_concat_length

/-- A new function is put behind those that were made before, with its identity. -/
theorem newFunction (h : store.Sound D made) {x : Symbol} {code : Code}
    (hf : (store.newFunction x code).1.Sound D store.frames.size) :
    (store.newFunction x code).2.Sound D (made ++ [(store.newFunction x code).1]) where
  length_eq := by
    rw [List.length_append, h.length_eq]
    rfl
  parent_lt := h.parent_lt
  function f hmem := by
    rcases List.mem_append.mp hmem with hmem | hmem
    · exact h.function f hmem
    · rwa [List.mem_singleton.mp hmem]
  holds := (h.holds.mono fun v hv => hv.mono (List.prefix_append _ _)).newFunction x code

end Store.Sound

/-! ## Sound outcomes -/

/-- The second store came from the first one: frames were added and bound, and functions made. -/
structure Store.Follows (D : Set Declaration) (made : List Function) (before : Store)
    (made' : List Function) (after : Store) : Prop where
  longer : made <+: made'
  grows : before.Grows after
  sound : after.Sound D made'

/-- A sound store follows itself, with nothing made. -/
theorem Store.Sound.follows {made : List Function} {store : Store} (h : store.Sound D made) :
    store.Follows D made made store :=
  ⟨List.prefix_rfl, .refl _, h⟩

/-- What was made first is there to be used by what follows. -/
theorem Store.Follows.trans {made made' made'' : List Function} {before mid after : Store}
    (h : before.Follows D made made' mid) (h' : mid.Follows D made' made'' after) :
    before.Follows D made made'' after :=
  ⟨h.longer.trans h'.longer, h.grows.trans h'.grows, h'.sound⟩

/-- However the outcome ended, it left a sound store, and the functions that it gave were made. -/
def Outcome.Sound {α : Type} (D : Set Declaration) (made : List Function) (before : Store)
    (value : List Function → α → Prop) (o : Outcome α) : Prop :=
  o.Ends (fun a s => ∃ made', before.Follows D made made' s.store ∧ value made' a)
    fun _ s => ∃ made', before.Follows D made made' s.store

section

variable {α β : Type} {made : List Function} {s : State}

/-- What was done before is put in front. -/
theorem Outcome.Sound.after {o : Outcome α} {value : List Function → α → Prop}
    {made' : List Function} {before mid : Store} (h : before.Follows D made made' mid)
    (ho : o.Sound D made' mid value) : o.Sound D made before value := by
  cases o with
  | done a s =>
      obtain ⟨made'', h', ha⟩ := ho
      exact ⟨made'', h.trans h', ha⟩
  | failed e s =>
      obtain ⟨made'', h'⟩ := ho
      exact ⟨made'', h.trans h'⟩
  | outOfFuel => trivial

/-- The second step goes on with all that the first one made. -/
theorem Outcome.Sound.bind {x : Action α} {f : α → Action β} {first : List Function → α → Prop}
    {last : List Function → β → Prop} (hx : (x s).Sound D made s.store first)
    (hf : ∀ a s' made', first made' a → s.store.Follows D made made' s'.store →
      (f a s').Sound D made' s'.store last) :
    ((x >>= f) s).Sound D made s.store last :=
  Ends.bind hx fun a s' ⟨made', h, ha⟩ => (hf a s' made' ha h).after h

namespace Action

variable {value : List Function → α → Prop} {i : FrameId} {x : Symbol} {v : Value}

theorem sound_pure {a : α} (ha : value made a) (hs : s.store.Sound D made) :
    ((pure a : Action α) s).Sound D made s.store value :=
  ⟨made, hs.follows, ha⟩

theorem sound_fail {e : Failure} (hs : s.store.Sound D made) :
    ((fail e : Action α) s).Sound D made s.store value :=
  ⟨made, hs.follows⟩

theorem sound_ite {c : Prop} [Decidable c] {a b : Action α} (ha : (a s).Sound D made s.store value)
    (hb : (b s).Sound D made s.store value) :
    ((if c then a else b) s).Sound D made s.store value := by
  split
  · exact ha
  · exact hb

/-- No operator gives a function. -/
theorem sound_blame {line : Position} {r : Except Fault Value} (hr : ∀ v, r = .ok v → v.Plain)
    (hs : s.store.Sound D made) :
    (blame line r s).Sound D made s.store fun made v => v.MadeIn made := by
  cases r with
  | ok v => exact sound_pure (hr v rfl).madeIn hs
  | error e => exact sound_fail hs

/-- The frame that is made is there for what follows. -/
theorem sound_inNewFrame {f : FrameId → Action α} (hi : i < s.store.frames.size)
    (hs : s.store.Sound D made)
    (hf : ∀ j s', j < s'.store.frames.size → s'.store.Sound D made →
      (f j s').Sound D made s'.store value) :
    ((newFrame (some i) >>= f) s).Sound D made s.store value := by
  have hnew := hs.newFrame hi
  refine Outcome.Sound.after ⟨List.prefix_rfl, .newFrame s.store _, hnew⟩ (hf _ _ ?_ hnew)
  simp

theorem sound_define (i : FrameId) (x : Symbol) (hv : v.MadeIn made) (hs : s.store.Sound D made) :
    (define i x v s).Sound D made s.store fun _ _ => True :=
  ⟨made, ⟨List.prefix_rfl, .define _ v (.inr trivial), hs.define i x hv⟩, trivial⟩

/-- Arguments that were made may be bound to parameters. -/
theorem sound_defineAll (i : FrameId) {bs : List (Symbol × Value)}
    (hbs : ∀ b ∈ bs, b.2.MadeIn made) (hs : s.store.Sound D made) :
    (defineAll i bs s).Sound D made s.store fun _ _ => True := by
  induction bs generalizing s made with
  | nil => exact sound_pure trivial hs
  | cons b bs ih =>
      obtain ⟨hb, hbs⟩ := List.forall_mem_cons.mp hbs
      refine (sound_define i b.1 hb hs).bind ?_
      intro _ s' made' _ h
      exact ih (fun b hb => (hbs b hb).mono h.longer) h.sound

/-- What a name stands for was made. -/
theorem sound_get {line : Position} (hs : s.store.Sound D made) :
    (get i x line s).Sound D made s.store fun made v => v.MadeIn made := by
  rw [get]
  cases h : s.store.get? i x with
  | some v => exact sound_pure (hs.holds.get? h) hs
  | none => exact sound_fail hs

/-- Assigning binds a value that was made. -/
theorem sound_assign {line : Position} (hv : v.MadeIn made) (hs : s.store.Sound D made) :
    (assign i x v line s).Sound D made s.store fun _ _ => True := by
  rw [assign]
  cases s.store.owner? x i with
  | some j => exact sound_define j x hv hs
  | none => exact sound_fail hs

/-- Declaring a function makes one, and it is bound. -/
theorem sound_defineFunction {code : Code}
    (hf : (s.store.newFunction x code).1.Sound D s.store.frames.size)
    (hs : s.store.Sound D made) :
    (defineFunction i x code s).Sound D made s.store fun _ _ => True := by
  have hsound := (hs.newFunction hf).define i x (hs.madeIn_newFunction x code)
  have hnew : s.store.Grows (s.store.newFunction x code).2 := .newFunction _ x code
  exact ⟨_, ⟨List.prefix_append _ _, hnew.trans (.define _ _ (.inr trivial)), hsound⟩, trivial⟩

theorem sound_print (v : Value) (hs : s.store.Sound D made) :
    (print v s).Sound D made s.store fun _ _ => True := by
  rw [print]
  obtain ⟨output, complete⟩ := s.output.write (v.text ++ "\n").toUTF8
  cases complete with
  | true => exact ⟨made, hs.follows, trivial⟩
  | false => exact ⟨made, hs.follows⟩

end Action

end

/-- The value that a statement returned was made. -/
def Flow.MadeIn (made : List Function) : Flow → Prop
  | normal | break_ => True
  | return_ v => v.MadeIn made

open Lox.Action

mutual

/-- Each task of the evaluator keeps the store sound, and gives values that were made.  The
induction is its recursion. -/
theorem sound_eval {clock : Nat → Number} {made : List Function} {i : FrameId} {e : Expr}
    {s : State} (fuel : Nat) (hi : i < s.store.frames.size) (hs : s.store.Sound D made) :
    (eval clock fuel i e s).Sound D made s.store fun made v => v.MadeIn made := by
  match fuel, e with
  | 0, _ => trivial
  | _ + 1, .literal _ => exact sound_pure (Value.plain_ofLiteral _).madeIn hs
  | fuel + 1, .group e => exact sound_eval fuel hi hs
  | _ + 1, .var _ _ => exact sound_get hs
  | fuel + 1, .assign x e line =>
      refine (sound_eval fuel hi hs).bind ?_
      intro v s made hv h
      refine (sound_assign hv h.sound).bind ?_
      intro _ s made _ h
      exact sound_pure (hv.mono h.longer) h.sound
  | fuel + 1, .unary op e line =>
      refine (sound_eval fuel hi hs).bind ?_
      intro v s made _ h
      exact sound_blame (fun _ => UnaryOp.plain_of_apply) h.sound
  | fuel + 1, .binary op left right line =>
      refine (sound_eval fuel hi hs).bind ?_
      intro v s made _ h
      refine (sound_eval fuel (Nat.lt_of_lt_of_le hi h.grows.size_le) h.sound).bind ?_
      intro w s made _ h
      exact sound_blame (fun _ => BinaryOp.plain_of_apply) h.sound
  | fuel + 1, .logical .and left right =>
      refine (sound_eval fuel hi hs).bind ?_
      intro v s made hv h
      have hi := Nat.lt_of_lt_of_le hi h.grows.size_le
      exact sound_ite (sound_eval fuel hi h.sound) (sound_pure hv h.sound)
  | fuel + 1, .logical .or left right =>
      refine (sound_eval fuel hi hs).bind ?_
      intro v s made hv h
      have hi := Nat.lt_of_lt_of_le hi h.grows.size_le
      exact sound_ite (sound_pure hv h.sound) (sound_eval fuel hi h.sound)
  | fuel + 1, .conditional condition yes no =>
      refine (sound_eval fuel hi hs).bind ?_
      intro v s made _ h
      have hi := Nat.lt_of_lt_of_le hi h.grows.size_le
      exact sound_ite (sound_eval fuel hi h.sound) (sound_eval fuel hi h.sound)
  | fuel + 1, .call callee args line =>
      refine (sound_eval fuel hi hs).bind ?_
      intro v s made hv h
      refine (sound_evalAll fuel (Nat.lt_of_lt_of_le hi h.grows.size_le) h.sound).bind ?_
      intro vs s made hvs h
      cases v with
      | function f =>
          exact sound_ite (sound_call fuel (hv.mono h.longer) hvs h.sound) (sound_fail h.sound)
      | _ => exact sound_fail h.sound
termination_by structural fuel

theorem sound_evalAll {clock : Nat → Number} {made : List Function} {i : FrameId}
    {es : List Expr} {s : State} (fuel : Nat) (hi : i < s.store.frames.size)
    (hs : s.store.Sound D made) :
    (evalAll clock fuel i es s).Sound D made s.store fun made vs => ∀ v ∈ vs, v.MadeIn made := by
  match fuel, es with
  | 0, _ => trivial
  | _ + 1, [] => exact sound_pure nofun hs
  | fuel + 1, e :: es =>
      refine (sound_eval fuel hi hs).bind ?_
      intro v s made hv h
      refine (sound_evalAll fuel (Nat.lt_of_lt_of_le hi h.grows.size_le) h.sound).bind ?_
      intro vs s made hvs h
      exact sound_pure (List.forall_mem_cons.mpr ⟨hv.mono h.longer, hvs⟩) h.sound
termination_by structural fuel

/-- A call runs a body of the program in a new frame behind the one that it closes over. -/
theorem sound_call {clock : Nat → Number} {made : List Function} {f : Function}
    {args : List Value} {s : State} (fuel : Nat) (hf : (Value.function f).MadeIn made)
    (hargs : ∀ v ∈ args, v.MadeIn made) (hs : s.store.Sound D made) :
    (call clock fuel f args s).Sound D made s.store fun made v => v.MadeIn made := by
  match fuel, f, hf with
  | 0, _, _ => trivial
  | _ + 1, ⟨_, _, .native .clock _⟩, _ => exact ⟨made, hs.follows, trivial⟩
  | _ + 1, ⟨_, _, .native (.host answer) _⟩, _ =>
      refine sound_pure ?_ hs
      rcases Answer.among_cases (answer (args.map Value.literal?)) args with hplain | hmem
      · exact hplain.madeIn
      · exact hargs _ hmem
  | fuel + 1, ⟨_, _, .closure params body parent⟩, hf =>
      obtain ⟨hbody, hparent⟩ := (hs.function _ (List.mem_of_getElem? hf)).of_closure rfl
      refine sound_inNewFrame hparent hs ?_
      intro j s hj hs
      have hbs : ∀ b ∈ params.zip args, b.2.MadeIn made := fun b hb =>
        hargs b.2 (List.of_mem_zip hb).2
      refine (sound_defineAll j hbs hs).bind ?_
      intro _ s made _ h
      have hj := Nat.lt_of_lt_of_le hj h.grows.size_le
      refine (sound_execAll fuel hbody hj h.sound).bind ?_
      intro flow s made hflow h
      cases flow with
      | return_ v => exact sound_pure hflow h.sound
      | _ => exact sound_pure trivial h.sound
termination_by structural fuel

/-- A statement makes the functions that it declares, and no others. -/
theorem sound_exec {clock : Nat → Number} {made : List Function} {i : FrameId} {st : Stmt}
    {s : State} (fuel : Nat) (hst : st.Within D) (hi : i < s.store.frames.size)
    (hs : s.store.Sound D made) :
    (exec clock fuel i st s).Sound D made s.store fun made flow => flow.MadeIn made := by
  match fuel, st with
  | 0, _ => trivial
  | fuel + 1, .expr e =>
      refine (sound_eval fuel hi hs).bind ?_
      intro v s made _ h
      exact sound_pure trivial h.sound
  | fuel + 1, .print e =>
      refine (sound_eval fuel hi hs).bind ?_
      intro v s made _ h
      refine (sound_print v h.sound).bind ?_
      intro _ s made _ h
      exact sound_pure trivial h.sound
  | _ + 1, .var x none =>
      refine (sound_define i x (v := .nil) trivial hs).bind ?_
      intro _ s made _ h
      exact sound_pure trivial h.sound
  | fuel + 1, .var x (some e) =>
      refine (sound_eval fuel hi hs).bind ?_
      intro v s made hv h
      refine (sound_define i x hv h.sound).bind ?_
      intro _ s made _ h
      exact sound_pure trivial h.sound
  | fuel + 1, .block body =>
      refine sound_inNewFrame hi hs ?_
      intro j s hj hs
      exact sound_execAll fuel (fun _ => hst.part) hj hs
  | fuel + 1, .ifThen e yes =>
      refine (sound_eval fuel hi hs).bind ?_
      intro v s made _ h
      have hi := Nat.lt_of_lt_of_le hi h.grows.size_le
      have hyes := hst.part List.mem_cons_self
      exact sound_ite (sound_exec fuel hyes hi h.sound) (sound_pure trivial h.sound)
  | fuel + 1, .ifElse e yes no =>
      refine (sound_eval fuel hi hs).bind ?_
      intro v s made _ h
      have hi := Nat.lt_of_lt_of_le hi h.grows.size_le
      have hyes := hst.part List.mem_cons_self
      have hno := hst.part (List.mem_cons_of_mem _ List.mem_cons_self)
      exact sound_ite (sound_exec fuel hyes hi h.sound) (sound_exec fuel hno hi h.sound)
  | fuel + 1, .while_ e body =>
      refine (sound_eval fuel hi hs).bind ?_
      intro v s made _ h
      have hi := Nat.lt_of_lt_of_le hi h.grows.size_le
      refine sound_ite ?_ (sound_pure trivial h.sound)
      refine (sound_exec fuel (hst.part List.mem_cons_self) hi h.sound).bind ?_
      intro flow s made hflow h
      cases flow with
      | normal => exact sound_exec fuel hst (Nat.lt_of_lt_of_le hi h.grows.size_le) h.sound
      | break_ => exact sound_pure trivial h.sound
      | return_ v => exact sound_pure hflow h.sound
  | _ + 1, .break_ => exact sound_pure trivial hs
  | _ + 1, .function x params body =>
      have hf : ((Declaration.mk x params body).function s.store.functions i).Sound D
          s.store.frames.size := .declared (hst _ .refl) (fun _ => hst.part) hi
      refine (sound_defineFunction hf hs).bind ?_
      intro _ s made _ h
      exact sound_pure trivial h.sound
  | _ + 1, .return_ none => exact sound_pure trivial hs
  | fuel + 1, .return_ (some e) =>
      refine (sound_eval fuel hi hs).bind ?_
      intro v s made hv h
      exact sound_pure hv h.sound
termination_by structural fuel

theorem sound_execAll {clock : Nat → Number} {made : List Function} {i : FrameId}
    {ss : List Stmt} {s : State} (fuel : Nat) (hss : ∀ st ∈ ss, st.Within D)
    (hi : i < s.store.frames.size) (hs : s.store.Sound D made) :
    (execAll clock fuel i ss s).Sound D made s.store fun made flow => flow.MadeIn made := by
  match fuel, ss with
  | 0, _ => trivial
  | _ + 1, [] => exact sound_pure trivial hs
  | fuel + 1, st :: ss =>
      obtain ⟨hst, hss⟩ := List.forall_mem_cons.mp hss
      refine (sound_exec fuel hst hi hs).bind ?_
      intro flow s made hflow h
      cases flow with
      | normal => exact sound_execAll fuel hss (Nat.lt_of_lt_of_le hi h.grows.size_le) h.sound
      | break_ => exact sound_pure trivial h.sound
      | return_ v => exact sound_pure hflow h.sound
termination_by structural fuel

end

end Lox
