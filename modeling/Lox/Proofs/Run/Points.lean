import Lox.Proofs.Run.Locality
import Lox.Proofs.Run.Made

/-!
# The points of a run

A run can be looked at wherever a task begins or ends in the course of it.  What there is at such a
point is a store, and values in hand: those that the task works on or gives, and those that the
tasks around it keep for later.  Whatever is in hand was made, and from one point to a later one the
store only grows.
-/

namespace Lox

/-! ## Tasks and what they leave -/

namespace Task

/-- The values that a task begins with. -/
def values : Task → List Value
  | call f args => .function f :: args
  | _ => []

/-- Does a task, which gives some values. -/
def perform (clock : Nat → Number) (fuel : Nat) : Task → Action (List Value)
  | eval i e => do
    let v ← Lox.eval clock fuel i e
    pure [v]
  | evalAll i es => Lox.evalAll clock fuel i es
  | call f args => do
    let v ← Lox.call clock fuel f args
    pure [v]
  | exec i st => do
    let flow ← Lox.exec clock fuel i st
    pure flow.value?.toList
  | execAll i ss => do
    let flow ← Lox.execAll clock fuel i ss
    pure flow.value?.toList

end Task

/-- The store that is left, unless fuel was lacking. -/
def Outcome.store? {α : Type} : Outcome α → Option Store
  | done _ s => some s.store
  | failed _ s => some s.store
  | outOfFuel => none

/-- The outcome of the task. -/
def Moment.outcome (clock : Nat → Number) (m : Moment) : Outcome (List Value) :=
  m.task.perform clock m.fuel m.state

section

variable {α β : Type} {clock : Nat → Number} {s s' : State} {last : Store}

theorem Outcome.Gains.of_store? {may : FrameId → Symbol → Prop} {before : Store} {o : Outcome α}
    (h : o.Gains may before) (hlast : last ∈ o.store?) : before.Gains may last := by
  cases o with
  | done a s =>
      cases hlast
      exact h
  | failed e s =>
      cases hlast
      exact h
  | outOfFuel => cases hlast

/-- What is left behind two steps is what the second one leaves. -/
theorem store?_bind_of_done {x : Action α} {f : α → Action β} {a : α} (hx : x s = .done a s')
    (hlast : last ∈ ((x >>= f) s).store?) : last ∈ (f a s').store? := by
  rwa [Action.bind_apply, hx] at hlast

/-- What comes first has ended if the whole has ended, and the store has grown since then. -/
theorem exists_store?_of_bind {x : Action α} {f : α → Action β}
    (hlast : last ∈ ((x >>= f) s).store?)
    (hf : ∀ a s', (f a s').Gains (fun _ _ => True) s'.store) :
    ∃ store ∈ (x s).store?, store.Grows last := by
  rw [Action.bind_apply] at hlast
  cases hx : x s with
  | done a s' =>
      rw [hx] at hlast
      exact ⟨s'.store, rfl, (hf a s').of_store? hlast⟩
  | failed e s' =>
      rw [hx] at hlast
      exact ⟨last, hlast, .refl last⟩
  | outOfFuel =>
      rw [hx] at hlast
      cases hlast

/-- What is made of the value makes no difference to the store. -/
@[simp] theorem store?_bind_pure (x : Action α) (f : α → β) :
    ((do let a ← x; pure (f a) : Action β) s).store? = (x s).store? := by
  rw [Action.bind_apply]
  cases x s <;> rfl

variable {n : Nat} {i : FrameId}

/-- What a moment leaves is what the task leaves. -/
@[simp] theorem store?_outcome_eval {e : Expr} :
    (Moment.outcome clock ⟨n, .eval i e, s⟩).store? = (eval clock n i e s).store? :=
  store?_bind_pure _ _

@[simp] theorem store?_outcome_evalAll {es : List Expr} :
    (Moment.outcome clock ⟨n, .evalAll i es, s⟩).store? = (evalAll clock n i es s).store? := rfl

@[simp] theorem store?_outcome_call {f : Function} {args : List Value} :
    (Moment.outcome clock ⟨n, .call f args, s⟩).store? = (call clock n f args s).store? :=
  store?_bind_pure _ _

@[simp] theorem store?_outcome_exec {st : Stmt} :
    (Moment.outcome clock ⟨n, .exec i st, s⟩).store? = (exec clock n i st s).store? :=
  store?_bind_pure _ _

@[simp] theorem store?_outcome_execAll {ss : List Stmt} :
    (Moment.outcome clock ⟨n, .execAll i ss, s⟩).store? = (execAll clock n i ss s).store? :=
  store?_bind_pure _ _

end

open Lox.Action

/-- A part of a task that ends has ended before, and the store has grown since then.  Both end at
once where the part is the last thing that the task does; anywhere else, what the task does
afterwards lets the store grow. -/
theorem Starts.exists_store? {clock : Nat → Number} {m m' : Moment} {last : Store}
    (h : Starts clock m m') (hlast : last ∈ (m.outcome clock).store?) :
    ∃ store ∈ (m'.outcome clock).store?, store.Grows last := by
  cases h <;> simp only [store?_outcome_eval, store?_outcome_evalAll, store?_outcome_call,
    store?_outcome_exec, store?_outcome_execAll] at hlast ⊢
  case group => exact ⟨last, hlast, .refl last⟩
  case andRight hv ht | conditionYes hv ht | ifThenYes hv ht | ifElseYes hv ht =>
    have hlast := store?_bind_of_done hv hlast
    rw [if_pos ht] at hlast
    exact ⟨last, hlast, .refl last⟩
  case orRight hv ht | conditionNo hv ht | ifElseNo hv ht =>
    have hlast := store?_bind_of_done hv hlast
    rw [if_neg (Bool.eq_false_iff.mp ht)] at hlast
    exact ⟨last, hlast, .refl last⟩
  case call hv hvs harity =>
    have hlast := store?_bind_of_done hv hlast
    have hlast := store?_bind_of_done hvs hlast
    simp only [if_pos harity] at hlast
    exact ⟨last, hlast, .refl last⟩
  case block hdone | rest hdone =>
    have hlast := store?_bind_of_done hdone hlast
    exact ⟨last, hlast, .refl last⟩
  case whileAgain hv ht hnormal =>
    have hlast := store?_bind_of_done hv hlast
    rw [if_pos ht] at hlast
    have hlast := store?_bind_of_done hnormal hlast
    exact ⟨last, hlast, .refl last⟩
  case assign line s =>
    refine exists_store?_of_bind hlast fun v s => ?_
    exact (gains_assign v line).bind fun _ s => gains_pure v
  case unary => exact exists_store?_of_bind hlast fun v s => gains_blame _ _
  case binaryLeft n i op left right line s =>
    refine exists_store?_of_bind hlast fun v s => ?_
    exact (gains_eval n).bind fun w s => gains_blame line _
  case binaryRight hv =>
    have hlast := store?_bind_of_done hv hlast
    exact exists_store?_of_bind hlast fun w s => gains_blame _ _
  case logicalLeft n i op left right s =>
    cases op with
    | and => exact exists_store?_of_bind hlast fun v s => gains_ite (gains_eval n) (gains_pure v)
    | or => exact exists_store?_of_bind hlast fun v s => gains_ite (gains_pure v) (gains_eval n)
  case condition n i condition yes no s =>
    refine exists_store?_of_bind hlast fun v s => ?_
    exact gains_ite (gains_eval n) (gains_eval n)
  case callee n i callee args line s =>
    refine exists_store?_of_bind hlast fun v s => ?_
    refine (gains_evalAll n).bind fun vs s => ?_
    cases v with
    | function f => exact gains_ite (gains_call n) (gains_fail _)
    | _ => exact gains_fail _
  case arguments n i callee args line s s' v hv =>
    have hlast := store?_bind_of_done hv hlast
    refine exists_store?_of_bind hlast fun vs s => ?_
    cases v with
    | function f => exact gains_ite (gains_call n) (gains_fail _)
    | _ => exact gains_fail _
  case first n i e es s =>
    refine exists_store?_of_bind hlast fun v s => ?_
    exact (gains_evalAll n).bind fun vs s => gains_pure _
  case others hv =>
    have hlast := store?_bind_of_done hv hlast
    exact exists_store?_of_bind hlast fun vs s => gains_pure _
  case body n f args params body parent i s s' s'' hcode hframe hdefine =>
    obtain ⟨identity, name, code⟩ := f
    cases hcode
    have hlast := store?_bind_of_done hframe hlast
    have hlast := store?_bind_of_done hdefine hlast
    refine exists_store?_of_bind hlast fun flow s => ?_
    cases flow <;> exact gains_pure _
  case expr | return_ => exact exists_store?_of_bind hlast fun v s => gains_pure _
  case print =>
    refine exists_store?_of_bind hlast fun v s => ?_
    exact (gains_print v).bind fun _ s => gains_pure _
  case init =>
    refine exists_store?_of_bind hlast fun v s => ?_
    exact (gains_define v trivial).bind fun _ s => gains_pure _
  case ifThen n i e yes s =>
    refine exists_store?_of_bind hlast fun v s => ?_
    exact gains_ite (gains_exec n fun _ _ => trivial) (gains_pure _)
  case ifElse n i e yes no s =>
    refine exists_store?_of_bind hlast fun v s => ?_
    exact gains_ite (gains_exec n fun _ _ => trivial) (gains_exec n fun _ _ => trivial)
  case while_ n i e body s =>
    refine exists_store?_of_bind hlast fun v s => gains_ite ?_ (gains_pure _)
    refine (gains_exec n fun _ _ => trivial).bind fun flow s => ?_
    cases flow with
    | normal => exact gains_exec n fun _ _ => trivial
    | break_ => exact gains_pure _
    | return_ v => exact gains_pure _
  case whileBody n i e body s s' v hv ht =>
    have hlast := store?_bind_of_done hv hlast
    rw [if_pos ht] at hlast
    refine exists_store?_of_bind hlast fun flow s => ?_
    cases flow with
    | normal => exact gains_exec n fun _ _ => trivial
    | break_ => exact gains_pure _
    | return_ v => exact gains_pure _
  case head n i st ss s =>
    refine exists_store?_of_bind hlast fun flow s => ?_
    cases flow with
    | normal => exact gains_execAll n fun _ _ _ _ => trivial
    | break_ => exact gains_pure _
    | return_ v => exact gains_pure _

/-! ## Points -/

/-- While the second task is under way as a part of the first one, the first one keeps the value. -/
inductive Keeps (clock : Nat → Number) : Moment → Moment → Value → Prop
  | binary {n : Nat} {i : FrameId} {op : BinaryOp} {left right : Expr} {line : Position}
      {s s' : State} {v : Value} : eval clock n i left s = .done v s' →
      Keeps clock ⟨n + 1, .eval i (.binary op left right line), s⟩ ⟨n, .eval i right, s'⟩ v
  | and {n : Nat} {i : FrameId} {left right : Expr} {s s' : State} {v : Value} :
      eval clock n i left s = .done v s' → v.truthy = true →
      Keeps clock ⟨n + 1, .eval i (.logical .and left right), s⟩ ⟨n, .eval i right, s'⟩ v
  | or {n : Nat} {i : FrameId} {left right : Expr} {s s' : State} {v : Value} :
      eval clock n i left s = .done v s' → v.truthy = false →
      Keeps clock ⟨n + 1, .eval i (.logical .or left right), s⟩ ⟨n, .eval i right, s'⟩ v
  | callee {n : Nat} {i : FrameId} {callee : Expr} {args : List Expr} {line : Position}
      {s s' : State} {v : Value} : eval clock n i callee s = .done v s' →
      Keeps clock ⟨n + 1, .eval i (.call callee args line), s⟩ ⟨n, .evalAll i args, s'⟩ v
  | argument {n : Nat} {i : FrameId} {e : Expr} {es : List Expr} {s s' : State} {v : Value} :
      eval clock n i e s = .done v s' →
      Keeps clock ⟨n + 1, .evalAll i (e :: es), s⟩ ⟨n, .evalAll i es, s'⟩ v
  | called {n : Nat} {f : Function} {args : List Value} {params : List Symbol} {body : List Stmt}
      {parent i : FrameId} {s s' s'' : State} :
      f.code = .closure params body parent →
      Action.newFrame (some parent) s = .done i s' →
      Action.defineAll i (params.zip args) s' = .done () s'' →
      Keeps clock ⟨n + 1, .call f args, s⟩ ⟨n, .execAll i body, s''⟩ (.function f)

/-- The second task is started in the course of the first one, and the tasks around it keep the
values. -/
inductive Holding (clock : Nat → Number) (m : Moment) : Moment → List Value → Prop
  | refl : Holding clock m m []
  | starts {m₁ m₂ : Moment} {held : List Value} :
      Holding clock m m₁ held → Starts clock m₁ m₂ → Holding clock m m₂ held
  | keeps {m₁ m₂ : Moment} {held : List Value} {v : Value} :
      Holding clock m m₁ held → Keeps clock m₁ m₂ v → Holding clock m m₂ (v :: held)

/-- The points at which a task can be looked at, each with its store and the values in hand: where
it begins, and where it ends. -/
inductive Moment.Shows (clock : Nat → Number) (m : Moment) (held : List Value) :
    Store → List Value → Prop
  | begins : Shows clock m held m.state.store (m.task.values ++ held)
  | done {vs : List Value} {s : State} :
      m.outcome clock = .done vs s → Shows clock m held s.store (vs ++ held)
  | failed {e : Failure} {s : State} :
      m.outcome clock = .failed e s → Shows clock m held s.store held

/-- The value is in hand, or bound in some frame. -/
def Store.InUse (store : Store) (hand : List Value) (v : Value) : Prop :=
  v ∈ hand ∨ ∃ (i : FrameId) (frame : Frame) (x : Symbol),
    store.frames[i]? = some frame ∧ (x, v) ∈ frame.bindings

/-! ## Later points -/

section

variable {clock : Nat → Number} {m m' : Moment} {held hand : List Value} {store last : Store}

/-- Where a value is kept, a part is started. -/
theorem Keeps.starts {v : Value} (h : Keeps clock m m' v) : Starts clock m m' := by
  cases h with
  | binary hv => exact .binaryRight hv
  | and hv ht => exact .andRight hv ht
  | or hv ht => exact .orRight hv ht
  | callee hv => exact .arguments hv
  | argument hv => exact .others hv
  | called hcode hframe hdefine => exact .body hcode hframe hdefine

/-- A task that is done or fails lets the store grow. -/
theorem Moment.grows (hlast : last ∈ (m.outcome clock).store?) : m.state.store.Grows last := by
  obtain ⟨n, task, s⟩ := m
  cases task with
  | eval i e => exact (gains_eval n).of_store? (store?_outcome_eval ▸ hlast)
  | evalAll i es => exact (gains_evalAll n).of_store? hlast
  | call f args => exact (gains_call n).of_store? (store?_outcome_call ▸ hlast)
  | exec i st => exact (gains_exec n fun _ _ => trivial).of_store? (store?_outcome_exec ▸ hlast)
  | execAll i ss =>
      exact (gains_execAll n fun _ _ _ _ => trivial).of_store? (store?_outcome_execAll ▸ hlast)

/-- From a point that a moment shows, stores only grow to the end of it. -/
theorem Moment.Shows.grows (h : m.Shows clock held store hand)
    (hlast : last ∈ (m.outcome clock).store?) : store.Grows last := by
  cases h with
  | begins => exact Moment.grows hlast
  | done ho =>
      rw [ho] at hlast
      cases hlast
      exact .refl _
  | failed ho =>
      rw [ho] at hlast
      cases hlast
      exact .refl _

/-- Where values are held, there is something going on. -/
theorem Holding.during (h : Holding clock m m' held) : During clock m m' := by
  induction h with
  | refl => exact .refl
  | starts _ hstarts ih => exact .tail ih hstarts
  | keeps _ hkeeps ih => exact .tail ih hkeeps.starts

/-- If a moment leaves a store, all that goes on during it has left one from which this has grown.
-/
theorem During.exists_store? (h : During clock m m') (hlast : last ∈ (m.outcome clock).store?) :
    ∃ store ∈ (m'.outcome clock).store?, store.Grows last := by
  induction h with
  | refl => exact ⟨last, hlast, .refl last⟩
  | tail _ hstarts ih =>
      obtain ⟨mid, hmid, hgrows⟩ := ih
      obtain ⟨store, hstore, hgrows'⟩ := hstarts.exists_store? hmid
      exact ⟨store, hstore, hgrows'.trans hgrows⟩

/-- From a point in the course of a task to the end of the task, the store grows. -/
theorem Holding.grows_last (h : Holding clock m m' held) (hshows : m'.Shows clock held store hand)
    (hlast : last ∈ (m.outcome clock).store?) : store.Grows last := by
  obtain ⟨mid, hmid, hgrows⟩ := h.during.exists_store? hlast
  exact (hshows.grows hmid).trans hgrows

end

/-! ## Sound points -/

variable {D : Set Declaration} {clock : Nat → Number}

/-- The frame of the task is there, the declarations in it are known, and its values were made. -/
def Task.Sound (D : Set Declaration) (made : List Function) (n : Nat) : Task → Prop
  | eval i _ => i < n
  | evalAll i _ => i < n
  | call f args => (Value.function f).MadeIn made ∧ ∀ v ∈ args, v.MadeIn made
  | exec i st => st.Within D ∧ i < n
  | execAll i ss => (∀ st ∈ ss, st.Within D) ∧ i < n

structure Moment.Sound (D : Set Declaration) (made : List Function) (m : Moment) : Prop where
  task : m.task.Sound D made m.state.store.frames.size
  store : m.state.store.Sound D made

/-- The second task begins soundly, after what came before it. -/
structure Moment.Precedes (D : Set Declaration) (made : List Function) (m : Moment)
    (made' : List Function) (m' : Moment) : Prop where
  follows : m.state.store.Follows D made made' m'.state.store
  task : m'.task.Sound D made' m'.state.store.frames.size

section

variable {made : List Function} {m m' : Moment}

/-- What follows a sound moment is sound. -/
theorem Moment.Precedes.sound {made' : List Function} (h : m.Precedes D made made' m') :
    m'.Sound D made' :=
  ⟨h.task, h.follows.sound⟩

/-- A sound outcome has a sound store and a value that was made. -/
theorem Outcome.Sound.of_done {α : Type} {before : Store} {value : List Function → α → Prop}
    {o : Outcome α} {a : α} {s : State} (h : o.Sound D made before value) (ho : o = .done a s) :
    ∃ made', before.Follows D made made' s.store ∧ value made' a := by
  subst ho
  exact h

/-- What is kept was made. -/
theorem Keeps.sound {v : Value} (h : Keeps clock m m' v) (hm : m.Sound D made) :
    ∃ made', m.Precedes D made made' m' ∧ v.MadeIn made' := by
  obtain ⟨htask, hs⟩ := hm
  cases h with
  | binary hv | and hv _ | or hv _ | callee hv | argument hv =>
      obtain ⟨made', h, hv⟩ := (sound_eval _ htask hs).of_done hv
      exact ⟨made', ⟨h, Nat.lt_of_lt_of_le htask h.grows.size_le⟩, hv⟩
  | @called n f args params body parent i s s' s'' hcode hframe hdefine =>
      obtain ⟨hf, hargs⟩ := htask
      have hsound := hs.function _ (List.mem_of_getElem? hf)
      obtain ⟨hbody, hparent⟩ := hsound.of_closure hcode
      cases hframe
      have hbs : ∀ b ∈ params.zip args, b.2.MadeIn made := fun b hb =>
        hargs b.2 (List.of_mem_zip hb).2
      have hnew := hs.newFrame hparent
      obtain ⟨made', h, -⟩ := (sound_defineAll _ hbs hnew).of_done hdefine
      have hfollows : s.store.Follows D made made' s''.store :=
        Store.Follows.trans ⟨List.prefix_rfl, .newFrame s.store _, hnew⟩ h
      refine ⟨made', ⟨hfollows, hbody, Nat.lt_of_lt_of_le ?_ h.grows.size_le⟩, ?_⟩
      · simp
      · exact Value.MadeIn.mono hf hfollows.longer

/-- What a sound task starts begins soundly. -/
theorem Starts.sound (h : Starts clock m m') (hm : m.Sound D made) :
    ∃ made', m.Precedes D made made' m' := by
  have keeps {v : Value} (h : Keeps clock m m' v) : ∃ made', m.Precedes D made made' m' := by
    obtain ⟨made', h, -⟩ := h.sound hm
    exact ⟨made', h⟩
  obtain ⟨htask, hs⟩ := hm
  cases h with
  | group | assign | unary | binaryLeft | logicalLeft | condition | callee | first =>
      exact ⟨made, hs.follows, htask⟩
  | binaryRight hv => exact keeps (.binary hv)
  | andRight hv ht => exact keeps (.and hv ht)
  | orRight hv ht => exact keeps (.or hv ht)
  | arguments hv => exact keeps (.callee hv)
  | others hv => exact keeps (.argument hv)
  | body hcode hframe hdefine => exact keeps (.called hcode hframe hdefine)
  | conditionYes hv _ | conditionNo hv _ =>
      obtain ⟨made', h, -⟩ := (sound_eval _ htask hs).of_done hv
      exact ⟨made', h, Nat.lt_of_lt_of_le htask h.grows.size_le⟩
  | call hv hvs _ =>
      obtain ⟨made', h, hf⟩ := (sound_eval _ htask hs).of_done hv
      have hi := Nat.lt_of_lt_of_le htask h.grows.size_le
      obtain ⟨made'', h', hvs⟩ := (sound_evalAll _ hi h.sound).of_done hvs
      exact ⟨made'', h.trans h', hf.mono h'.longer, hvs⟩
  | expr | print | init | ifThen | ifElse | while_ | return_ =>
      exact ⟨made, hs.follows, htask.2⟩
  | block hframe =>
      cases hframe
      refine ⟨made, ⟨List.prefix_rfl, .newFrame _ _, hs.newFrame htask.2⟩, ?_, ?_⟩
      · exact fun _ => htask.1.part
      · simp
  | ifThenYes hv _ | ifElseYes hv _ | whileBody hv _ =>
      obtain ⟨made', h, -⟩ := (sound_eval _ htask.2 hs).of_done hv
      refine ⟨made', h, ?_, Nat.lt_of_lt_of_le htask.2 h.grows.size_le⟩
      exact htask.1.part List.mem_cons_self
  | ifElseNo hv _ =>
      obtain ⟨made', h, -⟩ := (sound_eval _ htask.2 hs).of_done hv
      refine ⟨made', h, ?_, Nat.lt_of_lt_of_le htask.2 h.grows.size_le⟩
      exact htask.1.part (List.mem_cons_of_mem _ List.mem_cons_self)
  | whileAgain hv _ hnormal =>
      obtain ⟨made', h, -⟩ := (sound_eval _ htask.2 hs).of_done hv
      have hi := Nat.lt_of_lt_of_le htask.2 h.grows.size_le
      have hbody := htask.1.part List.mem_cons_self
      obtain ⟨made'', h', -⟩ := (sound_exec _ hbody hi h.sound).of_done hnormal
      exact ⟨made'', h.trans h', htask.1, Nat.lt_of_lt_of_le hi h'.grows.size_le⟩
  | head => exact ⟨made, hs.follows, htask.1 _ List.mem_cons_self, htask.2⟩
  | rest hnormal =>
      obtain ⟨hst, hss⟩ := List.forall_mem_cons.mp htask.1
      obtain ⟨made', h, -⟩ := (sound_exec _ hst htask.2 hs).of_done hnormal
      exact ⟨made', h, hss, Nat.lt_of_lt_of_le htask.2 h.grows.size_le⟩

/-- However long the way to a task, it begins soundly, and all that is held was made. -/
theorem Holding.sound {held : List Value} (h : Holding clock m m' held) (hm : m.Sound D made) :
    ∃ made', m.Precedes D made made' m' ∧ ∀ v ∈ held, v.MadeIn made' := by
  induction h with
  | refl => exact ⟨made, ⟨hm.store.follows, hm.task⟩, List.forall_mem_nil _⟩
  | starts _ hstarts ih =>
      obtain ⟨made', h, hheld⟩ := ih
      obtain ⟨made'', h'⟩ := hstarts.sound h.sound
      refine ⟨made'', ⟨h.follows.trans h'.follows, h'.task⟩, ?_⟩
      exact fun v hv => (hheld v hv).mono h'.follows.longer
  | keeps _ hkeeps ih =>
      obtain ⟨made', h, hheld⟩ := ih
      obtain ⟨made'', h', hv⟩ := hkeeps.sound h.sound
      refine ⟨made'', ⟨h.follows.trans h'.follows, h'.task⟩, List.forall_mem_cons.mpr ⟨hv, ?_⟩⟩
      exact fun v hv => (hheld v hv).mono h'.follows.longer

theorem Flow.MadeIn.value? {flow : Flow} (h : flow.MadeIn made) :
    ∀ v ∈ flow.value?.toList, v.MadeIn made := by
  cases flow with
  | return_ v => exact List.forall_mem_singleton.mpr h
  | _ => nofun

/-- A sound moment has a sound outcome. -/
theorem Moment.Sound.outcome (hm : m.Sound D made) :
    (m.outcome clock).Sound D made m.state.store fun made vs => ∀ v ∈ vs, v.MadeIn made := by
  obtain ⟨n, task, s⟩ := m
  obtain ⟨htask, hs⟩ := hm
  cases task with
  | eval i e =>
      refine (sound_eval n htask hs).bind fun v s made hv h => ?_
      exact sound_pure (List.forall_mem_singleton.mpr hv) h.sound
  | evalAll i es => exact sound_evalAll n htask hs
  | call f args =>
      refine (sound_call n htask.1 htask.2 hs).bind fun v s made hv h => ?_
      exact sound_pure (List.forall_mem_singleton.mpr hv) h.sound
  | exec i st =>
      refine (sound_exec n htask.1 htask.2 hs).bind fun flow s made hflow h => ?_
      exact sound_pure hflow.value? h.sound
  | execAll i ss =>
      refine (sound_execAll n htask.1 htask.2 hs).bind fun flow s made hflow h => ?_
      exact sound_pure hflow.value? h.sound

/-- The values of a sound task were made. -/
theorem Moment.Sound.values (hm : m.Sound D made) : ∀ v ∈ m.task.values, v.MadeIn made := by
  obtain ⟨n, task, s⟩ := m
  cases task with
  | call f args => exact List.forall_mem_cons.mpr hm.task
  | _ => nofun

/-- At every point of a sound task the store is sound, and what is in hand was made. -/
theorem Moment.Shows.sound {held hand : List Value} {store : Store}
    (h : m.Shows clock held store hand) (hm : m.Sound D made) (hheld : ∀ v ∈ held, v.MadeIn made) :
    ∃ made', m.state.store.Follows D made made' store ∧ ∀ v ∈ hand, v.MadeIn made' := by
  have houtcome := @Moment.Sound.outcome D clock made m hm
  cases h with
  | begins =>
      exact ⟨made, hm.store.follows, List.forall_mem_append.mpr ⟨hm.values, hheld⟩⟩
  | done ho =>
      obtain ⟨made', h, hvs⟩ := houtcome.of_done ho
      refine ⟨made', h, List.forall_mem_append.mpr ⟨hvs, ?_⟩⟩
      exact fun v hv => (hheld v hv).mono h.longer
  | failed ho =>
      rw [ho] at houtcome
      obtain ⟨made', h⟩ := houtcome
      exact ⟨made', h, fun v hv => (hheld v hv).mono h.longer⟩

end

end Lox
