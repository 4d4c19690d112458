import Lox.Proofs.Run.Points
import Lox.Proofs.Session.Splitting

/-!
# Frames through a session

What holds of the frames of a run holds through a whole session, in whatever way its sources end.  A
source that is rejected leaves the store alone; one that finishes or fails leaves what its run has
made of the store; and one that runs out of fuel leaves the store as it was before.  So no name is
ever lost, no frame gets another parent, and every function is the work of one declaration.
-/

namespace Lox

/-! ## Walks -/

namespace Store

/-- The frames on the way up from a frame, which is the first of them. -/
inductive Chain (store : Store) : FrameId → List FrameId → Prop
  | top {i : FrameId} : i < store.frames.size → store.parent? i = none → Chain store i [i]
  | up {i p : FrameId} {chain : List FrameId} :
      store.parent? i = some p → Chain store p chain → Chain store i (i :: chain)

/-- Whether the frame binds the name. -/
def binds (store : Store) (x : Symbol) (i : FrameId) : Bool :=
  (store.frames[i]?.bind (·.lookup x)).isSome

variable {store : Store} {i : FrameId}

theorem lt_size_of_parent? {p : FrameId} (h : store.parent? i = some p) :
    i < store.frames.size := by
  obtain ⟨frame, hi, -⟩ := Option.bind_eq_some_iff.mp h
  exact (Array.getElem?_eq_some_iff.mp hi).1

/-- Where parents come first, every way up ends. -/
theorem exists_chain (hparent : ∀ i, ∀ p ∈ store.parent? i, p < i) (hi : i < store.frames.size) :
    ∃ chain, store.Chain i chain := by
  induction i using Nat.strongRecOn with
  | ind i ih =>
      cases hp : store.parent? i with
      | none => exact ⟨[i], .top hi hp⟩
      | some p =>
          have hlt := hparent i p hp
          obtain ⟨chain, hchain⟩ := ih p hlt (Nat.lt_trans hlt hi)
          exact ⟨i :: chain, .up hp hchain⟩

/-- A name is looked for in the frame, and then from its parent on if that is an older one. -/
theorem owner?_of_parent? (hi : i < store.frames.size) (x : Symbol) :
    store.owner? x i =
      if store.binds x i then some i
      else (store.parent? i).bind fun p => if p < i then store.owner? x p else none := by
  rw [owner?_eq, binds, parent?, Array.getElem?_eq_getElem hi]
  rfl

/-- The owner of a name is the first frame on the way up that binds it. -/
theorem Chain.owner?_eq (hparent : ∀ i, ∀ p ∈ store.parent? i, p < i) {chain : List FrameId}
    (h : store.Chain i chain) (x : Symbol) : store.owner? x i = chain.find? (store.binds x) := by
  induction h with
  | @top i hi hp =>
      rw [owner?_of_parent? hi, hp, List.find?_cons]
      cases store.binds x i <;> rfl
  | @up i p chain hp _ ih =>
      rw [owner?_of_parent? (lt_size_of_parent? hp), hp, Option.bind_some,
        if_pos (hparent i p hp), ih, List.find?_cons]
      cases store.binds x i <;> rfl

/-- A name has the value that it was given last in the frame. -/
theorem get?_define_self (store : Store) {i : FrameId} (hi : i < store.frames.size) (x : Symbol)
    (v : Value) : (store.define i x v).get? i x = some v := by
  have hframe : (store.define i x v).frames[i]? = some (store.frames[i].define x v) := by
    rw [define, Array.getElem?_modify, if_pos rfl, Array.getElem?_eq_getElem hi]
    rfl
  have hlookup : (store.frames[i].define x v).lookup x = some v := by
    rw [Frame.lookup_define, if_pos rfl]
  rw [get?, owner?_eq, hframe]
  simp [hlookup, hframe]

end Store

/-! ## Well-formed stores -/

/-- What holds of a store, with some values in hand, that came from running the declarations. -/
structure Store.WellFormed (D : Set Declaration) (store : Store) (hand : List Value) : Prop where
  /-- Every parent was made before its children. -/
  parent_lt : ∀ i, ∀ p ∈ store.parent? i, p < i
  /-- The walk that looks for a name goes up from frame to frame and comes to an end. -/
  walk : ∀ i < store.frames.size, ∃ chain, store.Chain i chain ∧
    ∀ x, store.owner? x i = chain.find? (store.binds x)
  /-- A function that is not native has a declaration, its parameters, and a frame to close over. -/
  declared : ∀ f, store.InUse hand (.function f) → f.isNative = true ∨
    ∃ d ∈ D, ∃ i < store.frames.size, f = d.function f.identity i ∧ f.arity = d.params.length
  /-- There is one function only for each identity. -/
  eq_of_identity : ∀ f g, store.InUse hand (.function f) → store.InUse hand (.function g) →
    f.identity = g.identity → f = g
  identity_lt : ∀ f, store.InUse hand (.function f) → f.identity < store.functions

section

variable {D : Set Declaration} {made : List Function} {store : Store} {hand : List Value}

/-- The values in use in a sound store are of functions that were made. -/
theorem Store.InUse.madeIn {v : Value} (h : store.InUse hand v) (hs : store.Sound D made)
    (hhand : ∀ v ∈ hand, v.MadeIn made) : v.MadeIn made := by
  rcases h with h | ⟨i, frame, x, hi, hx⟩
  · exact hhand v h
  · exact hs.holds i frame hi _ hx

/-- A sound store is well formed if the functions of the values at hand were made. -/
theorem Store.Sound.wellFormed (hs : store.Sound D made) (hhand : ∀ v ∈ hand, v.MadeIn made) :
    store.WellFormed D hand where
  parent_lt := hs.parent_lt
  walk i hi := by
    obtain ⟨chain, hchain⟩ := exists_chain hs.parent_lt hi
    exact ⟨chain, hchain, hchain.owner?_eq hs.parent_lt⟩
  declared f hf := by
    have hmade : made[f.identity]? = some f := hf.madeIn hs hhand
    cases hs.function f (List.mem_of_getElem? hmade) with
    | native h => exact .inl h
    | @declared d _ i hd _ hi => exact .inr ⟨d, hd, i, hi, rfl, rfl⟩
  eq_of_identity f g hf hg hid := by
    have hf : made[f.identity]? = some f := hf.madeIn hs hhand
    have hg : made[g.identity]? = some g := hg.madeIn hs hhand
    rw [hid, hg] at hf
    exact (Option.some.inj hf).symm
  identity_lt f hf := by
    have hf : made[f.identity]? = some f := hf.madeIn hs hhand
    exact hs.length_eq ▸ (List.getElem?_eq_some_iff.mp hf).1

end

/-! ## Steps -/

namespace Session

variable {clock : Nat → Number} {fuel : Nat} {session : Session} {source : String}

/-- Where the run of a source begins. -/
def begins (fuel : Nat) (session : Session) (source : String) : Moment :=
  ⟨fuel, .execAll globals (session.program source), session.state⟩

/-- A source leaves the store as it was, or as its run leaves it. -/
theorem store_eval (clock : Nat → Number) (fuel : Nat) (session : Session) (source : String) :
    (session.eval clock fuel source).session.state.store = session.state.store ∨
      session.Accepts source ∧ (session.eval clock fuel source).session.state.store ∈
        ((session.begins fuel source).outcome clock).store? := by
  by_cases haccepts : session.Accepts source
  · rw [haccepts.eval_eq, run, Action.bind_apply, begins, store?_outcome_execAll, program]
    cases execAll clock fuel globals _ session.state with
    | done flow s => exact .inr ⟨haccepts, rfl⟩
    | failed e s => exact .inr ⟨haccepts, rfl⟩
    | outOfFuel => exact .inl rfl
  · obtain ⟨ds, heval⟩ := @eval_of_not_accepts clock fuel _ _ haccepts
    rw [heval]
    exact .inl rfl

/-- Taking a source loses no frame and no link. -/
theorem grows_eval : session.state.store.Grows
    (session.eval clock fuel source).session.state.store := by
  rcases store_eval clock fuel session source with h | ⟨-, h⟩
  · rw [h]
    exact .refl _
  · exact Moment.grows h

theorem after_append (sources more : List String) :
    session.after clock fuel (sources ++ more) =
      (session.after clock fuel sources).after clock fuel more :=
  List.foldl_append

/-- Nor does taking sources one after the other. -/
theorem grows_after (session : Session) (sources : List String) :
    session.state.store.Grows (session.after clock fuel sources).state.store := by
  induction sources generalizing session with
  | nil => exact .refl _
  | cons source sources ih => exact grows_eval.trans (ih _)

end Session

/-- Only a declaration binds a new name, and only in the frame where it is executed.  Of the frames
before, a statement binds new names in its own frame alone, and only names that it declares outside
of its blocks and of functions; an expression and a block bind none, whatever functions they call.
No binding is removed, however the run ends, and what can be read from a frame can be read from it
ever after. -/
theorem definitions_stay_in_scope (clock : Nat → Number) (fuel : Nat) :
    (∀ i st s, (exec clock fuel i st s).Leaves fun s' =>
      s.store.Gains (fun j x => j = i ∧ x ∈ st.declared) s'.store) ∧
    (∀ i e s, (eval clock fuel i e s).Leaves fun s' =>
      s.store.Gains (fun _ _ => False) s'.store) ∧
    (∀ i body s, (exec clock fuel i (.block body) s).Leaves fun s' =>
      s.store.Gains (fun _ _ => False) s'.store) ∧
    ∀ (session : Session) (sources more : List String) i x,
      ((session.after clock fuel sources).state.store.get? i x).isSome →
        ((session.after clock fuel (sources ++ more)).state.store.get? i x).isSome := by
  refine ⟨fun i st s => ?_, fun i e s => gains_eval fuel, fun i body s => ?_, ?_⟩
  · exact gains_exec fuel fun x hx => ⟨rfl, hx⟩
  · exact gains_exec fuel nofun
  · intro session sources more i x hx
    rw [Session.after_append]
    exact (Session.grows_after _ more).isSome_get? hx

/-- A global variable can still be read after a source that is rejected and one that fails in the
middle of a block. -/
theorem definitions_stay_in_scope_after_failures :
    let session := (Session.start none).after (fun _ => ⟨0⟩) 20
      (["var x = 1;"] ++ ["f(;", "\x7b var y; -nil; \x7d"])
    (session.state.store.get? globals ⟨18, "x"⟩).isSome :=
  (definitions_stay_in_scope (fun _ => ⟨0⟩) 20).2.2.2 (.start none) _ _ _ _ (by decide +kernel)

/-! ## Sound sessions -/

/-- What a sound outcome leaves follows the store it began with. -/
theorem Outcome.Sound.of_store? {α : Type} {D : Set Declaration} {made : List Function}
    {before last : Store} {value : List Function → α → Prop} {o : Outcome α}
    (h : o.Sound D made before value) (hlast : last ∈ o.store?) :
    ∃ made', before.Follows D made made' last := by
  cases o with
  | done a s =>
      cases hlast
      obtain ⟨made', h, -⟩ := h
      exact ⟨made', h⟩
  | failed e s =>
      cases hlast
      exact h
  | outOfFuel => cases hlast

namespace Session

variable {clock : Nat → Number} {fuel : Nat} {session : Session} {source : String}

/-- The declarations of functions in the sources that are accepted. -/
def declarations (clock : Nat → Number) (fuel : Nat) (session : Session) (sources : List String) :
    Set Declaration :=
  { d | ∃ before source rest, sources = before ++ source :: rest ∧
    (session.after clock fuel before).Accepts source ∧
    ∃ st ∈ (session.after clock fuel before).program source, d.stmt.Occurs st }

/-- The task begins in the course of one of the sources, and the tasks around it keep the values. -/
def Reaches (clock : Nat → Number) (fuel : Nat) (session : Session) (sources : List String)
    (m : Moment) (held : List Value) : Prop :=
  ∃ before source rest, sources = before ++ source :: rest ∧
    (session.after clock fuel before).Accepts source ∧
    Holding clock ((session.after clock fuel before).begins fuel source) m held

/-- The first store of a session is sound, with `clock` as its only function. -/
theorem sound_initial (D : Set Declaration) (clockName : Symbol) (room : Option Nat) :
    (State.initial clockName room).store.Sound D [⟨0, clockName, .native .clock 0⟩] := by
  have hempty : (Store.empty.newFrame none).2.Sound D [] := by
    refine ⟨rfl, ?_, nofun, Store.holds_empty.newFrame none⟩
    rintro (_ | i) p hp <;> cases hp
  have hnew : ((Store.empty.newFrame none).2.newFunction clockName (.native .clock 0)).2.Sound D
      [⟨0, clockName, .native .clock 0⟩] := hempty.newFunction (.native rfl)
  exact hnew.define _ clockName (v := .function ⟨0, clockName, .native .clock 0⟩) rfl

/-- A run from a sound store is sound if the program is among the declarations. -/
theorem begins_sound {D : Set Declaration} {made : List Function}
    (hs : session.state.store.Sound D made) (hglobals : globals < session.state.store.frames.size)
    (hD : ∀ st ∈ session.program source, st.Within D) :
    (session.begins fuel source).Sound D made :=
  ⟨⟨hD, hglobals⟩, hs⟩

/-- The store is sound between any two sources. -/
theorem sound_after (clock : Nat → Number) (fuel : Nat) (room : Option Nat)
    (before rest : List String) :
    globals < ((start room).after clock fuel before).state.store.frames.size ∧
      ∃ made, ((start room).after clock fuel before).state.store.Sound
        ((start room).declarations clock fuel (before ++ rest)) made := by
  induction before using List.reverseRecOn generalizing rest with
  | nil => exact ⟨Nat.zero_lt_one, _, sound_initial _ _ room⟩
  | append_singleton before source ih =>
      obtain ⟨hglobals, made, hs⟩ := ih (source :: rest)
      rw [after_concat, List.append_assoc, List.singleton_append]
      rcases store_eval clock fuel ((start room).after clock fuel before) source with
        h | ⟨haccepts, h⟩
      · rw [h]
        exact ⟨hglobals, made, hs⟩
      · have hbegins := @begins_sound fuel _ source _ made hs hglobals fun st hst d hd =>
          ⟨before, source, rest, rfl, haccepts, st, hst, hd⟩
        obtain ⟨made', hfollows⟩ := hbegins.outcome.of_store? h
        exact ⟨Nat.lt_of_lt_of_le hglobals hfollows.grows.size_le, made', hfollows.sound⟩

/-- Whatever task a session gets to, it begins soundly. -/
theorem Reaches.sound {room : Option Nat} {sources : List String} {m : Moment} {held : List Value}
    (h : (start room).Reaches clock fuel sources m held) :
    ∃ made, m.Sound ((start room).declarations clock fuel sources) made ∧
      ∀ v ∈ held, v.MadeIn made := by
  obtain ⟨before, source, rest, rfl, haccepts, hholding⟩ := h
  obtain ⟨hglobals, made, hs⟩ := sound_after clock fuel room before (source :: rest)
  have hbegins := @begins_sound fuel _ source _ made hs hglobals fun st hst d hd =>
    ⟨before, source, rest, rfl, haccepts, st, hst, hd⟩
  obtain ⟨made', hprecedes, hheld⟩ := hholding.sound hbegins
  exact ⟨made', hprecedes.sound, hheld⟩

end Session

/-- In a session of any sources, the store is well formed between the sources and at every point in
the course of them.  From each point of a task to a later point of it and to its end, and from each
source to the next one, no parent changes and no frame or function is lost.  To execute the
declaration of a function makes a function of that declaration, closing over the frame where it is
executed, and binds it there; no value in use at a point where there were no more functions than
before is equal to it. -/
theorem store_stays_well_formed (clock : Nat → Number) (fuel : Nat) (room : Option Nat)
    (sources : List String) :
    let session := Session.start room
    let D := session.declarations clock fuel sources
    (session.after clock fuel sources).state.store.WellFormed D [] ∧
    (∀ m held store hand, session.Reaches clock fuel sources m held →
      m.Shows clock held store hand → store.WellFormed D hand) ∧
    (∀ m held m' held' store hand, session.Reaches clock fuel sources m held →
      Holding clock m m' held' → m'.Shows clock held' store hand →
      m.state.store.Grows store ∧ ∀ last ∈ (m.outcome clock).store?, store.Grows last) ∧
    (∀ before source, sources = before ++ [source] →
      (session.after clock fuel before).state.store.Grows
        (session.after clock fuel sources).state.store) ∧
    ∀ n i x params body s held,
      session.Reaches clock fuel sources ⟨n + 1, .exec i (.function x params body), s⟩ held →
      ∃ f s', exec clock (n + 1) i (.function x params body) s = .done .normal s' ∧
        f = (Declaration.mk x params body).function s.store.functions i ∧
        s'.store.get? i x = some (.function f) ∧
        ∀ m held store hand, session.Reaches clock fuel sources m held →
          m.Shows clock held store hand → store.functions ≤ s.store.functions →
          ∀ v, store.InUse hand v → (Value.function f).equals v = false := by
  intro session D
  have hwell (m held store hand) (hreaches : session.Reaches clock fuel sources m held)
      (hshows : m.Shows clock held store hand) : store.WellFormed D hand := by
    obtain ⟨made, hm, hheld⟩ := hreaches.sound
    obtain ⟨made', hfollows, hhand⟩ := hshows.sound hm hheld
    exact hfollows.sound.wellFormed hhand
  refine ⟨?_, hwell, ?_, ?_, ?_⟩
  · obtain ⟨-, made, hs⟩ := Session.sound_after clock fuel room sources []
    rw [List.append_nil] at hs
    exact hs.wellFormed (List.forall_mem_nil _)
  · intro m held m' held' store hand hreaches hholding hshows
    obtain ⟨made, hm, -⟩ := hreaches.sound
    obtain ⟨made', hprecedes, hheld'⟩ := hholding.sound hm
    obtain ⟨made'', hfollows, -⟩ := hshows.sound hprecedes.sound hheld'
    exact ⟨hprecedes.follows.grows.trans hfollows.grows, fun last => hholding.grows_last hshows⟩
  · rintro before source rfl
    rw [Session.after_concat]
    exact Session.grows_eval
  · intro n i x params body s held hreaches
    obtain ⟨made, hm, -⟩ := hreaches.sound
    refine ⟨_, _, rfl, rfl, ?_, ?_⟩
    · exact Store.get?_define_self (s.store.newFunction x (.closure params body i)).2 hm.task.2 x _
    · intro m held store hand hreaches hshows hle v hv
      cases v with
      | function g =>
          have hlt := (hwell m held store hand hreaches hshows).identity_lt g hv
          have hne : s.store.functions ≠ g.identity :=
            Nat.ne_of_gt (Nat.lt_of_lt_of_le hlt hle)
          simpa [Value.equals, Declaration.function] using hne
      | _ => rfl

/-- Where one source declares a function and the next one declares it again, the second function is
not equal to the first one, which is still bound. -/
theorem store_stays_well_formed_twice :
    let clock : Nat → Number := fun _ => ⟨0⟩
    let sources := ["fun f() \x7b\x7d", "fun f() \x7b\x7d"]
    ∃ x params body s f s',
      (Session.start none).Reaches clock 9 sources ⟨8, .exec globals (.function x params body), s⟩
        [] ∧
      exec clock 8 globals (.function x params body) s = .done .normal s' ∧
      s'.store.get? globals x = some (.function f) ∧
      ∀ v, s.store.InUse [] v → (Value.function f).equals v = false := by
  intro clock sources
  let session := (Session.start none).after clock 9 ["fun f() \x7b\x7d"]
  have haccepts : session.Accepts "fun f() \x7b\x7d" := ⟨by decide +kernel, by decide +kernel⟩
  have hhead : (session.program "fun f() \x7b\x7d").head?.any
      (fun st => match st with | .function _ _ _ => true | _ => false) = true := by decide +kernel
  cases hprogram : session.program "fun f() \x7b\x7d" with
  | nil => simp [hprogram] at hhead
  | cons st rest =>
      cases st with
      | function x params body =>
          have hreaches : (Session.start none).Reaches clock 9 sources
              ⟨8, .exec globals (.function x params body), session.state⟩ [] := by
            refine ⟨_, _, [], rfl, haccepts, .starts .refl ?_⟩
            rw [Session.begins, hprogram]
            exact .head
          obtain ⟨-, -, -, -, hfunction⟩ := store_stays_well_formed clock 9 none sources
          obtain ⟨f, s', hexec, -, hget, hne⟩ := hfunction 7 _ _ _ _ _ _ hreaches
          refine ⟨x, params, body, _, f, s', hreaches, hexec, hget, fun v hv => ?_⟩
          exact hne _ _ _ _ hreaches .begins (Nat.le_refl _) v hv
      | _ => simp [hprogram] at hhead

end Lox
