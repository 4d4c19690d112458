import Lox.Proofs.Run.Fuel
import Lox.Proofs.Run.Reach

/-!
# Runs stay within reach

A run neither changes nor sees a frame that it does not reach.  Both are statements about two runs
that are alike: that nothing is changed comes from a run compared with itself, and that nothing is
seen from two runs which start with different frames out of reach.
-/

namespace Lox

/-! ## What a run changes -/

/-- What a run that starts from the roots may make of a store. -/
structure Store.Local (before : Store) (roots : Set FrameId) (after : Store) : Prop where
  size_le : before.frames.size ≤ after.frames.size
  /-- Frames out of reach are left as they were. -/
  kept : ∀ i < before.frames.size, ¬before.Reaches roots i →
    after.frames[i]? = before.frames[i]?
  /-- From what was within reach and from the new frames no link leads anywhere else. -/
  closed : ∀ i j, before.Within roots after.frames.size i → after.Link i j →
    before.Within roots after.frames.size j
  /-- No link is broken. -/
  valid : before.Valid → (∀ i ∈ roots, i < before.frames.size) → after.Valid

/-- However the run ended, it made no more of the store than it may.  If it gave a function, that
does not lead out of reach either. -/
inductive Outcome.Local {α : Type} (value? : α → Option Value) (before : Store)
    (roots : Set FrameId) : Outcome α → Prop
  | done {a : α} {s : State} :
      (∀ v ∈ value? a, ∀ j ∈ v.frame?, before.Within roots s.store.frames.size j) →
      before.Local roots s.store → Local value? before roots (.done a s)
  | failed {e : Failure} {s : State} :
      before.Local roots s.store → Local value? before roots (.failed e s)
  | outOfFuel : Local value? before roots .outOfFuel

/-- The value that a statement returned. -/
def Flow.value? : Flow → Option Value
  | normal | break_ => none
  | return_ v => some v

/-- Where a call starts: from the frame that the function closes over and from those of its
arguments. -/
def Function.roots (f : Function) (args : List Value) : Set FrameId :=
  {i | f.code.frame? = some i ∨ ∃ v ∈ args, v.frame? = some i}

section

variable {before after : Store} {roots : Set FrameId} {α : Type}

theorem Store.Local.of_like (h : after.Like (.within before before roots) after)
    (hle : before.frames.size ≤ after.frames.size) : before.Local roots after := by
  have kept : ∀ i < before.frames.size, ¬before.Reaches roots i →
      after.frames[i]? = before.frames[i]? := by
    intro i hi hreaches
    refine (h.outside i ?_).1
    rw [Likeness.inside_within, not_or]
    exact ⟨hreaches, Nat.not_le.mpr hi⟩
  have closed : ∀ i j, before.Within roots after.frames.size i → after.Link i j →
      before.Within roots after.frames.size j := by
    intro i j hi hlink
    have hframe := h.inside i ⟨_, hi⟩
    cases hlink with
    | parent hi hp =>
        rw [hi] at hframe
        cases hframe with
        | some hframe => exact hframe.parent j hp
    | bound hi hv hj =>
        rw [hi] at hframe
        cases hframe with
        | some hframe => exact hframe.of_within.2 _ _ hv j hj
  refine ⟨hle, kept, closed, ?_⟩
  intro hvalid hroots i j hlink
  have lt_of_within (h : before.Within roots after.frames.size j) : j < after.frames.size := by
    rcases h with h | h
    · exact Nat.lt_of_lt_of_le (h.lt_size hvalid hroots) hle
    · exact h.2
  by_cases hi : before.Within roots after.frames.size i
  · exact lt_of_within (closed i j hi hlink)
  · -- The frame is an old one that was left alone, so the link was there before.
    obtain ⟨hreaches, hnew⟩ := not_or.mp hi
    have hlt : i < after.frames.size := by
      cases hlink with
      | parent hi _ | bound hi _ _ => exact (Array.getElem?_eq_some_iff.mp hi).1
    have hlt : i < before.frames.size := Nat.lt_of_not_le fun hle => hnew ⟨hle, hlt⟩
    have hold := kept i hlt hreaches
    have hlink : before.Link i j := by
      cases hlink with
      | parent hi hp => exact .parent (hold ▸ hi) hp
      | bound hi hv hj => exact .bound (hold ▸ hi) hv hj
    exact Nat.lt_of_lt_of_le (hvalid i j hlink) hle

/-- A state is like itself, whatever may be used of it. -/
theorem State.like_self (s : State) : s.Like (.within s.store s.store roots) .empty s := by
  have hagrees : s.store.Agrees (s.store.Reaches roots) s.store := by
    refine ⟨rfl, rfl, fun i _ => ?_⟩
    cases s.store.frames[i]? with
    | none => exact .none
    | some frame => exact .some ⟨rfl, fun _ => rfl⟩
  exact ⟨hagrees.like, rfl, ByteArray.empty_append.symm, rfl⟩

/-- What a run compared with itself says about the frames is what it changes. -/
theorem Outcome.Local.of_like {o : Outcome α} {value? : α → Option Value}
    {value : Nat → α → α → Prop}
    (hvalue : ∀ n a, value n a a → ∀ v ∈ value? a, ∀ j ∈ v.frame?, before.Within roots n j)
    (h : o.Like (.within before before roots) .empty before.frames.size value o) :
    o.Local value? before roots := by
  cases h with
  | done ha hs hle => exact .done (hvalue _ _ ha) (.of_like hs.store hle)
  | failed _ hs hle => exact .failed (.of_like hs.store hle)
  | outOfFuel => exact .outOfFuel

/-- A value that is like itself leads only to frames that may be used. -/
theorem Value.Like.local {n : Nat} {v w : Value} (h : v.Like (.within before before roots) n v)
    (hw : w ∈ some v) : ∀ j ∈ w.frame?, before.Within roots n j := by
  cases hw
  exact h.of_within.2

end

/-- Wherever a run starts, it leaves all frames alone that it does not reach, and what it returns or
binds leads to frames that it reached or made.  This holds of statements and expressions from the
frame where they run, and of calls from what the function and its arguments close over; it holds
however the run ends, and of stores with broken links too. -/
theorem run_stays_local (clock : Nat → Number) (fuel : Nat) (s : State) :
    (∀ i st, (exec clock fuel i st s).Local Flow.value? s.store {i}) ∧
    (∀ i e, (eval clock fuel i e s).Local some s.store {i}) ∧
    ∀ f args, (call clock fuel f args s).Local some s.store (f.roots args) := by
  refine ⟨fun i st => ?_, fun i e => ?_, fun f args => ?_⟩
  · refine .of_like ?_ (like_exec fuel rfl (.inl (Store.reaches_root rfl)) s.like_self)
    rintro n _ (_ | _ | hv) v hmem
    · cases hmem
    · cases hmem
    · exact hv.local hmem
  · exact .of_like (fun n v hv w hw => hv.local hw)
      (like_eval fuel rfl (.inl (Store.reaches_root rfl)) s.like_self)
  · refine .of_like (fun n v hv w hw => hv.local hw) (like_call fuel ?_ ?_ s.like_self)
    · refine Code.like_self (fun _ => rfl) (fun _ => rfl) fun j hj => ?_
      exact .inl (Store.reaches_root (.inl hj))
    · refine List.forall₂_same.mpr fun v hv => ?_
      refine Value.like_self (fun _ => rfl) (fun _ => rfl) fun j hj => ?_
      exact .inl (Store.reaches_root (.inr ⟨v, hv, hj⟩))

/-! ## What a run sees -/

/-- The runs ended in the same way, with the same output, and their stores agree on what was within
reach and on the new frames. -/
inductive Outcome.Agrees {α : Type} (before : Store) (roots : Set FrameId) :
    Outcome α → Outcome α → Prop
  | done {a : α} {s s' : State} :
      s.store.Agrees (before.Within roots s.store.frames.size) s'.store → s.output = s'.output →
      s.readings = s'.readings → Agrees before roots (.done a s) (.done a s')
  | failed {e : Failure} {s s' : State} :
      s.store.Agrees (before.Within roots s.store.frames.size) s'.store → s.output = s'.output →
      s.readings = s'.readings → Agrees before roots (.failed e s) (.failed e s')
  | outOfFuel : Agrees before roots .outOfFuel .outOfFuel

section

variable {before before' : Store} {roots : Set FrameId}

/-- States that are alike agree on the frames that can be reached, and have written the same. -/
theorem State.Like.agrees {s s' : State} (h : s.Like (.within before before' roots) .empty s') :
    s.store.Agrees (before.Within roots s.store.frames.size) s'.store ∧ s.output = s'.output := by
  refine ⟨⟨h.store.size_eq, h.store.functions_eq, fun i hi => ?_⟩, h.output_eq⟩
  have hframe := h.store.inside i ⟨_, hi⟩
  generalize s.store.frames[i]? = o, s'.store.frames[i]? = o' at hframe
  cases hframe with
  | none => exact .none
  | some hframe => exact .some hframe.of_within.1

/-- Both runs fail with the same failure. -/
theorem Failure.Like.of_within {e e' : Failure}
    (h : e.Like (.within before before' roots) e') : e' = e := by
  cases h with
  | outputRefused => rfl
  | fault hl he =>
      cases hl
      cases he with
      | same _ => rfl
      | undefinedVariable hx =>
          cases hx
          rfl

/-- Outcomes that are alike agree as far as the frames can be reached. -/
theorem Outcome.Like.agrees {o o' : Outcome Flow} {n : Nat}
    (h : o.Like (.within before before' roots) .empty n
      (Flow.Like (.within before before' roots)) o') :
    o.Agrees before roots o' := by
  cases h with
  | outOfFuel => exact .outOfFuel
  | failed he hs _ =>
      obtain ⟨hstore, houtput⟩ := hs.agrees
      cases he.of_within
      exact .failed hstore houtput hs.readings_eq
  | done hflow hs _ =>
      obtain ⟨hstore, houtput⟩ := hs.agrees
      cases hflow with
      | normal | break_ => exact .done hstore houtput hs.readings_eq
      | return_ hv =>
          cases hv.of_within.1
          exact .done hstore houtput hs.readings_eq

end

/-- A run does not see frames out of reach.  From two stores that agree on all frames that `i`
reaches, a statement runs out of fuel in both or in neither.  With enough fuel for each it ends in
the same way, with the same output, and in stores that agree on the frames that `i` reached and on
the new ones. -/
theorem exec_agrees_of_reach (clock : Nat → Number) (i : FrameId) (st : Stmt) (output : Output)
    (readings : Nat) {store store' : Store} (h : store.Agrees (store.Reaches {i}) store') :
    (∀ n, exec clock n i st ⟨store, output, readings⟩ = .outOfFuel ↔
      exec clock n i st ⟨store', output, readings⟩ = .outOfFuel) ∧
    ∀ n n', exec clock n i st ⟨store, output, readings⟩ ≠ .outOfFuel →
      exec clock n' i st ⟨store', output, readings⟩ ≠ .outOfFuel →
      (exec clock n i st ⟨store, output, readings⟩).Agrees store {i}
        (exec clock n' i st ⟨store', output, readings⟩) := by
  have hstart : State.Like (.within store store' {i}) .empty ⟨store, output, readings⟩
      ⟨store', output, readings⟩ := ⟨h.like, rfl, ByteArray.empty_append.symm, rfl⟩
  have hi : (Likeness.within store store' {i}).frame store.frames.size i :=
    .inl (Store.reaches_root rfl)
  have hlike (n : Nat) := @like_exec _ _ clock _ st st _ _ n rfl hi hstart
  refine ⟨fun n => (hlike n).eq_outOfFuel_iff, ?_⟩
  · intro n n' hn hn'
    have h := (hlike (max n n')).agrees
    rwa [(exec_le (Nat.le_max_left n n')).eq hn, (exec_le (Nat.le_max_right n n')).eq hn'] at h

/-- Two tallies kept by functions made from one declaration.  Frame 0 has the function for the first
one, and frames 1 and 2 have what they stand at. -/
def twoTallies (second : String) : Store :=
  let tally : Symbol := ⟨20, "tally"⟩
  let add : Symbol := ⟨21, "add"⟩
  let stroke : Expr := .assign tally (.binary .add (.var tally 1) (.literal (.string "|")) 1) 1
  ⟨#[⟨none, [(add, .function ⟨0, add, .closure [] [.expr stroke, .print (.var tally 2)] 1⟩)]⟩,
    ⟨some 0, [(tally, .string "")]⟩, ⟨some 0, [(tally, .string second)]⟩], 1⟩

/-- Adding to the first tally does not show what the second one stands at. -/
theorem exec_agrees_of_reach_twoTallies :
    let call : Stmt := .expr (.call (.var ⟨21, "add"⟩ 3) [] 3)
    let run (second : String) (n : Nat) :=
      exec (fun _ => ⟨0⟩) n globals call ⟨twoTallies second, {}, 0⟩
    (twoTallies "||").Agrees ((twoTallies "||").Reaches {globals}) (twoTallies "") ∧
      run "||" 10 ≠ .outOfFuel ∧ run "" 20 ≠ .outOfFuel ∧
      (run "||" 10).Agrees (twoTallies "||") {globals} (run "" 20) := by
  intro call run
  have hlink (i j : FrameId) (hi : i ≠ 2) (h : (twoTallies "||").Link i j) : j ≠ 2 := by
    have hold : (twoTallies "||").Holds fun v => v.frame? ≠ some 2 := by
      rintro (_ | _ | _ | i) _ ⟨⟩ <;> exact List.forall_mem_singleton.mpr (by decide)
    cases h with
    | parent hframe hp =>
        rcases i with _ | _ | _ | i <;> cases hframe <;> cases hp
        · decide
        · exact absurd rfl hi
    | bound hframe hv hj =>
        rintro rfl
        exact (hold i _ hframe).lookup hv hj
  have hreaches (j : FrameId) (h : (twoTallies "||").Reaches {globals} j) : j ≠ 2 := by
    obtain ⟨_, rfl, hj⟩ := h
    induction hj with
    | refl => decide
    | tail _ hij ih => exact hlink _ _ ih hij
  have h : (twoTallies "||").Agrees ((twoTallies "||").Reaches {globals}) (twoTallies "") := by
    refine ⟨rfl, rfl, fun i hi => ?_⟩
    match i, hreaches i hi with
    | 0, _ | 1, _ => exact .some ⟨rfl, fun _ => rfl⟩
    | _ + 3, _ => exact .none
  have hfirst : run "||" 10 ≠ .outOfFuel := by decide +kernel
  have hsecond : run "" 20 ≠ .outOfFuel := by decide +kernel
  exact ⟨h, hfirst, hsecond, (exec_agrees_of_reach _ _ _ _ _ h).2 10 20 hfirst hsecond⟩

end Lox
