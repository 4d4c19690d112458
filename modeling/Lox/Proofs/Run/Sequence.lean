import Lox.Proofs.Grammar.Legal
import Lox.Proofs.Run.Ends
import Lox.Proofs.Run.Fuel

/-!
# Programs one after the other

With enough fuel, a program in two parts runs the second part where the first part ends, provided
that the first part finishes normally.  The parts of a whole program do so, whatever the store
holds: a `break` or `return` outside of everything is not legal, and none comes out of a call.
-/

namespace Lox

/-! ## How statements finish -/

/-- The scope allows a statement to finish in this way. -/
def Flow.Allowed (scope : Scope) : Flow → Prop
  | normal => True
  | break_ => scope.inLoop = true
  | return_ _ => scope.inFunction = true

/-- Every outcome is one of the three. -/
theorem Outcome.ends_true {α : Type} (o : Outcome α) :
    o.Ends (fun _ _ => True) fun _ _ => True := by
  cases o <;> trivial

open Outcome

mutual

/-- A legal statement finishes only in a way that its scope allows. -/
theorem allowed_exec {T : Set Token} {scope : Scope} {clock : Nat → Number} {i : FrameId}
    {st : Stmt} {s : State} (fuel : Nat) (hst : st.Legal T scope) :
    (exec clock fuel i st s).Ends (fun flow _ => flow.Allowed scope) fun _ _ => True := by
  match fuel, hst with
  | 0, _ => trivial
  | _ + 1, .expr _ =>
      refine (ends_true _).bind ?_
      exact fun _ _ _ => trivial
  | _ + 1, .print _ =>
      refine (ends_true _).bind fun _ _ _ => ?_
      refine (ends_true _).bind ?_
      exact fun _ _ _ => trivial
  | _ + 1, @Stmt.Legal.var _ _ _ none _ =>
      refine (ends_true _).bind ?_
      exact fun _ _ _ => trivial
  | _ + 1, @Stmt.Legal.var _ _ _ (some _) _ =>
      refine (ends_true _).bind fun _ _ _ => ?_
      refine (ends_true _).bind ?_
      exact fun _ _ _ => trivial
  | fuel + 1, .block hbody =>
      refine (ends_true _).bind fun _ _ _ => ?_
      exact allowed_execAll fuel hbody
  | fuel + 1, .ifThen _ hyes =>
      refine (ends_true _).bind fun v _ _ => ?_
      split
      · exact allowed_exec fuel hyes
      · trivial
  | fuel + 1, .ifElse _ hyes hno =>
      refine (ends_true _).bind fun v _ _ => ?_
      split
      · exact allowed_exec fuel hyes
      · exact allowed_exec fuel hno
  | fuel + 1, .while_ hcondition hbody =>
      refine (ends_true _).bind fun v _ _ => ?_
      split
      · refine (allowed_exec fuel hbody).bind ?_
        intro flow _ hflow
        cases flow with
        | normal => exact allowed_exec fuel (.while_ hcondition hbody)
        | break_ => trivial
        | return_ v => exact hflow
      · trivial
  | _ + 1, .break_ hloop => exact hloop
  | _ + 1, .function _ _ =>
      refine (ends_true _).bind ?_
      exact fun _ _ _ => trivial
  | _ + 1, @Stmt.Legal.return_ _ _ none _ hfunction => exact hfunction
  | _ + 1, @Stmt.Legal.return_ _ _ (some _) _ hfunction =>
      refine (ends_true _).bind ?_
      exact fun _ _ _ => hfunction
termination_by structural fuel

/-- Statements finish as their scope allows, whatever functions they call. -/
theorem allowed_execAll {T : Set Token} {scope : Scope} {clock : Nat → Number} {i : FrameId}
    {ss : List Stmt} {s : State} (fuel : Nat) (hss : ∀ st ∈ ss, st.Legal T scope) :
    (execAll clock fuel i ss s).Ends (fun flow _ => flow.Allowed scope) fun _ _ => True := by
  match fuel, ss, hss with
  | 0, _, _ => trivial
  | _ + 1, [], _ => trivial
  | fuel + 1, st :: ss, hss =>
      obtain ⟨hst, hss⟩ := List.forall_mem_cons.mp hss
      refine (allowed_exec fuel hst).bind ?_
      intro flow _ hflow
      cases flow with
      | normal => exact allowed_execAll fuel hss
      | break_ => exact hflow
      | return_ v => exact hflow
termination_by structural fuel

end

/-! ## Enough fuel -/

variable {clock : Nat → Number} {i : FrameId} {ss ts : List Stmt} {s t : State}

/-- The statements end so, given enough fuel. -/
def Yields (clock : Nat → Number) (i : FrameId) (ss : List Stmt) (s : State)
    (o : Outcome Flow) : Prop :=
  o ≠ .outOfFuel ∧ ∃ n, execAll clock n i ss s = o

/-- What a program yields, it comes to with any fuel that is enough. -/
theorem Yields.exec_eq {o : Outcome Flow} (h : Yields clock i ss s o) :
    ∃ n, ∀ m, n ≤ m → execAll clock m i ss s = o := by
  obtain ⟨hne, n, rfl⟩ := h
  exact ⟨n, fun m hnm => (execAll_le hnm).eq hne⟩

/-- A program yields something if its fuel does not always run out. -/
theorem exists_yields_iff :
    (∃ o, Yields clock i ss s o) ↔ ∃ n, execAll clock n i ss s ≠ .outOfFuel := by
  constructor
  · rintro ⟨_, hne, n, rfl⟩
    exact ⟨n, hne⟩
  · rintro ⟨n, hne⟩
    exact ⟨_, hne, n, rfl⟩

/-- It yields one thing only. -/
theorem Yields.unique {o o' : Outcome Flow} (h : Yields clock i ss s o)
    (h' : Yields clock i ss s o') : o = o' := by
  obtain ⟨n, hn⟩ := h.exec_eq
  obtain ⟨m, hm⟩ := h'.exec_eq
  rw [← hn (max n m) (Nat.le_max_left n m), hm (max n m) (Nat.le_max_right n m)]

/-- Legal statements outside of everything finish normally. -/
theorem Yields.eq_normal {T : Set Token} {flow : Flow} (h : Yields clock i ss s (.done flow t))
    (hss : ∀ st ∈ ss, st.Legal T {}) : flow = .normal := by
  obtain ⟨-, n, hn⟩ := h
  have hallowed := @allowed_execAll T {} clock i ss s n hss
  rw [hn] at hallowed
  cases flow with
  | normal => rfl
  | break_ => cases hallowed
  | return_ v => cases hallowed

/-- Each statement of the first part takes one unit of fuel from the second part. -/
theorem execAll_append (n : Nat) :
    execAll clock (ss.length + (n + 1)) i (ss ++ ts) s =
      (do match ← execAll clock (ss.length + (n + 1)) i ss with
          | .normal => execAll clock (n + 1) i ts
          | flow => pure flow : Action Flow) s := by
  induction ss generalizing s with
  | nil =>
      rw [List.length_nil, Nat.zero_add]
      rfl
  | cons st ss ih =>
      rw [List.length_cons, Nat.add_right_comm, List.cons_append, execAll, execAll,
        Action.bind_apply, Action.bind_apply, Action.bind_apply]
      cases exec clock (ss.length + (n + 1)) i st s with
      | done flow s =>
          cases flow with
          | normal => exact ih
          | break_ => rfl
          | return_ v => rfl
      | failed e s => rfl
      | outOfFuel => rfl

/-- After a first part that finishes normally, the whole ends as the second part does. -/
theorem yields_append_iff (h : Yields clock i ss s (.done .normal t)) {o : Outcome Flow} :
    Yields clock i (ss ++ ts) s o ↔ Yields clock i ts t o := by
  obtain ⟨n, hn⟩ := h.exec_eq
  have happend (m : Nat) (hm : n ≤ m) :
      execAll clock (ss.length + (m + 1)) i (ss ++ ts) s = execAll clock (m + 1) i ts t := by
    rw [execAll_append, Action.bind_apply, hn _ (by omega)]
  constructor
  · intro hwhole
    obtain ⟨m, hm⟩ := hwhole.exec_eq
    refine ⟨hwhole.1, max n m + 1, ?_⟩
    rw [← happend _ (Nat.le_max_left n m)]
    exact hm _ (by omega)
  · intro hsecond
    obtain ⟨m, hm⟩ := hsecond.exec_eq
    refine ⟨hsecond.1, ss.length + (max n m + 1), ?_⟩
    rw [happend _ (Nat.le_max_left n m)]
    exact hm _ (by omega)

/-- If the first part fails, the whole fails with it. -/
theorem Yields.append_failed {e : Failure} (h : Yields clock i ss s (.failed e t)) :
    Yields clock i (ss ++ ts) s (.failed e t) := by
  obtain ⟨n, hn⟩ := h.exec_eq
  refine ⟨nofun, ss.length + (n + 1), ?_⟩
  rw [execAll_append, Action.bind_apply, hn _ (by omega)]

end Lox
