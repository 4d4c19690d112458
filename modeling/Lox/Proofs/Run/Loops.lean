import Lox.Proofs.Grammar.Soundness
import Lox.Proofs.Run.Bare
import Lox.Proofs.Run.Elements
import Lox.Proofs.Run.Fuel

/-!
# Loops as they are meant

A `for` loop is read as a loop with a condition and a body, and its increment stands in the block
that is made of each round.  Here the loop is executed as it is written, with the increment in the
frame of the loop, and both come to the same: the body of a loop declares nothing, so the frame of
the block binds nothing when the increment is evaluated in it.
-/

namespace Lox

open Lox.Outcome Lox.Store

/-! ## The loop as it is written -/

namespace ForClauses

variable (clauses : ForClauses) (clock : Nat → Number)

/-- The value of the condition; it is true if none is given. -/
def test (fuel : Nat) (frame : FrameId) : Action Value :=
  match clauses.condition with
  | none => pure (.bool true)
  | some condition => eval clock fuel frame condition

/-- One round.  The body is executed in a frame of its own if there is an increment, which is
evaluated in the frame of the loop if the body finishes normally. -/
def runRound (fuel : Nat) (frame : FrameId) (body : Stmt) : Action Flow :=
  match clauses.increment with
  | none => exec clock fuel frame body
  | some increment => do
    let inner ← .newFrame (some frame)
    match ← exec clock fuel inner body with
    | .normal => do
      let _ ← eval clock fuel frame increment
      pure .normal
    | flow => pure flow

/-- Round after round, as long as the condition holds and the rounds finish normally. -/
def runRepetition : (fuel : Nat) → FrameId → Stmt → Action Flow
  | 0, _, _ => .exhausted
  | fuel + 1, frame, body => do
    let v ← clauses.test clock fuel frame
    if v.truthy then
      match ← clauses.runRound clock fuel frame body with
      | .normal => runRepetition fuel frame body
      | .break_ => pure .normal
      | .return_ v => pure (.return_ v)
    else pure .normal

/-- The whole loop.  An initializer is executed once, in a frame that is made for the loop. -/
def run (fuel : Nat) (frame : FrameId) (body : Stmt) : Action Flow :=
  match clauses.init with
  | none => clauses.runRepetition clock fuel frame body
  | some init => do
    let inner ← .newFrame (some frame)
    let _ ← exec clock fuel inner init
    clauses.runRepetition clock fuel inner body

end ForClauses

/-! ## Statements that declare nothing -/

/-- The loop for the clauses declares nothing around itself. -/
theorem ForClauses.declared_loop_eq_nil (clauses : ForClauses) {body : Stmt}
    (h : body.declared = []) : (clauses.loop body).declared = [] := by
  obtain ⟨init, condition, increment⟩ := clauses
  cases init with
  | none =>
      cases increment with
      | none => exact h
      | some e => rfl
  | some init => rfl

/-- A statement that is no declaration declares nothing in the frame where it is executed. -/
theorem DerivesStatement.declared_eq_nil {scope : Scope} {ts : List Token} {s : Surface}
    (h : DerivesStatement scope ts s) : s.desugar.declared = [] := by
  match h with
  | .ifThen _ _ _ _ h =>
      rw [Surface.desugar]
      exact h.declared_eq_nil
  | .ifElse _ _ _ _ h _ _ h' =>
      rw [Surface.desugar]
      exact List.append_eq_nil_iff.mpr ⟨h.declared_eq_nil, h'.declared_eq_nil⟩
  | .while_ _ _ _ _ h =>
      rw [Surface.desugar]
      exact h.declared_eq_nil
  | .for_ _ _ _ _ _ _ _ h =>
      rw [Surface.desugar_for]
      exact ForClauses.declared_loop_eq_nil _ h.declared_eq_nil
  | .expr _ _ | .print _ _ _ | .block _ _ _ | .break_ _ _ _ | .return_ _ _ _ _ =>
      rw [Surface.desugar]
      rfl
termination_by structural h

/-- The initializer of a loop finishes normally. -/
theorem ForInit.flow_eq_normal {clock : Nat → Number} {fuel : Nat} {i : FrameId} {s s' : State}
    {flow : Flow} (init : ForInit) {first : Stmt} (hfirst : init.stmt? = some first)
    (h : exec clock fuel i first s = .done flow s') : flow = .normal := by
  cases fuel with
  | zero => cases h
  | succ fuel =>
      cases init with
      | none => cases hfirst
      | var x e =>
          cases hfirst
          cases e with
          | none =>
              cases h
              rfl
          | some e =>
              obtain ⟨v, t, -, h⟩ := Action.bind_eq_done.mp h
              cases h
              rfl
      | expr e =>
          cases hfirst
          obtain ⟨v, t, -, h⟩ := Action.bind_eq_done.mp h
          cases h
          rfl

/-! ## Both loops

The blocks of the loop that is read use up fuel which the loop as it is written does not need.  Each
of them does what the other one does with a little more fuel.
-/

section

variable {clock : Nat → Number} {n m : Nat} {i f : FrameId} {s : State} {body : Stmt}
  {clauses : ForClauses}

/-- A single statement takes one unit of fuel more as a list. -/
theorem execAll_singleton (st : Stmt) :
    execAll clock (n + 1) i [st] = exec clock n i st := by
  rw [execAll]
  cases n with
  | zero => rfl
  | succ n =>
      calc
        _ = exec clock (n + 1) i st >>= pure := by
          congr 1
          funext flow
          cases flow <;> rfl
        _ = exec clock (n + 1) i st := bind_pure _

/-- A block of two statements. -/
theorem exec_pair (first second : Stmt) :
    exec clock (n + 3) i (.block [first, second]) = (do
      let inner ← .newFrame (some i)
      match ← exec clock (n + 1) inner first with
      | .normal => exec clock n inner second
      | flow => pure flow) := by
  rw [exec]
  congr 1
  funext inner
  rw [execAll]
  congr 1
  funext flow
  cases flow with
  | normal => exact execAll_singleton second
  | break_ => rfl
  | return_ v => rfl

/-- No names are gained by what declares nothing. -/
theorem gains_exec_of_declared (hbody : body.declared = []) :
    (exec clock n i body s).Gains (fun _ _ => False) s.store :=
  gains_exec n fun x hx => by simp [hbody] at hx

/-- A round as it is read, in the frame that is made for its block: the body declares nothing, so
that the increment means the same in that frame as in the one of the loop. -/
theorem exec_round_of_some {increment : Expr} (hincrement : clauses.increment = some increment)
    (hbody : body.declared = []) (hf : f < s.store.frames.size) :
    exec clock (n + 4) f (clauses.round body) s = (do
      let inner ← .newFrame (some f)
      match ← exec clock (n + 2) inner body with
      | .normal => do
        let _ ← eval clock n f increment
        pure .normal
      | flow => pure flow : Action Flow) s := by
  rw [ForClauses.round, hincrement, exec_pair]
  refine Action.bind_eq_bind rfl fun inner t hnew => ?_
  cases hnew
  refine Action.bind_eq_bind rfl fun flow t hdone => ?_
  cases flow with
  | normal =>
      have hbare := (bare_newFrame hf).gains ((gains_exec_of_declared hbody).of_done hdone)
      exact Action.bind_eq_bind (eval_of_bare n hbare) fun _ _ _ => rfl
  | break_ => rfl
  | return_ v => rfl

/-- Nothing is missing from the round as it is written: with four more units of fuel it comes to its
increment. -/
theorem exec_round_le (hbody : body.declared = []) (hf : f < s.store.frames.size) :
    (exec clock n f (clauses.round body) s).Le (clauses.runRound clock (n + 2) f body s) := by
  cases hincrement : clauses.increment with
  | none =>
      rw [ForClauses.round, ForClauses.runRound, hincrement]
      exact exec_le (Nat.le_add_right n 2)
  | some increment =>
      refine le_trans (exec_le (Nat.le_add_right n 4)) ?_
      rw [exec_round_of_some hincrement hbody hf, ForClauses.runRound, hincrement]
      refine (le_refl _).bind fun inner t => ?_
      refine (le_refl _).bind fun flow t => ?_
      cases flow with
      | normal => exact (eval_le (Nat.le_add_right n 2)).bind fun _ _ => le_refl _
      | break_ => exact le_refl _
      | return_ v => exact le_refl _

/-- Nothing is added in the round as it is written. -/
theorem runRound_le (hbody : body.declared = []) (hf : f < s.store.frames.size) :
    (clauses.runRound clock n f body s).Le (exec clock (n + 4) f (clauses.round body) s) := by
  cases hincrement : clauses.increment with
  | none =>
      rw [ForClauses.round, ForClauses.runRound, hincrement]
      exact exec_le (Nat.le_add_right n 4)
  | some increment =>
      rw [exec_round_of_some hincrement hbody hf, ForClauses.runRound, hincrement]
      refine (le_refl _).bind fun inner t => ?_
      refine (exec_le (Nat.le_add_right n 2)).bind fun flow t => ?_
      cases flow with
      | normal => exact le_refl _
      | break_ => exact le_refl _
      | return_ v => exact le_refl _

/-- A condition that is left out is true. -/
theorem eval_condition_le (h : n ≤ m) :
    (eval clock n f (clauses.condition.getD (.literal (.bool true))) s).Le
      (clauses.test clock m f s) := by
  rw [ForClauses.test]
  cases clauses.condition with
  | some condition => exact eval_le h
  | none =>
      cases n with
      | zero => exact .inl rfl
      | succ n => exact le_refl _

theorem test_le (h : n < m) :
    (clauses.test clock n f s).Le
      (eval clock m f (clauses.condition.getD (.literal (.bool true))) s) := by
  rw [ForClauses.test]
  cases clauses.condition with
  | some condition => exact eval_le (Nat.le_of_lt h)
  | none =>
      cases m with
      | zero => cases h
      | succ m => exact le_refl _

/-- The frames that there are stay. -/
theorem lt_size_of_eval {e : Expr} {v : Value} {t : State} (h : eval clock n i e s = .done v t)
    (hf : f < s.store.frames.size) : f < t.store.frames.size := by
  have hgains : (eval clock n i e s).Gains (fun _ _ => True) s.store := gains_eval n
  exact Nat.lt_of_lt_of_le hf (hgains.of_done h).size_le

/-- No run takes a frame away. -/
theorem lt_size_of_exec {st : Stmt} {flow : Flow} {t : State}
    (h : exec clock n i st s = .done flow t) (hf : f < s.store.frames.size) :
    f < t.store.frames.size := by
  have hgains : (exec clock n i st s).Gains (fun _ _ => True) s.store :=
    gains_exec n fun _ _ => trivial
  exact Nat.lt_of_lt_of_le hf (hgains.of_done h).size_le

/-- What the desugared repetition comes to, the loop as it is written comes to with some more fuel.
-/
theorem exec_repetition_le (hbody : body.declared = []) (hf : f < s.store.frames.size) :
    (exec clock n f (clauses.repetition body) s).Le
      (clauses.runRepetition clock (n + 2) f body s) := by
  induction n generalizing s with
  | zero => exact .inl rfl
  | succ n ih =>
      refine (eval_condition_le (Nat.le_add_right n 2)).bind_of_done fun v t hdone _ => ?_
      have hf := lt_size_of_eval hdone hf
      refine le_ite ?_ (le_refl _)
      refine (exec_round_le hbody hf).bind_of_done fun flow t hdone _ => ?_
      cases flow with
      | normal => exact ih (lt_size_of_exec hdone hf)
      | break_ => exact le_refl _
      | return_ v => exact le_refl _

/-- And what the loop as it is written comes to, the desugared repetition does. -/
theorem runRepetition_le (hbody : body.declared = []) (hf : f < s.store.frames.size) :
    (clauses.runRepetition clock n f body s).Le
      (exec clock (n + 4) f (clauses.repetition body) s) := by
  induction n generalizing s with
  | zero => exact .inl rfl
  | succ n ih =>
      refine (test_le (by omega : n < n + 4)).bind_of_done fun v t _ hdone => ?_
      have hf := lt_size_of_eval hdone hf
      refine le_ite ?_ (le_refl _)
      refine (runRound_le hbody hf).bind_of_done fun flow t _ hdone => ?_
      cases flow with
      | normal => exact ih (lt_size_of_exec hdone hf)
      | break_ => exact le_refl _
      | return_ v => exact le_refl _

/-- So it is with what the loop does first as well. -/
theorem exec_loop_le {init : ForInit} (hinit : init.stmt? = clauses.init)
    (hbody : body.declared = []) (hi : i < s.store.frames.size) :
    (exec clock n i (clauses.loop body) s).Le (clauses.run clock (n + 2) i body s) := by
  rw [ForClauses.loop, ForClauses.run]
  cases hfirst : clauses.init with
  | none => exact exec_repetition_le hbody hi
  | some first =>
      refine le_trans (exec_le (Nat.le_add_right n 3)) ?_
      rw [exec_pair]
      refine (le_refl _).bind_of_done fun inner t hnew _ => ?_
      cases hnew
      refine (exec_le (Nat.le_succ (n + 1))).bind_of_done fun flow t hdone _ => ?_
      obtain rfl := init.flow_eq_normal (hinit.trans hfirst) hdone
      exact exec_repetition_le hbody (lt_size_of_exec hdone (by simp))

/-- And the other way round. -/
theorem clauses_run_le {init : ForInit} (hinit : init.stmt? = clauses.init)
    (hbody : body.declared = []) (hi : i < s.store.frames.size) :
    (clauses.run clock n i body s).Le (exec clock (n + 7) i (clauses.loop body) s) := by
  rw [ForClauses.loop, ForClauses.run]
  cases hfirst : clauses.init with
  | none => exact le_trans (runRepetition_le hbody hi) (exec_le (Nat.le_add_right (n + 4) 3))
  | some first =>
      rw [exec_pair]
      refine (le_refl _).bind_of_done fun inner t hnew _ => ?_
      cases hnew
      refine (exec_le (Nat.le_add_right n 5)).bind_of_done fun flow t hdone _ => ?_
      obtain rfl := init.flow_eq_normal (hinit.trans hfirst) hdone
      exact runRepetition_le hbody (lt_size_of_exec hdone (by simp))

end

/-- A `for` loop runs as it is written, in every state and every frame.  Whatever comes of one
execution comes of the other, with the same output and the same store, and if one does not end, the
other does not either.  However the body is executed, the frame that was made for it, in which the
increment is evaluated afterwards, has no bindings then. -/
theorem for_loop_runs_as_written {stop : Position} {scope : Scope} {keyword : Token}
    {ts rest : List Token} {st : Stmt} (hfor : keyword.kind = .keyword .for_)
    (hread : (Grammar.statement stop scope (keyword :: ts)).Reads st rest) :
    ∃ clauses ts' body,
      (Grammar.forClauses stop ts).Reads clauses ts' ∧
      (Grammar.statement stop scope.loop ts').Reads body rest ∧
      st = clauses.loop body ∧
      (∀ (clock : Nat → Number) (i : FrameId) (s : State) (o : Outcome Flow),
        i < s.store.frames.size → o ≠ .outOfFuel →
          ((∃ n, exec clock n i st s = o) ↔ ∃ n, clauses.run clock n i body s = o)) ∧
      (∀ (clock : Nat → Number) (n : Nat) (f : FrameId) (s : State) (flow : Flow) (s' : State),
        exec clock n s.store.frames.size body
            { s with store := (s.store.newFrame (some f)).2 } = .done flow s' →
          s'.store.frames[s.store.frames.size]? = some ⟨some f, []⟩) := by
  obtain ⟨_, _, ⟨⟩, hrest⟩ := Grammar.reads_statement.1 hread
  rw [hfor] at hrest
  obtain ⟨clauses, ts', hclauses, body, hreads, rfl⟩ := hrest
  obtain ⟨_, surface, -, hderives, rfl, -⟩ := Grammar.derives_statement hreads
  have hbody := hderives.declared_eq_nil
  refine ⟨clauses, ts', _, hclauses, hreads, rfl, ?_, ?_⟩
  · intro clock i s o hi ho
    obtain ⟨_, _, _, init, _, hinit, _, _, _, _, _, rfl⟩ := Grammar.reads_forClauses.1 hclauses
    obtain ⟨_, init, -, -, hinit⟩ := Grammar.derives_forInit hinit
    exact exists_eq_iff_of_le (fun n => ⟨n + 2, exec_loop_le hinit hbody hi⟩)
      (fun n => ⟨n + 7, clauses_run_le hinit hbody hi⟩) ho
  · intro clock n f s flow s' hdone
    have hgains := (gains_exec_of_declared hbody).of_done hdone
    exact hgains.getElem?_eq Array.getElem?_push_size

/-- The loop `for (var i; !i; i = true) print i;`, executed in the frame of the globals. -/
theorem for_loop_runs_as_written_once :
    let clock : Nat → Number := fun _ => ⟨0⟩
    let i : Symbol := ⟨1, "i"⟩
    let ts : List Token := ([.punct .leftParen, .keyword .var_, .identifier i, .punct .semicolon,
      .punct .bang, .identifier i, .punct .semicolon, .identifier i, .punct .equal,
      .keyword .true_, .punct .rightParen, .keyword .print_, .identifier i,
      .punct .semicolon] : List Kind).map fun k => ⟨k, "", 1⟩
    let st : Stmt := .block [.var i none, .while_ (.unary .not (.var i 1) 1)
      (.block [.print (.var i 1), .expr (.assign i (.literal (.bool true)) 1)])]
    let s := State.initial ⟨0, "clock"⟩ none
    exec clock 10 globals st s ≠ .outOfFuel ∧
      ∃ clauses ts' body, (Grammar.forClauses 1 ts).Reads clauses ts' ∧
        ∃ n, clauses.run clock n globals body s = exec clock 10 globals st s := by
  intro clock i ts st s
  have hends : exec clock 10 globals st s ≠ .outOfFuel := by decide +kernel
  have hread : (Grammar.statement 1 {} (⟨.keyword .for_, "for", 1⟩ :: ts)).Reads st [] :=
    ⟨by decide, by cbv⟩
  obtain ⟨clauses, ts', body, hclauses, -, -, hiff, -⟩ := for_loop_runs_as_written rfl hread
  exact ⟨hends, clauses, ts', body, hclauses,
    (hiff clock globals s _ (by decide) hends).1 ⟨10, rfl⟩⟩

end Lox
