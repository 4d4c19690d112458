import Lox.Proofs.Cursor.Expressions

/-!
# Statements with a cursor

A statement is read with a cursor as the grammar says, within as many loops and functions as the
ledger counts.  The counts are the same again when a body has been read, or could not be read.  A
declaration also drops what could not be read, and so the cursor always ends behind the place where
it began.
-/

namespace Lox

namespace Ledger

/-- Inside the body of a loop. -/
def loop (L : Ledger) : Ledger := { L with loops := L.loops + 1 }

/-- Inside the body of a function. -/
def function (L : Ledger) : Ledger := { L with loops := 0, functions := L.functions + 1 }

theorem scope_loop (L : Ledger) : L.loop.scope = L.scope.loop :=
  congrArg (Scope.mk · _) (decide_eq_true (Nat.succ_pos L.loops))

/-- The count of loops is set to zero in a function, and so no loop around it is in its scope. -/
theorem scope_function (L : Ledger) : L.function.scope = L.scope.function :=
  congrArg (Scope.mk false ·) (decide_eq_true (Nat.succ_pos L.functions))

end Ledger

/-- An expression is missing where no token is left. -/
theorem Grammar.expressionBefore_nil (stop : Position) (p : Punct) (spot : Spot) :
    Grammar.expressionBefore stop p spot [] = .failHere stop .expectedExpression [] := by
  simp [expressionBefore, expression, conditional, binary, operand, unary, call, primary,
    Phrase.andThen, Phrase.failHere]

namespace Track

variable {w : Track} {L : Ledger} {ts rest : List Token} {t : Token} {c : Cursor} {n fuel : Nat}
  {α : Type}

namespace Stands

/-! ## Clauses -/

/-- An expression and the mark that ends it are read as the grammar has them. -/
theorem follows_expressionBefore (h : w.Stands L ts c) (p : Punct) (spot : Spot)
    (hfuel : ts.length * 32 + 16 < fuel) :
    w.Follows L (Reader.expressionBefore p spot fuel) c
      (Grammar.expressionBefore w.stop.line p spot ts) := by
  refine (follows_expression fuel h hfuel).bind fun e rest hr ds c hc => ?_
  exact (hc.follows_consume p spot).within.map

theorem follows_optionalBefore (h : w.Stands L ts c) (p : Punct) (spot : Spot)
    (hfuel : ts.length * 32 + 16 < fuel) :
    w.Follows L (Reader.optionalBefore p spot fuel) c
      (Grammar.optionalBefore w.stop.line p spot ts) := by
  have hsome {c : Cursor} (hc : w.Stands L ts c) :=
    (hc.follows_expressionBefore p spot hfuel).map (f := some)
  simp only [Reader.expressionBefore, bind_assoc, pure_bind] at hsome
  refine (h.check (.punct p)).follows fun c hc => ?_
  cases ts with
  | nil =>
      have hne : (w.head []).kind ≠ .punct p := w.kind_head_nil_ne Kind.noConfusion
      rw [if_neg (by simpa using hne)]
      exact hsome hc
  | cons t ts =>
      rw [Grammar.optionalBefore, head_cons]
      by_cases ht : t.kind = .punct p
      · rw [if_pos ht, if_pos (decide_eq_true ht)]
        exact (hc.consume ht spot).follows fun c hc => hc.follows_pure
      · rw [if_neg ht, if_neg (by simpa using ht)]
        exact hsome hc

theorem follows_parenthesized (h : w.Stands L ts c) (opening closing : Spot)
    (hfuel : ts.length * 32 + 16 < fuel) :
    w.Follows L (Reader.parenthesized opening closing fuel) c
      (Grammar.parenthesized w.stop.line opening closing ts) := by
  refine (h.follows_consume .leftParen opening).bind fun _ rest hr ds c hc => ?_
  exact (hc.follows_expressionBefore .rightParen closing (by omega)).within

theorem follows_variableDeclaration (h : w.Stands L ts c) (hfuel : ts.length * 32 + 16 < fuel) :
    w.Follows L (Reader.variableDeclaration fuel) c
      (Grammar.variableDeclaration w.stop.line ts) := by
  refine (h.follows_identifier .variable_).bind fun x rest hr ds c hc => ?_
  refine hc.follows_ifNext Kind.noConfusion (fun _ rest hn c hc _ => ?_) fun c hc => ?_
  · exact (hc.follows_expressionBefore .semicolon _ (by omega)).within.map
  · exact (hc.follows_consume .semicolon _).within.map

/-- What a loop does first is an expression, a declaration or nothing, by the next token. -/
theorem follows_forInit (h : w.Stands L ts c) (hfuel : ts.length * 32 + 16 < fuel) :
    w.Follows L (Reader.forInit fuel) c (Grammar.forInit w.stop.line ts) := by
  refine h.follows_peek fun c hc => ?_
  cases ts with
  | nil =>
      rw [if_neg (w.kind_head_nil_ne Kind.noConfusion),
        if_neg (w.kind_head_nil_ne Kind.noConfusion)]
      have hfail := (hc.follows_expressionBefore .semicolon .afterLoopInitializer hfuel).map
        (f := fun e => some (Stmt.expr e))
      rwa [Grammar.expressionBefore_nil] at hfail
  | cons t ts =>
      rw [Grammar.forInit, head_cons]
      rw [List.length_cons] at hfuel
      split
      · exact hc.follows_advance fun c hc _ => hc.follows_pure
      split
      · refine hc.follows_advance fun c hc _ => ?_
        exact (hc.follows_variableDeclaration (by omega)).within.map
      · refine (hc.follows_expressionBefore .semicolon _ ?_).map
        simp only [List.length_cons]
        omega

theorem follows_forClauses (h : w.Stands L ts c) (hfuel : ts.length * 32 + 16 < fuel) :
    w.Follows L (Reader.forClauses fuel) c (Grammar.forClauses w.stop.line ts) := by
  refine (h.follows_consume .leftParen .afterFor).bind fun _ rest hr ds c hc => ?_
  refine (hc.follows_forInit (by omega)).within.bind fun init rest hr ds c hc => ?_
  refine (hc.follows_optionalBefore .semicolon _ (by omega)).within.bind
    fun condition rest hr ds c hc => ?_
  exact (hc.follows_optionalBefore .rightParen _ (by omega)).within.map

/-- The parameters and the parenthesis behind them are one phrase of the grammar, and two of the
reader. -/
theorem follows_parameterList (count : Nat) (h : w.Stands L ts c) (hfuel : ts.length < fuel) :
    w.Follows L (do
        let xs ← Reader.parameterList count fuel
        let _ ← Reader.consume .rightParen .afterParameters
        return xs) c
      (Grammar.parameterList w.stop.line count ts) := by
  induction fuel generalizing count L ts c with
  | zero => omega
  | succ fuel ih =>
      rw [Reader.parameterList, Grammar.parameterList]
      simp only [bind_assoc, pure_bind, Reader.ite_bind]
      refine Follows.report ((h.onlyIf (h.report _)).follows fun c hc => ?_)
      refine (hc.follows_identifier .parameter).bind fun x rest hr ds c hc => ?_
      refine hc.follows_ifNext Kind.noConfusion (fun _ rest hn c hc _ => ?_) fun c hc => ?_
      · have hparams := (ih (count + 1) hc (by omega)).within
          (h := Phrase.length_le_of_succ_lt hn)
        have hcons := hparams.map (f := fun xs => x :: xs)
        simpa only [bind_assoc, pure_bind] using hcons
      · exact (hc.follows_consume _ _).within.map

theorem follows_parameters (h : w.Stands L ts c) (hfuel : ts.length < fuel) :
    w.Follows L (Reader.parameters fuel) c (Grammar.parameters w.stop.line ts) := by
  refine h.follows_ifHead Kind.noConfusion (fun _ rest hn c ht hc => ?_) fun c hc => ?_
  · exact (hc.consume ht _).follows fun c hc => hc.follows_pure
  · exact (hc.follows_parameterList 0 hfuel).within

theorem follows_functionHead (h : w.Stands L ts c) (hfuel : ts.length < fuel) :
    w.Follows L (Reader.functionHead fuel) c (Grammar.functionHead w.stop.line ts) := by
  refine (h.follows_identifier .function).bind fun f rest hr ds c hc => ?_
  refine (hc.follows_consume .leftParen _).within.bind fun _ rest hr ds c hc => ?_
  refine (hc.follows_parameters (by omega)).within.bind fun params rest hr ds c hc => ?_
  exact (hc.follows_consume .leftCurly .beforeFunctionBody).within.map

/-! ## Bodies -/

/-- The count of loops goes up for the body of a loop. -/
theorem enterLoop (h : w.Stands L ts c) :
    w.Yields Reader.enterLoop c () (w.Stands L.loop ts) := by
  obtain ⟨rfl, hplace, hevents⟩ := h
  exact ⟨_, rfl, rfl, hplace, hevents⟩

/-- The count of loops comes back to what it was in front of the body. -/
theorem leaveLoop (h : w.Stands L.loop ts c) :
    w.Yields Reader.leaveLoop c () (w.Stands L ts) := by
  obtain ⟨hledger, hplace, hevents⟩ := h
  obtain ⟨⟨loops, functions, reports⟩, current, events⟩ := c
  cases hledger
  exact ⟨_, rfl, rfl, hplace, hevents⟩

/-- The count of loops is put aside for the body of a function. -/
theorem replaceLoops (h : w.Stands L ts c) (k : Nat) :
    w.Yields (Reader.replaceLoops k) c L.loops (w.Stands { L with loops := k } ts) := by
  obtain ⟨rfl, hplace, hevents⟩ := h
  exact ⟨_, rfl, rfl, hplace, hevents⟩

theorem enterFunction (h : w.Stands L ts c) :
    w.Yields Reader.enterFunction c ()
      (w.Stands { L with functions := L.functions + 1 } ts) := by
  obtain ⟨rfl, hplace, hevents⟩ := h
  exact ⟨_, rfl, rfl, hplace, hevents⟩

/-- The count of functions comes back to what it was, and that of loops is still to be restored. -/
theorem leaveFunction (h : w.Stands L.function ts c) :
    w.Yields Reader.leaveFunction c () (w.Stands { L with loops := 0 } ts) := by
  obtain ⟨hledger, hplace, hevents⟩ := h
  obtain ⟨⟨loops, functions, reports⟩, current, events⟩ := c
  cases hledger
  exact ⟨_, rfl, rfl, hplace, hevents⟩

end Stands

/-- What becomes of the reader is what becomes of the phrase. -/
def Attempts (w : Track) (L : Ledger) (x : Reader α) (c : Cursor) : Phrase α n → Prop
  | .read v rest ds _ => w.Yields (Reader.attempt x) c (.ok v) (w.Stands (L.report ds) rest)
  | .failed d rest ds _ => w.Yields (Reader.attempt x) c (.error d) (w.Stands (L.report ds) rest)

/-- A reader that follows the grammar either reads or fails as it does, with the counts as they
were. -/
theorem Follows.attempts {x : Reader α} {p : Phrase α n} (hp : w.Follows L x c p) :
    w.Attempts L x c p := by
  rw [Follows] at hp
  generalize hx : x w.tokens c = r at hp
  cases hp with
  | read hc => exact ⟨_, by rw [Reader.attempt, hx], hc⟩
  | failed hc => exact ⟨_, by rw [Reader.attempt, hx], hc⟩

/-- The counts are restored behind the body of a loop, if it could be read. -/
theorem Stands.follows_loopBody (h : w.Stands L ts c) {x : Reader α} {p : Phrase α n}
    (hp : ∀ c, w.Stands L.loop ts c → w.Follows L.loop x c p) :
    w.Follows L (Reader.loopBody x) c p := by
  refine h.enterLoop.follows fun c hc => ?_
  have hattempts := (hp c hc).attempts
  cases p with
  | read v rest ds hr =>
      refine Yields.follows hattempts fun c (hc : w.Stands (L.report ds).loop rest c) => ?_
      exact hc.leaveLoop.follows fun c hc => .read hc
  | failed d rest ds hr =>
      refine Yields.follows hattempts fun c (hc : w.Stands (L.report ds).loop rest c) => ?_
      exact hc.leaveLoop.follows fun c hc => .failed hc

/-- Both counts are restored behind the body of a function, if it could be read. -/
theorem Stands.follows_functionBody (h : w.Stands L ts c) {x : Reader α} {p : Phrase α n}
    (hp : ∀ c, w.Stands L.function ts c → w.Follows L.function x c p) :
    w.Follows L (Reader.functionBody x) c p := by
  refine (h.replaceLoops 0).follows fun c hc => ?_
  refine hc.enterFunction.follows fun c hc => ?_
  have hattempts := (hp c hc).attempts
  cases p with
  | read v rest ds hr =>
      refine Yields.follows hattempts fun c (hc : w.Stands (L.report ds).function rest c) => ?_
      refine hc.leaveFunction.follows fun c hc => ?_
      exact (hc.replaceLoops L.loops).follows fun c hc => .read hc
  | failed d rest ds hr =>
      refine Yields.follows hattempts fun c (hc : w.Stands (L.report ds).function rest c) => ?_
      refine hc.leaveFunction.follows fun c hc => ?_
      exact (hc.replaceLoops L.loops).follows fun c hc => .failed hc

/-! ## After a mistake -/

/-- The tokens behind the one in front of the cursor are dropped up to where reading resumes. -/
theorem Stands.skip (h : w.Stands L ts c) (ht : w.Behind t c) (hfuel : ts.length < fuel) :
    w.Yields (Reader.skip fuel) c () (w.Stands L (resume (t :: ts))) := by
  induction fuel generalizing ts t c with
  | zero => omega
  | succ fuel ih =>
      rw [Reader.skip]
      refine h.isAtEnd.bind ?_
      rintro c₁ ⟨hc, hcurrent⟩
      cases ts with
      | nil =>
          have hnil : resume [t] = [] := by
            rw [resume]
            split <;> rfl
          rw [hnil]
          exact .pure hc
      | cons t' ts =>
          rw [resume]
          have hbefore : w.tokens[c₁.current - 1]? = some t := hcurrent ▸ ht.getElem?
          refine (hc.previous hbefore).bind ?_
          rintro c₂ ⟨hc, -⟩
          refine hc.peek.bind ?_
          rintro c₃ ⟨hc, -⟩
          rw [head_cons, List.head?_cons, Option.any_some]
          split
          · exact .pure hc
          · refine hc.advance.bind ?_
            rintro c₄ ⟨hc, ht⟩
            exact ih hc ht (by simpa using hfuel)

/-- After a mistake the cursor goes on to where the grammar resumes. -/
theorem Stands.synchronize (h : w.Stands L ts c) (hfuel : ts.length < fuel) :
    w.Yields (Reader.synchronize fuel) c () (w.Stands L (resume ts)) := by
  cases ts with
  | nil =>
      obtain ⟨t, hadvance⟩ := h.advance_nil
      refine hadvance.bind fun c hc => ?_
      obtain ⟨fuel, rfl⟩ : ∃ k, fuel = k + 1 := ⟨fuel - 1, by omega⟩
      rw [Reader.skip]
      refine hc.isAtEnd.bind ?_
      rintro c ⟨hc, -⟩
      exact .pure hc
  | cons t ts =>
      rw [List.length_cons] at hfuel
      exact h.advance.bind fun c hc => hc.1.skip hc.2 (by omega)

/-- A declaration that could not be read is reported and dropped. -/
theorem Attempts.settle {x : Reader Stmt} {p : Phrase Stmt n} (hp : w.Attempts L x c p)
    (hn : 0 < n) (hfuel : n < fuel) {k : Option Stmt → Reader α} {v : α} {Q : Cursor → Prop}
    (hk : ∀ c, w.Stands (L.report (p.settle hn).reports) (p.settle hn).rest c →
      w.Yields (k (p.settle hn).value) c v Q) :
    w.Yields (Reader.attempt x >>= fun outcome => Reader.settle fuel outcome >>= k) c v Q := by
  cases p with
  | read s rest ds hr => exact Yields.bind hp fun c hc => hk c hc
  | failed d rest ds hr =>
      refine Yields.bind hp fun c hc => ?_
      simp only [Reader.settle, bind_assoc, pure_bind]
      refine (hc.record d).bind fun c hc => ?_
      rw [L.report_report] at hc
      exact (hc.synchronize (Nat.lt_of_le_of_lt hr hfuel)).bind hk

/-- A declaration is noted with where it began, which is in front of the cursor. -/
theorem Stands.declared (h : w.Stands L ts c) {start : Nat} (hstart : start < c.current) :
    w.Yields (Reader.declared start) c () (w.Stands L ts) :=
  ⟨_, rfl, h.event ⟨hstart, h.current_le⟩⟩

/-! ## Declarations -/

/-- The token in front of the cursor is reported if nothing of the kind that counts is open. -/
theorem Stands.follows_guard (h : w.Stands L ts c) (ht : w.Behind t c) (count : Ledger → Nat)
    {problem : Problem} {x : Reader α} {p : Phrase α n}
    (hx : ∀ ds c, w.Stands (L.report ds) ts c → w.Follows (L.report ds) x c p) :
    w.Follows L (do
        let outer ← Reader.ledger
        Reader.onlyIf (count outer = 0) (Reader.reportPrevious problem)
        x) c
      (p.report (Grammar.reportUnless (0 < count L) t problem)) := by
  have hledger : w.Yields Reader.ledger c L fun c' => c' = c :=
    ⟨c, by rw [Reader.ledger, h.ledger], rfl⟩
  have hreports : Grammar.reportUnless (0 < count L) t problem =
      if count L = 0 then [.atToken t problem] else [] := by
    cases count L <;> rfl
  rw [hreports]
  refine hledger.follows fun c' hc => ?_
  subst hc
  exact ((h.onlyIf (h.reportPrevious ht problem)).follows fun c hc => hx _ c hc).report

mutual

/-- A declaration is read and settled as the grammar settles it, whether or not it fails. -/
theorem yields_declaration (fuel : Nat) {L : Ledger} {t : Token} {ts : List Token} {c : Cursor}
    (h : w.Stands L (t :: ts) c) (hfuel : (t :: ts).length * 40 + 23 < fuel) :
    let first := (Grammar.declaration w.stop.line L.scope (t :: ts)).settle (Nat.succ_pos _)
    w.Yields (Reader.declaration fuel) c first.value
      (w.Stands (L.report first.reports) first.rest) := by
  match fuel with
  | 0 => omega
  | fuel + 1 =>
      intro first
      rw [Reader.declaration]
      refine (yields_position (Q := fun c' => c' = c) rfl).bind fun c' hc => ?_
      subst hc
      refine (follows_item fuel h (by omega)).attempts.settle (Nat.succ_pos _) (by omega)
        fun c (hc : w.Stands (L.report first.reports) first.rest c) => ?_
      have hlt : c'.current < c.current := by
        have hstart := h.current_add_length
        have hstop := hc.current_add_length
        have hshorter := first.shorter
        omega
      exact (hc.declared hlt).bind fun c hc => .pure hc
termination_by structural fuel

/-- A declaration that has not failed yet follows the grammar, in the scope which the counts stand
for. -/
theorem follows_item (fuel : Nat) {L : Ledger} {ts : List Token} {c : Cursor}
    (h : w.Stands L ts c) (hfuel : ts.length * 40 + 22 < fuel) :
    w.Follows L (Reader.item fuel) c (Grammar.declaration w.stop.line L.scope ts) := by
  match fuel with
  | 0 => omega
  | fuel + 1 =>
      rw [Reader.item]
      refine h.follows_peek fun c hc => ?_
      cases ts with
      | nil =>
          rw [if_neg (w.kind_head_nil_ne Kind.noConfusion),
            if_neg (w.kind_head_nil_ne Kind.noConfusion), Grammar.declaration]
          exact follows_statement fuel hc (by omega)
      | cons t ts =>
          rw [Grammar.declaration, head_cons]
          rw [List.length_cons] at hfuel
          split
          · refine hc.follows_advance fun c hc _ => ?_
            refine Follows.within ?_
            refine (hc.follows_functionHead (by omega)).bind fun head rest hr ds c hc => ?_
            refine (hc.follows_functionBody fun c hc => ?_).within.map
            have hblock := follows_block fuel hc (by omega)
            rwa [Ledger.scope_function] at hblock
          split
          · refine hc.follows_advance fun c hc _ => ?_
            refine Follows.within ?_
            exact hc.follows_variableDeclaration (by omega)
          · exact follows_statement fuel hc (by simp only [List.length_cons]; omega)
termination_by structural fuel

/-- A statement follows the grammar. -/
theorem follows_statement (fuel : Nat) {L : Ledger} {ts : List Token} {c : Cursor}
    (h : w.Stands L ts c) (hfuel : ts.length * 40 + 21 < fuel) :
    w.Follows L (Reader.statement fuel) c (Grammar.statement w.stop.line L.scope ts) := by
  match fuel with
  | 0 => omega
  | fuel + 1 =>
      rw [Reader.statement]
      refine h.follows_peek fun c hc => ?_
      cases ts with
      | nil =>
          rw [Grammar.statement, kind_head_nil]
          have hfail := (hc.follows_expressionBefore .semicolon .afterExpression
            (by omega : _ < fuel)).map (f := Stmt.expr)
          rwa [Grammar.expressionBefore_nil] at hfail
      | cons t ts =>
          rw [head_cons]
          rw [List.length_cons] at hfuel
          split
          · next hkind =>
            rw [Grammar.statement, hkind]
            refine hc.follows_advance fun c hc _ => ?_
            exact (hc.follows_expressionBefore _ _ (by omega)).within.map
          · next hkind =>
            rw [Grammar.statement, hkind]
            refine hc.follows_advance fun c hc _ => ?_
            exact (follows_block fuel hc (by omega)).within.map
          · next hkind =>
            rw [Grammar.statement, hkind]
            refine hc.follows_advance fun c hc _ => ?_
            refine Follows.within ?_
            refine (hc.follows_parenthesized _ _ (by omega)).bind
              fun condition rest hr ds c hc => ?_
            refine (follows_statement fuel hc (by omega)).within.bind fun yes rest hr ds c hc => ?_
            refine hc.follows_ifNext Kind.noConfusion (fun _ rest hn c hc _ => ?_) fun c hc => ?_
            · exact (follows_statement fuel hc (by omega)).within.map
            · exact hc.follows_pure
          · next hkind =>
            rw [Grammar.statement, hkind]
            refine hc.follows_advance fun c hc _ => ?_
            refine Follows.within ?_
            refine (hc.follows_parenthesized _ _ (by omega)).bind
              fun condition rest hr ds c hc => ?_
            refine (hc.follows_loopBody fun c hc => ?_).within.map
            have hbody := follows_statement fuel hc (by omega)
            rwa [Ledger.scope_loop] at hbody
          · next hkind =>
            rw [Grammar.statement, hkind]
            refine hc.follows_advance fun c hc _ => ?_
            refine Follows.within ?_
            refine (hc.follows_forClauses (by omega)).bind fun clauses rest hr ds c hc => ?_
            refine (hc.follows_loopBody fun c hc => ?_).within.map
            have hbody := follows_statement fuel hc (by omega)
            rwa [Ledger.scope_loop] at hbody
          · next hkind =>
            rw [Grammar.statement, hkind]
            refine hc.follows_advance fun c hc ht => ?_
            refine hc.follows_guard ht Ledger.loops fun ds c hc => ?_
            exact (hc.follows_consume _ _).within.map
          · next hkind =>
            rw [Grammar.statement, hkind]
            refine hc.follows_advance fun c hc ht => ?_
            refine hc.follows_guard ht Ledger.functions fun ds c hc => ?_
            exact (hc.follows_optionalBefore _ _ (by omega)).within.map
          · have hexpression : (t :: ts).length * 32 + 16 < fuel := by
              rw [List.length_cons]
              omega
            have hlead : t.kind.leadsStatement = false := by
              rw [Bool.eq_false_iff, Ne, Kind.leadsStatement_iff]
              simp_all
            rw [Grammar.statement_eq_expression hlead]
            exact (hc.follows_expressionBefore _ _ hexpression).map
termination_by structural fuel

/-- The declarations up to a closing brace, or the mistake that there is none, follow the grammar.
-/
theorem follows_block (fuel : Nat) {L : Ledger} {ts : List Token} {c : Cursor}
    (h : w.Stands L ts c) (hfuel : ts.length * 40 + 24 < fuel) :
    w.Follows L (Reader.braced (Reader.items fuel)) c
      (Grammar.block w.stop.line L.scope ts) := by
  match fuel with
  | 0 => omega
  | fuel + 1 =>
      rw [Reader.braced, Reader.items]
      simp only [bind_assoc, pure_bind, Reader.ite_bind]
      refine (h.check (.punct .rightCurly)).follows fun c hc => ?_
      cases ts with
      | nil =>
          have hne : (w.head []).kind ≠ .punct .rightCurly := w.kind_head_nil_ne Kind.noConfusion
          rw [if_neg (by simpa using hne), Grammar.block]
          refine hc.isAtEnd.follows ?_
          rintro c ⟨hc, -⟩
          exact (hc.follows_consume .rightCurly .afterBlock).map
      | cons t ts =>
          rw [Grammar.block, head_cons]
          by_cases ht : t.kind = .punct .rightCurly
          · rw [if_pos ht, if_pos (decide_eq_true ht)]
            exact (hc.consume ht _).follows fun c hc => hc.follows_pure
          · rw [if_neg ht, if_neg (by simpa using ht)]
            refine hc.isAtEnd.follows ?_
            rintro c ⟨hc, -⟩
            let first := (Grammar.declaration w.stop.line L.scope (t :: ts)).settle (Nat.succ_pos _)
            have hshorter : first.rest.length < (t :: ts).length := first.shorter
            refine Follows.report ((yields_declaration fuel hc (by omega)).follows
              fun c (hc : w.Stands (L.report first.reports) first.rest c) => ?_)
            have hblock := ((follows_block fuel hc (by omega)).within
              (h := Nat.le_of_lt hshorter)).map (f := fun others => first.value.toList ++ others)
            simp only [Reader.braced, bind_assoc, pure_bind] at hblock
            exact hblock
termination_by structural fuel

end

end Track

end Lox
