import Lox.Proofs.Cursor.Steps

/-!
# Expressions with a cursor

With enough fuel, an expression is read with a cursor as the grammar says.  A function that calls
another one without reading a token first calls one of lower rank, and so the fuel that is enough is
a multiple of the number of tokens that are left, and the rank of the function.
-/

namespace Lox

/-- An operator that lacks its left operand is not one that could stand in front of an operand. -/
theorem Kind.levelWithoutLeft?_eq {kind : Kind} (h : kind.unaryOp? = none) :
    kind.levelWithoutLeft? = match kind.connective? with
      | some (.binary op) => some (Connective.binary op).level
      | _ => none := by
  cases kind with
  | punct p => cases p <;> first | rfl | cases h
  | keyword k => cases k <;> rfl
  | _ => rfl

/-- A token that is neither a literal nor a name nor a parenthesis begins no expression, unless the
left operand is all that is missing. -/
theorem Grammar.primary_of_other {stop : Position} {t : Token} {rest : List Token}
    (hliteral : t.kind.literal? = none) (hidentifier : ∀ x, t.kind = .identifier x → False)
    (hparen : t.kind = .punct .leftParen → False) :
    Grammar.primary stop (t :: rest) = match t.kind.connective? with
      | some (.binary op) =>
        ((Grammar.binary stop (Connective.binary op).level rest).within
          (Phrase.length_le_cons t rest)).andThen fun _ rest h =>
            .failed (.atToken t .missingLeftOperand) rest [] (Nat.le_of_lt h)
      | _ => .failHere stop .expectedExpression (t :: rest) := by
  rw [Grammar.primary, hliteral]
  dsimp only
  split
  · next hkind => exact (hidentifier _ hkind).elim
  · next hkind => exact (hparen hkind).elim
  · rfl

namespace Track

variable {w : Track} {L : Ledger} {ts rest : List Token} {t : Token} {c : Cursor} {n fuel : Nat}

namespace Stands

/-- The target of an assignment is judged behind the value, and reported at the operator. -/
theorem follows_assign (h : w.Stands L rest c) {i : Nat} (hi : i ≤ w.body.length)
    (ht : w.tokens[i]? = some t) (target value : Expr) (hn : rest.length < n) :
    w.Follows L (Reader.assign target i value) c (Grammar.assignment target t value rest hn) := by
  cases target with
  | var x line => exact h.follows_pure
  | _ =>
      refine (h.look hi ht).follows ?_
      rintro c ⟨hc, -⟩
      exact (hc.record _).follows fun c hc => .read hc

/-- An operator without its left operand is reported behind the right one. -/
theorem follows_missingLeftOperand (h : w.Stands L (t :: ts) c) {operand : Reader Expr}
    {p : Phrase Expr n} (hp : ∀ c, w.Stands L ts c → w.Follows L operand c p) :
    w.Follows L (Reader.missingLeftOperand operand) c (p.andThen fun _ rest h =>
      .failed (.atToken t .missingLeftOperand) rest [] (Nat.le_of_lt h)) := by
  have hi := h.current_le
  have ht := h.getElem?_current
  refine (yields_position (Q := fun c' => c' = c) rfl).follows fun c' hc => ?_
  subst hc
  refine h.follows_advance fun c hc _ => ?_
  refine (hp c hc).bind fun _ rest hr ds c hc => ?_
  exact (hc.look hi ht).follows fun c hc => hc.1.follows_fail

end Stands

/-! ## The levels -/

mutual

/-- With enough fuel for the tokens that are left, the reader of each level follows the grammar of
that level. -/
theorem follows_expression (fuel : Nat) {L : Ledger} {ts : List Token} {c : Cursor}
    (h : w.Stands L ts c) (hfuel : ts.length * 32 + 16 < fuel) :
    w.Follows L (Reader.expression fuel) c (Grammar.expression w.stop.line ts) := by
  match fuel with
  | 0 => omega
  | fuel + 1 =>
      rw [Reader.expression, Grammar.expression]
      refine (follows_conditional fuel h (by omega)).bind fun target rest hr ds c hc => ?_
      refine hc.follows_ifNext Kind.noConfusion (fun equals rest hn c hc ht => ?_) fun c hc => ?_
      · obtain ⟨i, hequals, hi, hbehind⟩ := hc.behind ht
        refine hbehind.follows fun c hc => ?_
        refine (follows_expression fuel hc (by omega)).within.bind fun value rest hr ds c hc => ?_
        exact hc.follows_assign hi hequals target value hr
      · exact hc.follows_pure
termination_by structural fuel

theorem follows_conditional (fuel : Nat) {L : Ledger} {ts : List Token} {c : Cursor}
    (h : w.Stands L ts c) (hfuel : ts.length * 32 + 15 < fuel) :
    w.Follows L (Reader.conditional fuel) c (Grammar.conditional w.stop.line ts) := by
  match fuel with
  | 0 => omega
  | fuel + 1 =>
      rw [Reader.conditional, Grammar.conditional]
      refine (follows_binary .or fuel h ?_).bind fun condition rest hr ds c hc => ?_
      · simp only [Level.rank]
        omega
      refine hc.follows_ifNext Kind.noConfusion (fun _ rest hn c hc _ => ?_) fun c hc => ?_
      · refine (follows_expression fuel hc (by omega)).within.bind fun yes rest hr ds c hc => ?_
        refine (hc.follows_consume _ _).within.bind fun _ rest hr ds c hc => ?_
        exact (follows_conditional fuel hc (by omega)).within.map
      · exact hc.follows_pure
termination_by structural fuel

theorem follows_binary (level : Level) (fuel : Nat) {L : Ledger} {ts : List Token} {c : Cursor}
    (h : w.Stands L ts c) (hfuel : ts.length * 32 + 2 * level.rank + 4 < fuel) :
    w.Follows L (Reader.binary level fuel) c (Grammar.binary w.stop.line level ts) := by
  match fuel with
  | 0 => omega
  | fuel + 1 =>
      rw [Reader.binary, Grammar.binary]
      refine (follows_operand level fuel h (by omega)).bind fun left rest hr ds c hc => ?_
      exact (follows_chain level left fuel hc (by omega)).within
termination_by structural fuel

theorem follows_operand (level : Level) (fuel : Nat) {L : Ledger} {ts : List Token} {c : Cursor}
    (h : w.Stands L ts c) (hfuel : ts.length * 32 + 2 * level.rank + 3 < fuel) :
    w.Follows L (Reader.operand level fuel) c (Grammar.operand w.stop.line level ts) := by
  match fuel with
  | 0 => omega
  | fuel + 1 =>
      cases level <;> rw [Reader.operand, Grammar.operand] <;> simp only [Level.rank] at hfuel
      case factor => exact follows_unary fuel h (by omega)
      all_goals
        refine follows_binary _ fuel h ?_
        simp only [Level.rank]
        omega
termination_by structural fuel

/-- The operators of one level are a loop of the reader, and so the left operand goes along. -/
theorem follows_chain (level : Level) (left : Expr) (fuel : Nat) {L : Ledger} {ts : List Token}
    {c : Cursor} (h : w.Stands L ts c) (hfuel : ts.length * 32 < fuel) :
    w.Follows L (Reader.chain level left fuel) c (Grammar.chain w.stop.line level left ts) := by
  match fuel with
  | 0 => omega
  | fuel + 1 =>
      rw [Reader.chain]
      refine h.follows_peek fun c hc => ?_
      cases ts with
      | nil =>
          rw [Grammar.chain, kind_head_nil]
          exact hc.follows_pure
      | cons t ts =>
          rw [Grammar.chain, head_cons]
          have := level.rank_le
          rw [List.length_cons] at hfuel
          cases t.kind.connectiveAt? level with
          | none => exact hc.follows_pure
          | some op =>
              refine hc.follows_advance fun c hc _ => ?_
              refine Follows.within ?_
              refine (follows_operand level fuel hc (by omega)).bind fun right rest hr ds c hc => ?_
              exact (follows_chain level _ fuel hc (by omega)).within
termination_by structural fuel

theorem follows_unary (fuel : Nat) {L : Ledger} {ts : List Token} {c : Cursor}
    (h : w.Stands L ts c) (hfuel : ts.length * 32 + 2 < fuel) :
    w.Follows L (Reader.unary fuel) c (Grammar.unary w.stop.line ts) := by
  match fuel with
  | 0 => omega
  | fuel + 1 =>
      rw [Reader.unary]
      refine h.follows_peek fun c hc => ?_
      cases ts with
      | nil =>
          rw [Grammar.unary, kind_head_nil]
          exact follows_call fuel hc (by omega) nofun
      | cons t ts =>
          rw [Grammar.unary, head_cons]
          rw [List.length_cons] at hfuel
          cases hop : t.kind.unaryOp? with
          | none =>
              refine follows_call fuel hc (by simp only [List.length_cons]; omega) fun t' ht' => ?_
              cases ht'
              exact hop
          | some op =>
              refine hc.follows_advance fun c hc _ => ?_
              exact (follows_unary fuel hc (by omega)).within.map
termination_by structural fuel

/-- A call is only read where no prefix operator stands. -/
theorem follows_call (fuel : Nat) {L : Ledger} {ts : List Token} {c : Cursor}
    (h : w.Stands L ts c) (hfuel : ts.length * 32 + 1 < fuel)
    (hhead : ∀ t ∈ ts.head?, t.kind.unaryOp? = none) :
    w.Follows L (Reader.call fuel) c (Grammar.call w.stop.line ts) := by
  match fuel with
  | 0 => omega
  | fuel + 1 =>
      rw [Reader.call, Grammar.call]
      refine (follows_primary fuel h (by omega) hhead).bind fun callee rest hr ds c hc => ?_
      exact (follows_calls callee fuel hc (by omega)).within
termination_by structural fuel

theorem follows_calls (callee : Expr) (fuel : Nat) {L : Ledger} {ts : List Token} {c : Cursor}
    (h : w.Stands L ts c) (hfuel : ts.length * 32 + 19 < fuel) :
    w.Follows L (Reader.calls callee fuel) c (Grammar.calls w.stop.line callee ts) := by
  match fuel with
  | 0 => omega
  | fuel + 1 =>
      rw [Reader.calls, Grammar.calls]
      refine h.follows_ifNext Kind.noConfusion (fun _ rest hn c hc _ => ?_) fun c hc => ?_
      · refine Follows.within ?_
        refine (follows_arguments fuel hc (by omega)).bind fun args rest hr ds c hc => ?_
        exact (follows_calls _ fuel hc (by omega)).within
      · exact hc.follows_pure
termination_by structural fuel

theorem follows_arguments (fuel : Nat) {L : Ledger} {ts : List Token} {c : Cursor}
    (h : w.Stands L ts c) (hfuel : ts.length * 32 + 18 < fuel) :
    w.Follows L (Reader.arguments fuel) c (Grammar.arguments w.stop.line ts) := by
  match fuel with
  | 0 => omega
  | fuel + 1 =>
      rw [Reader.arguments, Grammar.arguments]
      refine h.follows_ifHead Kind.noConfusion (fun _ rest hn c ht hc => ?_) fun c hc => ?_
      · exact (hc.consume ht _).follows fun c hc => hc.follows_pure
      · exact (follows_argumentList 0 fuel hc (by omega)).within
termination_by structural fuel

/-- The arguments and the parenthesis behind them are one phrase of the grammar, and two of the
reader. -/
theorem follows_argumentList (count : Nat) (fuel : Nat) {L : Ledger} {ts : List Token} {c : Cursor}
    (h : w.Stands L ts c) (hfuel : ts.length * 32 + 17 < fuel) :
    w.Follows L (do
        let args ← Reader.argumentList count fuel
        let closing ← Reader.consume .rightParen .afterArguments
        return (args, closing.line)) c
      (Grammar.argumentList w.stop.line count ts) := by
  match fuel with
  | 0 => omega
  | fuel + 1 =>
      rw [Reader.argumentList, Grammar.argumentList]
      simp only [bind_assoc, pure_bind, Reader.ite_bind]
      refine Follows.report ((h.onlyIf (h.report _)).follows fun c hc => ?_)
      refine (follows_expression fuel hc (by omega)).bind fun arg rest hr ds c hc => ?_
      refine hc.follows_ifNext Kind.noConfusion (fun _ rest hn c hc _ => ?_) fun c hc => ?_
      · have hargs := (follows_argumentList (count + 1) fuel hc (by omega)).within
          (h := Phrase.length_le_of_succ_lt hn)
        have hcons := hargs.map (f := fun args => (arg :: args.1, args.2))
        simpa only [bind_assoc, pure_bind] using hcons
      · exact (hc.follows_consume _ _).within.map
termination_by structural fuel

theorem follows_primary (fuel : Nat) {L : Ledger} {ts : List Token} {c : Cursor}
    (h : w.Stands L ts c) (hfuel : ts.length * 32 < fuel)
    (hhead : ∀ t ∈ ts.head?, t.kind.unaryOp? = none) :
    w.Follows L (Reader.primary fuel) c (Grammar.primary w.stop.line ts) := by
  match fuel with
  | 0 => omega
  | fuel + 1 =>
      rw [Reader.primary]
      refine h.follows_peek fun c hc => ?_
      cases ts with
      | nil =>
          rw [Grammar.primary, kind_head_nil]
          exact hc.follows_failHere _
      | cons t ts =>
          rw [head_cons]
          rw [List.length_cons] at hfuel
          cases hliteral : t.kind.literal? with
          | some value =>
              rw [Grammar.primary, hliteral]
              exact hc.follows_advance fun c hc _ => hc.follows_pure
          | none =>
              dsimp only
              split
              · next hkind =>
                rw [Grammar.primary, hliteral, hkind]
                exact hc.follows_advance fun c hc _ => hc.follows_pure
              · next hkind =>
                rw [Grammar.primary, hliteral, hkind]
                refine hc.follows_advance fun c hc _ => ?_
                refine (follows_expression fuel hc (by omega)).within.bind
                  fun inner rest hr ds c hc => ?_
                exact (hc.follows_consume _ _).within.map
              · next hidentifier hparen =>
                rw [Grammar.primary_of_other hliteral hidentifier hparen,
                  Kind.levelWithoutLeft?_eq (hhead t rfl)]
                match t.kind.connective? with
                | some (.binary op) =>
                    refine hc.follows_missingLeftOperand fun c hc => Follows.within ?_
                    have := (Connective.binary op).level.rank_le
                    exact follows_binary _ fuel hc (by omega)
                | none | some (.logical _) => exact hc.follows_failHere _
termination_by structural fuel

end

end Track

end Lox
