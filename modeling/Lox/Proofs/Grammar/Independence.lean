import Lox.Proofs.Grammar.Elsewhere

/-!
# What is read does not depend on where it stands

Every production reads elsewhere what it reads here.  Where it looks at the end of the tokens, this
is said with it: an expression may look at the token behind it, and so may a statement, but this
one only for an `else`.
-/

namespace Lox

namespace Grammar

open Phrase

variable {c : Elsewhere}

/-! ## Expressions

Whether an operator, a question mark or a parenthesis follows is seen at the token behind an
expression, so the end counts as looked at.  What is closed by a token of its own does not look
behind it.  The induction is the recursion of the grammar.
-/

/-- Whether the target is a variable does not depend on its name. -/
theorem local_assignment {n n' : Nat} {look : Bool} {target value : Expr} {equals : Token}
    {rest : List Token} {h : rest.length < n} {h' : (c.tokens rest).length < n'} :
    (assignment target equals value rest h).Local c look c.expr
      (assignment (c.expr target) (equals.rename c.symbol c.line) (c.expr value) (c.tokens rest)
        h') := by
  have hequals := c.diagnostic_atToken equals .invalidTarget
  cases target <;> simp only [Elsewhere.expr, Expr.rename, assignment, hequals]
  case var x line => exact .inl (.of_eq (by rw [Elsewhere.expr, Expr.rename]) rfl)
  all_goals exact .inl (.of_eq (by rw [Elsewhere.expr, Expr.rename]) rfl)

/-- An operator that lacks its left operand is reported once the right one has been read. -/
theorem local_missingOperand {ts : List Token} {p : Phrase Expr ts.length}
    {p' : Phrase Expr (c.tokens ts).length} (t : Token) (hp : p.Local c true c.expr p') :
    ((p.within (length_le_cons t ts)).andThen fun _ rest h =>
        (.failed (.atToken t .missingLeftOperand) rest [] (Nat.le_of_lt h) :
          Phrase Expr _)).Local c false c.expr
      ((p'.within (length_le_cons (t.rename c.symbol c.line) (c.tokens ts))).andThen fun _ rest h =>
        (.failed (.atToken (t.rename c.symbol c.line) .missingLeftOperand) rest []
          (Nat.le_of_lt h) : Phrase Expr _)) := by
  refine hp.within.andThen (fun _ rest h h' => ?_) fun _ _ _ => rfl
  simp only [c.diagnostic_atToken]
  exact .inl .failed

mutual

/-- An expression is read elsewhere as it is here, unless the end has to do with it. -/
theorem local_expression (c : Elsewhere) (ts : List Token) :
    (expression c.stop ts).Local c true c.expr (expression c.stop' (c.tokens ts)) := by
  unfold expression
  refine (local_conditional c ts).andThen (fun target rest h h' => ?_) fun _ _ _ => ⟨rfl, rfl⟩
  refine local_ifNext (fun _ => Token.kind_rename_punct_iff) (fun equals rest h h' => ?_)
    (.inl .read) (.inr fun hrest => ⟨rfl, hrest⟩)
  refine (local_expression c rest).within.andThen (fun value rest h h' => ?_) fun _ value h => ?_
  · exact local_assignment
  · cases target <;> exact ⟨rfl, rfl⟩
termination_by ts.length * 32 + 16

/-- Whether a question mark follows is seen at the token behind the condition. -/
theorem local_conditional (c : Elsewhere) (ts : List Token) :
    (conditional c.stop ts).Local c true c.expr (conditional c.stop' (c.tokens ts)) := by
  unfold conditional
  refine (local_binary c .or ts).andThen (fun condition rest h h' => ?_) fun _ _ _ => ⟨rfl, rfl⟩
  refine local_ifNext (fun _ => Token.kind_rename_punct_iff) (fun question rest h h' => ?_)
    (.inl .read) (.inr fun hrest => ⟨rfl, hrest⟩)
  refine (local_expression c rest).within.andThen (fun yes rest h h' => ?_) fun _ _ h => ?_
  · refine (local_mark c .colon .afterThenBranch rest).within.andThen (fun _ rest h h' => ?_) nofun
    refine (local_conditional c rest).within.map fun no => ?_
    simp only [Elsewhere.expr, Expr.rename]
  · -- Nothing is left for the colon, so the mistake is at the end.
    have hmark : ((mark c.stop .colon .afterThenBranch []).within
        (Nat.le_of_lt h)).AtEnd false := atEnd_within.mpr (atEnd_zero _)
    exact hmark.andThen nofun
termination_by ts.length * 32 + 15
decreasing_by all_goals have := Level.or.rank_le; omega

theorem local_binary (c : Elsewhere) (level : Level) (ts : List Token) :
    (binary c.stop level ts).Local c true c.expr (binary c.stop' level (c.tokens ts)) := by
  unfold binary
  refine (local_operand c level ts).andThen (fun left rest h h' => ?_) fun _ left h => ?_
  · exact (local_chain c level left rest).within
  · unfold chain
    exact ⟨rfl, rfl⟩
termination_by ts.length * 32 + 2 * level.rank + 4

theorem local_operand (c : Elsewhere) (level : Level) (ts : List Token) :
    (operand c.stop level ts).Local c true c.expr (operand c.stop' level (c.tokens ts)) := by
  cases level <;> unfold operand
  case factor => exact local_unary c ts
  all_goals exact local_binary c _ ts
termination_by ts.length * 32 + 2 * level.rank + 3
decreasing_by all_goals subst_vars; simp [Level.rank]

/-- Whether an operator of the level follows is seen at the token behind each operand. -/
theorem local_chain (c : Elsewhere) (level : Level) (left : Expr) (ts : List Token) :
    (chain c.stop level left ts).Local c true c.expr
      (chain c.stop' level (c.expr left) (c.tokens ts)) := by
  cases ts with
  | nil =>
      refine .nil ?_ fun htokens => ?_
      · unfold chain
        exact ⟨rfl, rfl⟩
      · unfold chain
        exact .read_nil htokens
  | cons t ts =>
      have hc : (t.rename c.symbol c.line).kind.connectiveAt? level = t.kind.connectiveAt? level :=
        Kind.connectiveAt?_rename c.symbol t.kind level
      unfold chain
      simp only [Elsewhere.tokens_cons, hc]
      cases t.kind.connectiveAt? level with
      | none => exact .inl .read
      | some op =>
          refine Local.within (Local.andThen (local_operand c level ts) (fun right rest h h' => ?_)
            fun _ right h => ?_)
          · have hjoin : op.join (c.expr left) (c.expr right) (t.rename c.symbol c.line).line =
                c.expr (op.join left right t.line) := (Connective.rename_join ..).symm
            rw [hjoin]
            exact (local_chain c level _ rest).within
          · unfold chain
            exact ⟨rfl, rfl⟩
termination_by ts.length * 32
decreasing_by all_goals have := level.rank_le; subst_vars; simp only [List.length_cons]; omega

theorem local_unary (c : Elsewhere) (ts : List Token) :
    (unary c.stop ts).Local c true c.expr (unary c.stop' (c.tokens ts)) := by
  cases ts with
  | nil =>
      refine .nil (atEnd_zero _) fun htokens => ?_
      unfold unary
      have hcall := local_call c []
      rwa [htokens] at hcall
  | cons t ts =>
      have hop : (t.rename c.symbol c.line).kind.unaryOp? = t.kind.unaryOp? :=
        Kind.unaryOp?_rename c.symbol t.kind
      unfold unary
      simp only [Elsewhere.tokens_cons, hop]
      cases t.kind.unaryOp? with
      | none => exact local_call c (t :: ts)
      | some op =>
          refine (local_unary c ts).within.map fun e => ?_
          rw [Elsewhere.expr, Elsewhere.expr, Expr.rename]
          rfl
termination_by ts.length * 32 + 2

theorem local_call (c : Elsewhere) (ts : List Token) :
    (call c.stop ts).Local c true c.expr (call c.stop' (c.tokens ts)) := by
  unfold call
  refine (local_primary c ts).andThen (fun callee rest h h' => ?_) nofun
  exact (local_calls c callee rest).within
termination_by ts.length * 32 + 1

/-- Whether a parenthesis follows is seen at the token behind what is called. -/
theorem local_calls (c : Elsewhere) (callee : Expr) (ts : List Token) :
    (calls c.stop callee ts).Local c true c.expr
      (calls c.stop' (c.expr callee) (c.tokens ts)) := by
  unfold calls
  refine local_ifNext (fun _ => Token.kind_rename_punct_iff) (fun opening rest h h' => ?_)
    (.inl .read) (.inr fun hrest => ⟨rfl, hrest⟩)
  refine Local.within (Local.andThen (local_arguments c rest) (fun args rest h h' => ?_) nofun)
  obtain ⟨args, line⟩ := args
  have hcall : .call (c.expr callee) (args.map c.expr) (c.line line) =
      c.expr (.call callee args line) := by
    rw [Elsewhere.expr, Elsewhere.expr, Expr.rename]
    rfl
  have hcalls := local_calls c (.call callee args line) rest
  rw [← hcall] at hcalls
  exact hcalls.within
termination_by ts.length * 32 + 19

/-- Arguments are closed by a parenthesis, and so nothing behind them is looked at. -/
theorem local_arguments (c : Elsewhere) (ts : List Token) :
    (arguments c.stop ts).Local c false c.args (arguments c.stop' (c.tokens ts)) := by
  unfold arguments
  refine local_ifNext (fun _ => Token.kind_rename_punct_iff) (fun closing rest h h' => .inl .read)
    (local_argumentList c 0 ts).within (.inr ?_)
  rintro rfl
  exact atEnd_within.mpr (atEnd_zero _)
termination_by ts.length * 32 + 18

/-- One argument too many is reported at its first token, which has to be there.  -/
theorem local_argumentList (c : Elsewhere) (count : Nat) (ts : List Token) :
    (argumentList c.stop count ts).Local c false c.args
      (argumentList c.stop' count (c.tokens ts)) := by
  by_cases hend : ts = [] → c.SameEnd
  case neg =>
    obtain ⟨rfl, hends⟩ := Classical.not_imp.mp hend
    exact .inr ⟨hends, atEnd_zero _⟩
  unfold argumentList
  refine Local.report ?_ ?_
  · refine (local_expression c ts).andThen (fun arg rest h h' => ?_) fun _ arg h => ?_
    · refine local_ifNext (fun _ => Token.kind_rename_punct_iff) (fun comma rest h h' => ?_) ?_ ?_
      · exact (local_argumentList c (count + 1) rest).within.map fun _ => rfl
      · exact (local_mark c .rightParen .afterArguments rest).within.map fun _ => rfl
      · refine .inr ?_
        rintro rfl
        exact atEnd_map_within_zero
    · rw [ifNext_nil]
      exact atEnd_map_within_zero
  · split
    · rw [c.diagnostic_atHead _ hend]
      rfl
    · rfl
termination_by ts.length * 32 + 17

/-- What is primary is closed by a token of its own. -/
theorem local_primary (c : Elsewhere) (ts : List Token) :
    (primary c.stop ts).Local c false c.expr (primary c.stop' (c.tokens ts)) := by
  cases ts with
  | nil =>
      refine .nil (atEnd_zero _) fun htokens => ?_
      unfold primary
      exact .failHere_nil htokens
  | cons t ts =>
      obtain ⟨kind, lexeme, line⟩ := t
      have missing (op : BinaryOp) :=
        local_missingOperand ⟨kind, lexeme, line⟩ (local_binary c (Connective.binary op).level ts)
      unfold primary
      cases kind with
      | eof => exact .failHere _ (_ :: ts)
      | identifier x => exact .inl (.of_eq (by rw [Elsewhere.expr, Expr.rename]; rfl) rfl)
      | string s => exact .inl (.of_eq (by rw [Elsewhere.expr, Expr.rename]) rfl)
      | number n => exact .inl (.of_eq (by rw [Elsewhere.expr, Expr.rename]) rfl)
      | keyword k =>
          cases k
          case nil_ => exact .inl (.of_eq (by rw [Elsewhere.expr, Expr.rename]) rfl)
          case true_ => exact .inl (.of_eq (by rw [Elsewhere.expr, Expr.rename]) rfl)
          case false_ => exact .inl (.of_eq (by rw [Elsewhere.expr, Expr.rename]) rfl)
          all_goals exact .failHere _ (_ :: ts)
      | punct p =>
          cases p
          case leftParen =>
            refine Local.andThen (local_expression c ts).within (fun inner rest h h' => ?_) ?_
            · refine (local_mark c .rightParen .afterExpression rest).within.map fun _ => ?_
              rw [Elsewhere.expr, Elsewhere.expr, Expr.rename]
            · exact fun _ _ _ => atEnd_map_within_zero
          case minus => exact missing .sub
          case plus => exact missing .add
          case slash => exact missing .div
          case star => exact missing .mul
          case bangEqual => exact missing .notEqual
          case equalEqual => exact missing .equal
          case greater => exact missing .greater
          case greaterEqual => exact missing .greaterEqual
          case less => exact missing .less
          case lessEqual => exact missing .lessEqual
          all_goals exact .failHere _ (_ :: ts)
termination_by ts.length * 32
decreasing_by all_goals have := Level.rank_le; simp only [List.length_cons]; grind

end

/-! ## Statements -/

/-- The mark closes the expression in front of it. -/
theorem local_expressionBefore (c : Elsewhere) (p : Punct) (spot : Spot) (ts : List Token) :
    (expressionBefore c.stop p spot ts).Local c false c.expr
      (expressionBefore c.stop' p spot (c.tokens ts)) := by
  refine (local_expression c ts).andThen (fun e rest h h' => ?_) fun _ e h => ?_
  · exact (local_mark c p spot rest).within.map fun _ => rfl
  · exact atEnd_map_within_zero

theorem local_optionalBefore (c : Elsewhere) (p : Punct) (spot : Spot) (ts : List Token) :
    (optionalBefore c.stop p spot ts).Local c false (Option.map c.expr)
      (optionalBefore c.stop' p spot (c.tokens ts)) := by
  cases ts with
  | nil =>
      refine .nil (atEnd_zero _) fun htokens => ?_
      have hbefore := local_expressionBefore c p spot []
      rw [htokens] at hbefore
      exact hbefore.map fun _ => rfl
  | cons t ts =>
      by_cases ht : t.kind = .punct p
      · have ht' : (t.rename c.symbol c.line).kind = .punct p :=
          Token.kind_rename_punct_iff.mpr ht
        simp only [Elsewhere.tokens_cons, optionalBefore, if_pos ht, if_pos ht']
        exact .inl .read
      · have ht' : (t.rename c.symbol c.line).kind ≠ .punct p :=
          mt Token.kind_rename_punct_iff.mp ht
        simp only [Elsewhere.tokens_cons, optionalBefore, if_neg ht, if_neg ht']
        exact (local_expressionBefore c p spot (t :: ts)).map fun _ => rfl

theorem local_parenthesized (c : Elsewhere) (opening closing : Spot) (ts : List Token) :
    (parenthesized c.stop opening closing ts).Local c false c.expr
      (parenthesized c.stop' opening closing (c.tokens ts)) := by
  refine (local_mark c .leftParen opening ts).andThen (fun _ rest h h' => ?_) nofun
  exact (local_expressionBefore c .rightParen closing rest).within

theorem local_variableDeclaration (c : Elsewhere) (ts : List Token) :
    (variableDeclaration c.stop ts).Local c false c.stmt
      (variableDeclaration c.stop' (c.tokens ts)) := by
  refine (local_name c .variable_ ts).andThen (fun x rest h h' => ?_) nofun
  refine local_ifNext (fun _ => Token.kind_rename_punct_iff) (fun equals rest h h' => ?_) ?_ ?_
  · refine (local_expressionBefore c .semicolon _ rest).within.map fun init => ?_
    rw [Elsewhere.stmt, Stmt.rename]
    rfl
  · refine (local_mark c .semicolon .afterVariableDeclaration rest).within.map fun _ => ?_
    rw [Elsewhere.stmt, Stmt.rename]
    rfl
  · refine .inr ?_
    rintro rfl
    exact atEnd_map_within_zero

/-- What a loop does first is closed by its semicolon. -/
theorem local_forInit (c : Elsewhere) (ts : List Token) :
    (forInit c.stop ts).Local c false (Option.map c.stmt) (forInit c.stop' (c.tokens ts)) := by
  cases ts with
  | nil => exact .nil (atEnd_zero _) .failHere_nil
  | cons t ts =>
      have hsemicolon : (t.rename c.symbol c.line).kind = .punct .semicolon ↔
          t.kind = .punct .semicolon := Token.kind_rename_punct_iff
      have hvar : (t.rename c.symbol c.line).kind = .keyword .var_ ↔ t.kind = .keyword .var_ :=
        Token.kind_rename_keyword_iff
      simp only [Elsewhere.tokens_cons, forInit, hsemicolon, hvar]
      split
      · exact .inl .read
      split
      · exact (local_variableDeclaration c ts).within.map fun _ => rfl
      · refine (local_expressionBefore c .semicolon .afterLoopInitializer (t :: ts)).map fun e => ?_
        rw [Option.map_some, Elsewhere.stmt, Stmt.rename]
        rfl

theorem local_forClauses (c : Elsewhere) (ts : List Token) :
    (forClauses c.stop ts).Local c false c.clauses (forClauses c.stop' (c.tokens ts)) := by
  refine (local_mark c .leftParen .afterFor ts).andThen (fun _ rest h h' => ?_) nofun
  refine (local_forInit c rest).within.andThen (fun init rest h h' => ?_) nofun
  refine (local_optionalBefore c _ _ rest).within.andThen (fun condition rest h h' => ?_) nofun
  exact (local_optionalBefore c _ _ rest).within.map fun _ => rfl

/-- Parameters are closed by their parenthesis. -/
theorem local_parameterList (c : Elsewhere) (count : Nat) (ts : List Token) :
    (parameterList c.stop count ts).Local c false (List.map c.symbol)
      (parameterList c.stop' count (c.tokens ts)) := by
  by_cases hend : ts = [] → c.SameEnd
  case neg =>
    obtain ⟨rfl, hends⟩ := Classical.not_imp.mp hend
    exact .inr ⟨hends, atEnd_zero _⟩
  unfold parameterList
  refine Local.report ?_ ?_
  · refine (local_name c .parameter ts).andThen (fun x rest h h' => ?_) nofun
    refine local_ifNext (fun _ => Token.kind_rename_punct_iff) (fun comma rest h h' => ?_) ?_ ?_
    · exact (local_parameterList c (count + 1) rest).within.map fun _ => rfl
    · exact (local_mark c .rightParen .afterParameters rest).within.map fun _ => rfl
    · refine .inr ?_
      rintro rfl
      exact atEnd_map_within_zero
  · split
    · rw [c.diagnostic_atHead _ hend]
      rfl
    · rfl
termination_by ts.length

theorem local_parameters (c : Elsewhere) (ts : List Token) :
    (parameters c.stop ts).Local c false (List.map c.symbol)
      (parameters c.stop' (c.tokens ts)) := by
  refine local_ifNext (fun _ => Token.kind_rename_punct_iff) (fun closing rest h h' => .inl .read)
    (local_parameterList c 0 ts).within (.inr ?_)
  rintro rfl
  exact atEnd_within.mpr (atEnd_zero _)

theorem local_functionHead (c : Elsewhere) (ts : List Token) :
    (functionHead c.stop ts).Local c false c.head (functionHead c.stop' (c.tokens ts)) := by
  refine (local_name c .function ts).andThen (fun f rest h h' => ?_) nofun
  refine (local_mark c .leftParen _ rest).within.andThen (fun _ rest h h' => ?_) nofun
  refine (local_parameters c rest).within.andThen (fun params rest h h' => ?_) nofun
  exact (local_mark c .leftCurly .beforeFunctionBody rest).within.map fun _ => rfl

/-- Whether there is something to report does not depend on names and lines. -/
theorem reportUnless_rename (c : Elsewhere) (ok : Bool) (t : Token) (problem : Problem) :
    reportUnless ok (t.rename c.symbol c.line) problem =
      (reportUnless ok t problem).map c.diagnostic := by
  cases ok with
  | true => rfl
  | false => exact congrArg (fun d => [d]) (c.diagnostic_atToken t problem)

/-- A block goes on after a declaration that was settled elsewhere as it was. -/
theorem local_blockAfter {n n' : Nat} {scope : Scope} {first : Settled Stmt n}
    {first' : Settled Stmt n'} (hfirst : first.Local c c.stmt first')
    (hblock : (block c.stop scope first.rest).Local c false (List.map c.stmt)
      (block c.stop' scope (c.tokens first.rest))) :
    ((((block c.stop scope first.rest).within (Nat.le_of_lt first.shorter)).map
        fun others => first.value.toList ++ others).report first.reports).Local c false
      (List.map c.stmt)
      ((((block c.stop' scope first'.rest).within (Nat.le_of_lt first'.shorter)).map
        fun others => first'.value.toList ++ others).report first'.reports) := by
  rcases hfirst with ⟨hvalue, hrest, hreports⟩ | ⟨hend, hrest⟩
  · obtain ⟨value, rest, reports, shorter⟩ := first'
    simp only at hvalue hrest hreports
    subst hvalue hrest
    refine Local.report (hblock.within.map fun others => ?_) hreports
    rw [List.map_append, Option.toList_map]
  · -- The tokens are used up, and the brace that ends the block is missing.
    refine .inr ⟨hend, atEnd_report.mpr (atEnd_map.mpr (atEnd_within.mpr ?_))⟩
    obtain ⟨value, rest, reports, shorter⟩ := first
    cases hrest
    exact atEnd_zero _

mutual

/-- A declaration looks only for an `else` behind it, and if none can be there this does not count.
-/
theorem local_declaration (c : Elsewhere) (look : Bool)
    (hmore : look = false → ∀ t ∈ c.more.head?, t.kind ≠ .keyword .else_) (scope : Scope)
    (ts : List Token) :
    (declaration c.stop scope ts).Local c look c.stmt
      (declaration c.stop' scope (c.tokens ts)) := by
  cases ts with
  | nil =>
      refine .nil (atEnd_zero _) fun htokens => ?_
      have hstatement := local_statement c look hmore scope []
      rw [htokens] at hstatement
      unfold declaration
      exact hstatement
  | cons t ts =>
      have hfun : (t.rename c.symbol c.line).kind = .keyword .fun_ ↔ t.kind = .keyword .fun_ :=
        Token.kind_rename_keyword_iff
      have hvar : (t.rename c.symbol c.line).kind = .keyword .var_ ↔ t.kind = .keyword .var_ :=
        Token.kind_rename_keyword_iff
      unfold declaration
      simp only [Elsewhere.tokens_cons, hfun, hvar]
      split
      · refine .within (.andThen (local_functionHead c ts) (fun head rest h h' => ?_) nofun)
        refine (local_block c scope.function rest).looking.within.map fun body => ?_
        simp only [Elsewhere.stmt, Stmt.rename]
        rfl
      split
      · exact (local_variableDeclaration c ts).looking.within
      · exact local_statement c look hmore scope (t :: ts)
termination_by ts.length * 4 + 2

/-- Nor does a statement look for anything else. -/
theorem local_statement (c : Elsewhere) (look : Bool)
    (hmore : look = false → ∀ t ∈ c.more.head?, t.kind ≠ .keyword .else_) (scope : Scope)
    (ts : List Token) :
    (statement c.stop scope ts).Local c look c.stmt (statement c.stop' scope (c.tokens ts)) := by
  cases ts with
  | nil =>
      refine .nil (atEnd_zero _) fun htokens => ?_
      unfold statement
      exact .failHere_nil htokens
  | cons t ts =>
      obtain ⟨kind, lexeme, line⟩ := t
      have other : ((expressionBefore c.stop .semicolon .afterExpression
            (⟨kind, lexeme, line⟩ :: ts)).map Stmt.expr).Local c look c.stmt
          ((expressionBefore c.stop' .semicolon .afterExpression
            (c.tokens (⟨kind, lexeme, line⟩ :: ts))).map Stmt.expr) := by
        refine (local_expressionBefore c _ _ _).looking.map fun e => ?_
        rw [Elsewhere.stmt, Stmt.rename]
        rfl
      unfold statement
      cases kind with
      | punct p =>
          cases p
          case leftCurly =>
            refine (local_block c scope ts).looking.within.map fun body => ?_
            simp only [Elsewhere.stmt, Stmt.rename]
            rfl
          all_goals exact other
      | keyword k =>
          cases k
          case print_ =>
            refine (local_expressionBefore c _ _ ts).looking.within.map fun e => ?_
            rw [Elsewhere.stmt, Stmt.rename]
            rfl
          case if_ =>
            refine .within (.andThen (local_parenthesized c .afterIf .afterIfCondition ts)
              (fun condition rest h h' => ?_) nofun)
            refine (local_statement c look hmore scope rest).within.andThen
              (fun yes rest h h' => ?_) fun hlook _ _ => ⟨hlook, rfl⟩
            refine local_ifNext (fun _ => Token.kind_rename_keyword_iff)
              (fun _ rest h h' => ?_) ?_ ?_
            · refine (local_statement c look hmore scope rest).within.map fun no => ?_
              simp only [Elsewhere.stmt, Stmt.rename]
              rfl
            · refine .inl (.of_eq ?_ rfl)
              simp only [Elsewhere.stmt, Stmt.rename]
              rfl
            · -- What is looked for behind a statement is an `else`, and nothing but that.
              cases look with
              | false => exact .inl (hmore rfl)
              | true => exact .inr fun hrest => ⟨rfl, hrest⟩
          case while_ =>
            refine .within (.andThen (local_parenthesized c .afterWhile .afterCondition ts)
              (fun condition rest h h' => ?_) nofun)
            refine (local_statement c look hmore scope.loop rest).within.map fun body => ?_
            simp only [Elsewhere.stmt, Stmt.rename]
            rfl
          case for_ =>
            refine .within (.andThen (local_forClauses c ts) (fun clauses rest h h' => ?_) nofun)
            refine (local_statement c look hmore scope.loop rest).within.map fun body => ?_
            exact (ForClauses.rename_loop clauses body).symm
          case break_ =>
            refine .report ((local_mark c .semicolon .afterBreak ts).looking.within.map fun _ => ?_)
              (reportUnless_rename c scope.inLoop ⟨.keyword .break_, lexeme, line⟩ _)
            rw [Elsewhere.stmt, Stmt.rename]
          case return_ =>
            refine .report ((local_optionalBefore c .semicolon _ ts).looking.within.map fun e => ?_)
              (reportUnless_rename c scope.inFunction ⟨.keyword .return_, lexeme, line⟩ _)
            rw [Elsewhere.stmt, Stmt.rename]
            rfl
          all_goals exact other
      | _ => exact other
termination_by ts.length * 4 + 1

/-- A block is closed by its brace, and so nothing behind it is looked at. -/
theorem local_block (c : Elsewhere) (scope : Scope) (ts : List Token) :
    (block c.stop scope ts).Local c false (List.map c.stmt)
      (block c.stop' scope (c.tokens ts)) := by
  cases ts with
  | nil =>
      refine .nil (atEnd_zero _) fun htokens => ?_
      unfold block
      exact .failHere_nil htokens
  | cons t ts =>
      have hkind : (t.rename c.symbol c.line).kind = .punct .rightCurly ↔
          t.kind = .punct .rightCurly := Token.kind_rename_punct_iff
      unfold block
      simp only [Elsewhere.tokens_cons, hkind]
      split
      · exact .inl .read
      · exact local_blockAfter (local_declaration c true nofun scope (t :: ts)).settle
          (local_block c scope
            ((declaration c.stop scope (t :: ts)).settle (Nat.succ_pos _)).rest)
termination_by ts.length * 4 + 3
decreasing_by
  · simp
  · have := ((declaration c.stop scope (t :: ts)).settle (Nat.succ_pos _)).shorter
    simp_all

end

/-! ## Programs -/

theorem length_cons_pos (t : Token) (ts : List Token) : 0 < (t :: ts).length := Nat.succ_pos _

/-- What becomes of the first declaration of a program. -/
def first (stop : Position) (t : Token) (ts : List Token) : Settled Stmt (t :: ts).length :=
  (declaration stop {} (t :: ts)).settle (length_cons_pos t ts)

/-- A program is what becomes of its first declaration, and then what becomes of the rest. -/
theorem declarations_cons (stop : Position) (t : Token) (ts : List Token) :
    declarations stop (t :: ts) =
      (Program.mk (first stop t ts).value.toList (first stop t ts).reports).append
        (declarations stop (first stop t ts).rest) := by
  rw [declarations]
  rfl

/-- If every declaration is settled elsewhere as it was, what follows is read where the program
ended. -/
theorem declarations_tokens (c : Elsewhere) {P : List Token → Prop}
    (hstep : ∀ t ts, P (t :: ts) → P (first c.stop t ts).rest ∧
      (first c.stop t ts).Carries c c.stmt
        (first c.stop' (t.rename c.symbol c.line) (c.tokens ts)))
    (ts : List Token) (hts : P ts) :
    declarations c.stop' (c.tokens ts) =
      (c.program (declarations c.stop ts)).append (declarations c.stop' c.more) := by
  cases ts with
  | nil =>
      rw [declarations, Elsewhere.tokens, List.map_nil, List.nil_append]
      rfl
  | cons t ts =>
      obtain ⟨hP, hvalue, hrest, hreports⟩ := hstep t ts hts
      have ih := declarations_tokens c hstep _ hP
      rw [Elsewhere.tokens_cons, declarations_cons, declarations_cons]
      simp only [hvalue, hrest, hreports, ih, Elsewhere.program, Program.append, List.map_append,
        List.append_assoc, Option.toList_map]
termination_by ts.length
decreasing_by subst_vars; exact (first c.stop t ts).shorter

/-- Where the tokens end as they did, the whole program is read as it was. -/
theorem declarations_tokens_of_sameEnd {c : Elsewhere} (hsame : c.SameEnd) (ts : List Token) :
    declarations c.stop' (c.tokens ts) = c.program (declarations c.stop ts) := by
  have hstep (t : Token) (ts : List Token) :
      (first c.stop t ts).Carries c c.stmt
        (first c.stop' (t.rename c.symbol c.line) (c.tokens ts)) :=
    (local_declaration c true nofun {} (t :: ts)).settle.resolve_right fun h => h.1 hsame
  have hread := declarations_tokens c (P := fun _ => True) (fun t ts _ => ⟨trivial, hstep t ts⟩)
    ts trivial
  rw [hread, hsame.1, declarations, Program.append, List.append_nil, List.append_nil]

end Grammar

/-- Other names and other lines in the tokens are other names and other lines in the program, and
nothing else. -/
theorem parse_rename (f : Symbol → Symbol) (g : Position → Position) (ts : List Token) :
    parse (ts.map (Token.rename f g)) =
      ⟨(parse ts).statements.map (Stmt.rename f g),
        (parse ts).diagnostics.map fun d => { d with line := g d.line }⟩ := by
  by_cases hts : ts = []
  · simp [hts, parse, Token.body, Grammar.declarations]
  · have hread := @Grammar.declarations_tokens_of_sameEnd
      ⟨f, g, [], Token.stopLine ts, g (Token.stopLine ts)⟩ ⟨rfl, rfl⟩ (Token.body ts)
    rw [Elsewhere.tokens, List.append_nil] at hread
    rw [parse, Token.body_rename, Token.stopLine_rename hts]
    exact hread

end Lox
