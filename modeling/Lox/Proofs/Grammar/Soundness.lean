import Lox.Proofs.Grammar.Derivation
import Lox.Proofs.Grammar.Reads

/-!
# What is read cleanly is derived

Every clean reading of a phrase uses up a stretch of tokens that derives the phrase.  There is one
lemma for each function of the grammar, and the lemmas follow the recursion of the functions.
-/

namespace Lox

/-- A name is derived by a single token, in any tier. -/
theorem Derives.eq_singleton_of_var {x : Symbol} {line : Position} {tier : Tier} {ts : List Token}
    {e : Expr} (h : Derives tier ts e) :
    e = .var x line → ∃ t, ts = [t] ∧ t.kind = .identifier x ∧ t.line = line := by
  match h with
  | .ofConditional h => exact h.eq_singleton_of_var
  | .ofBinary h => exact h.eq_singleton_of_var
  | .ofOperand h => exact h.eq_singleton_of_var
  | .ofCall h => exact h.eq_singleton_of_var
  | .ofPrimary h => exact h.eq_singleton_of_var
  | .var (t := t) hk =>
      rintro ⟨⟩
      exact ⟨t, rfl, hk, rfl⟩
  | .join (c := c) .. => rcases c with op | op <;> nofun
  | .assign .. | .conditional .. | .unary .. | .call .. | .callEmpty .. | .literal .. | .group .. =>
      nofun
termination_by structural h

namespace Grammar

open Phrase

/-! ## Expressions -/

mutual

/-- What is read of a tier is derived from that tier, token by token. -/
theorem derives_expression {stop : Position} {ts rest : List Token} {e : Expr}
    (h : (expression stop ts).Reads e rest) :
    ∃ used, ts = used ++ rest ∧ Derives .expression used e := by
  obtain ⟨target, ts₁, htarget, hrest⟩ := reads_expression.1 h
  obtain ⟨used, hused, hd⟩ := derives_conditional htarget
  rcases hrest with ⟨equals, ts₂, rfl, hequals, value, _, hvalue, x, line, rfl, rfl, rfl⟩ |
    ⟨-, rfl, rfl⟩
  · obtain ⟨name, rfl, hname, rfl⟩ := hd.eq_singleton_of_var rfl
    have hlt : ts₂.length + 1 < ts.length := htarget.length_lt
    obtain ⟨used, rfl, hd⟩ := derives_expression hvalue
    exact ⟨name :: equals :: used, hused, .assign hname hequals hd⟩
  · exact ⟨used, hused, .ofConditional hd⟩
termination_by ts.length * 32 + 16

theorem derives_conditional {stop : Position} {ts rest : List Token} {e : Expr}
    (h : (conditional stop ts).Reads e rest) :
    ∃ used, ts = used ++ rest ∧ Derives .conditional used e := by
  obtain ⟨condition, ts₁, hcondition, hrest⟩ := reads_conditional.1 h
  obtain ⟨used, hused, hd⟩ := derives_binary hcondition
  rcases hrest with ⟨question, ts₂, rfl, hquestion, yes, ts₃, hyes, colon, ts₄, ⟨rfl, hcolon⟩,
    no, hno, rfl⟩ | ⟨-, rfl, rfl⟩
  · have hlt : ts₂.length + 1 < ts.length := hcondition.length_lt
    have hlt' : ts₄.length + 1 < ts₂.length := hyes.length_lt
    obtain ⟨used₂, hused₂, hd₂⟩ := derives_expression hyes
    obtain ⟨used₃, rfl, hd₃⟩ := derives_conditional hno
    refine ⟨used ++ question :: used₂ ++ colon :: used₃, by simp [hused, hused₂], ?_⟩
    exact .conditional hd hquestion hd₂ hcolon hd₃
  · exact ⟨used, hused, .ofBinary hd⟩
termination_by ts.length * 32 + 15
decreasing_by all_goals have := Level.or.rank_le; omega

theorem derives_binary {stop : Position} {level : Level} {ts rest : List Token} {e : Expr}
    (h : (binary stop level ts).Reads e rest) :
    ∃ used, ts = used ++ rest ∧ Derives (.binary level) used e := by
  obtain ⟨left, ts₁, hleft, hchain⟩ := reads_binary.1 h
  have hlt := hleft.length_lt
  obtain ⟨used, hused, hd⟩ := derives_operand hleft
  obtain ⟨more, rfl, hd⟩ := derives_chain (.ofOperand hd) hchain
  exact ⟨used ++ more, by simp [hused], hd⟩
termination_by ts.length * 32 + 2 * level.rank + 4

theorem derives_operand {stop : Position} {level : Level} {ts rest : List Token} {e : Expr}
    (h : (operand stop level ts).Reads e rest) :
    ∃ used, ts = used ++ rest ∧ Derives level.operands used e := by
  cases level <;> rw [operand] at h
  case factor => exact derives_unary h
  all_goals exact derives_binary h
termination_by ts.length * 32 + 2 * level.rank + 3
decreasing_by all_goals subst_vars; simp [Level.rank]

/-- What a chain reads is derived together with what stands in front of it. -/
theorem derives_chain {stop : Position} {level : Level} {left e : Expr} {used ts rest : List Token}
    (hleft : Derives (.binary level) used left) (h : (chain stop level left ts).Reads e rest) :
    ∃ more, ts = more ++ rest ∧ Derives (.binary level) (used ++ more) e := by
  rcases reads_chain.1 h with ⟨t, ts₁, rfl, c, hc, right, ts₂, hright, hchain⟩ | ⟨-, rfl, rfl⟩
  · obtain ⟨hmem, hkind⟩ := Kind.connectiveAt?_eq_some.1 hc
    have hlt := hright.length_lt
    obtain ⟨used₁, hused₁, hd⟩ := derives_operand hright
    obtain ⟨more, rfl, hd⟩ := derives_chain (.join hleft hmem hkind hd) hchain
    exact ⟨t :: used₁ ++ more, by simp [hused₁], by simpa using hd⟩
  · exact ⟨[], rfl, by simpa using hleft⟩
termination_by ts.length * 32
decreasing_by all_goals subst_vars; have := level.rank_le; simp only [List.length_cons]; omega

theorem derives_unary {stop : Position} {ts rest : List Token} {e : Expr}
    (h : (unary stop ts).Reads e rest) : ∃ used, ts = used ++ rest ∧ Derives .unary used e := by
  rcases reads_unary.1 h with ⟨t, ts₁, rfl, op, hop, inner, hinner, rfl⟩ | ⟨-, hcall⟩
  · obtain ⟨used, rfl, hd⟩ := derives_unary hinner
    exact ⟨t :: used, rfl, .unary (Kind.unaryOp?_eq_some.1 hop) hd⟩
  · obtain ⟨used, rfl, hd⟩ := derives_call hcall
    exact ⟨used, rfl, .ofCall hd⟩
termination_by ts.length * 32 + 2

theorem derives_call {stop : Position} {ts rest : List Token} {e : Expr}
    (h : (call stop ts).Reads e rest) : ∃ used, ts = used ++ rest ∧ Derives .call used e := by
  obtain ⟨callee, ts₁, hcallee, hcalls⟩ := reads_call.1 h
  have hlt := hcallee.length_lt
  obtain ⟨used, hused, hd⟩ := derives_primary hcallee
  obtain ⟨more, rfl, hd⟩ := derives_calls (.ofPrimary hd) hcalls
  exact ⟨used ++ more, by simp [hused], hd⟩
termination_by ts.length * 32 + 1

/-- What is called is derived together with the arguments behind it. -/
theorem derives_calls {stop : Position} {callee e : Expr} {used ts rest : List Token}
    (hcallee : Derives .call used callee) (h : (calls stop callee ts).Reads e rest) :
    ∃ more, ts = more ++ rest ∧ Derives .call (used ++ more) e := by
  rcases reads_calls.1 h with ⟨opening, ts₁, rfl, hopening, args, ts₂, hargs, hcalls⟩ |
    ⟨-, rfl, rfl⟩
  · have hlt := hargs.length_lt
    obtain ⟨used₁, closing, hused₁, hclosing, hline, hd⟩ := derives_arguments hargs
    have hcall : Derives .call (used ++ (opening :: used₁ ++ [closing]))
        (.call callee args.1 args.2) := by
      rw [hline]
      rcases hd with ⟨rfl, hnil⟩ | ⟨hd, harity⟩
      · rw [hnil]
        exact .callEmpty hcallee hopening hclosing
      · simpa using Derives.call hcallee hopening hd harity hclosing
    obtain ⟨more, rfl, hd⟩ := derives_calls hcall hcalls
    exact ⟨opening :: used₁ ++ [closing] ++ more, by simp [hused₁], by simpa using hd⟩
  · exact ⟨[], rfl, by simpa using hcallee⟩
termination_by ts.length * 32 + 19

/-- The line of a call is that of the parenthesis behind its arguments, and these are not too many.
-/
theorem derives_arguments {stop : Position} {ts rest : List Token} {args : List Expr × Position}
    (h : (arguments stop ts).Reads args rest) :
    ∃ used closing, ts = used ++ closing :: rest ∧ closing.kind = .punct .rightParen ∧
      args.2 = closing.line ∧
      (used = [] ∧ args.1 = [] ∨ DerivesArguments used args.1 ∧ args.1.length ≤ maxArity) := by
  rcases reads_arguments.1 h with ⟨closing, ts₁, rfl, hclosing, rfl, rfl⟩ | ⟨-, hlist⟩
  · exact ⟨[], closing, rfl, hclosing, rfl, .inl ⟨rfl, rfl⟩⟩
  · obtain ⟨used, closing, rfl, hclosing, hline, hd, harity⟩ := derives_argumentList hlist
    exact ⟨used, closing, rfl, hclosing, hline, .inr ⟨hd, by omega⟩⟩
termination_by ts.length * 32 + 18

/-- Arguments are counted from those in front of them, and all of them together are not too many.
-/
theorem derives_argumentList {stop : Position} {count : Nat} {ts rest : List Token}
    {args : List Expr × Position} (h : (argumentList stop count ts).Reads args rest) :
    ∃ used closing, ts = used ++ closing :: rest ∧ closing.kind = .punct .rightParen ∧
      args.2 = closing.line ∧ DerivesArguments used args.1 ∧
      count + args.1.length ≤ maxArity := by
  obtain ⟨hcount, arg, ts₁, harg, hrest⟩ := reads_argumentList.1 h
  obtain ⟨used, hused, hd⟩ := derives_expression harg
  rcases hrest with ⟨comma, ts₂, rfl, hcomma, others, hothers, rfl⟩ |
    ⟨-, closing, ⟨rfl, hclosing⟩, rfl⟩
  · have hlt : ts₂.length + 1 < ts.length := harg.length_lt
    obtain ⟨used₁, closing, rfl, hclosing, hline, hd₁, harity⟩ := derives_argumentList hothers
    refine ⟨used ++ comma :: used₁, closing, by simp [hused], hclosing, hline,
      .more hd hcomma hd₁, ?_⟩
    simp only [List.length_cons]
    omega
  · exact ⟨used, closing, hused, hclosing, rfl, .one hd, hcount⟩
termination_by ts.length * 32 + 17

theorem derives_primary {stop : Position} {ts rest : List Token} {e : Expr}
    (h : (primary stop ts).Reads e rest) : ∃ used, ts = used ++ rest ∧ Derives .primary used e := by
  obtain ⟨t, ts₁, rfl, hrest⟩ := reads_primary.1 h
  rcases hrest with ⟨value, hvalue, rfl, rfl⟩ | ⟨x, hx, rfl, rfl⟩ |
    ⟨hopening, inner, ts₂, hinner, closing, ⟨rfl, hclosing⟩, rfl⟩
  · exact ⟨[t], rfl, .literal (Kind.literal?_eq_some.1 hvalue)⟩
  · exact ⟨[t], rfl, .var hx⟩
  · obtain ⟨used, rfl, hd⟩ := derives_expression hinner
    exact ⟨t :: used ++ [closing], by simp, .group hopening hd hclosing⟩
termination_by ts.length * 32

end

/-! ## Parts of statements -/

/-- The last token of such a phrase is the mark, and those in front of it derive the expression. -/
theorem derives_expressionBefore {stop : Position} {p : Punct} {spot : Spot} {ts rest : List Token}
    {e : Expr} (h : (expressionBefore stop p spot ts).Reads e rest) :
    ∃ used closing, ts = used ++ closing :: rest ∧ closing.kind = .punct p ∧
      Derives .expression used e := by
  obtain ⟨closing, he, hclosing⟩ := reads_expressionBefore.1 h
  obtain ⟨used, rfl, hd⟩ := derives_expression he
  exact ⟨used, closing, rfl, hclosing, hd⟩

theorem derives_optionalBefore {stop : Position} {p : Punct} {spot : Spot} {ts rest : List Token}
    {e : Option Expr} (h : (optionalBefore stop p spot ts).Reads e rest) :
    ∃ used closing, ts = used ++ closing :: rest ∧ closing.kind = .punct p ∧
      DerivesOption used e := by
  rcases reads_optionalBefore.1 h with ⟨closing, rfl, hclosing, rfl⟩ | ⟨-, value, hvalue, rfl⟩
  · exact ⟨[], closing, rfl, hclosing, .none⟩
  · obtain ⟨used, closing, rfl, hclosing, hd⟩ := derives_expressionBefore hvalue
    exact ⟨used, closing, rfl, hclosing, .some hd⟩

/-- The parentheses are the first and the last token, and those between derive the expression. -/
theorem derives_parenthesized {stop : Position} {opening closing : Spot} {ts rest : List Token}
    {e : Expr} (h : (parenthesized stop opening closing ts).Reads e rest) :
    ∃ used left right, ts = left :: used ++ right :: rest ∧ left.kind = .punct .leftParen ∧
      right.kind = .punct .rightParen ∧ Derives .expression used e := by
  obtain ⟨left, ts₁, ⟨rfl, hleft⟩, he⟩ := reads_parenthesized.1 h
  obtain ⟨used, right, rfl, hright, hd⟩ := derives_expressionBefore he
  exact ⟨used, left, right, rfl, hleft, hright, hd⟩

/-- What is read as the declaration of a variable declares one. -/
theorem derives_variableDeclaration {stop : Position} {ts rest : List Token} {s : Stmt}
    (h : (variableDeclaration stop ts).Reads s rest) :
    ∃ used x init, ts = used ++ rest ∧ DerivesVariable used x init ∧ s = .var x init := by
  obtain ⟨x, ts₁, ⟨name, rfl, hname⟩, hrest⟩ := reads_variableDeclaration.1 h
  rcases hrest with ⟨equals, ts₂, rfl, hequals, init, hinit, rfl⟩ |
    ⟨-, semicolon, ⟨rfl, hsemicolon⟩, rfl⟩
  · obtain ⟨used, semicolon, rfl, hsemicolon, hd⟩ := derives_expressionBefore hinit
    refine ⟨name :: equals :: used ++ [semicolon], x, some init, by simp, ?_, rfl⟩
    exact .init hname hequals hd hsemicolon
  · exact ⟨[name, semicolon], x, none, rfl, .bare hname hsemicolon, rfl⟩

/-- What a loop does first is derived from what was read, with its semicolon. -/
theorem derives_forInit {stop : Position} {ts rest : List Token} {init : Option Stmt}
    (h : (forInit stop ts).Reads init rest) :
    ∃ used surface, ts = used ++ rest ∧ DerivesForInit used surface ∧ surface.stmt? = init := by
  obtain ⟨t, ts₁, rfl, hrest⟩ := reads_forInit.1 h
  rcases hrest with ⟨ht, rfl, rfl⟩ | ⟨ht, s, hs, rfl⟩ | ⟨-, e, he, rfl⟩
  · exact ⟨[t], .none, rfl, .none ht, rfl⟩
  · obtain ⟨used, x, init, rfl, hd, rfl⟩ := derives_variableDeclaration hs
    exact ⟨t :: used, .var x init, rfl, .var ht hd, rfl⟩
  · obtain ⟨used, semicolon, hused, hsemicolon, hd⟩ := derives_expressionBefore he
    exact ⟨used ++ [semicolon], .expr e, by simp [hused], .expr hd hsemicolon, rfl⟩

/-- Parameters are counted from those in front of them, and all of them together are not too many.
-/
theorem derives_parameterList {stop : Position} {count : Nat} {ts rest : List Token}
    {params : List Symbol} (h : (parameterList stop count ts).Reads params rest) :
    ∃ used closing, ts = used ++ closing :: rest ∧ closing.kind = .punct .rightParen ∧
      DerivesNames used params ∧ count + params.length ≤ maxArity := by
  obtain ⟨hcount, x, ts₁, ⟨name, rfl, hname⟩, hrest⟩ := reads_parameterList.1 h
  rcases hrest with ⟨comma, ts₂, rfl, hcomma, others, hothers, rfl⟩ |
    ⟨-, closing, ⟨rfl, hclosing⟩, rfl⟩
  · obtain ⟨used, closing, rfl, hclosing, hd, harity⟩ := derives_parameterList hothers
    refine ⟨name :: comma :: used, closing, rfl, hclosing, .more hname hcomma hd, ?_⟩
    simp only [List.length_cons]
    omega
  · exact ⟨[name], closing, rfl, hclosing, .one hname, hcount⟩
termination_by ts.length

theorem derives_parameters {stop : Position} {ts rest : List Token} {params : List Symbol}
    (h : (parameters stop ts).Reads params rest) :
    ∃ used closing, ts = used ++ closing :: rest ∧ closing.kind = .punct .rightParen ∧
      DerivesParameters used params := by
  rcases reads_parameters.1 h with ⟨closing, ts₁, rfl, hclosing, rfl, rfl⟩ | ⟨-, hlist⟩
  · exact ⟨[], closing, rfl, hclosing, .none⟩
  · obtain ⟨used, closing, rfl, hclosing, hd, harity⟩ := derives_parameterList hlist
    exact ⟨used, closing, rfl, hclosing, .some hd (by omega)⟩

/-! ## Statements -/

mutual

/-- A statement that was read is a surface statement that was desugared, and no `else` that follows
could belong to it. -/
theorem derives_statement {stop : Position} {scope : Scope} {ts rest : List Token} {s : Stmt}
    (h : (statement stop scope ts).Reads s rest) :
    ∃ used surface, ts = used ++ rest ∧ DerivesStatement scope used surface ∧
      surface.desugar = s ∧ surface.LeavesElse rest := by
  obtain ⟨t, ts₁, hts, hrest⟩ := reads_statement.1 h
  have hlen : ts.length = ts₁.length + 1 := by rw [hts]; rfl
  split at hrest
  · next hk =>
    obtain ⟨body, hbody, rfl⟩ := hrest
    obtain ⟨used, closing, surfaces, rfl, hclosing, hd, rfl⟩ := derives_block hbody
    refine ⟨t :: used ++ [closing], .block surfaces, by simp [hts], .block hk hd hclosing, ?_,
      nofun⟩
    rw [Surface.desugar]
  · next hk =>
    obtain ⟨e, he, rfl⟩ := hrest
    obtain ⟨used, semicolon, rfl, hsemicolon, hd⟩ := derives_expressionBefore he
    refine ⟨t :: used ++ [semicolon], .print e, by simp [hts], .print hk hd hsemicolon, ?_, nofun⟩
    rw [Surface.desugar]
  · next hk =>
    obtain ⟨condition, ts₂, hcondition, yes, ts₃, hyes, hno⟩ := hrest
    have hlt := hcondition.length_lt
    have hlt' := hyes.length_lt
    obtain ⟨used, left, right, hused, hleft, hright, hd⟩ := derives_parenthesized hcondition
    obtain ⟨used₁, yes, hused₁, hd₁, rfl, helse⟩ := derives_statement hyes
    rcases hno with ⟨else_, ts₄, rfl, hkelse, no, hno, rfl⟩ | ⟨hnone, rfl, rfl⟩
    · have hlt'' : ts₄.length + 1 < ts₂.length := hlt'
      obtain ⟨used₂, no, rfl, hd₂, rfl, helse₂⟩ := derives_statement hno
      have htakes : yes.takesElse = false := by
        rw [← Bool.not_eq_true]
        exact fun htakes => helse htakes else_ rfl hkelse
      refine ⟨t :: left :: used ++ right :: used₁ ++ else_ :: used₂, .ifElse condition yes no, ?_,
        .ifElse hk hleft hd hright hd₁ htakes hkelse hd₂, ?_, helse₂⟩
      · simp [hts, hused, hused₁]
      · rw [Surface.desugar]
    · refine ⟨t :: left :: used ++ right :: used₁, .ifThen condition yes, ?_,
        .ifThen hk hleft hd hright hd₁, ?_, fun _ => hnone⟩
      · simp [hts, hused, hused₁]
      · rw [Surface.desugar]
  · next hk =>
    obtain ⟨condition, ts₂, hcondition, body, hbody, rfl⟩ := hrest
    have hlt := hcondition.length_lt
    obtain ⟨used, left, right, hused, hleft, hright, hd⟩ := derives_parenthesized hcondition
    obtain ⟨used₁, body, rfl, hd₁, rfl, helse⟩ := derives_statement hbody
    refine ⟨t :: left :: used ++ right :: used₁, .while_ condition body, by simp [hts, hused],
      .while_ hk hleft hd hright hd₁, ?_, helse⟩
    rw [Surface.desugar]
  · next hk =>
    obtain ⟨clauses, ts₂, hclauses, body, hbody, rfl⟩ := hrest
    have hlt := hclauses.length_lt
    obtain ⟨opening, ts₃, ⟨hts₁, hopening⟩, init, ts₄, hinit, condition, ts₅, hcondition, increment,
      hincrement, rfl⟩ := reads_forClauses.1 hclauses
    obtain ⟨used₁, init, rfl, hd₁, rfl⟩ := derives_forInit hinit
    obtain ⟨used₂, semicolon, rfl, hsemicolon, hd₂⟩ := derives_optionalBefore hcondition
    obtain ⟨used₃, closing, rfl, hclosing, hd₃⟩ := derives_optionalBefore hincrement
    obtain ⟨used₄, body, rfl, hd₄, rfl, helse⟩ := derives_statement hbody
    refine ⟨t :: opening :: used₁ ++ used₂ ++ semicolon :: used₃ ++ closing :: used₄,
      .for_ init condition increment body, by simp [hts, hts₁],
      .for_ hk hopening hd₁ hd₂ hsemicolon hd₃ hclosing hd₄, ?_, helse⟩
    exact Surface.desugar_for init condition increment body
  · next hk =>
    obtain ⟨hscope, semicolon, ⟨rfl, hsemicolon⟩, rfl⟩ := hrest
    refine ⟨[t, semicolon], .break_, hts, .break_ hk hsemicolon hscope, ?_, nofun⟩
    rw [Surface.desugar]
  · next hk =>
    obtain ⟨hscope, e, he, rfl⟩ := hrest
    obtain ⟨used, semicolon, rfl, hsemicolon, hd⟩ := derives_optionalBefore he
    refine ⟨t :: used ++ [semicolon], .return_ e, by simp [hts],
      .return_ hk hd hsemicolon hscope, ?_, nofun⟩
    rw [Surface.desugar]
  · obtain ⟨e, he, rfl⟩ := hrest
    obtain ⟨used, semicolon, hused, hsemicolon, hd⟩ := derives_expressionBefore he
    refine ⟨used ++ [semicolon], .expr e, by simp [hts, hused], .expr hd hsemicolon, ?_, nofun⟩
    rw [Surface.desugar]
termination_by ts.length * 4 + 1
decreasing_by all_goals omega

/-- And so is a declaration. -/
theorem derives_declaration {stop : Position} {scope : Scope} {ts rest : List Token} {s : Stmt}
    (h : (declaration stop scope ts).Reads s rest) :
    ∃ used surface, ts = used ++ rest ∧ DerivesDeclaration scope used surface ∧
      surface.desugar = s ∧ surface.LeavesElse rest := by
  obtain ⟨t, ts₁, hts, hrest⟩ := reads_declaration.1 h
  have hlen : ts.length = ts₁.length + 1 := by rw [hts]; rfl
  rcases hrest with ⟨hk, head, ts₂, hhead, body, hbody, rfl⟩ | ⟨hk, hs⟩ | ⟨-, hs⟩
  · have hlt := hhead.length_lt
    obtain ⟨f, ts₃, ⟨name, hts₁, hname⟩, opening, ts₄, ⟨rfl, hopening⟩, params, ts₅, hparams, brace,
      ⟨rfl, hbrace⟩, rfl⟩ := reads_functionHead.1 hhead
    obtain ⟨used, closing, rfl, hclosing, hd⟩ := derives_parameters hparams
    obtain ⟨used₁, rightBrace, surfaces, rfl, hright, hd₁, rfl⟩ := derives_block hbody
    refine ⟨t :: name :: opening :: used ++ closing :: brace :: used₁ ++ [rightBrace],
      .function f params surfaces, by simp [hts, hts₁],
      .function hk hname hopening hd hclosing hbrace hd₁ hright, ?_, nofun⟩
    rw [Surface.desugar]
  · obtain ⟨used, x, init, rfl, hd, rfl⟩ := derives_variableDeclaration hs
    refine ⟨t :: used, .var x init, hts, .var hk hd, ?_, nofun⟩
    rw [Surface.desugar]
  · obtain ⟨used, surface, hused, hd, hdesugar, helse⟩ := derives_statement hs
    exact ⟨used, surface, hts.trans hused, .ofStatement hd, hdesugar, helse⟩
termination_by ts.length * 4 + 2
decreasing_by all_goals first | omega | (subst_vars; simp only [List.length_cons]; omega)

/-- The declarations of a block that was read are derived one by one, in front of the brace that
closes it. -/
theorem derives_block {stop : Position} {scope : Scope} {ts rest : List Token} {body : List Stmt}
    (h : (block stop scope ts).Reads body rest) :
    ∃ used closing surfaces, ts = used ++ closing :: rest ∧ closing.kind = .punct .rightCurly ∧
      DerivesDeclarations scope used surfaces ∧ surfaces.map Surface.desugar = body := by
  obtain ⟨t, ts₁, hts, hrest⟩ := reads_block.1 h
  have hlen : ts.length = ts₁.length + 1 := by rw [hts]; rfl
  rcases hrest with ⟨hk, rfl, rfl⟩ | ⟨-, first, ts₂, hfirst, others, hothers, rfl⟩
  · exact ⟨[], t, [], hts, hk, .nil, rfl⟩
  · have hlt : ts₂.length < ts₁.length + 1 := hfirst.length_lt
    obtain ⟨used, surface, hused, hd, rfl, -⟩ := derives_declaration hfirst
    obtain ⟨used₁, closing, surfaces, rfl, hclosing, hd₁, rfl⟩ := derives_block hothers
    exact ⟨used ++ used₁, closing, surface :: surfaces, by simp [hts, hused], hclosing,
      .cons hd hd₁, rfl⟩
termination_by ts.length * 4 + 3
decreasing_by all_goals first | omega | (subst_vars; simp only [List.length_cons]; omega)

end

/-- Without a report, all tokens are used up by declarations. -/
theorem derives_declarations {stop : Position} {ts : List Token} {ss : List Stmt}
    (h : declarations stop ts = ⟨ss, []⟩) :
    ∃ program, DerivesDeclarations {} ts program ∧ program.map Surface.desugar = ss := by
  rcases declarations_eq_iff.1 h with ⟨rfl, rfl⟩ | ⟨first, ts₁, hfirst, others, hothers, rfl⟩
  · exact ⟨[], .nil, rfl⟩
  · have hlt := hfirst.length_lt
    obtain ⟨used, surface, rfl, hd, rfl, -⟩ := derives_declaration hfirst
    obtain ⟨program, hd₁, rfl⟩ := derives_declarations hothers
    exact ⟨surface :: program, .cons hd hd₁, rfl⟩
termination_by ts.length

end Grammar

/-- Where an end mark can only come last, the tokens in front of it are those that are not end
marks. -/
theorem Token.body_eq_filter {ts : List Token} (h : ∀ t ∈ ts.dropLast, t.kind ≠ .eof) :
    Token.body ts = ts.filter (·.kind ≠ .eof) := by
  induction ts with
  | nil => rfl
  | cons t ts ih =>
      cases ts with
      | nil => by_cases ht : t.kind = .eof <;> simp [Token.body, Token.isEof, ht]
      | cons u us =>
          have ht : t.kind ≠ .eof := h t (by simp)
          have ih := ih fun t ht => h t (by simp [ht])
          simp only [Token.body, Token.isEof, ne_eq, decide_not] at ih
          simp [Token.body, Token.isEof, ht, ih]

/-- What is read without a report is derived by the tokens in front of the end mark. -/
theorem exists_derives_of_parse {ts : List Token} (h : (parse ts).diagnostics = []) :
    ∃ program : List Surface, DerivesDeclarations {} (Token.body ts) program ∧
      (parse ts).statements = program.map Surface.desugar := by
  have hparse : Grammar.declarations (Token.stopLine ts) (Token.body ts) =
      ⟨(parse ts).statements, []⟩ := Grammar.eq_of_diagnostics_eq_nil h
  obtain ⟨program, hd, hprogram⟩ := Grammar.derives_declarations hparse
  exact ⟨program, hd, hprogram.symm⟩

/-- A program without diagnostics is the rewriting of a surface program that all the tokens, with
the end mark left out, derive. -/
theorem parse_derives {ts : List Token} (heof : ∀ t ∈ ts.dropLast, t.kind ≠ .eof)
    (hclean : (parse ts).diagnostics = []) :
    ∃ program : List Surface, DerivesDeclarations {} (ts.filter (·.kind ≠ .eof)) program ∧
      (parse ts).statements = program.map Surface.desugar := by
  have hparse : Grammar.declarations (Token.stopLine ts) (Token.body ts) =
      ⟨(parse ts).statements, []⟩ := Grammar.eq_of_diagnostics_eq_nil hclean
  obtain ⟨program, hd, hprogram⟩ := Grammar.derives_declarations hparse
  exact ⟨program, Token.body_eq_filter heof ▸ hd, hprogram.symm⟩

/-- The tokens of `for (;;) if (a) if (b) c(); else d = -e + f * g ? h : i;` are such a program. -/
theorem parse_derives_nested :
    let x (n : Nat) : Kind := .identifier ⟨n, ""⟩
    let ts : List Token := [.keyword .for_, .punct .leftParen, .punct .semicolon, .punct .semicolon,
      .punct .rightParen, .keyword .if_, .punct .leftParen, x 0, .punct .rightParen, .keyword .if_,
      .punct .leftParen, x 1, .punct .rightParen, x 2, .punct .leftParen, .punct .rightParen,
      .punct .semicolon, .keyword .else_, x 3, .punct .equal, .punct .minus, x 4, .punct .plus, x 5,
      .punct .star, x 6, .punct .question, x 7, .punct .colon, x 8, .punct .semicolon,
      .eof].map fun k => ⟨k, "", 1⟩
    ∃ program : List Surface, DerivesDeclarations {} (ts.filter (·.kind ≠ .eof)) program ∧
      (parse ts).statements = program.map Surface.desugar :=
  parse_derives (by decide) (by cbv)

end Lox
