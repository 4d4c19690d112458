import Lox.Proofs.Grammar.Surface

/-!
# Derivations

The grammar as a relation between tokens and trees.  A derivation uses all of its tokens, each once
and in order, and fixes the line that every node of the tree records.

```
declaration  "fun" name "(" (name ("," name)*)? ")" "{" declaration* "}"
             | "var" name ("=" expression)? ";" | statement
statement    expression ";" | "print" expression ";" | "{" declaration* "}"
             | "if" "(" expression ")" statement ("else" statement)?
             | "while" "(" expression ")" statement
             | "for" "(" ("var" name ("=" expression)? ";" | expression? ";")
                 expression? ";" expression? ")" statement
             | "break" ";" | "return" expression? ";"
expression   name "=" expression | conditional
conditional  or ("?" expression ":" conditional)?
level        level operator operands | operands          for each of the six levels of operators
unary        ("!" | "-") unary | call
call         call "(" (expression ("," expression)*)? ")" | primary
primary      literal | name | "(" expression ")"
```

A statement is derived in a scope, which has to allow its `break` and `return`, and there are at
most `maxArity` arguments or parameters.  The branch in front of an `else` must not be one that
takes the `else` for itself.
-/

namespace Lox

mutual

/-- The tokens are an expression of the tier. -/
inductive Derives : Tier → List Token → Expr → Prop
  | assign {name equals : Token} {ts : List Token} {x : Symbol} {value : Expr} :
      name.kind = .identifier x → equals.kind = .punct .equal → Derives .expression ts value →
      Derives .expression (name :: equals :: ts) (.assign x value name.line)
  | ofConditional {ts : List Token} {e : Expr} :
      Derives .conditional ts e → Derives .expression ts e
  | conditional {question colon : Token} {ts₁ ts₂ ts₃ : List Token} {condition yes no : Expr} :
      Derives (.binary .or) ts₁ condition → question.kind = .punct .question →
      Derives .expression ts₂ yes → colon.kind = .punct .colon → Derives .conditional ts₃ no →
      Derives .conditional (ts₁ ++ question :: ts₂ ++ colon :: ts₃) (.conditional condition yes no)
  | ofBinary {ts : List Token} {e : Expr} :
      Derives (.binary .or) ts e → Derives .conditional ts e
  | join {level : Level} {c : Connective} {op : Token} {ts₁ ts₂ : List Token} {left right : Expr} :
      Derives (.binary level) ts₁ left → c ∈ level.connectives → op.kind = c.kind →
      Derives level.operands ts₂ right →
      Derives (.binary level) (ts₁ ++ op :: ts₂) (c.join left right op.line)
  | ofOperand {level : Level} {ts : List Token} {e : Expr} :
      Derives level.operands ts e → Derives (.binary level) ts e
  | unary {op : UnaryOp} {t : Token} {ts : List Token} {e : Expr} :
      t.kind = op.kind → Derives .unary ts e → Derives .unary (t :: ts) (.unary op e t.line)
  | ofCall {ts : List Token} {e : Expr} : Derives .call ts e → Derives .unary ts e
  | call {opening closing : Token} {ts₁ ts₂ : List Token} {callee : Expr} {args : List Expr} :
      Derives .call ts₁ callee → opening.kind = .punct .leftParen → DerivesArguments ts₂ args →
      args.length ≤ maxArity → closing.kind = .punct .rightParen →
      Derives .call (ts₁ ++ opening :: ts₂ ++ [closing]) (.call callee args closing.line)
  | callEmpty {opening closing : Token} {ts : List Token} {callee : Expr} :
      Derives .call ts callee → opening.kind = .punct .leftParen →
      closing.kind = .punct .rightParen →
      Derives .call (ts ++ [opening, closing]) (.call callee [] closing.line)
  | ofPrimary {ts : List Token} {e : Expr} : Derives .primary ts e → Derives .call ts e
  | literal {t : Token} {value : Literal} :
      t.kind = value.kind → Derives .primary [t] (.literal value)
  | var {t : Token} {x : Symbol} : t.kind = .identifier x → Derives .primary [t] (.var x t.line)
  | group {opening closing : Token} {ts : List Token} {e : Expr} :
      opening.kind = .punct .leftParen → Derives .expression ts e →
      closing.kind = .punct .rightParen → Derives .primary (opening :: ts ++ [closing]) (.group e)

/-- The tokens are expressions, at least one, with commas between them. -/
inductive DerivesArguments : List Token → List Expr → Prop
  | one {ts : List Token} {e : Expr} : Derives .expression ts e → DerivesArguments ts [e]
  | more {comma : Token} {ts₁ ts₂ : List Token} {e : Expr} {es : List Expr} :
      Derives .expression ts₁ e → comma.kind = .punct .comma → DerivesArguments ts₂ es →
      DerivesArguments (ts₁ ++ comma :: ts₂) (e :: es)

end

/-- The tokens are an expression, or there is nothing. -/
inductive DerivesOption : List Token → Option Expr → Prop
  | none : DerivesOption [] none
  | some {ts : List Token} {e : Expr} : Derives .expression ts e → DerivesOption ts (some e)

/-- The tokens declare a variable, from its name to the semicolon. -/
inductive DerivesVariable : List Token → Symbol → Option Expr → Prop
  | bare {name semicolon : Token} {x : Symbol} :
      name.kind = .identifier x → semicolon.kind = .punct .semicolon →
      DerivesVariable [name, semicolon] x none
  | init {name equals semicolon : Token} {ts : List Token} {x : Symbol} {e : Expr} :
      name.kind = .identifier x → equals.kind = .punct .equal → Derives .expression ts e →
      semicolon.kind = .punct .semicolon →
      DerivesVariable (name :: equals :: ts ++ [semicolon]) x (some e)

/-- The tokens are the initializer of a `for` loop, with the semicolon behind it. -/
inductive DerivesForInit : List Token → ForInit → Prop
  | none {semicolon : Token} :
      semicolon.kind = .punct .semicolon → DerivesForInit [semicolon] .none
  | var {keyword : Token} {ts : List Token} {x : Symbol} {init : Option Expr} :
      keyword.kind = .keyword .var_ → DerivesVariable ts x init →
      DerivesForInit (keyword :: ts) (.var x init)
  | expr {semicolon : Token} {ts : List Token} {e : Expr} :
      Derives .expression ts e → semicolon.kind = .punct .semicolon →
      DerivesForInit (ts ++ [semicolon]) (.expr e)

/-- The tokens are names, at least one, with commas between them. -/
inductive DerivesNames : List Token → List Symbol → Prop
  | one {name : Token} {x : Symbol} : name.kind = .identifier x → DerivesNames [name] [x]
  | more {name comma : Token} {ts : List Token} {x : Symbol} {xs : List Symbol} :
      name.kind = .identifier x → comma.kind = .punct .comma → DerivesNames ts xs →
      DerivesNames (name :: comma :: ts) (x :: xs)

/-- The tokens are the parameters of a function. -/
inductive DerivesParameters : List Token → List Symbol → Prop
  | none : DerivesParameters [] []
  | some {ts : List Token} {xs : List Symbol} :
      DerivesNames ts xs → xs.length ≤ maxArity → DerivesParameters ts xs

mutual

/-- The tokens are a statement. -/
inductive DerivesStatement : Scope → List Token → Surface → Prop
  | expr {scope : Scope} {semicolon : Token} {ts : List Token} {e : Expr} :
      Derives .expression ts e → semicolon.kind = .punct .semicolon →
      DerivesStatement scope (ts ++ [semicolon]) (.expr e)
  | print {scope : Scope} {keyword semicolon : Token} {ts : List Token} {e : Expr} :
      keyword.kind = .keyword .print_ → Derives .expression ts e →
      semicolon.kind = .punct .semicolon →
      DerivesStatement scope (keyword :: ts ++ [semicolon]) (.print e)
  | block {scope : Scope} {opening closing : Token} {ts : List Token} {body : List Surface} :
      opening.kind = .punct .leftCurly → DerivesDeclarations scope ts body →
      closing.kind = .punct .rightCurly →
      DerivesStatement scope (opening :: ts ++ [closing]) (.block body)
  | ifThen {scope : Scope} {keyword opening closing : Token} {ts₁ ts₂ : List Token} {e : Expr}
      {yes : Surface} :
      keyword.kind = .keyword .if_ → opening.kind = .punct .leftParen →
      Derives .expression ts₁ e → closing.kind = .punct .rightParen →
      DerivesStatement scope ts₂ yes →
      DerivesStatement scope (keyword :: opening :: ts₁ ++ closing :: ts₂) (.ifThen e yes)
  | ifElse {scope : Scope} {keyword opening closing else_ : Token} {ts₁ ts₂ ts₃ : List Token}
      {e : Expr} {yes no : Surface} :
      keyword.kind = .keyword .if_ → opening.kind = .punct .leftParen →
      Derives .expression ts₁ e → closing.kind = .punct .rightParen →
      DerivesStatement scope ts₂ yes → yes.takesElse = false → else_.kind = .keyword .else_ →
      DerivesStatement scope ts₃ no →
      DerivesStatement scope (keyword :: opening :: ts₁ ++ closing :: ts₂ ++ else_ :: ts₃)
        (.ifElse e yes no)
  | while_ {scope : Scope} {keyword opening closing : Token} {ts₁ ts₂ : List Token} {e : Expr}
      {body : Surface} :
      keyword.kind = .keyword .while_ → opening.kind = .punct .leftParen →
      Derives .expression ts₁ e → closing.kind = .punct .rightParen →
      DerivesStatement scope.loop ts₂ body →
      DerivesStatement scope (keyword :: opening :: ts₁ ++ closing :: ts₂) (.while_ e body)
  | for_ {scope : Scope} {keyword opening semicolon closing : Token}
      {ts₁ ts₂ ts₃ ts₄ : List Token} {init : ForInit} {condition increment : Option Expr}
      {body : Surface} :
      keyword.kind = .keyword .for_ → opening.kind = .punct .leftParen →
      DerivesForInit ts₁ init → DerivesOption ts₂ condition →
      semicolon.kind = .punct .semicolon → DerivesOption ts₃ increment →
      closing.kind = .punct .rightParen → DerivesStatement scope.loop ts₄ body →
      DerivesStatement scope
        (keyword :: opening :: ts₁ ++ ts₂ ++ semicolon :: ts₃ ++ closing :: ts₄)
        (.for_ init condition increment body)
  | break_ {scope : Scope} {keyword semicolon : Token} :
      keyword.kind = .keyword .break_ → semicolon.kind = .punct .semicolon →
      scope.inLoop = true → DerivesStatement scope [keyword, semicolon] .break_
  | return_ {scope : Scope} {keyword semicolon : Token} {ts : List Token} {e : Option Expr} :
      keyword.kind = .keyword .return_ → DerivesOption ts e →
      semicolon.kind = .punct .semicolon → scope.inFunction = true →
      DerivesStatement scope (keyword :: ts ++ [semicolon]) (.return_ e)

/-- The tokens are a declaration. -/
inductive DerivesDeclaration : Scope → List Token → Surface → Prop
  | function {scope : Scope} {keyword name opening closing leftBrace rightBrace : Token}
      {ts₁ ts₂ : List Token} {f : Symbol} {params : List Symbol} {body : List Surface} :
      keyword.kind = .keyword .fun_ → name.kind = .identifier f →
      opening.kind = .punct .leftParen → DerivesParameters ts₁ params →
      closing.kind = .punct .rightParen → leftBrace.kind = .punct .leftCurly →
      DerivesDeclarations scope.function ts₂ body → rightBrace.kind = .punct .rightCurly →
      DerivesDeclaration scope
        (keyword :: name :: opening :: ts₁ ++ closing :: leftBrace :: ts₂ ++ [rightBrace])
        (.function f params body)
  | var {scope : Scope} {keyword : Token} {ts : List Token} {x : Symbol} {init : Option Expr} :
      keyword.kind = .keyword .var_ → DerivesVariable ts x init →
      DerivesDeclaration scope (keyword :: ts) (.var x init)
  | ofStatement {scope : Scope} {ts : List Token} {s : Surface} :
      DerivesStatement scope ts s → DerivesDeclaration scope ts s

/-- The tokens are declarations, one after the other. -/
inductive DerivesDeclarations : Scope → List Token → List Surface → Prop
  | nil {scope : Scope} : DerivesDeclarations scope [] []
  | cons {scope : Scope} {ts₁ ts₂ : List Token} {s : Surface} {ss : List Surface} :
      DerivesDeclaration scope ts₁ s → DerivesDeclarations scope ts₂ ss →
      DerivesDeclarations scope (ts₁ ++ ts₂) (s :: ss)

end

/-- Declarations of one scope stand one behind the other. -/
theorem DerivesDeclarations.append {scope : Scope} {ts us : List Token} {ss rs : List Surface}
    (h : DerivesDeclarations scope ts ss) (hrest : DerivesDeclarations scope us rs) :
    DerivesDeclarations scope (ts ++ us) (ss ++ rs) := by
  induction ss generalizing ts with
  | nil =>
      cases h
      exact hrest
  | cons s ss ih =>
      cases h with
      | cons h hs =>
          rw [List.append_assoc]
          exact .cons h (ih hs)

end Lox
