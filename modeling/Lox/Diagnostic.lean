import Lox.Token

/-!
# Diagnostics

What can be wrong with a source text, and where.  The wording of every message is here.
-/

namespace Lox

/-- The part of a statement or expression that a missing punctuation mark belongs to. -/
inductive Spot
  | afterFunctionName | afterParameters | beforeFunctionBody
  | afterVariableDeclaration | afterValue | afterBreak | afterReturnValue | afterExpression
  | afterIf | afterIfCondition | afterWhile | afterCondition
  | afterFor | afterLoopInitializer | afterLoopCondition | afterForClauses
  | afterBlock | afterThenBranch | afterArguments
deriving DecidableEq

def Spot.text : Spot → String
  | afterFunctionName => "after function name"
  | afterParameters => "after parameters"
  | beforeFunctionBody => "before function body"
  | afterVariableDeclaration => "after variable declaration"
  | afterValue => "after value"
  | afterBreak => "after 'break'"
  | afterReturnValue => "after return value"
  | afterExpression => "after expression"
  | afterIf => "after 'if'"
  | afterIfCondition => "after if condition"
  | afterWhile => "after 'while'"
  | afterCondition => "after condition"
  | afterFor => "after 'for'"
  | afterLoopInitializer => "after loop initializer"
  | afterLoopCondition => "after loop condition"
  | afterForClauses => "after for clauses"
  | afterBlock => "after block"
  | afterThenBranch => "after then branch of conditional expression"
  | afterArguments => "after arguments"

/-- What a name would have named. -/
inductive Role
  | function | parameter | variable_
deriving DecidableEq

def Role.text : Role → String
  | function => "function name"
  | parameter => "parameter name"
  | variable_ => "variable name"

/-- The most arguments of a call, and the most parameters of a function. -/
def maxArity : Nat := 255

inductive Problem
  | strayCharacter (c : Char)
  | unterminatedString
  | unterminatedComment
  | expectedPunct (p : Punct) (spot : Spot)
  | expectedName (role : Role)
  | expectedExpression
  | invalidTarget
  | missingLeftOperand
  | breakOutsideLoop
  | returnOutsideFunction
  | tooManyArguments
  | tooManyParameters
deriving DecidableEq

def Problem.message : Problem → String
  | strayCharacter c => "unexpected character '" ++ c.toString ++ "'"
  | unterminatedString => "unterminated string"
  | unterminatedComment => "unterminated block comment"
  | expectedPunct p spot => "expected '" ++ p.spelling ++ "' " ++ spot.text
  | expectedName role => "expected " ++ role.text
  | expectedExpression => "expected expression"
  | invalidTarget => "invalid assignment target"
  | missingLeftOperand => "missing left-hand operand"
  | breakOutsideLoop => "'break' must be inside a loop"
  | returnOutsideFunction => "'return' must be inside a function"
  | tooManyArguments => "can't have more than " ++ maxArity.repr ++ " arguments"
  | tooManyParameters => "can't have more than " ++ maxArity.repr ++ " parameters"

/-- What a diagnostic points at: a line of the text, the end of the tokens, or a token. -/
inductive Place
  | line
  | atEnd
  | lexeme (text : String)
deriving DecidableEq

def Place.text : Place → String
  | line => ""
  | atEnd => " at end"
  | lexeme text => " at '" ++ text ++ "'"

structure Diagnostic where
  line : Position
  place : Place
  problem : Problem
deriving DecidableEq

namespace Diagnostic

def message (d : Diagnostic) : String :=
  "[line " ++ d.line.text ++ "] Error" ++ d.place.text ++ ": " ++ d.problem.message

/-- Points at a token. -/
def atToken (t : Token) (problem : Problem) : Diagnostic :=
  ⟨t.line, if t.kind = .eof then .atEnd else .lexeme t.lexeme, problem⟩

/-- Points at the first of the tokens that remain, or at their end, which is on line `stop`. -/
def atHead (stop : Position) (rest : List Token) (problem : Problem) : Diagnostic :=
  match rest with
  | [] => ⟨stop, .atEnd, problem⟩
  | t :: _ => atToken t problem

end Diagnostic

end Lox
