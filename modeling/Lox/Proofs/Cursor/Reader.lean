import Lox.Grammar.Program

/-!
# Reading with a cursor

The grammar is about the tokens that are left.  Here all tokens stay where they are, and a cursor
goes over them: a token is looked at by its index, and the loops and functions around a statement
are counted up and down.  Nothing in the definitions keeps the cursor or the counts in bounds, and
nothing makes a reader end.  One that looks where no token is, or that counts below zero, goes
astray, and all that a reader does is put down as events.
-/

namespace Lox

/-- A token was looked at, the cursor was moved, or a declaration was read between two places. -/
inductive Event
  | looked (index : Nat)
  | moved (index : Nat)
  | declared (start stop : Nat)
deriving DecidableEq

/-- The loops and functions around the cursor, and all that has been reported. -/
structure Ledger where
  loops : Nat
  functions : Nat
  reports : List Diagnostic
deriving DecidableEq

structure Cursor extends Ledger where
  current : Nat
  /-- What has happened, the latest first. -/
  events : List Event
deriving DecidableEq

/-- How reading ends: something was read, or could not be read because of a mistake. -/
inductive Reading (α : Type)
  | read (value : α) (cursor : Cursor)
  | failed (mistake : Diagnostic) (cursor : Cursor)
  | astray
  | outOfFuel

/-- Goes over the tokens with a cursor. -/
def Reader (α : Type) : Type := List Token → Cursor → Reading α

namespace Reader

variable {α : Type}

instance : Monad Reader where
  pure v := fun _ c => .read v c
  bind x k := fun tokens c =>
    match x tokens c with
    | .read v c => k v tokens c
    | .failed d c => .failed d c
    | .astray => .astray
    | .outOfFuel => .outOfFuel

theorem bind_apply {α β : Type} (x : Reader α) (k : α → Reader β) (tokens : List Token)
    (c : Cursor) :
    (x >>= k) tokens c = match x tokens c with
      | .read v c => k v tokens c
      | .failed d c => .failed d c
      | .astray => .astray
      | .outOfFuel => .outOfFuel := rfl

instance : LawfulMonad Reader := by
  refine .mk' Reader (fun x => ?_) (fun _ _ => rfl) (fun x k l => ?_)
  · funext tokens c
    change (x >>= fun v => pure v) tokens c = x tokens c
    rw [bind_apply]
    cases x tokens c <;> rfl
  · funext tokens c
    rw [bind_apply, bind_apply, bind_apply]
    cases x tokens c <;> rfl

/-- What follows a choice follows either side of it. -/
theorem ite_bind {β : Type} (p : Prop) [Decidable p] (x y : Reader α) (k : α → Reader β) :
    (if p then x else y) >>= k = if p then x >>= k else y >>= k := by
  split <;> rfl

/-! ## Single steps -/

def exhausted : Reader α := fun _ _ => .outOfFuel

/-- The token at an index. -/
def look (i : Nat) : Reader Token := fun tokens c =>
  match tokens[i]? with
  | some t => .read t { c with events := .looked i :: c.events }
  | none => .astray

def position : Reader Nat := fun _ c => .read c.current c

/-- The index in front of the cursor. -/
def behind : Reader Nat := fun _ c =>
  match c.current with
  | 0 => .astray
  | i + 1 => .read i c

def peek : Reader Token := do look (← position)

/-- The token in front of the cursor, or the first one if the cursor stands there. -/
def previous : Reader Token := do look ((← position) - 1)

def isAtEnd : Reader Bool := do return (← peek).isEof

def forward : Reader Unit := fun _ c =>
  .read () { c with current := c.current + 1, events := .moved (c.current + 1) :: c.events }

/-- Goes to the next token, but not over an end mark, and gives the token in front of it. -/
def advance : Reader Token := do
  if ← isAtEnd then previous
  else
    forward
    previous

def check (kind : Kind) : Reader Bool := do return (← peek).kind = kind

def eat (kind : Kind) : Reader Bool := do
  if ← check kind then
    let _ ← advance
    return true
  else return false

def fail (mistake : Diagnostic) : Reader α := fun _ c => .failed mistake c

def failHere (problem : Problem) : Reader α := do fail (.atToken (← peek) problem)

def consume (p : Punct) (spot : Spot) : Reader Token := do
  if ← check (.punct p) then advance
  else failHere (.expectedPunct p spot)

def identifier (role : Role) : Reader Symbol := do
  let t ← peek
  match t.kind with
  | .identifier x => do
    let _ ← advance
    return x
  | _ => failHere (.expectedName role)

def record (d : Diagnostic) : Reader Unit := fun _ c =>
  .read () { c with reports := c.reports ++ [d] }

def report (problem : Problem) : Reader Unit := do record (.atToken (← peek) problem)

def reportPrevious (problem : Problem) : Reader Unit := do
  record (.atToken (← previous) problem)

def onlyIf (p : Prop) [Decidable p] (x : Reader Unit) : Reader Unit := if p then x else pure ()

/-- Puts down that a declaration was read from `start` up to the cursor. -/
def declared (start : Nat) : Reader Unit := fun _ c =>
  .read () { c with events := .declared start c.current :: c.events }

/-- Goes on with what became of the reader, also if it failed. -/
def attempt (x : Reader α) : Reader (Except Diagnostic α) := fun tokens c =>
  match x tokens c with
  | .read v c => .read (.ok v) c
  | .failed d c => .read (.error d) c
  | .astray => .astray
  | .outOfFuel => .outOfFuel

def ofExcept : Except Diagnostic α → Reader α
  | .ok v => pure v
  | .error d => fail d

/-! ## Loops and functions -/

def ledger : Reader Ledger := fun _ c => .read c.toLedger c

def enterLoop : Reader Unit := fun _ c => .read () { c with loops := c.loops + 1 }

def leaveLoop : Reader Unit := fun _ c =>
  match c.loops with
  | 0 => .astray
  | n + 1 => .read () { c with loops := n }

def enterFunction : Reader Unit := fun _ c => .read () { c with functions := c.functions + 1 }

def leaveFunction : Reader Unit := fun _ c =>
  match c.functions with
  | 0 => .astray
  | n + 1 => .read () { c with functions := n }

/-- Sets the number of loops and gives the one that was there. -/
def replaceLoops (n : Nat) : Reader Nat := fun _ c => .read c.loops { c with loops := n }

def loopBody (body : Reader α) : Reader α := do
  enterLoop
  let outcome ← attempt body
  leaveLoop
  ofExcept outcome

/-- A `break` cannot leave a function, so the loops around it do not count inside of it. -/
def functionBody (body : Reader α) : Reader α := do
  let enclosing ← replaceLoops 0
  enterFunction
  let outcome ← attempt body
  leaveFunction
  let _ ← replaceLoops enclosing
  ofExcept outcome

/-! ## Expressions -/

/-- The target is judged when the value has been read; `equals` is the index of the operator. -/
def assign (target : Expr) (equals : Nat) (value : Expr) : Reader Expr :=
  match target with
  | .var x line => return .assign x value line
  | target => do
    record (.atToken (← look equals) .invalidTarget)
    return target

/-- The operand behind a binary operator is read before the operator is reported. -/
def missingLeftOperand (operand : Reader Expr) : Reader Expr := do
  let op ← position
  let _ ← advance
  let _ ← operand
  fail (.atToken (← look op) .missingLeftOperand)

end Reader

/-- The level on which the right operand of an operator is read if the left one is missing. -/
def Kind.levelWithoutLeft? : Kind → Option Level
  | punct .equalEqual | punct .bangEqual => some .equality
  | punct .less | punct .lessEqual | punct .greater | punct .greaterEqual => some .comparison
  | punct .plus => some .term
  | punct .star | punct .slash => some .factor
  | _ => none

namespace Reader

mutual

def expression : Nat → Reader Expr
  | 0 => exhausted
  | fuel + 1 => do
    let target ← conditional fuel
    if ← eat (.punct .equal) then
      let equals ← behind
      let value ← expression fuel
      assign target equals value
    else return target

def conditional : Nat → Reader Expr
  | 0 => exhausted
  | fuel + 1 => do
    let condition ← binary .or fuel
    if ← eat (.punct .question) then
      let yes ← expression fuel
      let _ ← consume .colon .afterThenBranch
      let no ← conditional fuel
      return .conditional condition yes no
    else return condition

def binary (level : Level) : Nat → Reader Expr
  | 0 => exhausted
  | fuel + 1 => do
    let left ← operand level fuel
    chain level left fuel

def operand (level : Level) : Nat → Reader Expr
  | 0 => exhausted
  | fuel + 1 =>
    match level with
    | .or => binary .and fuel
    | .and => binary .equality fuel
    | .equality => binary .comparison fuel
    | .comparison => binary .term fuel
    | .term => binary .factor fuel
    | .factor => unary fuel

def chain (level : Level) (left : Expr) : Nat → Reader Expr
  | 0 => exhausted
  | fuel + 1 => do
    let t ← peek
    match t.kind.connectiveAt? level with
    | none => return left
    | some c => do
      let op ← advance
      let right ← operand level fuel
      chain level (c.join left right op.line) fuel

def unary : Nat → Reader Expr
  | 0 => exhausted
  | fuel + 1 => do
    let t ← peek
    match t.kind.unaryOp? with
    | none => call fuel
    | some op => do
      let t ← advance
      let e ← unary fuel
      return .unary op e t.line

def call : Nat → Reader Expr
  | 0 => exhausted
  | fuel + 1 => do
    let callee ← primary fuel
    calls callee fuel

def calls (callee : Expr) : Nat → Reader Expr
  | 0 => exhausted
  | fuel + 1 => do
    if ← eat (.punct .leftParen) then
      let args ← arguments fuel
      calls (.call callee args.1 args.2) fuel
    else return callee

def arguments : Nat → Reader (List Expr × Position)
  | 0 => exhausted
  | fuel + 1 => do
    if ← check (.punct .rightParen) then
      let closing ← consume .rightParen .afterArguments
      return ([], closing.line)
    else
      let args ← argumentList 0 fuel
      let closing ← consume .rightParen .afterArguments
      return (args, closing.line)

def argumentList (count : Nat) : Nat → Reader (List Expr)
  | 0 => exhausted
  | fuel + 1 => do
    onlyIf (maxArity ≤ count) (report .tooManyArguments)
    let arg ← expression fuel
    if ← eat (.punct .comma) then
      let args ← argumentList (count + 1) fuel
      return arg :: args
    else return [arg]

def primary : Nat → Reader Expr
  | 0 => exhausted
  | fuel + 1 => do
    let t ← peek
    match t.kind.literal? with
    | some value => do
      let _ ← advance
      return .literal value
    | none =>
      match t.kind with
      | .identifier x => do
        let t ← advance
        return .var x t.line
      | .punct .leftParen => do
        let _ ← advance
        let inner ← expression fuel
        let _ ← consume .rightParen .afterExpression
        return .group inner
      | kind =>
        match kind.levelWithoutLeft? with
        | some level => missingLeftOperand (binary level fuel)
        | none => failHere .expectedExpression

end

/-! ## Statements -/

def expressionBefore (p : Punct) (spot : Spot) (fuel : Nat) : Reader Expr := do
  let e ← expression fuel
  let _ ← consume p spot
  return e

def optionalBefore (p : Punct) (spot : Spot) (fuel : Nat) : Reader (Option Expr) := do
  if ← check (.punct p) then
    let _ ← consume p spot
    return none
  else
    let e ← expression fuel
    let _ ← consume p spot
    return some e

def parenthesized (opening closing : Spot) (fuel : Nat) : Reader Expr := do
  let _ ← consume .leftParen opening
  expressionBefore .rightParen closing fuel

def variableDeclaration (fuel : Nat) : Reader Stmt := do
  let x ← identifier .variable_
  if ← eat (.punct .equal) then
    let init ← expressionBefore .semicolon .afterVariableDeclaration fuel
    return .var x (some init)
  else
    let _ ← consume .semicolon .afterVariableDeclaration
    return .var x none

def forInit (fuel : Nat) : Reader (Option Stmt) := do
  let t ← peek
  if t.kind = .punct .semicolon then
    let _ ← advance
    return none
  else if t.kind = .keyword .var_ then
    let _ ← advance
    let declared ← variableDeclaration fuel
    return some declared
  else
    let e ← expressionBefore .semicolon .afterLoopInitializer fuel
    return some (.expr e)

def forClauses (fuel : Nat) : Reader ForClauses := do
  let _ ← consume .leftParen .afterFor
  let init ← forInit fuel
  let condition ← optionalBefore .semicolon .afterLoopCondition fuel
  let increment ← optionalBefore .rightParen .afterForClauses fuel
  return ⟨init, condition, increment⟩

def parameterList (count : Nat) : Nat → Reader (List Symbol)
  | 0 => exhausted
  | fuel + 1 => do
    onlyIf (maxArity ≤ count) (report .tooManyParameters)
    let x ← identifier .parameter
    if ← eat (.punct .comma) then
      let xs ← parameterList (count + 1) fuel
      return x :: xs
    else return [x]

def parameters (fuel : Nat) : Reader (List Symbol) := do
  if ← check (.punct .rightParen) then
    let _ ← consume .rightParen .afterParameters
    return []
  else
    let xs ← parameterList 0 fuel
    let _ ← consume .rightParen .afterParameters
    return xs

def functionHead (fuel : Nat) : Reader (Symbol × List Symbol) := do
  let f ← identifier .function
  let _ ← consume .leftParen .afterFunctionName
  let params ← parameters fuel
  let _ ← consume .leftCurly .beforeFunctionBody
  return (f, params)

/-- Goes on to where a statement may begin. -/
def skip : Nat → Reader Unit
  | 0 => exhausted
  | fuel + 1 => do
    if ← isAtEnd then return ()
    else
      let before ← previous
      let t ← peek
      if before.kind = .punct .semicolon ∨ t.kind.startsStatement then return ()
      else
        let _ ← advance
        skip fuel

def synchronize (fuel : Nat) : Reader Unit := do
  let _ ← advance
  skip fuel

/-- What is left of a declaration: nothing if it could not be read. -/
def settle (fuel : Nat) : Except Diagnostic Stmt → Reader (Option Stmt)
  | .ok s => return some s
  | .error d => do
    record d
    synchronize fuel
    return none

/-- The closing brace behind the declarations of a block. -/
def braced (items : Reader (List Stmt)) : Reader (List Stmt) := do
  let ss ← items
  let _ ← consume .rightCurly .afterBlock
  return ss

mutual

def declaration : Nat → Reader (Option Stmt)
  | 0 => exhausted
  | fuel + 1 => do
    let start ← position
    let outcome ← attempt (item fuel)
    let s ← settle fuel outcome
    declared start
    return s

def item : Nat → Reader Stmt
  | 0 => exhausted
  | fuel + 1 => do
    let t ← peek
    if t.kind = .keyword .fun_ then
      let _ ← advance
      let head ← functionHead fuel
      let body ← functionBody (braced (items fuel))
      return .function head.1 head.2 body
    else if t.kind = .keyword .var_ then
      let _ ← advance
      variableDeclaration fuel
    else statement fuel

def statement : Nat → Reader Stmt
  | 0 => exhausted
  | fuel + 1 => do
    let t ← peek
    match t.kind with
    | .keyword .print_ => do
      let _ ← advance
      let e ← expressionBefore .semicolon .afterValue fuel
      return .print e
    | .punct .leftCurly => do
      let _ ← advance
      let ss ← braced (items fuel)
      return .block ss
    | .keyword .if_ => do
      let _ ← advance
      let condition ← parenthesized .afterIf .afterIfCondition fuel
      let yes ← statement fuel
      if ← eat (.keyword .else_) then
        let no ← statement fuel
        return .ifElse condition yes no
      else return .ifThen condition yes
    | .keyword .while_ => do
      let _ ← advance
      let condition ← parenthesized .afterWhile .afterCondition fuel
      let body ← loopBody (statement fuel)
      return .while_ condition body
    | .keyword .for_ => do
      let _ ← advance
      let clauses ← forClauses fuel
      let body ← loopBody (statement fuel)
      return clauses.loop body
    | .keyword .break_ => do
      let _ ← advance
      let outer ← ledger
      onlyIf (outer.loops = 0) (reportPrevious .breakOutsideLoop)
      let _ ← consume .semicolon .afterBreak
      return .break_
    | .keyword .return_ => do
      let _ ← advance
      let outer ← ledger
      onlyIf (outer.functions = 0) (reportPrevious .returnOutsideFunction)
      let e ← optionalBefore .semicolon .afterReturnValue fuel
      return .return_ e
    | _ => do
      let e ← expressionBefore .semicolon .afterExpression fuel
      return .expr e

/-- The declarations of a block, up to the closing brace or the end. -/
def items : Nat → Reader (List Stmt)
  | 0 => exhausted
  | fuel + 1 => do
    if ← check (.punct .rightCurly) then return []
    else if ← isAtEnd then return []
    else
      let first ← declaration fuel
      let others ← items fuel
      return first.toList ++ others

end

/-! ## Programs -/

/-- All declarations up to the end. -/
def program : Nat → Reader (List Stmt)
  | 0 => exhausted
  | fuel + 1 => do
    if ← isAtEnd then return []
    else
      let first ← declaration fuel
      let others ← program fuel
      return first.toList ++ others

end Reader

/-- The tokens with an end mark behind them, if they do not end with one. -/
def Token.closed (ts : List Token) : List Token :=
  match ts.getLast? with
  | none => [⟨.eof, "", 1⟩]
  | some last => if last.isEof then ts else ts ++ [⟨.eof, "", last.line⟩]

/-- In front of the tokens, where nothing has happened yet. -/
def Cursor.start : Cursor := ⟨⟨0, 0, []⟩, 0, []⟩

/-- Reads a program with a cursor. -/
def Cursor.parse (fuel : Nat) (ts : List Token) : Reading (List Stmt) :=
  Reader.program fuel (Token.closed ts) .start

end Lox
