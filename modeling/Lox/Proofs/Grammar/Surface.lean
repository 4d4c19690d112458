import Lox.Grammar.Statement

/-!
# Programs as they are written

The trees of the language have no node for the `for` loop, because a loop is rewritten while it is
read.  Surface statements keep it, and `Surface.desugar` says what it stands for.  Beside them stand
the tables of the grammar, from trees to tokens: which token stands for an operator or a literal,
which operators belong to a level, and which tier the operands of a level have to come from.
-/

namespace Lox

/-! ## Tables -/

/-- The tiers of expressions, from the loosest to the tightest. -/
inductive Tier
  | expression | conditional | binary (level : Level) | unary | call | primary
deriving DecidableEq

/-- The operators of a level. -/
def Level.connectives : Level → List Connective
  | or => [.logical .or]
  | and => [.logical .and]
  | equality => [.binary .notEqual, .binary .equal]
  | comparison => [.binary .greater, .binary .greaterEqual, .binary .less, .binary .lessEqual]
  | term => [.binary .sub, .binary .add]
  | factor => [.binary .div, .binary .mul]

/-- The tier of the operands of a level is the next tighter one. -/
def Level.operands : Level → Tier
  | or => .binary .and
  | and => .binary .equality
  | equality => .binary .comparison
  | comparison => .binary .term
  | term => .binary .factor
  | factor => .unary

/-- The token that stands for an operator between two operands. -/
def Connective.kind : Connective → Kind
  | logical .or => .keyword .or_
  | logical .and => .keyword .and_
  | binary .equal => .punct .equalEqual
  | binary .notEqual => .punct .bangEqual
  | binary .less => .punct .less
  | binary .lessEqual => .punct .lessEqual
  | binary .greater => .punct .greater
  | binary .greaterEqual => .punct .greaterEqual
  | binary .add => .punct .plus
  | binary .sub => .punct .minus
  | binary .mul => .punct .star
  | binary .div => .punct .slash

/-- The token that stands for an operator in front of its operand. -/
def UnaryOp.kind : UnaryOp → Kind
  | neg => .punct .minus
  | not => .punct .bang

def Literal.kind : Literal → Kind
  | nil => .keyword .nil_
  | bool true => .keyword .true_
  | bool false => .keyword .false_
  | number n => .number n
  | string s => .string s

/-- The connectives of a level are those that say so themselves. -/
theorem Connective.mem_connectives {c : Connective} {level : Level} :
    c ∈ level.connectives ↔ c.level = level := by
  rcases c with op | op <;> cases op <;> cases level <;> decide

/-- No two connectives have the same kind of token. -/
theorem Kind.connective?_eq_some {kind : Kind} {c : Connective} :
    kind.connective? = some c ↔ kind = c.kind := by
  constructor
  · intro h
    unfold Kind.connective? at h
    split at h <;> cases h <;> rfl
  · rintro rfl
    rcases c with op | op <;> cases op <;> rfl

/-- The operator that is looked for at a level is one of those of the level. -/
theorem Kind.connectiveAt?_eq_some {kind : Kind} {level : Level} {c : Connective} :
    kind.connectiveAt? level = some c ↔ c ∈ level.connectives ∧ kind = c.kind := by
  rw [Kind.connectiveAt?, Option.filter_eq_some_iff, Kind.connective?_eq_some,
    Connective.mem_connectives, decide_eq_true_iff, and_comm]

/-- No two prefix operators have the same kind of token. -/
theorem Kind.unaryOp?_eq_some {kind : Kind} {op : UnaryOp} :
    kind.unaryOp? = some op ↔ kind = op.kind := by
  constructor
  · intro h
    unfold Kind.unaryOp? at h
    split at h <;> cases h <;> rfl
  · rintro rfl
    cases op <;> rfl

/-- A literal is told by its kind of token, with the value in it. -/
theorem Kind.literal?_eq_some {kind : Kind} {value : Literal} :
    kind.literal? = some value ↔ kind = value.kind := by
  constructor
  · intro h
    unfold Kind.literal? at h
    split at h <;> cases h <;> rfl
  · rintro rfl
    rcases value with _ | b | n | s
    · rfl
    · cases b <;> rfl
    · rfl
    · rfl

/-! ## Surface statements -/

/-- What a `for` loop does first. -/
inductive ForInit
  | none
  | var (name : Symbol) (init : Option Expr)
  | expr (value : Expr)

/-- A statement as it is written. -/
inductive Surface
  | expr (value : Expr)
  | print (value : Expr)
  | var (name : Symbol) (init : Option Expr)
  | block (body : List Surface)
  | ifThen (condition : Expr) (yes : Surface)
  | ifElse (condition : Expr) (yes no : Surface)
  | while_ (condition : Expr) (body : Surface)
  | for_ (init : ForInit) (condition increment : Option Expr) (body : Surface)
  | break_
  | function (name : Symbol) (params : List Symbol) (body : List Surface)
  | return_ (value : Option Expr)

/-- The statement of an initializer, if there is one. -/
def ForInit.stmt? : ForInit → Option Stmt
  | none => .none
  | var x init => some (.var x init)
  | expr e => some (.expr e)

namespace Surface

/-- Rewrites every `for (init; condition; increment) body` into
`{ init; while (condition) { body; increment; } }`.  A part that is left out leaves its place out
together with the block around it, and a missing condition is always true. -/
def desugar : Surface → Stmt
  | expr e => .expr e
  | print e => .print e
  | var x init => .var x init
  | block body => .block (body.map desugar)
  | ifThen condition yes => .ifThen condition yes.desugar
  | ifElse condition yes no => .ifElse condition yes.desugar no.desugar
  | while_ condition body => .while_ condition body.desugar
  | for_ init condition increment body =>
    let round : Stmt := match increment with
      | none => body.desugar
      | some e => .block [body.desugar, .expr e]
    let repetition : Stmt := match condition with
      | none => .while_ (.literal (.bool true)) round
      | some e => .while_ e round
    match init.stmt? with
    | none => repetition
    | some first => .block [first, repetition]
  | break_ => .break_
  | function f params body => .function f params (body.map desugar)
  | return_ e => .return_ e

theorem desugar_for (init : ForInit) (condition increment : Option Expr) (body : Surface) :
    (for_ init condition increment body).desugar =
      (ForClauses.mk init.stmt? condition increment).loop body.desugar := by
  rw [desugar.eq_def]
  cases init <;> cases condition <;> cases increment <;> rfl

/-- Whether an `else` right behind the statement belongs to an `if` inside of it that lacks one. -/
def takesElse : Surface → Bool
  | ifThen _ _ => true
  | ifElse _ _ no => no.takesElse
  | while_ _ body => body.takesElse
  | for_ _ _ _ body => body.takesElse
  | _ => false

/-- The tokens behind the statement do not begin with an `else` that the statement would take. -/
def LeavesElse (s : Surface) (rest : List Token) : Prop :=
  s.takesElse = true → ∀ t ∈ rest.head?, t.kind ≠ .keyword .else_

end Surface

end Lox
