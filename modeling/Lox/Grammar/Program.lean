import Lox.Grammar.Statement

/-!
# Reading programs
-/

namespace Lox

/-- The statements that could be read, and everything that was reported, in the order in which it
was found. -/
structure Program where
  statements : List Stmt
  diagnostics : List Diagnostic

/-- Reads declarations to the end of the tokens, which is on line `stop`. -/
def Grammar.declarations (stop : Position) (ts : List Token) : Program :=
  match ts with
  | [] => ⟨[], []⟩
  | t :: rest =>
    let first := (declaration stop {} (t :: rest)).settle (by simp)
    let others := declarations stop first.rest
    ⟨first.value.toList ++ others.statements, first.reports ++ others.diagnostics⟩
termination_by ts.length
decreasing_by exact first.shorter

namespace Token

def isEof (t : Token) : Bool := t.kind = .eof

/-- The tokens in front of the first end mark. -/
def body (ts : List Token) : List Token := ts.takeWhile (!·.isEof)

/-- The line of the first end mark.  Tokens without one end on the line of the last of them. -/
def stopLine (ts : List Token) : Position :=
  match ts.find? isEof with
  | some t => t.line
  | none => (ts.getLast?.map line).getD 1

end Token

/-- Reads a program. -/
def parse (ts : List Token) : Program :=
  Grammar.declarations (Token.stopLine ts) (Token.body ts)

end Lox
