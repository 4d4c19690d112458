import Lox.Eval
import Lox.Grammar.Program
import Lox.Scan

/-!
# Sessions

A session takes one source after the other.  A source with mistakes is rejected and runs nothing;
what the others define stays, also when they fail.
-/

namespace Lox

structure Session where
  lexicon : Lexicon
  state : State

/-- What became of a source. -/
inductive Verdict
  | finished
  | rejected (diagnostics : List Diagnostic)
  | failed (failure : Failure)
  | outOfFuel
deriving DecidableEq

/-- The texts of diagnostics, a line for each. -/
def Diagnostic.messages (ds : List Diagnostic) : String :=
  "\n".intercalate (ds.map Diagnostic.message)

/-- The message for the user, if there is one. -/
def Verdict.message? : Verdict → Option String
  | finished | outOfFuel => none
  | rejected ds => some (Diagnostic.messages ds)
  | failed e => some e.message

/-- One source taken by a session. -/
structure Step where
  verdict : Verdict
  written : ByteArray
  session : Session

namespace Session

/-- A session before its first source. -/
def start (room : Option Nat) : Session :=
  let (clockName, lexicon) := Lexicon.reserved.intern "clock"
  ⟨lexicon, .initial clockName room⟩

/-- The diagnostics of both passes by line; on one line those of the scan come first. -/
def merged (scanned parsed : List Diagnostic) : List Diagnostic :=
  (scanned ++ parsed).mergeSort fun a b => a.line ≤ b.line

/-- Hands over the output of a finished source. -/
def close (lexicon : Lexicon) (verdict : Verdict) (state : State) : Step :=
  let (written, output) := state.output.taken
  ⟨verdict, written, ⟨lexicon, { state with output }⟩⟩

/-- Takes a source. -/
def eval (clock : Nat → Number) (fuel : Nat) (session : Session) (source : String) : Step :=
  let scanned := scan session.lexicon source
  let program := parse scanned.tokens
  let lexicon := scanned.lexicon
  match merged scanned.diagnostics program.diagnostics with
  | [] =>
    match run clock fuel program.statements session.state with
    | .done _ state => close lexicon .finished state
    | .failed e state => close lexicon (.failed e) state
    | .outOfFuel => close lexicon .outOfFuel session.state
  | ds => close lexicon (.rejected ds) session.state

/-- Takes sources in turn. -/
def evalAll (clock : Nat → Number) (fuel : Nat) (session : Session) : List String → List Step
  | [] => []
  | source :: rest =>
    let step := session.eval clock fuel source
    step :: evalAll clock fuel step.session rest

end Session

end Lox
