import Lox.Prompt

/-!
# The command line

Without arguments the command is a prompt, with one it runs a script, and it takes no more.
-/

namespace Lox

/-- Why the system does not hand over a file. -/
structure SystemError where
  reason : String
  code : Nat

namespace SystemError

def notFound : SystemError := ⟨"No such file or directory", 2⟩
def permissionDenied : SystemError := ⟨"Permission denied", 13⟩
def notADirectory : SystemError := ⟨"Not a directory", 20⟩
def isDirectory : SystemError := ⟨"Is a directory", 21⟩
def nameTooLong : SystemError := ⟨"File name too long", 36⟩
def linkLoop : SystemError := ⟨"Too many levels of symbolic links", 40⟩

/-- The error that a number stands for. -/
def ofCode (code : Nat) : SystemError :=
  ([notFound, permissionDenied, notADirectory, isDirectory, nameTooLong, linkLoop].find?
    (·.code = code)).getD ⟨"Unknown error " ++ code.repr, code⟩

def message (e : SystemError) : String := e.reason ++ " (os error " ++ e.code.repr ++ ")"

end SystemError

namespace CommandLine

def usage : Report := ⟨Report.exitUsage, .empty, "Usage: tlox [script]\n"⟩

/-- The report on a file that cannot be read. -/
def unreadable (path reason : String) : Report :=
  ⟨Report.exitFailure, .empty,
    "Error: failed to read " ++ path ++ "\n\nCaused by:\n    " ++ reason ++ "\n"⟩

/-- Runs a script, given what reading its file gave. -/
def script (clock : Nat → Number) (fuel : Nat) (path : String)
    (contents : Except SystemError ByteArray) : Option Report :=
  match contents with
  | .error e => some (unreadable path e.message)
  | .ok bytes =>
    match String.fromUTF8? bytes with
    | none => some (unreadable path Report.notText)
    | some source =>
      let step := (Session.start none).eval clock fuel source
      match step.verdict with
      | .outOfFuel => none
      | verdict => some ⟨verdict.exitCode, step.written, verdict.complaint⟩

/-- Runs the command on its arguments, given the files and the standard input. -/
def run (clock : Nat → Number) (fuel : Nat) (args : List String)
    (read : String → Except SystemError ByteArray) (stdin : List UInt8) : Option Report :=
  match args with
  | [] => Prompt.run clock fuel (.start none) stdin
  | [path] => script clock fuel path (read path)
  | _ => some usage

end CommandLine

end Lox
