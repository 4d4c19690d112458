import Lox.Session

/-!
# Reports

What a run of the command leaves behind: an exit code and the bytes on the two output streams.
-/

namespace Lox

structure Report where
  exitCode : Nat
  stdout : ByteArray
  stderr : String

namespace Report

def exitSuccess : Nat := 0
def exitFailure : Nat := 1
/-- The command was called in a wrong way. -/
def exitUsage : Nat := 64
/-- The source has mistakes. -/
def exitMistake : Nat := 65
/-- The program failed. -/
def exitFault : Nat := 70

/-- The report with earlier output in front. -/
def after (r : Report) (stdout : ByteArray) (stderr : String) : Report :=
  { r with stdout := stdout ++ r.stdout, stderr := stderr ++ r.stderr }

/-- What is said about text that is not UTF-8. -/
def notText : String := "stream did not contain valid UTF-8"

end Report

/-- The message of a verdict on a line of its own. -/
def Verdict.complaint (v : Verdict) : String := (v.message?.map (· ++ "\n")).getD ""

/-- The exit code of a script that ended in this way. -/
def Verdict.exitCode : Verdict → Nat
  | finished => Report.exitSuccess
  | rejected _ => Report.exitMistake
  | failed (.fault _ _) => Report.exitFault
  | failed .outputRefused | outOfFuel => Report.exitFailure

end Lox
