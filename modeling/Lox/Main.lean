import Lox.Clock
import Lox.CommandLine
import Std.Time.DateTime.Timestamp

/-!
# The command

Everything is decided by `CommandLine` and `Prompt`; here bytes are moved.
-/

namespace Lox.Command

/-- More than any run can use up. -/
def fuel : Nat := Nat.pow 2 60

/-- A clock that starts at the present time. -/
def now : IO (Nat → Number) := do
  let nanoseconds := (← Std.Time.Timestamp.now).toNanosecondsSinceUnixEpoch.toInt.toNat
  return ticking (nanoseconds / 1000)

def show_ (stdout : ByteArray) (stderr : String) : IO Unit := do
  let out ← IO.getStdout
  out.write stdout
  out.flush
  IO.eprint stderr

/-- Reads up to a newline, or to the end of the input. -/
partial def readLine (input : IO.FS.Stream) (line : Array UInt8) : IO (List UInt8) := do
  let bytes ← input.read 1
  match bytes.toList with
  | [] => return line.toList
  | b :: _ => if b = 10 then return (line.push b).toList else readLine input (line.push b)

partial def prompt (input : IO.FS.Stream) (session : Session) : IO Nat := do
  show_ Prompt.mark ""
  match ← readLine input #[] with
  | [] => return Report.exitSuccess
  | line =>
    match Prompt.reply (← now) fuel session line with
    | none =>
      show_ Prompt.broken.stdout Prompt.broken.stderr
      return Prompt.broken.exitCode
    | some step =>
      show_ step.written step.verdict.complaint
      prompt input step.session

/-- The number of a system error, which may come with a sign. -/
def errorCode : IO.Error → UInt32
  | .alreadyExists _ code _ | .otherError code _ | .resourceBusy code _
  | .resourceVanished code _ | .unsupportedOperation code _ | .hardwareFault code _
  | .unsatisfiedConstraints code _ | .illegalOperation code _ | .protocolError code _
  | .timeExpired code _ | .interrupted _ code _ | .noFileOrDirectory _ code _
  | .invalidArgument _ code _ | .permissionDenied _ code _ | .resourceExhausted _ code _
  | .inappropriateType _ code _ | .noSuchThing _ code _ => code
  | .unexpectedEof | .userError _ => 0

def readScript (path : String) : IO (Except SystemError ByteArray) := do
  try
    return .ok (← IO.FS.readBinFile path)
  catch e =>
    return .error (.ofCode (errorCode e).toInt32.toInt.natAbs)

def finish (report : Option Report) : IO Nat := do
  match report with
  | none => return Report.exitFailure
  | some report =>
    show_ report.stdout report.stderr
    return report.exitCode

/-- Runs the command and gives its exit code. -/
def run (args : List String) : IO Nat := do
  match args with
  | [] => prompt (← IO.getStdin) (.start none)
  | [path] => finish (CommandLine.script (← now) fuel path (← readScript path))
  | _ => finish (some CommandLine.usage)

end Lox.Command

def main (args : List String) : IO UInt32 := do
  return (← Lox.Command.run args).toUInt32
