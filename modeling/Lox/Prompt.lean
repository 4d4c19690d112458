import Lox.Report

/-!
# The prompt

The prompt shows its mark, takes a line, and goes on until the input ends.  All lines belong to one
session.
-/

namespace Lox

namespace Prompt

/-- What is shown before each line is read. -/
def mark : ByteArray := "> ".toUTF8

/-- Reads up to the next newline byte, or to the end of the input if there is none: the bytes read,
and those that are left. -/
def readLine : List UInt8 → List UInt8 × List UInt8
  | [] => ([], [])
  | b :: bs =>
    if b = 10 then ([b], bs)
    else
      let read := readLine bs
      (b :: read.1, read.2)

theorem readLine_append (bs : List UInt8) : (readLine bs).1 ++ (readLine bs).2 = bs := by
  induction bs with
  | nil => rfl
  | cons b bs ih =>
    unfold readLine
    split
    · rfl
    · exact congrArg (List.cons b) ih

theorem length_readLine_lt {input : List UInt8} (h : (readLine input).1 ≠ []) :
    (readLine input).2.length < input.length := by
  have sum := congrArg List.length (readLine_append input)
  have positive := List.length_pos_iff.2 h
  rw [List.length_append] at sum
  omega

/-- The text of a line, if it is text at all. -/
def decode (line : List UInt8) : Option String := String.fromUTF8? ⟨line.toArray⟩

/-- The report of a prompt that ends at a line that is no text. -/
def broken : Report := ⟨Report.exitFailure, .empty, "Error: " ++ Report.notText ++ "\n"⟩

/-- Takes one line, if it is text. -/
def reply (clock : Nat → Number) (fuel : Nat) (session : Session) (line : List UInt8) :
    Option Step :=
  (decode line).map (session.eval clock fuel)

/-- Shows the mark, reads a line and takes it, until nothing is left to read.  There is no report if
a line runs out of fuel. -/
def run (clock : Nat → Number) (fuel : Nat) (session : Session) (input : List UInt8) :
    Option Report :=
  let read := readLine input
  if read.1 = [] then some ⟨Report.exitSuccess, mark, ""⟩
  else
    match reply clock fuel session read.1 with
    | none => some (broken.after mark "")
    | some step =>
      match step.verdict with
      | .outOfFuel => none
      | verdict =>
        (run clock fuel step.session read.2).map
          (·.after (mark ++ step.written) verdict.complaint)
termination_by input.length
decreasing_by exact length_readLine_lt ‹_›

end Prompt

end Lox
