import Lox.CommandLine

/-!
# The prompt as a session

The prompt is a loop over what is left of its input.  Here the input is cut into lines beforehand,
and the loop comes to what a session makes of them, up to the first line that is no text: what the
session writes appears between the marks, and its messages appear one after the other.
-/

namespace Lox

namespace Prompt

/-! ## Lines -/

/-- The bytes of the input are those of the lines, each of which ends with its only newline byte.
What follows the last newline byte is a line if it is not empty. -/
inductive Cut : List UInt8 → List (List UInt8) → Prop
  | nil : Cut [] []
  | last {line : List UInt8} : line ≠ [] → 10 ∉ line → Cut line [line]
  | cons {line input : List UInt8} {lines : List (List UInt8)} :
      10 ∉ line → Cut input lines → Cut (line ++ 10 :: input) ((line ++ [10]) :: lines)

/-- Cuts the input behind each newline byte. -/
def lines : List UInt8 → List (List UInt8)
  | [] => []
  | b :: bs =>
    if b = 10 then [b] :: lines bs
    else
      match lines bs with
      | [] => [[b]]
      | line :: rest => (b :: line) :: rest

/-- The lines that are cut beforehand are those of the input. -/
theorem cut_lines (input : List UInt8) : Cut input (lines input) := by
  induction input with
  | nil => exact .nil
  | cons b bs ih =>
      rw [lines]
      split
      · next hb =>
        rw [hb]
        exact .cons List.not_mem_nil ih
      · next hb =>
        have hnewline {line : List UInt8} (hline : 10 ∉ line) : 10 ∉ b :: line :=
          List.not_mem_cons_of_ne_of_not_mem (Ne.symm hb) hline
        generalize lines bs = rest at ih
        cases ih with
        | nil => exact .last (List.cons_ne_nil b []) (hnewline List.not_mem_nil)
        | last _ hline => exact .last (List.cons_ne_nil b bs) (hnewline hline)
        | cons hline hrest => exact .cons (hnewline hline) hrest

/-- Reading a line takes all of the input if no newline byte is left. -/
theorem readLine_of_last {line : List UInt8} (h : 10 ∉ line) : readLine line = (line, []) := by
  induction line with
  | nil => rfl
  | cons b bs ih =>
      obtain ⟨hb, hbs⟩ := not_or.mp (mt List.mem_cons.mpr h)
      rw [readLine, if_neg (Ne.symm hb), ih hbs]

/-- Otherwise it takes what is in front of the newline byte, and that byte. -/
theorem readLine_of_newline {line : List UInt8} (h : 10 ∉ line) (input : List UInt8) :
    readLine (line ++ 10 :: input) = (line ++ [10], input) := by
  induction line with
  | nil => rfl
  | cons b bs ih =>
      obtain ⟨hb, hbs⟩ := not_or.mp (mt List.mem_cons.mpr h)
      rw [List.cons_append, readLine, if_neg (Ne.symm hb), ih hbs]
      rfl

/-! ## Texts -/

/-- The bytes of a text. -/
def encode (text : String) : List UInt8 := text.toUTF8.data.toList

/-- A line is the text whose bytes it has. -/
theorem decode_eq_some {line : List UInt8} {text : String} :
    decode line = some text ↔ encode text = line := by
  rw [decode, String.fromUTF8?]
  constructor
  · intro h
    split at h
    · cases h
      rfl
    · cases h
  · rintro rfl
    exact dif_pos text.isValidUTF8

/-- The texts of the lines, up to the first one that is no text. -/
def texts : List (List UInt8) → List String
  | [] => []
  | line :: rest =>
    match decode line with
    | none => []
    | some text => text :: texts rest

/-- The texts are the first lines. -/
theorem texts_prefix_lines (lines : List (List UInt8)) :
    (texts lines).map encode <+: lines := by
  induction lines with
  | nil => exact List.prefix_rfl
  | cons line lines ih =>
      rw [texts]
      split
      · exact List.nil_prefix
      · next text htext =>
        rw [List.map_cons, decode_eq_some.mp htext]
        exact List.cons_prefix_cons.mpr ⟨rfl, ih⟩

/-- The line behind the texts is none. -/
theorem encode_ne_of_length_texts {lines : List (List UInt8)} {line : List UInt8}
    (h : lines[(texts lines).length]? = some line) (text : String) : encode text ≠ line := by
  induction lines with
  | nil => cases h
  | cons first lines ih =>
      rw [texts] at h
      cases hfirst : decode first with
      | some _ =>
          rw [hfirst] at h
          exact ih h
      | none =>
          rw [hfirst] at h
          cases h
          intro htext
          rw [decode_eq_some.mpr htext] at hfirst
          cases hfirst

/-! ## Reports -/

/-- The end of the prompt: the input has ended, or a line is no text. -/
def farewell (legible : Bool) : Report :=
  if legible then ⟨Report.exitSuccess, mark, ""⟩ else broken.after mark ""

theorem farewell_eq (legible : Bool) :
    farewell legible =
      { exitCode := if legible then 0 else 1
        stdout := mark
        stderr := if legible then "" else "Error: stream did not contain valid UTF-8\n" } := by
  cases legible with
  | true => rfl
  | false =>
      rw [farewell, broken, Report.after, ByteArray.append_empty]
      rfl

/-- The report on lines that were taken, in front of the last report. -/
def summary (steps : List Step) (last : Report) : Report :=
  steps.foldr (fun step report => report.after (mark ++ step.written) step.verdict.complaint) last

theorem summary_eq (steps : List Step) (last : Report) :
    summary steps last =
      { exitCode := last.exitCode
        stdout := steps.foldr (fun step out => mark ++ step.written ++ out) last.stdout
        stderr := String.join (steps.filterMap fun step =>
          step.verdict.message?.map (· ++ "\n")) ++ last.stderr } := by
  induction steps with
  | nil => exact congrArg (Report.mk _ _) String.empty_append.symm
  | cons step steps ih =>
      have hstep : summary (step :: steps) last =
          (summary steps last).after (mark ++ step.written) step.verdict.complaint := rfl
      rw [hstep, ih, Report.after, Verdict.complaint]
      cases hmessage : step.verdict.message?.map (· ++ "\n") with
      | none =>
          simp only [List.filterMap_cons, hmessage]
          exact congrArg (Report.mk _ _) String.empty_append
      | some message =>
          simp only [List.filterMap_cons, hmessage, String.join_cons, String.append_assoc]
          rfl

/-! ## The loop -/

section

variable {clock : Nat → Number} {fuel : Nat} {session : Session} {line : List UInt8}
  {lines : List (List UInt8)}

/-- The report on the lines that a session takes, up to the first one that is no text. -/
def report (clock : Nat → Number) (fuel : Nat) (session : Session) (lines : List (List UInt8)) :
    Report :=
  summary (session.evalAll clock fuel (texts lines))
    (farewell ((texts lines).length = lines.length))

/-- No line that the session takes runs out of fuel. -/
def Ends (clock : Nat → Number) (fuel : Nat) (session : Session) (lines : List (List UInt8)) :
    Prop :=
  ∀ step ∈ session.evalAll clock fuel (texts lines), step.verdict ≠ .outOfFuel

/-- A line that is no text ends the report. -/
theorem report_of_broken (h : decode line = none) :
    report clock fuel session (line :: lines) = broken.after mark "" := by
  rw [report, texts, h]
  rfl

/-- A line that is a text is reported in front of the other lines, with what the session makes of
it. -/
theorem report_cons {text : String} (h : decode line = some text) :
    report clock fuel session (line :: lines) =
      (report clock fuel (session.eval clock fuel text).session lines).after
        (mark ++ (session.eval clock fuel text).written)
        (session.eval clock fuel text).verdict.complaint := by
  simp only [report, texts, h, Session.evalAll, List.length_cons, Nat.add_right_cancel_iff, summary,
    List.foldr_cons]

/-- One round of the loop, if the other rounds are known. -/
theorem run_eq_of_readLine {input rest : List UInt8} (hread : readLine input = (line, rest))
    (hline : line ≠ [])
    (hrest : ∀ session, Ends clock fuel session lines →
      run clock fuel session rest = some (report clock fuel session lines))
    (hends : Ends clock fuel session (line :: lines)) :
    run clock fuel session input = some (report clock fuel session (line :: lines)) := by
  rw [run, hread]
  simp only [hline, if_false, reply]
  cases htext : decode line with
  | none => exact congrArg some (report_of_broken htext).symm
  | some text =>
      rw [Ends, texts, htext] at hends
      obtain ⟨hend, hends⟩ := List.forall_mem_cons.mp hends
      rw [report_cons htext, Option.map_some]
      dsimp only
      split
      · next hfuel => exact absurd hfuel hend
      · rw [hrest _ hends, Option.map_some]

/-- The loop takes the lines of its input in turn. -/
theorem Cut.run_eq {input : List UInt8} (h : Cut input lines) (session : Session)
    (hends : Ends clock fuel session lines) :
    run clock fuel session input = some (report clock fuel session lines) := by
  induction h generalizing session with
  | nil => rw [run]; rfl
  | last hline hnewline =>
      refine run_eq_of_readLine (readLine_of_last hnewline) hline (fun session _ => ?_) hends
      rw [run]
      rfl
  | cons hnewline _ ih =>
      refine run_eq_of_readLine (readLine_of_newline hnewline _) ?_ ih hends
      exact List.append_ne_nil_of_right_ne_nil _ (List.cons_ne_nil 10 [])

end

end Prompt

open Prompt

/-- The prompt refines a session.  Its input is cut behind each newline byte, and the session takes
the texts of the lines up to the first one that is no text.  If the session ends on each of them,
standard output is what it writes for each line behind a mark, and one mark more; standard error is
its messages in order, each with a newline, and the error that ends the run if there was a line that
is no text; and the exit code tells whether there was one. -/
theorem prompt_refines_session (clock : Nat → Number) (fuel : Nat)
    (read : String → Except SystemError ByteArray) (stdin : List UInt8)
    (hends : ∀ step ∈ (Session.start none).evalAll clock fuel (texts (lines stdin)),
      step.verdict ≠ .outOfFuel) :
    let lines := lines stdin
    let texts := texts lines
    let steps := (Session.start none).evalAll clock fuel texts
    Cut stdin lines ∧
      (texts.map encode <+: lines ∧
        ∀ line, lines[texts.length]? = some line → ∀ text, encode text ≠ line) ∧
      CommandLine.run clock fuel [] read stdin = some
        { exitCode := if texts.length = lines.length then 0 else 1
          stdout := steps.foldr (fun step out => "> ".toUTF8 ++ step.written ++ out) "> ".toUTF8
          stderr := String.join (steps.filterMap fun step =>
              step.verdict.message?.map (· ++ "\n")) ++
            if texts.length = lines.length then ""
            else "Error: stream did not contain valid UTF-8\n" } := by
  intro lines texts steps
  refine ⟨cut_lines stdin, ⟨texts_prefix_lines _, fun line => encode_ne_of_length_texts⟩, ?_⟩
  rw [CommandLine.run, (cut_lines stdin).run_eq _ hends, report, summary_eq, farewell_eq]
  simp only [decide_eq_true_iff]
  rfl

/-- The lines are one that prints, an empty one, one with a mistake and one that fails, and then one
that is no text.  What stands behind that one is not read. -/
theorem prompt_refines_session_broken :
    let stdin := "var a = 1; print a;\n\nvar b\nprint b;\n".toUTF8.data.toList ++
      [112, 255, 10] ++ "print a;".toUTF8.data.toList
    (∀ step ∈ (Session.start none).evalAll (fun _ => ⟨0⟩) 20 (texts (lines stdin)),
      step.verdict ≠ .outOfFuel) ∧
    CommandLine.run (fun _ => ⟨0⟩) 20 [] (fun _ => .error .notFound) stdin = some
      { exitCode := 1
        stdout := "> 1\n> > > > ".toUTF8
        stderr := "[line 2] Error at end: expected ';' after variable declaration\n" ++
          "undefined variable 'b'\n[line 1]\nError: stream did not contain valid UTF-8\n" } := by
  intro stdin
  have hends : ∀ step ∈ (Session.start none).evalAll (fun _ => ⟨0⟩) 20 (texts (lines stdin)),
      step.verdict ≠ .outOfFuel := by
    decide +kernel
  obtain ⟨-, -, hrun⟩ := prompt_refines_session _ _ (fun _ => .error .notFound) stdin hends
  refine ⟨hends, hrun.trans ?_⟩
  rw [Option.some_inj, Report.mk.injEq]
  exact ⟨by decide +kernel, by decide +kernel, by decide +kernel⟩

end Lox
