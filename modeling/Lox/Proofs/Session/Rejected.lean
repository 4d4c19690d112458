import Lox.Proofs.Grammar.Independence
import Lox.Proofs.Run.Spelled
import Lox.Proofs.Session.History

/-!
# Rejected sources

A rejected source runs nothing, but its names have been met, and names that are met later get other
symbols because of it.  No program can tell: the session goes on as if the source had never been
there.
-/

namespace Lox

/-! ## One source in two lexicons -/

section

variable {lexicon later : Lexicon} {source : String}

/-- The tokens of a source, with the symbols that a later lexicon has for the names. -/
theorem tokens_scan_eq (h : lexicon.Proper)
    (hlater : (scan lexicon source).lexicon.words <+: later.words) :
    (scan lexicon source).tokens =
      (scan .reserved source).tokens.map (Token.rename later.symbol id) := by
  rw [scan, lexicon_scanPieces] at hlater
  exact tokens_scanPieces_eq Lexicon.proper_reserved h 1 _ hlater

/-- A source means the same to every lexicon, up to the symbols. -/
theorem parse_scan_eq (h : lexicon.Proper)
    (hlater : (scan lexicon source).lexicon.words <+: later.words) :
    parse (scan lexicon source).tokens =
      ⟨(parse (scan .reserved source).tokens).statements.map (Stmt.rename later.symbol id),
        (parse (scan .reserved source).tokens).diagnostics⟩ := by
  rw [tokens_scan_eq h hlater, parse_rename]
  exact congrArg _ (List.map_id _)

/-- Scanning keeps the words of the lexicon. -/
theorem words_prefix_scan (lexicon : Lexicon) (source : String) :
    lexicon.words <+: (scan lexicon source).lexicon.words := by
  rw [scan, lexicon_scanPieces]
  exact lexicon.words_prefix_reading _

end

/-- What a session shows of a source. -/
def Step.shown (step : Step) : Verdict × ByteArray := (step.verdict, step.written)

namespace Session

variable {clock : Nat → Number} {fuel : Nat} {session session' : Session} {source : String}

theorem lexicon_eval :
    (session.eval clock fuel source).session.lexicon = (scan session.lexicon source).lexicon := by
  rw [eval]
  split
  · split <;> rfl
  · rfl

/-- The lexicon only grows. -/
theorem words_prefix_after (session : Session) (sources : List String) :
    session.lexicon.words <+: (session.after clock fuel sources).lexicon.words := by
  induction sources generalizing session with
  | nil => exact List.prefix_rfl
  | cons source sources ih =>
      refine List.IsPrefix.trans ?_ (ih (session.eval clock fuel source).session)
      rw [lexicon_eval]
      exact words_prefix_scan session.lexicon source

/-! ## Sessions spelled alike -/

/-- The sessions have the symbols of two lexicons, which they may still come to, and nothing else
tells them apart.  All output has been handed over. -/
structure Spelled (later later' : Lexicon) (session session' : Session) : Prop where
  proper : session.lexicon.Proper
  proper' : session'.lexicon.Proper
  like : session.state.Like (.spelled later later') .empty session'.state
  written_eq : session.state.output.written = .empty

section

variable {later later' lexicon lexicon' : Lexicon} {s s' : State}

/-- The end of a source: what was written is handed over. -/
theorem spelled_close (hproper : lexicon.Proper) (hproper' : lexicon'.Proper)
    (hs : s.Like (.spelled later later') .empty s') (verdict : Verdict) :
    (close lexicon verdict s).shown = (close lexicon' verdict s').shown ∧
      Spelled later later' (close lexicon verdict s).session
        (close lexicon' verdict s').session := by
  obtain ⟨hstore, hroom, hwritten, hreadings⟩ := hs
  rw [ByteArray.empty_append] at hwritten
  refine ⟨congrArg (verdict, ·) hwritten.symm, hproper, hproper', ?_, rfl⟩
  exact ⟨hstore, hroom, ByteArray.empty_append.symm, hreadings⟩

/-- A source comes to the same in both sessions. -/
theorem Spelled.eval (h : Spelled later later' session session')
    (hlater : (scan session.lexicon source).lexicon.words <+: later.words)
    (hlater' : (scan session'.lexicon source).lexicon.words <+: later'.words) :
    (session.eval clock fuel source).shown = (session'.eval clock fuel source).shown ∧
      Spelled later later' (session.eval clock fuel source).session
        (session'.eval clock fuel source).session := by
  obtain ⟨hproper, hproper', hlike, -⟩ := h
  have hparse := parse_scan_eq hproper hlater
  have hparse' := parse_scan_eq hproper' hlater'
  have hscan : (scan session.lexicon source).diagnostics =
      (scan session'.lexicon source).diagnostics := diagnostics_scanPieces_eq _ _ 1 _
  have hlexicon : (scan session.lexicon source).lexicon.Proper :=
    hproper.trans (words_prefix_scan _ source)
  have hlexicon' : (scan session'.lexicon source).lexicon.Proper :=
    hproper'.trans (words_prefix_scan _ source)
  rw [Session.eval, Session.eval, hparse, hparse', hscan]
  generalize parse (scan .reserved source).tokens = p
  cases merged (scan session'.lexicon source).diagnostics p.diagnostics with
  | cons d ds => exact spelled_close hlexicon hlexicon' hlike (.rejected (d :: ds))
  | nil =>
      have hrun := @like_execAll_spelled _ _ clock _ _ fuel p.statements hlike
      simp only [run, Action.bind_apply]
      generalize execAll clock fuel globals _ session.state = o,
        execAll clock fuel globals _ session'.state = o' at hrun
      cases hrun with
      | done _ hs _ => exact spelled_close hlexicon hlexicon' hs .finished
      | failed he hs _ =>
          obtain rfl := he.eq_of_spelled
          exact spelled_close hlexicon hlexicon' hs (.failed _)
      | outOfFuel => exact spelled_close hlexicon hlexicon' hlike .outOfFuel

end

/-! ## Leaving out rejected sources -/

/-- A source that is rejected writes nothing, and leaves the state as it is. -/
theorem eval_of_rejected {ds : List Diagnostic}
    (hwritten : session.state.output.written = .empty)
    (h : (session.eval clock fuel source).verdict = .rejected ds) :
    (session.eval clock fuel source).written = .empty ∧
      (session.eval clock fuel source).session.state = session.state := by
  have hnot : ¬session.Accepts source := by
    intro haccepts
    rw [haccepts.eval_eq] at h
    cases hrun : run clock fuel _ session.state <;> rw [hrun] at h <;> cases h
  obtain ⟨ds, heval⟩ := @eval_of_not_accepts clock fuel _ _ hnot
  rw [heval]
  obtain ⟨lexicon, store, ⟨written, room⟩, readings⟩ := session
  cases hwritten
  exact ⟨rfl, rfl⟩

/-- Some of the sources are left, and what became of them as the session took all of them.  Sources
may be left out only if the session rejects them. -/
inductive LeavesOut (clock : Nat → Number) (fuel : Nat) :
    Session → List String → List String → List Step → Prop
  | nil {session : Session} : LeavesOut clock fuel session [] [] []
  | keep {session : Session} {source : String} {sources left : List String} {steps : List Step} :
      LeavesOut clock fuel (session.eval clock fuel source).session sources left steps →
      LeavesOut clock fuel session (source :: sources) (source :: left)
        (session.eval clock fuel source :: steps)
  | skip {session : Session} {source : String} {sources left : List String} {steps : List Step}
      {ds : List Diagnostic} :
      (session.eval clock fuel source).verdict = .rejected ds →
      LeavesOut clock fuel (session.eval clock fuel source).session sources left steps →
      LeavesOut clock fuel session (source :: sources) left steps

section

variable {later later' : Lexicon} {sources left : List String} {steps : List Step}

/-- The session that takes the sources that are left stays like the one that takes them all.  At a
source that is left out, only the lexicon of the one goes on, and the other stays where it is. -/
theorem LeavesOut.shown_eq (h : LeavesOut clock fuel session sources left steps)
    (hs : Spelled later later' session session')
    (hlater : (session.after clock fuel sources).lexicon.words <+: later.words)
    (hlater' : (session'.after clock fuel left).lexicon.words <+: later'.words) :
    (session'.evalAll clock fuel left).map Step.shown = steps.map Step.shown := by
  induction h generalizing session' with
  | nil => rfl
  | @keep session source sources left steps _ ih =>
      have hscan := (words_prefix_after _ sources).trans hlater
      have hscan' := (words_prefix_after _ left).trans hlater'
      rw [lexicon_eval] at hscan hscan'
      obtain ⟨hshown, hs⟩ := hs.eval hscan hscan'
      rw [evalAll, List.map_cons, List.map_cons, ih hs hlater hlater', hshown]
  | @skip session source sources left steps ds hrejected _ ih =>
      refine ih ⟨?_, hs.proper', ?_, ?_⟩ hlater hlater'
      · rw [lexicon_eval]
        exact hs.proper.trans (words_prefix_scan _ source)
      · rw [(eval_of_rejected hs.written_eq hrejected).2]
        exact hs.like
      · rw [(eval_of_rejected hs.written_eq hrejected).2]
        exact hs.written_eq

end

/-- After a source, all output has been handed over. -/
theorem written_eval : (session.eval clock fuel source).session.state.output.written = .empty := by
  rw [eval]
  split
  · split <;> rfl
  · rfl

/-- Between two sources all output has been handed over. -/
theorem written_after (clock : Nat → Number) (fuel : Nat) (room : Option Nat)
    (sources : List String) :
    ((start room).after clock fuel sources).state.output.written = .empty := by
  induction sources using List.reverseRecOn with
  | nil => rfl
  | append_singleton sources source _ =>
      rw [after_concat]
      exact written_eval

theorem spelled_start {later later' : Lexicon} (room : Option Nat)
    (hlater : (start room).lexicon.words <+: later.words)
    (hlater' : (start room).lexicon.words <+: later'.words) :
    Spelled later later' (start room) (start room) := by
  have hproper : (start room).lexicon.Proper := Lexicon.proper_reserved.intern "clock"
  have hclock {later : Lexicon} (hlater : (start room).lexicon.words <+: later.words) :
      later.symbol (Lexicon.reserved.intern "clock").1 = (Lexicon.reserved.intern "clock").1 := by
    rw [Lexicon.symbol, Lexicon.name_intern]
    exact Lexicon.intern_of_prefix hlater
  exact ⟨hproper, hproper, State.like_initial room (hclock hlater) (hclock hlater'), rfl⟩

end Session

/-- Leaving out sources that are rejected changes nothing for the others: the session comes to the
same verdicts on them and writes the same.  A rejected source itself writes nothing and leaves the
state as it is, with all its frames. -/
theorem rejected_sources_leave_no_trace (clock : Nat → Number) (fuel : Nat) (room : Option Nat)
    (sources : List String) :
    (∀ left steps, Session.LeavesOut clock fuel (.start room) sources left steps →
      ((Session.start room).evalAll clock fuel left).map Step.shown = steps.map Step.shown) ∧
    ∀ source ds,
      (((Session.start room).after clock fuel sources).eval clock fuel source).verdict =
        .rejected ds →
      (((Session.start room).after clock fuel sources).eval clock fuel source).written = .empty ∧
        (((Session.start room).after clock fuel sources).eval clock fuel source).session.state =
          ((Session.start room).after clock fuel sources).state := by
  refine ⟨fun left steps h => ?_, fun source ds hrejected => ?_⟩
  · refine h.shown_eq (Session.spelled_start room ?_ ?_) List.prefix_rfl List.prefix_rfl
    · exact Session.words_prefix_after _ sources
    · exact Session.words_prefix_after _ left
  · exact Session.eval_of_rejected (Session.written_after clock fuel room sources) hrejected

/-- The names of the source in the middle are not names of the session without it, where the
variable of the last source has another symbol. -/
theorem rejected_sources_leave_no_trace_between :
    let first := (Session.start none).eval (fun _ => ⟨0⟩) 20 "var a = 1;"
    let rejected := first.session.eval (fun _ => ⟨0⟩) 20 "b c;"
    let last := rejected.session.eval (fun _ => ⟨0⟩) 20 "var d = a; print d + e;"
    rejected.verdict = .rejected [⟨1, .lexeme "c", .expectedPunct .semicolon .afterExpression⟩] ∧
      last.verdict = .failed (.fault 1 (.undefinedVariable "e")) ∧
      ((Session.start none).evalAll (fun _ => ⟨0⟩) 20
        ["var a = 1;", "var d = a; print d + e;"]).map Step.shown = [first, last].map Step.shown ∧
      rejected.written = .empty ∧ rejected.session.state = first.session.state := by
  intro first rejected last
  have hrejected : rejected.verdict =
      .rejected [⟨1, .lexeme "c", .expectedPunct .semicolon .afterExpression⟩] := by
    decide +kernel
  have htrace := (rejected_sources_leave_no_trace (fun _ => ⟨0⟩) 20 none
    ["var a = 1;", "b c;", "var d = a; print d + e;"]).1 _ _
      (.keep (.skip hrejected (.keep .nil)))
  exact ⟨hrejected, by decide +kernel, htrace,
    (rejected_sources_leave_no_trace (fun _ => ⟨0⟩) 20 none ["var a = 1;"]).2 _ _ hrejected⟩

end Lox
