import Lox.Proofs.Grammar.Completeness
import Lox.Proofs.Grammar.Independence
import Lox.Proofs.Run.Moved
import Lox.Proofs.Run.Sequence
import Lox.Proofs.Scan.Joining
import Lox.Proofs.Session.History

/-!
# One source or two

It does not matter whether a session takes a program as one source or cuts it at the end of a line
and takes it as two, if the session accepts both parts.  Scanning, reading and running all go from
one part to the other: the second part is read with its lines moved, and run from where the first
part ends.
-/

namespace Lox

/-! ## Reading -/

section

variable {ts us : List Token}

/-- Tokens that are read without a report can be read one after the other. -/
theorem parse_append {vs : List Token} (hts : (parse ts).diagnostics = [])
    (hus : (parse us).diagnostics = []) (hvs : Token.body vs = Token.body ts ++ Token.body us) :
    parse vs = ⟨(parse ts).statements ++ (parse us).statements, []⟩ := by
  obtain ⟨first, hfirst, heq⟩ := exists_derives_of_parse hts
  obtain ⟨second, hsecond, heq'⟩ := exists_derives_of_parse hus
  rw [parse, hvs, (hfirst.append hsecond).declarations_eq, heq, heq', List.map_append]

end

namespace Session

/-- The program of a source. -/
def program (session : Session) (source : String) : List Stmt :=
  (parse (scan session.lexicon source).tokens).statements

variable {session other : Session} {first second source : String}

/-- Whether a source is accepted does not depend on the names met before. -/
theorem Accepts.of_proper (h : session.Accepts source) (hproper : session.lexicon.Proper)
    (hother : other.lexicon.Proper) : other.Accepts source := by
  obtain ⟨hscan, hparse⟩ := h
  obtain ⟨f, htokens⟩ := exists_tokens_scan_eq hproper hother source
  refine ⟨?_, ?_⟩
  · rw [diagnostics_scan_eq_nil hother]
    exact (diagnostics_scan_eq_nil hproper).mp hscan
  · rw [htokens, parse_rename, hparse]
    rfl

/-- Two sources that are accepted are accepted as one, and the program of both together is that of
the first followed by that of the second with its lines moved. -/
theorem Accepts.append (hproper : session.lexicon.Proper) (hend : first.toList.getLast? = some '\n')
    (hfirst : session.Accepts first) (hsecond : session.Accepts second)
    (hother : other.lexicon = (scan session.lexicon first).lexicon) :
    session.Accepts (first ++ second) ∧ other.Accepts second ∧
      session.program (first ++ second) = session.program first ++
        (other.program second).map (Stmt.rename id (· + .ofNat (lineCount first))) := by
  have hproper' : other.lexicon.Proper := by
    rw [hother, scan, lexicon_scanPieces]
    exact hproper.reading _
  have haccepts : other.Accepts second := hsecond.of_proper hproper hproper'
  have hmoved := parse_rename id (· + .ofNat (lineCount first)) (scan other.lexicon second).tokens
  rw [haccepts.2, List.map_nil] at hmoved
  have hbody := body_scan_append hproper hend hfirst.1 second
  rw [← Token.body_rename, ← hother] at hbody
  have hparse := parse_append hfirst.2 (by rw [hmoved]) hbody
  refine ⟨⟨?_, by rw [hparse]⟩, haccepts, ?_⟩
  · rw [diagnostics_scan_eq_nil hproper, pieces_toList_append hproper hend hfirst.1,
      List.forall_mem_append]
    exact ⟨(diagnostics_scan_eq_nil hproper).mp hfirst.1,
      (diagnostics_scan_eq_nil hproper).mp hsecond.1⟩
  · rw [program, hparse, hmoved]
    rfl

end Session

/-! ## Taking sources -/

namespace Session

variable {clock : Nat → Number} {session : Session} {source : String} {step : Step}

/-- This is what becomes of the source, given enough fuel. -/
def Takes (clock : Nat → Number) (session : Session) (source : String) (step : Step) : Prop :=
  step.verdict ≠ .outOfFuel ∧ ∃ fuel, session.eval clock fuel source = step

/-- The step that an outcome makes.  Without enough fuel there is none. -/
inductive Concludes (lexicon : Lexicon) : Outcome Flow → Step → Prop
  | finished {flow : Flow} {s : State} :
      Concludes lexicon (.done flow s) (close lexicon .finished s)
  | failed {e : Failure} {s : State} :
      Concludes lexicon (.failed e s) (close lexicon (.failed e) s)

/-- What becomes of an accepted source is what its program yields. -/
theorem Accepts.takes_iff (h : session.Accepts source) :
    session.Takes clock source step ↔
      ∃ o, Yields clock globals (session.program source) session.state o ∧
        Concludes (scan session.lexicon source).lexicon o step := by
  have heval (fuel : Nat) : session.eval clock fuel source =
      match execAll clock fuel globals (session.program source) session.state with
      | .done _ s => close (scan session.lexicon source).lexicon .finished s
      | .failed e s => close (scan session.lexicon source).lexicon (.failed e) s
      | .outOfFuel => close (scan session.lexicon source).lexicon .outOfFuel session.state := by
    rw [h.eval_eq, run, Action.bind_apply, program]
    cases execAll clock fuel globals _ session.state <;> rfl
  constructor
  · rintro ⟨hne, fuel, rfl⟩
    rw [heval] at hne ⊢
    cases ho : execAll clock fuel globals (session.program source) session.state with
    | done flow s => exact ⟨.done flow s, ⟨nofun, fuel, ho⟩, .finished⟩
    | failed e s => exact ⟨.failed e s, ⟨nofun, fuel, ho⟩, .failed⟩
    | outOfFuel =>
        rw [ho] at hne
        exact absurd rfl hne
  · rintro ⟨o, ⟨-, fuel, ho⟩, hstep⟩
    cases hstep with
    | finished =>
        refine ⟨nofun, fuel, ?_⟩
        rw [heval, ho]
    | failed =>
        refine ⟨nofun, fuel, ?_⟩
        rw [heval, ho]

theorem Accepts.exists_takes_iff (h : session.Accepts source) :
    (∃ step, session.Takes clock source step) ↔
      ∃ o, Yields clock globals (session.program source) session.state o := by
  constructor
  · rintro ⟨step, hstep⟩
    obtain ⟨o, ho, -⟩ := h.takes_iff.mp hstep
    exact ⟨o, ho⟩
  · rintro ⟨o, ho⟩
    cases o with
    | done flow s => exact ⟨_, h.takes_iff.mpr ⟨_, ho, .finished⟩⟩
    | failed e s => exact ⟨_, h.takes_iff.mpr ⟨_, ho, .failed⟩⟩
    | outOfFuel => exact absurd rfl ho.1

end Session

/-- How the verdict on a source may change when its lines are moved: a fault stays the same fault,
and may be blamed on a line that was moved. -/
inductive Verdict.Moved (k : Nat) : Verdict → Verdict → Prop
  | finished : Moved k .finished .finished
  | fault {l l' : Position} {e : Fault} :
      l' = l ∨ l' = l + .ofNat k → Moved k (.failed (.fault l e)) (.failed (.fault l' e))
  | outputRefused : Moved k (.failed .outputRefused) (.failed .outputRefused)

/-- What a source comes to, by what its two parts come to: the lines of the second part, whose
program is given, are moved. -/
structure Step.Joins (k : Nat) (program : List Stmt) (first second whole : Step) : Prop where
  verdict : second.verdict.Moved k whole.verdict
  written : whole.written = first.written ++ second.written
  lexicon : whole.session.lexicon = second.session.lexicon
  /-- The states are the same up to lines in the bodies of functions which the second part
  declares. -/
  state : second.session.state.Like (.moved k program) .empty whole.session.state

section

variable {clock : Nat → Number} {k : Nat} {program : List Stmt}

/-- Where the first part has handed over its output, the second part runs as it does in one go. -/
theorem like_execAll_moved (n : Nat) (s : State) :
    (execAll clock n globals program { s with output := s.output.taken.2 }).Like
      (.moved k program) s.output.written s.store.frames.size (Flow.Like (.moved k program))
      (execAll clock n globals (program.map (Stmt.rename id (· + .ofNat k))) s) := by
  have hstart : State.Like (.moved k program) s.output.written
      { s with output := s.output.taken.2 } s :=
    ⟨s.store.like_moved, rfl, ByteArray.append_empty.symm, rfl⟩
  refine like_execAll n ?_ trivial hstart
  refine List.forall₂_map_right_iff.mpr (List.forall₂_same.mpr fun st hst => ?_)
  exact .inr ⟨rfl, fun body hbody => ⟨st, hst, hbody⟩⟩

/-- With enough fuel for one of them there is enough fuel for both. -/
theorem exists_yields_moved (s : State) :
    (∃ o, Yields clock globals (program.map (Stmt.rename id (· + .ofNat k))) s o) ↔
      ∃ o, Yields clock globals program { s with output := s.output.taken.2 } o := by
  rw [exists_yields_iff, exists_yields_iff]
  exact exists_congr fun n => not_congr (like_execAll_moved n s).eq_outOfFuel_iff.symm

theorem Yields.like_moved {s : State} {o o' : Outcome Flow}
    (h : Yields clock globals program { s with output := s.output.taken.2 } o)
    (h' : Yields clock globals (program.map (Stmt.rename id (· + .ofNat k))) s o') :
    o.Like (.moved k program) s.output.written s.store.frames.size
      (Flow.Like (.moved k program)) o' := by
  obtain ⟨n, hn⟩ := h.exec_eq
  obtain ⟨m, hm⟩ := h'.exec_eq
  have hlike := @like_execAll_moved clock k program (max n m) s
  rwa [hn _ (Nat.le_max_left n m), hm _ (Nat.le_max_right n m)] at hlike

/-- Outcomes that are alike make steps that join. -/
theorem Outcome.Like.joins {o o' : Outcome Flow} {n : Nat} {value : Nat → Flow → Flow → Prop}
    {lexicon : Lexicon} {first second whole : Step}
    (h : o.Like (.moved k program) first.written n value o')
    (hsecond : Session.Concludes lexicon o second) (hwhole : Session.Concludes lexicon o' whole) :
    Step.Joins k program first second whole := by
  cases h with
  | outOfFuel => cases hsecond
  | done _ hs _ =>
      cases hsecond
      cases hwhole
      exact ⟨.finished, hs.written_eq, rfl, hs.store, hs.room_eq, rfl, hs.readings_eq⟩
  | failed he hs _ =>
      cases hsecond
      cases hwhole
      refine ⟨?_, hs.written_eq, rfl, hs.store, hs.room_eq, rfl, hs.readings_eq⟩
      rcases he.of_moved with ⟨l, l', e, rfl, rfl, hl⟩ | ⟨rfl, rfl⟩
      · exact .fault hl
      · exact .outputRefused

end

/-- A session that accepts two sources, of which the first ends with a newline, accepts both
together as one source.  If the first source finishes, the one source ends exactly if the second
source ends after the first, and comes to what they come to.  If the first source fails, so does the
one source, with the same failure, output and state. -/
theorem taking_one_source_or_two (clock : Nat → Number) (session : Session) (names : List String)
    (hlexicon : session.lexicon = Lexicon.reserved.knowing names) (first second : String)
    (hend : first.toList.getLast? = some '\n') (hfirst : session.Accepts first)
    (hsecond : session.Accepts second) :
    session.Accepts (first ++ second) ∧
    ∀ step, session.Takes clock first step →
      (step.verdict = .finished →
        ((∃ whole, session.Takes clock (first ++ second) whole) ↔
          ∃ next, step.session.Takes clock second next) ∧
        ∀ next whole, step.session.Takes clock second next →
          session.Takes clock (first ++ second) whole →
          Step.Joins (lineCount first) (step.session.program second) step next whole) ∧
      ∀ e, step.verdict = .failed e →
        (∃ whole, session.Takes clock (first ++ second) whole) ∧
        ∀ whole, session.Takes clock (first ++ second) whole →
          whole.verdict = .failed e ∧ whole.written = step.written ∧
            whole.session.state = step.session.state := by
  have hproper : session.lexicon.Proper := hlexicon ▸ Lexicon.proper_reserved.knowing names
  have happend (other : Session) := @Session.Accepts.append session other first second hproper hend
    hfirst hsecond
  have hwhole := (happend ⟨_, session.state⟩ rfl).1
  refine ⟨hwhole, fun step hstep => ?_⟩
  obtain ⟨o, ho, hstep⟩ := hfirst.takes_iff.mp hstep
  cases hstep with
  | @finished flow s =>
      refine ⟨fun _ => ?_, nofun⟩
      obtain rfl := ho.eq_normal (legal_parse hfirst.2 fun _ _ => Set.mem_univ _)
      let later := (Session.close (scan session.lexicon first).lexicon .finished s).session
      obtain ⟨-, hnext, hprogram⟩ := happend later rfl
      have hyields (o : Outcome Flow) :
          Yields clock globals (session.program (first ++ second)) session.state o ↔
            Yields clock globals
              ((later.program second).map (Stmt.rename id (· + .ofNat (lineCount first)))) s o := by
        rw [hprogram]
        exact yields_append_iff ho
      constructor
      · rw [hwhole.exists_takes_iff, hnext.exists_takes_iff]
        simp only [hyields]
        exact exists_yields_moved s
      · intro next whole htakes htakes'
        obtain ⟨o, ho, hconcludes⟩ := hnext.takes_iff.mp htakes
        obtain ⟨o', ho', hconcludes'⟩ := hwhole.takes_iff.mp htakes'
        rw [lexicon_scan_append hproper hend hfirst.1] at hconcludes'
        have hlike := ho.like_moved ((hyields o').mp ho')
        exact hlike.joins hconcludes hconcludes'
  | @failed e s =>
      refine ⟨nofun, ?_⟩
      rintro _ ⟨⟩
      have hfailed : Yields clock globals (session.program (first ++ second)) session.state
          (.failed e s) := by
        rw [(happend ⟨_, session.state⟩ rfl).2.2]
        exact ho.append_failed
      refine ⟨⟨_, hwhole.takes_iff.mpr ⟨_, hfailed, .failed⟩⟩, fun whole htakes => ?_⟩
      obtain ⟨o, ho, hconcludes⟩ := hwhole.takes_iff.mp htakes
      obtain rfl := ho.unique hfailed
      cases hconcludes
      exact ⟨rfl, rfl, rfl⟩

/-- A comment at the end of the first source does not reach into the second one, and a fault on the
second line of the second source is one on the third line of both together. -/
theorem taking_one_source_or_two_with_fault :
    ∃ step next whole : Step,
      (Session.start none).Takes (fun _ => ⟨0⟩) "print nil; // note\n" step ∧
      step.verdict = .finished ∧
      step.session.Takes (fun _ => ⟨0⟩) "fun f() \x7b\n-nil; \x7d f();" next ∧
      next.verdict = .failed (.fault 2 .numberOperand) ∧
      (Session.start none).Takes (fun _ => ⟨0⟩)
        ("print nil; // note\n" ++ "fun f() \x7b\n-nil; \x7d f();") whole ∧
      whole.verdict = .failed (.fault 3 .numberOperand) ∧
      Step.Joins (lineCount "print nil; // note\n")
        (step.session.program "fun f() \x7b\n-nil; \x7d f();") step next whole := by
  have hstep : (Session.eval (fun _ => ⟨0⟩) 20 (Session.start none)
      "print nil; // note\n").verdict = .finished := by decide +kernel
  have hnext : (Session.eval (fun _ => ⟨0⟩) 20 (Session.eval (fun _ => ⟨0⟩) 20 (Session.start none)
      "print nil; // note\n").session "fun f() \x7b\n-nil; \x7d f();").verdict =
        .failed (.fault 2 .numberOperand) := by decide +kernel
  have hwhole : (Session.eval (fun _ => ⟨0⟩) 20 (Session.start none)
      ("print nil; // note\n" ++ "fun f() \x7b\n-nil; \x7d f();")).verdict =
        .failed (.fault 3 .numberOperand) := by decide +kernel
  have takes {session : Session} {source : String}
      (h : (session.eval (fun _ => ⟨0⟩) 20 source).verdict ≠ .outOfFuel) :
      session.Takes (fun _ => ⟨0⟩) source (session.eval (fun _ => ⟨0⟩) 20 source) :=
    ⟨h, 20, rfl⟩
  have htakes := takes (by rw [hstep]; exact Verdict.noConfusion)
  have htakes' := takes (by rw [hnext]; exact Verdict.noConfusion)
  have htakes'' := takes (by rw [hwhole]; exact Verdict.noConfusion)
  obtain ⟨hjoins, -⟩ := (taking_one_source_or_two (fun _ => ⟨0⟩) (Session.start none) ["clock"] rfl
    "print nil; // note\n" "fun f() \x7b\n-nil; \x7d f();" (by decide +kernel)
    ⟨by decide +kernel, by decide +kernel⟩ ⟨by decide +kernel, by decide +kernel⟩).2 _ htakes
  exact ⟨_, _, _, htakes, hstep, htakes', hnext, htakes'', hwhole,
    (hjoins hstep).2 _ _ htakes' htakes''⟩

end Lox
