import Lox.Proofs.Grammar.Soundness
import Lox.Proofs.Run.Legal
import Lox.Session
import Mathlib.Data.List.Induction

/-!
# The history of a session

What a session has taken so far shows in its store, where functions stay.  The store is legal with
respect to the tokens of all sources that were accepted, in whatever way the sources ended: a
rejected source runs nothing, and what a run has done stays also when it fails.
-/

namespace Lox

/-! ## Sources in turn -/

namespace Session

variable {clock : Nat → Number} {fuel : Nat} {session : Session} {source : String}

/-- The session after it has taken the sources. -/
def after (clock : Nat → Number) (fuel : Nat) (session : Session) (sources : List String) :
    Session :=
  sources.foldl (fun session source => (session.eval clock fuel source).session) session

/-- There is nothing to report about the source. -/
def Accepts (session : Session) (source : String) : Prop :=
  (scan session.lexicon source).diagnostics = [] ∧
    (parse (scan session.lexicon source).tokens).diagnostics = []

theorem after_concat (sources : List String) (source : String) :
    session.after clock fuel (sources ++ [source]) =
      ((session.after clock fuel sources).eval clock fuel source).session :=
  List.foldl_append

/-- There are no diagnostics of both passes together if neither pass has any. -/
theorem merged_eq_nil {scanned parsed : List Diagnostic} :
    merged scanned parsed = [] ↔ scanned = [] ∧ parsed = [] := by
  rw [← List.append_eq_nil_iff]
  constructor
  · intro h
    have hperm := List.mergeSort_perm (scanned ++ parsed) fun a b => a.line ≤ b.line
    rw [merged] at h
    rw [h] at hperm
    exact hperm.nil_eq.symm
  · intro h
    rw [merged, h, List.mergeSort_nil]

/-- What becomes of a source that is accepted. -/
theorem Accepts.eval_eq (h : session.Accepts source) :
    session.eval clock fuel source =
      match run clock fuel (parse (scan session.lexicon source).tokens).statements
          session.state with
      | .done _ state => close (scan session.lexicon source).lexicon .finished state
      | .failed e state => close (scan session.lexicon source).lexicon (.failed e) state
      | .outOfFuel => close (scan session.lexicon source).lexicon .outOfFuel session.state := by
  rw [Session.eval]
  split
  · rfl
  · next hne => exact absurd (merged_eq_nil.mpr h) hne

/-- An accepted source is finished when its run is done. -/
theorem Accepts.run_eq_done (h : session.Accepts source)
    (hfinished : (session.eval clock fuel source).verdict = .finished) :
    ∃ s, run clock fuel (parse (scan session.lexicon source).tokens).statements session.state =
        .done () s ∧
      session.eval clock fuel source = close (scan session.lexicon source).lexicon .finished s := by
  rw [h.eval_eq] at hfinished ⊢
  cases hrun : run clock fuel _ session.state with
  | done a s => exact ⟨s, rfl, rfl⟩
  | failed e s =>
      rw [hrun] at hfinished
      cases hfinished
  | outOfFuel =>
      rw [hrun] at hfinished
      cases hfinished

/-- A source that is not accepted is rejected, and changes no frame. -/
theorem eval_of_not_accepts (h : ¬session.Accepts source) :
    ∃ ds, session.eval clock fuel source =
      close (scan session.lexicon source).lexicon (.rejected ds) session.state := by
  rw [Session.eval]
  split
  · next hmerged => exact absurd (merged_eq_nil.mp hmerged) h
  · exact ⟨_, rfl⟩

end Session

/-! ## Legal programs -/

/-- A program without diagnostics is legal with respect to its tokens. -/
theorem legal_parse {ts : List Token} (hclean : (parse ts).diagnostics = []) {T : Set Token}
    (hT : ∀ t ∈ ts, t ∈ T) : ∀ s ∈ (parse ts).statements, s.Legal T {} := by
  obtain ⟨program, hd, hprogram⟩ := exists_derives_of_parse hclean
  rw [hprogram]
  refine List.forall_mem_map.mpr (hd.legal ?_)
  intro t ht
  exact hT t (List.takeWhile_subset _ ht)

/-- A legal program keeps the store legal, and fails with a legal error if it fails. -/
theorem legal_run {T : Set Token} {clock : Nat → Number} {fuel : Nat} {program : List Stmt}
    {s : State} (hprogram : ∀ st ∈ program, st.Legal T {}) (hs : s.store.Legal T) :
    (run clock fuel program s).Legal T fun _ => True := by
  refine (legal_execAll fuel hprogram hs).bind ?_
  intro _ s _ hs
  exact Action.legal_pure trivial hs

/-- The first store of a session is legal, as it holds no function body. -/
theorem legal_initial (T : Set Token) (clockName : Symbol) (room : Option Nat) :
    (State.initial clockName room).store.Legal T := by
  have hempty : Store.empty.Legal T := Store.holds_empty
  have harity : (Code.native .clock 0).Legal T := Nat.zero_le _
  exact ((hempty.newFrame none).newFunction clockName (.native .clock 0)).define _ clockName harity

/-! ## Legal sessions -/

namespace Session

variable {clock : Nat → Number} {fuel : Nat} {session : Session} {source : String}

/-- A source keeps the store legal if its tokens count, and so is the failure that it ends with. -/
theorem legal_step {T : Set Token} (hs : session.state.store.Legal T)
    (hT : session.Accepts source → ∀ t ∈ (scan session.lexicon source).tokens, t ∈ T) :
    (session.eval clock fuel source).session.state.store.Legal T ∧
      ∀ e, (session.eval clock fuel source).verdict = .failed e → e.Legal T := by
  by_cases haccepts : session.Accepts source
  · have hrun := @legal_run _ clock fuel _ _ (legal_parse haccepts.2 (hT haccepts)) hs
    rw [haccepts.eval_eq]
    cases h : run clock fuel _ session.state with
    | done a state =>
        rw [h] at hrun
        exact ⟨hrun.2, nofun⟩
    | failed e state =>
        rw [h] at hrun
        refine ⟨hrun.2, ?_⟩
        rintro _ ⟨⟩
        exact hrun.1
    | outOfFuel => exact ⟨hs, nofun⟩
  · obtain ⟨ds, heval⟩ := @eval_of_not_accepts clock fuel _ _ haccepts
    rw [heval]
    exact ⟨hs, nofun⟩

/-- The tokens of the sources that are accepted. -/
def tokens (clock : Nat → Number) (fuel : Nat) (session : Session) (sources : List String) :
    Set Token :=
  { t | ∃ before source rest, sources = before ++ source :: rest ∧
    (session.after clock fuel before).Accepts source ∧
    t ∈ (scan (session.after clock fuel before).lexicon source).tokens }

/-- The tokens of a session remain as it takes another source. -/
theorem tokens_subset (sources : List String) (source : String) :
    session.tokens clock fuel sources ⊆ session.tokens clock fuel (sources ++ [source]) := by
  rintro t ⟨before, source', rest, rfl, haccepts, ht⟩
  exact ⟨before, source', rest ++ [source], by simp, haccepts, ht⟩

/-- The tokens of an accepted source are among those of the session. -/
theorem mem_tokens {sources : List String} {t : Token}
    (haccepts : (session.after clock fuel sources).Accepts source)
    (ht : t ∈ (scan (session.after clock fuel sources).lexicon source).tokens) :
    t ∈ session.tokens clock fuel (sources ++ [source]) :=
  ⟨sources, source, [], rfl, haccepts, ht⟩

/-- The store is legal with respect to the tokens of what was accepted so far. -/
theorem legal_after (clock : Nat → Number) (fuel : Nat) (room : Option Nat)
    (sources : List String) :
    ((start room).after clock fuel sources).state.store.Legal
      ((start room).tokens clock fuel sources) := by
  induction sources using List.reverseRecOn with
  | nil => exact legal_initial _ _ room
  | append_singleton sources source ih =>
      rw [after_concat]
      refine (legal_step (ih.mono (tokens_subset sources source)) ?_).1
      intro haccepts t ht
      exact mem_tokens haccepts ht

end Session

end Lox
