import Lox.Proofs.Session.History

/-!
# Control flow stays inside

A `break` ends a loop and a `return` ends a call, and neither goes any further.  In a program that
is accepted, no statement at the top finishes with one of them, so that a run which finishes has
executed all statements, and no body of a function finishes with a `break`, also if the function
was declared by an earlier source.
-/

namespace Lox

/-- From the first program, in the first state, the run gets to where the second one is left to be
executed in the second state.  All statements before it have finished normally. -/
inductive Proceeds (clock : Nat → Number) :
    Nat → List Stmt → State → Nat → List Stmt → State → Prop
  | refl {n : Nat} {ss : List Stmt} {s : State} : Proceeds clock n ss s n ss s
  | step {n n' : Nat} {st : Stmt} {ss rest : List Stmt} {s s' s'' : State} :
      exec clock n globals st s = .done .normal s' → Proceeds clock n ss s' n' rest s'' →
      Proceeds clock (n + 1) (st :: ss) s n' rest s''

section

variable {T : Set Token} {clock : Nat → Number} {fuel : Nat} {program : List Stmt} {s : State}

/-- What is left of a legal program is legal. -/
theorem Proceeds.legal {n : Nat} {rest : List Stmt} {s' : State}
    (h : Proceeds clock fuel program s n rest s') (hprogram : ∀ st ∈ program, st.Legal T {})
    (hs : s.store.Legal T) : (∀ st ∈ rest, st.Legal T {}) ∧ s'.store.Legal T := by
  induction h with
  | refl => exact ⟨hprogram, hs⟩
  | step hnormal _ ih =>
      obtain ⟨hst, hss⟩ := List.forall_mem_cons.mp hprogram
      exact ih hss (hst.of_done hs hnormal).2

/-- Where nothing is to be ended, flow is normal. -/
theorem Flow.Legal.eq_normal {flow : Flow} (h : flow.Legal T {}) : flow = .normal := by
  cases flow with
  | normal => rfl
  | break_ => cases h
  | return_ v => cases h.1

/-- A run of a legal program that is done has got to its end. -/
theorem proceeds_of_done {flow : Flow} {s' : State} (hprogram : ∀ st ∈ program, st.Legal T {})
    (hs : s.store.Legal T) (h : execAll clock fuel globals program s = .done flow s') :
    ∃ n, Proceeds clock fuel program s n [] s' := by
  induction program generalizing fuel s with
  | nil =>
      cases fuel with
      | zero => cases h
      | succ fuel =>
          cases h
          exact ⟨fuel + 1, .refl⟩
  | cons st ss ih =>
      cases fuel with
      | zero => cases h
      | succ fuel =>
          obtain ⟨hst, hss⟩ := List.forall_mem_cons.mp hprogram
          obtain ⟨first, s₁, hfirst, h⟩ := Action.bind_eq_done.mp h
          obtain ⟨hflow, hs₁⟩ := hst.of_done hs hfirst
          obtain rfl := hflow.eq_normal
          obtain ⟨n, hrest⟩ := ih hss hs₁ h
          exact ⟨n, .step hfirst hrest⟩

end

/-- In a session of any sources, let the next one be accepted.  Then no statement at the top of it
finishes otherwise than normally; if the run finishes, it has executed all of them; and no function
that is called in the course of the run has a body that finishes with a `break`. -/
theorem control_flow_stays_inside (clock : Nat → Number) (fuel : Nat) (room : Option Nat)
    (earlier : List String) (source : String)
    (haccepts : ((Session.start room).after clock fuel earlier).Accepts source) :
    let session := (Session.start room).after clock fuel earlier
    let scanned := scan session.lexicon source
    let program := (parse scanned.tokens).statements
    (∀ n st rest s flow s', Proceeds clock fuel program session.state (n + 1) (st :: rest) s →
      exec clock n globals st s = .done flow s' → flow = .normal) ∧
    ((session.eval clock fuel source).verdict = .finished →
      ∃ n s, Proceeds clock fuel program session.state n [] s ∧
        session.eval clock fuel source = Session.close scanned.lexicon .finished s) ∧
    (∀ n f args s i body s' s'',
      During clock ⟨fuel, .execAll globals program, session.state⟩ ⟨n + 1, .call f args, s⟩ →
      Starts clock ⟨n + 1, .call f args, s⟩ ⟨n, .execAll i body, s'⟩ →
      execAll clock n i body s' ≠ .done .break_ s'') := by
  intro session scanned program
  have hs := (Session.legal_after clock fuel room earlier).mono
    (Session.tokens_subset earlier source)
  have hprogram := legal_parse haccepts.2 fun t => Session.mem_tokens haccepts
  refine ⟨?_, ?_, ?_⟩
  · intro n st rest s flow s' hproceeds hexec
    obtain ⟨hrest, hs⟩ := hproceeds.legal hprogram hs
    exact ((hrest st (List.mem_cons_self ..)).of_done hs hexec).1.eq_normal
  · intro hfinished
    obtain ⟨s, hrun, heval⟩ := haccepts.run_eq_done hfinished
    obtain ⟨flow, s₁, hexec, ⟨⟩⟩ := Action.bind_eq_done.mp hrun
    obtain ⟨n, hproceeds⟩ := proceeds_of_done hprogram hs hexec
    exact ⟨n, s, hproceeds, heval⟩
  · intro n f args s i body s' s'' hduring hstarts
    have hstart : Moment.Legal _ ⟨fuel, .execAll globals program, session.state⟩ :=
      ⟨⟨{}, hprogram⟩, hs⟩
    exact (hduring.legal hstart).ne_break hstarts

/-- A function with a loop in it, called from a loop: between its declaration and the call, one
source is rejected and another one fails. -/
theorem control_flow_stays_inside_loops :
    let clock : Nat → Number := fun _ => ⟨0⟩
    let earlier := ["fun f() \x7b while (true) break; \x7d", "f(;", "x;"]
    let session := (Session.start none).after clock 30 earlier
    let scanned := scan session.lexicon "while (true) \x7b f(); break; \x7d"
    let program := (parse scanned.tokens).statements
    ∀ n f args s i body s' s'',
      During clock ⟨30, .execAll globals program, session.state⟩ ⟨n + 1, .call f args, s⟩ →
      Starts clock ⟨n + 1, .call f args, s⟩ ⟨n, .execAll i body, s'⟩ →
      execAll clock n i body s' ≠ .done .break_ s'' :=
  (control_flow_stays_inside (fun _ => ⟨0⟩) 30 none _ _ ⟨by decide +kernel, by decide +kernel⟩).2.2

end Lox
