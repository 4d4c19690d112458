import Lox.Proofs.Session.History

/-!
# Faults point at tokens

A run that fails with a fault names a line.  On that line, in the source that fails or in an earlier
one whose function it calls, stands a token that can be blamed for the fault.
-/

namespace Lox

/-! ## The spelling of names -/

/-- The symbol of an identifier has its spelling from the piece: the symbol of a word that is not
reserved is the name itself. -/
theorem Piece.name_of_find {p : Piece} {lexicon : Lexicon} {x : Symbol}
    (h : (p.find lexicon).1 = .token (.identifier x)) : x.name = String.ofList p.text := by
  cases p with
  | word letters =>
      have hname := lexicon.name_intern (String.ofList letters)
      rw [find] at h
      generalize lexicon.intern (String.ofList letters) = found at h hname
      obtain ⟨symbol, lexicon'⟩ := found
      cases hkeyword : symbol.keyword? with
      | none =>
          simp only [Symbol.kind, hkeyword, Option.elim_none] at h
          cases h
          exact hname
      | some k => simp [Symbol.kind, hkeyword] at h
  | _ => cases h

/-- A name is spelled as it stands in the source. -/
theorem lexeme_of_mem_scanPieces {lexicon : Lexicon} {line : Position} {ps : List Piece} {t : Token}
    {x : Symbol} (ht : t ∈ (scanPieces lexicon line ps).tokens) (hx : t.kind = .identifier x) :
    t.lexeme = x.name := by
  induction ps generalizing lexicon line with
  | nil =>
      obtain rfl := List.mem_singleton.mp ht
      cases hx
  | cons p ps ih =>
      simp only [scanPieces] at ht
      split at ht
      · exact ih ht
      · next kind hfind =>
        rcases List.mem_cons.mp ht with rfl | ht
        · obtain rfl : kind = .identifier x := hx
          exact (Piece.name_of_find hfind).symm
        · exact ih ht
      · exact ih ht

/-! ## Faults -/

/-- In a session of any sources, let a source fail with a fault on a line.  Then an accepted source,
this one or one before it, has a token on that line which can be blamed for the fault, and an
undefined variable is spelled as the token is.  A wrong number of arguments is wrong, and neither
number is above 255. -/
theorem fault_points_at_token (clock : Nat → Number) (fuel : Nat) (room : Option Nat)
    (earlier : List String) (source : String) (line : Position) (fault : Fault)
    (hfails : (((Session.start room).after clock fuel earlier).eval clock fuel source).verdict =
      .failed (.fault line fault)) :
    (∃ before culprit rest, earlier ++ [source] = before ++ culprit :: rest ∧
      ((Session.start room).after clock fuel before).Accepts culprit ∧
      ∃ t ∈ (scan ((Session.start room).after clock fuel before).lexicon culprit).tokens,
        t.line = line ∧ fault.Suspects t.kind ∧
        ∀ name, fault = .undefinedVariable name → t.lexeme = name) ∧
    ∀ expected actual, fault = .argumentCount expected actual →
      expected ≠ actual ∧ expected ≤ 255 ∧ actual ≤ 255 := by
  have hs := (Session.legal_after clock fuel room earlier).mono
    (Session.tokens_subset earlier source)
  have hlegal := (Session.legal_step hs fun haccepts t => Session.mem_tokens haccepts).2 _ hfails
  obtain ⟨⟨t, ⟨before, culprit, rest, hsources, haccepts, ht⟩, hline, hkind⟩, hcounted⟩ := hlegal
  refine ⟨⟨before, culprit, rest, hsources, haccepts, t, ht, hline, hkind, ?_⟩, ?_⟩
  · rintro name rfl
    obtain ⟨x, rfl, hx⟩ := hkind
    exact lexeme_of_mem_scanPieces ht hx
  · rintro expected actual rfl
    exact hcounted

/-- A function that negates its argument on the second line of one source fails there when the next
source calls it. -/
theorem fault_points_at_token_in_function :
    let clock : Nat → Number := fun _ => ⟨0⟩
    let earlier := ["fun f(x) \x7b\n  return -x;\n\x7d"]
    ∃ before culprit rest, earlier ++ ["f(nil);"] = before ++ culprit :: rest ∧
      ((Session.start none).after clock 30 before).Accepts culprit ∧
      ∃ t ∈ (scan ((Session.start none).after clock 30 before).lexicon culprit).tokens,
        t.line = 2 ∧ t.kind = .punct .minus := by
  obtain ⟨⟨before, culprit, rest, hsources, haccepts, t, ht, hline, hkind, -⟩, -⟩ :=
    fault_points_at_token (fun _ => ⟨0⟩) 30 none ["fun f(x) \x7b\n  return -x;\n\x7d"] "f(nil);" 2
      .numberOperand (by decide +kernel)
  exact ⟨before, culprit, rest, hsources, haccepts, t, ht, hline, hkind⟩

end Lox
