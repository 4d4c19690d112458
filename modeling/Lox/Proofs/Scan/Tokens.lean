import Lox.Proofs.Scan.Lexicon
import Lox.Proofs.Scan.Tiling
import Mathlib.Data.List.Forall2

/-!
# Tokens and problems of a tiling

Scanning goes through the tiling of a source from left to right.  Some of its pieces are the texts
of tokens, some are problems, and the others are skipped; nothing else is reported and no other
token is made, except for the end mark.
-/

namespace Lox

namespace Piece

/-- Whether the piece is the text of a token. -/
def isLexeme : Piece → Bool
  | string _ | number _ _ | word _ | punct _ => true
  | _ => false

/-- The problem that the piece is. -/
def problem? : Piece → Option Problem
  | stray c => some (.strayCharacter c)
  | openString _ => some .unterminatedString
  | openComment _ => some .unterminatedComment
  | _ => none

/-- What the piece means as a token.  A word is reserved if the whole of it is, or else a name. -/
inductive Means : Piece → Kind → Prop
  | string {body : List Char} : Means (.string body) (.string (String.ofList body))
  | number {whole fraction : List Char} :
      Means (.number whole fraction) (.number (.ofDecimal (.ofParts whole fraction)))
  | punct {p : Punct} : Means (.punct p) (.punct p)
  | keyword {k : Keyword} {letters : List Char} :
      k.spelling = String.ofList letters → Means (.word letters) (.keyword k)
  | name {x : Symbol} {letters : List Char} :
      (∀ k : Keyword, k.spelling ≠ String.ofList letters) → x.name = String.ofList letters →
      Means (.word letters) (.identifier x)

variable {lexicon : Lexicon}

/-- A word means the keyword that is spelled like it, if there is one, and else a name. -/
theorem means_kind_intern (h : lexicon.Proper) (letters : List Char) :
    (word letters).Means (lexicon.intern (String.ofList letters)).1.kind := by
  have hkeyword : ∀ {k}, (lexicon.intern (String.ofList letters)).1.keyword? = some k ↔
      k.spelling = String.ofList letters := h.keyword?_intern
  have hname := lexicon.name_intern (String.ofList letters)
  rw [Symbol.kind]
  cases hk : (lexicon.intern (String.ofList letters)).1.keyword? with
  | some k => exact .keyword (hkeyword.mp hk)
  | none =>
      refine .name ?_ hname
      intro k hspelling
      rw [hkeyword.mpr hspelling] at hk
      cases hk

/-- What is found of a piece is what the piece is. -/
theorem find_spec (h : lexicon.Proper) (p : Piece) :
    match (p.find lexicon).1 with
    | .skipped => p.isLexeme = false ∧ p.problem? = none
    | .token kind => p.isLexeme = true ∧ p.problem? = none ∧ p.Means kind
    | .problem problem => p.isLexeme = false ∧ p.problem? = some problem := by
  cases p with
  | blank c | lineComment body | blockComment body => exact ⟨rfl, rfl⟩
  | openComment body | openString body | stray c => exact ⟨rfl, rfl⟩
  | string body => exact ⟨rfl, rfl, .string⟩
  | number whole fraction => exact ⟨rfl, rfl, .number⟩
  | punct p => exact ⟨rfl, rfl, .punct⟩
  | word letters => exact ⟨rfl, rfl, means_kind_intern h letters⟩

/-- What is found of a piece keeps the lexicon proper. -/
theorem proper_find (h : lexicon.Proper) (p : Piece) : (p.find lexicon).2.Proper := by
  cases p with
  | word letters => exact h.intern _
  | _ => exact h

end Piece

open Piece

variable {lexicon : Lexicon}

/-- The diagnostics are the problems among the pieces, in order. -/
theorem diagnostics_scanPieces (h : lexicon.Proper) (line : Position) (ps : List Piece) :
    (scanPieces lexicon line ps).diagnostics.map Diagnostic.problem = ps.filterMap problem? := by
  induction ps generalizing lexicon line with
  | nil => rfl
  | cons p ps ih =>
      have ih := ih (proper_find h p) (line.behind p.text)
      have hspec := find_spec h p
      rw [scanPieces]
      cases hfind : (p.find lexicon).1 with
      | skipped =>
          rw [hfind] at hspec
          rw [List.filterMap_cons_none hspec.2]
          exact ih
      | token kind =>
          rw [hfind] at hspec
          rw [List.filterMap_cons_none hspec.2.1]
          exact ih
      | problem problem =>
          rw [hfind] at hspec
          rw [List.filterMap_cons_some hspec.2, ← ih]
          rfl

end Lox
