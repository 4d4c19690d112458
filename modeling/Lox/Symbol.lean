import Lox.Keyword

/-!
# Symbols

A symbol stands for a spelling.  A `Lexicon` hands symbols out and gives equal spellings the same
symbol; the identity of a symbol is its position in the lexicon.  Every lexicon begins with the
reserved words, so that a word is reserved exactly when its symbol stands among the first ones.
-/

namespace Lox

/-- A name as handed out by a lexicon. -/
structure Symbol where
  id : Nat
  name : String
deriving DecidableEq

/-- The spellings met so far, each once, in the order in which they were met. -/
structure Lexicon where
  spellings : Array String

namespace Lexicon

/-- The lexicon that knows the reserved words only. -/
def reserved : Lexicon := ⟨(Keyword.all.map Keyword.spelling).toArray⟩

/-- The symbol of a spelling, which is added to the lexicon if it is new. -/
def intern (lexicon : Lexicon) (name : String) : Symbol × Lexicon :=
  match lexicon.spellings.idxOf? name with
  | some id => (⟨id, name⟩, lexicon)
  | none => (⟨lexicon.spellings.size, name⟩, ⟨lexicon.spellings.push name⟩)

@[simp] theorem name_intern (lexicon : Lexicon) (name : String) :
    (lexicon.intern name).1.name = name := by
  unfold intern
  split <;> rfl

end Lexicon

/-- The reserved word that a symbol stands for. -/
def Symbol.keyword? (s : Symbol) : Option Keyword := Keyword.all[s.id]?

end Lox
