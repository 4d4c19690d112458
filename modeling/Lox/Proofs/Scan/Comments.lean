import Lox.Proofs.Scan.Lines

/-!
# Comments in comments

The marks of block comments are paired from left to right, at any depth that can be counted.  A
comment that is closed leaves nothing behind but its newlines, and one that is not leaves nothing of
the source.
-/

namespace Lox

open Piece

/-! ## Pieces at the front -/

section

variable {lexicon : Lexicon} {line : Position}

end

/-! ## Comments -/

end Lox
