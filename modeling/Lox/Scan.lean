import Lox.Diagnostic
import Lox.Piece

/-!
# Scanning

Every piece of a source text is skipped, becomes a token, or is a problem to report.  Whatever it
is, it counts for the line on which it ends.
-/

namespace Lox

/-- What a piece of source text amounts to. -/
inductive Finding
  | skipped
  | token (kind : Kind)
  | problem (p : Problem)
deriving DecidableEq

/-- The kind of a word: reserved, or a name. -/
def Symbol.kind (s : Symbol) : Kind := s.keyword?.elim (.identifier s) .keyword

namespace Piece

/-- What the piece amounts to, and the lexicon that has met its words. -/
def find (lexicon : Lexicon) : Piece → Finding × Lexicon
  | blank _ | lineComment _ | blockComment _ => (.skipped, lexicon)
  | openComment _ => (.problem .unterminatedComment, lexicon)
  | openString _ => (.problem .unterminatedString, lexicon)
  | stray c => (.problem (.strayCharacter c), lexicon)
  | string body => (.token (.string (String.ofList body)), lexicon)
  | number whole fraction =>
    (.token (.number (.ofDecimal (.ofParts whole fraction))), lexicon)
  | punct p => (.token (.punct p), lexicon)
  | word letters =>
    let (symbol, lexicon) := lexicon.intern (String.ofList letters)
    (.token symbol.kind, lexicon)

end Piece

/-- The tokens of a source, the problems met on the way, and the lexicon afterwards. -/
structure Scan where
  tokens : List Token
  diagnostics : List Diagnostic
  lexicon : Lexicon

/-- Scans pieces of which the first begins on the given line. -/
def scanPieces (lexicon : Lexicon) (line : Position) : List Piece → Scan
  | [] => ⟨[⟨.eof, "", line⟩], [], lexicon⟩
  | p :: ps =>
    let line := line.behind p.text
    let found := p.find lexicon
    let scan := scanPieces found.2 line ps
    match found.1 with
    | .skipped => scan
    | .token kind => { scan with tokens := ⟨kind, String.ofList p.text, line⟩ :: scan.tokens }
    | .problem problem => { scan with diagnostics := ⟨line, .line, problem⟩ :: scan.diagnostics }

/-- Scans a source text.  Scanning never stops early, and the tokens always end with `eof`. -/
def scan (lexicon : Lexicon) (source : String) : Scan :=
  scanPieces lexicon 1 (pieces source.toList)

end Lox
