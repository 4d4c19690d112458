import Lox.Proofs.Number.Spelling
import Lox.Proofs.Offsets.Stretch
import Lox.Scan

/-!
# Sweeping over the bytes of a source

The pieces of a source are cut off the characters that are left.  Here the source stays as it is,
and a window goes over its bytes: there is an offset at which the lexeme begins, and one up to which
the source has been read.  All text is cut out of the source by offsets.  Nothing in the definitions
keeps them in the source, in order, or outside of characters, and nothing makes a sweep end.  One
that cannot cut out its text goes astray, and all that could go wrong is put down as events.
-/

namespace Lox

/-- The offsets came to stand somewhere, the quotes of a lexeme are to be taken off, a number is to
be read from a text, or zero is taken instead. -/
inductive Window.Event
  | stood (start current : Nat)
  | unquoting (lexeme : String)
  | reading (text : String)
  | defaulted (text : String)
deriving DecidableEq

/-- All that has been found so far, and the line that has been reached. -/
structure Findings where
  lexicon : Lexicon
  line : Position
  tokens : List Token
  diagnostics : List Diagnostic

namespace Findings

def nextLine (F : Findings) : Findings := { F with line := F.line + 1 }

def addToken (kind : Kind) (lexeme : String) (F : Findings) : Findings :=
  { F with tokens := F.tokens ++ [⟨kind, lexeme, F.line⟩] }

def addProblem (problem : Problem) (F : Findings) : Findings :=
  { F with diagnostics := F.diagnostics ++ [⟨F.line, .line, problem⟩] }

end Findings

structure Window extends Findings where
  start : Nat
  current : Nat
  /-- What has happened, the latest first. -/
  events : List Window.Event

/-- In front of a source, where nothing has been found. -/
def Window.initial (lexicon : Lexicon) : Window := ⟨⟨lexicon, 1, [], []⟩, 0, 0, [.stood 0 0]⟩

/-- How a sweep ends. -/
inductive Swept (α : Type)
  | done (value : α) (window : Window)
  | astray
  | outOfFuel

/-- Goes over a source with a window. -/
def Sweep (α : Type) : Type := String → Window → Swept α

namespace Sweep

variable {α : Type}

instance : Monad Sweep where
  pure v := fun _ w => .done v w
  bind x k := fun source w =>
    match x source w with
    | .done v w => k v source w
    | .astray => .astray
    | .outOfFuel => .outOfFuel

theorem bind_apply {α β : Type} (x : Sweep α) (k : α → Sweep β) (source : String) (w : Window) :
    (x >>= k) source w = match x source w with
      | .done v w => k v source w
      | .astray => .astray
      | .outOfFuel => .outOfFuel := rfl

/-! ## Single steps -/

def exhausted : Sweep α := fun _ _ => .outOfFuel

/-- The text from one offset to another. -/
def cut (text : String) (start stop : Nat) : Sweep String := fun _ w =>
  match Text.stretch? text start stop with
  | some within => .done within w
  | none => .astray

def lexeme : Sweep String := fun source w => cut source w.start w.current source w

/-- The text that has not been read. -/
def ahead : Sweep String := fun source w => cut source w.current source.utf8ByteSize source w

def peek : Sweep (Option Char) := do return (← ahead).toList.head?

def peekNext : Sweep (Option Char) := do return (← ahead).toList[1]?

def putDown (e : Window.Event) : Sweep Unit := fun _ w =>
  .done () { w with events := e :: w.events }

/-- Moves the window.  Its offsets change here only, and where they come to stand is put down. -/
def stand (start current : Window → Nat) : Sweep Unit := fun _ w =>
  let e := .stood (start w) (current w)
  .done () { w with start := start w, current := current w, events := e :: w.events }

/-- Goes on by a number of bytes. -/
def forward (bytes : Nat) : Sweep Unit := stand Window.start (·.current + bytes)

/-- The next lexeme begins where the source has not been read. -/
def beginLexeme : Sweep Unit := stand Window.current Window.current

/-- Goes over the next character, if there is one, and gives it. -/
def advance : Sweep (Option Char) := do
  match ← peek with
  | none => return none
  | some c => do
    forward c.utf8Size
    return some c

def eat (expected : Char) : Sweep Bool := do
  if (← peek) = some expected then
    let _ ← advance
    return true
  else return false

def eatWhile (p : Char → Bool) : Nat → Sweep Unit
  | 0 => exhausted
  | fuel + 1 => do
    if (← peek).any p then
      let _ ← advance
      eatWhile p fuel
    else return ()

def note (f : Findings → Findings) : Sweep Unit := fun _ w =>
  .done () { w with toFindings := f w.toFindings }

/-- A newline counts when it is gone over. -/
def countLine (c : Char) : Sweep Unit := if c = '\n' then note .nextLine else pure ()

def addToken (kind : Kind) : Sweep Unit := do note (.addToken kind (← lexeme))

def addProblem (problem : Problem) : Sweep Unit := note (.addProblem problem)

def intern (name : String) : Sweep Symbol := fun _ w =>
  let (symbol, lexicon) := w.lexicon.intern name
  .done symbol { w with lexicon }

/-! ## Lexemes -/

/-- Whether the rest of a number is next: a point, and a digit behind it. -/
def fractionNext : Sweep Bool := do
  if (← peek) = some '.' then return (← peekNext).any Char.isDigit
  else return false

/-- The number that a text spells, or zero if it spells none. -/
def readNumber (text : String) : Sweep Number := do
  putDown (.reading text)
  match Number.ofText? text with
  | some x => return x
  | none => do
    putDown (.defaulted text)
    return ⟨0⟩

def addNumber : Sweep Unit := do addToken (.number (← readNumber (← lexeme)))

def number (fuel : Nat) : Sweep Unit := do
  eatWhile Char.isDigit fuel
  if ← fractionNext then
    let _ ← advance
    eatWhile Char.isDigit fuel
    addNumber
  else addNumber

/-- Goes on to the next quote, if there is one. -/
def seekQuote : Nat → Sweep Bool
  | 0 => exhausted
  | fuel + 1 => do
    match ← peek with
    | none => return false
    | some c =>
      if c = '"' then return true
      else
        countLine c
        let _ ← advance
        seekQuote fuel

def string (fuel : Nat) : Sweep Unit := do
  if ← seekQuote fuel then
    let _ ← advance
    let quoted ← lexeme
    putDown (.unquoting quoted)
    let value ← cut quoted 1 (quoted.utf8ByteSize - 1)
    addToken (.string value)
  else addProblem .unterminatedString

def word (fuel : Nat) : Sweep Unit := do
  eatWhile Piece.continuesWord fuel
  let symbol ← intern (← lexeme)
  addToken symbol.kind

def lineComment (fuel : Nat) : Sweep Unit := eatWhile (· != '\n') fuel

/-- Goes on behind the marks that close as many comments as are open, as long as these are counted
as any. -/
def blockComment (depth : Int32) : Nat → Sweep Unit
  | 0 => exhausted
  | fuel + 1 => do
    if 0 < depth then
      match ← peek, ← peekNext with
      | none, _ => addProblem .unterminatedComment
      | some '/', some '*' => do
        let _ ← advance
        let _ ← advance
        blockComment (depth + 1) fuel
      | some '*', some '/' => do
        let _ ← advance
        let _ ← advance
        blockComment (depth - 1) fuel
      | some c, _ => do
        countLine c
        let _ ← advance
        blockComment depth fuel
    else return ()

def addPunct (p : Punct) : Sweep Unit := addToken (.punct p)

/-- Punctuation that is another one if the given character is behind it. -/
def addEither (expected : Char) (matched otherwise : Punct) : Sweep Unit := do
  if ← eat expected then addPunct matched
  else addPunct otherwise

def slash (fuel : Nat) : Sweep Unit := do
  if ← eat '/' then lineComment fuel
  else if ← eat '*' then blockComment 1 fuel
  else addPunct .slash

/-- Goes on to the end of what begins with the given character. -/
def piece (fuel : Nat) (c : Char) : Sweep Unit :=
  match c with
  | '\n' => note .nextLine
  | ' ' | '\t' | '\r' => pure ()
  | '(' => addPunct .leftParen
  | ')' => addPunct .rightParen
  | '\x7b' => addPunct .leftCurly
  | '\x7d' => addPunct .rightCurly
  | ',' => addPunct .comma
  | '.' => addPunct .dot
  | '-' => addPunct .minus
  | '+' => addPunct .plus
  | ';' => addPunct .semicolon
  | '*' => addPunct .star
  | '?' => addPunct .question
  | ':' => addPunct .colon
  | '!' => addEither '=' .bangEqual .bang
  | '=' => addEither '=' .equalEqual .equal
  | '<' => addEither '=' .lessEqual .less
  | '>' => addEither '=' .greaterEqual .greater
  | '/' => slash fuel
  | '"' => string fuel
  | c =>
    if c.isDigit then number fuel
    else if Piece.startsWord c then word fuel
    else addProblem (.strayCharacter c)

/-! ## Sources -/

def pieces : Nat → Sweep Unit
  | 0 => exhausted
  | fuel + 1 => do
    match ← advance with
    | none => note fun F => F.addToken .eof ""
    | some c => do
      piece fuel c
      beginLexeme
      pieces fuel

end Sweep

/-- Scans a source by its bytes. -/
def Window.scan (fuel : Nat) (lexicon : Lexicon) (source : String) : Swept Unit :=
  Sweep.pieces fuel source (.initial lexicon)

end Lox
