import Lox.Number.Text
import Lox.Position
import Lox.Symbol

/-!
# Tokens

A token has a kind, the text it was read from and the line on which that text ends.  The kind
carries what the text means, and `Kind.text` writes a text with that meaning.
-/

namespace Lox

/-- Punctuation and operators. -/
inductive Punct
  | leftParen | rightParen | leftCurly | rightCurly | comma | dot | minus | plus | semicolon
  | slash | star | question | colon
  | bang | bangEqual | equal | equalEqual | greater | greaterEqual | less | lessEqual
deriving DecidableEq

def Punct.spelling : Punct → String
  | leftParen => "("
  | rightParen => ")"
  | leftCurly => "\x7b"
  | rightCurly => "\x7d"
  | comma => ","
  | dot => "."
  | minus => "-"
  | plus => "+"
  | semicolon => ";"
  | slash => "/"
  | star => "*"
  | question => "?"
  | colon => ":"
  | bang => "!"
  | bangEqual => "!="
  | equal => "="
  | equalEqual => "=="
  | greater => ">"
  | greaterEqual => ">="
  | less => "<"
  | lessEqual => "<="

/-- What a token is; `eof` marks the end of a source. -/
inductive Kind
  | eof
  | punct (p : Punct)
  | keyword (k : Keyword)
  | identifier (name : Symbol)
  | string (value : String)
  | number (value : Number)
deriving DecidableEq

namespace Kind

/-- A source text of the kind. -/
def text : Kind → String
  | eof => "EOF"
  | punct p => p.spelling
  | keyword k => k.spelling
  | identifier x => x.name
  | string s => "\"" ++ s ++ "\""
  | number n => n.text

/-- Whether a statement may begin here: where reading resumes after a mistake. -/
def startsStatement : Kind → Bool
  | keyword k => k.startsStatement
  | _ => false

end Kind

structure Token where
  kind : Kind
  /-- The source text of the token. -/
  lexeme : String
  /-- The line, counted from one, on which the source text ends. -/
  line : Position
deriving DecidableEq

end Lox
