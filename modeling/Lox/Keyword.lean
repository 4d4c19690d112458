/-!
# Reserved words
-/

namespace Lox

/-- The reserved words, in alphabetical order. -/
inductive Keyword
  | and_ | break_ | class_ | else_ | false_ | for_ | fun_ | if_ | nil_ | or_ | print_ | return_
  | super_ | this_ | true_ | var_ | while_
deriving DecidableEq

namespace Keyword

def spelling : Keyword → String
  | and_ => "and"
  | break_ => "break"
  | class_ => "class"
  | else_ => "else"
  | false_ => "false"
  | for_ => "for"
  | fun_ => "fun"
  | if_ => "if"
  | nil_ => "nil"
  | or_ => "or"
  | print_ => "print"
  | return_ => "return"
  | super_ => "super"
  | this_ => "this"
  | true_ => "true"
  | var_ => "var"
  | while_ => "while"

def all : List Keyword :=
  [and_, break_, class_, else_, false_, for_, fun_, if_, nil_, or_, print_, return_,
    super_, this_, true_, var_, while_]

/-- Whether a statement may begin with the word: where reading resumes after a mistake. -/
def startsStatement : Keyword → Bool
  | class_ | fun_ | var_ | for_ | if_ | while_ | print_ | return_ => true
  | _ => false

theorem mem_all (k : Keyword) : k ∈ all := by
  cases k <;> decide

theorem spelling_injective {k l : Keyword} (h : k.spelling = l.spelling) : k = l := by
  cases k <;> cases l <;> simp_all [spelling]

end Keyword

end Lox
