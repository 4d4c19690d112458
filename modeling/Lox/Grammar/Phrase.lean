import Lox.Diagnostic

/-!
# Reading phrases

A phrase is read from the front of a list of tokens.  The outcome says what was read, what remains
and what was reported on the way, and bounds the length of what remains: this is why the reading of
a program ends.

The tokens stop before the end of the source.  Its line, `stop`, is passed along for diagnostics
that point there.
-/

namespace Lox

/-- The outcome of reading a phrase.  One that was read leaves fewer than `n` tokens; one that could
not be read leaves the tokens from the mistake on. -/
inductive Phrase (α : Type) (n : Nat)
  | read (value : α) (rest : List Token) (reports : List Diagnostic) (shorter : rest.length < n)
  | failed (mistake : Diagnostic) (rest : List Token) (reports : List Diagnostic)
      (within : rest.length ≤ n)

namespace Phrase

variable {α β : Type} {m n : Nat}

/-- The same outcome under a weaker bound. -/
@[inline] def within (p : Phrase α m) (h : m ≤ n) : Phrase α n :=
  match p with
  | read value rest reports shorter => read value rest reports (Nat.lt_of_lt_of_le shorter h)
  | failed mistake rest reports bound => failed mistake rest reports (Nat.le_trans bound h)

/-- The same outcome with earlier reports in front. -/
@[inline] def report (earlier : List Diagnostic) (p : Phrase α n) : Phrase α n :=
  match p with
  | read value rest reports shorter => read value rest (earlier ++ reports) shorter
  | failed mistake rest reports bound => failed mistake rest (earlier ++ reports) bound

@[inline] def map (f : α → β) (p : Phrase α n) : Phrase β n :=
  match p with
  | read value rest reports shorter => read (f value) rest reports shorter
  | failed mistake rest reports bound => failed mistake rest reports bound

/-- Goes on with what remains, if the phrase could be read. -/
@[inline] def andThen (p : Phrase α n)
    (next : (value : α) → (rest : List Token) → rest.length < n → Phrase β n) : Phrase β n :=
  match p with
  | read value rest reports shorter => (next value rest shorter).report reports
  | failed mistake rest reports bound => failed mistake rest reports bound

/-- The problem is found at the first of the remaining tokens. -/
def failHere (stop : Position) (problem : Problem) (ts : List Token) : Phrase α ts.length :=
  failed (.atHead stop ts problem) ts [] (Nat.le_refl _)

/-! The bounds that the grammar asks for. -/

section

variable {ts rest : List Token}

theorem length_lt_cons (t : Token) (rest : List Token) : rest.length < (t :: rest).length :=
  Nat.lt_succ_self _

theorem length_le_cons (t : Token) (rest : List Token) : rest.length ≤ (t :: rest).length :=
  Nat.le_succ _

theorem length_lt_succ (ts : List Token) : ts.length < ts.length + 1 := Nat.lt_succ_self _

theorem length_le_succ (ts : List Token) : ts.length ≤ ts.length + 1 := Nat.le_succ _

theorem length_le_of_lt (h : rest.length < ts.length) : rest.length ≤ ts.length := Nat.le_of_lt h

theorem length_succ_le_of_lt (h : rest.length < ts.length) : rest.length + 1 ≤ ts.length := h

theorem length_le_of_succ_lt (h : rest.length + 1 < ts.length) : rest.length ≤ ts.length :=
  Nat.le_of_lt (Nat.lt_of_succ_lt h)

theorem length_lt_of_succ_lt (h : rest.length + 1 < ts.length + 1) :
    rest.length < ts.length + 1 :=
  Nat.lt_of_succ_lt h

end

end Phrase

namespace Grammar

open Phrase

/-- Takes the next token if it is of the given kind. -/
@[inline] def ifNext {β : Type} {n : Nat} (kind : Kind) (ts : List Token) (h : ts.length < n)
    (yes : (t : Token) → (rest : List Token) → rest.length + 1 < n → Phrase β n)
    (no : Phrase β n) : Phrase β n :=
  match ts, h with
  | [], _ => no
  | t :: rest, h => if t.kind = kind then yes t rest h else no

/-- Reads a punctuation mark. -/
def mark (stop : Position) (p : Punct) (spot : Spot) (ts : List Token) : Phrase Token ts.length :=
  match ts with
  | [] => failHere stop (.expectedPunct p spot) []
  | t :: rest =>
    if t.kind = .punct p then read t rest [] (Nat.lt_succ_self _)
    else failHere stop (.expectedPunct p spot) (t :: rest)

/-- Reads a name. -/
def name (stop : Position) (role : Role) (ts : List Token) : Phrase Symbol ts.length :=
  match ts with
  | [] => failHere stop (.expectedName role) []
  | t :: rest =>
    match t.kind with
    | .identifier x => read x rest [] (Nat.lt_succ_self _)
    | _ => failHere stop (.expectedName role) (t :: rest)

end Grammar

end Lox
