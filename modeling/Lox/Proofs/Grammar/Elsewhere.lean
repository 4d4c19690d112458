import Lox.Proofs.Grammar.Renaming

/-!
# Reading elsewhere

Tokens can be read elsewhere: with other names and lines, and with more tokens behind them.  What is
read and what is reported is the same there, up to the names and lines, unless it depends on where
the tokens end.  This holds of whatever is read or could not be read, and so also of what is dropped
after a mistake.
-/

namespace Lox

/-- Two programs, one after the other. -/
def Program.append (p q : Program) : Program :=
  ⟨p.statements ++ q.statements, p.diagnostics ++ q.diagnostics⟩

/-- How tokens are read elsewhere. -/
structure Elsewhere where
  symbol : Symbol → Symbol
  line : Position → Position
  /-- The tokens that follow. -/
  more : List Token
  stop : Position
  /-- The line on which the tokens end elsewhere. -/
  stop' : Position

namespace Elsewhere

variable (c : Elsewhere)

def tokens (ts : List Token) : List Token := ts.map (Token.rename c.symbol c.line) ++ c.more

def expr (e : Expr) : Expr := e.rename c.symbol c.line

def args (args : List Expr × Position) : List Expr × Position := (args.1.map c.expr, c.line args.2)

def stmt (s : Stmt) : Stmt := s.rename c.symbol c.line

def clauses (clauses : ForClauses) : ForClauses :=
  ⟨clauses.init.map c.stmt, clauses.condition.map c.expr, clauses.increment.map c.expr⟩

def head (head : Symbol × List Symbol) : Symbol × List Symbol :=
  (c.symbol head.1, head.2.map c.symbol)

def diagnostic (d : Diagnostic) : Diagnostic := { d with line := c.line d.line }

def program (p : Program) : Program := ⟨p.statements.map c.stmt, p.diagnostics.map c.diagnostic⟩

/-- The tokens end as they did, with nothing behind them. -/
def SameEnd : Prop := c.more = [] ∧ c.stop' = c.line c.stop

@[simp] theorem tokens_cons (t : Token) (ts : List Token) :
    c.tokens (t :: ts) = t.rename c.symbol c.line :: c.tokens ts := rfl

/-- A mistake at a token is elsewhere a mistake at the same token. -/
theorem diagnostic_atToken (t : Token) (problem : Problem) :
    .atToken (t.rename c.symbol c.line) problem = c.diagnostic (.atToken t problem) := by
  obtain ⟨kind, lexeme, line⟩ := t
  cases kind <;> rfl

/-- A mistake is found at the same token, if it is found at a token at all. -/
theorem diagnostic_atHead {ts : List Token} (problem : Problem) (h : ts = [] → c.SameEnd) :
    .atHead c.stop' (c.tokens ts) problem = c.diagnostic (.atHead c.stop ts problem) := by
  cases ts with
  | cons t ts => exact c.diagnostic_atToken t problem
  | nil =>
      obtain ⟨hmore, hstop⟩ := h rfl
      rw [tokens, hmore, hstop]
      rfl

end Elsewhere

/-! ## Phrases -/

namespace Phrase

variable {α α' β β' : Type} {m n m' n' : Nat}

/-- The second phrase is the first one, read elsewhere. -/
inductive Carries (c : Elsewhere) (value : α → α') : Phrase α m → Phrase α' n → Prop
  | read {v : α} {rest : List Token} {ds : List Diagnostic} {h : rest.length < m}
      {h' : (c.tokens rest).length < n} :
      Carries c value (.read v rest ds h)
        (.read (value v) (c.tokens rest) (ds.map c.diagnostic) h')
  | failed {d : Diagnostic} {rest : List Token} {ds : List Diagnostic} {h : rest.length ≤ m}
      {h' : (c.tokens rest).length ≤ n} :
      Carries c value (.failed d rest ds h)
        (.failed (c.diagnostic d) (c.tokens rest) (ds.map c.diagnostic) h')

/-- What is read cleanly elsewhere carries over if the value and the reports do. -/
theorem Carries.of_eq {c : Elsewhere} {value : α → α'} {v : α} {v' : α'} {rest : List Token}
    {ds ds' : List Diagnostic} {h : rest.length < m} {h' : (c.tokens rest).length < n}
    (hv : v' = value v) (hds : ds' = ds.map c.diagnostic) :
    (Phrase.read v rest ds h).Carries c value (.read v' (c.tokens rest) ds' h') := by
  subst hv hds
  exact .read

/-- The outcome was found at the end of the tokens.  If the end was looked at behind what was read,
this goes for everything that was read up to there. -/
def AtEnd (look : Bool) : Phrase α n → Prop
  | read _ rest _ _ => look = true ∧ rest = []
  | failed _ rest _ _ => rest = []

/-- Elsewhere the second phrase stands for the first one, unless where the tokens end has to do with
it. -/
def Local (c : Elsewhere) (look : Bool) (value : α → α') (p : Phrase α m) (p' : Phrase α' n) :
    Prop :=
  p.Carries c value p' ∨ ¬c.SameEnd ∧ p.AtEnd look

section

variable {look : Bool}

/-- Where a phrase was found to end does not depend on how short its rest is known to be. -/
@[simp] theorem atEnd_within {p : Phrase α m} {h : m ≤ n} :
    (p.within h).AtEnd look ↔ p.AtEnd look := by
  cases p <;> rfl

@[simp] theorem atEnd_report {p : Phrase α n} {ds : List Diagnostic} :
    (p.report ds).AtEnd look ↔ p.AtEnd look := by
  cases p <;> rfl

@[simp] theorem atEnd_map {p : Phrase α n} {f : α → β} :
    (p.map f).AtEnd look ↔ p.AtEnd look := by
  cases p <;> rfl

/-- From no tokens nothing can be read. -/
theorem atEnd_zero (p : Phrase α 0) : p.AtEnd look := by
  cases p with
  | read _ _ _ h => exact absurd h (Nat.not_lt_zero _)
  | failed _ rest _ h => exact List.eq_nil_of_length_eq_zero (Nat.le_zero.mp h)

/-- Of no tokens at all everything is found at the end. -/
theorem atEnd_map_within_zero {p : Phrase α 0} {h : 0 ≤ n} {f : α → β} :
    ((p.within h).map f).AtEnd look :=
  atEnd_map.mpr (atEnd_within.mpr p.atEnd_zero)

/-- At the end, what comes next begins at the end. -/
theorem AtEnd.andThen {p : Phrase α n}
    {next : (v : α) → (rest : List Token) → rest.length < n → Phrase β n} {look' : Bool}
    (h : p.AtEnd look) (hnext : look = true → ∀ v h, (next v [] h).AtEnd look') :
    (p.andThen next).AtEnd look' := by
  cases p with
  | failed => exact h
  | read v rest ds hlt =>
      obtain ⟨hlook, rfl⟩ := h
      exact atEnd_report.mpr (hnext hlook v hlt)

end

namespace Local

variable {c : Elsewhere} {look : Bool} {value : α → α'} {p : Phrase α m} {p' : Phrase α' m'}

/-- Looking at the token behind a phrase can only make more depend on the end. -/
theorem looking (h : p.Local c false value p') : p.Local c look value p' := by
  rcases h with h | ⟨hend, h⟩
  · exact .inl h
  · refine .inr ⟨hend, ?_⟩
    cases p with
    | read => cases h.1
    | failed => exact h

theorem within {hn : m ≤ n} {hn' : m' ≤ n'} (h : p.Local c look value p') :
    (p.within hn).Local c look value (p'.within hn') := by
  rcases h with (_ | _) | ⟨hend, h⟩
  · exact .inl .read
  · exact .inl .failed
  · exact .inr ⟨hend, atEnd_within.mpr h⟩

/-- What is reported in front of a phrase is reported in front of it elsewhere as well. -/
theorem report {ds ds' : List Diagnostic} (h : p.Local c look value p')
    (hds : ds' = ds.map c.diagnostic) :
    (p.report ds).Local c look value (p'.report ds') := by
  subst hds
  rcases h with (_ | _) | ⟨hend, h⟩
  · refine .inl ?_
    rw [Phrase.report, Phrase.report, ← List.map_append]
    exact .read
  · refine .inl ?_
    rw [Phrase.report, Phrase.report, ← List.map_append]
    exact .failed
  · exact .inr ⟨hend, atEnd_report.mpr h⟩

/-- The values may be made of others in the same way on both sides. -/
theorem map {f : α → β} {f' : α' → β'} {value' : β → β'} (h : p.Local c look value p')
    (hf : ∀ v, f' (value v) = value' (f v)) :
    (p.map f).Local c look value' (p'.map f') := by
  rcases h with (_ | _) | ⟨hend, h⟩
  · refine .inl ?_
    rw [Phrase.map, Phrase.map, hf]
    exact .read
  · exact .inl .failed
  · exact .inr ⟨hend, atEnd_map.mpr h⟩

/-- Where the end of the tokens was looked at, what comes next has to begin at the end. -/
theorem andThen {next : (v : α) → (rest : List Token) → rest.length < m → Phrase β m}
    {next' : (v : α') → (rest : List Token) → rest.length < m' → Phrase β' m'}
    {value' : β → β'} {look' : Bool} (h : p.Local c look value p')
    (hnext : ∀ v rest h h',
      (next v rest h).Local c look' value' (next' (value v) (c.tokens rest) h'))
    (hlook : look = true → ∀ v h, (next v [] h).AtEnd look') :
    (p.andThen next).Local c look' value' (p'.andThen next') := by
  rcases h with (_ | _) | ⟨hend, h⟩
  · exact (hnext _ _ _ _).report rfl
  · exact .inl .failed
  · exact .inr ⟨hend, h.andThen hlook⟩

/-- A mistake at the head of the tokens depends on their end only if there are none. -/
theorem failHere (problem : Problem) (ts : List Token) :
    (Phrase.failHere c.stop problem ts : Phrase α _).Local c look value
      (Phrase.failHere c.stop' problem (c.tokens ts) : Phrase α' _) := by
  by_cases h : ts = [] → c.SameEnd
  · rw [Phrase.failHere, Phrase.failHere, c.diagnostic_atHead problem h]
    exact .inl .failed
  · obtain ⟨hts, hend⟩ := Classical.not_imp.mp h
    exact .inr ⟨hend, hts⟩

/-- Where there are no tokens, there are either none elsewhere, or the end is somewhere else. -/
theorem nil {size : List Token → Nat} {p' : (ts : List Token) → Phrase α' (size ts)}
    (hp : p.AtEnd look) (h : c.tokens [] = [] → p.Local c look value (p' [])) :
    p.Local c look value (p' (c.tokens [])) := by
  by_cases hsame : c.SameEnd
  · have htokens : c.tokens [] = [] := hsame.1
    rw [htokens]
    exact h htokens
  · exact .inr ⟨hsame, hp⟩

theorem failHere_nil {problem : Problem} (htokens : c.tokens [] = []) :
    (Phrase.failHere c.stop problem [] : Phrase α _).Local c look value
      (Phrase.failHere c.stop' problem [] : Phrase α' _) := by
  have h := @failHere α α' c look value problem []
  rwa [htokens] at h

theorem read_nil {v : α} {h : [].length < m} {h' : [].length < m'} (htokens : c.tokens [] = []) :
    (read v [] [] h).Local c look value (read (value v) [] [] h') := by
  have hread : (read v [] [] h).Carries c value
      (read (value v) (c.tokens []) ([].map c.diagnostic) (htokens ▸ h')) := .read
  simp only [htokens] at hread
  exact .inl hread

end Local

end Phrase

/-! ## Single tokens -/

namespace Grammar

open Phrase

variable {c : Elsewhere}

@[simp] theorem ifNext_nil {β : Type} {n : Nat} {kind : Kind} {h : [].length < n}
    {yes : (t : Token) → (rest : List Token) → rest.length + 1 < n → Phrase β n}
    {no : Phrase β n} : ifNext kind [] h yes no = no := rfl

/-- Where no token of the kind is next, the choice is made. -/
theorem ifNext_of_head {β : Type} {n : Nat} {kind : Kind} {ts : List Token} {h : ts.length < n}
    {yes : (t : Token) → (rest : List Token) → rest.length + 1 < n → Phrase β n} {no : Phrase β n}
    (hhead : ∀ t ∈ ts.head?, t.kind ≠ kind) : ifNext kind ts h yes no = no := by
  cases ts with
  | nil => rfl
  | cons t ts => rw [ifNext, if_neg (hhead t rfl)]

/-- If the next token is looked for at the end, it must not be one of those that follow. -/
theorem local_ifNext {β β' : Type} {n n' : Nat} {look : Bool} {value : β → β'} {kind : Kind}
    (hkind : ∀ t : Token, (t.rename c.symbol c.line).kind = kind ↔ t.kind = kind)
    {ts : List Token} {h : ts.length < n} {h' : (c.tokens ts).length < n'}
    {yes : (t : Token) → (rest : List Token) → rest.length + 1 < n → Phrase β n} {no : Phrase β n}
    {yes' : (t : Token) → (rest : List Token) → rest.length + 1 < n' → Phrase β' n'}
    {no' : Phrase β' n'}
    (hyes : ∀ t rest h h',
      (yes t rest h).Local c look value (yes' (t.rename c.symbol c.line) (c.tokens rest) h'))
    (hno : no.Local c look value no')
    (hlook : (∀ t ∈ c.more.head?, t.kind ≠ kind) ∨ (ts = [] → no.AtEnd look)) :
    (ifNext kind ts h yes no).Local c look value (ifNext kind (c.tokens ts) h' yes' no') := by
  cases ts with
  | cons t ts =>
      by_cases ht : t.kind = kind
      · simp only [Elsewhere.tokens_cons, ifNext, if_pos ht, if_pos ((hkind t).mpr ht)]
        exact hyes t ts _ _
      · simp only [Elsewhere.tokens_cons, ifNext, if_neg ht, if_neg (mt (hkind t).mp ht)]
        exact hno
  | nil =>
      by_cases hhead : ∀ t ∈ c.more.head?, t.kind ≠ kind
      · have hno' : ifNext kind (c.tokens []) h' yes' no' = no' := ifNext_of_head hhead
        rw [hno']
        exact hno
      · refine .inr ⟨?_, (hlook.resolve_left hhead) rfl⟩
        rintro ⟨hmore, -⟩
        rw [hmore] at hhead
        exact hhead nofun

/-- Which mark is next is seen at the first token. -/
theorem local_mark (c : Elsewhere) (p : Punct) (spot : Spot) (ts : List Token) :
    (mark c.stop p spot ts).Local c false (Token.rename c.symbol c.line)
      (mark c.stop' p spot (c.tokens ts)) := by
  cases ts with
  | nil => exact .nil (atEnd_zero _) .failHere_nil
  | cons t ts =>
      by_cases ht : t.kind = .punct p
      · have ht' : (t.rename c.symbol c.line).kind = .punct p :=
          Token.kind_rename_punct_iff.mpr ht
        simp only [Elsewhere.tokens_cons, mark, if_pos ht, if_pos ht']
        exact .inl .read
      · have ht' : (t.rename c.symbol c.line).kind ≠ .punct p :=
          mt Token.kind_rename_punct_iff.mp ht
        simp only [Elsewhere.tokens_cons, mark, if_neg ht, if_neg ht']
        exact .failHere _ (t :: ts)

/-- Which name is next is seen at the first token, and changed with it. -/
theorem local_name (c : Elsewhere) (role : Role) (ts : List Token) :
    (name c.stop role ts).Local c false c.symbol (name c.stop' role (c.tokens ts)) := by
  cases ts with
  | nil => exact .nil (atEnd_zero _) .failHere_nil
  | cons t ts =>
      obtain ⟨kind, lexeme, line⟩ := t
      cases kind with
      | identifier x => exact .inl .read
      | _ => exact .failHere _ (_ :: ts)

end Grammar

/-! ## Going on after a mistake -/

section

variable {c : Elsewhere} {t : Token} {ts : List Token}

/-- Behind such a token reading resumes. -/
theorem resume_of_stops
    (h : t.kind = .punct .semicolon ∨ ts.head?.any (·.kind.startsStatement)) :
    resume (t :: ts) = ts :=
  if_pos h

/-- Any other token is dropped. -/
theorem resume_of_passes
    (h : ¬(t.kind = .punct .semicolon ∨ ts.head?.any (·.kind.startsStatement))) :
    resume (t :: ts) = resume ts :=
  if_neg h

/-- Whether a statement may begin at the first token is the same elsewhere, if there is one. -/
theorem startsStatement_head_tokens (hts : ts ≠ []) :
    (c.tokens ts).head?.any (·.kind.startsStatement) =
      ts.head?.any (·.kind.startsStatement) := by
  cases ts with
  | nil => exact absurd rfl hts
  | cons u ts => exact Kind.startsStatement_rename c.symbol u.kind

/-- Reading resumes at the same place, unless the tokens end before, without a semicolon, and others
follow. -/
theorem resume_tokens (c : Elsewhere) (ts : List Token) :
    resume (c.tokens ts) = c.tokens (resume ts) ∨
      c.more ≠ [] ∧ resume ts = [] ∧ ∀ t ∈ ts.getLast?, t.kind ≠ .punct .semicolon := by
  induction ts with
  | nil =>
      by_cases hmore : c.more = []
      · refine .inl ?_
        simp [resume, Elsewhere.tokens, hmore]
      · exact .inr ⟨hmore, rfl, nofun⟩
  | cons t ts ih =>
      have hsemicolon : (t.rename c.symbol c.line).kind = .punct .semicolon ↔
          t.kind = .punct .semicolon := Token.kind_rename_punct_iff
      by_cases hts : ts = []
      · subst hts
        have hlast : resume [t] = [] := ite_self _
        rw [hlast]
        by_cases h' : (t.rename c.symbol c.line).kind = .punct .semicolon ∨
            (c.tokens []).head?.any (·.kind.startsStatement)
        · exact .inl (resume_of_stops h')
        · rw [Elsewhere.tokens_cons, resume_of_passes h']
          refine ih.imp_right fun ⟨hmore, hresume, _⟩ => ⟨hmore, hresume, ?_⟩
          rintro _ ⟨⟩
          exact fun ht => h' (.inl (hsemicolon.mpr ht))
      · have hstops : (t.rename c.symbol c.line).kind = .punct .semicolon ∨
              (c.tokens ts).head?.any (·.kind.startsStatement) ↔
            t.kind = .punct .semicolon ∨ ts.head?.any (·.kind.startsStatement) := by
          rw [hsemicolon, startsStatement_head_tokens hts]
        by_cases h : t.kind = .punct .semicolon ∨ ts.head?.any (·.kind.startsStatement)
        · rw [Elsewhere.tokens_cons, resume_of_stops (hstops.mpr h), resume_of_stops h]
          exact .inl rfl
        · rw [Elsewhere.tokens_cons, resume_of_passes (mt hstops.mp h), resume_of_passes h,
            List.getLast?_cons_of_ne_nil hts]
          exact ih

end

namespace Settled

variable {α α' : Type} {n n' : Nat}

/-- The second outcome is the first one, reached elsewhere. -/
structure Carries (c : Elsewhere) (value : α → α') (s : Settled α n) (s' : Settled α' n') :
    Prop where
  value : s'.value = s.value.map value
  rest : s'.rest = c.tokens s.rest
  reports : s'.reports = s.reports.map c.diagnostic

/-- Elsewhere the second outcome stands for the first one, unless the tokens were used up and end
differently. -/
def Local (c : Elsewhere) (value : α → α') (s : Settled α n) (s' : Settled α' n') : Prop :=
  s.Carries c value s' ∨ ¬c.SameEnd ∧ s.rest = []

end Settled

/-- After a mistake the same tokens are dropped elsewhere, unless there are none left to resume at.
-/
theorem Phrase.Local.settle {α α' : Type} {m m' : Nat} {c : Elsewhere} {look : Bool}
    {value : α → α'} {p : Phrase α m} {p' : Phrase α' m'} {h : 0 < m} {h' : 0 < m'}
    (hp : p.Local c look value p') : (p.settle h).Local c value (p'.settle h') := by
  rcases hp with (_ | _) | ⟨hend, hp⟩
  case inl.read => exact .inl ⟨rfl, rfl, rfl⟩
  case inl.failed d rest ds _ _ =>
    rcases resume_tokens c rest with hrest | ⟨hmore, hrest, -⟩
    · refine .inl ⟨rfl, hrest, ?_⟩
      simp only [Phrase.settle, List.map_append, List.map_cons, List.map_nil]
    · exact .inr ⟨fun hsame => hmore hsame.1, hrest⟩
  case inr =>
    refine .inr ⟨hend, ?_⟩
    cases p with
    | read => exact hp.2
    | failed =>
        cases hp
        rfl

/-- A phrase is settled elsewhere as it was if it was read, or if the tokens to drop are there. -/
theorem Phrase.Local.carries_settle {α α' : Type} {m m' : Nat} {c : Elsewhere} {value : α → α'}
    {p : Phrase α m} {p' : Phrase α' m'} {h : 0 < m} {h' : 0 < m'} (hp : p.Local c false value p')
    (hfailed : ∀ d rest ds h, p = .failed d rest ds h →
      rest ≠ [] ∧ resume (c.tokens rest) = c.tokens (resume rest)) :
    (p.settle h).Carries c value (p'.settle h') := by
  rcases hp with (_ | _) | ⟨-, hend⟩
  case inl.read => exact ⟨rfl, rfl, rfl⟩
  case inl.failed =>
    refine ⟨rfl, (hfailed _ _ _ _ rfl).2, ?_⟩
    simp only [Phrase.settle, List.map_append, List.map_cons, List.map_nil]
  case inr =>
    cases p with
    | read => exact absurd hend.1 Bool.false_ne_true
    | failed => exact absurd hend (hfailed _ _ _ _ rfl).1

end Lox
