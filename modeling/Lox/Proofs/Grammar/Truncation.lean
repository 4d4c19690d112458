import Lox.Proofs.Grammar.Boundary
import Lox.Proofs.Grammar.Trail

/-!
# Tokens that stop early

A program that is read without a report may break off after any of its tokens.  What is left of it
is read as before, up to the declaration in which it breaks off.  The mistake in that one is found
at the end and nowhere else.  It can still be read if all that it lost are `else` branches at its
end, and otherwise it is dropped.
-/

namespace Lox

/-- The diagnostic points at the end of the tokens. -/
def Diagnostic.AtEnd (stop : Position) (d : Diagnostic) : Prop := d.line = stop ∧ d.place = .atEnd

/-- The first statement is the second one without some of the `else` branches at its end. -/
inductive Stmt.Trims : Stmt → Stmt → Prop
  | refl {s : Stmt} : Trims s s
  | lost {condition : Expr} {yes' yes no : Stmt} :
      Trims yes' yes → Trims (.ifThen condition yes') (.ifElse condition yes no)
  | ifThen {condition : Expr} {yes' yes : Stmt} :
      Trims yes' yes → Trims (.ifThen condition yes') (.ifThen condition yes)
  | ifElse {condition : Expr} {yes no' no : Stmt} :
      Trims no' no → Trims (.ifElse condition yes no') (.ifElse condition yes no)
  | while_ {condition : Expr} {body' body : Stmt} :
      Trims body' body → Trims (.while_ condition body') (.while_ condition body)
  | for_ {clauses : ForClauses} {body' body : Stmt} :
      Trims body' body → Trims (clauses.loop body') (clauses.loop body)

/-- What is found where no tokens are left is found at the end. -/
theorem Trail.atEnd {stop : Position} {rest : List Token} {ds : List Diagnostic}
    (h : Trail stop [] rest ds) : ∀ d ∈ ds, d.AtEnd stop := by
  obtain ⟨-, ss, rfl, hss, -⟩ := h
  refine List.forall_mem_map.mpr fun s hs => ?_
  obtain ⟨tokens, problem⟩ := s
  obtain rfl : tokens = [] := List.suffix_nil.mp (hss _ hs).2
  exact ⟨rfl, rfl⟩

/-- Nothing that is less than the whole can be read. -/
def Never {α : Type} (_ _ : α) : Prop := False

/-- Whatever can be read will do. -/
def Always {α : Type} (_ _ : α) : Prop := True

/-! ## Phrases -/

namespace Phrase

variable {α β : Type} {m n m' n' : Nat}

/-- The phrase could not be read because the tokens ended. -/
def Ended (stop : Position) : Phrase α n → Prop
  | read _ _ _ _ => False
  | failed d rest ds _ => rest = [] ∧ ∀ e ∈ ds ++ [d], e.AtEnd stop

namespace Ended

variable {stop : Position}

theorem within {p : Phrase α m} {h : m ≤ n} (hp : p.Ended stop) : (p.within h).Ended stop := by
  cases p <;> exact hp

theorem map {p : Phrase α n} {f : α → β} (hp : p.Ended stop) : (p.map f).Ended stop := by
  cases p <;> exact hp

/-- What was reported before the end must point at the end as well. -/
theorem report {p : Phrase α n} {ds : List Diagnostic} (hp : p.Ended stop)
    (hds : ∀ d ∈ ds, d.AtEnd stop) : (p.report ds).Ended stop := by
  cases p with
  | read => exact hp
  | failed d rest ds' h =>
      refine ⟨hp.1, ?_⟩
      rw [List.append_assoc]
      exact List.forall_mem_append.mpr ⟨hds, hp.2⟩

/-- Where the first phrase finds the end, the second one is not read. -/
theorem andThen {p : Phrase α n}
    {next : (v : α) → (rest : List Token) → rest.length < n → Phrase β n} (hp : p.Ended stop) :
    (p.andThen next).Ended stop := by
  cases p with
  | read => exact hp.elim
  | failed => exact hp

/-- From no tokens nothing can be read, and so there is a mistake at the end. -/
theorem of_nil {p : Phrase α 0} (hp : p.Trails stop []) : p.Ended stop := by
  cases p with
  | read _ _ _ h => exact absurd h (Nat.not_lt_zero _)
  | failed d rest ds h =>
      exact ⟨List.eq_nil_of_length_eq_zero (Nat.le_zero.mp h), Trail.atEnd hp⟩

end Ended

/-- What may become of a phrase that was read as `v` up to `rest`, if `more` is missing: it is read
all the same, or a part of it is read up to the end, or it cannot be read because the tokens end. -/
def Broken (stop : Position) (more : List Token) (Part : α → α → Prop) (v : α) (rest : List Token)
    (p : Phrase α n) : Prop :=
  (∃ left, p.Reads v left ∧ rest = left ++ more) ∨ (∃ w, p.Reads w [] ∧ Part w v) ∨ p.Ended stop

/-- The first phrase is what becomes of the second one, if that is read cleanly. -/
def Breaks (stop : Position) (more : List Token) (Part : α → α → Prop) (p : Phrase α m)
    (p' : Phrase α m') : Prop :=
  ∀ v rest, p'.Reads v rest → p.Broken stop more Part v rest

section

variable {stop : Position} {more : List Token} {Part : α → α → Prop} {Part' : β → β → Prop}

/-- If the first phrase is whole, whatever happens to the second one happens to both. -/
theorem Broken.after {p : Phrase α n}
    {next : (v : α) → (rest : List Token) → rest.length < n → Phrase β n} {v : α} {w : β}
    {mid rest : List Token} (hp : p.Reads v mid)
    (hnext : (next v mid hp.length_lt).Broken stop more Part' w rest) :
    (p.andThen next).Broken stop more Part' w rest := by
  rcases hnext with ⟨left, hread, hrest⟩ | ⟨w', hread, hpart⟩ | hended
  · exact .inl ⟨left, reads_andThen.2 ⟨v, mid, hp, hread⟩, hrest⟩
  · exact .inr (.inl ⟨w', reads_andThen.2 ⟨v, mid, hp, hread⟩, hpart⟩)
  · refine .inr (.inr ?_)
    obtain ⟨h, rfl⟩ := hp
    exact hended.report (List.forall_mem_nil _)

namespace Breaks

theorem ended {p : Phrase α m} {p' : Phrase α m'} (hp : p.Ended stop) :
    p.Breaks stop more Part p' := fun _ _ _ => .inr (.inr hp)

/-- What cannot be read cleanly does not matter. -/
theorem of_not_reads {p : Phrase α m} {p' : Phrase α m'} (hp : ∀ v rest, ¬p'.Reads v rest) :
    p.Breaks stop more Part p' := fun v rest h => absurd h (hp v rest)

/-- What was read up to its rest is read in front of a shorter rest as well. -/
theorem read {v : α} {rest : List Token} {h : rest.length < m} {h' : (rest ++ more).length < m'} :
    (Phrase.read v rest [] h).Breaks stop more Part (.read v (rest ++ more) [] h') := by
  intro w rest' hread
  obtain ⟨rfl, rfl, -⟩ := reads_read.1 hread
  exact .inl ⟨rest, reads_read.2 ⟨rfl, rfl, rfl⟩, rfl⟩

theorem within {p : Phrase α m} {p' : Phrase α m'} {h : m ≤ n} {h' : m' ≤ n'}
    (hp : p.Breaks stop more Part p') :
    (p.within h).Breaks stop more Part (p'.within h') := by
  intro v rest hread
  rcases hp v rest (reads_within.1 hread) with ⟨left, hleft, hrest⟩ | ⟨w, hw, hpart⟩ | hended
  · exact .inl ⟨left, reads_within.2 hleft, hrest⟩
  · exact .inr (.inl ⟨w, reads_within.2 hw, hpart⟩)
  · exact .inr (.inr hended.within)

/-- The values may be made of others, if their parts are made of parts. -/
theorem map {p : Phrase α m} {p' : Phrase α m'} {f : α → β} (hp : p.Breaks stop more Part p')
    (hpart : ∀ w v, Part w v → Part' (f w) (f v)) :
    (p.map f).Breaks stop more Part' (p'.map f) := by
  intro u rest hread
  obtain ⟨v, hv, rfl⟩ := reads_map.1 hread
  rcases hp v rest hv with ⟨left, hleft, hrest⟩ | ⟨w, hw, hwv⟩ | hended
  · exact .inl ⟨left, reads_map.2 ⟨v, hleft, rfl⟩, hrest⟩
  · exact .inr (.inl ⟨f w, reads_map.2 ⟨w, hw, rfl⟩, hpart w v hwv⟩)
  · exact .inr (.inr hended.map)

/-- No report may be missing from what is read cleanly. -/
theorem report {p : Phrase α m} {p' : Phrase α m'} {ds ds' : List Diagnostic}
    (hp : p.Breaks stop more Part p') (hds : ds' = [] → ds = []) :
    (p.report ds).Breaks stop more Part (p'.report ds') := by
  intro v rest hread
  obtain ⟨hnil, hv⟩ := reads_report.1 hread
  rw [hds hnil]
  rcases hp v rest hv with ⟨left, hleft, hrest⟩ | ⟨w, hw, hpart⟩ | hended
  · exact .inl ⟨left, reads_report.2 ⟨rfl, hleft⟩, hrest⟩
  · exact .inr (.inl ⟨w, reads_report.2 ⟨rfl, hw⟩, hpart⟩)
  · exact .inr (.inr (hended.report (List.forall_mem_nil _)))

/-- Behind a part of a phrase the tokens are at their end. -/
theorem andThen {p : Phrase α m} {p' : Phrase α m'}
    {next : (v : α) → (rest : List Token) → rest.length < m → Phrase β m}
    {next' : (v : α) → (rest : List Token) → rest.length < m' → Phrase β m'}
    (hp : p.Breaks stop more Part p')
    (hnext : ∀ v rest h h',
      (next v rest h).Breaks stop more Part' (next' v (rest ++ more) h'))
    (hpart : ∀ w v rest h h', Part w v →
      (next w [] h).Breaks stop more Part' (next' v rest h')) :
    (p.andThen next).Breaks stop more Part' (p'.andThen next') := by
  intro u rest hread
  obtain ⟨v, mid, hv, hu⟩ := reads_andThen.1 hread
  rcases hp v mid hv with ⟨left, hleft, rfl⟩ | ⟨w, hw, hwv⟩ | hended
  · exact .after hleft (hnext v left _ _ u rest hu)
  · exact .after hw (hpart w v mid _ _ hwv u rest hu)
  · exact .inr (.inr hended.andThen)

/-- What cannot be read in part may as well break off anywhere. -/
theorem of_never {p : Phrase α m} {p' : Phrase α m'} (hp : p.Breaks stop more Never p') :
    p.Breaks stop more Part p' := by
  intro v rest hread
  rcases hp v rest hread with hwhole | ⟨_, _, hnever⟩ | hended
  · exact .inl hwhole
  · exact hnever.elim
  · exact .inr (.inr hended)

theorem map_never {p : Phrase α m} {p' : Phrase α m'} {f : α → β}
    (hp : p.Breaks stop more Never p') : (p.map f).Breaks stop more Part' (p'.map f) :=
  hp.map fun _ _ h => h.elim

/-- If no part of the first phrase can be read, nothing has to be known about what is read of it.
-/
theorem andThen_never {p : Phrase α m} {p' : Phrase α m'}
    {next : (v : α) → (rest : List Token) → rest.length < m → Phrase β m}
    {next' : (v : α) → (rest : List Token) → rest.length < m' → Phrase β m'}
    (hp : p.Breaks stop more Never p')
    (hnext : ∀ v rest h h',
      (next v rest h).Breaks stop more Part' (next' v (rest ++ more) h')) :
    (p.andThen next).Breaks stop more Part' (p'.andThen next') :=
  hp.andThen hnext fun _ _ _ _ _ h => h.elim

end Breaks

end

end Phrase

namespace Grammar

open Phrase

variable {stop stop' : Position} {more : List Token}

/-- What is left at the end of the tokens may be any part. -/
theorem breaks_always {n n' : Nat} {α : Type} {v : α} {h : [].length < n} {p' : Phrase α n'} :
    (Phrase.read v [] [] h).Breaks stop more Always p' :=
  fun _ _ _ => .inr (.inl ⟨v, reads_read.2 ⟨rfl, rfl, rfl⟩, trivial⟩)

theorem ended_mark {p : Punct} {spot : Spot} : (mark stop p spot []).Ended stop :=
  .of_nil (trails_mark p spot [])

/-! ## Single tokens -/

/-- Where the next token is missing, the choice is made as if there were another one, and the rest
of it is lost. -/
theorem breaks_ifNext {β : Type} {n n' : Nat} {Part : β → β → Prop} {kind : Kind} {ts : List Token}
    {h : ts.length < n} {h' : (ts ++ more).length < n'}
    {yes : (t : Token) → (rest : List Token) → rest.length + 1 < n → Phrase β n} {no : Phrase β n}
    {yes' : (t : Token) → (rest : List Token) → rest.length + 1 < n' → Phrase β n'}
    {no' : Phrase β n'}
    (hyes : ∀ t rest h h', (yes t rest h).Breaks stop more Part (yes' t (rest ++ more) h'))
    (hno : no.Breaks stop more Part no')
    (hnil : ts = [] → no.Breaks stop more Part (ifNext kind (ts ++ more) h' yes' no')) :
    (ifNext kind ts h yes no).Breaks stop more Part (ifNext kind (ts ++ more) h' yes' no') := by
  cases ts with
  | nil => exact hnil rfl
  | cons t rest =>
      by_cases ht : t.kind = kind
      · simp only [List.cons_append, ifNext, if_pos ht]
        exact hyes t rest _ _
      · simp only [List.cons_append, ifNext, if_neg ht]
        exact hno

/-- Without its mark, the phrase ends where the tokens do. -/
theorem breaks_mark (p : Punct) (spot : Spot) (ts : List Token) :
    (mark stop p spot ts).Breaks stop more Never (mark stop' p spot (ts ++ more)) := by
  cases ts with
  | nil => exact .ended ended_mark
  | cons t rest =>
      by_cases ht : t.kind = .punct p
      · simp only [List.cons_append, mark, if_pos ht]
        exact .read
      · simp only [List.cons_append, mark, if_neg ht]
        exact .of_not_reads fun _ _ => not_reads_failHere

theorem breaks_name (role : Role) (ts : List Token) :
    (name stop role ts).Breaks stop more Never (name stop' role (ts ++ more)) := by
  cases ts with
  | nil => exact .ended (.of_nil (trails_name role []))
  | cons t rest =>
      obtain ⟨kind, lexeme, line⟩ := t
      cases kind with
      | identifier x => exact .read
      | _ => exact .of_not_reads fun _ _ => not_reads_failHere

/-! ## Expressions

An expression can end early wherever it may end at all.  It does not matter what is read of it,
since a token has to follow.
-/

/-- An assignment that lost the end of its value is still one, if its target is a variable. -/
theorem breaks_assignment {n n' : Nat} {target w v : Expr} {equals : Token} {rest : List Token}
    {h : [].length < n} {h' : rest.length < n'} :
    (assignment target equals w [] h).Breaks stop more Always
      (assignment target equals v rest h') := by
  cases target with
  | var => exact breaks_always
  | _ => exact .of_not_reads fun _ _ hread => nomatch (reads_assignment.1 hread).choose_spec

/-- In front of a parenthesis, what is primary is an expression up to the other one. -/
theorem primary_of_leftParen {t : Token} {ts : List Token} (ht : t.kind = .punct .leftParen) :
    primary stop (t :: ts) =
      ((expression stop ts).within (length_le_cons t ts)).andThen fun inner rest h =>
        ((mark stop .rightParen .afterExpression rest).within (length_le_of_lt h)).map
          fun _ => .group inner := by
  obtain ⟨kind, lexeme, line⟩ := t
  subst ht
  rw [primary]
  rfl

mutual

/-- An expression that breaks off is read up to the end in part, or the mistake in it is found
there. -/
theorem breaks_expression (stop stop' : Position) (more ts : List Token) :
    (expression stop ts).Breaks stop more Always (expression stop' (ts ++ more)) := by
  unfold expression
  refine (breaks_conditional stop stop' more ts).andThen (fun target rest h h' => ?_)
    fun _ _ _ _ _ _ => breaks_always
  refine breaks_ifNext (fun equals rest h h' => ?_) .read (by rintro rfl; exact breaks_always)
  refine (breaks_expression stop stop' more rest).within.andThen (fun value rest h h' => ?_)
    fun _ _ _ _ _ _ => breaks_assignment
  cases target with
  | var => exact .read
  | _ => exact .of_not_reads fun _ _ hread => nomatch (reads_assignment.1 hread).choose_spec
termination_by ts.length * 32 + 16

theorem breaks_conditional (stop stop' : Position) (more ts : List Token) :
    (conditional stop ts).Breaks stop more Always (conditional stop' (ts ++ more)) := by
  unfold conditional
  refine (breaks_binary stop stop' more .or ts).andThen (fun condition rest h h' => ?_)
    fun _ _ _ _ _ _ => breaks_always
  refine breaks_ifNext (fun question rest h h' => ?_) .read (by rintro rfl; exact breaks_always)
  refine (breaks_expression stop stop' more rest).within.andThen (fun yes rest h h' => ?_)
    fun _ _ _ _ _ _ => .ended ended_mark.within.andThen
  refine (breaks_mark .colon .afterThenBranch rest).within.andThen_never fun _ rest h h' => ?_
  exact (breaks_conditional stop stop' more rest).within.map fun _ _ _ => trivial
termination_by ts.length * 32 + 15
decreasing_by all_goals have := Level.or.rank_le; omega

theorem breaks_binary (stop stop' : Position) (more : List Token) (level : Level)
    (ts : List Token) :
    (binary stop level ts).Breaks stop more Always (binary stop' level (ts ++ more)) := by
  unfold binary
  refine (breaks_operand stop stop' more level ts).andThen (fun left rest h h' => ?_)
    fun _ _ _ _ _ _ => ?_
  · exact (breaks_chain stop stop' more level left rest).within
  · unfold chain
    exact breaks_always
termination_by ts.length * 32 + 2 * level.rank + 4

theorem breaks_operand (stop stop' : Position) (more : List Token) (level : Level)
    (ts : List Token) :
    (operand stop level ts).Breaks stop more Always (operand stop' level (ts ++ more)) := by
  cases level <;> unfold operand
  case factor => exact breaks_unary stop stop' more ts
  all_goals exact breaks_binary stop stop' more _ ts
termination_by ts.length * 32 + 2 * level.rank + 3
decreasing_by all_goals subst_vars; simp [Level.rank]

/-- A chain that breaks off behind an operand is shorter. -/
theorem breaks_chain (stop stop' : Position) (more : List Token) (level : Level) (left : Expr)
    (ts : List Token) :
    (chain stop level left ts).Breaks stop more Always (chain stop' level left (ts ++ more)) := by
  cases ts with
  | nil =>
      unfold chain
      exact breaks_always
  | cons t ts =>
      rw [List.cons_append]
      unfold chain
      cases t.kind.connectiveAt? level with
      | none => exact .read
      | some op =>
          refine .within (.andThen (breaks_operand stop stop' more level ts)
            (fun right rest h h' => ?_) fun _ _ _ _ _ _ => ?_)
          · exact (breaks_chain stop stop' more level _ rest).within
          · unfold chain
            exact breaks_always
termination_by ts.length * 32
decreasing_by all_goals have := level.rank_le; subst_vars; simp only [List.length_cons]; omega

theorem breaks_unary (stop stop' : Position) (more ts : List Token) :
    (unary stop ts).Breaks stop more Always (unary stop' (ts ++ more)) := by
  cases ts with
  | nil => exact .ended (.of_nil (trails_unary stop []))
  | cons t ts =>
      rw [List.cons_append]
      unfold unary
      cases t.kind.unaryOp? with
      | none => exact breaks_call stop stop' more (t :: ts)
      | some op => exact (breaks_unary stop stop' more ts).within.map fun _ _ _ => trivial
termination_by ts.length * 32 + 2

theorem breaks_call (stop stop' : Position) (more ts : List Token) :
    (call stop ts).Breaks stop more Always (call stop' (ts ++ more)) := by
  unfold call
  refine (breaks_primary stop stop' more ts).andThen_never fun callee rest h h' => ?_
  exact (breaks_calls stop stop' more callee rest).within
termination_by ts.length * 32 + 1

theorem breaks_calls (stop stop' : Position) (more : List Token) (callee : Expr) (ts : List Token) :
    (calls stop callee ts).Breaks stop more Always (calls stop' callee (ts ++ more)) := by
  unfold calls
  refine breaks_ifNext (fun opening rest h h' => ?_) .read (by rintro rfl; exact breaks_always)
  refine .within (.andThen_never (breaks_arguments stop stop' more rest) fun args rest h h' => ?_)
  exact (breaks_calls stop stop' more _ rest).within
termination_by ts.length * 32 + 19

/-- Without their parenthesis, arguments are not read at all. -/
theorem breaks_arguments (stop stop' : Position) (more ts : List Token) :
    (arguments stop ts).Breaks stop more Never (arguments stop' (ts ++ more)) := by
  unfold arguments
  refine breaks_ifNext (fun closing rest h h' => .read)
    (breaks_argumentList stop stop' more 0 ts).within ?_
  rintro rfl
  exact .ended (Ended.of_nil (trails_argumentList stop 0 [])).within
termination_by ts.length * 32 + 18

/-- Nor are they counted as read one by one. -/
theorem breaks_argumentList (stop stop' : Position) (more : List Token) (count : Nat)
    (ts : List Token) :
    (argumentList stop count ts).Breaks stop more Never
      (argumentList stop' count (ts ++ more)) := by
  unfold argumentList
  refine .report (.andThen (breaks_expression stop stop' more ts) (fun arg rest h h' => ?_)
    fun arg _ _ _ _ _ => .ended ?_) fun h => arity_reports_eq_nil.2 (arity_reports_eq_nil.1 h)
  case refine_2 =>
    rw [ifNext_nil]
    exact ended_mark.within.map
  refine breaks_ifNext (fun comma rest h h' => ?_) ?_ ?_
  · exact (breaks_argumentList stop stop' more (count + 1) rest).within.map_never
  · exact (breaks_mark .rightParen .afterArguments rest).within.map_never
  · rintro rfl
    exact .ended ended_mark.within.map
termination_by ts.length * 32 + 17

/-- A parenthesis that is opened has to be closed, and whatever else can be read is a single
token. -/
theorem breaks_primary (stop stop' : Position) (more ts : List Token) :
    (primary stop ts).Breaks stop more Never (primary stop' (ts ++ more)) := by
  cases ts with
  | nil => exact .ended (.of_nil (trails_primary stop []))
  | cons t ts =>
      rw [List.cons_append]
      by_cases hopening : t.kind = .punct .leftParen
      · rw [primary_of_leftParen hopening, primary_of_leftParen hopening]
        refine (breaks_expression stop stop' more ts).within.andThen (fun inner rest h h' => ?_)
          fun _ _ _ _ _ _ => ?_
        · exact (breaks_mark .rightParen .afterExpression rest).within.map_never
        · exact .ended ended_mark.within.map
      · intro e rest hread
        obtain ⟨_, _, ⟨⟩, ⟨value, hvalue, he, rfl⟩ | ⟨x, hx, he, rfl⟩ | ⟨hkind, _⟩⟩ :=
          reads_primary.1 hread
        · exact .inl ⟨ts, reads_primary.2 ⟨t, ts, rfl, .inl ⟨value, hvalue, he, rfl⟩⟩, rfl⟩
        · exact .inl ⟨ts, reads_primary.2 ⟨t, ts, rfl, .inr (.inl ⟨x, hx, he, rfl⟩)⟩, rfl⟩
        · exact absurd hkind hopening
termination_by ts.length * 32

end

/-! ## Statements -/

/-- Without its mark, an expression is no use, however much of it could be read. -/
theorem breaks_expressionBefore (p : Punct) (spot : Spot) (ts : List Token) :
    (expressionBefore stop p spot ts).Breaks stop more Never
      (expressionBefore stop' p spot (ts ++ more)) := by
  refine (breaks_expression stop stop' more ts).andThen (fun e rest h h' => ?_)
    fun _ _ _ _ _ _ => .ended ended_mark.within.map
  exact (breaks_mark p spot rest).within.map_never

theorem breaks_optionalBefore (p : Punct) (spot : Spot) (ts : List Token) :
    (optionalBefore stop p spot ts).Breaks stop more Never
      (optionalBefore stop' p spot (ts ++ more)) := by
  cases ts with
  | nil => exact .ended (.of_nil (trails_optionalBefore p spot []))
  | cons t ts =>
      by_cases ht : t.kind = .punct p
      · simp only [List.cons_append, optionalBefore, if_pos ht]
        exact .read
      · simp only [List.cons_append, optionalBefore, if_neg ht]
        exact (breaks_expressionBefore p spot (t :: ts)).map_never

theorem breaks_parenthesized (opening closing : Spot) (ts : List Token) :
    (parenthesized stop opening closing ts).Breaks stop more Never
      (parenthesized stop' opening closing (ts ++ more)) := by
  refine (breaks_mark .leftParen opening ts).andThen_never fun _ rest h h' => ?_
  exact (breaks_expressionBefore .rightParen closing rest).within

theorem breaks_variableDeclaration (ts : List Token) :
    (variableDeclaration stop ts).Breaks stop more Never
      (variableDeclaration stop' (ts ++ more)) := by
  refine (breaks_name .variable_ ts).andThen_never fun x rest h h' => ?_
  refine breaks_ifNext (fun equals rest h h' => ?_) ?_ ?_
  · exact (breaks_expressionBefore .semicolon _ rest).within.map_never
  · exact (breaks_mark .semicolon _ rest).within.map_never
  · rintro rfl
    exact .ended ended_mark.within.map

/-- What a loop does first needs its semicolon. -/
theorem breaks_forInit (ts : List Token) :
    (forInit stop ts).Breaks stop more Never (forInit stop' (ts ++ more)) := by
  cases ts with
  | nil => exact .ended (.of_nil (trails_forInit []))
  | cons t ts =>
      rw [List.cons_append, forInit, forInit]
      split
      · exact .read
      split
      · exact (breaks_variableDeclaration ts).within.map_never
      · exact (breaks_expressionBefore .semicolon _ (t :: ts)).map_never

theorem breaks_forClauses (ts : List Token) :
    (forClauses stop ts).Breaks stop more Never (forClauses stop' (ts ++ more)) := by
  refine (breaks_mark .leftParen .afterFor ts).andThen_never fun _ rest h h' => ?_
  refine (breaks_forInit rest).within.andThen_never fun init rest h h' => ?_
  refine (breaks_optionalBefore .semicolon _ rest).within.andThen_never
    fun condition rest h h' => ?_
  exact (breaks_optionalBefore .rightParen _ rest).within.map_never

/-- Without their parenthesis, parameters are not read at all. -/
theorem breaks_parameterList (count : Nat) (ts : List Token) :
    (parameterList stop count ts).Breaks stop more Never
      (parameterList stop' count (ts ++ more)) := by
  unfold parameterList
  refine .report (.andThen_never (breaks_name .parameter ts) fun x rest h h' => ?_)
    fun h => arity_reports_eq_nil.2 (arity_reports_eq_nil.1 h)
  refine breaks_ifNext (fun comma rest h h' => ?_) ?_ ?_
  · exact (breaks_parameterList (count + 1) rest).within.map_never
  · exact (breaks_mark .rightParen .afterParameters rest).within.map_never
  · rintro rfl
    exact .ended ended_mark.within.map
termination_by ts.length

theorem breaks_parameters (ts : List Token) :
    (parameters stop ts).Breaks stop more Never (parameters stop' (ts ++ more)) := by
  refine breaks_ifNext (fun closing rest h h' => .read) (breaks_parameterList 0 ts).within ?_
  rintro rfl
  exact .ended (Ended.of_nil (trails_parameterList 0 [])).within

theorem breaks_functionHead (ts : List Token) :
    (functionHead stop ts).Breaks stop more Never (functionHead stop' (ts ++ more)) := by
  refine (breaks_name .function ts).andThen_never fun f rest h h' => ?_
  refine (breaks_mark .leftParen _ rest).within.andThen_never fun _ rest h h' => ?_
  refine (breaks_parameters rest).within.andThen_never fun params rest h h' => ?_
  exact (breaks_mark .leftCurly .beforeFunctionBody rest).within.map_never

/-- If the tokens end where an `else` may follow, there is none. -/
theorem breaks_missingElse {n n' : Nat} {condition : Expr} {yes yes' : Stmt} {ts : List Token}
    {h : [].length < n} {h' : ts.length < n'} (hyes : yes'.Trims yes)
    {no : (t : Token) → (rest : List Token) → rest.length + 1 < n' → Phrase Stmt n'} :
    (Phrase.read (.ifThen condition yes') [] [] h).Breaks stop more Stmt.Trims
      (ifNext (.keyword .else_) ts h'
        (fun t rest h => (no t rest h).map fun no => .ifElse condition yes no)
        (Phrase.read (.ifThen condition yes) ts [] h')) := by
  intro s rest hread
  have hlost : s = .ifThen condition yes ∨ ∃ no, s = .ifElse condition yes no := by
    rcases reads_ifNext.1 hread with ⟨_, _, _, _, hno⟩ | ⟨_, hno⟩
    · obtain ⟨no, -, rfl⟩ := reads_map.1 hno
      exact .inr ⟨no, rfl⟩
    · exact .inl (reads_read.1 hno).1.symm
  refine .inr (.inl ⟨.ifThen condition yes', reads_read.2 ⟨rfl, rfl, rfl⟩, ?_⟩)
  rcases hlost with rfl | ⟨no, rfl⟩
  · exact .ifThen hyes
  · exact .lost hyes

/-- A declaration that breaks off is dropped, and nothing is left behind it. -/
theorem ended_settle {α : Type} {n : Nat} {p : Phrase α n} {h : 0 < n} (hp : p.Ended stop) :
    (p.settle h).value = none ∧ (p.settle h).rest = [] ∧
      ∀ d ∈ (p.settle h).reports, d.AtEnd stop := by
  cases p with
  | read => exact hp.elim
  | failed d rest ds hrest =>
      obtain ⟨rfl, hds⟩ := hp
      exact ⟨rfl, rfl, hds⟩

/-- A block is not closed if the tokens end in it. -/
theorem ended_block {scope : Scope} {t : Token} {ts : List Token}
    (ht : t.kind ≠ .punct .rightCurly)
    (hreports : ∀ d ∈ ((declaration stop scope (t :: ts)).settle (Nat.succ_pos _)).reports,
      d.AtEnd stop)
    (hothers : (block stop scope
      ((declaration stop scope (t :: ts)).settle (Nat.succ_pos _)).rest).Ended stop) :
    (block stop scope (t :: ts)).Ended stop := by
  unfold block
  rw [if_neg ht]
  exact hothers.within.map.report hreports

/-- A block without its brace breaks off at the end. -/
theorem ended_block_nil (scope : Scope) : (block stop scope []).Ended stop :=
  .of_nil (trails_block stop scope [])

mutual

/-- A declaration that breaks off can lose some `else` branches, and nothing else. -/
theorem breaks_declaration (stop stop' : Position) (more : List Token) (scope : Scope)
    (ts : List Token) :
    (declaration stop scope ts).Breaks stop more Stmt.Trims
      (declaration stop' scope (ts ++ more)) := by
  cases ts with
  | nil => exact .ended (.of_nil (trails_declaration stop scope []))
  | cons t ts =>
      rw [List.cons_append]
      unfold declaration
      by_cases hfun : t.kind = .keyword .fun_
      · rw [if_pos hfun, if_pos hfun]
        refine .within ((breaks_functionHead ts).andThen_never fun head rest h h' => ?_)
        exact (breaks_block stop stop' more scope.function rest).within.map_never
      rw [if_neg hfun, if_neg hfun]
      by_cases hvar : t.kind = .keyword .var_
      · rw [if_pos hvar, if_pos hvar]
        exact (breaks_variableDeclaration ts).of_never.within
      · rw [if_neg hvar, if_neg hvar]
        exact breaks_statement stop stop' more scope (t :: ts)
termination_by ts.length * 4 + 2

/-- And so can a statement. -/
theorem breaks_statement (stop stop' : Position) (more : List Token) (scope : Scope)
    (ts : List Token) :
    (statement stop scope ts).Breaks stop more Stmt.Trims (statement stop' scope (ts ++ more)) := by
  cases ts with
  | nil => exact .ended (.of_nil (trails_statement stop scope []))
  | cons t ts =>
      obtain ⟨kind, lexeme, line⟩ := t
      have other : ((expressionBefore stop .semicolon .afterExpression
            (⟨kind, lexeme, line⟩ :: ts)).map Stmt.expr).Breaks stop more Stmt.Trims
          ((expressionBefore stop' .semicolon .afterExpression
            (⟨kind, lexeme, line⟩ :: ts ++ more)).map Stmt.expr) :=
        (breaks_expressionBefore .semicolon .afterExpression (⟨kind, lexeme, line⟩ :: ts)).map_never
      rw [List.cons_append] at other ⊢
      unfold statement
      cases kind with
      | punct p =>
          cases p
          case leftCurly => exact (breaks_block stop stop' more scope ts).within.map_never
          all_goals exact other
      | keyword k =>
          cases k
          case print_ => exact (breaks_expressionBefore .semicolon .afterValue ts).within.map_never
          case if_ =>
            refine .within ((breaks_parenthesized .afterIf .afterIfCondition ts).andThen_never
              fun condition rest h h' => ?_)
            refine (breaks_statement stop stop' more scope rest).within.andThen
              (fun yes rest h h' => ?_) fun yes' yes rest h h' hyes => breaks_missingElse hyes
            refine breaks_ifNext (fun _ rest h h' => ?_) .read ?_
            · exact (breaks_statement stop stop' more scope rest).within.map fun _ _ => .ifElse
            · rintro rfl
              exact breaks_missingElse .refl
          case while_ =>
            refine .within ((breaks_parenthesized .afterWhile .afterCondition ts).andThen_never
              fun condition rest h h' => ?_)
            exact (breaks_statement stop stop' more scope.loop rest).within.map fun _ _ => .while_
          case for_ =>
            refine .within ((breaks_forClauses ts).andThen_never fun clauses rest h h' => ?_)
            exact (breaks_statement stop stop' more scope.loop rest).within.map fun _ _ => .for_
          case break_ =>
            exact .report (breaks_mark .semicolon .afterBreak ts).within.map_never id
          case return_ =>
            exact .report (breaks_optionalBefore .semicolon .afterReturnValue ts).within.map_never
              id
          all_goals exact other
      | _ => exact other
termination_by ts.length * 4 + 1

/-- A block that breaks off lacks at least its brace. -/
theorem breaks_block (stop stop' : Position) (more : List Token) (scope : Scope) (ts : List Token) :
    (block stop scope ts).Breaks stop more Never (block stop' scope (ts ++ more)) := by
  cases ts with
  | nil => exact .ended (.of_nil (trails_block stop scope []))
  | cons t ts =>
      intro body rest hread
      obtain ⟨_, _, ⟨⟩, ⟨ht, hbody, rfl⟩ | ⟨ht, first, mid, hfirst, others, hothers, rfl⟩⟩ :=
        reads_block.1 hread
      · exact .inl ⟨ts, reads_block.2 ⟨t, ts, rfl, .inl ⟨ht, hbody, rfl⟩⟩, rfl⟩
      rcases breaks_declaration stop stop' more scope (t :: ts) first mid hfirst with
        ⟨left, hleft, rfl⟩ | ⟨w, hw, -⟩ | hended
      · -- The first declaration is whole, and what is missing is missing from the others.
        have hlt : left.length < ts.length + 1 := hleft.length_lt
        rcases breaks_block stop stop' more scope left others rest hothers with
          ⟨left', hread', hrest⟩ | ⟨_, _, hnever⟩ | hended
        · refine .inl ⟨left', reads_block.2 ⟨t, ts, rfl, .inr ⟨ht, ?_⟩⟩, hrest⟩
          exact ⟨first, left, hleft, others, hread', rfl⟩
        · exact hnever.elim
        · obtain ⟨-, hrest, hreports⟩ := settle_of_reads (h := Nat.succ_pos _) hleft
          exact .inr (.inr (ended_block ht (by simp [hreports]) (hrest ▸ hended)))
      · obtain ⟨-, hrest, hreports⟩ := settle_of_reads (h := Nat.succ_pos _) hw
        exact .inr (.inr (ended_block ht (by simp [hreports]) (hrest ▸ ended_block_nil scope)))
      · obtain ⟨-, hrest, hreports⟩ := ended_settle (h := Nat.succ_pos _) hended
        exact .inr (.inr (ended_block ht hreports (hrest ▸ ended_block_nil scope)))
termination_by ts.length * 4 + 3
decreasing_by all_goals simp only [List.length_cons]; omega

end

/-! ## Programs -/

/-- What is kept of a program that breaks off, and where its mistakes are. -/
theorem declarations_breaks (stop stop' : Position) (more ts : List Token) {ss : List Stmt}
    (hread : declarations stop' (ts ++ more) = ⟨ss, []⟩) :
    (∀ d ∈ (declarations stop ts).diagnostics, d.AtEnd stop) ∧
      ∀ done last, (declarations stop ts).statements = done ++ [last] →
        ∃ s others, ss = done ++ s :: others ∧ last.Trims s := by
  cases ts with
  | nil =>
      rw [declarations]
      exact ⟨List.forall_mem_nil _, fun done last h => absurd h (by simp)⟩
  | cons t ts =>
      rw [declarations_cons]
      obtain ⟨⟨⟩, _⟩ | ⟨v, mid, hv, others, hothers, rfl⟩ := declarations_eq_iff.1 hread
      have hempty : declarations stop [] = ⟨[], []⟩ := by rw [declarations]
      rcases breaks_declaration stop stop' more {} (t :: ts) v mid hv with
        ⟨left, hleft, rfl⟩ | ⟨w, hw, hwv⟩ | hended
      · -- The first declaration is whole.
        have hlt : left.length < ts.length + 1 := hleft.length_lt
        obtain ⟨hvalue, hrest, hreports⟩ := settle_of_reads (h := length_cons_pos t ts) hleft
        obtain ⟨hdiagnostics, hstatements⟩ := declarations_breaks stop stop' more left hothers
        rw [first, hvalue, hrest, hreports]
        refine ⟨hdiagnostics, fun done last hlast => ?_⟩
        cases done with
        | nil => exact ⟨v, others, rfl, (List.cons.inj hlast).1 ▸ .refl⟩
        | cons s done =>
            obtain ⟨rfl, hdone⟩ := List.cons.inj hlast
            obtain ⟨s', others', rfl, htrims⟩ := hstatements done last hdone
            exact ⟨s', others', rfl, htrims⟩
      · -- Only a part of it is left, and it is the last one.
        obtain ⟨hvalue, hrest, hreports⟩ := settle_of_reads (h := length_cons_pos t ts) hw
        rw [first, hvalue, hrest, hreports, hempty]
        refine ⟨List.forall_mem_nil _, fun done last hlast => ?_⟩
        obtain ⟨rfl, rfl⟩ : done = [] ∧ w = last := by
          cases done with
          | nil => exact ⟨rfl, (List.cons.inj hlast).1⟩
          | cons => exact absurd (List.cons.inj hlast).2 (by simp)
        exact ⟨v, others, rfl, hwv⟩
      · obtain ⟨hvalue, hrest, hreports⟩ := ended_settle (h := length_cons_pos t ts) hended
        rw [first, hvalue, hrest, hempty]
        refine ⟨by simpa [Program.append] using hreports, fun done last hlast => ?_⟩
        exact absurd hlast (by simp [Program.append])
termination_by ts.length

end Grammar

/-- What stands in front of the end mark in the first tokens stands there in all of them. -/
theorem Token.body_prefix (ts more : List Token) : body ts <+: body (ts ++ more) := by
  induction ts with
  | nil => exact List.nil_prefix
  | cons t ts ih =>
      simp only [body, List.cons_append, List.takeWhile_cons]
      split
      · exact List.cons_prefix_cons.mpr ⟨rfl, ih⟩
      · exact List.prefix_rfl

/-- A program that is read without a report fails at its end only, wherever it breaks off.  All
declarations that are kept are kept as they were, apart from the last one, which may have lost
`else` branches at its end. -/
theorem parse_take (ts : List Token) (n : Nat) (hclean : (parse ts).diagnostics = []) :
    (∀ d ∈ (parse (ts.take n)).diagnostics, d.AtEnd (Token.stopLine (ts.take n))) ∧
      ∀ done last, (parse (ts.take n)).statements = done ++ [last] →
        ∃ s others, (parse ts).statements = done ++ s :: others ∧ last.Trims s := by
  obtain ⟨more, hmore⟩ := Token.body_prefix (ts.take n) (ts.drop n)
  rw [List.take_append_drop] at hmore
  have hread : Grammar.declarations (Token.stopLine ts) (Token.body (ts.take n) ++ more) =
      ⟨(parse ts).statements, []⟩ := by
    rw [hmore]
    exact Grammar.eq_of_diagnostics_eq_nil hclean
  exact Grammar.declarations_breaks _ _ more _ hread

/-- Of `if (true) nil; else print nil;` the `else` is lost if the tokens end in front of it, and
nothing is left if they end in front of the last semicolon. -/
theorem parse_take_in_branches :
    let ts : List Token := [⟨.keyword .if_, "if", 1⟩, ⟨.punct .leftParen, "(", 1⟩,
      ⟨.keyword .true_, "true", 1⟩, ⟨.punct .rightParen, ")", 1⟩,
      ⟨.keyword .nil_, "nil", 2⟩, ⟨.punct .semicolon, ";", 2⟩, ⟨.keyword .else_, "else", 3⟩,
      ⟨.keyword .print_, "print", 3⟩, ⟨.keyword .nil_, "nil", 3⟩, ⟨.punct .semicolon, ";", 3⟩]
    let yes : Stmt := .ifThen (.literal (.bool true)) (.expr (.literal .nil))
    (parse ts).diagnostics = [] ∧
      (∃ s others, (parse ts).statements = s :: others ∧ yes.Trims s) ∧
      (parse (ts.take 9)).diagnostics = [⟨3, .atEnd, .expectedPunct .semicolon .afterValue⟩] ∧
      ∀ d ∈ (parse (ts.take 9)).diagnostics, d.AtEnd 3 := by
  intro ts yes
  have hclean : (parse ts).diagnostics = [] := by decide +kernel
  have hkept : (parse (ts.take 6)).statements = [] ++ [yes] := by cbv
  refine ⟨hclean, ?_, by decide +kernel, (parse_take ts 9 hclean).1⟩
  exact (parse_take ts 6 hclean).2 [] yes hkept

end Lox
