import Lox.Proofs.Grammar.Printing
import Lox.Proofs.Grammar.Trail

/-!
# Offences

Four of the problems are offences: what is found fault with can be read all the same and stays in
the program.  Each offence in a program was reported.  If nothing but offences was reported, then
nothing was reported that is not in the program either, and the program is all that was written.
-/

namespace Lox

/-- Whether what the problem is about stays in the program as it was written. -/
def Problem.isOffence : Problem → Bool
  | breakOutsideLoop | returnOutsideFunction | tooManyArguments | tooManyParameters => true
  | _ => false

/-- The offences in an expression: one for each argument of a call beyond `maxArity`. -/
def Expr.offences : Expr → List Problem
  | literal _ => []
  | group e => e.offences
  | unary _ e _ => e.offences
  | binary _ left right _ => left.offences ++ right.offences
  | logical _ left right => left.offences ++ right.offences
  | conditional condition yes no => condition.offences ++ yes.offences ++ no.offences
  | var _ _ => []
  | assign _ value _ => value.offences
  | call callee args _ =>
    callee.offences ++ args.flatMap offences ++
      .replicate (args.length - maxArity) .tooManyArguments

def optionOffences : Option Expr → List Problem
  | none => []
  | some e => e.offences

def ForInit.offences : ForInit → List Problem
  | none => []
  | var _ init => optionOffences init
  | expr e => e.offences

/-- The offences in a statement, where `looped` says whether a loop is around it, within the
function around it if there is one, and `called` whether there is a function around it: one for each
`break` outside of loops, one for each `return` outside of functions, one for each parameter of a
function beyond `maxArity`, and those in its expressions. -/
def Stmt.offences (looped called : Bool) : Stmt → List Problem
  | expr e => e.offences
  | print e => e.offences
  | var _ init => optionOffences init
  | block body => body.flatMap (offences looped called)
  | ifThen condition yes => condition.offences ++ yes.offences looped called
  | ifElse condition yes no =>
    condition.offences ++ yes.offences looped called ++ no.offences looped called
  | while_ condition body => condition.offences ++ body.offences true called
  | break_ => if looped then [] else [.breakOutsideLoop]
  | function _ params body =>
    body.flatMap (offences false true) ++ .replicate (params.length - maxArity) .tooManyParameters
  | return_ e => (if called then [] else [.returnOutsideFunction]) ++ optionOffences e

/-- How many of `n` items, after `count` others, are beyond `maxArity`. -/
def excess (count n : Nat) : Nat := count + n - maxArity - (count - maxArity)

/-- Each item beyond the bound is reported when it is met. -/
theorem replicate_excess_succ (count n : Nat) (q : Problem) :
    List.replicate (excess count (n + 1)) q =
      (if maxArity ≤ count then [q] else []) ++ .replicate (excess (count + 1) n) q := by
  by_cases h : maxArity ≤ count
  · have hsucc : excess count (n + 1) = excess (count + 1) n + 1 := by grind [excess]
    rw [hsucc, if_pos h, List.replicate_succ, List.singleton_append]
  · have hsame : excess count (n + 1) = excess (count + 1) n := by grind [excess]
    rw [hsame, if_neg h, List.nil_append]

theorem excess_zero (n : Nat) : excess 0 n = n - maxArity := by
  rw [excess, Nat.zero_add, Nat.zero_sub, Nat.sub_zero]

/-- Behind an entry that is not the last one there is a comma. -/
theorem commas_cons {α : Type} {marks : α → List Mark} {a : α} {as : List α} (h : as ≠ []) :
    [Mark.punct .comma].intercalate ((a :: as).map marks) =
      marks a ++ .punct .comma :: [Mark.punct .comma].intercalate (as.map marks) := by
  cases as with
  | nil => exact absurd rfl h
  | cons => rfl

/-- Where no line is asked for, any will do. -/
theorem Token.Spells.of_kind {t : Token} {m : Mark} (h : t.kind = m.kind) (hline : m.line? = none) :
    t.Spells m := ⟨h, by simp [hline]⟩

theorem Token.Spells.punct {t : Token} {p : Punct} (h : t.kind = .punct p) :
    t.Spells (.punct p) := .of_kind h rfl

theorem Token.Spells.keyword {t : Token} {k : Keyword} (h : t.kind = .keyword k) :
    t.Spells (.keyword k) := .of_kind h rfl

/-! ## Accounts -/

/-- The offences in what was read from the tokens are among the problems that were reported
meanwhile.  If only offences were reported, then each report is of one of these, and the tokens
spell all that was read. -/
structure Accounted (offences : List Problem) (marks : List Mark) (ts : List Token)
    (ds : List Diagnostic) : Prop where
  reported : ∀ q, offences.count q ≤ (ds.map (·.problem)).count q
  exact : (∀ d ∈ ds, d.problem.isOffence = true) →
    (∀ q, offences.count q = (ds.map (·.problem)).count q) ∧ Spells ts marks

namespace Accounted

variable {os os' : List Problem} {ms ms' : List Mark} {ts ts' : List Token}
  {ds ds' : List Diagnostic}

theorem nil : Accounted [] [] [] [] := ⟨fun _ => Nat.le_refl _, fun _ => ⟨fun _ => rfl, .nil⟩⟩

/-- Accounts of two stretches make an account of both together. -/
theorem append (h : Accounted os ms ts ds) (h' : Accounted os' ms' ts' ds') :
    Accounted (os ++ os') (ms ++ ms') (ts ++ ts') (ds ++ ds') := by
  constructor
  · intro q
    rw [List.map_append, List.count_append, List.count_append]
    exact Nat.add_le_add (h.reported q) (h'.reported q)
  · intro hds
    obtain ⟨hcount, hspells⟩ := h.exact fun d hd => hds d (List.mem_append_left _ hd)
    obtain ⟨hcount', hspells'⟩ := h'.exact fun d hd => hds d (List.mem_append_right _ hd)
    refine ⟨fun q => ?_, List.rel_append hspells hspells'⟩
    rw [List.map_append, List.count_append, List.count_append, hcount, hcount']

/-- A token that spells its mark accounts for it. -/
theorem token {t : Token} {m : Mark} (ht : t.Spells m) : Accounted [] [m] [t] [] :=
  ⟨fun _ => Nat.le_refl _, fun _ => ⟨fun _ => rfl, .cons ht .nil⟩⟩

theorem cons {t : Token} {m : Mark} (ht : t.Spells m) (h : Accounted os ms ts ds) :
    Accounted os (m :: ms) (t :: ts) ds := (token ht).append h

/-- A report of an offence. -/
theorem report {d : Diagnostic} {q : Problem} (hd : d.problem = q) (h : Accounted os ms ts ds) :
    Accounted (q :: os) ms ts (d :: ds) := by
  have hreport : Accounted [q] [] [] [d] := by
    subst hd
    exact ⟨fun _ => Nat.le_refl _, fun _ => ⟨fun _ => rfl, .nil⟩⟩
  exact hreport.append h

/-- A report of an offence, if there is one. -/
theorem reportIf {d : Diagnostic} {q : Problem} {c : Prop} [Decidable c] (hd : d.problem = q)
    (h : Accounted os ms ts ds) :
    Accounted ((if c then [q] else []) ++ os) ms ts ((if c then [d] else []) ++ ds) := by
  split
  · exact h.report hd
  · exact h

/-- It does not matter in which order the offences stand. -/
theorem of_count (h : Accounted os ms ts ds) (hcount : ∀ q, os'.count q = os.count q) :
    Accounted os' ms ts ds := by
  constructor
  · intro q
    rw [hcount]
    exact h.reported q
  · intro hds
    refine ⟨fun q => ?_, (h.exact hds).2⟩
    rw [hcount]
    exact (h.exact hds).1 q

/-- In which order offences are listed does not matter. -/
theorem swap (h : Accounted (os ++ os') ms ts ds) : Accounted (os' ++ os) ms ts ds :=
  h.of_count fun q => by rw [List.count_append, List.count_append, Nat.add_comm]

/-- A problem of another kind stands for all that was lost. -/
theorem lost (h : Accounted os ms ts ds) {d : Diagnostic} (hd : d.problem.isOffence = false) :
    Accounted os ms' (ts ++ ts') (ds ++ (ds' ++ [d])) := by
  constructor
  · intro q
    rw [List.map_append, List.count_append]
    exact Nat.le_add_right_of_le (h.reported q)
  · intro hds
    exact absurd (hds d (by simp)) (by simp [hd])

end Accounted

def Expr.Accounted (ts : List Token) (ds : List Diagnostic) (e : Expr) : Prop :=
  Lox.Accounted e.offences e.marks ts ds

/-- The account of a statement is that of what was written. -/
def Stmt.Accounted (scope : Scope) (ts : List Token) (ds : List Diagnostic) (s : Stmt) : Prop :=
  ∃ w : Surface, s = w.desugar ∧
    Lox.Accounted (s.offences scope.inLoop scope.inFunction) w.marks ts ds

/-! ## Phrases -/

namespace Phrase

variable {α β : Type} {m n : Nat} {ts rest : List Token}
  {Q Q' : List Token → List Diagnostic → α → Prop} {R : List Token → List Diagnostic → β → Prop}

/-- What was read of the tokens, what was reported and the value are as `Q` says.  The mistake in
what could not be read is no offence. -/
def Yields (ts : List Token) (Q : List Token → List Diagnostic → α → Prop) : Phrase α n → Prop
  | read v rest ds _ => ∃ used, ts = used ++ rest ∧ Q used ds v
  | failed d _ _ _ => d.problem.isOffence = false

namespace Yields

theorem read {v : α} {ds : List Diagnostic} {h : ts.length < n} (hv : Q [] ds v) :
    (Phrase.read v ts ds h).Yields ts Q := ⟨[], rfl, hv⟩

theorem taken {v : α} {t : Token} {h : ts.length < n} (hv : Q [t] [] v) :
    (Phrase.read v ts [] h).Yields (t :: ts) Q := ⟨[t], rfl, hv⟩

/-- A mistake that is no offence leaves nothing to be accounted for. -/
theorem failHere {stop : Position} {problem : Problem} (h : problem.isOffence = false) :
    (Phrase.failHere stop problem ts).Yields ts Q := by
  cases ts <;> exact h

theorem within {p : Phrase α m} {h : m ≤ n} (hp : p.Yields ts Q) : (p.within h).Yields ts Q := by
  cases p <;> exact hp

/-- An account of what was read may be given in other words. -/
theorem mono {p : Phrase α n} (hp : p.Yields ts Q) (h : ∀ used ds v, Q used ds v → Q' used ds v) :
    p.Yields ts Q' := by
  cases p with
  | read v rest ds _ =>
      obtain ⟨used, rfl, hv⟩ := hp
      exact ⟨used, rfl, h _ _ _ hv⟩
  | failed => exact hp

theorem map {p : Phrase α n} {f : α → β}
    (hp : p.Yields ts fun used ds v => R used ds (f v)) : (p.map f).Yields ts R := by
  cases p <;> exact hp

/-- Some tokens were read earlier. -/
theorem after {used : List Token} {p : Phrase α n} (hts : ts = used ++ rest)
    (hp : p.Yields rest fun used' ds v => Q (used ++ used') ds v) : p.Yields ts Q := by
  subst hts
  cases p with
  | read v rest' ds _ =>
      obtain ⟨used', rfl, hv⟩ := hp
      exact ⟨used ++ used', (List.append_assoc ..).symm, hv⟩
  | failed => exact hp

/-- A token that was taken before belongs to what was read. -/
theorem skip {t : Token} {p : Phrase α n}
    (hp : p.Yields ts fun used ds v => Q (t :: used) ds v) : p.Yields (t :: ts) Q :=
  .after (List.singleton_append.symm) hp

/-- What was reported before belongs to what was reported. -/
theorem report {p : Phrase α n} {ds : List Diagnostic}
    (hp : p.Yields ts fun used ds' v => Q used (ds ++ ds') v) : (p.report ds).Yields ts Q := by
  cases p <;> exact hp

/-- Two phrases are accounted for together, one behind the other. -/
theorem andThen {p : Phrase α n}
    {next : (v : α) → (rest : List Token) → rest.length < n → Phrase β n} (hp : p.Yields ts Q)
    (hnext : ∀ used ds v rest h, Q used ds v → (next v rest h).Yields rest
      fun used' ds' w => R (used ++ used') (ds ++ ds') w) :
    (p.andThen next).Yields ts R := by
  cases p with
  | failed => exact hp
  | read v rest ds h =>
      obtain ⟨used, rfl, hv⟩ := hp
      have hw := hnext used ds v rest h hv
      rw [Phrase.andThen]
      generalize next v rest h = p at hw
      cases p with
      | failed => exact hw
      | read w rest' ds' _ =>
          obtain ⟨used', rfl, hw⟩ := hw
          exact ⟨used ++ used', (List.append_assoc ..).symm, hw⟩

end Yields

end Phrase

namespace Grammar

open Phrase

variable {stop : Position}

/-! ## Single tokens -/

/-- Both sides of a choice have to be accounted for. -/
theorem yields_ifNext {β : Type} {n : Nat} {kind : Kind} {ts : List Token} {h : ts.length < n}
    {yes : (t : Token) → (rest : List Token) → rest.length + 1 < n → Phrase β n} {no : Phrase β n}
    {R : List Token → List Diagnostic → β → Prop}
    (hyes : ∀ t rest h, t.kind = kind → (yes t rest h).Yields (t :: rest) R)
    (hno : no.Yields ts R) : (ifNext kind ts h yes no).Yields ts R := by
  cases ts with
  | nil => exact hno
  | cons t rest =>
      rw [ifNext]
      split
      · next ht => exact hyes t rest h ht
      · exact hno

/-- A mark is spelled by the token it was read from. -/
theorem yields_mark (p : Punct) (spot : Spot) (ts : List Token) :
    (mark stop p spot ts).Yields ts fun used ds t => used = [t] ∧ ds = [] ∧ t.kind = .punct p := by
  cases ts with
  | nil => exact .failHere rfl
  | cons t rest =>
      rw [mark]
      split
      · next ht => exact .taken ⟨rfl, rfl, ht⟩
      · exact .failHere rfl

/-- A name is spelled by the token it was read from. -/
theorem yields_name (role : Role) (ts : List Token) :
    (name stop role ts).Yields ts fun used ds x => Accounted [] [.name x] used ds := by
  cases ts with
  | nil => exact .failHere rfl
  | cons t rest =>
      rw [name]
      split
      · next x hx => exact .taken (.token (.of_kind hx rfl))
      · exact .failHere rfl

/-! ## Expressions -/

/-- Two operands and their connective are accounted for in the order of the tokens. -/
theorem accounted_join {used used' : List Token} {ds ds' : List Diagnostic} {c : Connective}
    {left right : Expr} {t : Token} (hleft : left.Accounted used ds) (ht : t.kind = c.kind)
    (hright : right.Accounted used' ds') :
    (c.join left right t.line).Accounted (used ++ t :: used') (ds ++ ds') := by
  cases c with
  | binary op =>
      rw [Connective.join, Expr.Accounted, Expr.offences, Expr.marks]
      exact hleft.append (.cons ⟨ht, by simp [Mark.binary]⟩ hright)
  | logical op =>
      rw [Connective.join, Expr.Accounted, Expr.offences, Expr.marks]
      exact hleft.append (.cons (.of_kind ht rfl) hright)

/-- What stands behind a target that is none is lost. -/
theorem yields_assignment {n : Nat} {used used' rest : List Token} {ds ds' : List Diagnostic}
    {target value : Expr} {equals : Token} {h : rest.length < n}
    (htarget : target.Accounted used ds) (hequals : equals.kind = .punct .equal)
    (hvalue : value.Accounted used' ds') :
    (assignment target equals value rest h).Yields rest fun used'' ds'' e =>
      e.Accounted (used ++ equals :: (used' ++ used'')) (ds ++ (ds' ++ ds'')) := by
  have hlost : target.Accounted (used ++ equals :: (used' ++ []))
      (ds ++ (ds' ++ [.atToken equals .invalidTarget])) := Accounted.lost htarget rfl
  cases target with
  | var x line =>
      have hassign := htarget.append (.cons (.punct hequals) hvalue)
      refine .read ?_
      simpa [Expr.Accounted, Expr.offences, Expr.marks] using hassign
  | _ => exact .read hlost

/-- At least one argument, after `count` others, and the parenthesis that closes the call. -/
def ArgumentsAccounted (count : Nat) (ts : List Token) (ds : List Diagnostic)
    (args : List Expr × Position) : Prop :=
  args.1 ≠ [] ∧
    Accounted
      (.replicate (excess count args.1.length) .tooManyArguments ++ args.1.flatMap Expr.offences)
      ([Mark.punct .comma].intercalate (args.1.map Expr.marks) ++ [.closing args.2]) ts ds

/-- One more argument in front. -/
theorem argumentsAccounted_cons {count : Nat} {d : Diagnostic} {used used' : List Token}
    {ds ds' : List Diagnostic} {arg : Expr} {args : List Expr × Position} {comma : Token}
    (hd : d.problem = .tooManyArguments) (harg : arg.Accounted used ds)
    (hcomma : comma.kind = .punct .comma) (hargs : ArgumentsAccounted (count + 1) used' ds' args) :
    ArgumentsAccounted count (used ++ comma :: used')
      ((if maxArity ≤ count then [d] else []) ++ (ds ++ ds')) (arg :: args.1, args.2) := by
  obtain ⟨hne, hargs⟩ := hargs
  refine ⟨List.cons_ne_nil _ _, ?_⟩
  have hall := (harg.append (.cons (.punct hcomma) hargs)).reportIf (c := maxArity ≤ count) hd
  rw [commas_cons hne, List.length_cons, List.flatMap_cons, replicate_excess_succ]
  simp only [List.append_assoc, List.cons_append] at hall ⊢
  refine hall.of_count fun q => ?_
  simp only [List.count_append]
  omega

/-- The last argument. -/
theorem argumentsAccounted_singleton {count : Nat} {d : Diagnostic} {used : List Token}
    {ds : List Diagnostic} {arg : Expr} {closing : Token} (hd : d.problem = .tooManyArguments)
    (harg : arg.Accounted used ds) (hclosing : closing.kind = .punct .rightParen) :
    ArgumentsAccounted count (used ++ [closing]) ((if maxArity ≤ count then [d] else []) ++ ds)
      ([arg], closing.line) := by
  refine ⟨List.cons_ne_nil _ _, ?_⟩
  have hmark : closing.Spells (.closing closing.line) := ⟨hclosing, by simp [Mark.closing]⟩
  have hall := (harg.append (.token hmark)).reportIf (c := maxArity ≤ count) hd
  rw [List.length_singleton, replicate_excess_succ]
  simpa [List.intercalate, excess] using hall

mutual

/-- An expression is accounted for, with all that was reported in it. -/
theorem yields_expression (stop : Position) (ts : List Token) :
    (expression stop ts).Yields ts Expr.Accounted := by
  unfold expression
  refine (yields_conditional stop ts).andThen fun used ds target rest h htarget => ?_
  refine yields_ifNext (fun equals rest h hequals => .skip ?_) (.read (by simpa using htarget))
  refine (yields_expression stop rest).within.andThen fun used' ds' value rest h hvalue => ?_
  exact yields_assignment htarget hequals hvalue
termination_by ts.length * 32 + 16

theorem yields_conditional (stop : Position) (ts : List Token) :
    (conditional stop ts).Yields ts Expr.Accounted := by
  unfold conditional
  refine (yields_binary stop .or ts).andThen fun used ds condition rest h hcondition => ?_
  refine yields_ifNext (fun question rest h hquestion => .skip ?_)
    (.read (by simpa using hcondition))
  refine (yields_expression stop rest).within.andThen fun used₁ ds₁ yes rest h hyes => ?_
  refine (yields_mark .colon .afterThenBranch rest).within.andThen ?_
  rintro _ _ colon rest h ⟨rfl, rfl, hcolon⟩
  refine .map ((yields_conditional stop rest).within.mono fun used₂ ds₂ no hno => ?_)
  have hall := hcondition.append
    (.cons (.punct hquestion) (hyes.append (.cons (.punct hcolon) hno)))
  simpa [Expr.Accounted, Expr.offences, Expr.marks] using hall
termination_by ts.length * 32 + 15
decreasing_by all_goals have := Level.or.rank_le; omega

theorem yields_binary (stop : Position) (level : Level) (ts : List Token) :
    (binary stop level ts).Yields ts Expr.Accounted := by
  unfold binary
  refine (yields_operand stop level ts).andThen fun used ds left rest h hleft => ?_
  exact (yields_chain stop level hleft rest).within
termination_by ts.length * 32 + 2 * level.rank + 4

theorem yields_operand (stop : Position) (level : Level) (ts : List Token) :
    (operand stop level ts).Yields ts Expr.Accounted := by
  cases level <;> unfold operand
  case factor => exact yields_unary stop ts
  all_goals exact yields_binary stop _ ts
termination_by ts.length * 32 + 2 * level.rank + 3
decreasing_by all_goals subst_vars; simp [Level.rank]

/-- The chain is accounted for with what stands in front of it. -/
theorem yields_chain (stop : Position) (level : Level) {left : Expr} {used : List Token}
    {ds : List Diagnostic} (hleft : left.Accounted used ds) (ts : List Token) :
    (chain stop level left ts).Yields ts fun used' ds' e =>
      e.Accounted (used ++ used') (ds ++ ds') := by
  cases ts with
  | nil =>
      unfold chain
      exact .read (by simpa using hleft)
  | cons t ts =>
      unfold chain
      cases hop : t.kind.connectiveAt? level with
      | none => exact .read (by simpa using hleft)
      | some op =>
          refine .within (.skip ((yields_operand stop level ts).andThen
            fun used₁ ds₁ right rest h hright => ?_))
          have hjoin := accounted_join hleft (Kind.connectiveAt?_eq_some.mp hop).2 hright
          exact (yields_chain stop level hjoin rest).within.mono fun _ _ _ he => by simpa using he
termination_by ts.length * 32
decreasing_by all_goals have := level.rank_le; subst_vars; simp only [List.length_cons]; omega

theorem yields_unary (stop : Position) (ts : List Token) :
    (unary stop ts).Yields ts Expr.Accounted := by
  cases ts with
  | nil =>
      unfold unary
      exact yields_call stop []
  | cons t ts =>
      unfold unary
      cases hop : t.kind.unaryOp? with
      | none => exact yields_call stop (t :: ts)
      | some op =>
          refine .skip (.map ((yields_unary stop ts).within.mono fun used ds e he => ?_))
          rw [Expr.Accounted, Expr.offences, Expr.marks]
          exact .cons ⟨Kind.unaryOp?_eq_some.mp hop, by simp [Mark.unary]⟩ he
termination_by ts.length * 32 + 2

theorem yields_call (stop : Position) (ts : List Token) :
    (call stop ts).Yields ts Expr.Accounted := by
  unfold call
  refine (yields_primary stop ts).andThen fun used ds callee rest h hcallee => ?_
  exact (yields_calls stop hcallee rest).within
termination_by ts.length * 32 + 1

/-- And so are calls, with what is called. -/
theorem yields_calls (stop : Position) {callee : Expr} {used : List Token} {ds : List Diagnostic}
    (hcallee : callee.Accounted used ds) (ts : List Token) :
    (calls stop callee ts).Yields ts fun used' ds' e =>
      e.Accounted (used ++ used') (ds ++ ds') := by
  unfold calls
  refine yields_ifNext (fun opening rest h hopening => .skip (.within ?_))
    (.read (by simpa using hcallee))
  refine (yields_arguments stop rest).andThen fun used₁ ds₁ args rest h hargs => ?_
  have hcall : (Expr.call callee args.1 args.2).Accounted (used ++ opening :: used₁)
      (ds ++ ds₁) := by
    have hall := hcallee.append (.cons (.punct hopening) hargs)
    rw [Expr.Accounted, Expr.offences, Expr.marks]
    simp only [List.append_assoc, List.cons_append]
    refine hall.of_count fun q => ?_
    simp only [List.count_append]
    omega
  exact (yields_calls stop hcall rest).within.mono fun _ _ _ he => by simpa using he
termination_by ts.length * 32 + 19

/-- The arguments beyond the bound are offences, one for each. -/
theorem yields_arguments (stop : Position) (ts : List Token) :
    (arguments stop ts).Yields ts fun used ds args =>
      Accounted
        (.replicate (args.1.length - maxArity) .tooManyArguments ++ args.1.flatMap Expr.offences)
        ([Mark.punct .comma].intercalate (args.1.map Expr.marks) ++ [.closing args.2]) used ds := by
  unfold arguments
  refine yields_ifNext (fun closing rest h hclosing => .taken ?_) ?_
  · have hmark : closing.Spells (.closing closing.line) := ⟨hclosing, by simp [Mark.closing]⟩
    simpa [List.intercalate] using Accounted.token hmark
  · refine (yields_argumentList stop 0 ts).within.mono ?_
    rintro used ds args ⟨-, hargs⟩
    rwa [excess_zero] at hargs
termination_by ts.length * 32 + 18

/-- Arguments are counted on from those in front of them. -/
theorem yields_argumentList (stop : Position) (count : Nat) (ts : List Token) :
    (argumentList stop count ts).Yields ts (ArgumentsAccounted count) := by
  unfold argumentList
  refine .report ((yields_expression stop ts).andThen fun used ds arg rest h harg => ?_)
  have hd : (Diagnostic.atHead stop ts .tooManyArguments).problem = .tooManyArguments := by
    cases ts <;> rfl
  refine yields_ifNext (fun comma rest h hcomma => .skip ?_) ?_
  · refine .map ((yields_argumentList stop (count + 1) rest).within.mono
      fun used' ds' args hargs => ?_)
    exact argumentsAccounted_cons hd harg hcomma hargs
  · refine .map ((yields_mark .rightParen .afterArguments rest).within.mono ?_)
    rintro _ _ closing ⟨rfl, rfl, hclosing⟩
    rw [List.append_nil]
    exact argumentsAccounted_singleton hd harg hclosing
termination_by ts.length * 32 + 17

theorem yields_primary (stop : Position) (ts : List Token) :
    (primary stop ts).Yields ts Expr.Accounted := by
  cases ts with
  | nil =>
      unfold primary
      exact .failHere rfl
  | cons t ts =>
      unfold primary
      split
      · next value hvalue =>
        refine .taken ?_
        rw [Expr.Accounted, Expr.offences, Expr.marks]
        exact .token (.of_kind (Kind.literal?_eq_some.mp hvalue) rfl)
      split
      · next x hx =>
        refine .taken ?_
        rw [Expr.Accounted, Expr.offences, Expr.marks]
        exact .token ⟨hx, by simp [Mark.nameAt]⟩
      · next hopening =>
        refine .skip ((yields_expression stop ts).within.andThen fun used ds e rest h he => ?_)
        refine .map ((yields_mark .rightParen .afterExpression rest).within.mono ?_)
        rintro _ _ closing ⟨rfl, rfl, hclosing⟩
        have hgroup := Accounted.cons (.punct hopening) (he.append (.token (.punct hclosing)))
        simpa [Expr.Accounted, Expr.offences, Expr.marks] using hgroup
      split
      · exact .skip ((yields_binary stop _ ts).within.andThen fun _ _ _ _ _ _ => rfl)
      · exact .failHere rfl
termination_by ts.length * 32
decreasing_by all_goals have := Level.rank_le; subst_vars; simp only [List.length_cons]; grind

end

/-! ## Parts of statements -/

/-- The mark behind an expression is spelled as well. -/
theorem yields_expressionBefore (p : Punct) (spot : Spot) (ts : List Token) :
    (expressionBefore stop p spot ts).Yields ts fun used ds e =>
      Accounted e.offences (e.marks ++ [.punct p]) used ds := by
  refine (yields_expression stop ts).andThen fun used ds e rest h he => ?_
  refine .map ((yields_mark p spot rest).within.mono ?_)
  rintro _ _ t ⟨rfl, rfl, ht⟩
  simpa using he.append (.token (.punct ht))

theorem yields_optionalBefore (p : Punct) (spot : Spot) (ts : List Token) :
    (optionalBefore stop p spot ts).Yields ts fun used ds e =>
      Accounted (optionOffences e) (optionMarks e ++ [.punct p]) used ds := by
  cases ts with
  | nil => exact .map (yields_expressionBefore p spot [])
  | cons t ts =>
      rw [optionalBefore]
      split
      · next ht => exact .taken (.token (.punct ht))
      · exact .map (yields_expressionBefore p spot (t :: ts))

theorem yields_parenthesized (opening closing : Spot) (ts : List Token) :
    (parenthesized stop opening closing ts).Yields ts fun used ds e =>
      Accounted e.offences (.punct .leftParen :: e.marks ++ [.punct .rightParen]) used ds := by
  refine (yields_mark .leftParen opening ts).andThen ?_
  rintro _ _ t rest h ⟨rfl, rfl, ht⟩
  exact (yields_expressionBefore .rightParen closing rest).within.mono fun _ _ _ he =>
    he.cons (.punct ht)

theorem yields_variableDeclaration (ts : List Token) :
    (variableDeclaration stop ts).Yields ts fun used ds s =>
      ∃ x init, s = .var x init ∧
        Accounted (optionOffences init) (variableMarks x init) used ds := by
  refine (yields_name .variable_ ts).andThen fun used ds x rest h hx => ?_
  refine yields_ifNext (fun equals rest h hequals => .skip ?_) ?_
  · refine .map ((yields_expressionBefore .semicolon _ rest).within.mono fun used' ds' e he => ?_)
    exact ⟨x, some e, rfl, hx.append (.cons (.punct hequals) he)⟩
  · refine .map ((yields_mark .semicolon _ rest).within.mono ?_)
    rintro _ _ t ⟨rfl, rfl, ht⟩
    exact ⟨x, none, rfl, hx.append (.token (.punct ht))⟩

/-- What a loop does first is accounted for as it was written. -/
theorem yields_forInit (ts : List Token) :
    (forInit stop ts).Yields ts fun used ds init =>
      ∃ i : ForInit, init = i.stmt? ∧ Accounted i.offences i.marks used ds := by
  cases ts with
  | nil => exact .failHere rfl
  | cons t ts =>
      rw [forInit]
      split
      · next ht => exact .taken ⟨.none, rfl, .token (.punct ht)⟩
      split
      · next ht =>
        refine .skip (.map ((yields_variableDeclaration ts).within.mono ?_))
        rintro used ds _ ⟨x, init, rfl, hinit⟩
        exact ⟨.var x init, rfl, hinit.cons (.keyword ht)⟩
      · exact .map ((yields_expressionBefore .semicolon _ (t :: ts)).mono fun used ds e he =>
          ⟨.expr e, rfl, he⟩)

/-- The clauses of a loop are accounted for in the order in which they were written. -/
theorem yields_forClauses (ts : List Token) :
    (forClauses stop ts).Yields ts fun used ds clauses =>
      ∃ (i : ForInit) (condition increment : Option Expr),
        clauses = ⟨i.stmt?, condition, increment⟩ ∧
        Accounted (i.offences ++ optionOffences condition ++ optionOffences increment)
          (.punct .leftParen :: i.marks ++ optionMarks condition ++
            .punct .semicolon :: optionMarks increment ++ [.punct .rightParen]) used ds := by
  refine (yields_mark .leftParen .afterFor ts).andThen ?_
  rintro _ _ t rest h ⟨rfl, rfl, ht⟩
  refine (yields_forInit rest).within.andThen ?_
  rintro used₁ ds₁ _ rest h ⟨i, rfl, hi⟩
  refine (yields_optionalBefore .semicolon _ rest).within.andThen
    fun used₂ ds₂ condition rest h hcondition => ?_
  refine .map ((yields_optionalBefore .rightParen _ rest).within.mono
    fun used₃ ds₃ increment hincrement => ⟨i, condition, increment, rfl, ?_⟩)
  have hall := Accounted.cons (.punct ht) (hi.append (hcondition.append hincrement))
  simpa using hall

/-- The parameters beyond the bound are offences, one for each. -/
theorem yields_parameterList (count : Nat) (ts : List Token) :
    (parameterList stop count ts).Yields ts fun used ds params =>
      params ≠ [] ∧ Accounted (.replicate (excess count params.length) .tooManyParameters)
        ([Mark.punct .comma].intercalate (params.map fun x => [Mark.name x]) ++
          [.punct .rightParen]) used ds := by
  unfold parameterList
  refine .report ((yields_name .parameter ts).andThen fun used ds x rest h hx => ?_)
  have hd : (Diagnostic.atHead stop ts .tooManyParameters).problem = .tooManyParameters := by
    cases ts <;> rfl
  refine yields_ifNext (fun comma rest h hcomma => .skip ?_) ?_
  · refine .map ((yields_parameterList (count + 1) rest).within.mono ?_)
    rintro used' ds' xs ⟨hne, hxs⟩
    refine ⟨List.cons_ne_nil _ _, ?_⟩
    have hall := (hx.append (.cons (.punct hcomma) hxs)).reportIf (c := maxArity ≤ count) hd
    rw [commas_cons hne, List.length_cons, replicate_excess_succ]
    simpa using hall
  · refine .map ((yields_mark .rightParen .afterParameters rest).within.mono ?_)
    rintro _ _ t ⟨rfl, rfl, ht⟩
    refine ⟨List.cons_ne_nil _ _, ?_⟩
    have hall := (hx.append (.token (.punct ht))).reportIf (c := maxArity ≤ count) hd
    rw [List.length_singleton, replicate_excess_succ]
    simpa [List.intercalate, excess] using hall
termination_by ts.length

theorem yields_parameters (ts : List Token) :
    (parameters stop ts).Yields ts fun used ds params =>
      Accounted (.replicate (params.length - maxArity) .tooManyParameters)
        ([Mark.punct .comma].intercalate (params.map fun x => [Mark.name x]) ++
          [.punct .rightParen]) used ds := by
  refine yields_ifNext (fun closing rest h hclosing => .taken ?_) ?_
  · simpa [List.intercalate] using Accounted.token (.punct hclosing)
  · refine (yields_parameterList 0 ts).within.mono ?_
    rintro used ds params ⟨-, hparams⟩
    rwa [excess_zero] at hparams

/-- The head of a function is spelled with all of its marks. -/
theorem yields_functionHead (ts : List Token) :
    (functionHead stop ts).Yields ts fun used ds head =>
      Accounted (.replicate (head.2.length - maxArity) .tooManyParameters)
        (.name head.1 :: .punct .leftParen ::
          [Mark.punct .comma].intercalate (head.2.map fun x => [Mark.name x]) ++
          [.punct .rightParen, .punct .leftCurly]) used ds := by
  refine (yields_name .function ts).andThen fun used ds f rest h hf => ?_
  refine (yields_mark .leftParen _ rest).within.andThen ?_
  rintro _ _ opening rest h ⟨rfl, rfl, hopening⟩
  refine (yields_parameters rest).within.andThen fun used' ds' params rest h hparams => ?_
  refine .map ((yields_mark .leftCurly .beforeFunctionBody rest).within.mono ?_)
  rintro _ _ brace ⟨rfl, rfl, hbrace⟩
  have hall := hf.append (.cons (.punct hopening) (hparams.append (.token (.punct hbrace))))
  simpa using hall

/-! ## Statements -/

/-- What the declarations of a block are accounted for as. -/
def BodyAccounted (scope : Scope) (ts : List Token) (ds : List Diagnostic) (body : List Stmt) :
    Prop :=
  ∃ ws : List Surface, body = ws.map Surface.desugar ∧
    Accounted (body.flatMap (Stmt.offences scope.inLoop scope.inFunction))
      (ws.flatMap Surface.marks) ts ds

/-- A declaration that could not be read counts as nothing. -/
theorem bodyAccounted_settle {n : Nat} {scope : Scope} {ts : List Token} {p : Phrase Stmt n}
    {h : 0 < n} (hp : p.Yields ts (Stmt.Accounted scope)) (hsuffix : (p.settle h).rest <:+ ts) :
    ∃ used, ts = used ++ (p.settle h).rest ∧
      BodyAccounted scope used (p.settle h).reports (p.settle h).value.toList := by
  cases p with
  | read s rest ds _ =>
      obtain ⟨used, rfl, w, rfl, hw⟩ := hp
      refine ⟨used, rfl, [w], rfl, ?_⟩
      simpa [Phrase.settle] using hw
  | failed d rest ds _ =>
      obtain ⟨used, hused⟩ := hsuffix
      exact ⟨used, hused.symm, [], rfl, Accounted.nil.lost hp⟩

/-- Declarations are accounted for one behind the other. -/
theorem BodyAccounted.append {scope : Scope} {ts ts' : List Token} {ds ds' : List Diagnostic}
    {body body' : List Stmt} (h : BodyAccounted scope ts ds body)
    (h' : BodyAccounted scope ts' ds' body') :
    BodyAccounted scope (ts ++ ts') (ds ++ ds') (body ++ body') := by
  obtain ⟨ws, rfl, hws⟩ := h
  obtain ⟨ws', rfl, hws'⟩ := h'
  refine ⟨ws ++ ws', (List.map_append ..).symm, ?_⟩
  rw [List.flatMap_append, List.flatMap_append]
  exact hws.append hws'

/-- The declarations of a block, and the brace behind them. -/
def BlockAccounted (scope : Scope) (ts : List Token) (ds : List Diagnostic) (body : List Stmt) :
    Prop :=
  ∃ inner brace, ts = inner ++ [brace] ∧ brace.kind = .punct .rightCurly ∧
    BodyAccounted scope inner ds body

/-- A jump that has nowhere to go is an offence that was reported when its word was met. -/
theorem accounted_unless {ok : Bool} {t : Token} {q : Problem} {os : List Problem} {ms : List Mark}
    {ts : List Token} {ds : List Diagnostic} (h : Accounted os ms ts ds) :
    Accounted ((if ok then [] else [q]) ++ os) ms ts (reportUnless ok t q ++ ds) := by
  cases ok with
  | true => exact h
  | false => exact h.report rfl

/-- The loop that is written with the clauses has their offences and those of its body. -/
theorem count_offences_loop (q : Problem) (looped called : Bool) (i : ForInit)
    (condition increment : Option Expr) (body : Stmt) :
    (((ForClauses.mk i.stmt? condition increment).loop body).offences looped called).count q =
      (i.offences ++ optionOffences condition ++ optionOffences increment ++
        body.offences true called).count q := by
  have hround : (((ForClauses.mk i.stmt? condition increment).round body).offences true
      called).count q = (body.offences true called ++ optionOffences increment).count q := by
    cases increment <;> simp [ForClauses.round, Stmt.offences, optionOffences]
  have hrepetition : (((ForClauses.mk i.stmt? condition increment).repetition body).offences looped
      called).count q = (optionOffences condition).count q +
        (body.offences true called ++ optionOffences increment).count q := by
    rw [← hround]
    cases condition <;>
      simp [ForClauses.repetition, Stmt.offences, Expr.offences, optionOffences]
  have hinit : (((ForClauses.mk i.stmt? condition increment).loop body).offences looped
      called).count q = i.offences.count q +
        (((ForClauses.mk i.stmt? condition increment).repetition body).offences looped
          called).count q := by
    cases i <;> simp [ForClauses.loop, ForInit.stmt?, ForInit.offences, Stmt.offences]
  rw [hinit, hrepetition]
  simp only [List.count_append]
  omega

mutual

/-- A declaration is accounted for in the scope in which it was read. -/
theorem yields_declaration (stop : Position) (scope : Scope) (ts : List Token) :
    (declaration stop scope ts).Yields ts (Stmt.Accounted scope) := by
  cases ts with
  | nil =>
      unfold declaration
      exact yields_statement stop scope []
  | cons t ts =>
      unfold declaration
      split
      · next ht =>
        refine .within (.skip ?_)
        refine (yields_functionHead ts).andThen fun used ds head rest h hhead => ?_
        refine .map ((yields_block stop scope.function rest).within.mono ?_)
        rintro used' ds' body ⟨inner, brace, rfl, hbrace, ws, rfl, hws⟩
        refine ⟨.function head.1 head.2 ws, by rw [Surface.desugar], ?_⟩
        have hall := Accounted.cons (.keyword ht)
          (hhead.append (hws.append (.token (.punct hbrace))))
        rw [Stmt.offences]
        refine Accounted.swap ?_
        simpa [Surface.marks, Scope.function] using hall
      split
      · next ht =>
        refine .within (.skip ((yields_variableDeclaration ts).mono ?_))
        rintro used ds _ ⟨x, init, rfl, hinit⟩
        refine ⟨.var x init, by rw [Surface.desugar], ?_⟩
        rw [Stmt.offences, Surface.marks]
        exact hinit.cons (.keyword ht)
      · exact yields_statement stop scope (t :: ts)
termination_by ts.length * 4 + 2

/-- A statement is accounted for in the scope in which it was read.  The increment of a `for` is
written in front of the body and stands behind it in the tree, so their accounts change places. -/
theorem yields_statement (stop : Position) (scope : Scope) (ts : List Token) :
    (statement stop scope ts).Yields ts (Stmt.Accounted scope) := by
  cases ts with
  | nil =>
      unfold statement
      exact .failHere rfl
  | cons t ts =>
      unfold statement
      split
      · next ht =>
        refine .skip (.map ((yields_expressionBefore .semicolon .afterValue ts).within.mono ?_))
        refine fun used ds e he => ⟨.print e, by rw [Surface.desugar], ?_⟩
        rw [Stmt.offences, Surface.marks]
        exact he.cons (.keyword ht)
      · next ht =>
        refine .skip (.map ((yields_block stop scope ts).within.mono ?_))
        rintro used ds body ⟨inner, brace, rfl, hbrace, ws, rfl, hws⟩
        refine ⟨.block ws, by rw [Surface.desugar], ?_⟩
        have hall := Accounted.cons (.punct ht) (hws.append (.token (.punct hbrace)))
        simpa [Stmt.offences, Surface.marks] using hall
      · next ht =>
        refine .within (.skip ((yields_parenthesized .afterIf .afterIfCondition ts).andThen
          fun used ds condition rest h hcondition => ?_))
        refine (yields_statement stop scope rest).within.andThen ?_
        rintro used₁ ds₁ _ rest h ⟨w₁, rfl, hyes⟩
        refine yields_ifNext (fun t' rest h helse => .skip ?_) (.read ?_)
        · refine .map ((yields_statement stop scope rest).within.mono ?_)
          rintro used₂ ds₂ _ ⟨w₂, rfl, hno⟩
          refine ⟨.ifElse condition w₁ w₂, by rw [Surface.desugar], ?_⟩
          have hall := Accounted.cons (.keyword ht)
            (hcondition.append (hyes.append (.cons (.keyword helse) hno)))
          simpa [Stmt.offences, Surface.marks] using hall
        · refine ⟨.ifThen condition w₁, by rw [Surface.desugar], ?_⟩
          have hall := Accounted.cons (.keyword ht) (hcondition.append hyes)
          simpa [Stmt.offences, Surface.marks] using hall
      · next ht =>
        refine .within (.skip ((yields_parenthesized .afterWhile .afterCondition ts).andThen
          fun used ds condition rest h hcondition => ?_))
        refine .map ((yields_statement stop scope.loop rest).within.mono ?_)
        rintro used₁ ds₁ _ ⟨w, rfl, hbody⟩
        refine ⟨.while_ condition w, by rw [Surface.desugar], ?_⟩
        have hall := Accounted.cons (.keyword ht) (hcondition.append hbody)
        simpa [Stmt.offences, Surface.marks, Scope.loop] using hall
      · next ht =>
        refine .within (.skip ((yields_forClauses ts).andThen ?_))
        rintro used ds _ rest h ⟨i, condition, increment, rfl, hclauses⟩
        refine .map ((yields_statement stop scope.loop rest).within.mono ?_)
        rintro used₁ ds₁ _ ⟨w, rfl, hbody⟩
        refine ⟨.for_ i condition increment w, (Surface.desugar_for ..).symm, ?_⟩
        have hall := (Accounted.cons (.keyword ht) (hclauses.append hbody)).of_count
          fun q => count_offences_loop q scope.inLoop scope.inFunction i condition increment _
        simpa [Surface.marks] using hall
      · next ht =>
        refine .report (.skip (.map ((yields_mark .semicolon .afterBreak ts).within.mono ?_)))
        rintro _ _ semicolon ⟨rfl, rfl, hsemicolon⟩
        refine ⟨.break_, by rw [Surface.desugar], ?_⟩
        have hall := Accounted.cons (.keyword ht) (.token (.punct hsemicolon))
        simpa [Stmt.offences, Surface.marks] using accounted_unless hall
      · next ht =>
        refine .report (.skip (.map ((yields_optionalBefore .semicolon _ ts).within.mono ?_)))
        refine fun used ds e he => ⟨.return_ e, by rw [Surface.desugar], ?_⟩
        rw [Stmt.offences, Surface.marks]
        exact accounted_unless (he.cons (.keyword ht))
      · refine .map ((yields_expressionBefore .semicolon .afterExpression (t :: ts)).mono ?_)
        refine fun used ds e he => ⟨.expr e, by rw [Surface.desugar], ?_⟩
        rw [Stmt.offences, Surface.marks]
        exact he
termination_by ts.length * 4 + 1

/-- Of the declarations in a block, those that were dropped left a report that is no offence.
Whether or not the first one could be read, it has its account, and the others are read behind it.
-/
theorem yields_block (stop : Position) (scope : Scope) (ts : List Token) :
    (block stop scope ts).Yields ts (BlockAccounted scope) := by
  cases ts with
  | nil =>
      unfold block
      exact .failHere rfl
  | cons t ts =>
      unfold block
      split
      · next ht =>
        exact .taken ⟨[], t, rfl, ht, [], rfl, .nil⟩
      · -- Whether or not the first declaration could be read, it has its account, and the others
        obtain ⟨used, hused, hfirst⟩ := bodyAccounted_settle (h := Nat.succ_pos _)
          (yields_declaration stop scope (t :: ts)) (trails_declaration stop scope _).settle.suffix
        refine .report (.after hused (.map ((yields_block stop scope _).within.mono ?_)))
        rintro used' ds' others ⟨inner, brace, rfl, hbrace, hothers⟩
        exact ⟨used ++ inner, brace, (List.append_assoc ..).symm, hbrace, hfirst.append hothers⟩
termination_by ts.length * 4 + 3
decreasing_by
  all_goals have := ((declaration stop scope (t :: ts)).settle (Nat.succ_pos _)).shorter
  all_goals simp only [List.length_cons] at *
  all_goals omega

end

/-! ## Programs -/

/-- And so it is with those of a program. -/
theorem bodyAccounted_declarations (stop : Position) (ts : List Token) :
    BodyAccounted {} ts (declarations stop ts).diagnostics (declarations stop ts).statements := by
  cases ts with
  | nil =>
      rw [declarations]
      exact ⟨[], rfl, .nil⟩
  | cons t ts =>
      obtain ⟨used, hused, hfirst⟩ := bodyAccounted_settle (h := by simp)
        (yields_declaration stop {} (t :: ts)) (trails_declaration stop {} _).settle.suffix
      have hothers := bodyAccounted_declarations stop
        ((declaration stop {} (t :: ts)).settle (by simp)).rest
      have hall := hfirst.append hothers
      rw [← hused] at hall
      rw [declarations]
      exact hall
termination_by ts.length
decreasing_by exact ((declaration stop {} (t :: ts)).settle (by simp)).shorter

end Grammar

/-- Each offence in a program was reported, whatever else was.  If nothing else was reported, each
kind of offence was reported exactly as often as there are such offences in the program, and the
program is all that was written. -/
theorem parse_reports_offences (ts : List Token) :
    let offences := (parse ts).statements.flatMap (Stmt.offences false false)
    let reported := (parse ts).diagnostics.map (·.problem)
    (∀ q, offences.count q ≤ reported.count q) ∧
      ((∀ q ∈ reported, q.isOffence = true) →
        (∀ q, offences.count q = reported.count q) ∧
          ∃ written : List Surface, (parse ts).statements = written.map Surface.desugar ∧
            Spells (Token.body ts) (written.flatMap Surface.marks)) := by
  intro offences reported
  obtain ⟨written, hwritten, haccounted⟩ :=
    Grammar.bodyAccounted_declarations (Token.stopLine ts) (Token.body ts)
  refine ⟨haccounted.reported, fun hreported => ?_⟩
  obtain ⟨hcount, hspells⟩ := haccounted.exact (List.forall_mem_map.mp hreported)
  exact ⟨hcount, written, hwritten, hspells⟩

/-- Of `fun f() { break; } return;` everything is kept. -/
theorem parse_reports_offences_strays :
    let ts : List Token := [⟨.keyword .fun_, "fun", 1⟩, ⟨.identifier ⟨0, "f"⟩, "f", 1⟩,
      ⟨.punct .leftParen, "(", 1⟩, ⟨.punct .rightParen, ")", 1⟩, ⟨.punct .leftCurly, "\x7b", 1⟩,
      ⟨.keyword .break_, "break", 1⟩, ⟨.punct .semicolon, ";", 1⟩, ⟨.punct .rightCurly, "\x7d", 1⟩,
      ⟨.keyword .return_, "return", 2⟩, ⟨.punct .semicolon, ";", 2⟩, ⟨.eof, "", 2⟩]
    (parse ts).diagnostics.map (·.problem) = [.breakOutsideLoop, .returnOutsideFunction] ∧
      ((parse ts).statements.flatMap (Stmt.offences false false)).count .breakOutsideLoop = 1 ∧
      ((parse ts).statements.flatMap (Stmt.offences false false)).count .tooManyArguments = 0 ∧
      ∃ written : List Surface, (parse ts).statements = written.map Surface.desugar ∧
        Spells (Token.body ts) (written.flatMap Surface.marks) := by
  intro ts
  have hreported : (parse ts).diagnostics.map (·.problem) =
      [.breakOutsideLoop, .returnOutsideFunction] := by decide +kernel
  obtain ⟨hcount, hwritten⟩ := (parse_reports_offences ts).2 (by rw [hreported]; decide)
  refine ⟨hreported, ?_, ?_, hwritten⟩
  · rw [hcount, hreported]
    rfl
  · rw [hcount, hreported]
    rfl

end Lox
