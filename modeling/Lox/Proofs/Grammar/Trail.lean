import Lox.Grammar.Program

/-!
# Where diagnostics point

A diagnostic points at the first of the tokens that were left when its problem was found, or at
their end.  Reading only goes forward, and so diagnostics are recorded in the order of the tokens
they point at, apart from two problems that are found early and recorded late: the target of an
assignment is judged when the value behind it has been read, and an operator that lacks its left
operand is reported when the right one has been read.
-/

namespace Lox

/-- Whether the problem is recorded only when what stands behind it has been read. -/
def Problem.isLate : Problem → Bool
  | invalidTarget | missingLeftOperand => true
  | _ => false

/-- A problem, and the tokens that are left where it is found. -/
structure Sighting where
  tokens : List Token
  problem : Problem

namespace Sighting

def diagnostic (stop : Position) (s : Sighting) : Diagnostic := .atHead stop s.tokens s.problem

/-- The second sighting does not stand in front of the first one, unless it is a late one. -/
def Precedes (s s' : Sighting) : Prop := s'.tokens <:+ s.tokens ∨ s'.problem.isLate = true

end Sighting

/-- The diagnostics were recorded in reading the tokens up to those that remain. -/
structure Trail (stop : Position) (ts rest : List Token) (ds : List Diagnostic) : Prop where
  suffix : rest <:+ ts
  sightings : ∃ sightings : List Sighting, ds = sightings.map (·.diagnostic stop) ∧
    (∀ s ∈ sightings, rest <:+ s.tokens ∧ s.tokens <:+ ts) ∧ sightings.Pairwise Sighting.Precedes

namespace Trail

variable {stop : Position} {ts mid rest : List Token} {ds ds' : List Diagnostic} {problem : Problem}

theorem nil (h : rest <:+ ts) : Trail stop ts rest [] := ⟨h, [], rfl, List.forall_mem_nil _, .nil⟩

theorem refl : Trail stop ts ts [] := nil List.suffix_rfl

theorem taken (t : Token) (ts : List Token) : Trail stop (t :: ts) ts [] :=
  nil (List.suffix_cons t ts)

/-- A problem at the first token. -/
theorem head (h : rest <:+ ts) : Trail stop ts rest [.atHead stop ts problem] := by
  refine ⟨h, [⟨ts, problem⟩], rfl, ?_, List.pairwise_singleton _ _⟩
  exact List.forall_mem_singleton.mpr ⟨h, List.suffix_rfl⟩

/-- Who reads on from where a trail ends only goes forward. -/
theorem append (h : Trail stop ts mid ds) (h' : Trail stop mid rest ds') :
    Trail stop ts rest (ds ++ ds') := by
  obtain ⟨hmid, ss, rfl, hss, hpairs⟩ := h
  obtain ⟨hrest, ss', rfl, hss', hpairs'⟩ := h'
  refine ⟨hrest.trans hmid, ss ++ ss', (List.map_append ..).symm, ?_, ?_⟩
  · refine List.forall_mem_append.mpr ⟨fun s hs => ?_, fun s hs => ?_⟩
    · exact ⟨hrest.trans (hss s hs).1, (hss s hs).2⟩
    · exact ⟨(hss' s hs).1, (hss' s hs).2.trans hmid⟩
  · -- What is found further on stands behind the tokens in the middle, and these behind the rest.
    refine List.pairwise_append.mpr ⟨hpairs, hpairs', fun s hs s' hs' => ?_⟩
    exact .inl ((hss' s' hs').2.trans (hss s hs).1)

/-- A trail may begin further on than the tokens do. -/
theorem of_suffix (h : Trail stop mid rest ds) (hmid : mid <:+ ts) : Trail stop ts rest ds :=
  (nil hmid).append h

theorem skip {t : Token} (h : Trail stop ts rest ds) : Trail stop (t :: ts) rest ds :=
  h.of_suffix (List.suffix_cons t ts)

/-- More tokens may be dropped behind a trail. -/
theorem to_suffix (h : Trail stop ts mid ds) (hrest : rest <:+ mid) : Trail stop ts rest ds := by
  simpa using h.append (nil hrest)

/-- A late problem at the first token. -/
theorem late {t : Token} (h : Trail stop ts rest ds) (hlate : problem.isLate = true) :
    Trail stop (t :: ts) rest (ds ++ [.atToken t problem]) := by
  have hskip : Trail stop (t :: ts) rest ds := h.skip
  obtain ⟨hrest, ss, rfl, hss, hpairs⟩ := hskip
  refine ⟨hrest, ss ++ [⟨t :: ts, problem⟩], by simp [Sighting.diagnostic, Diagnostic.atHead], ?_,
    ?_⟩
  · exact List.forall_mem_append.mpr ⟨hss, List.forall_mem_singleton.mpr ⟨hrest, List.suffix_rfl⟩⟩
  · refine List.pairwise_append.mpr ⟨hpairs, List.pairwise_singleton _ _, fun s _ s' hs' => ?_⟩
    cases List.mem_singleton.mp hs'
    exact .inr hlate

end Trail

/-- Where reading resumes is further on. -/
theorem resume_suffix (ts : List Token) : resume ts <:+ ts := by
  fun_induction resume ts with
  | case1 => exact List.suffix_rfl
  | case2 t rest _ => exact List.suffix_cons t rest
  | case3 t rest _ ih => exact ih.trans (List.suffix_cons t rest)

/-! ## Phrases -/

namespace Phrase

variable {α β : Type} {m n : Nat} {stop : Position} {ts : List Token}

/-- All that the phrase reports was recorded in reading the tokens. -/
def Trails (stop : Position) (ts : List Token) : Phrase α n → Prop
  | read _ rest ds _ => Trail stop ts rest ds
  | failed d rest ds _ => Trail stop ts rest (ds ++ [d])

namespace Trails

theorem within {p : Phrase α m} {h : m ≤ n} (hp : p.Trails stop ts) :
    (p.within h).Trails stop ts := by
  cases p <;> exact hp

theorem map {p : Phrase α n} {f : α → β} (hp : p.Trails stop ts) : (p.map f).Trails stop ts := by
  cases p <;> exact hp

theorem skip {t : Token} {p : Phrase α n} (hp : p.Trails stop ts) : p.Trails stop (t :: ts) := by
  cases p <;> exact Trail.skip hp

/-- What was reported earlier led to where the phrase begins. -/
theorem report {p : Phrase α n} {us : List Token} {ds : List Diagnostic} (hp : p.Trails stop us)
    (hds : Trail stop ts us ds) : (p.report ds).Trails stop ts := by
  cases p with
  | read => exact hds.append hp
  | failed =>
      rw [Phrase.report, Trails, List.append_assoc]
      exact hds.append hp

/-- The second phrase begins where the first one leaves off. -/
theorem andThen {p : Phrase α n}
    {next : (v : α) → (rest : List Token) → rest.length < n → Phrase β n}
    (hp : p.Trails stop ts) (hnext : ∀ v rest h, (next v rest h).Trails stop rest) :
    (p.andThen next).Trails stop ts := by
  cases p with
  | read v rest ds h => exact (hnext v rest h).report hp
  | failed => exact hp

/-- A mistake points at the first of the tokens that are left. -/
theorem failHere (stop : Position) (problem : Problem) (ts : List Token) :
    (Phrase.failHere stop problem ts : Phrase α _).Trails stop ts :=
  Trail.head List.suffix_rfl

/-- What is dropped after a mistake stands behind it. -/
theorem settle {p : Phrase α n} {h : 0 < n} (hp : p.Trails stop ts) :
    Trail stop ts (p.settle h).rest (p.settle h).reports := by
  cases p with
  | read => exact hp
  | failed _ rest => exact Trail.to_suffix hp (resume_suffix rest)

end Trails

end Phrase

namespace Grammar

open Phrase

variable {stop : Position}

/-! ## Single tokens -/

/-- A choice reports nothing itself. -/
theorem trails_ifNext {β : Type} {n : Nat} {kind : Kind} {ts : List Token} {h : ts.length < n}
    {yes : (t : Token) → (rest : List Token) → rest.length + 1 < n → Phrase β n} {no : Phrase β n}
    (hyes : ∀ t rest h, (yes t rest h).Trails stop (t :: rest)) (hno : no.Trails stop ts) :
    (ifNext kind ts h yes no).Trails stop ts := by
  cases ts with
  | nil => exact hno
  | cons t rest =>
      rw [ifNext]
      split
      · exact hyes t rest h
      · exact hno

theorem trails_mark (p : Punct) (spot : Spot) (ts : List Token) :
    (mark stop p spot ts).Trails stop ts := by
  cases ts with
  | nil => exact .failHere ..
  | cons t rest =>
      rw [mark]
      split
      · exact Trail.taken t rest
      · exact .failHere ..

theorem trails_name (role : Role) (ts : List Token) : (name stop role ts).Trails stop ts := by
  cases ts with
  | nil => exact .failHere ..
  | cons t rest =>
      rw [name]
      split
      · exact Trail.taken t rest
      · exact .failHere ..

/-! ## Expressions -/

/-- A target that is none is reported when the value behind it has been read. -/
theorem trails_assigning {n : Nat} {target : Expr} {equals : Token} {ts : List Token}
    {p : Phrase Expr n} (hp : p.Trails stop ts) :
    (p.andThen fun value rest h => assignment target equals value rest h).Trails stop
      (equals :: ts) := by
  cases p with
  | failed => exact Trail.skip hp
  | read value rest ds h =>
      have hskip : Trail stop (equals :: ts) rest (ds ++ []) := by simpa using Trail.skip hp
      have hlate : Trail stop (equals :: ts) rest (ds ++ [.atToken equals .invalidTarget]) :=
        Trail.late hp rfl
      cases target <;> assumption

/-- An operator that lacks its left operand is reported when the right one has been read. -/
theorem trails_missingOperand {n : Nat} {t : Token} {ts : List Token} {p : Phrase Expr n}
    (hp : p.Trails stop ts) :
    (p.andThen fun _ rest h =>
      (.failed (.atToken t .missingLeftOperand) rest [] (Nat.le_of_lt h) : Phrase Expr n)).Trails
        stop (t :: ts) := by
  cases p with
  | failed => exact Trail.skip hp
  | read value rest ds h =>
      rw [Phrase.andThen, Phrase.report, List.append_nil]
      exact Trail.late hp rfl

mutual

/-- An expression leaves a trail; only assignments and operators without a left operand are late.
-/
theorem trails_expression (stop : Position) (ts : List Token) :
    (expression stop ts).Trails stop ts := by
  unfold expression
  refine (trails_conditional stop ts).andThen fun target rest h => ?_
  refine trails_ifNext (fun equals rest h => ?_) (Trail.refl)
  exact trails_assigning (trails_expression stop rest).within
termination_by ts.length * 32 + 16

theorem trails_conditional (stop : Position) (ts : List Token) :
    (conditional stop ts).Trails stop ts := by
  unfold conditional
  refine (trails_binary stop .or ts).andThen fun condition rest h => ?_
  refine trails_ifNext (fun question rest h => .skip ?_) (Trail.refl)
  refine (trails_expression stop rest).within.andThen fun yes rest h => ?_
  refine (trails_mark .colon .afterThenBranch rest).within.andThen fun _ rest h => ?_
  exact (trails_conditional stop rest).within.map
termination_by ts.length * 32 + 15
decreasing_by all_goals have := Level.or.rank_le; omega

theorem trails_binary (stop : Position) (level : Level) (ts : List Token) :
    (binary stop level ts).Trails stop ts := by
  unfold binary
  refine (trails_operand stop level ts).andThen fun left rest h => ?_
  exact (trails_chain stop level left rest).within
termination_by ts.length * 32 + 2 * level.rank + 4

theorem trails_operand (stop : Position) (level : Level) (ts : List Token) :
    (operand stop level ts).Trails stop ts := by
  cases level <;> unfold operand
  case factor => exact trails_unary stop ts
  all_goals exact trails_binary stop _ ts
termination_by ts.length * 32 + 2 * level.rank + 3
decreasing_by all_goals subst_vars; simp [Level.rank]

/-- So do the operators of a level. -/
theorem trails_chain (stop : Position) (level : Level) (left : Expr) (ts : List Token) :
    (chain stop level left ts).Trails stop ts := by
  cases ts with
  | nil =>
      unfold chain
      exact Trail.refl
  | cons t ts =>
      unfold chain
      cases t.kind.connectiveAt? level with
      | none => exact Trail.refl
      | some op =>
          refine .skip (.within (.andThen (trails_operand stop level ts) fun right rest h => ?_))
          exact (trails_chain stop level _ rest).within
termination_by ts.length * 32
decreasing_by all_goals have := level.rank_le; subst_vars; simp only [List.length_cons]; omega

theorem trails_unary (stop : Position) (ts : List Token) : (unary stop ts).Trails stop ts := by
  cases ts with
  | nil =>
      unfold unary
      exact trails_call stop []
  | cons t ts =>
      unfold unary
      cases t.kind.unaryOp? with
      | none => exact trails_call stop (t :: ts)
      | some op => exact .skip (trails_unary stop ts).within.map
termination_by ts.length * 32 + 2

theorem trails_call (stop : Position) (ts : List Token) : (call stop ts).Trails stop ts := by
  unfold call
  refine (trails_primary stop ts).andThen fun callee rest h => ?_
  exact (trails_calls stop callee rest).within
termination_by ts.length * 32 + 1

/-- So do calls. -/
theorem trails_calls (stop : Position) (callee : Expr) (ts : List Token) :
    (calls stop callee ts).Trails stop ts := by
  unfold calls
  refine trails_ifNext (fun opening rest h => .skip ?_) (Trail.refl)
  refine .within (.andThen (trails_arguments stop rest) fun args rest h => ?_)
  exact (trails_calls stop _ rest).within
termination_by ts.length * 32 + 19

theorem trails_arguments (stop : Position) (ts : List Token) :
    (arguments stop ts).Trails stop ts := by
  unfold arguments
  refine trails_ifNext (fun closing rest h => Trail.taken closing rest) ?_
  exact (trails_argumentList stop 0 ts).within
termination_by ts.length * 32 + 18

/-- Too many arguments are reported at the one that is too many, before it is read. -/
theorem trails_argumentList (stop : Position) (count : Nat) (ts : List Token) :
    (argumentList stop count ts).Trails stop ts := by
  unfold argumentList
  refine .report (.andThen (trails_expression stop ts) fun arg rest h => ?_) ?_
  · refine trails_ifNext (fun comma rest h => ?_) ?_
    · exact .skip (trails_argumentList stop (count + 1) rest).within.map
    · exact (trails_mark .rightParen .afterArguments rest).within.map
  · split
    · exact Trail.head List.suffix_rfl
    · exact Trail.refl
termination_by ts.length * 32 + 17

theorem trails_primary (stop : Position) (ts : List Token) : (primary stop ts).Trails stop ts := by
  cases ts with
  | nil =>
      unfold primary
      exact .failHere ..
  | cons t ts =>
      unfold primary
      split
      · exact Trail.taken t ts
      split
      · exact Trail.taken t ts
      · refine .skip ((trails_expression stop ts).within.andThen fun inner rest h => ?_)
        exact (trails_mark .rightParen .afterExpression rest).within.map
      split
      · exact trails_missingOperand (trails_binary stop _ ts).within
      · exact .failHere ..
termination_by ts.length * 32
decreasing_by all_goals have := Level.rank_le; subst_vars; simp only [List.length_cons]; grind

end

/-! ## Statements -/

/-- The mark that is missing is reported behind the expression. -/
theorem trails_expressionBefore (p : Punct) (spot : Spot) (ts : List Token) :
    (expressionBefore stop p spot ts).Trails stop ts := by
  refine (trails_expression stop ts).andThen fun e rest h => ?_
  exact (trails_mark p spot rest).within.map

theorem trails_optionalBefore (p : Punct) (spot : Spot) (ts : List Token) :
    (optionalBefore stop p spot ts).Trails stop ts := by
  cases ts with
  | nil => exact (trails_expressionBefore p spot []).map
  | cons t ts =>
      rw [optionalBefore]
      split
      · exact Trail.taken t ts
      · exact (trails_expressionBefore p spot (t :: ts)).map

theorem trails_parenthesized (opening closing : Spot) (ts : List Token) :
    (parenthesized stop opening closing ts).Trails stop ts := by
  refine (trails_mark .leftParen opening ts).andThen fun _ rest h => ?_
  exact (trails_expressionBefore .rightParen closing rest).within

theorem trails_variableDeclaration (ts : List Token) :
    (variableDeclaration stop ts).Trails stop ts := by
  refine (trails_name .variable_ ts).andThen fun x rest h => ?_
  refine trails_ifNext (fun equals rest h => ?_) ?_
  · exact .skip (trails_expressionBefore .semicolon _ rest).within.map
  · exact (trails_mark .semicolon _ rest).within.map

theorem trails_forInit (ts : List Token) : (forInit stop ts).Trails stop ts := by
  cases ts with
  | nil => exact .failHere ..
  | cons t ts =>
      rw [forInit]
      split
      · exact Trail.taken t ts
      split
      · exact .skip (trails_variableDeclaration ts).within.map
      · exact (trails_expressionBefore .semicolon _ (t :: ts)).map

theorem trails_forClauses (ts : List Token) : (forClauses stop ts).Trails stop ts := by
  refine (trails_mark .leftParen .afterFor ts).andThen fun _ rest h => ?_
  refine (trails_forInit rest).within.andThen fun init rest h => ?_
  refine (trails_optionalBefore .semicolon _ rest).within.andThen fun condition rest h => ?_
  exact (trails_optionalBefore .rightParen _ rest).within.map

/-- Too many parameters are reported at the one that is too many, before it is read. -/
theorem trails_parameterList (count : Nat) (ts : List Token) :
    (parameterList stop count ts).Trails stop ts := by
  unfold parameterList
  refine .report (.andThen (trails_name .parameter ts) fun x rest h => ?_) ?_
  · refine trails_ifNext (fun comma rest h => ?_) ?_
    · exact .skip (trails_parameterList (count + 1) rest).within.map
    · exact (trails_mark .rightParen .afterParameters rest).within.map
  · split
    · exact Trail.head List.suffix_rfl
    · exact Trail.refl
termination_by ts.length

theorem trails_parameters (ts : List Token) : (parameters stop ts).Trails stop ts :=
  trails_ifNext (fun closing rest _ => Trail.taken closing rest)
    (trails_parameterList 0 ts).within

theorem trails_functionHead (ts : List Token) : (functionHead stop ts).Trails stop ts := by
  refine (trails_name .function ts).andThen fun f rest h => ?_
  refine (trails_mark .leftParen _ rest).within.andThen fun _ rest h => ?_
  refine (trails_parameters rest).within.andThen fun params rest h => ?_
  exact (trails_mark .leftCurly .beforeFunctionBody rest).within.map

/-- A word that stands where it must not is reported at the word. -/
theorem trail_reportUnless (ok : Bool) (t : Token) (problem : Problem) (ts : List Token) :
    Trail stop (t :: ts) ts (reportUnless ok t problem) := by
  cases ok with
  | true => exact Trail.taken t ts
  | false =>
      have hhead : Trail stop (t :: ts) ts [.atHead stop (t :: ts) problem] :=
        Trail.head (List.suffix_cons t ts)
      exact hhead

mutual

/-- A declaration leaves a trail. -/
theorem trails_declaration (stop : Position) (scope : Scope) (ts : List Token) :
    (declaration stop scope ts).Trails stop ts := by
  cases ts with
  | nil =>
      unfold declaration
      exact trails_statement stop scope []
  | cons t ts =>
      unfold declaration
      split
      · refine .skip (.within (.andThen (trails_functionHead ts) fun head rest h => ?_))
        exact (trails_block stop scope.function rest).within.map
      split
      · exact .skip (trails_variableDeclaration ts).within
      · exact trails_statement stop scope (t :: ts)
termination_by ts.length * 4 + 2

/-- A statement leaves a trail, and a jump that has nowhere to go is reported at its own word. -/
theorem trails_statement (stop : Position) (scope : Scope) (ts : List Token) :
    (statement stop scope ts).Trails stop ts := by
  cases ts with
  | nil =>
      unfold statement
      exact .failHere ..
  | cons t ts =>
      unfold statement
      split
      · exact .skip (trails_expressionBefore .semicolon .afterValue ts).within.map
      · exact .skip (trails_block stop scope ts).within.map
      · refine .skip (.within (.andThen (trails_parenthesized .afterIf .afterIfCondition ts)
          fun condition rest h => ?_))
        refine (trails_statement stop scope rest).within.andThen fun yes rest h => ?_
        refine trails_ifNext (fun _ rest h => .skip ?_) (Trail.refl)
        exact (trails_statement stop scope rest).within.map
      · refine .skip (.within (.andThen (trails_parenthesized .afterWhile .afterCondition ts)
          fun condition rest h => ?_))
        exact (trails_statement stop scope.loop rest).within.map
      · refine .skip (.within (.andThen (trails_forClauses ts) fun clauses rest h => ?_))
        exact (trails_statement stop scope.loop rest).within.map
      · exact .report (trails_mark .semicolon .afterBreak ts).within.map
          (trail_reportUnless scope.inLoop t .breakOutsideLoop ts)
      · exact .report (trails_optionalBefore .semicolon .afterReturnValue ts).within.map
          (trail_reportUnless scope.inFunction t .returnOutsideFunction ts)
      · exact (trails_expressionBefore .semicolon .afterExpression (t :: ts)).map
termination_by ts.length * 4 + 1

/-- The declarations of a block leave one trail, behind each other. -/
theorem trails_block (stop : Position) (scope : Scope) (ts : List Token) :
    (block stop scope ts).Trails stop ts := by
  cases ts with
  | nil =>
      unfold block
      exact .failHere ..
  | cons t ts =>
      unfold block
      split
      · exact Trail.taken t ts
      · exact .report (trails_block stop scope _).within.map
          (trails_declaration stop scope (t :: ts)).settle
termination_by ts.length * 4 + 3
decreasing_by
  · have := ((declaration stop scope (t :: ts)).settle (Nat.succ_pos _)).shorter
    simp_all
  · simp

end

/-- What a program reports was recorded in reading it to its end. -/
theorem trail_declarations (stop : Position) (ts : List Token) :
    Trail stop ts [] (declarations stop ts).diagnostics := by
  cases ts with
  | nil =>
      rw [declarations]
      exact Trail.refl
  | cons t ts =>
      rw [declarations]
      exact (trails_declaration stop {} (t :: ts)).settle.append (trail_declarations stop _)
termination_by ts.length
decreasing_by exact ((declaration stop {} (t :: ts)).settle (by simp)).shorter

end Grammar

end Lox
