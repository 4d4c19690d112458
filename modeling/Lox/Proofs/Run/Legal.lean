import Lox.Proofs.Grammar.Legal
import Lox.Proofs.Run.Ends
import Lox.Proofs.Run.Parts

/-!
# Running legal programs

Legality reaches from trees to what a run makes of them: a function value is legal if its body is,
and a store if all of its values are.  A run of a legal tree in a legal store keeps the store
legal.  If it is done, what it gives is legal, and it finishes in a way that its scope allows; if
it fails, a token that is to blame stands on the line of the fault.
-/

namespace Lox

/-! ## Values and stores -/

/-- The scope of the body of a function. -/
abbrev Scope.ofBody : Scope := { inLoop := false, inFunction := true }

def Code.Legal (T : Set Token) : Code → Prop
  | native _ arity => arity ≤ maxArity
  | closure params body _ => params.length ≤ maxArity ∧ ∀ s ∈ body, s.Legal T .ofBody

def Value.Legal (T : Set Token) : Value → Prop
  | function f => f.code.Legal T
  | _ => True

/-- A `break` needs a loop to stop, and a `return` a call to end. -/
def Flow.Legal (T : Set Token) (scope : Scope) : Flow → Prop
  | normal => True
  | break_ => scope.inLoop = true
  | return_ v => scope.inFunction = true ∧ v.Legal T

def Store.Legal (T : Set Token) (store : Store) : Prop := store.Holds (Value.Legal T)

theorem Code.Legal.mono {T T' : Set Token} {code : Code} (h : code.Legal T) (hT : T ⊆ T') :
    code.Legal T' := by
  cases code with
  | native _ _ => exact h
  | closure params body frame => exact ⟨h.1, fun s hs => (h.2 s hs).mono hT⟩

/-- A store that is legal for some tokens is so for more of them. -/
theorem Store.Legal.mono {T T' : Set Token} {store : Store} (h : store.Legal T) (hT : T ⊆ T') :
    store.Legal T' := by
  refine Holds.mono h ?_
  intro v hv
  cases v with
  | function f => exact Code.Legal.mono hv hT
  | _ => trivial

/-- No function has more parameters than there may be. -/
theorem Code.Legal.arity_le {T : Set Token} {code : Code} (h : code.Legal T) :
    code.arity ≤ maxArity := by
  cases code with
  | native _ _ => exact h
  | closure params body frame => exact h.1

/-! ## Failures -/

/-- The kinds of tokens that a fault can be blamed on. -/
def Fault.Suspects : Fault → Kind → Prop
  | divisionByZero, kind => kind = .punct .slash
  | numberOperand, kind => kind = .punct .minus
  | numberOperands, kind =>
    ∃ p ∈ [Punct.minus, .star, .slash, .less, .lessEqual, .greater, .greaterEqual], kind = .punct p
  | addOperands, kind => kind = .punct .plus
  | undefinedVariable name, kind => ∃ x : Symbol, x.name = name ∧ kind = .identifier x
  | notCallable, kind => kind = .punct .rightParen
  | argumentCount _ _, kind => kind = .punct .rightParen

/-- What is wrong about a number of arguments is not that there are too many to count. -/
def Fault.Counted : Fault → Prop
  | argumentCount expected actual =>
    expected ≠ actual ∧ expected ≤ maxArity ∧ actual ≤ maxArity
  | _ => True

def Failure.Legal (T : Set Token) : Failure → Prop
  | fault line e => (∃ t ∈ T, t.line = line ∧ e.Suspects t.kind) ∧ e.Counted
  | outputRefused => True

/-- Everything that an outcome leaves behind is legal. -/
def Outcome.Legal {α : Type} (T : Set Token) (value : α → Prop) (o : Outcome α) : Prop :=
  o.Ends (fun a s => value a ∧ s.store.Legal T) (fun e s => e.Legal T ∧ s.store.Legal T)

section

variable {α β : Type} {T : Set Token} {s : State}

/-- What the first step leaves is what the second one needs. -/
theorem Outcome.Legal.bind {x : Action α} {f : α → Action β} {first : α → Prop} {last : β → Prop}
    (hx : (x s).Legal T first)
    (hf : ∀ a s', first a → s'.store.Legal T → (f a s').Legal T last) :
    ((x >>= f) s).Legal T last :=
  Ends.bind hx fun a s' h => hf a s' h.1 h.2

namespace Action

theorem legal_pure {a : α} {value : α → Prop} (ha : value a) (hs : s.store.Legal T) :
    ((pure a : Action α) s).Legal T value :=
  ⟨ha, hs⟩

theorem legal_ite {c : Prop} [Decidable c] {x y : Action α} {value : α → Prop}
    (hx : c → (x s).Legal T value) (hy : ¬c → (y s).Legal T value) :
    ((if c then x else y) s).Legal T value := by
  split
  · exact hx ‹c›
  · exact hy ‹¬c›

/-- A fault is legal when a token that it can be blamed on stands on its line. -/
theorem legal_fault {kind : Kind} {line : Position} {e : Fault} {value : α → Prop}
    (hline : kind.StandsOn T line) (hkind : e.Suspects kind) (he : e.Counted)
    (hs : s.store.Legal T) : ((fail (.fault line e) : Action α) s).Legal T value := by
  obtain ⟨t, ht, rfl, hline⟩ := hline
  exact ⟨⟨⟨t, ht, hline, hkind⟩, he⟩, hs⟩

/-- An operator is blamed on a line that a token of it stands on. -/
theorem legal_blame {kind : Kind} {line : Position} {r : Except Fault α} {value : α → Prop}
    (hline : kind.StandsOn T line) (hok : ∀ a, r = .ok a → value a)
    (herror : ∀ e, r = .error e → e.Suspects kind ∧ e.Counted) (hs : s.store.Legal T) :
    (blame line r s).Legal T value := by
  cases r with
  | ok a => exact legal_pure (hok a rfl) hs
  | error e => exact legal_fault hline (herror e rfl).1 (herror e rfl).2 hs

theorem legal_newFrame (parent : Option FrameId) (hs : s.store.Legal T) :
    (newFrame parent s).Legal T fun _ => True :=
  ⟨trivial, hs.newFrame parent⟩

theorem legal_define (i : FrameId) (x : Symbol) {v : Value} (hv : v.Legal T)
    (hs : s.store.Legal T) : (define i x v s).Legal T fun _ => True :=
  ⟨trivial, hs.define i x hv⟩

theorem legal_defineAll (i : FrameId) {bs : List (Symbol × Value)} (hbs : ∀ b ∈ bs, b.2.Legal T)
    (hs : s.store.Legal T) : (defineAll i bs s).Legal T fun _ => True := by
  induction bs generalizing s with
  | nil => exact legal_pure trivial hs
  | cons b bs ih =>
      obtain ⟨hb, hbs⟩ := List.forall_mem_cons.mp hbs
      refine (legal_define i b.1 hb hs).bind ?_
      intro _ s' _ hs'
      exact ih hbs hs'

/-- A name that is not bound is blamed on a line that it stands on. -/
theorem legal_get {i : FrameId} {x : Symbol} {line : Position}
    (hx : (Kind.identifier x).StandsOn T line) (hs : s.store.Legal T) :
    (get i x line s).Legal T (Value.Legal T) := by
  rw [get]
  cases h : s.store.get? i x with
  | some v => exact ⟨hs.get? h, hs⟩
  | none => exact legal_fault hx ⟨x, rfl, rfl⟩ trivial hs

/-- And so is a target that is not bound. -/
theorem legal_assign {i : FrameId} {x : Symbol} {v : Value} {line : Position} (hv : v.Legal T)
    (hx : (Kind.identifier x).StandsOn T line) (hs : s.store.Legal T) :
    (assign i x v line s).Legal T fun _ => True := by
  rw [assign]
  cases s.store.owner? x i with
  | some j => exact legal_define j x hv hs
  | none => exact legal_fault hx ⟨x, rfl, rfl⟩ trivial hs

/-- Code that is legal is stored as a legal function. -/
theorem legal_defineFunction {i : FrameId} {x : Symbol} {code : Code} (hcode : code.Legal T)
    (hs : s.store.Legal T) : (defineFunction i x code s).Legal T fun _ => True :=
  ⟨trivial, (hs.newFunction x code).define i x hcode⟩

theorem legal_print (v : Value) (hs : s.store.Legal T) :
    (print v s).Legal T fun _ => True := by
  rw [print]
  obtain ⟨output, complete⟩ := s.output.write (v.text ++ "\n").toUTF8
  cases complete with
  | true => exact ⟨trivial, hs⟩
  | false => exact ⟨trivial, hs⟩

end Action

end

/-! ## Operators -/

/-- The value is no function. -/
def Value.Plain : Value → Prop
  | function _ => False
  | _ => True

/-- A value that is no function has no code to be legal. -/
theorem Value.Plain.legal {v : Value} (h : v.Plain) (T : Set Token) : v.Legal T := by
  cases v with
  | function f => exact h.elim
  | _ => trivial

theorem Value.plain_ofLiteral (value : Literal) : (ofLiteral value).Plain := by
  cases value <;> trivial

/-- A function of the host makes no functions. -/
theorem Answer.among_cases (answer : Answer) (args : List Value) :
    (answer.among args).Plain ∨ answer.among args ∈ args := by
  cases answer with
  | value literal => exact .inl (Value.plain_ofLiteral literal)
  | argument index =>
      rw [among]
      cases h : args[index]? with
      | none => exact .inl trivial
      | some v => exact .inr (List.mem_of_getElem? h)

theorem UnaryOp.plain_of_apply {op : UnaryOp} {v w : Value} (h : op.apply v = .ok w) :
    w.Plain := by
  cases op with
  | not =>
      cases h
      trivial
  | neg =>
      cases v <;> cases h
      trivial

/-- A prefix operator fails only with a fault that is blamed on such an operator. -/
theorem UnaryOp.suspects_of_apply {op : UnaryOp} {v : Value} {e : Fault}
    (h : op.apply v = .error e) : e.Suspects op.kind ∧ e.Counted := by
  cases op with
  | not => cases h
  | neg => cases v <;> cases h <;> exact ⟨rfl, trivial⟩

theorem Value.plain_of_add {v w u : Value} (h : v.add w = .ok u) : u.Plain := by
  cases v <;> cases w <;> cases h <;> trivial

theorem Value.eq_of_add {v w : Value} {e : Fault} (h : v.add w = .error e) : e = .addOperands := by
  cases v <;> cases w <;> cases h <;> rfl

/-- An operation on numbers that is done was done on numbers. -/
theorem Value.exists_of_onNumbers {f : Number → Number → Except Fault Value} {v w u : Value}
    (h : v.onNumbers f w = .ok u) : ∃ a b, f a b = .ok u := by
  cases v <;> cases w <;> first | exact ⟨_, _, h⟩ | cases h

/-- On numbers an operation fails as it does by itself, and on others it has one fault. -/
theorem Value.eq_or_exists_of_onNumbers {f : Number → Number → Except Fault Value} {v w : Value}
    {e : Fault} (h : v.onNumbers f w = .error e) :
    e = .numberOperands ∨ ∃ a b, f a b = .error e := by
  cases v <;> cases w <;> first | exact .inr ⟨_, _, h⟩ | (cases h; exact .inl rfl)

/-- No operator gives a function. -/
theorem BinaryOp.plain_of_apply {op : BinaryOp} {v w u : Value} (h : op.apply v w = .ok u) :
    u.Plain := by
  cases op with
  | equal | notEqual =>
      cases h
      trivial
  | add => exact Value.plain_of_add h
  | div =>
      obtain ⟨a, b, hab⟩ := Value.exists_of_onNumbers h
      split at hab <;> cases hab
      trivial
  | _ =>
      obtain ⟨a, b, ⟨⟩⟩ := Value.exists_of_onNumbers h
      trivial

/-- An operator fails only with a fault that is blamed on such an operator. -/
theorem BinaryOp.suspects_of_apply {op : BinaryOp} {v w : Value} {e : Fault}
    (h : op.apply v w = .error e) : e.Suspects (Connective.binary op).kind ∧ e.Counted := by
  cases op with
  | equal | notEqual => cases h
  | add =>
      obtain rfl := Value.eq_of_add h
      exact ⟨rfl, trivial⟩
  | div =>
      obtain rfl | ⟨a, b, hab⟩ := Value.eq_or_exists_of_onNumbers h
      · exact ⟨⟨_, by decide, rfl⟩, trivial⟩
      · split at hab <;> cases hab
        exact ⟨rfl, trivial⟩
  | _ =>
      obtain rfl | ⟨a, b, ⟨⟩⟩ := Value.eq_or_exists_of_onNumbers h
      exact ⟨⟨_, by decide, rfl⟩, trivial⟩

/-! ## The evaluator -/

mutual

/-- A legal expression has a legal value. -/
theorem legal_eval {T : Set Token} {clock : Nat → Number} {frame : FrameId} {e : Expr}
    {s : State} (fuel : Nat) (he : e.Legal T) (hs : s.store.Legal T) :
    (eval clock fuel frame e s).Legal T (Value.Legal T) := by
  match fuel, he with
  | 0, _ => trivial
  | _ + 1, .literal => exact Action.legal_pure ((Value.plain_ofLiteral _).legal T) hs
  | fuel + 1, .group he => exact legal_eval fuel he hs
  | fuel + 1, .unary hline he =>
      refine (legal_eval fuel he hs).bind ?_
      intro v s hv hs
      exact Action.legal_blame hline (fun _ hv => (UnaryOp.plain_of_apply hv).legal T)
        (fun _ => UnaryOp.suspects_of_apply) hs
  | fuel + 1, .binary hline hleft hright =>
      refine (legal_eval fuel hleft hs).bind ?_
      intro v s hv hs
      refine (legal_eval fuel hright hs).bind ?_
      intro w s hw hs
      exact Action.legal_blame hline (fun _ hu => (BinaryOp.plain_of_apply hu).legal T)
        (fun _ => BinaryOp.suspects_of_apply) hs
  | fuel + 1, @Expr.Legal.logical _ .and _ _ hleft hright =>
      refine (legal_eval fuel hleft hs).bind ?_
      intro v s hv hs
      exact Action.legal_ite (fun _ => legal_eval fuel hright hs) (fun _ => Action.legal_pure hv hs)
  | fuel + 1, @Expr.Legal.logical _ .or _ _ hleft hright =>
      refine (legal_eval fuel hleft hs).bind ?_
      intro v s hv hs
      exact Action.legal_ite (fun _ => Action.legal_pure hv hs) (fun _ => legal_eval fuel hright hs)
  | fuel + 1, .conditional hcondition hyes hno =>
      refine (legal_eval fuel hcondition hs).bind ?_
      intro v s _ hs
      exact Action.legal_ite (fun _ => legal_eval fuel hyes hs) (fun _ => legal_eval fuel hno hs)
  | _ + 1, .var hline => exact Action.legal_get hline hs
  | fuel + 1, .assign hline he =>
      refine (legal_eval fuel he hs).bind ?_
      intro v s hv hs
      refine (Action.legal_assign hv hline hs).bind ?_
      intro _ s _ hs
      exact Action.legal_pure hv hs
  | fuel + 1, .call hline hcallee hargs harity =>
      refine (legal_eval fuel hcallee hs).bind ?_
      intro v s hv hs
      refine (legal_evalAll fuel hargs hs).bind ?_
      rintro vs s ⟨hvs, hlength⟩ hs
      cases v with
      | function f =>
          refine Action.legal_ite (fun _ => legal_call fuel hv hvs hs) ?_
          intro hne
          have hactual : vs.length ≤ maxArity := hlength ▸ harity
          exact Action.legal_fault hline rfl ⟨Ne.symm hne, Code.Legal.arity_le hv, hactual⟩ hs
      | _ => exact Action.legal_fault hline rfl trivial hs
termination_by structural fuel

/-- Legal expressions have as many legal values. -/
theorem legal_evalAll {T : Set Token} {clock : Nat → Number} {frame : FrameId}
    {es : List Expr} {s : State} (fuel : Nat) (hes : ∀ e ∈ es, e.Legal T) (hs : s.store.Legal T) :
    (evalAll clock fuel frame es s).Legal T
      fun vs => (∀ v ∈ vs, v.Legal T) ∧ vs.length = es.length := by
  match fuel, es, hes with
  | 0, _, _ => trivial
  | _ + 1, [], _ => exact Action.legal_pure ⟨nofun, rfl⟩ hs
  | fuel + 1, e :: es, hes =>
      obtain ⟨he, hes⟩ := List.forall_mem_cons.mp hes
      refine (legal_eval fuel he hs).bind ?_
      intro v s hv hs
      refine (legal_evalAll fuel hes hs).bind ?_
      rintro vs s ⟨hvs, hlength⟩ hs
      exact Action.legal_pure ⟨List.forall_mem_cons.mpr ⟨hv, hvs⟩, congrArg _ hlength⟩ hs
termination_by structural fuel

/-- A legal function gives a legal value back. -/
theorem legal_call {T : Set Token} {clock : Nat → Number} {f : Function}
    {args : List Value} {s : State} (fuel : Nat) (hf : f.code.Legal T)
    (hargs : ∀ v ∈ args, v.Legal T) (hs : s.store.Legal T) :
    (call clock fuel f args s).Legal T (Value.Legal T) := by
  match fuel, f, hf with
  | 0, _, _ => trivial
  | _ + 1, ⟨_, _, .native .clock _⟩, _ => exact ⟨trivial, hs⟩
  | _ + 1, ⟨_, _, .native (.host answer) _⟩, _ =>
      refine Action.legal_pure ?_ hs
      rcases Answer.among_cases (answer (args.map Value.literal?)) args with hplain | hmem
      · exact hplain.legal T
      · exact hargs _ hmem
  | fuel + 1, ⟨_, _, .closure params body parent⟩, hf =>
      refine (Action.legal_newFrame _ hs).bind ?_
      intro frame s _ hs
      have hbindings : ∀ b ∈ params.zip args, b.2.Legal T := fun b hb =>
        hargs b.2 (List.of_mem_zip hb).2
      refine (Action.legal_defineAll frame hbindings hs).bind ?_
      intro _ s _ hs
      refine (legal_execAll fuel hf.2 hs).bind ?_
      intro flow s hflow hs
      cases flow with
      | return_ v => exact Action.legal_pure hflow.2 hs
      | _ => exact Action.legal_pure trivial hs
termination_by structural fuel

/-- A legal statement finishes as its scope allows.  A loop takes a `break` of its body for itself
and hands on a `return`. -/
theorem legal_exec {T : Set Token} {scope : Scope} {clock : Nat → Number} {frame : FrameId}
    {st : Stmt} {s : State} (fuel : Nat) (hst : st.Legal T scope) (hs : s.store.Legal T) :
    (exec clock fuel frame st s).Legal T (Flow.Legal T scope) := by
  match fuel, hst with
  | 0, _ => trivial
  | fuel + 1, .expr he =>
      refine (legal_eval fuel he hs).bind ?_
      intro _ s _ hs
      exact Action.legal_pure trivial hs
  | fuel + 1, .print he =>
      refine (legal_eval fuel he hs).bind ?_
      intro v s _ hs
      refine (Action.legal_print v hs).bind ?_
      intro _ s _ hs
      exact Action.legal_pure trivial hs
  | _ + 1, @Stmt.Legal.var _ _ x none _ =>
      refine (@Action.legal_define _ _ frame x .nil trivial hs).bind ?_
      intro _ s _ hs
      exact Action.legal_pure trivial hs
  | fuel + 1, @Stmt.Legal.var _ _ x (some init) hinit =>
      refine (legal_eval fuel (hinit init rfl) hs).bind ?_
      intro v s hv hs
      refine (Action.legal_define frame x hv hs).bind ?_
      intro _ s _ hs
      exact Action.legal_pure trivial hs
  | fuel + 1, .block hbody =>
      refine (Action.legal_newFrame _ hs).bind ?_
      intro inner s _ hs
      exact legal_execAll fuel hbody hs
  | fuel + 1, .ifThen hcondition hyes =>
      refine (legal_eval fuel hcondition hs).bind ?_
      intro v s _ hs
      exact Action.legal_ite (fun _ => legal_exec fuel hyes hs)
        (fun _ => Action.legal_pure trivial hs)
  | fuel + 1, .ifElse hcondition hyes hno =>
      refine (legal_eval fuel hcondition hs).bind ?_
      intro v s _ hs
      exact Action.legal_ite (fun _ => legal_exec fuel hyes hs) (fun _ => legal_exec fuel hno hs)
  | fuel + 1, .while_ hcondition hbody =>
      refine (legal_eval fuel hcondition hs).bind ?_
      intro v s _ hs
      refine Action.legal_ite (fun _ => ?_) (fun _ => Action.legal_pure trivial hs)
      refine (legal_exec fuel hbody hs).bind ?_
      intro flow s hflow hs
      cases flow with
      | normal => exact legal_exec fuel (.while_ hcondition hbody) hs
      | break_ => exact Action.legal_pure trivial hs
      | return_ v => exact Action.legal_pure hflow hs
  | _ + 1, .break_ hloop => exact Action.legal_pure hloop hs
  | _ + 1, @Stmt.Legal.function _ _ _ params body harity hbody =>
      have hcode : (Code.closure params body frame).Legal T := ⟨harity, hbody⟩
      refine (Action.legal_defineFunction hcode hs).bind ?_
      intro _ s _ hs
      exact Action.legal_pure trivial hs
  | _ + 1, @Stmt.Legal.return_ _ _ none _ hfunction =>
      exact Action.legal_pure ⟨hfunction, trivial⟩ hs
  | fuel + 1, @Stmt.Legal.return_ _ _ (some e) he hfunction =>
      refine (legal_eval fuel (he e rfl) hs).bind ?_
      intro v s hv hs
      exact Action.legal_pure ⟨hfunction, hv⟩ hs
termination_by structural fuel

/-- Legal statements finish as their scope allows. -/
theorem legal_execAll {T : Set Token} {scope : Scope} {clock : Nat → Number}
    {frame : FrameId} {ss : List Stmt} {s : State} (fuel : Nat) (hss : ∀ st ∈ ss, st.Legal T scope)
    (hs : s.store.Legal T) : (execAll clock fuel frame ss s).Legal T (Flow.Legal T scope) := by
  match fuel, ss, hss with
  | 0, _, _ => trivial
  | _ + 1, [], _ => exact Action.legal_pure trivial hs
  | fuel + 1, st :: ss, hss =>
      obtain ⟨hst, hss⟩ := List.forall_mem_cons.mp hss
      refine (legal_exec fuel hst hs).bind ?_
      intro flow s hflow hs
      cases flow with
      | normal => exact legal_execAll fuel hss hs
      | _ => exact Action.legal_pure hflow hs
termination_by structural fuel

end

/-! ## The parts of a run -/

def Task.Legal (T : Set Token) : Task → Prop
  | eval _ e => e.Legal T
  | evalAll _ es => ∀ e ∈ es, e.Legal T
  | call f args => f.code.Legal T ∧ ∀ v ∈ args, v.Legal T
  | exec _ st => ∃ scope, st.Legal T scope
  | execAll _ ss => ∃ scope, ∀ st ∈ ss, st.Legal T scope

structure Moment.Legal (T : Set Token) (m : Moment) : Prop where
  task : m.task.Legal T
  store : m.state.store.Legal T

/-- What is legal of an outcome is legal of its value and store. -/
theorem Outcome.Legal.of_done {α : Type} {T : Set Token} {value : α → Prop} {o : Outcome α}
    {a : α} {s : State} (h : o.Legal T value) (ho : o = .done a s) :
    value a ∧ s.store.Legal T := by
  subst ho
  exact h

section

variable {T : Set Token} {clock : Nat → Number} {n : Nat} {i : FrameId} {s s' : State}

/-- A legal expression gives a legal value and leaves a legal store. -/
theorem Expr.Legal.of_done {e : Expr} {v : Value} (he : e.Legal T) (hs : s.store.Legal T)
    (h : eval clock n i e s = .done v s') : v.Legal T ∧ s'.store.Legal T :=
  (legal_eval n he hs).of_done h

/-- A legal statement finishes in a way that its scope allows, and leaves a legal store. -/
theorem Stmt.Legal.of_done {scope : Scope} {st : Stmt} {flow : Flow} (hst : st.Legal T scope)
    (hs : s.store.Legal T) (h : exec clock n i st s = .done flow s') :
    flow.Legal T scope ∧ s'.store.Legal T :=
  (legal_exec n hst hs).of_done h

end

/-- What a legal task starts is legal. -/
theorem Starts.legal {T : Set Token} {clock : Nat → Number} {m m' : Moment}
    (h : Starts clock m m') (hm : m.Legal T) : m'.Legal T := by
  obtain ⟨htask, hs⟩ := hm
  cases h with
  | group =>
      cases htask with
      | group he => exact ⟨he, hs⟩
  | assign =>
      cases htask with
      | assign _ he => exact ⟨he, hs⟩
  | unary =>
      cases htask with
      | unary _ he => exact ⟨he, hs⟩
  | binaryLeft =>
      cases htask with
      | binary _ hleft _ => exact ⟨hleft, hs⟩
  | binaryRight hleft' =>
      cases htask with
      | binary _ hleft hright => exact ⟨hright, (hleft.of_done hs hleft').2⟩
  | logicalLeft =>
      cases htask with
      | logical hleft _ => exact ⟨hleft, hs⟩
  | andRight hleft' _ | orRight hleft' _ =>
      cases htask with
      | logical hleft hright => exact ⟨hright, (hleft.of_done hs hleft').2⟩
  | condition =>
      cases htask with
      | conditional hcondition _ _ => exact ⟨hcondition, hs⟩
  | conditionYes hv _ =>
      cases htask with
      | conditional hcondition hyes _ => exact ⟨hyes, (hcondition.of_done hs hv).2⟩
  | conditionNo hv _ =>
      cases htask with
      | conditional hcondition _ hno => exact ⟨hno, (hcondition.of_done hs hv).2⟩
  | callee =>
      cases htask with
      | call _ hcallee _ _ => exact ⟨hcallee, hs⟩
  | arguments hv =>
      cases htask with
      | call _ hcallee hargs _ => exact ⟨hargs, (hcallee.of_done hs hv).2⟩
  | call hv hvs _ =>
      cases htask with
      | call _ hcallee hargs _ =>
          obtain ⟨hf, hs⟩ := hcallee.of_done hs hv
          obtain ⟨⟨hvs, _⟩, hs⟩ := (legal_evalAll _ hargs hs).of_done hvs
          exact ⟨⟨hf, hvs⟩, hs⟩
  | first => exact ⟨htask _ (List.mem_cons_self ..), hs⟩
  | others hv =>
      obtain ⟨he, hes⟩ := List.forall_mem_cons.mp htask
      exact ⟨hes, (he.of_done hs hv).2⟩
  | body hcode hframe hdefine =>
      obtain ⟨hf, hargs⟩ := htask
      rw [hcode] at hf
      have hs := ((Action.legal_newFrame _ hs).of_done hframe).2
      have hs := ((Action.legal_defineAll _ ?_ hs).of_done hdefine).2
      · exact ⟨⟨_, hf.2⟩, hs⟩
      · exact fun b hb => hargs b.2 (List.of_mem_zip hb).2
  | expr =>
      obtain ⟨scope, hst⟩ := htask
      cases hst with
      | expr he => exact ⟨he, hs⟩
  | print =>
      obtain ⟨scope, hst⟩ := htask
      cases hst with
      | print he => exact ⟨he, hs⟩
  | init =>
      obtain ⟨scope, hst⟩ := htask
      cases hst with
      | var he => exact ⟨he _ rfl, hs⟩
  | block hframe =>
      obtain ⟨scope, hst⟩ := htask
      cases hst with
      | block hbody => exact ⟨⟨scope, hbody⟩, ((Action.legal_newFrame _ hs).of_done hframe).2⟩
  | ifThen =>
      obtain ⟨scope, hst⟩ := htask
      cases hst with
      | ifThen he _ => exact ⟨he, hs⟩
  | ifThenYes hv _ =>
      obtain ⟨scope, hst⟩ := htask
      cases hst with
      | ifThen he hyes => exact ⟨⟨scope, hyes⟩, (he.of_done hs hv).2⟩
  | ifElse =>
      obtain ⟨scope, hst⟩ := htask
      cases hst with
      | ifElse he _ _ => exact ⟨he, hs⟩
  | ifElseYes hv _ =>
      obtain ⟨scope, hst⟩ := htask
      cases hst with
      | ifElse he hyes _ => exact ⟨⟨scope, hyes⟩, (he.of_done hs hv).2⟩
  | ifElseNo hv _ =>
      obtain ⟨scope, hst⟩ := htask
      cases hst with
      | ifElse he _ hno => exact ⟨⟨scope, hno⟩, (he.of_done hs hv).2⟩
  | while_ =>
      obtain ⟨scope, hst⟩ := htask
      cases hst with
      | while_ he _ => exact ⟨he, hs⟩
  | whileBody hv _ =>
      obtain ⟨scope, hst⟩ := htask
      cases hst with
      | while_ he hbody => exact ⟨⟨_, hbody⟩, (he.of_done hs hv).2⟩
  | whileAgain hv _ hnormal =>
      obtain ⟨scope, hst⟩ := htask
      cases hst with
      | while_ he hbody =>
          have hs := (he.of_done hs hv).2
          exact ⟨⟨scope, .while_ he hbody⟩, (hbody.of_done hs hnormal).2⟩
  | return_ =>
      obtain ⟨scope, hst⟩ := htask
      cases hst with
      | return_ he _ => exact ⟨he _ rfl, hs⟩
  | head =>
      obtain ⟨scope, hss⟩ := htask
      exact ⟨⟨scope, hss _ (List.mem_cons_self ..)⟩, hs⟩
  | rest hnormal =>
      obtain ⟨scope, hss⟩ := htask
      obtain ⟨hst, hss⟩ := List.forall_mem_cons.mp hss
      exact ⟨⟨scope, hss⟩, (hst.of_done hs hnormal).2⟩

/-- Everything that happens in the course of a legal task is legal. -/
theorem During.legal {T : Set Token} {clock : Nat → Number} {m m' : Moment}
    (h : During clock m m') (hm : m.Legal T) : m'.Legal T := by
  induction h with
  | refl => exact hm
  | tail _ hstarts ih => exact hstarts.legal ih

/-- The body of a legal function never finishes with a `break`. -/
theorem Moment.Legal.ne_break {T : Set Token} {clock : Nat → Number} {n : Nat} {f : Function}
    {args : List Value} {s s' s'' : State} {i : FrameId} {body : List Stmt}
    (hm : Moment.Legal T ⟨n + 1, .call f args, s⟩)
    (hbody : Starts clock ⟨n + 1, .call f args, s⟩ ⟨n, .execAll i body, s'⟩) :
    execAll clock n i body s' ≠ .done .break_ s'' := by
  intro hbreak
  have hs' := (hbody.legal hm).store
  cases hbody with
  | body hcode _ _ =>
      have hf := hm.task.1
      rw [hcode] at hf
      obtain ⟨hflow, -⟩ := (legal_execAll n hf.2 hs').of_done hbreak
      cases hflow

end Lox
