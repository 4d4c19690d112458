import Lox.Eval
import Lox.Proofs.Run.Ends

/-!
# Where names come to be bound

Only a declaration binds a new name, and only in the frame where it is executed.  So what a run
makes of the frames that there were before is told by the statement alone: it binds what it declares
outside of its blocks, in its own frame, and an expression binds nothing at all, whatever it calls.
No binding is ever lost, and no frame gets another parent; a name that can be read stays readable.
-/

namespace Lox

/-- The names that a statement declares in the frame where it is executed.  What its blocks and the
bodies of functions declare belongs to other frames. -/
def Stmt.declared : Stmt → List Symbol
  | var x _ => [x]
  | function f _ _ => [f]
  | ifThen _ yes => yes.declared
  | ifElse _ yes no => yes.declared ++ no.declared
  | while_ _ body => body.declared
  | _ => []

/-! ## Bindings -/

namespace Store

/-- The frame binds the name. -/
def Binds (store : Store) (i : FrameId) (x : Symbol) : Prop :=
  ∃ frame, store.frames[i]? = some frame ∧ (frame.lookup x).isSome

/-- The parent of a frame, if there is the frame and it has one. -/
def parent? (store : Store) (i : FrameId) : Option FrameId := store.frames[i]?.bind Frame.parent

variable {store : Store} {i j : FrameId} {x y : Symbol}

/-- Defining binds one name in one frame, if there is the frame. -/
theorem binds_define {v : Value} :
    (store.define i x v).Binds j y ↔ store.Binds j y ∨ j = i ∧ y = x ∧ i < store.frames.size := by
  simp only [Binds, define, Array.getElem?_modify]
  by_cases hij : i = j
  · subst hij
    cases hi : store.frames[i]? with
    | none => simp [Array.getElem?_eq_none_iff.mp hi]
    | some frame =>
        have hlt := (Array.getElem?_eq_some_iff.mp hi).1
        by_cases hy : y = x <;> simp [Frame.lookup_define, hy, hlt]
  · simp [hij, Ne.symm hij]

/-- A new frame binds nothing. -/
theorem binds_newFrame {parent : Option FrameId} :
    (store.newFrame parent).2.Binds j y ↔ store.Binds j y := by
  simp only [Binds, newFrame, Array.getElem?_push]
  split
  · next h =>
    subst h
    simp [Frame.lookup, Frame.find]
  · rfl

/-- Defining changes no parent. -/
theorem parent?_define {v : Value} : (store.define i x v).parent? j = store.parent? j := by
  simp only [parent?, define, Array.getElem?_modify]
  split
  · cases store.frames[j]? <;> rfl
  · rfl

theorem parent?_newFrame {parent : Option FrameId} (hi : i < store.frames.size) :
    (store.newFrame parent).2.parent? i = store.parent? i := by
  rw [parent?, newFrame, Array.getElem?_push_lt hi, parent?, Array.getElem?_eq_getElem hi]

/-- Parents still come first if the new frame has a parent that is there already. -/
theorem parent_lt_newFrame {parent : Option FrameId} (h : ∀ i, ∀ p ∈ store.parent? i, p < i)
    (hparent : ∀ p ∈ parent, p < store.frames.size) (i : FrameId) :
    ∀ p ∈ (store.newFrame parent).2.parent? i, p < i := by
  intro p hp
  by_cases hi : i < store.frames.size
  · rw [parent?_newFrame hi] at hp
    exact h i p hp
  · simp only [parent?, newFrame, Array.getElem?_push] at hp
    split at hp
    · next hnew => exact hnew ▸ hparent p hp
    · rw [Array.getElem?_eq_none (Nat.le_of_not_lt hi)] at hp
      cases hp

/-! ## Owners -/

/-- The owner of a name is the frame itself, or an older one behind it. -/
theorem owner?_eq (x : Symbol) (i : FrameId) :
    store.owner? x i =
      match store.frames[i]? with
      | none => none
      | some frame =>
        if (frame.lookup x).isSome then some i
        else frame.parent.bind fun p => if p < i then store.owner? x p else none := by
  rw [owner?]
  cases store.frames[i]? with
  | none => rfl
  | some frame =>
      obtain ⟨parent, bindings⟩ := frame
      cases parent <;> rfl

/-- The owner of a name binds it. -/
theorem binds_of_owner? (h : store.owner? x i = some j) : store.Binds j x := by
  induction i using Nat.strongRecOn with
  | ind i ih =>
      rw [owner?_eq] at h
      cases hi : store.frames[i]? with
      | none => simp [hi] at h
      | some frame =>
          simp only [hi] at h
          split at h
          · next hx =>
            cases h
            exact ⟨frame, hi, hx⟩
          · obtain ⟨p, -, h⟩ := Option.bind_eq_some_iff.mp h
            split at h
            · exact ih p ‹_› h
            · cases h

/-- A name has a value exactly if it has an owner. -/
theorem isSome_get? : (store.get? i x).isSome ↔ (store.owner? x i).isSome := by
  rw [get?]
  cases h : store.owner? x i with
  | none => simp
  | some j =>
      obtain ⟨frame, hj, hx⟩ := binds_of_owner? h
      simp [hj, hx]

/-! ## What a store gains -/

/-- The frames before are still there, with their parents and all that they bind, and of other names
they bind only such as they may.  The functions before still count. -/
structure Gains (may : FrameId → Symbol → Prop) (before after : Store) : Prop where
  size_le : before.frames.size ≤ after.frames.size
  functions_le : before.functions ≤ after.functions
  parent_eq : ∀ i < before.frames.size, after.parent? i = before.parent? i
  kept : ∀ i x, before.Binds i x → after.Binds i x
  gained : ∀ i < before.frames.size, ∀ x, after.Binds i x → before.Binds i x ∨ may i x

namespace Gains

variable {may may' : FrameId → Symbol → Prop} {before mid after : Store}

/-- A store gains nothing on itself. -/
theorem refl (store : Store) : store.Gains may store :=
  ⟨Nat.le_refl _, Nat.le_refl _, fun _ _ => rfl, fun _ _ h => h, fun _ _ _ h => .inl h⟩

/-- Of what is gained in the second place, only that counts which the frames before gain. -/
theorem trans (h : before.Gains may mid) (h' : mid.Gains may' after)
    (hmay : ∀ i < before.frames.size, ∀ x, may' i x → may i x) : before.Gains may after where
  size_le := Nat.le_trans h.size_le h'.size_le
  functions_le := Nat.le_trans h.functions_le h'.functions_le
  parent_eq i hi := (h'.parent_eq i (Nat.lt_of_lt_of_le hi h.size_le)).trans (h.parent_eq i hi)
  kept i x hx := h'.kept i x (h.kept i x hx)
  gained i hi x hx := by
    rcases h'.gained i (Nat.lt_of_lt_of_le hi h.size_le) x hx with hx | hx
    · exact h.gained i hi x hx
    · exact .inr (hmay i hi x hx)

/-- A new frame gains no frame before it anything. -/
theorem newFrame (store : Store) (parent : Option FrameId) :
    store.Gains may (store.newFrame parent).2 where
  size_le := by simp [Store.newFrame]
  functions_le := Nat.le_refl _
  parent_eq _ hi := parent?_newFrame hi
  kept _ _ hx := binds_newFrame.mpr hx
  gained _ _ _ hx := .inl (binds_newFrame.mp hx)

theorem newFunction (store : Store) (x : Symbol) (code : Code) :
    store.Gains may (store.newFunction x code).2 :=
  ⟨Nat.le_refl _, Nat.le_succ _, fun _ _ => rfl, fun _ _ h => h, fun _ _ _ h => .inl h⟩

/-- Defining gains a frame a name only if it may, or if the frame binds it already. -/
theorem define (store : Store) {i : FrameId} {x : Symbol} (v : Value)
    (hx : store.Binds i x ∨ may i x) : store.Gains may (store.define i x v) where
  size_le := by simp [Store.define]
  functions_le := Nat.le_refl _
  parent_eq _ _ := parent?_define
  kept _ _ hy := binds_define.mpr (.inl hy)
  gained j _ y hy := by
    rcases binds_define.mp hy with hy | ⟨rfl, rfl, -⟩
    · exact .inl hy
    · exact hx

/-- A name that can be read from a frame stays readable from it. -/
theorem isSome_get? (h : before.Gains may after) {i : FrameId} {x : Symbol}
    (hx : (before.get? i x).isSome) : (after.get? i x).isSome := by
  rw [Store.isSome_get?] at hx ⊢
  induction i using Nat.strongRecOn with
  | ind i ih =>
      rw [owner?_eq] at hx ⊢
      cases hi : before.frames[i]? with
      | none => simp [hi] at hx
      | some frame =>
          have hlt := (Array.getElem?_eq_some_iff.mp hi).1
          obtain ⟨frame', hi'⟩ : ∃ frame', after.frames[i]? = some frame' :=
            ⟨_, Array.getElem?_eq_getElem (Nat.lt_of_lt_of_le hlt h.size_le)⟩
          have hparent : frame'.parent = frame.parent := by
            simpa [parent?, hi, hi'] using h.parent_eq i hlt
          simp only [hi, hi', hparent] at hx ⊢
          by_cases hbound' : (frame'.lookup x).isSome
          · simp [hbound']
          · have hbound : ¬(frame.lookup x).isSome := by
              intro hbound
              obtain ⟨_, hi'', hbound⟩ := h.kept i x ⟨frame, hi, hbound⟩
              cases hi'.symm.trans hi''
              exact hbound' hbound
            rw [if_neg hbound] at hx
            rw [if_neg hbound']
            cases hp : frame.parent with
            | none => simp [hp] at hx
            | some p =>
                by_cases hpi : p < i
                · simp only [hp, Option.bind_some, if_pos hpi] at hx ⊢
                  exact ih p hpi hx
                · simp [hp, hpi] at hx

end Gains

end Store

/-! ## What a run gains -/

namespace Outcome

variable {α β : Type}

/-- The state that is left, whether the outcome is done or failed. -/
def Leaves (P : State → Prop) (o : Outcome α) : Prop := o.Ends (fun _ => P) fun _ => P

theorem Leaves.mono {P Q : State → Prop} {o : Outcome α} (h : o.Leaves P) (hPQ : ∀ s, P s → Q s) :
    o.Leaves Q := by
  cases o with
  | done _ s => exact hPQ s h
  | failed _ s => exact hPQ s h
  | outOfFuel => trivial

/-- The store that is left has gained from the one before only what it may. -/
abbrev Gains (may : FrameId → Symbol → Prop) (before : Store) (o : Outcome α) : Prop :=
  o.Leaves fun s => before.Gains may s.store

variable {may may' : FrameId → Symbol → Prop} {before : Store}

/-- What is gained later counts from the state in between. -/
theorem Gains.after {o : Outcome α} {mid : Store} (h : before.Gains may mid) (ho : o.Gains may' mid)
    (hmay : ∀ i < before.frames.size, ∀ x, may' i x → may i x) : o.Gains may before :=
  Leaves.mono ho fun _ h' => h.trans h' hmay

/-- What an outcome gains, its store does. -/
theorem Gains.of_done {o : Outcome α} {a : α} {s : State} (h : o.Gains may before)
    (hdone : o = .done a s) : before.Gains may s.store := by
  subst hdone
  exact h

/-- What two steps gain, each gains where it may. -/
theorem Gains.bind {x : Action α} {f : α → Action β} {s : State} (hx : (x s).Gains may s.store)
    (hf : ∀ a s', (f a s').Gains may s'.store) : ((x >>= f) s).Gains may s.store :=
  Ends.bind hx fun a s' h => Gains.after h (hf a s') fun _ _ _ h => h

end Outcome

namespace Action

variable {α : Type} {may : FrameId → Symbol → Prop} {s : State} {i : FrameId} {x : Symbol}

theorem gains_pure (a : α) : ((pure a : Action α) s).Gains may s.store := Store.Gains.refl _

theorem gains_fail (e : Failure) : ((fail e : Action α) s).Gains may s.store := Store.Gains.refl _

theorem gains_ite {c : Prop} [Decidable c] {a b : Action α} (ha : (a s).Gains may s.store)
    (hb : (b s).Gains may s.store) : ((if c then a else b) s).Gains may s.store := by
  split
  · exact ha
  · exact hb

theorem gains_blame (line : Position) (r : Except Fault α) :
    (blame line r s).Gains may s.store := by
  cases r with
  | ok a => exact gains_pure a
  | error e => exact gains_fail _

/-- A name that may be bound is bound. -/
theorem gains_define (v : Value) (hx : may i x) : (define i x v s).Gains may s.store :=
  Store.Gains.define _ v (.inr hx)

theorem gains_defineAll {bs : List (Symbol × Value)} (hbs : ∀ x, may i x) :
    (defineAll i bs s).Gains may s.store := by
  induction bs generalizing s with
  | nil => exact gains_pure ()
  | cons b bs ih => exact (gains_define b.2 (hbs b.1)).bind fun _ _ => ih

theorem gains_get (line : Position) : (get i x line s).Gains may s.store := by
  rw [get]
  cases s.store.get? i x with
  | some v => exact gains_pure v
  | none => exact gains_fail _

/-- To assign is to bind anew where the name is bound. -/
theorem gains_assign (v : Value) (line : Position) : (assign i x v line s).Gains may s.store := by
  rw [assign]
  cases h : s.store.owner? x i with
  | some j => exact Store.Gains.define _ v (.inl (Store.binds_of_owner? h))
  | none => exact gains_fail _

/-- So is the name of a function. -/
theorem gains_defineFunction (code : Code) (hx : may i x) :
    (defineFunction i x code s).Gains may s.store := by
  exact (Store.Gains.newFunction _ x code).trans (.define _ _ (.inr hx)) fun _ _ _ h => h

theorem gains_print (v : Value) : (print v s).Gains may s.store := by
  rw [print]
  obtain ⟨output, complete⟩ := s.output.write (v.text ++ "\n").toUTF8
  cases complete <;> exact Store.Gains.refl _

/-- What is bound in a frame that was just made is no gain of the frames before. -/
theorem gains_inNewFrame (parent : Option FrameId) {f : FrameId → Action α}
    (hf : ∀ i s', (f i s').Gains (fun j _ => j = i) s'.store) :
    ((newFrame parent >>= f) s).Gains may s.store := by
  refine Outcome.Gains.after (.newFrame s.store parent) (hf _ _) ?_
  rintro j hj _ rfl
  exact absurd hj (Nat.lt_irrefl _)

end Action

open Lox.Action

mutual

/-- An expression gains no frame before it anything: assigning binds no name, and calls bind in
frames of their own. -/
theorem gains_eval {may : FrameId → Symbol → Prop} {clock : Nat → Number} {i : FrameId} {e : Expr}
    {s : State} (fuel : Nat) : (eval clock fuel i e s).Gains may s.store := by
  match fuel, e with
  | 0, _ => trivial
  | _ + 1, .literal _ => exact gains_pure _
  | fuel + 1, .group e => exact gains_eval fuel
  | _ + 1, .var _ line => exact gains_get line
  | fuel + 1, .assign x e line =>
      refine (gains_eval fuel).bind fun v s => ?_
      refine (gains_assign v line).bind fun _ s => ?_
      exact gains_pure v
  | fuel + 1, .unary op e line =>
      refine (gains_eval fuel).bind fun v s => ?_
      exact gains_blame line _
  | fuel + 1, .binary op left right line =>
      refine (gains_eval fuel).bind fun v s => ?_
      refine (gains_eval fuel).bind fun w s => ?_
      exact gains_blame line _
  | fuel + 1, .logical .and left right =>
      refine (gains_eval fuel).bind fun v s => ?_
      exact gains_ite (gains_eval fuel) (gains_pure v)
  | fuel + 1, .logical .or left right =>
      refine (gains_eval fuel).bind fun v s => ?_
      exact gains_ite (gains_pure v) (gains_eval fuel)
  | fuel + 1, .conditional condition yes no =>
      refine (gains_eval fuel).bind fun v s => ?_
      exact gains_ite (gains_eval fuel) (gains_eval fuel)
  | fuel + 1, .call callee args line =>
      refine (gains_eval fuel).bind fun v s => ?_
      refine (gains_evalAll fuel).bind fun vs s => ?_
      cases v with
      | function f => exact gains_ite (gains_call fuel) (gains_fail _)
      | _ => exact gains_fail _
termination_by structural fuel

theorem gains_evalAll {may : FrameId → Symbol → Prop} {clock : Nat → Number} {i : FrameId}
    {es : List Expr} {s : State} (fuel : Nat) : (evalAll clock fuel i es s).Gains may s.store := by
  match fuel, es with
  | 0, _ => trivial
  | _ + 1, [] => exact gains_pure _
  | fuel + 1, e :: es =>
      refine (gains_eval fuel).bind fun v s => ?_
      refine (gains_evalAll fuel).bind fun vs s => ?_
      exact gains_pure _
termination_by structural fuel

/-- A call binds only in the new frame of its parameters. -/
theorem gains_call {may : FrameId → Symbol → Prop} {clock : Nat → Number} {f : Function}
    {args : List Value} {s : State} (fuel : Nat) :
    (call clock fuel f args s).Gains may s.store := by
  match fuel, f with
  | 0, _ => trivial
  | _ + 1, ⟨_, _, .native .clock _⟩ => exact Store.Gains.refl _
  | _ + 1, ⟨_, _, .native (.host _) _⟩ => exact gains_pure _
  | fuel + 1, ⟨_, _, .closure params body parent⟩ =>
      refine gains_inNewFrame _ fun frame s => ?_
      refine (gains_defineAll fun _ => rfl).bind fun _ s => ?_
      refine (gains_execAll fuel fun _ _ _ _ => rfl).bind fun flow s => ?_
      cases flow <;> exact gains_pure _
termination_by structural fuel

/-- A statement gains its own frame the names that it declares, and nothing else. -/
theorem gains_exec {may : FrameId → Symbol → Prop} {clock : Nat → Number} {i : FrameId} {st : Stmt}
    {s : State} (fuel : Nat) (hmay : ∀ x ∈ st.declared, may i x) :
    (exec clock fuel i st s).Gains may s.store := by
  match fuel, st with
  | 0, _ => trivial
  | fuel + 1, .expr e =>
      refine (gains_eval fuel).bind fun v s => ?_
      exact gains_pure _
  | fuel + 1, .print e =>
      refine (gains_eval fuel).bind fun v s => ?_
      refine (gains_print v).bind fun _ s => ?_
      exact gains_pure _
  | _ + 1, .var x none =>
      refine (gains_define .nil (hmay x (List.mem_singleton_self x))).bind fun _ s => ?_
      exact gains_pure _
  | fuel + 1, .var x (some e) =>
      refine (gains_eval fuel).bind fun v s => ?_
      refine (gains_define v (hmay x (List.mem_singleton_self x))).bind fun _ s => ?_
      exact gains_pure _
  | fuel + 1, .block body =>
      refine gains_inNewFrame _ fun inner s => ?_
      exact gains_execAll fuel fun _ _ _ _ => rfl
  | fuel + 1, .ifThen e yes =>
      refine (gains_eval fuel).bind fun v s => ?_
      exact gains_ite (gains_exec fuel hmay) (gains_pure _)
  | fuel + 1, .ifElse e yes no =>
      obtain ⟨hyes, hno⟩ := List.forall_mem_append.mp hmay
      refine (gains_eval fuel).bind fun v s => ?_
      exact gains_ite (gains_exec fuel hyes) (gains_exec fuel hno)
  | fuel + 1, .while_ e body =>
      have hbody : ∀ x ∈ body.declared, may i x := hmay
      refine (gains_eval fuel).bind fun v s => ?_
      refine gains_ite ?_ (gains_pure _)
      refine (gains_exec fuel hbody).bind fun flow s => ?_
      cases flow with
      | normal => exact gains_exec fuel hmay
      | break_ => exact gains_pure _
      | return_ v => exact gains_pure _
  | _ + 1, .break_ => exact gains_pure _
  | _ + 1, .function f params body =>
      refine (gains_defineFunction _ (hmay f (List.mem_singleton_self f))).bind fun _ s => ?_
      exact gains_pure _
  | _ + 1, .return_ none => exact gains_pure _
  | fuel + 1, .return_ (some e) =>
      refine (gains_eval fuel).bind fun v s => ?_
      exact gains_pure _
termination_by structural fuel

/-- And so do statements one behind the other. -/
theorem gains_execAll {may : FrameId → Symbol → Prop} {clock : Nat → Number} {i : FrameId}
    {ss : List Stmt} {s : State} (fuel : Nat) (hmay : ∀ st ∈ ss, ∀ x ∈ st.declared, may i x) :
    (execAll clock fuel i ss s).Gains may s.store := by
  match fuel, ss with
  | 0, _ => trivial
  | _ + 1, [] => exact gains_pure _
  | fuel + 1, st :: ss =>
      obtain ⟨hst, hss⟩ := List.forall_mem_cons.mp hmay
      refine (gains_exec fuel hst).bind fun flow s => ?_
      cases flow with
      | normal => exact gains_execAll fuel hss
      | break_ => exact gains_pure _
      | return_ v => exact gains_pure _
termination_by structural fuel

end

end Lox
