import Lox.Proofs.Run.Scoping

/-!
# Frames that bind nothing

A frame that binds nothing stands for its parent: an expression means the same in both.  It stays
like that as long as only expressions are evaluated, or statements executed that declare nothing,
because what is called in between binds its names elsewhere.
-/

namespace Lox

namespace Store

/-- The frame `g` binds nothing, and its parent is `f`, which was made before it. -/
structure Bare (store : Store) (g f : FrameId) : Prop where
  frame : store.frames[g]? = some ⟨some f, []⟩
  lt : f < g

variable {before after store : Store} {g f : FrameId}

/-- A frame without bindings stays the same when no names are gained. -/
theorem Gains.getElem?_eq (h : before.Gains (fun _ _ => False) after) {parent : Option FrameId}
    (hg : before.frames[g]? = some ⟨parent, []⟩) : after.frames[g]? = some ⟨parent, []⟩ := by
  have hlt := (Array.getElem?_eq_some_iff.mp hg).1
  obtain ⟨⟨parent', bs⟩, hframe⟩ : ∃ frame, after.frames[g]? = some frame :=
    ⟨_, Array.getElem?_eq_getElem (Nat.lt_of_lt_of_le hlt h.size_le)⟩
  have hparent := h.parent_eq g hlt
  rw [parent?, parent?, hg, hframe] at hparent
  cases bs with
  | nil =>
      cases hparent
      exact hframe
  | cons b bs =>
      have hbinds : after.Binds g b.1 := ⟨_, hframe, by simp [Frame.lookup, Frame.find]⟩
      rcases h.gained g hlt b.1 hbinds with ⟨frame, hbefore, hbinds⟩ | hfalse
      · cases hg.symm.trans hbefore
        cases hbinds
      · exact hfalse.elim

/-- A frame without bindings stays so as long as nothing is defined in it. -/
theorem Bare.gains (h : before.Bare g f) (hgains : before.Gains (fun _ _ => False) after) :
    after.Bare g f :=
  ⟨hgains.getElem?_eq h.frame, h.lt⟩

/-- A frame that was just made is bare. -/
theorem bare_newFrame (hf : f < store.frames.size) :
    (store.newFrame (some f)).2.Bare store.frames.size f :=
  ⟨Array.getElem?_push_size, hf⟩

/-- A name is looked for in the parent at once. -/
theorem Bare.owner?_eq (h : store.Bare g f) (x : Symbol) : store.owner? x g = store.owner? x f := by
  rw [Store.owner?_eq, h.frame]
  simp [Frame.lookup, Frame.find, h.lt]

/-- What comes second starts where the frame is still bare. -/
theorem Bare.bind_eq {α β : Type} {s : State} (h : s.store.Bare g f) {x x' : Action α}
    {k k' : α → Action β} (hgains : (x s).Gains (fun _ _ => False) s.store) (hx : x s = x' s)
    (hk : ∀ a t, t.store.Bare g f → k a t = k' a t) : (x >>= k) s = (x' >>= k') s :=
  Action.bind_eq_bind hx fun a t hdone => hk a t (h.gains (hgains.of_done hdone))

end Store

open Lox.Store

section

variable {g f : FrameId} {s : State}

/-- Reading a name there is reading it in the parent. -/
theorem Action.get_of_bare (h : s.store.Bare g f) (x : Symbol) (line : Position) :
    Action.get g x line s = Action.get f x line s := by
  rw [Action.get, Action.get, Store.get?, Store.get?, h.owner?_eq]

/-- And so is assigning to one. -/
theorem Action.assign_of_bare (h : s.store.Bare g f) (x : Symbol) (v : Value) (line : Position) :
    Action.assign g x v line s = Action.assign f x v line s := by
  rw [Action.assign, Action.assign, h.owner?_eq]

theorem Action.ite_eq {α : Type} {c : Prop} [Decidable c] {a a' b b' : Action α}
    (ha : a s = a' s) (hb : b s = b' s) : (if c then a else b) s = (if c then a' else b') s := by
  split
  · exact ha
  · exact hb

end

mutual

/-- An expression cannot tell a frame without bindings from its parent.  A call has nothing to do
with the frame, only its callee and its arguments have. -/
theorem eval_of_bare {clock : Nat → Number} {g f : FrameId} {e : Expr} {s : State} (fuel : Nat)
    (h : s.store.Bare g f) : eval clock fuel g e s = eval clock fuel f e s := by
  match fuel, e with
  | 0, _ => rfl
  | _ + 1, .literal _ => rfl
  | fuel + 1, .group e => exact eval_of_bare fuel h
  | _ + 1, .var x line => exact Action.get_of_bare h x line
  | fuel + 1, .assign x e line =>
      refine h.bind_eq (gains_eval fuel) (eval_of_bare fuel h) fun v t h => ?_
      refine h.bind_eq (Action.gains_assign v line) (Action.assign_of_bare h x v line) ?_
      exact fun _ t h => rfl
  | fuel + 1, .unary op e line =>
      refine h.bind_eq (gains_eval fuel) (eval_of_bare fuel h) fun v t h => ?_
      rfl
  | fuel + 1, .binary op left right line =>
      refine h.bind_eq (gains_eval fuel) (eval_of_bare fuel h) fun v t h => ?_
      refine h.bind_eq (gains_eval fuel) (eval_of_bare fuel h) fun w t h => ?_
      rfl
  | fuel + 1, .logical .and left right =>
      refine h.bind_eq (gains_eval fuel) (eval_of_bare fuel h) fun v t h => ?_
      exact Action.ite_eq (eval_of_bare fuel h) rfl
  | fuel + 1, .logical .or left right =>
      refine h.bind_eq (gains_eval fuel) (eval_of_bare fuel h) fun v t h => ?_
      exact Action.ite_eq rfl (eval_of_bare fuel h)
  | fuel + 1, .conditional condition yes no =>
      refine h.bind_eq (gains_eval fuel) (eval_of_bare fuel h) fun v t h => ?_
      exact Action.ite_eq (eval_of_bare fuel h) (eval_of_bare fuel h)
  | fuel + 1, .call callee args line =>
      refine h.bind_eq (gains_eval fuel) (eval_of_bare fuel h) fun v t h => ?_
      refine h.bind_eq (gains_evalAll fuel) (evalAll_of_bare fuel h) fun vs t h => ?_
      rfl
termination_by structural fuel

theorem evalAll_of_bare {clock : Nat → Number} {g f : FrameId} {es : List Expr} {s : State}
    (fuel : Nat) (h : s.store.Bare g f) :
    evalAll clock fuel g es s = evalAll clock fuel f es s := by
  match fuel, es with
  | 0, _ => rfl
  | _ + 1, [] => rfl
  | fuel + 1, e :: es =>
      refine h.bind_eq (gains_eval fuel) (eval_of_bare fuel h) fun v t h => ?_
      refine h.bind_eq (gains_evalAll fuel) (evalAll_of_bare fuel h) fun vs t h => ?_
      rfl
termination_by structural fuel

end

end Lox
