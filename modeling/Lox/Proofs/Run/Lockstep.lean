import Lox.Proofs.Run.Likeness

/-!
# Alike runs stay alike

Two runs that start alike, with the same clock and the same fuel, go the same way: task by task
their outcomes are alike.  This one induction over the evaluator carries every comparison of two
runs, and also what a single run leaves untouched, which is a run compared with itself.
-/

namespace Lox

open Lox.Action

variable {L : Likeness} {ahead : ByteArray}

/-- Parameters and arguments that correspond are bound correspondingly. -/
theorem forall₂_zip {n : Nat} {params params' : List Symbol} {args args' : List Value}
    (hparams : List.Forall₂ L.symbol params params')
    (hargs : List.Forall₂ (Value.Like L n) args args') :
    List.Forall₂ (fun b b' => L.symbol b.1 b'.1 ∧ b.2.Like L n b'.2)
      (params.zip args) (params'.zip args') := by
  induction hparams generalizing args args' with
  | nil => exact .nil
  | cons hx _ ih =>
      cases hargs with
      | nil => exact .nil
      | cons hv hargs => exact .cons ⟨hx, hv⟩ (ih hargs)

section

variable {n : Nat} {vs vs' : List Value}

/-- A function of the host cannot tell values that are alike from each other. -/
theorem map_literal?_eq (h : List.Forall₂ (Value.Like L n) vs vs') :
    vs.map Value.literal? = vs'.map Value.literal? := by
  refine List.forall₂_eq_eq_eq ▸ List.forall₂_map_left_iff.mpr (List.forall₂_map_right_iff.mpr ?_)
  exact h.imp fun _ _ hv => hv.literal?_eq

/-- An answer stands for values that are alike. -/
theorem like_among (h : List.Forall₂ (Value.Like L n) vs vs') (answer : Answer) :
    (answer.among vs).Like L n (answer.among vs') := by
  cases answer with
  | value literal => exact (Value.plain_ofLiteral literal).like
  | argument index =>
      induction h generalizing index with
      | nil => exact .nil
      | cons hv _ ih =>
          cases index with
          | zero => exact hv
          | succ index => exact ih index

end

mutual

/-- Each task of the evaluator, given expressions that correspond and a frame that may be used, has
outcomes that are alike. -/
theorem like_eval {clock : Nat → Number} {i : FrameId} {e e' : Expr} {s s' : State} (fuel : Nat)
    (he : L.expr e e') (hi : L.frame s.store.frames.size i) (hs : s.Like L ahead s') :
    (eval clock fuel i e s).Like L ahead s.store.frames.size (Value.Like L)
      (eval clock fuel i e' s') := by
  match fuel, L.expr_cases he with
  | 0, _ => exact .outOfFuel
  | _ + 1, .literal => exact like_pure (Value.plain_ofLiteral _).like hs
  | fuel + 1, .group he => exact like_eval fuel he hi hs
  | _ + 1, .var hx hl => exact like_get hs hi hx hl
  | fuel + 1, .assign hx he hl =>
      refine (like_eval fuel he hi hs).bind ?_
      intro v v' t t' hv ht hn
      refine (like_assign ht (L.frame_mono hn hi) hx hv hl).bind ?_
      intro _ _ u u' _ hu hm
      exact like_pure (hv.mono hm) hu
  | fuel + 1, .unary he hl =>
      refine (like_eval fuel he hi hs).bind ?_
      intro v v' t t' hv ht _
      rw [← UnaryOp.apply_eq hv]
      exact like_blame hl (fun _ hu => (UnaryOp.plain_of_apply hu).like)
        (fun _ => UnaryOp.nameless_of_apply) ht
  | fuel + 1, .binary hleft hright hl =>
      refine (like_eval fuel hleft hi hs).bind ?_
      intro v v' t t' hv ht hn
      refine (like_eval fuel hright (L.frame_mono hn hi) ht).bind ?_
      intro w w' u u' hw hu hm
      rw [← BinaryOp.apply_eq (hv.mono hm) hw]
      exact like_blame hl (fun _ hu => (BinaryOp.plain_of_apply hu).like)
        (fun _ => BinaryOp.nameless_of_apply) hu
  | fuel + 1, @Expr.Corresponds.logical _ _ _ .and _ _ _ _ hleft hright =>
      refine (like_eval fuel hleft hi hs).bind ?_
      intro v v' t t' hv ht hn
      exact like_ite hv.truthy_eq (like_eval fuel hright (L.frame_mono hn hi) ht)
        (like_pure hv ht)
  | fuel + 1, @Expr.Corresponds.logical _ _ _ .or _ _ _ _ hleft hright =>
      refine (like_eval fuel hleft hi hs).bind ?_
      intro v v' t t' hv ht hn
      exact like_ite hv.truthy_eq (like_pure hv ht)
        (like_eval fuel hright (L.frame_mono hn hi) ht)
  | fuel + 1, .conditional hcondition hyes hno =>
      refine (like_eval fuel hcondition hi hs).bind ?_
      intro v v' t t' hv ht hn
      have hi := L.frame_mono hn hi
      exact like_ite hv.truthy_eq (like_eval fuel hyes hi ht) (like_eval fuel hno hi ht)
  | fuel + 1, .call hcallee hargs hl =>
      refine (like_eval fuel hcallee hi hs).bind ?_
      intro v v' t t' hv ht hn
      refine (like_evalAll fuel hargs (L.frame_mono hn hi) ht).bind ?_
      intro vs vs' u u' hvs hu hm
      have hlength := hvs.length_eq
      cases hv with
      | @function f f' _ _ _ hcode =>
          have harity : f.arity = f'.arity := hcode.arity_eq
          simp only [← hlength, ← harity]
          split
          · exact like_call fuel (hcode.mono hm) hvs hu
          · exact like_fault hl (.same trivial) hu
      | _ => exact like_fault hl (.same trivial) hu
termination_by structural fuel

theorem like_evalAll {clock : Nat → Number} {i : FrameId} {es es' : List Expr} {s s' : State}
    (fuel : Nat) (hes : List.Forall₂ L.expr es es') (hi : L.frame s.store.frames.size i)
    (hs : s.Like L ahead s') :
    (evalAll clock fuel i es s).Like L ahead s.store.frames.size
      (fun n => List.Forall₂ (Value.Like L n)) (evalAll clock fuel i es' s') := by
  match fuel, hes with
  | 0, _ => exact .outOfFuel
  | _ + 1, .nil => exact like_pure .nil hs
  | fuel + 1, .cons he hes =>
      refine (like_eval fuel he hi hs).bind ?_
      intro v v' t t' hv ht hn
      refine (like_evalAll fuel hes (L.frame_mono hn hi) ht).bind ?_
      intro vs vs' u u' hvs hu hm
      exact like_pure (.cons (hv.mono hm) hvs) hu
termination_by structural fuel

/-- In a call the frame is that of the function, and may be used because the functions are alike.
-/
theorem like_call {clock : Nat → Number} {f f' : Function} {args args' : List Value}
    {s s' : State} (fuel : Nat) (hf : f.code.Like L s.store.frames.size f'.code)
    (hargs : List.Forall₂ (Value.Like L s.store.frames.size) args args') (hs : s.Like L ahead s') :
    (call clock fuel f args s).Like L ahead s.store.frames.size (Value.Like L)
      (call clock fuel f' args' s') := by
  obtain ⟨_, _, code⟩ := f
  obtain ⟨_, _, code'⟩ := f'
  match fuel, code, code', hf with
  | 0, _, _, _ => exact .outOfFuel
  | _ + 1, _, _, @Code.Like.native _ _ .clock _ =>
      refine (like_readClock clock hs).bind ?_
      rintro a _ t t' rfl ht _
      exact like_pure .number ht
  | _ + 1, _, _, @Code.Like.native _ _ (.host answer) _ =>
      refine like_pure ?_ hs
      rw [map_literal?_eq hargs]
      exact like_among hargs _
  | fuel + 1, _, _, .closure hparams hbody hparent =>
      refine (like_newFrame hs hparent).bind ?_
      rintro frame _ t t' ⟨rfl, hframe⟩ ht hn
      refine (like_defineAll ht (Nat.le_refl _) hframe
        (forall₂_zip hparams (hargs.imp fun _ _ hv => hv.mono hn))).bind ?_
      intro _ _ u u' _ hu hm
      refine (like_execAll fuel (L.body_cases hbody) (L.frame_mono hm hframe) hu).bind ?_
      rintro _ _ w w' (_ | _ | hv) hw _
      · exact like_pure .nil hw
      · exact like_pure .nil hw
      · exact like_pure hv hw
termination_by structural fuel

theorem like_exec {clock : Nat → Number} {i : FrameId} {st st' : Stmt} {s s' : State} (fuel : Nat)
    (hst : L.stmt st st') (hi : L.frame s.store.frames.size i) (hs : s.Like L ahead s') :
    (exec clock fuel i st s).Like L ahead s.store.frames.size (Flow.Like L)
      (exec clock fuel i st' s') := by
  match fuel, L.stmt_cases hst with
  | 0, _ => exact .outOfFuel
  | fuel + 1, .expr he =>
      refine (like_eval fuel he hi hs).bind ?_
      intro v v' t t' _ ht _
      exact like_pure .normal ht
  | fuel + 1, .print he =>
      refine (like_eval fuel he hi hs).bind ?_
      intro v v' t t' hv ht _
      refine (like_print ht hv).bind ?_
      intro _ _ u u' _ hu _
      exact like_pure .normal hu
  | _ + 1, .var hx .none =>
      refine (like_define hs hi hx .nil).bind ?_
      intro _ _ t t' _ ht _
      exact like_pure .normal ht
  | fuel + 1, .var hx (.some he) =>
      refine (like_eval fuel he hi hs).bind ?_
      intro v v' t t' hv ht hn
      refine (like_define ht (L.frame_mono hn hi) hx hv).bind ?_
      intro _ _ u u' _ hu _
      exact like_pure .normal hu
  | fuel + 1, .block hss =>
      refine (like_newFrame hs hi).bind ?_
      rintro inner _ t t' ⟨rfl, hinner⟩ ht _
      exact like_execAll fuel hss hinner ht
  | fuel + 1, .ifThen he hyes =>
      refine (like_eval fuel he hi hs).bind ?_
      intro v v' t t' hv ht hn
      exact like_ite hv.truthy_eq (like_exec fuel hyes (L.frame_mono hn hi) ht)
        (like_pure .normal ht)
  | fuel + 1, .ifElse he hyes hno =>
      refine (like_eval fuel he hi hs).bind ?_
      intro v v' t t' hv ht hn
      have hi := L.frame_mono hn hi
      exact like_ite hv.truthy_eq (like_exec fuel hyes hi ht) (like_exec fuel hno hi ht)
  | fuel + 1, .while_ he hinner =>
      refine (like_eval fuel he hi hs).bind ?_
      intro v v' t t' hv ht hn
      refine like_ite hv.truthy_eq ?_ (like_pure .normal ht)
      refine (like_exec fuel hinner (L.frame_mono hn hi) ht).bind ?_
      rintro _ _ u u' (_ | _ | hv) hu hm
      · exact like_exec fuel hst (L.frame_mono (hn.trans hm) hi) hu
      · exact like_pure .normal hu
      · exact like_pure (.return_ hv) hu
  | _ + 1, .break_ => exact like_pure .break_ hs
  | _ + 1, .function hx hspelling hparams hbody =>
      refine (like_defineFunction hs hi hx hspelling (.closure hparams hbody hi)).bind ?_
      intro _ _ t t' _ ht _
      exact like_pure .normal ht
  | _ + 1, .return_ .none => exact like_pure (.return_ .nil) hs
  | fuel + 1, .return_ (.some he) =>
      refine (like_eval fuel he hi hs).bind ?_
      intro v v' t t' hv ht _
      exact like_pure (.return_ hv) ht
termination_by structural fuel

theorem like_execAll {clock : Nat → Number} {i : FrameId} {ss ss' : List Stmt} {s s' : State}
    (fuel : Nat) (hss : List.Forall₂ L.stmt ss ss') (hi : L.frame s.store.frames.size i)
    (hs : s.Like L ahead s') :
    (execAll clock fuel i ss s).Like L ahead s.store.frames.size (Flow.Like L)
      (execAll clock fuel i ss' s') := by
  match fuel, hss with
  | 0, _ => exact .outOfFuel
  | _ + 1, .nil => exact like_pure .normal hs
  | fuel + 1, .cons hst hss =>
      refine (like_exec fuel hst hi hs).bind ?_
      rintro _ _ t t' (_ | _ | hv) ht hn
      · exact like_execAll fuel hss (L.frame_mono hn hi) ht
      · exact like_pure .break_ ht
      · exact like_pure (.return_ hv) ht
termination_by structural fuel

end

end Lox
