import Lox.Proofs.Run.Elements

/-!
# Limited room

All that an action writes it might as well write in one piece: where the room ends only decides how
much of that piece is taken, and whether the action gets as far as it would without a limit.
-/

namespace Lox

namespace Output

variable {o : Output} {bytes written : ByteArray} {n : Nat}

/-- Without a bound everything is written. -/
theorem write_unlimited :
    (⟨written, none⟩ : Output).write bytes = (⟨written ++ bytes, none⟩, true) := rfl

/-- Bytes for which there is room are written, and take it. -/
theorem write_of_le (h : bytes.size ≤ n) :
    (⟨written, some n⟩ : Output).write bytes =
      (⟨written ++ bytes, some (n - bytes.size)⟩, true) := by
  simp [write, h]

/-- Of bytes for which there is too little room, as many are written as there is room for. -/
theorem write_of_lt (h : n < bytes.size) :
    (⟨written, some n⟩ : Output).write bytes =
      (⟨written ++ bytes.extract 0 n, some 0⟩, false) := by
  simp [write, h]

@[simp] theorem write_empty : o.write .empty = (o, true) := by
  obtain ⟨written, _ | n⟩ := o
  · rw [write_unlimited, ByteArray.append_empty]
  · rw [write_of_le (Nat.zero_le n)]
    simp

/-- Two pieces that are written one after the other make one piece, where the first one fits. -/
theorem write_append_of_complete (h : (o.write bytes).2 = true) (more : ByteArray) :
    o.write (bytes ++ more) = (o.write bytes).1.write more := by
  obtain ⟨written, _ | n⟩ := o
  · simp [write_unlimited, ByteArray.append_assoc]
  rcases Nat.lt_or_ge n bytes.size with hlt | hle
  · rw [write_of_lt hlt] at h
    cases h
  rw [write_of_le hle]
  rcases Nat.lt_or_ge (n - bytes.size) more.size with hmore | hmore
  · have hlt : n < (bytes ++ more).size := by
      rw [ByteArray.size_append]
      omega
    have hall : bytes.extract 0 n = bytes := by
      apply ByteArray.ext
      rw [ByteArray.data_extract]
      exact Array.extract_eq_self_of_le hle
    rw [write_of_lt hlt, write_of_lt hmore, ByteArray.extract_append, hall,
      ByteArray.append_assoc, Nat.zero_sub]
  · have hle' : (bytes ++ more).size ≤ n := by
      rw [ByteArray.size_append]
      omega
    rw [write_of_le hle', write_of_le hmore, ByteArray.append_assoc, ByteArray.size_append,
      Nat.sub_sub]

/-- Nothing more is written where a piece did not fit. -/
theorem write_append_of_refused (h : (o.write bytes).2 = false) (more : ByteArray) :
    o.write (bytes ++ more) = o.write bytes := by
  obtain ⟨written, _ | n⟩ := o
  · cases h
  rcases Nat.lt_or_ge n bytes.size with hlt | hle
  · have hlt' : n < (bytes ++ more).size := by
      rw [ByteArray.size_append]
      omega
    have hnone : more.extract (0 - bytes.size) (n - bytes.size) = .empty :=
      ByteArray.extract_eq_empty_iff.2 (by omega)
    rw [write_of_lt hlt, write_of_lt hlt', ByteArray.extract_append, hnone,
      ByteArray.append_empty]
  · rw [write_of_le hle] at h
    cases h

end Output

namespace Outcome

variable {α : Type} {o o' : Outcome α} {output : Output}

/-- The same outcome, with another output. -/
def withOutput (output : Output) : Outcome α → Outcome α
  | .done a s => .done a { s with output }
  | .failed e s => .failed e { s with output }
  | .outOfFuel => .outOfFuel

/-- What comes of an outcome when writing ends like this: it stays if all was written, and otherwise
the refusal takes its place. -/
inductive After (o : Outcome α) : Output × Bool → Outcome α → Prop
  | complete (output : Output) : After o (output, true) (o.withOutput output)
  | refused (store : Store) (output : Output) (readings : Nat) :
      After o (output, false) (.failed .outputRefused ⟨store, output, readings⟩)

/-- If all was written, the outcome is the same with the output that there is. -/
theorem After.eq_of_complete (h : o.After (output, true) o') : o' = o.withOutput output := by
  cases h
  rfl

/-- If not all was written, the run was refused. -/
theorem After.exists_of_refused (h : o.After (output, false) o') :
    ∃ store readings, o' = .failed .outputRefused ⟨store, output, readings⟩ := by
  cases h
  exact ⟨_, _, rfl⟩

/-- A sequence goes on where all was written, and ends with a refusal where that was not so. -/
theorem After.bind {β : Type} {x : Action α} {f : α → Action β} {s : State} {r r' : Output × Bool}
    {next : Outcome β} (hx : o.After r (x s))
    (hcomplete : ∀ output, r = (output, true) →
      next.After r' (((fun _ => o.withOutput output : Action α) >>= f) s))
    (hrefused : ∀ output, r = (output, false) → r' = r) : next.After r' ((x >>= f) s) := by
  rw [Action.bind_apply]
  generalize x s = first at hx
  cases hx with
  | complete output => exact hcomplete output rfl
  | refused store output readings =>
      rw [hrefused output rfl]
      exact .refused store output readings

end Outcome

open Lox.Outcome

namespace Action

variable {α β : Type}

/-- The action does as if it wrote all its bytes in one piece, at its end: what they are, and what
the outcome is, does not depend on the output that it is given. -/
def WritesAtOnce (x : Action α) : Prop :=
  ∀ store readings, ∃ (w : ByteArray) (o : Outcome α), ∀ output : Output,
    o.After (output.write w) (x ⟨store, output, readings⟩)

/-- An action that does not look at the output writes nothing. -/
theorem WritesAtOnce.silent {x : Action α}
    (h : ∀ store output readings,
      x ⟨store, output, readings⟩ = (x ⟨store, {}, readings⟩).withOutput output) :
    x.WritesAtOnce := by
  intro store readings
  refine ⟨.empty, x ⟨store, {}, readings⟩, fun output => ?_⟩
  rw [Output.write_empty, h store output readings]
  exact .complete output

/-- The text of a value and its newline are written in one go. -/
theorem writesAtOnce_print (v : Value) : (print v).WritesAtOnce := by
  intro store readings
  refine ⟨(v.text ++ "\n").toUTF8, .done () ⟨store, {}, readings⟩, fun output => ?_⟩
  unfold print
  obtain ⟨output', complete⟩ := output.write (v.text ++ "\n").toUTF8
  cases complete with
  | true => exact .complete output'
  | false => exact .refused store output' readings

/-- One after the other, two actions write the pieces of both, unless the first one fails. -/
theorem WritesAtOnce.bind {x : Action α} {f : α → Action β} (hx : x.WritesAtOnce)
    (hf : ∀ a, (f a).WritesAtOnce) : (x >>= f).WritesAtOnce := by
  intro store readings
  obtain ⟨w, o, h⟩ := hx store readings
  cases o with
  | done a s =>
      obtain ⟨w', o', h'⟩ := hf a s.store s.readings
      refine ⟨w ++ w', o', fun output => ?_⟩
      refine (h output).bind (fun output₁ hr => ?_) fun output₁ hr => ?_
      · rw [Output.write_append_of_complete (congrArg Prod.snd hr), hr]
        exact h' output₁
      · exact Output.write_append_of_refused (congrArg Prod.snd hr) w'
  | failed e s =>
      refine ⟨w, .failed e s, fun output => (h output).bind (fun output₁ hr => ?_) fun _ _ => rfl⟩
      rw [hr]
      exact .complete output₁
  | outOfFuel =>
      refine ⟨w, .outOfFuel, fun output => (h output).bind (fun output₁ hr => ?_) fun _ _ => rfl⟩
      rw [hr]
      exact .complete output₁

end Action

open Lox.Action

/-- Whatever is made of elementary actions writes as in one piece. -/
theorem Action.Composed.writesAtOnce {clock : Nat → Number} {α : Type} {x : Action α}
    (h : Composed clock x) : x.WritesAtOnce := by
  induction h with
  | bind _ _ hx hf => exact hx.bind hf
  | print v => exact writesAtOnce_print v
  | get i y line =>
      refine .silent fun store output readings => ?_
      unfold Action.get
      cases store.get? i y <;> rfl
  | assign i y v line =>
      refine .silent fun store output readings => ?_
      unfold Action.assign
      cases store.owner? y i <;> rfl
  | _ => exact .silent fun store output readings => rfl

/-- Limited room only cuts the output short.  Say that a run without a limit writes the bytes `w`.
In room for them, the run ends in the same way, with the same store.  In less room, it ends with the
refusal of a write, and what it wrote is as much of `w` as there was room for. -/
theorem run_with_room (clock : Nat → Number) (fuel : Nat) (program : List Stmt) (store : Store)
    (written : ByteArray) (readings : Nat) :
    ∃ (w : ByteArray) (o : Outcome Unit),
      run clock fuel program ⟨store, ⟨written, none⟩, readings⟩ =
        o.withOutput ⟨written ++ w, none⟩ ∧
      ∀ n,
        (w.size ≤ n →
          run clock fuel program ⟨store, ⟨written, some n⟩, readings⟩ =
            o.withOutput ⟨written ++ w, some (n - w.size)⟩) ∧
        (n < w.size → ∃ store' readings',
          run clock fuel program ⟨store, ⟨written, some n⟩, readings⟩ =
            .failed .outputRefused
              ⟨store', ⟨written ++ w.extract 0 n, some 0⟩, readings'⟩) := by
  obtain ⟨w, o, h⟩ := composed_run.writesAtOnce store readings
  refine ⟨w, o, (h ⟨written, none⟩).eq_of_complete, fun n => ⟨fun hfits => ?_, fun hlack => ?_⟩⟩
  · have hroom := h ⟨written, some n⟩
    rw [Output.write_of_le hfits] at hroom
    exact hroom.eq_of_complete
  · have hroom := h ⟨written, some n⟩
    rw [Output.write_of_lt hlack] at hroom
    exact hroom.exists_of_refused

/-- Of two lines, the second one is cut off. -/
example (clock : Nat → Number) (store : Store) :
    run clock 4 [.print (.literal (.bool true)), .print (.literal (.bool false))]
        ⟨store, ⟨.empty, some 7⟩, 0⟩ =
      .failed .outputRefused ⟨store, ⟨"true\nfa".toUTF8, some 0⟩, 0⟩ := by
  rfl

end Lox
