import Lox.Proofs.Session.Frames

/-!
# Names as cells

A frame sees its own bindings and, where these leave off, those of its parent.  So many frames may
share the cell that a name stands for, and a cell may come in between.  Main statement: assigning
changes what is read from the frames that share the cell, and declaring what is read from those to
which no nearer cell is open; whatever else is read stays as it was.
-/

namespace Lox

namespace Store

/-! ## Owners -/

/-- The frame `i` is on the way up from `j`, and no frame nearer to `j` binds the name. -/
def Unshadowed (store : Store) (x : Symbol) (i j : FrameId) : Prop :=
  ∃ nearer rest, store.Chain j (nearer ++ i :: rest) ∧ ∀ k ∈ nearer, ¬store.Binds k x

/-- The frame `i` is the first one on the way up from `j` that binds the name. -/
def Owner (store : Store) (x : Symbol) (i j : FrameId) : Prop :=
  store.Unshadowed x i j ∧ store.Binds i x

/-- What is true of frames and names if names stand for cells. -/
structure Lexical (store : Store) : Prop where
  /-- What is read is the value that the owner of the name binds it to. -/
  get?_eq_some_iff : ∀ i x v, store.get? i x = some v ↔
    ∃ k frame, store.Owner x k i ∧ store.frames[k]? = some frame ∧ frame.lookup x = some v
  /-- What can be read can be assigned, and nothing else. -/
  isSome_assign? : ∀ i x v, (store.assign? i x v).isSome ↔ (store.get? i x).isSome
  assign_bound : ∀ i x v line s after, s.store = store → store.assign? i x v = some after →
    Action.assign i x v line s = .done () { s with store := after }
  /-- To assign to anything else is a fault, and leaves everything as it was. -/
  assign_unbound : ∀ i x v line s, s.store = store → store.get? i x = none →
    Action.assign i x v line s = .failed (.fault line (.undefinedVariable x.name)) s
  /-- What was assigned is read from every frame for which the name has the same owner. -/
  get?_assign_of_owner : ∀ i x v after j, store.assign? i x v = some after →
    (∃ k, store.Owner x k i ∧ store.Owner x k j) → after.get? j x = some v
  /-- Whatever else is read stays the same. -/
  get?_assign_of_not : ∀ i x v after j y, store.assign? i x v = some after →
    ¬(y = x ∧ ∃ k, store.Owner x k i ∧ store.Owner x k j) → after.get? j y = store.get? j y
  /-- To assign binds nothing new. -/
  binds_assign : ∀ i x v after j y, store.assign? i x v = some after →
    (after.Binds j y ↔ store.Binds j y)
  /-- What was declared is read from every frame on whose way up nothing comes before it. -/
  get?_define_of_unshadowed : ∀ i x v j, store.Unshadowed x i j →
    (store.define i x v).get? j x = some v
  get?_define_of_not : ∀ i x v j y, ¬(y = x ∧ store.Unshadowed x i j) →
    (store.define i x v).get? j y = store.get? j y

section

variable {store : Store} {i j k : FrameId} {x y : Symbol} {v : Value}

theorem binds_iff : store.binds x i = true ↔ store.Binds i x := by
  rw [binds, Binds]
  cases store.frames[i]? with
  | none => simp
  | some frame => simp

theorem Chain.lt_size {chain : List FrameId} (h : store.Chain i chain) :
    ∀ k ∈ chain, k < store.frames.size := by
  induction h with
  | top hi _ => exact List.forall_mem_singleton.mpr hi
  | up hp _ ih => exact List.forall_mem_cons.mpr ⟨lt_size_of_parent? hp, ih⟩

/-- A frame from which another one is seen is in the store. -/
theorem Unshadowed.lt_size (h : store.Unshadowed x i j) : i < store.frames.size := by
  obtain ⟨nearer, rest, hchain, -⟩ := h
  exact hchain.lt_size i (List.mem_append_right _ List.mem_cons_self)

/-- The way up from a frame begins with the frame itself, and goes on from its parent. -/
theorem unshadowed_iff (hparent : ∀ i, ∀ p ∈ store.parent? i, p < i) :
    store.Unshadowed x i j ↔ j < store.frames.size ∧
      (i = j ∨ ¬store.Binds j x ∧ ∃ p ∈ store.parent? j, store.Unshadowed x i p) := by
  constructor
  · rintro ⟨nearer, rest, hchain, hnearer⟩
    cases nearer with
    | nil =>
        have hi := hchain.lt_size i List.mem_cons_self
        cases hchain with
        | top => exact ⟨hi, .inl rfl⟩
        | up => exact ⟨hi, .inl rfl⟩
    | cons k nearer =>
        have hk := hchain.lt_size k List.mem_cons_self
        obtain ⟨hbinds, hothers⟩ := List.forall_mem_cons.mp hnearer
        generalize hup : (k :: nearer) ++ i :: rest = chain at hchain
        cases hchain with
        | top _ _ => simp at hup
        | up hp hchain =>
            cases hup
            exact ⟨hk, .inr ⟨hbinds, _, hp, nearer, rest, hchain, hothers⟩⟩
  · rintro ⟨hj, rfl | ⟨hbinds, p, hp, nearer, rest, hchain, hothers⟩⟩
    · obtain ⟨chain, hchain⟩ := exists_chain hparent hj
      cases hchain with
      | top hi hp => exact ⟨[], [], .top hi hp, List.forall_mem_nil _⟩
      | up hp hchain => exact ⟨[], _, .up hp hchain, List.forall_mem_nil _⟩
    · exact ⟨j :: nearer, rest, .up hp hchain, List.forall_mem_cons.mpr ⟨hbinds, hothers⟩⟩

theorem owner?_eq_none_of_size_le (hj : store.frames.size ≤ j) : store.owner? x j = none := by
  rw [owner?_eq, Array.getElem?_eq_none hj]

/-- The walk that looks for a name finds its owner. -/
theorem owner?_eq_some_iff (hparent : ∀ i, ∀ p ∈ store.parent? i, p < i) :
    store.owner? x j = some i ↔ store.Owner x i j := by
  constructor
  · intro howner
    have hj : j < store.frames.size := by
      by_contra hj
      rw [owner?_eq_none_of_size_le (Nat.le_of_not_lt hj)] at howner
      cases howner
    obtain ⟨chain, hchain⟩ := exists_chain hparent hj
    rw [hchain.owner?_eq hparent, List.find?_eq_some_iff_append] at howner
    obtain ⟨hbinds, nearer, rest, rfl, hnearer⟩ := howner
    refine ⟨⟨nearer, rest, hchain, fun k hk => ?_⟩, binds_iff.mp hbinds⟩
    rw [← binds_iff]
    simpa using hnearer k hk
  · rintro ⟨⟨nearer, rest, hchain, hnearer⟩, hbinds⟩
    rw [hchain.owner?_eq hparent, List.find?_eq_some_iff_append]
    refine ⟨binds_iff.mpr hbinds, nearer, rest, rfl, fun k hk => ?_⟩
    have hnot := hnearer k hk
    rw [← binds_iff] at hnot
    simpa using hnot

/-! ## After a declaration -/

theorem binds_define_eq (h : ¬(j = i ∧ y = x)) :
    (store.define i x v).binds y j = store.binds y j := by
  rw [Bool.eq_iff_iff, binds_iff, binds_iff, binds_define]
  constructor
  · rintro (hy | ⟨hj, hy, -⟩)
    · exact hy
    · exact absurd ⟨hj, hy⟩ h
  · exact .inl

/-- A declaration becomes the owner of the name for every frame where it is not shadowed. -/
theorem owner?_define_of_unshadowed (hparent : ∀ i, ∀ p ∈ store.parent? i, p < i)
    (h : store.Unshadowed x i j) : (store.define i x v).owner? x j = some i := by
  have hsize : (store.define i x v).frames.size = store.frames.size := by simp [define]
  induction j using Nat.strongRecOn with
  | ind j ih =>
      obtain ⟨hj, hij⟩ := (unshadowed_iff hparent).mp h
      rw [owner?_of_parent? (hsize ▸ hj), parent?_define]
      rcases hij with rfl | ⟨hnot, p, hp, hup⟩
      · rw [if_pos (binds_iff.mpr (binds_define.mpr (.inr ⟨rfl, rfl, hj⟩)))]
      · have hlt := hparent j p hp
        by_cases hji : j = i
        · subst hji
          rw [if_pos (binds_iff.mpr (binds_define.mpr (.inr ⟨rfl, rfl, hj⟩)))]
        · rw [binds_define_eq fun h => hji h.1, if_neg (mt binds_iff.mp hnot), hp,
            Option.bind_some, if_pos hlt]
          exact ih p hlt hup

/-- For all other frames and names the owner stays the same. -/
theorem owner?_define_of_not (hparent : ∀ i, ∀ p ∈ store.parent? i, p < i)
    (h : ¬(y = x ∧ store.Unshadowed x i j)) :
    (store.define i x v).owner? y j = store.owner? y j := by
  have hsize : (store.define i x v).frames.size = store.frames.size := by simp [define]
  induction j using Nat.strongRecOn with
  | ind j ih =>
      by_cases hj : j < store.frames.size
      · have hij : ¬(j = i ∧ y = x) := by
          rintro ⟨rfl, rfl⟩
          exact h ⟨rfl, (unshadowed_iff hparent).mpr ⟨hj, .inl rfl⟩⟩
        rw [owner?_of_parent? (hsize ▸ hj), owner?_of_parent? hj, parent?_define,
          binds_define_eq hij]
        by_cases hbinds : store.Binds j y
        · simp only [if_pos (binds_iff.mpr hbinds)]
        · simp only [if_neg (mt binds_iff.mp hbinds)]
          cases hp : store.parent? j with
          | none => rfl
          | some p =>
              have hlt := hparent j p hp
              rw [Option.bind_some, Option.bind_some, if_pos hlt, if_pos hlt]
              refine ih p hlt ?_
              rintro ⟨rfl, hup⟩
              exact h ⟨rfl, (unshadowed_iff hparent).mpr ⟨hj, .inr ⟨hbinds, p, hp, hup⟩⟩⟩
      · have hle := Nat.le_of_not_lt hj
        rw [owner?_eq_none_of_size_le (hsize ▸ hle), owner?_eq_none_of_size_le hle]

/-- Where the declared name leads to the frame of the declaration, it now has the declared value.
-/
theorem get?_define_of_unshadowed (hparent : ∀ i, ∀ p ∈ store.parent? i, p < i)
    (h : store.Unshadowed x i j) : (store.define i x v).get? j x = some v := by
  have hself := get?_define_self store h.lt_size x v
  have hup : store.Unshadowed x i i := (unshadowed_iff hparent).mpr ⟨h.lt_size, .inl rfl⟩
  rw [get?, owner?_define_of_unshadowed hparent hup] at hself
  rw [get?, owner?_define_of_unshadowed hparent h]
  exact hself

/-- Any other name, and the declared one where another frame is nearer, has the value it had: its
owner is another frame, or it is another name there. -/
theorem get?_define_of_not (hparent : ∀ i, ∀ p ∈ store.parent? i, p < i)
    (h : ¬(y = x ∧ store.Unshadowed x i j)) :
    (store.define i x v).get? j y = store.get? j y := by
  rw [get?, get?, owner?_define_of_not hparent h]
  cases howner : store.owner? y j with
  | none => rfl
  | some k =>
      have hk := (owner?_eq_some_iff hparent).mp howner
      have hne : i = k → y ≠ x := by
        rintro rfl rfl
        exact h ⟨rfl, hk.1⟩
      rw [Option.bind_some, Option.bind_some, define, Array.getElem?_modify]
      split
      · next hik =>
        cases store.frames[k]? with
        | none => rfl
        | some frame => simp [Frame.lookup_define, hne hik]
      · rfl

/-! ## After an assignment -/

/-- To assign is to declare the name again in the frame that owns it. -/
theorem assign?_eq_some_iff {after : Store} :
    store.assign? i x v = some after ↔ ∃ k, store.owner? x i = some k ∧
      store.define k x v = after :=
  Option.map_eq_some_iff

/-- If every frame has an older parent, names stand for cells. -/
theorem lexical_of_parent_lt (hparent : ∀ i, ∀ p ∈ store.parent? i, p < i) : store.Lexical where
  get?_eq_some_iff i x v := by
    simp only [get?, Option.bind_eq_some_iff, owner?_eq_some_iff hparent]
    constructor
    · rintro ⟨k, hk, frame, hframe, hv⟩
      exact ⟨k, frame, hk, hframe, hv⟩
    · rintro ⟨k, frame, hk, hframe, hv⟩
      exact ⟨k, hk, frame, hframe, hv⟩
  isSome_assign? i x v := by
    rw [isSome_get?, assign?, Option.isSome_map]
  assign_bound i x v line s after hs hassign := by
    subst hs
    rw [Action.assign_apply, hassign]
  assign_unbound i x v line s hs hget := by
    subst hs
    have hnone : s.store.owner? x i = none := by
      rw [← Option.not_isSome_iff_eq_none, ← isSome_get?, hget]
      exact Bool.noConfusion
    rw [Action.assign_apply, assign?, hnone]
    rfl
  get?_assign_of_owner i x v after j hassign := by
    obtain ⟨k, hk, rfl⟩ := assign?_eq_some_iff.mp hassign
    rintro ⟨k', hi, hj⟩
    rw [← owner?_eq_some_iff hparent, hk] at hi
    cases hi
    exact get?_define_of_unshadowed hparent hj.1
  get?_assign_of_not i x v after j y hassign hnot := by
    obtain ⟨k, hk, rfl⟩ := assign?_eq_some_iff.mp hassign
    have howner := (owner?_eq_some_iff hparent).mp hk
    refine get?_define_of_not hparent ?_
    rintro ⟨rfl, hup⟩
    exact hnot ⟨rfl, k, howner, hup, howner.2⟩
  binds_assign i x v after j y hassign := by
    obtain ⟨k, hk, rfl⟩ := assign?_eq_some_iff.mp hassign
    rw [binds_define]
    constructor
    · rintro (hy | ⟨rfl, rfl, -⟩)
      · exact hy
      · exact binds_of_owner? hk
    · exact .inl
  get?_define_of_unshadowed i x v j := get?_define_of_unshadowed hparent
  get?_define_of_not i x v j y := get?_define_of_not hparent

end

/-! ## Stores that were built -/

/-- The store comes from the first one by any number of steps: frames and functions are made, names
are declared and assigned to. -/
inductive Built (start : Store) : Store → Prop
  | refl : Built start start
  | newFrame {store : Store} {parent : Option FrameId} :
      Built start store → (∀ p ∈ parent, p < store.frames.size) →
      Built start (store.newFrame parent).2
  | newFunction {store : Store} {x : Symbol} {code : Code} :
      Built start store → Built start (store.newFunction x code).2
  | define {store : Store} {i : FrameId} {x : Symbol} {v : Value} :
      Built start store → Built start (store.define i x v)
  | assign {store after : Store} {i : FrameId} {x : Symbol} {v : Value} :
      Built start store → store.assign? i x v = some after → Built start after

/-- Building a store keeps every parent older than its frame. -/
theorem Built.parent_lt {start store : Store} (h : start.Built store)
    (hstart : ∀ i, ∀ p ∈ start.parent? i, p < i) : ∀ i, ∀ p ∈ store.parent? i, p < i := by
  induction h with
  | refl => exact hstart
  | newFrame _ hparent ih => exact parent_lt_newFrame ih hparent
  | newFunction _ ih => exact ih
  | define _ ih =>
      intro j p hp
      rw [parent?_define] at hp
      exact ih j p hp
  | assign _ hassign ih =>
      obtain ⟨k, -, rfl⟩ := assign?_eq_some_iff.mp hassign
      intro j p hp
      rw [parent?_define] at hp
      exact ih j p hp

end Store

/-- The store that a point of a session shows is sound. -/
theorem Session.Reaches.exists_sound {clock : Nat → Number} {fuel : Nat} {room : Option Nat}
    {sources : List String} {m : Moment} {held hand : List Value} {store : Store}
    (h : (start room).Reaches clock fuel sources m held) (hshows : m.Shows clock held store hand) :
    ∃ made, store.Sound ((start room).declarations clock fuel sources) made := by
  obtain ⟨made, hm, hheld⟩ := h.sound
  obtain ⟨made', hfollows, -⟩ := hshows.sound hm hheld
  exact ⟨made', hfollows.sound⟩

/-- Names stand for cells in every store that is built from nothing, in every store that a session
comes to, be it between its sources or at a point in the course of one of them, and in every store
that is built from there. -/
theorem names_stand_for_cells (clock : Nat → Number) (fuel : Nat) (room : Option Nat)
    (sources : List String) :
    (∀ store, Store.empty.Built store → store.Lexical) ∧
    (∀ store, ((Session.start room).after clock fuel sources).state.store.Built store →
      store.Lexical) ∧
    ∀ m held reached hand store, (Session.start room).Reaches clock fuel sources m held →
      m.Shows clock held reached hand → reached.Built store → store.Lexical := by
  refine ⟨fun store h => ?_, fun store h => ?_, ?_⟩
  · refine Store.lexical_of_parent_lt (h.parent_lt ?_)
    rintro i p ⟨⟩
  · obtain ⟨-, made, hs⟩ := Session.sound_after clock fuel room sources []
    exact Store.lexical_of_parent_lt (h.parent_lt hs.parent_lt)
  · intro m held reached hand store hreaches hshows h
    obtain ⟨made, hs⟩ := hreaches.exists_sound hshows
    exact Store.lexical_of_parent_lt (h.parent_lt hs.parent_lt)

/-- Where a source begins, a frame is made inside the global one, and the name of the clock is
declared there and then assigned to.  It keeps its value in the global frame. -/
theorem names_stand_for_cells_shadowing :
    let clockName : Symbol := ⟨17, "clock"⟩
    let begun := (Session.start none).state.store
    let declared := (begun.newFrame (some globals)).2.define 1 clockName .nil
    (begun.get? globals clockName).isSome = true ∧
      ∃ assigned, declared.assign? 1 clockName (.bool true) = some assigned ∧
        assigned.get? 1 clockName = some (.bool true) ∧
        assigned.get? globals clockName = declared.get? globals clockName := by
  intro clockName begun declared
  have hreaches : (Session.start none).Reaches (fun _ => ⟨0⟩) 9 ["nil;"]
      ((Session.start none).begins 9 "nil;") [] :=
    ⟨[], "nil;", [], rfl, ⟨by decide +kernel, by decide +kernel⟩, .refl⟩
  have hbuilt : begun.Built declared := by
    refine .define (.newFrame .refl ?_)
    rintro p ⟨⟩
    decide +kernel
  obtain ⟨-, -, hcells⟩ := names_stand_for_cells (fun _ => ⟨0⟩) 9 none ["nil;"]
  have hlexical : declared.Lexical := hcells _ _ _ _ _ hreaches .begins hbuilt
  obtain ⟨made, hsound⟩ := hreaches.exists_sound .begins
  have hparent := hbuilt.parent_lt hsound.parent_lt
  have hinner : declared.Owner clockName 1 1 :=
    (Store.owner?_eq_some_iff hparent).mp (by decide +kernel)
  have hassign : (declared.assign? 1 clockName (.bool true)).isSome = true := by
    rw [hlexical.isSome_assign?]
    decide +kernel
  obtain ⟨assigned, hassigned⟩ := Option.isSome_iff_exists.mp hassign
  refine ⟨by decide +kernel, assigned, hassigned, ?_, ?_⟩
  · exact hlexical.get?_assign_of_owner _ _ _ _ _ hassigned ⟨1, hinner, hinner⟩
  · refine hlexical.get?_assign_of_not _ _ _ _ _ _ hassigned ?_
    rintro ⟨-, k, hk, hglobal⟩
    rw [← Store.owner?_eq_some_iff hparent] at hk hglobal
    have hk' : declared.owner? clockName 1 = some 1 := (Store.owner?_eq_some_iff hparent).mpr hinner
    cases hk.symm.trans hk'
    exact absurd hglobal (by decide +kernel)

end Lox
