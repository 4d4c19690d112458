import Lox.Proofs.Cursor.Reader

/-!
# Steps of a cursor

As long as the cursor stands in front of the first end mark or at it, the tokens that are left are
those between the two.  Every step keeps it there, and does what the grammar does with the tokens
that are left.  So whatever a reader is made of, it is enough to compare it with the grammar step by
step.
-/

namespace Lox

/-- Tokens as a cursor goes over them: those in front of the first end mark, the mark, and whatever
stands behind it. -/
structure Track where
  body : List Token
  stop : Token
  tail : List Token
  kind_ne_eof : ∀ t ∈ body, t.kind ≠ .eof
  kind_stop : stop.kind = .eof

def Track.tokens (w : Track) : List Token := w.body ++ w.stop :: w.tail

/-- The event lies in front of the given index or at it, and a declaration ends behind where it
began. -/
def Event.Within (n : Nat) : Event → Prop
  | looked i | moved i => i ≤ n
  | declared start stop => start < stop ∧ stop ≤ n

namespace Ledger

/-- The ledger after further reports. -/
def report (L : Ledger) (ds : List Diagnostic) : Ledger := { L with reports := L.reports ++ ds }

theorem report_nil (L : Ledger) : L.report [] = L := by
  rw [report, List.append_nil]

theorem report_report (L : Ledger) (ds ds' : List Diagnostic) :
    (L.report ds).report ds' = L.report (ds ++ ds') := by
  rw [report, report, report, List.append_assoc]

def scope (L : Ledger) : Scope := ⟨0 < L.loops, 0 < L.functions⟩

end Ledger

namespace Track

variable {w : Track} {L : Ledger} {ts : List Token} {t : Token} {c : Cursor}

/-- The cursor stands in front of the given tokens and the first end mark, and nothing has happened
behind the mark. -/
structure Stands (w : Track) (L : Ledger) (ts : List Token) (c : Cursor) : Prop where
  ledger : c.toLedger = L
  place : ∃ done, w.body = done ++ ts ∧ c.current = done.length
  events : ∀ e ∈ c.events, e.Within w.body.length

/-- The token stands in front of the cursor. -/
def Behind (w : Track) (t : Token) (c : Cursor) : Prop :=
  ∃ i, c.current = i + 1 ∧ w.tokens[i]? = some t

/-- What stands in front of the cursor is found one index before it. -/
theorem Behind.getElem? (h : w.Behind t c) : w.tokens[c.current - 1]? = some t := by
  obtain ⟨i, hi, ht⟩ := h
  rwa [hi, Nat.add_sub_cancel]

/-- What the cursor stands at: the first of the tokens that are left, or the end mark. -/
def head (w : Track) (ts : List Token) : Token := ts.head?.getD w.stop

theorem head_cons : w.head (t :: ts) = t := rfl

theorem kind_head_nil : (w.head []).kind = .eof := w.kind_stop

theorem kind_head_nil_ne (w : Track) {kind : Kind} (h : kind ≠ .eof) : (w.head []).kind ≠ kind := by
  rw [kind_head_nil]
  exact h.symm

/-- The cursor never gets behind the first end mark. -/
theorem Stands.current_le (h : w.Stands L ts c) : c.current ≤ w.body.length := by
  obtain ⟨done, hbody, hcurrent⟩ := h.place
  rw [hbody, hcurrent, List.length_append]
  exact Nat.le_add_right _ _

/-- What the cursor stands at is found at its index. -/
theorem Stands.getElem?_current (h : w.Stands L ts c) :
    w.tokens[c.current]? = some (w.head ts) := by
  obtain ⟨done, hbody, hcurrent⟩ := h.place
  rw [tokens, hbody, hcurrent, List.append_assoc, List.getElem?_append_right (Nat.le_refl _),
    Nat.sub_self]
  cases ts <;> rfl

/-- There is no end mark among the tokens that are left. -/
theorem Stands.kind_ne_eof (h : w.Stands L ts c) : ∀ t ∈ ts, t.kind ≠ .eof := by
  obtain ⟨done, hbody, -⟩ := h.place
  intro t ht
  exact w.kind_ne_eof t (hbody ▸ List.mem_append_right done ht)

/-- The cursor is at an end mark exactly if no tokens are left. -/
theorem Stands.isEof_head (h : w.Stands L ts c) : (w.head ts).isEof = ts.isEmpty := by
  cases ts with
  | nil => exact decide_eq_true w.kind_stop
  | cons t ts => exact decide_eq_false (h.kind_ne_eof t List.mem_cons_self)

/-- It does not matter to a cursor what is noted about its way. -/
theorem Stands.event (h : w.Stands L ts c) {e : Event} (he : e.Within w.body.length) :
    w.Stands L ts { c with events := e :: c.events } :=
  ⟨h.ledger, h.place, List.forall_mem_cons.mpr ⟨he, h.events⟩⟩

/-- The mistake that the grammar finds at the tokens that are left. -/
theorem atToken_head (w : Track) (h : ∀ t ∈ ts, t.kind ≠ .eof) (problem : Problem) :
    .atToken (w.head ts) problem = Diagnostic.atHead w.stop.line ts problem := by
  cases ts with
  | nil => exact congrArg (Diagnostic.mk _ · _) (if_pos w.kind_stop)
  | cons t ts => rfl

theorem Stands.current_add_length (h : w.Stands L ts c) :
    c.current + ts.length = w.body.length := by
  obtain ⟨done, hbody, hcurrent⟩ := h.place
  rw [hbody, hcurrent, List.length_append]

/-! ## Steps that cannot fail -/

variable {α β : Type} {m n : Nat}

/-- The reader reads the value, and leaves a cursor as described. -/
def Yields (w : Track) (x : Reader α) (c : Cursor) (v : α) (Q : Cursor → Prop) : Prop :=
  ∃ c', x w.tokens c = .read v c' ∧ Q c'

/-- One step after the other yields what the second one does. -/
theorem Yields.bind {x : Reader α} {k : α → Reader β} {v : α} {u : β} {Q R : Cursor → Prop}
    (hx : w.Yields x c v Q) (hk : ∀ c, Q c → w.Yields (k v) c u R) : w.Yields (x >>= k) c u R := by
  obtain ⟨c', hread, hQ⟩ := hx
  rw [Yields, Reader.bind_apply, hread]
  exact hk c' hQ

theorem Yields.pure {v : α} {Q : Cursor → Prop} (h : Q c) :
    w.Yields (Pure.pure v : Reader α) c v Q :=
  ⟨c, rfl, h⟩

theorem yields_position {Q : Cursor → Prop} (h : Q c) : w.Yields Reader.position c c.current Q :=
  ⟨c, rfl, h⟩

namespace Stands

/-- Looking at any index up to the first end mark finds what is there, and moves nothing. -/
theorem look (h : w.Stands L ts c) {i : Nat} (hi : i ≤ w.body.length)
    (ht : w.tokens[i]? = some t) :
    w.Yields (Reader.look i) c t fun c' => w.Stands L ts c' ∧ c'.current = c.current := by
  rw [Yields, Reader.look, ht]
  exact ⟨_, rfl, h.event hi, rfl⟩

/-- The cursor looks at the first of the tokens that are left, or at the end mark. -/
theorem peek (h : w.Stands L ts c) :
    w.Yields Reader.peek c (w.head ts) fun c' => w.Stands L ts c' ∧ c'.current = c.current :=
  (yields_position rfl).bind fun _ hc => by
    subst hc
    exact h.look h.current_le h.getElem?_current

/-- The cursor is at the end exactly if no tokens are left. -/
theorem isAtEnd (h : w.Stands L ts c) :
    w.Yields Reader.isAtEnd c ts.isEmpty
      fun c' => w.Stands L ts c' ∧ c'.current = c.current :=
  h.peek.bind fun _ hc => by
    rw [h.isEof_head]
    exact .pure hc

/-- A kind is checked at the first of the tokens that are left, or at the end mark. -/
theorem check (h : w.Stands L ts c) (kind : Kind) :
    w.Yields (Reader.check kind) c (decide ((w.head ts).kind = kind)) (w.Stands L ts) :=
  h.peek.bind fun _ hc => .pure hc.1

/-- The token in front of the cursor can be looked at again. -/
theorem previous (h : w.Stands L ts c) (ht : w.tokens[c.current - 1]? = some t) :
    w.Yields Reader.previous c t fun c' => w.Stands L ts c' ∧ c'.current = c.current :=
  (yields_position rfl).bind fun _ hc => by
    subst hc
    exact h.look (Nat.le_trans (Nat.sub_le _ _) h.current_le) ht

/-- A step forward takes one of the tokens that are left. -/
theorem forward (h : w.Stands L (t :: ts) c) :
    w.Yields Reader.forward c () fun c' => w.Stands L ts c' ∧ w.Behind t c' := by
  obtain ⟨done, hbody, hcurrent⟩ := h.place
  refine ⟨_, rfl, ⟨h.ledger, ⟨done ++ [t], ?_, ?_⟩, List.forall_mem_cons.mpr ⟨?_, h.events⟩⟩,
    c.current, rfl, h.getElem?_current⟩
  · rw [hbody, List.append_assoc]
    rfl
  · rw [List.length_append, hcurrent]
    rfl
  · have hlength := h.current_add_length
    rw [List.length_cons] at hlength
    exact Nat.le_of_add_right_le (by omega : c.current + 1 + ts.length ≤ w.body.length)

/-- Advancing takes the first of the tokens that are left and gives it back. -/
theorem advance (h : w.Stands L (t :: ts) c) :
    w.Yields Reader.advance c t fun c' => w.Stands L ts c' ∧ w.Behind t c' := by
  refine h.isAtEnd.bind fun c hc => ?_
  refine hc.1.forward.bind ?_
  rintro c ⟨hc, ht⟩
  obtain ⟨c', hread, hc', hcurrent⟩ := hc.previous ht.getElem?
  refine ⟨c', hread, hc', ?_⟩
  rw [Behind, hcurrent]
  exact ht

/-- A token of the kind that is asked for is taken. -/
theorem eat (h : w.Stands L (t :: ts) c) :
    w.Yields (Reader.eat t.kind) c true fun c' => w.Stands L ts c' ∧ w.Behind t c' := by
  refine (h.check t.kind).bind fun c hc => ?_
  rw [head_cons, if_pos (decide_eq_true rfl)]
  exact hc.advance.bind fun c hc => .pure hc

/-- A token of another kind is left where it is. -/
theorem eat_other (h : w.Stands L ts c) {kind : Kind} (hne : (w.head ts).kind ≠ kind) :
    w.Yields (Reader.eat kind) c false (w.Stands L ts) := by
  refine (h.check kind).bind fun c hc => ?_
  rw [if_neg (by simpa using hne)]
  exact .pure hc

/-- The mark that is expected is taken. -/
theorem consume (h : w.Stands L (t :: ts) c) {p : Punct} (ht : t.kind = .punct p) (spot : Spot) :
    w.Yields (Reader.consume p spot) c t (w.Stands L ts) := by
  refine (h.check (.punct p)).bind fun c hc => ?_
  rw [head_cons, if_pos (decide_eq_true ht)]
  obtain ⟨c', hread, hc', -⟩ := hc.advance
  exact ⟨c', hread, hc'⟩

/-- The place of a token just taken can be found again from the cursor. -/
theorem behind (h : w.Stands L ts c) (ht : w.Behind t c) :
    ∃ i, w.tokens[i]? = some t ∧ i ≤ w.body.length ∧
      w.Yields Reader.behind c i (w.Stands L ts) := by
  obtain ⟨i, hi, ht⟩ := ht
  have hle := h.current_le
  refine ⟨i, ht, by omega, c, ?_, h⟩
  rw [Reader.behind, hi]

/-- What is recorded is reported behind everything before it. -/
theorem record (h : w.Stands L ts c) (d : Diagnostic) :
    w.Yields (Reader.record d) c () (w.Stands (L.report [d]) ts) := by
  obtain ⟨rfl, hplace, hevents⟩ := h
  exact ⟨_, rfl, rfl, hplace, hevents⟩

/-- A problem at the cursor is reported. -/
theorem report (h : w.Stands L ts c) (problem : Problem) :
    w.Yields (Reader.report problem) c ()
      (w.Stands (L.report [.atHead w.stop.line ts problem]) ts) := by
  refine h.peek.bind fun c hc => ?_
  rw [w.atToken_head h.kind_ne_eof]
  exact hc.1.record _

/-- A problem at the token in front of the cursor is reported. -/
theorem reportPrevious (h : w.Stands L ts c) (ht : w.Behind t c) (problem : Problem) :
    w.Yields (Reader.reportPrevious problem) c () (w.Stands (L.report [.atToken t problem]) ts) :=
  (h.previous ht.getElem?).bind fun _ hc => hc.1.record _

/-- A report that depends on a condition is made if this holds. -/
theorem onlyIf (h : w.Stands L ts c) {cond : Prop} [Decidable cond] {x : Reader Unit}
    {d : Diagnostic} (hx : w.Yields x c () (w.Stands (L.report [d]) ts)) :
    w.Yields (Reader.onlyIf cond x) c ()
      (w.Stands (L.report (if cond then [d] else [])) ts) := by
  rw [Reader.onlyIf]
  split
  · exact hx
  · rw [L.report_nil]
    exact .pure h

/-- At the end mark the cursor stays. -/
theorem advance_nil (h : w.Stands L [] c) :
    ∃ t, w.Yields Reader.advance c t (w.Stands L []) := by
  have hlt : c.current - 1 < w.tokens.length := by
    have := h.current_le
    rw [tokens, List.length_append, List.length_cons]
    omega
  refine ⟨w.tokens[c.current - 1], h.isAtEnd.bind ?_⟩
  rintro c' ⟨hc, hcurrent⟩
  obtain ⟨c'', hread, hc, -⟩ := hc.previous (by rw [hcurrent, List.getElem?_eq_getElem hlt])
  exact ⟨c'', hread, hc⟩

end Stands

/-! ## Following the grammar -/

/-- Reading ends as the phrase does, and the cursor stands at the tokens that the phrase leaves. -/
inductive Ends (w : Track) (L : Ledger) : Reading α → Phrase α n → Prop
  | read {v : α} {rest : List Token} {ds : List Diagnostic} {h : rest.length < n} {c : Cursor} :
      w.Stands (L.report ds) rest c → Ends w L (.read v c) (.read v rest ds h)
  | failed {d : Diagnostic} {rest : List Token} {ds : List Diagnostic} {h : rest.length ≤ n}
      {c : Cursor} :
      w.Stands (L.report ds) rest c → Ends w L (.failed d c) (.failed d rest ds h)

/-- From the cursor, the reader does what the phrase says. -/
def Follows (w : Track) (L : Ledger) (x : Reader α) (c : Cursor) (p : Phrase α n) : Prop :=
  w.Ends L (x w.tokens c) p

/-- Before the grammar is followed, a step may be made that it does not know of. -/
theorem Yields.follows {x : Reader α} {k : α → Reader β} {v : α} {Q : Cursor → Prop}
    {p : Phrase β n} (hx : w.Yields x c v Q) (hk : ∀ c, Q c → w.Follows L (k v) c p) :
    w.Follows L (x >>= k) c p := by
  obtain ⟨c', hread, hQ⟩ := hx
  rw [Follows, Reader.bind_apply, hread]
  exact hk c' hQ

/-- A step that takes what the grammar reads follows it. -/
theorem Yields.follows_read {x : Reader α} {v : α} {Q : Cursor → Prop} {hn : ts.length < n}
    (hx : w.Yields x c v Q) (hQ : ∀ c, Q c → w.Stands L ts c) :
    w.Follows L x c (.read v ts [] hn) := by
  obtain ⟨c', hread, hQ'⟩ := hx
  rw [Follows, hread]
  exact .read (L.report_nil.symm ▸ hQ c' hQ')

/-- What was reported before a phrase is reported in front of what it reports itself. -/
theorem Ends.report {r : Reading α} {p : Phrase α n} {ds : List Diagnostic}
    (hp : w.Ends (L.report ds) r p) : w.Ends L r (p.report ds) := by
  cases hp with
  | read hc => exact .read (L.report_report _ _ ▸ hc)
  | failed hc => exact .failed (L.report_report _ _ ▸ hc)

namespace Follows

variable {x : Reader α} {p : Phrase α n}

/-- How short the rest is known to be does not matter. -/
theorem within {p : Phrase α m} {h : m ≤ n} (hp : w.Follows L x c p) :
    w.Follows L x c (p.within h) := by
  rw [Follows] at hp ⊢
  generalize x w.tokens c = r at hp ⊢
  cases hp with
  | read hc => exact .read hc
  | failed hc => exact .failed hc

theorem report {ds : List Diagnostic} (hp : w.Follows (L.report ds) x c p) :
    w.Follows L x c (p.report ds) :=
  Ends.report hp

/-- A reader that goes on from a phrase as the grammar does follows both phrases together. -/
theorem bind {k : α → Reader β}
    {next : (v : α) → (rest : List Token) → rest.length < n → Phrase β n}
    (hx : w.Follows L x c p)
    (hk : ∀ v rest h ds c, w.Stands (L.report ds) rest c →
      w.Follows (L.report ds) (k v) c (next v rest h)) :
    w.Follows L (x >>= k) c (p.andThen next) := by
  rw [Follows] at hx
  rw [Follows, Reader.bind_apply]
  generalize x w.tokens c = r at hx ⊢
  cases hx with
  | read hc => exact Ends.report (hk _ _ _ _ _ hc)
  | failed hc => exact .failed hc

/-- What is made of the value makes no difference to the reading. -/
theorem map {f : α → β} (hx : w.Follows L x c p) :
    w.Follows L (x >>= fun v => pure (f v)) c (p.map f) := by
  rw [Follows] at hx
  rw [Follows, Reader.bind_apply]
  generalize x w.tokens c = r at hx ⊢
  cases hx with
  | read hc => exact .read hc
  | failed hc => exact .failed hc

end Follows

namespace Stands

/-- Looking at the first token is no step of the grammar. -/
theorem follows_peek (h : w.Stands L ts c) {k : Token → Reader α} {p : Phrase α n}
    (hk : ∀ c, w.Stands L ts c → w.Follows L (k (w.head ts)) c p) :
    w.Follows L (Reader.peek >>= k) c p :=
  h.peek.follows fun c hc => hk c hc.1

/-- The first token is taken by the reader as the grammar takes it. -/
theorem follows_advance (h : w.Stands L (t :: ts) c) {k : Token → Reader α} {p : Phrase α n}
    (hk : ∀ c, w.Stands L ts c → w.Behind t c → w.Follows L (k t) c p) :
    w.Follows L (Reader.advance >>= k) c p :=
  h.advance.follows fun c hc => hk c hc.1 hc.2

/-- Something is read without looking at a further token. -/
theorem follows_pure (h : w.Stands L ts c) {v : α} {hn : ts.length < n} :
    w.Follows L (pure v) c (.read v ts [] hn) :=
  .read (L.report_nil.symm ▸ h)

/-- A failure leaves the tokens to whoever reports it. -/
theorem follows_fail (h : w.Stands L ts c) {d : Diagnostic} {hn : ts.length ≤ n} :
    w.Follows L (Reader.fail d : Reader α) c (.failed d ts [] hn) :=
  .failed (L.report_nil.symm ▸ h)

/-- A mistake found at the cursor is one at the head of the tokens that are left. -/
theorem follows_failHere (h : w.Stands L ts c) (problem : Problem) :
    w.Follows L (Reader.failHere problem : Reader α) c (.failHere w.stop.line problem ts) := by
  refine h.follows_peek fun c hc => ?_
  rw [w.atToken_head h.kind_ne_eof]
  exact hc.follows_fail

/-- A mark is expected at the cursor as it is by the grammar. -/
theorem follows_consume (h : w.Stands L ts c) (p : Punct) (spot : Spot) :
    w.Follows L (Reader.consume p spot) c (Grammar.mark w.stop.line p spot ts) := by
  refine (h.check (.punct p)).follows fun c hc => ?_
  cases ts with
  | nil =>
      rw [kind_head_nil]
      exact hc.follows_failHere _
  | cons t ts =>
      rw [Grammar.mark, head_cons]
      by_cases ht : t.kind = .punct p
      · rw [if_pos (decide_eq_true ht), if_pos ht]
        exact hc.advance.follows_read fun c hc => hc.1
      · rw [if_neg (by simpa using ht), if_neg ht]
        exact hc.follows_failHere _

/-- A name is expected at the cursor as it is by the grammar. -/
theorem follows_identifier (h : w.Stands L ts c) (role : Role) :
    w.Follows L (Reader.identifier role) c (Grammar.name w.stop.line role ts) := by
  refine h.follows_peek fun c hc => ?_
  cases ts with
  | nil =>
      rw [kind_head_nil]
      exact hc.follows_failHere _
  | cons t ts =>
      rw [Grammar.name, head_cons]
      cases t.kind with
      | identifier x => exact hc.follows_advance fun c hc _ => hc.follows_pure
      | _ => exact hc.follows_failHere _

/-- A choice by the kind of the next token is that of the grammar. -/
theorem follows_ifNext (h : w.Stands L ts c) {kind : Kind} (hkind : kind ≠ .eof)
    {x y : Reader α} {hn : ts.length < n}
    {yes : (t : Token) → (rest : List Token) → rest.length + 1 < n → Phrase α n} {no : Phrase α n}
    (hyes : ∀ t rest hn c, w.Stands L rest c → w.Behind t c → w.Follows L x c (yes t rest hn))
    (hno : ∀ c, w.Stands L ts c → w.Follows L y c no) :
    w.Follows L (Reader.eat kind >>= fun b => if b = true then x else y) c
      (Grammar.ifNext kind ts hn yes no) := by
  cases ts with
  | nil =>
      exact (h.eat_other (w.kind_head_nil_ne hkind)).follows hno
  | cons t ts =>
      rw [Grammar.ifNext]
      by_cases ht : t.kind = kind
      · rw [if_pos ht]
        subst ht
        exact h.eat.follows fun c hc => hyes _ _ _ c hc.1 hc.2
      · rw [if_neg ht]
        exact (h.eat_other ht).follows hno

/-- Looks at the next token, which stays where it is. -/
theorem follows_ifHead (h : w.Stands L ts c) {kind : Kind} (hkind : kind ≠ .eof)
    {x y : Reader α} {hn : ts.length < n}
    {yes : (t : Token) → (rest : List Token) → rest.length + 1 < n → Phrase α n} {no : Phrase α n}
    (hyes : ∀ t rest hn c, t.kind = kind → w.Stands L (t :: rest) c →
      w.Follows L x c (yes t rest hn))
    (hno : ∀ c, w.Stands L ts c → w.Follows L y c no) :
    w.Follows L (Reader.check kind >>= fun b => if b = true then x else y) c
      (Grammar.ifNext kind ts hn yes no) := by
  refine (h.check kind).follows fun c hc => ?_
  cases ts with
  | nil =>
      rw [if_neg (by simpa using w.kind_head_nil_ne hkind)]
      exact hno c hc
  | cons t ts =>
      rw [Grammar.ifNext, head_cons]
      by_cases ht : t.kind = kind
      · rw [if_pos ht, if_pos (decide_eq_true ht)]
        exact hyes _ _ _ c ht hc
      · rw [if_neg ht, if_neg (by simpa using ht)]
        exact hno c hc

end Stands

end Track

end Lox
