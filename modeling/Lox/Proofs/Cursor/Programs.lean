import Lox.Proofs.Cursor.Statements
import Lox.Proofs.Grammar.Reads

/-!
# Programs with a cursor

Whatever the tokens are, the first end mark among them stands behind those that the grammar reads,
or there is none and one is put behind all of them.  So reading with a cursor ends at that mark, and
comes to what the grammar says.
-/

namespace Lox

namespace Track

variable {w : Track}

/-- Up to the end mark one declaration is settled after the other, as the grammar settles them. -/
theorem yields_program (fuel : Nat) {ds : List Diagnostic} {ts : List Token} {c : Cursor}
    (h : w.Stands ⟨0, 0, ds⟩ ts c) (hfuel : ts.length * 40 + 24 < fuel) :
    w.Yields (Reader.program fuel) c (Grammar.declarations w.stop.line ts).statements
      (w.Stands ⟨0, 0, ds ++ (Grammar.declarations w.stop.line ts).diagnostics⟩ []) := by
  induction fuel generalizing ds ts c with
  | zero => omega
  | succ fuel ih =>
      rw [Reader.program]
      refine h.isAtEnd.bind ?_
      rintro c ⟨hc, -⟩
      cases ts with
      | nil =>
          rw [Grammar.declarations, List.append_nil]
          exact .pure hc
      | cons t ts =>
          rw [Grammar.declarations]
          let first := (Grammar.declaration w.stop.line {} (t :: ts)).settle (Nat.succ_pos _)
          have hshorter : first.rest.length < (t :: ts).length := first.shorter
          refine (yields_declaration fuel hc (by omega)).bind
            fun c (hc : w.Stands ⟨0, 0, ds ++ first.reports⟩ first.rest c) => ?_
          have hothers := ih hc (by omega)
          rw [List.append_assoc] at hothers
          exact hothers.bind fun c hc => .pure hc

end Track

/-! ## The first end mark -/

namespace Token

variable {ts : List Token}

/-- Tokens that have an end mark keep it, and whatever is put behind it. -/
theorem closed_append_cons (ts : List Token) (stop : Token) (tail : List Token) :
    ∃ more, closed (ts ++ stop :: tail) = ts ++ stop :: more := by
  rw [closed]
  split
  · next hlast => simp at hlast
  · split
    · exact ⟨tail, rfl⟩
    · exact ⟨_, List.append_assoc ..⟩

/-- Tokens without an end mark get one on the line on which they stop. -/
theorem closed_of_ne_eof (hts : ∀ t ∈ ts, t.kind ≠ .eof) :
    closed ts = ts ++ [⟨.eof, "", stopLine ts⟩] := by
  have hfind : ts.find? isEof = none := by simpa [isEof] using hts
  rw [stopLine, hfind, closed]
  cases hlast : ts.getLast? with
  | none =>
      rw [List.getLast?_eq_none_iff.mp hlast]
      rfl
  | some last =>
      have hkind := hts last (List.mem_of_getLast? hlast)
      exact if_neg (by simpa [isEof] using hkind)

/-- The first end mark stands behind the tokens that are read, on the line where they end. -/
theorem closed_eq (ts : List Token) :
    ∃ stop tail, closed ts = body ts ++ stop :: tail ∧ stop.kind = .eof ∧
      stop.line = stopLine ts := by
  cases hfind : ts.find? isEof with
  | some stop =>
      obtain ⟨hstop, front, tail, rfl, hfront⟩ := List.find?_eq_some_iff_append.mp hfind
      have hne : ∀ t ∈ front, t.kind ≠ .eof := by simpa [isEof] using hfront
      have hstop : stop.kind = .eof := by simpa [isEof] using hstop
      obtain ⟨more, hclosed⟩ := closed_append_cons front stop tail
      refine ⟨stop, more, ?_, hstop, ?_⟩
      · rw [hclosed, body_append hne]
        rintro t ⟨⟩
        exact hstop
      · rw [stopLine, hfind]
  | none =>
      have hne : ∀ t ∈ ts, t.kind ≠ .eof := by simpa [isEof] using hfind
      refine ⟨⟨.eof, "", stopLine ts⟩, [], ?_, rfl, rfl⟩
      rw [closed_of_ne_eof hne, body_eq_self hne]

end Token

/-- Whatever the tokens are, reading with a cursor ends, and comes to what the grammar says.  It
does not go astray, so every index that is looked at is that of a token, and no count goes below
zero.  The cursor stops at the first end mark and has not been behind it, nor was a token behind it
looked at, and every declaration moved it forward, whether it was kept or dropped. -/
theorem cursor_parse_ends_at_end_mark (ts : List Token) (more : Nat) :
    ∃ c : Cursor,
      Cursor.parse (40 * ts.length + 25 + more) ts = .read (parse ts).statements c ∧
      c.reports = (parse ts).diagnostics ∧
      (∃ stop, (Token.closed ts)[c.current]? = some stop ∧ stop.kind = .eof ∧
        ∀ i t, i < c.current → (Token.closed ts)[i]? = some t → t.kind ≠ .eof) ∧
      c.loops = 0 ∧ c.functions = 0 ∧ ∀ e ∈ c.events, e.Within c.current := by
  obtain ⟨stop, tail, hclosed, hkind, hline⟩ := Token.closed_eq ts
  have hbody : ∀ t ∈ Token.body ts, t.kind ≠ .eof := by
    intro t ht
    simpa [Token.isEof] using List.all_eq_true.mp List.all_takeWhile t ht
  let w : Track := ⟨Token.body ts, stop, tail, hbody, hkind⟩
  have hstart : w.Stands ⟨0, 0, []⟩ (Token.body ts) .start :=
    ⟨rfl, ⟨[], rfl, rfl⟩, List.forall_mem_nil _⟩
  have hfuel : (Token.body ts).length * 40 + 24 < 40 * ts.length + 25 + more := by
    have hle : (Token.body ts).length ≤ ts.length := (List.takeWhile_sublist _).length_le
    omega
  obtain ⟨c, hread, hc⟩ := Track.yields_program _ hstart hfuel
  have hcurrent : c.current = (Token.body ts).length := hc.current_add_length
  have htokens : Token.closed ts = w.tokens := hclosed
  have hstop : w.stop.line = Token.stopLine ts := hline
  rw [hstop] at hread hc
  refine ⟨c, ?_, ?_, ⟨stop, ?_, hkind, fun i t hi ht => ?_⟩, ?_, ?_, ?_⟩
  · rw [Cursor.parse, htokens]
    exact hread
  · exact congrArg Ledger.reports hc.ledger
  · rw [htokens]
    exact hc.getElem?_current
  · rw [hclosed, List.getElem?_append_left (hcurrent ▸ hi)] at ht
    exact hbody t (List.mem_of_getElem? ht)
  · exact congrArg Ledger.loops hc.ledger
  · exact congrArg Ledger.functions hc.ledger
  · rw [hcurrent]
    exact hc.events

/-- Neither `}` nor `class` can be read, and no token behind the end mark in the middle is. -/
example :
    let ts : List Token := [⟨.punct .rightCurly, "\x7d", 1⟩, ⟨.keyword .class_, "class", 2⟩,
      ⟨.eof, "", 3⟩, ⟨.punct .semicolon, ";", 4⟩]
    (match Cursor.parse 30 ts with
      | .read _ c => (c.current, c.events.filter (· matches .declared ..))
      | _ => (0, [])) = (2, [.declared 1 2, .declared 0 1]) := by
  decide +kernel

end Lox
