import Lox.Proofs.Offsets.Sweep

/-!
# Steps of a sweep

A window divides the characters of its source into those in front of the lexeme, the lexeme so far,
and those that have not been read.  Its offsets are those of the first part and of the first two
together, so they are always on boundaries, and whatever is cut out is one of the parts.  Every step
keeps it so.
-/

namespace Lox

/-- Nothing goes wrong.  The offsets are in order, in the source and on boundaries, so that the
lexeme and what is behind it can be cut out.  Quotes are there when they are to be taken off, and a
number is only read from a text that spells one. -/
def Window.Event.Sound (source : String) : Window.Event → Prop
  | stood start current =>
    (start ≤ current ∧ current ≤ source.utf8ByteSize) ∧
      (Text.OnBoundary source start ∧ Text.OnBoundary source current) ∧
      (Text.stretch? source start current).isSome ∧
      (Text.stretch? source current source.utf8ByteSize).isSome
  | unquoting lexeme =>
    Text.InQuotes lexeme ∧ (Text.stretch? lexeme 1 (lexeme.utf8ByteSize - 1)).isSome
  | reading text => Numeral text.toList
  | defaulted _ => False

namespace Findings

variable (F : Findings) (cs ds : List Char)

/-- The findings behind further characters of which none is worth a word. -/
def past : Findings := { F with line := F.line.behind cs }

theorem past_nil : F.past [] = F := by
  rw [past, Position.behind_nil]

/-- Past two stretches is past one behind the other. -/
theorem past_append : F.past (cs ++ ds) = (F.past cs).past ds := by
  rw [past, past, past, Position.behind_append]

variable {cs} in
/-- A stretch without newlines counts no lines. -/
theorem past_of_notMem (h : '\n' ∉ cs) : F.past cs = F := by
  rw [past, Position.behind_of_notMem h]

end Findings

namespace Window

variable {source : String} {F : Findings} {before taken rest : List Char} {w : Window}

/-- The window is on a lexeme of which some characters have been taken. -/
structure Stands (source : String) (F : Findings) (before taken rest : List Char) (w : Window) :
    Prop where
  findings : w.toFindings = F
  text : source.toList = before ++ (taken ++ rest)
  start : w.start = Text.offset before
  current : w.current = Text.offset (before ++ taken)
  events : ∀ e ∈ w.events, e.Sound source

/-- A window around whole characters stands on boundaries, in order, in the source. -/
theorem sound_stood (h : source.toList = before ++ (taken ++ rest)) :
    (Event.stood (Text.offset before) (Text.offset (before ++ taken))).Sound source := by
  have hread : source.toList = (before ++ taken) ++ rest := by rw [h, List.append_assoc]
  have hstart := Text.onBoundary_of_prefix ⟨_, h.symm⟩
  have hcurrent := Text.onBoundary_of_prefix ⟨_, hread.symm⟩
  refine ⟨⟨?_, hcurrent.le⟩, ⟨hstart, hcurrent⟩, ?_, ?_⟩
  · exact Text.offset_le_of_prefix (List.prefix_append before taken)
  · rw [Text.stretch?_eq h]
    rfl
  · rw [Text.stretch?_behind hread]
    rfl

/-- At the beginning everything is still ahead. -/
theorem stands_initial (lexicon : Lexicon) (source : String) :
    Stands source ⟨lexicon, 1, [], []⟩ [] [] source.toList (.initial lexicon) := by
  have htext : source.toList = [] ++ ([] ++ source.toList) := rfl
  exact ⟨rfl, htext, rfl, rfl, List.forall_mem_singleton.mpr (sound_stood htext)⟩

/-! ## Sweeps that end -/

variable {α β : Type}

/-- The sweep ends with the value, and leaves a window as described. -/
def Yields (source : String) (x : Sweep α) (w : Window) (v : α) (Q : Window → Prop) : Prop :=
  ∃ w', x source w = .done v w' ∧ Q w'

theorem Yields.pure {v : α} {Q : Window → Prop} (h : Q w) :
    Yields source (Pure.pure v : Sweep α) w v Q :=
  ⟨w, rfl, h⟩

/-- One sweep after the other yields what the second one does. -/
theorem Yields.bind {x : Sweep α} {k : α → Sweep β} {v : α} {u : β} {Q R : Window → Prop}
    (hx : Yields source x w v Q) (hk : ∀ w, Q w → Yields source (k v) w u R) :
    Yields source (x >>= k) w u R := by
  obtain ⟨w', hdone, hQ⟩ := hx
  rw [Yields, Sweep.bind_apply, hdone]
  exact hk w' hQ

theorem Yields.mono {x : Sweep α} {v : α} {Q R : Window → Prop} (hx : Yields source x w v Q)
    (h : ∀ w, Q w → R w) : Yields source x w v R := by
  obtain ⟨w', hdone, hQ⟩ := hx
  exact ⟨w', hdone, h w' hQ⟩

namespace Stands

/-! ## Looking -/

/-- What can be cut out is cut out, and nothing moves. -/
theorem cut (h : Stands source F before taken rest w) {text within : String} {start stop : Nat}
    (hwithin : Text.stretch? text start stop = some within) :
    Yields source (Sweep.cut text start stop) w within (Stands source F before taken rest) := by
  refine ⟨w, ?_, h⟩
  rw [Sweep.cut, hwithin]

/-- What was taken since the last lexeme is the lexeme. -/
theorem lexeme (h : Stands source F before taken rest w) :
    Yields source Sweep.lexeme w (String.ofList taken) (Stands source F before taken rest) :=
  h.cut (by rw [h.start, h.current, Text.stretch?_eq h.text])

/-- What is ahead of the window is the rest of the source. -/
theorem ahead (h : Stands source F before taken rest w) :
    Yields source Sweep.ahead w (String.ofList rest) (Stands source F before taken rest) := by
  have hread : source.toList = (before ++ taken) ++ rest := by rw [h.text, List.append_assoc]
  exact h.cut (by rw [h.current, Text.stretch?_behind hread])

/-- The next character is the first one of the rest. -/
theorem peek (h : Stands source F before taken rest w) :
    Yields source Sweep.peek w rest.head? (Stands source F before taken rest) :=
  h.ahead.bind fun w hw => by
    rw [String.toList_ofList]
    exact .pure hw

/-- And the one behind it is the second. -/
theorem peekNext (h : Stands source F before taken rest w) :
    Yields source Sweep.peekNext w rest[1]? (Stands source F before taken rest) :=
  h.ahead.bind fun w hw => by
    rw [String.toList_ofList]
    exact .pure hw

/-! ## Moving -/

variable {c : Char} {cs : List Char}

/-- The window may be moved to wherever it divides the characters. -/
theorem stand (h : Stands source F before taken rest w) {before' taken' rest' : List Char}
    {start current : Window → Nat} (htext : source.toList = before' ++ (taken' ++ rest'))
    (hstart : start w = Text.offset before')
    (hcurrent : current w = Text.offset (before' ++ taken')) :
    Yields source (Sweep.stand start current) w () (Stands source F before' taken' rest') := by
  refine ⟨_, rfl, h.findings, htext, hstart, hcurrent, List.forall_mem_cons.mpr ⟨?_, h.events⟩⟩
  rw [hstart, hcurrent]
  exact sound_stood htext

/-- The window goes forward by the bytes of one whole character. -/
theorem forward (h : Stands source F before taken (c :: cs) w) :
    Yields source (Sweep.forward c.utf8Size) w () (Stands source F before (taken ++ [c]) cs) := by
  refine h.stand ?_ h.start ?_
  · rw [h.text, List.append_assoc taken]
    rfl
  · rw [h.current, ← List.append_assoc, Text.offset_append _ [c], Text.offset_singleton]

/-- What was taken is put behind, and a new lexeme begins with nothing. -/
theorem beginLexeme (h : Stands source F before taken rest w) :
    Yields source Sweep.beginLexeme w () (Stands source F (before ++ taken) [] rest) := by
  refine h.stand ?_ h.current ?_
  · rw [h.text, List.append_assoc]
    rfl
  · rw [h.current, List.append_nil]

/-- Advancing takes the first character of the rest. -/
theorem advance (h : Stands source F before taken (c :: cs) w) :
    Yields source Sweep.advance w (some c) (Stands source F before (taken ++ [c]) cs) :=
  h.peek.bind fun _ hw => hw.forward.bind fun _ hw => .pure hw

/-- At the end of the source nothing is gone over. -/
theorem advance_nil (h : Stands source F before taken [] w) :
    Yields source Sweep.advance w none (Stands source F before taken []) :=
  h.peek.bind fun _ hw => .pure hw

/-- A character that is expected is taken. -/
theorem eat (h : Stands source F before taken (c :: cs) w) :
    Yields source (Sweep.eat c) w true (Stands source F before (taken ++ [c]) cs) := by
  refine h.peek.bind fun w hw => ?_
  rw [List.head?_cons, if_pos rfl]
  exact hw.advance.bind fun w hw => .pure hw

/-- Another character is left where it is. -/
theorem eat_other (h : Stands source F before taken rest w) (hc : rest.head? ≠ some c) :
    Yields source (Sweep.eat c) w false (Stands source F before taken rest) := by
  refine h.peek.bind fun w hw => ?_
  rw [if_neg hc]
  exact .pure hw

/-- All characters of a class at the front of the rest are taken. -/
theorem eatWhile (h : Stands source F before taken rest w) (p : Char → Bool) {fuel : Nat}
    (hfuel : rest.length < fuel) :
    Yields source (Sweep.eatWhile p fuel) w ()
      (Stands source F before (taken ++ rest.takeWhile p) (rest.dropWhile p)) := by
  induction rest generalizing taken w fuel with
  | nil =>
      obtain ⟨fuel, rfl⟩ := Nat.exists_eq_add_one.mpr (Nat.zero_lt_of_lt hfuel)
      refine h.peek.bind fun w hw => ?_
      rw [List.takeWhile_nil, List.append_nil]
      exact .pure hw
  | cons c cs ih =>
      obtain ⟨fuel, rfl⟩ := Nat.exists_eq_add_one.mpr (Nat.zero_lt_of_lt hfuel)
      refine h.peek.bind fun w hw => ?_
      rw [List.head?_cons, Option.any_some, List.takeWhile_cons, List.dropWhile_cons]
      split
      · refine hw.advance.bind fun w hw => ?_
        have hcs := ih hw (Nat.lt_of_succ_lt_succ hfuel)
        rwa [List.append_assoc] at hcs
      · rw [List.append_nil]
        exact .pure hw

/-! ## Finding -/

/-- Findings may be changed without moving. -/
theorem note (h : Stands source F before taken rest w) (f : Findings → Findings) :
    Yields source (Sweep.note f) w () (Stands source (f F) before taken rest) :=
  ⟨_, rfl, congrArg f h.findings, h.text, h.start, h.current, h.events⟩

theorem putDown (h : Stands source F before taken rest w) {e : Event} (he : e.Sound source) :
    Yields source (Sweep.putDown e) w () (Stands source F before taken rest) :=
  ⟨_, rfl, h.findings, h.text, h.start, h.current, List.forall_mem_cons.mpr ⟨he, h.events⟩⟩

/-- A token is made of what was taken. -/
theorem addToken (h : Stands source F before taken rest w) (kind : Kind) :
    Yields source (Sweep.addToken kind) w ()
      (Stands source (F.addToken kind (String.ofList taken)) before taken rest) :=
  h.lexeme.bind fun _ hw => hw.note _

/-- A character that is taken counts as a line if it is a newline. -/
theorem countLine (h : Stands source F before taken rest w) (c : Char) :
    Yields source (Sweep.countLine c) w () (Stands source (F.past [c]) before taken rest) := by
  rw [Sweep.countLine]
  split
  · next hc =>
    rw [hc]
    exact h.note .nextLine
  · next hc =>
    rw [F.past_of_notMem (by simpa using Ne.symm hc)]
    exact .pure h

/-- A name is looked up in the lexicon of the findings. -/
theorem intern (h : Stands source F before taken rest w) (name : String) :
    Yields source (Sweep.intern name) w (F.lexicon.intern name).1
      (Stands source { F with lexicon := (F.lexicon.intern name).2 } before taken rest) := by
  obtain ⟨rfl, htext, hstart, hcurrent, hevents⟩ := h
  exact ⟨_, rfl, rfl, htext, hstart, hcurrent, hevents⟩

end Stands

end Window

end Lox
