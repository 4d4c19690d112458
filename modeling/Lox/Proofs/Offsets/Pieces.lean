import Lox.Proofs.Offsets.Steps

/-!
# Pieces between offsets

From one piece of the source to the next, a sweep does what the cutting of the characters does: it
leaves the window behind the same piece, with the same findings.  So it never goes astray, and comes
to the tokens and diagnostics of the source.
-/

namespace Lox

namespace Piece

/-! ## The first piece -/

/-- A digit begins a number, for it is in none of the classes that are tried before. -/
theorem next_of_digit {c : Char} (cs : List Char) (hc : c.isDigit = true) :
    next c cs = numeral c cs := by
  rw [next, isBlank_eq_false_of_digit hc, if_neg (by decide),
    startsWord_eq_false_of_digit hc, if_neg (by decide), if_pos hc]

/-- A letter or an underscore begins a word, with all that continues it. -/
theorem next_of_startsWord {c : Char} (cs : List Char) (hc : startsWord c = true) :
    next c cs =
      (.word (c :: cs.takeWhile continuesWord), cs.dropWhile continuesWord) := by
  rw [next, isBlank_eq_false_of_startsWord hc, if_neg (by decide), if_pos hc]

/-- A character of punctuation other than the slash begins a mark of one or two characters. -/
theorem next_of_single? {c : Char} (cs : List Char) (hc : (single? c).isSome = true)
    (hslash : c ≠ '/') : next c cs = mark c cs := by
  obtain ⟨hblank, hword, hdigit, hquote⟩ := class_of_single? hc
  rw [next, hblank, hword, hdigit, if_neg hquote, if_neg hslash]
  rfl

/-- Without a point that has something behind it, there is no fraction. -/
theorem fraction_eq_false {rest : List Char} (h : ∀ d tail, rest = '.' :: d :: tail → False) :
    (rest.head? == some '.' && rest[1]?.any Char.isDigit) = false := by
  match rest with
  | [] | [_] => exact Bool.and_false _
  | c :: d :: tail =>
      have hc : c ≠ '.' := fun hc => h d tail (by rw [hc])
      simp [hc]

end Piece

/-- What a sweep does from the first character of a piece on, by what this character is. -/
inductive Sweep.Begins (fuel : Nat) : Char → Sweep Unit → Prop
  | newline : Begins fuel '\n' (note .nextLine)
  | blank {c : Char} : c ≠ '\n' → Piece.isBlank c = true → Begins fuel c (pure ())
  | punct {c : Char} {p : Punct} :
      Piece.single? c = some p → Piece.withEqual? c = none → c ≠ '/' → Begins fuel c (addPunct p)
  | either {c : Char} {matched otherwise : Punct} :
      Piece.withEqual? c = some matched → Piece.single? c = some otherwise →
      Begins fuel c (addEither '=' matched otherwise)
  | slash : Begins fuel '/' (slash fuel)
  | quote : Begins fuel '"' (string fuel)
  | digit {c : Char} : c.isDigit = true → Begins fuel c (number fuel)
  | letter {c : Char} : Piece.startsWord c = true → Begins fuel c (word fuel)
  | stray {c : Char} :
      c ≠ '\n' → (∀ cs, Piece.next c cs = (.stray c, cs)) →
      Begins fuel c (addProblem (.strayCharacter c))

/-- Every character is one of those, and the last kind is what is left. -/
theorem Sweep.begins_piece (fuel : Nat) (c : Char) : Begins fuel c (piece fuel c) := by
  unfold piece
  split
  all_goals try first
    | exact .newline
    | exact .blank (by decide) rfl
    | exact .punct rfl rfl (by decide)
    | exact .either rfl rfl
    | exact .slash
    | exact .quote
  split
  · next hdigit => exact .digit hdigit
  · next hdigit =>
    split
    · next hword => exact .letter hword
    · next hword =>
      refine .stray (by assumption) fun cs => ?_
      simp_all [Piece.next, Piece.isBlank, Piece.mark, Piece.single?, Piece.withEqual?]

namespace Findings

/-- The findings behind a piece. -/
def after (F : Findings) (p : Piece) : Findings :=
  let found := p.find F.lexicon
  let G : Findings := { F.past p.text with lexicon := found.2 }
  match found.1 with
  | .skipped => G
  | .token kind => G.addToken kind (String.ofList p.text)
  | .problem problem => G.addProblem problem

/-- Piece by piece, the findings come to those of a scan. -/
theorem foldl_after (F : Findings) (ps : List Piece) :
    let G := ps.foldl after F
    let scanned := scanPieces F.lexicon F.line ps
    F.tokens ++ scanned.tokens = G.tokens ++ [⟨.eof, "", G.line⟩] ∧
      F.diagnostics ++ scanned.diagnostics = G.diagnostics ∧ scanned.lexicon = G.lexicon := by
  induction ps generalizing F with
  | nil => exact ⟨rfl, List.append_nil _, rfl⟩
  | cons p ps ih =>
      have ih := ih (F.after p)
      rw [List.foldl_cons, scanPieces]
      rw [after] at ih ⊢
      cases hfound : (p.find F.lexicon).1 with
      | skipped =>
          rw [hfound] at ih
          exact ih
      | token kind =>
          rw [hfound] at ih
          simpa [addToken, past] using ih
      | problem problem =>
          rw [hfound] at ih
          simpa [addProblem, past] using ih

end Findings

namespace Window

variable {source : String} {F : Findings} {before taken rest cs : List Char} {c : Char} {w : Window}
  {fuel : Nat}

/-- The window is on a piece and has taken all of it. -/
def IsBehind (source : String) (F : Findings) (before : List Char) (cut : Piece × List Char) :
    Window → Prop :=
  Stands source (F.after cut.1) before cut.1.text cut.2

namespace Stands

/-! ## Punctuation -/

/-- A mark that was taken whole is a token. -/
theorem addPunct {p : Punct} (h : Stands source F before (Piece.punct p).text rest w) :
    Yields source (Sweep.addPunct p) w () (IsBehind source F before (.punct p, rest)) := by
  have hlines : F.past (Piece.punct p).text = F := F.past_of_notMem (Piece.newline_notMem_punct p)
  have hafter : F.after (.punct p) = (F.past (Piece.punct p).text).addToken (.punct p) _ := rfl
  rw [IsBehind, hafter, hlines]
  exact h.addToken _

/-- Whether the mark has a second character is seen at the next one. -/
theorem addEither (h : Stands source F before [c] cs w) {matched otherwise : Punct}
    (hmatched : Piece.withEqual? c = some matched) (hotherwise : Piece.single? c = some otherwise) :
    Yields source (Sweep.addEither '=' matched otherwise) w ()
      (IsBehind source F before (Piece.mark c cs)) := by
  by_cases hhead : cs.head? = some '='
  · obtain ⟨tail, rfl⟩ := List.head?_eq_some_iff.mp hhead
    have hmark : Piece.mark c ('=' :: tail) = (.punct matched, tail) := by
      simp only [Piece.mark, hmatched]
    rw [hmark]
    refine h.eat.bind fun w hw => ?_
    rw [List.singleton_append, ← Piece.text_withEqual? hmatched] at hw
    exact hw.addPunct
  · have hmark : Piece.mark c cs = (.punct otherwise, cs) := by
      unfold Piece.mark
      split
      · next heq => exact absurd rfl hhead
      · rw [hotherwise, Option.elim_some]
    rw [hmark]
    refine (h.eat_other hhead).bind fun w hw => ?_
    rw [← Piece.text_single? hotherwise] at hw
    exact hw.addPunct

/-! ## Numbers -/

/-- Whether a point with a digit behind it is next needs a look at two characters. -/
theorem fractionNext (h : Stands source F before taken rest w) :
    Yields source Sweep.fractionNext w (rest.head? == some '.' && rest[1]?.any Char.isDigit)
      (Stands source F before taken rest) := by
  refine h.peek.bind fun w hw => ?_
  split
  · next hpoint =>
    rw [hpoint, BEq.rfl, Bool.true_and]
    exact hw.peekNext.bind fun w hw => .pure hw
  · next hpoint =>
    rw [beq_eq_false_iff_ne.mpr hpoint, Bool.false_and]
    exact .pure hw

section

variable {whole fraction : List Char} (hne : whole ≠ []) (hwhole : ∀ c ∈ whole, c.isDigit = true)
  (hfraction : ∀ c ∈ fraction, c.isDigit = true)
include hne hwhole hfraction

/-- The text of a number spells it, so zero is never taken instead. -/
theorem readNumber (h : Stands source F before taken rest w) :
    Yields source (Sweep.readNumber (String.ofList (Piece.number whole fraction).text)) w
      (.ofDecimal (.ofParts whole fraction)) (Stands source F before taken rest) := by
  let text := String.ofList (Piece.number whole fraction).text
  have hsound : (Event.reading text).Sound source := by
    rw [Event.Sound, String.toList_ofList]
    exact Piece.numeral_text hne hwhole hfraction
  refine (h.putDown hsound).bind fun w hw => ?_
  rw [Piece.ofText?_text hne hwhole hfraction]
  exact .pure hw

/-- A number that was taken whole is read back from its text. -/
theorem addNumber (h : Stands source F before (Piece.number whole fraction).text rest w) :
    Yields source Sweep.addNumber w ()
      (IsBehind source F before (.number whole fraction, rest)) := by
  have hlines : F.past (Piece.number whole fraction).text = F :=
    F.past_of_notMem (Piece.newline_notMem_number hwhole hfraction)
  have hafter : F.after (.number whole fraction) =
      (F.past (Piece.number whole fraction).text).addToken
        (.number (.ofDecimal (.ofParts whole fraction))) _ := rfl
  rw [IsBehind, hafter, hlines]
  exact h.lexeme.bind fun w hw =>
    (hw.readNumber hne hwhole hfraction).bind fun w hw => hw.addToken _

end

/-- A number is taken with its fraction, if it has one: what is behind the point decides whether the
point is taken. -/
theorem number (h : Stands source F before [c] cs w) (hc : c.isDigit = true)
    (hfuel : cs.length < fuel) :
    Yields source (Sweep.number fuel) w () (IsBehind source F before (Piece.numeral c cs)) := by
  have hne : c :: cs.takeWhile Char.isDigit ≠ [] := List.cons_ne_nil _ _
  have hwhole : ∀ d ∈ c :: cs.takeWhile Char.isDigit, d.isDigit = true :=
    List.forall_mem_cons.mpr ⟨hc, fun _ => List.mem_takeWhile_imp⟩
  have hlength : (cs.dropWhile Char.isDigit).length ≤ cs.length :=
    (List.dropWhile_sublist _).length_le
  refine (h.eatWhile Char.isDigit hfuel).bind fun w hw => ?_
  rw [List.singleton_append] at hw
  unfold Piece.numeral
  split
  · next d tail hrest =>
    rw [hrest] at hw hlength
    have hnext : Yields source Sweep.fractionNext w d.isDigit _ := hw.fractionNext
    refine hnext.bind fun w hw => ?_
    cases hd : d.isDigit with
    | true =>
        have hfraction : ∀ e ∈ d :: tail.takeWhile Char.isDigit, e.isDigit = true :=
          List.forall_mem_cons.mpr ⟨hd, fun _ => List.mem_takeWhile_imp⟩
        refine hw.advance.bind fun w hw => ?_
        have htail : (d :: tail).length < fuel := Nat.lt_of_lt_of_le hlength (Nat.le_of_lt hfuel)
        refine (hw.eatWhile Char.isDigit htail).bind fun w hw => ?_
        rw [List.takeWhile_cons_of_pos hd, List.dropWhile_cons_of_pos hd, List.append_assoc] at hw
        exact addNumber hne hwhole hfraction hw
    | false => exact addNumber hne hwhole nofun hw
  · next hother =>
    refine hw.fractionNext.bind fun w hw => ?_
    rw [Piece.fraction_eq_false hother, if_neg (by decide)]
    exact addNumber hne hwhole nofun hw

/-! ## Words and strings -/

/-- A word is taken whole, and is a keyword or a name. -/
theorem word (h : Stands source F before [c] cs w) (hc : Piece.startsWord c = true)
    (hfuel : cs.length < fuel) :
    Yields source (Sweep.word fuel) w ()
      (IsBehind source F before
        (.word (c :: cs.takeWhile Piece.continuesWord), cs.dropWhile Piece.continuesWord)) := by
  let letters := c :: cs.takeWhile Piece.continuesWord
  have hlines : F.past letters = F :=
    F.past_of_notMem (Piece.newline_notMem_word hc fun _ => List.mem_takeWhile_imp)
  have hafter : F.after (.word letters) =
      let found := (F.past letters).lexicon.intern (String.ofList letters)
      { F.past letters with lexicon := found.2 }.addToken found.1.kind
        (String.ofList letters) := rfl
  rw [IsBehind, hafter, hlines]
  exact (h.eatWhile _ hfuel).bind fun w hw => hw.lexeme.bind fun w hw =>
    (hw.intern _).bind fun w hw => hw.addToken _

/-- A string goes on to the next quote, or to the end of the source. -/
theorem seekQuote (h : Stands source F before taken cs w) (hfuel : cs.length < fuel) :
    Yields source (Sweep.seekQuote fuel) w (!(cs.dropWhile (· != '"')).isEmpty)
      (Stands source (F.past (cs.takeWhile (· != '"'))) before (taken ++ cs.takeWhile (· != '"'))
        (cs.dropWhile (· != '"'))) := by
  induction cs generalizing F taken w fuel with
  | nil =>
      obtain ⟨fuel, rfl⟩ := Nat.exists_eq_add_one.mpr (Nat.zero_lt_of_lt hfuel)
      refine h.peek.bind fun w hw => ?_
      rw [List.takeWhile_nil, List.append_nil, F.past_nil]
      exact .pure hw
  | cons c cs ih =>
      obtain ⟨fuel, rfl⟩ := Nat.exists_eq_add_one.mpr (Nat.zero_lt_of_lt hfuel)
      refine h.peek.bind fun w hw => ?_
      dsimp only [List.head?_cons]
      split
      · next hc =>
        subst hc
        rw [List.takeWhile_cons_of_neg (by decide), List.dropWhile_cons_of_neg (by decide),
          List.append_nil, F.past_nil]
        exact .pure hw
      · next hc =>
        have hgo : (c != '"') = true := by simpa using hc
        rw [List.takeWhile_cons_of_pos (p := (· != '"')) hgo,
          List.dropWhile_cons_of_pos (p := (· != '"')) hgo, ← List.singleton_append, F.past_append,
          ← List.append_assoc]
        exact (hw.countLine c).bind fun w hw => hw.advance.bind fun w hw =>
          ih hw (Nat.lt_of_succ_lt_succ hfuel)

/-- Behind the closing quote, the lexeme has a quote at each end, and these are taken off. -/
theorem string (h : Stands source F before ['"'] cs w) (hfuel : cs.length < fuel) :
    Yields source (Sweep.string fuel) w () (IsBehind source F before (Piece.quoted cs)) := by
  refine (h.seekQuote hfuel).bind fun w hw => ?_
  have hsplit := List.takeWhile_append_dropWhile (p := (· != '"')) (l := cs)
  have hstop := Piece.head_dropWhile (p := (· != '"')) cs
  unfold Piece.quoted
  generalize cs.takeWhile (· != '"') = body at hw hsplit ⊢
  cases hrest : cs.dropWhile (· != '"') with
  | nil =>
      rw [hrest] at hw hsplit
      obtain rfl : body = cs := by simpa using hsplit
      have hafter : F.after (.openString body) =
          (F.past (['"'] ++ body)).addProblem .unterminatedString := rfl
      rw [IsBehind, hafter, F.past_append, F.past_of_notMem (by decide)]
      exact hw.note _
  | cons c rest =>
      rw [hrest] at hw hstop
      obtain rfl : c = '"' := by simpa using hstop c rfl
      have htext : (String.ofList (['"'] ++ body ++ ['"'])).toList = '"' :: (body ++ ['"']) :=
        String.toList_ofList
      have hcut := Text.stretch?_inQuotes htext
      let quoted := String.ofList (['"'] ++ body ++ ['"'])
      have hsound : (Event.unquoting quoted).Sound source :=
        ⟨Text.inQuotes_of_toList htext, by rw [hcut]; rfl⟩
      have hafter : F.after (.string body) =
          (F.past (['"'] ++ (body ++ ['"']))).addToken (.string (String.ofList body)) _ := rfl
      rw [IsBehind, hafter, F.past_append, F.past_of_notMem (by decide), F.past_append,
        (F.past body).past_of_notMem (by decide)]
      exact hw.advance.bind fun w hw => hw.lexeme.bind fun w hw =>
        (hw.putDown hsound).bind fun w hw => (hw.cut hcut).bind fun w hw => hw.addToken _

/-! ## Comments -/

/-- A comment to the end of its line leaves the newline where it is. -/
theorem lineComment (h : Stands source F before ['/', '/'] cs w) (hfuel : cs.length < fuel) :
    Yields source (Sweep.lineComment fuel) w ()
      (IsBehind source F before
        (.lineComment (cs.takeWhile (· != '\n')), cs.dropWhile (· != '\n'))) := by
  have hbody : '\n' ∉ cs.takeWhile (· != '\n') := fun hmem =>
    absurd (List.mem_takeWhile_imp hmem) (by decide)
  have hafter : F.after (.lineComment (cs.takeWhile (· != '\n'))) =
      F.past ('/' :: '/' :: cs.takeWhile (· != '\n')) := rfl
  rw [IsBehind, hafter, F.past_of_notMem (by simpa using hbody)]
  exact h.eatWhile _ hfuel

/-- The window is behind the marks that close all open comments, or at the end of the source if
there are none. -/
def IsClosed (source : String) (F : Findings) (before taken cs : List Char) :
    Option (List Char × List Char) → Window → Prop
  | some (body, rest) => Stands source (F.past body) before (taken ++ body) rest
  | none => Stands source ((F.past cs).addProblem .unterminatedComment) before (taken ++ cs) []

/-- What stands in front of a comment that is closed belongs to it. -/
theorem IsClosed.prepend {front : List Char} {closed : Option (List Char × List Char)}
    (h : IsClosed source (F.past front) before (taken ++ front) cs closed w) :
    IsClosed source F before taken (front ++ cs) (closed.map fun (b, r) => (front ++ b, r)) w := by
  cases closed with
  | none =>
      rw [IsClosed, List.append_assoc, ← F.past_append] at h
      exact h
  | some closed =>
      rw [IsClosed, List.append_assoc, ← F.past_append] at h
      exact h

/-- Both characters of a mark are taken. -/
theorem advanceTwo {d : Char} {k : Sweep Unit} {Q : Window → Prop}
    (h : Stands source F before taken (c :: d :: cs) w)
    (hk : ∀ w, Stands source F before (taken ++ [c, d]) cs w → Yields source k w () Q) :
    Yields source (do let _ ← Sweep.advance; let _ ← Sweep.advance; k) w () Q := by
  refine h.advance.bind fun w hw => hw.advance.bind fun w hw => hk w ?_
  rwa [List.append_assoc] at hw

/-- Lines are counted on the way, so the induction is along the search for the marks. -/
theorem blockComment {depth : Int32} (h : Stands source F before taken cs w)
    (hfuel : cs.length < fuel) :
    Yields source (Sweep.blockComment depth fuel) w ()
      (IsClosed source F before taken cs (Piece.closeComment depth cs)) := by
  have hpositive : 0 < fuel := Nat.zero_lt_of_lt hfuel
  fun_induction Piece.closeComment depth cs generalizing F taken w fuel with
  | case1 depth hdepth =>
      obtain ⟨fuel, rfl⟩ := Nat.exists_eq_add_one.mpr hpositive
      rw [Sweep.blockComment, if_pos hdepth]
      refine h.peek.bind fun w hw => hw.peekNext.bind fun w hw => ?_
      rw [IsClosed, List.append_nil, F.past_nil]
      exact hw.note _
  | case2 depth hdepth cs ih =>
      obtain ⟨fuel, rfl⟩ := Nat.exists_eq_add_one.mpr hpositive
      have hshorter : cs.length < fuel := Nat.lt_of_succ_lt_succ (Nat.lt_of_succ_lt hfuel)
      rw [Sweep.blockComment, if_pos hdepth]
      refine h.peek.bind fun w hw => hw.peekNext.bind fun w hw => hw.advanceTwo fun w hw => ?_
      rw [← F.past_of_notMem (by decide : '\n' ∉ ['/', '*'])] at hw
      exact (ih hw hshorter (Nat.zero_lt_of_lt hshorter)).mono fun _ => .prepend
  | case3 depth hdepth cs ih =>
      obtain ⟨fuel, rfl⟩ := Nat.exists_eq_add_one.mpr hpositive
      have hshorter : cs.length < fuel := Nat.lt_of_succ_lt_succ (Nat.lt_of_succ_lt hfuel)
      rw [Sweep.blockComment, if_pos hdepth]
      refine h.peek.bind fun w hw => hw.peekNext.bind fun w hw => hw.advanceTwo fun w hw => ?_
      rw [← F.past_of_notMem (by decide : '\n' ∉ ['*', '/'])] at hw
      exact (ih hw hshorter (Nat.zero_lt_of_lt hshorter)).mono fun _ => .prepend
  | case4 depth hdepth c cs hopen hclose ih =>
      obtain ⟨fuel, rfl⟩ := Nat.exists_eq_add_one.mpr hpositive
      have hshorter : cs.length < fuel := Nat.lt_of_succ_lt_succ hfuel
      rw [Sweep.blockComment, if_pos hdepth]
      refine h.peek.bind fun w hw => hw.peekNext.bind fun w hw => ?_
      split
      · next hfirst => cases hfirst
      · next hfirst hsecond =>
        cases hfirst
        obtain ⟨tail, rfl⟩ := List.head?_eq_some_iff.mp (List.head?_eq_getElem?.trans hsecond)
        exact absurd rfl (hopen tail rfl)
      · next hfirst hsecond =>
        cases hfirst
        obtain ⟨tail, rfl⟩ := List.head?_eq_some_iff.mp (List.head?_eq_getElem?.trans hsecond)
        exact absurd rfl (hclose tail rfl)
      · next hfirst _ _ =>
        cases hfirst
        exact (hw.countLine c).bind fun w hw => hw.advance.bind fun w hw =>
          (ih hw hshorter (Nat.zero_lt_of_lt hshorter)).mono fun _ => .prepend
  | case5 depth cs hdepth =>
      obtain ⟨fuel, rfl⟩ := Nat.exists_eq_add_one.mpr hpositive
      rw [Sweep.blockComment, if_neg hdepth]
      rw [IsClosed, List.append_nil, F.past_nil]
      exact .pure h

/-- What a slash begins is seen at the character behind it. -/
theorem slash (h : Stands source F before ['/'] cs w) (hfuel : cs.length < fuel) :
    Yields source (Sweep.slash fuel) w () (IsBehind source F before (Piece.slashed cs)) := by
  unfold Piece.slashed
  split
  · next rest =>
    exact h.eat.bind fun w hw => hw.lineComment (Nat.lt_of_succ_lt hfuel)
  · next rest =>
    refine (h.eat_other (by simp)).bind fun w hw => hw.eat.bind fun w hw => ?_
    refine (hw.blockComment (Nat.lt_of_succ_lt hfuel)).mono fun w hw => ?_
    cases hclosed : Piece.closeComment 1 rest with
    | none =>
        rw [hclosed] at hw
        have hafter : F.after (.openComment rest) =
            (F.past (['/', '*'] ++ rest)).addProblem .unterminatedComment := rfl
        rw [IsBehind, hafter, F.past_append, F.past_of_notMem (by decide)]
        exact hw
    | some closed =>
        rw [hclosed] at hw
        have hafter : F.after (.blockComment closed.1) = F.past (['/', '*'] ++ closed.1) := rfl
        rw [IsBehind, hafter, F.past_append, F.past_of_notMem (by decide)]
        exact hw
  · next hline hblock =>
    have hhead : ∀ {d}, (∀ rest, cs = d :: rest → False) → cs.head? ≠ some d := by
      intro d hne hhead
      obtain ⟨rest, rfl⟩ := List.head?_eq_some_iff.mp hhead
      exact hne rest rfl
    refine (h.eat_other (hhead hline)).bind fun w hw => ?_
    exact (hw.eat_other (hhead hblock)).bind fun w hw => hw.addPunct

/-! ## Pieces -/

/-- A blank leaves nothing behind. -/
theorem blank (h : Stands source F before [c] cs w) (hc : c ≠ '\n') :
    Yields source (pure ()) w () (IsBehind source F before (.blank c, cs)) := by
  have hafter : F.after (.blank c) = F.past [c] := rfl
  rw [IsBehind, hafter, F.past_of_notMem (by simpa using hc.symm)]
  exact .pure h

/-- A character that fits nowhere is reported. -/
theorem stray (h : Stands source F before [c] cs w) (hc : c ≠ '\n') :
    Yields source (Sweep.addProblem (.strayCharacter c)) w ()
      (IsBehind source F before (.stray c, cs)) := by
  have hafter : F.after (.stray c) = (F.past [c]).addProblem (.strayCharacter c) := rfl
  rw [IsBehind, hafter, F.past_of_notMem (by simpa using hc.symm)]
  exact h.note _

/-- Whatever the first character is, the sweep goes to the end of the piece which it begins. -/
theorem piece (h : Stands source F before [c] cs w) (hfuel : cs.length < fuel) :
    Yields source (Sweep.piece fuel c) w () (IsBehind source F before (Piece.next c cs)) := by
  have hbegins := Sweep.begins_piece fuel c
  generalize Sweep.piece fuel c = sweep at hbegins
  cases hbegins with
  | newline => exact h.note .nextLine
  | blank hnewline hblank =>
      rw [Piece.next, if_pos hblank]
      exact h.blank hnewline
  | @punct _ p hsingle hequal hslash =>
      have hmark : Piece.mark c cs = (.punct p, cs) := by
        simp only [Piece.mark, hequal, hsingle, Option.elim_some]
      rw [Piece.next_of_single? cs (Option.isSome_of_eq_some hsingle) hslash, hmark]
      rw [← Piece.text_single? hsingle] at h
      exact h.addPunct
  | either hequal hsingle =>
      have hslash : c ≠ '/' := by
        rintro rfl
        cases hequal
      rw [Piece.next_of_single? cs (Option.isSome_of_eq_some hsingle) hslash]
      exact h.addEither hequal hsingle
  | slash => exact h.slash hfuel
  | quote => exact h.string hfuel
  | digit hdigit =>
      rw [Piece.next_of_digit cs hdigit]
      exact h.number hdigit hfuel
  | letter hword =>
      rw [Piece.next_of_startsWord cs hword]
      exact h.word hword hfuel
  | stray hnewline hnext =>
      rw [hnext]
      exact h.stray hnewline

/-- Piece by piece, the window goes to the end of the source. -/
theorem pieces (h : Stands source F before [] cs w) (hfuel : cs.length < fuel) :
    Yields source (Sweep.pieces fuel) w ()
      (Stands source (((Lox.pieces cs).foldl Findings.after F).addToken .eof "") source.toList
        [] []) := by
  fun_induction Lox.pieces cs generalizing F before w fuel with
  | case1 =>
      obtain ⟨fuel, rfl⟩ := Nat.exists_eq_add_one.mpr (Nat.zero_lt_of_lt hfuel)
      obtain rfl : source.toList = before := by simpa using h.text
      exact h.advance_nil.bind fun w hw => hw.note _
  | case2 c cs ih =>
      obtain ⟨fuel, rfl⟩ := Nat.exists_eq_add_one.mpr (Nat.zero_lt_of_lt hfuel)
      have hcs : cs.length < fuel := Nat.lt_of_succ_lt_succ hfuel
      have hrest : (Piece.next c cs).2.length < fuel :=
        Nat.lt_of_le_of_lt (Nat.le_of_lt_succ (Piece.length_next_lt c cs)) hcs
      exact h.advance.bind fun w hw => (hw.piece hcs).bind fun w hw =>
        hw.beginLexeme.bind fun w hw => ih hw hrest

end Stands

end Window

/-- Whatever characters a source is made of, scanning it by its bytes ends, and comes to the same as
scanning it by its characters.  It does not go astray, so all that is cut out can be cut out: the
offsets are always in order, in the source, and on boundaries.  They stop at the end of the source.
Quotes are only taken off a lexeme that has one at each end, and every text from which a number is
to be read spells one, so that zero is never taken instead. -/
theorem offsets_stay_on_boundaries (lexicon : Lexicon) (source : String) (more : Nat) :
    ∃ w : Window,
      Window.scan (source.length + 1 + more) lexicon source = .done () w ∧
      ⟨w.tokens, w.diagnostics, w.lexicon⟩ = scan lexicon source ∧
      w.start = source.utf8ByteSize ∧ w.current = source.utf8ByteSize ∧
      ∀ e ∈ w.events, e.Sound source := by
  have hfuel : source.toList.length < source.length + 1 + more := by
    rw [String.length_toList]
    omega
  obtain ⟨w, hdone, hw⟩ := (Window.stands_initial lexicon source).pieces hfuel
  obtain ⟨htokens, hdiagnostics, hlexicon⟩ :=
    Findings.foldl_after ⟨lexicon, 1, [], []⟩ (pieces source.toList)
  have hend : Text.offset source.toList = source.utf8ByteSize := Text.offset_toList source
  refine ⟨w, hdone, ?_, ?_, ?_, hw.events⟩
  · rw [hw.findings, Findings.addToken, ← htokens, ← hdiagnostics, ← hlexicon]
    rfl
  · rw [hw.start, hend]
  · rw [hw.current, List.append_nil, hend]

/-- A character of two bytes, between the quotes of a string and on its own. -/
example :
    (match Window.scan 9 .reserved "\"é\"é" with
      | .done _ w => w.events.reverse
      | _ => []) =
      [.stood 0 0, .stood 0 1, .stood 0 3, .stood 0 4, .unquoting "\"é\"", .stood 4 4, .stood 4 6,
        .stood 6 6] := by
  decide +kernel

end Lox
