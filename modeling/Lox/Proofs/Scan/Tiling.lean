import Lox.Proofs.Scan.Nesting
import Mathlib.Data.List.TakeWhile

/-!
# The tiling of a source text

What a piece may look like is said here without the functions that cut a text: each kind of piece
by the characters it is made of and by what may follow it.  A tiling is a text that pieces make up,
each of which fits in front of the rest.  Main statement: every text has exactly one tiling, and
`pieces` finds it.  So no token can be made longer with the characters behind it.
-/

namespace Lox

namespace Piece

/-! ## Pieces that fit -/

/-- The piece is of the kind that its name says and ends where it has to, with `rest` behind it. -/
inductive Fits : Piece → List Char → Prop
  | blank {c : Char} {rest : List Char} : c ∈ [' ', '\t', '\r', '\n'] → Fits (.blank c) rest
  | lineComment {body rest : List Char} :
      '\n' ∉ body → (∀ c ∈ rest.head?, c = '\n') → Fits (.lineComment body) rest
  | blockComment {body rest : List Char} : Enclosed room body → Fits (.blockComment body) rest
  | overrun {body rest : List Char} : Overrun room body → Fits (.blockComment body) rest
  | openComment {body : List Char} :
      (∀ inner, inner <+: body → ¬Enclosed room inner ∧ ¬Overrun room inner) →
      Fits (.openComment body) []
  | string {body rest : List Char} : '"' ∉ body → Fits (.string body) rest
  | openString {body : List Char} : '"' ∉ body → Fits (.openString body) []
  | number {whole fraction rest : List Char} :
      whole ≠ [] → (∀ c ∈ whole, c.isDigit = true) → (∀ c ∈ fraction, c.isDigit = true) →
      (∀ c ∈ rest.head?, c.isDigit = false) →
      (fraction = [] → ∀ d, ['.', d] <+: rest → d.isDigit = false) →
      Fits (.number whole fraction) rest
  | word {first : Char} {letters rest : List Char} :
      (first.isAlpha = true ∨ first = '_') → (∀ c ∈ letters, c.isAlphanum = true ∨ c = '_') →
      (∀ c ∈ rest.head?, ¬(c.isAlphanum = true ∨ c = '_')) → Fits (.word (first :: letters)) rest
  | punct {p : Punct} {rest : List Char} :
      (∀ q : Punct, q.spelling.toList <+: p.spelling.toList ++ rest →
        q.spelling.length ≤ p.spelling.length) →
      (p = .slash → ∀ c ∈ rest.head?, c ≠ '/' ∧ c ≠ '*') → Fits (.punct p) rest
  | stray {c : Char} {rest : List Char} :
      c ∉ [' ', '\t', '\r', '\n'] → ¬(c.isAlpha = true ∨ c = '_') → c.isDigit = false → c ≠ '"' →
      (∀ p : Punct, p.spelling.toList.head? ≠ some c) → Fits (.stray c) rest

/-! ## Classes of characters -/

theorem isBlank_iff {c : Char} : isBlank c = true ↔ c ∈ [' ', '\t', '\r', '\n'] := by
  simp [isBlank, or_assoc]

theorem startsWord_iff {c : Char} : startsWord c = true ↔ c.isAlpha = true ∨ c = '_' := by
  simp [startsWord]

theorem continuesWord_iff {c : Char} : continuesWord c = true ↔ c.isAlphanum = true ∨ c = '_' := by
  simp [continuesWord]

/-- Punctuation is one of the single characters, or such a character with `=` behind it. -/
theorem spelling_cases (q : Punct) :
    (∃ c, q.spelling.toList = [c] ∧ single? c = some q) ∨
      ∃ c, q.spelling.toList = [c, '='] ∧ withEqual? c = some q ∧ (single? c).isSome = true := by
  cases q <;> first | exact .inl ⟨_, rfl, rfl⟩ | exact .inr ⟨_, rfl, rfl, rfl⟩

/-- No punctuation begins like a piece of another kind. -/
theorem class_of_single? {c : Char} (h : (single? c).isSome = true) :
    isBlank c = false ∧ startsWord c = false ∧ c.isDigit = false ∧ c ≠ '"' := by
  unfold single? at h
  split at h <;> first | decide | cases h

/-- Punctuation is one character or two. -/
theorem length_spelling (q : Punct) :
    1 ≤ q.spelling.toList.length ∧ q.spelling.toList.length ≤ 2 := by
  cases q <;> decide

/-- There is no newline in punctuation. -/
theorem newline_notMem_punct (p : Punct) : '\n' ∉ (punct p).text := by
  cases p <;> decide

/-- Nor is there one in a number. -/
theorem newline_notMem_number {whole fraction : List Char} (hwhole : ∀ c ∈ whole, c.isDigit = true)
    (hfraction : ∀ c ∈ fraction, c.isDigit = true) : '\n' ∉ (number whole fraction).text := by
  have hw : '\n' ∉ whole := fun hmem => absurd (hwhole _ hmem) (by decide)
  have hf : '\n' ∉ fraction := fun hmem => absurd (hfraction _ hmem) (by decide)
  rw [text]
  split
  · exact hw
  · simp [hw, hf]

/-- Nor is there one in a word. -/
theorem newline_notMem_word {first : Char} {letters : List Char} (hfirst : startsWord first = true)
    (hletters : ∀ c ∈ letters, continuesWord c = true) :
    '\n' ∉ (word (first :: letters)).text := by
  rw [text, List.mem_cons, not_or]
  constructor
  · rintro rfl
    exact absurd hfirst (by decide)
  · intro hmem
    exact absurd (hletters _ hmem) (by decide)

/-- A character is one of the single ones if some punctuation begins with it. -/
theorem isSome_single?_iff {c : Char} :
    (single? c).isSome = true ↔ ∃ p : Punct, p.spelling.toList.head? = some c := by
  constructor
  · intro h
    obtain ⟨p, hp⟩ := Option.isSome_iff_exists.mp h
    have htext : p.spelling.toList = [c] := text_single? hp
    exact ⟨p, by rw [htext]; rfl⟩
  · rintro ⟨p, hp⟩
    rcases spelling_cases p with ⟨d, hd, hsingle⟩ | ⟨d, hd, -, hsingle⟩
    · rw [hd] at hp
      cases hp
      rw [hsingle]
      rfl
    · rw [hd] at hp
      cases hp
      exact hsingle

section

variable {p : Char → Bool}

/-- Behind the longest run of a class there is no character of it. -/
theorem head_dropWhile (cs : List Char) : ∀ c ∈ (cs.dropWhile p).head?, p c = false := by
  intro c hc
  have h := List.head?_dropWhile_not p cs
  rw [hc] at h
  simpa using h

/-- A run of characters of a class, up to the first that is not, is what `takeWhile` takes. -/
theorem takeWhile_append_of_head {run : List Char} (rest : List Char)
    (hrun : ∀ c ∈ run, p c = true) (hrest : ∀ c ∈ rest.head?, p c = false) :
    (run ++ rest).takeWhile p = run ∧ (run ++ rest).dropWhile p = rest := by
  rw [List.takeWhile_append_of_pos hrun, List.dropWhile_append_of_pos hrun]
  cases rest with
  | nil => simp
  | cons c rest => simp [hrest c rfl]

end

/-! ## What is cut off fits -/

/-- The digits are taken as far as they go, and a point with them only if a digit follows. -/
theorem fits_numeral {c : Char} (cs : List Char) (hc : c.isDigit = true) :
    (numeral c cs).1.Fits (numeral c cs).2 := by
  have hwhole : ∀ d ∈ c :: cs.takeWhile Char.isDigit, d.isDigit = true :=
    List.forall_mem_cons.mpr ⟨hc, fun _ => List.mem_takeWhile_imp⟩
  have hhead := head_dropWhile (p := Char.isDigit) cs
  unfold numeral
  split
  · next d rest hrest =>
    split
    · next hd =>
      refine .number (List.cons_ne_nil _ _) hwhole ?_ (head_dropWhile rest) nofun
      exact List.forall_mem_cons.mpr ⟨hd, fun _ => List.mem_takeWhile_imp⟩
    · next hd =>
      rw [hrest] at hhead
      refine .number (List.cons_ne_nil _ _) hwhole nofun hhead ?_
      rintro - e ⟨tail, ⟨⟩⟩
      simpa using hd
  · next hrest =>
    refine .number (List.cons_ne_nil _ _) hwhole nofun hhead ?_
    rintro - d ⟨tail, htail⟩
    exact absurd htail.symm (hrest d tail)

/-- A string goes to the next quote, or else to the end. -/
theorem fits_quoted (cs : List Char) : (quoted cs).1.Fits (quoted cs).2 := by
  unfold quoted
  split
  · next hrest =>
    have htake := List.takeWhile_append_dropWhile (p := (· != '"')) (l := cs)
    rw [hrest, List.append_nil] at htake
    refine .openString ?_
    intro hquote
    rw [← htake] at hquote
    have := List.mem_takeWhile_imp hquote
    simp at this
  · refine .string ?_
    intro hquote
    have := List.mem_takeWhile_imp hquote
    simp at this

/-- A comment goes to the end of its line, or to the mark that closes it, or else to the end. -/
theorem fits_slashed (cs : List Char) : (slashed cs).1.Fits (slashed cs).2 := by
  unfold slashed
  split
  · next rest =>
    refine .lineComment ?_ ?_
    · intro hnewline
      have := List.mem_takeWhile_imp hnewline
      simp at this
    · intro c hc
      simpa using head_dropWhile rest c hc
  · split
    · next hclose =>
      rcases (closeComment_eq_some.mp hclose).1 with henclosed | hover
      · exact .blockComment henclosed
      · exact .overrun hover
    · next hclose => exact .openComment (closeComment_eq_none.mp hclose)
  · next hline hblock =>
    refine .punct ?_ ?_
    · intro q hq
      rcases spelling_cases q with ⟨c, hc, -⟩ | ⟨c, hc, hequal, -⟩
      · rw [← String.length_toList, hc]
        exact Nat.le_refl 1
      · rw [hc] at hq
        obtain ⟨rfl, -⟩ := List.cons_prefix_cons.mp hq
        cases hequal
    · rintro - c hc
      cases cs with
      | nil => cases hc
      | cons d cs =>
          cases hc
          exact ⟨fun h => hline cs (by rw [h]), fun h => hblock cs (by rw [h])⟩

/-- The longest mark is taken, or none if there is none with the character. -/
theorem fits_mark {c : Char} {cs : List Char} (hblank : isBlank c = false)
    (hword : startsWord c = false) (hdigit : c.isDigit = false) (hquote : c ≠ '"')
    (hslash : c ≠ '/') : (mark c cs).1.Fits (mark c cs).2 := by
  unfold mark
  split
  · next p rest hp =>
    have htext : p.spelling.toList = [c, '='] := text_withEqual? hp
    refine .punct ?_ ?_
    · intro q _
      rw [← String.length_toList, ← String.length_toList, htext]
      rcases spelling_cases q with ⟨d, hd, -⟩ | ⟨d, hd, -⟩ <;> simp [hd]
    · rintro rfl
      cases htext
  · next hequal =>
    cases hsingle : single? c with
    | none =>
        refine .stray (mt isBlank_iff.mpr (by simp [hblank]))
          (mt startsWord_iff.mpr (by simp [hword])) hdigit hquote ?_
        intro p hp
        have := isSome_single?_iff.mpr ⟨p, hp⟩
        simp [hsingle] at this
    | some p =>
        have htext : p.spelling.toList = [c] := text_single? hsingle
        refine .punct ?_ ?_
        · intro q hq
          rw [← String.length_toList, ← String.length_toList, htext]
          rcases spelling_cases q with ⟨d, hd, -⟩ | ⟨d, hd, hwith, -⟩
          · simp [hd]
          · rw [hd, htext] at hq
            obtain ⟨rfl, tail, rfl⟩ := List.cons_prefix_cons.mp hq
            exact absurd rfl (hequal q tail hwith)
        · rintro rfl
          cases htext
          exact absurd rfl hslash

/-- The first piece of a text fits in front of the rest. -/
theorem fits_next (c : Char) (cs : List Char) : (next c cs).1.Fits (next c cs).2 := by
  unfold next
  split
  · next hblank => exact .blank (isBlank_iff.mp hblank)
  · next hblank =>
    split
    · next hword =>
      refine .word (startsWord_iff.mp hword) ?_ ?_
      · intro d hd
        exact continuesWord_iff.mp (List.mem_takeWhile_imp hd)
      · intro d hd
        rw [← continuesWord_iff, Bool.not_eq_true]
        exact head_dropWhile cs d hd
    · next hword =>
      split
      · next hdigit => exact fits_numeral cs hdigit
      · next hdigit =>
        split
        · exact fits_quoted cs
        · next hquote =>
          split
          · exact fits_slashed cs
          · next hslash =>
            rw [Bool.not_eq_true] at hblank hword hdigit
            exact fits_mark hblank hword hdigit hquote hslash

/-! ## What fits is cut off -/

/-- The classes are tried one after the other, but no two have a character in common. -/
theorem isBlank_eq_false_of_digit {c : Char} (h : c.isDigit = true) : isBlank c = false := by
  rw [Bool.eq_false_iff, Ne, isBlank_iff]
  intro hblank
  simp only [List.mem_cons, List.not_mem_nil, or_false] at hblank
  rcases hblank with rfl | rfl | rfl | rfl <;> cases h

theorem isBlank_eq_false_of_startsWord {c : Char} (h : startsWord c = true) :
    isBlank c = false := by
  rw [Bool.eq_false_iff, Ne, isBlank_iff]
  intro hblank
  simp only [List.mem_cons, List.not_mem_nil, or_false] at hblank
  rcases hblank with rfl | rfl | rfl | rfl <;> cases h

theorem startsWord_eq_false_of_digit {c : Char} (h : c.isDigit = true) : startsWord c = false := by
  rw [Bool.eq_false_iff, Ne, startsWord_iff]
  rintro (halpha | rfl)
  · delta Char.isAlpha Char.isUpper Char.isLower at halpha
    simp only [Char.isDigit, Bool.and_eq_true, Bool.or_eq_true, decide_eq_true_eq, ge_iff_le,
      UInt32.le_iff_toNat_le] at h halpha
    simp at h halpha
    omega
  · cases h

/-- A number that fits is the one that is cut off. -/
theorem numeral_append {c : Char} {whole fraction rest : List Char}
    (h : (number (c :: whole) fraction).Fits rest) :
    ∃ cs, (number (c :: whole) fraction).text ++ rest = c :: cs ∧
      numeral c cs = (number (c :: whole) fraction, rest) := by
  cases h with
  | number _ hwhole hfraction hrest hpoint =>
      have hwhole := (List.forall_mem_cons.mp hwhole).2
      cases fraction with
      | nil =>
          refine ⟨whole ++ rest, by simp [text], ?_⟩
          obtain ⟨htake, hdrop⟩ := takeWhile_append_of_head _ hwhole hrest
          rw [numeral, htake, hdrop]
          split
          · next d tail =>
            rw [if_neg]
            rw [hpoint rfl d ⟨tail, rfl⟩]
            exact Bool.false_ne_true
          · rfl
      | cons d fraction =>
          refine ⟨whole ++ '.' :: (d :: fraction ++ rest), by simp [text], ?_⟩
          obtain ⟨hd, hfraction⟩ := List.forall_mem_cons.mp hfraction
          obtain ⟨htake, hdrop⟩ := takeWhile_append_of_head
            ('.' :: (d :: fraction ++ rest)) hwhole (by rintro _ ⟨⟩; rfl)
          obtain ⟨htake', hdrop'⟩ := takeWhile_append_of_head _ hfraction hrest
          rw [numeral, htake, hdrop]
          simp only [List.cons_append, if_pos hd, htake', hdrop']

/-- A string that is closed is cut off at its quote. -/
theorem quoted_append {body rest : List Char} (h : '"' ∉ body) :
    quoted (body ++ '"' :: rest) = (string body, rest) := by
  have hbody : ∀ c ∈ body, (c != '"') = true := by
    intro c hc
    simpa using ne_of_mem_of_not_mem hc h
  obtain ⟨htake, hdrop⟩ := takeWhile_append_of_head ('"' :: rest) hbody
    (by rintro _ ⟨⟩; rfl)
  rw [quoted, htake, hdrop]

/-- A string that nothing closes goes to the end. -/
theorem quoted_open {body : List Char} (h : '"' ∉ body) : quoted body = (openString body, []) := by
  have hbody : ∀ c ∈ body, (c != '"') = true := by
    intro c hc
    simpa using ne_of_mem_of_not_mem hc h
  obtain ⟨-, hdrop⟩ := takeWhile_append_of_head [] hbody nofun
  rw [List.append_nil] at hdrop
  rw [quoted, hdrop]

/-- A comment to the end of its line is cut off in front of the newline. -/
theorem slashed_append {body rest : List Char} (hbody : '\n' ∉ body)
    (hrest : ∀ c ∈ rest.head?, c = '\n') :
    slashed ('/' :: (body ++ rest)) = (lineComment body, rest) := by
  have hbody : ∀ c ∈ body, (c != '\n') = true := by
    intro c hc
    simpa using ne_of_mem_of_not_mem hc hbody
  obtain ⟨htake, hdrop⟩ := takeWhile_append_of_head rest hbody
    (by intro c hc; simpa using hrest c hc)
  rw [slashed, htake, hdrop]

/-- Punctuation that fits is what is cut off. -/
theorem mark_append {p : Punct} {rest : List Char} (h : (punct p).Fits rest) :
    ∃ c cs, (punct p).text ++ rest = c :: cs ∧ (single? c).isSome = true ∧
      (p ≠ .slash → c ≠ '/' ∧ mark c cs = (punct p, rest)) := by
  cases h with
  | punct hlongest _ =>
      rcases spelling_cases p with ⟨c, hc, hsingle⟩ | ⟨c, hc, hwith, hsome⟩
      · refine ⟨c, rest, by rw [text, hc]; rfl, by rw [hsingle]; rfl, fun hne => ⟨?_, ?_⟩⟩
        · rintro rfl
          cases hsingle
          exact hne rfl
        · unfold mark
          split
          · next q tail hwith _ =>
            have htext : q.spelling.toList = [c, '='] := text_withEqual? hwith
            have := hlongest q (by rw [htext, hc]; exact ⟨tail, rfl⟩)
            rw [← String.length_toList, ← String.length_toList, htext, hc] at this
            cases Nat.not_succ_le_self _ this
          · rw [hsingle]
            rfl
      · refine ⟨c, '=' :: rest, by rw [text, hc]; rfl, hsome, fun _ => ⟨?_, ?_⟩⟩
        · rintro rfl
          cases hwith
        · simp [mark, hwith]

theorem next_slash (cs : List Char) : next '/' cs = slashed cs := rfl

/-- A piece that fits is cut off from what it stands in front of. -/
theorem Fits.next_eq {p : Piece} {rest : List Char} (h : p.Fits rest) :
    ∃ c cs, p.text ++ rest = c :: cs ∧ next c cs = (p, rest) := by
  cases h with
  | @blank c _ hc => exact ⟨c, rest, rfl, by rw [next, if_pos (isBlank_iff.mpr hc)]⟩
  | lineComment hbody hrest => exact ⟨'/', _, rfl, slashed_append hbody hrest⟩
  | @blockComment body _ hbody =>
      refine ⟨'/', '*' :: (body ++ rest), rfl, ?_⟩
      rw [next_slash, slashed, closeComment_eq_some.mpr ⟨.inl hbody, rfl⟩]
  | @overrun body _ hbody =>
      refine ⟨'/', '*' :: (body ++ rest), rfl, ?_⟩
      rw [next_slash, slashed, closeComment_eq_some.mpr ⟨.inr hbody, rfl⟩]
  | @openComment body hbody =>
      refine ⟨'/', '*' :: body, by simp [text], ?_⟩
      rw [next_slash, slashed, closeComment_eq_none.mpr hbody]
  | @string body _ hbody => exact ⟨'"', body ++ '"' :: rest, by simp [text], quoted_append hbody⟩
  | @openString body hbody => exact ⟨'"', body, by simp [text], quoted_open hbody⟩
  | @number whole fraction _ hne hwhole hfraction hrest hpoint =>
      obtain ⟨c, whole, rfl⟩ := List.exists_cons_of_ne_nil hne
      have hc := (List.forall_mem_cons.mp hwhole).1
      obtain ⟨cs, htext, hnumeral⟩ :=
        numeral_append (.number hne hwhole hfraction hrest hpoint)
      refine ⟨c, cs, htext, ?_⟩
      simp [next, isBlank_eq_false_of_digit hc, startsWord_eq_false_of_digit hc, hc, hnumeral]
  | @word first letters _ hfirst hletters hrest =>
      have hfirst := startsWord_iff.mpr hfirst
      obtain ⟨htake, hdrop⟩ := takeWhile_append_of_head (p := continuesWord) rest
        (fun c hc => continuesWord_iff.mpr (hletters c hc))
        (fun c hc => Bool.eq_false_iff.mpr (mt continuesWord_iff.mp (hrest c hc)))
      refine ⟨first, letters ++ rest, rfl, ?_⟩
      simp [next, isBlank_eq_false_of_startsWord hfirst, hfirst, htake, hdrop]
  | @punct p _ hlongest hslash =>
      by_cases hp : p = .slash
      · subst hp
        refine ⟨'/', rest, rfl, ?_⟩
        rw [next_slash, slashed.eq_def]
        split
        · exact absurd rfl (hslash rfl _ rfl).1
        · exact absurd rfl (hslash rfl _ rfl).2
        · rfl
      · obtain ⟨c, cs, htext, hsome, hmark⟩ := mark_append (.punct hlongest hslash)
        obtain ⟨hslash, hmark⟩ := hmark hp
        obtain ⟨hblank, hword, hdigit, hquote⟩ := class_of_single? hsome
        refine ⟨c, cs, htext, ?_⟩
        simp [next, hblank, hword, hdigit, hquote, hslash, hmark]
  | @stray c _ hblank hword hdigit hquote hpunct =>
      have hblank := Bool.eq_false_iff.mpr (mt isBlank_iff.mp hblank)
      have hword := Bool.eq_false_iff.mpr (mt startsWord_iff.mp hword)
      have hslash : c ≠ '/' := by
        rintro rfl
        exact hpunct .slash rfl
      have hsingle : single? c = none := by
        rw [← Option.not_isSome_iff_eq_none, isSome_single?_iff]
        rintro ⟨p, hp⟩
        exact hpunct p hp
      refine ⟨c, rest, rfl, ?_⟩
      simp only [next, hblank, hword, hdigit, hquote, hslash, mark, hsingle, Bool.false_eq_true,
        if_false]
      split
      · next p _ hwith =>
        exact absurd (by rw [show p.spelling.toList = _ from text_withEqual? hwith]; rfl) (hpunct p)
      · rfl

/-! ## Tilings -/

/-- A text and pieces that make it up, each of which fits in front of the rest. -/
inductive Tiling : List Char → List Piece → Prop
  | nil : Tiling [] []
  | cons {p : Piece} {rest : List Char} {ps : List Piece} :
      p.Fits rest → Tiling rest ps → Tiling (p.text ++ rest) (p :: ps)

/-- The pieces that are cut off one after the other are a tiling. -/
theorem tiling_pieces (cs : List Char) : Tiling cs (pieces cs) := by
  fun_induction pieces cs with
  | case1 => exact .nil
  | case2 c cs ih =>
      rw [← text_next c cs]
      exact .cons (fits_next c cs) ih

/-- There is no other tiling. -/
theorem Tiling.eq_pieces {cs : List Char} {ps : List Piece} (h : Tiling cs ps) :
    pieces cs = ps := by
  induction h with
  | nil => rw [pieces]
  | cons hp _ ih =>
      obtain ⟨c, cs, htext, hnext⟩ := hp.next_eq
      rw [htext, pieces, hnext, ih]

/-- Nothing of the text is lost or doubled. -/
theorem Tiling.flatMap_text {cs : List Char} {ps : List Piece} (h : Tiling cs ps) :
    ps.flatMap text = cs := by
  induction h with
  | nil => rfl
  | cons _ _ ih => rw [List.flatMap_cons, ih]

/-- Each piece of a tiling fits in front of the text of the pieces behind it. -/
theorem Tiling.fits {cs : List Char} {before after : List Piece} {p : Piece}
    (h : Tiling cs (before ++ p :: after)) : p.Fits (after.flatMap text) := by
  induction before generalizing cs with
  | nil =>
      cases h with
      | cons hp hafter =>
          rw [hafter.flatMap_text]
          exact hp
  | cons q before ih =>
      cases h with
      | cons _ hbefore => exact ih hbefore

/-- A piece that fits also fits if some of what is behind it is cut off. -/
theorem Fits.of_prefix {p : Piece} {rest cut : List Char} (h : p.Fits rest) (hcut : cut <+: rest) :
    p.Fits cut := by
  have hhead : ∀ c ∈ cut.head?, c ∈ rest.head? := by
    obtain ⟨tail, rfl⟩ := hcut
    intro c hc
    cases cut with
    | nil => cases hc
    | cons d cut => exact hc
  cases h with
  | blank hc => exact .blank hc
  | lineComment hbody hrest => exact .lineComment hbody fun c hc => hrest c (hhead c hc)
  | blockComment hbody => exact .blockComment hbody
  | overrun hbody => exact .overrun hbody
  | openComment hbody =>
      rw [List.prefix_nil.mp hcut]
      exact .openComment hbody
  | string hbody => exact .string hbody
  | openString hbody =>
      rw [List.prefix_nil.mp hcut]
      exact .openString hbody
  | number hne hwhole hfraction hrest hpoint =>
      exact .number hne hwhole hfraction (fun c hc => hrest c (hhead c hc))
        fun hnil d hd => hpoint hnil d (hd.trans hcut)
  | word hfirst hletters hrest =>
      exact .word hfirst hletters fun c hc => hrest c (hhead c hc)
  | punct hlongest hslash =>
      refine .punct ?_ fun hp c hc => hslash hp c (hhead c hc)
      intro q hq
      exact hlongest q (hq.trans ((List.prefix_append_right_inj _).mpr hcut))
  | stray hblank hword hdigit hquote hpunct => exact .stray hblank hword hdigit hquote hpunct

end Piece

end Lox
