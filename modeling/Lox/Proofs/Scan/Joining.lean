import Lox.Proofs.Grammar.Reads
import Lox.Proofs.Grammar.Renaming
import Lox.Proofs.Scan.Lines

/-!
# Sources put together

If a text ends with a newline and leaves no string and no comment open, then nothing at its end can
go on in a text behind it: the pieces of both together are the pieces of the one and then those of
the other.  So the second text is scanned as it would be alone, except that its lines are counted on
from the first, and that its names are met by a lexicon which knows those of the first.
-/

namespace Lox

/-! ## Pieces -/

namespace Piece

/-- Whether the piece runs to the end of the source because nothing closes it. -/
def isOpen : Piece → Bool
  | openComment _ | openString _ => true
  | _ => false

/-- A piece whose problem is none of these two does not run to the end. -/
theorem isOpen_eq_false {p : Piece}
    (h : ∀ q ∈ p.problem?, q ≠ .unterminatedString ∧ q ≠ .unterminatedComment) :
    p.isOpen = false := by
  cases p with
  | openString body => exact absurd rfl (h _ rfl).1
  | openComment body => exact absurd rfl (h _ rfl).2
  | _ => rfl

/-- If a text ends with a newline, and its first piece has none, then something is left behind that
piece and ends with the newline. -/
theorem Fits.exists_cons {p : Piece} {rest : List Char} (h : p.Fits rest)
    (hend : ∀ c ∈ (p.text ++ rest).getLast?, c = '\n') (hnewline : '\n' ∉ p.text) :
    ∃ c tail, rest = c :: tail ∧ ∀ d ∈ rest.getLast?, d = '\n' := by
  cases rest with
  | nil =>
      obtain ⟨c, cs, htext, -⟩ := h.next_eq
      rw [htext] at hend
      rw [List.append_nil] at htext
      have hlast := List.getLast?_eq_some_getLast (List.cons_ne_nil c cs)
      have hmem := List.getLast_mem (List.cons_ne_nil c cs)
      rw [hend _ hlast, ← htext] at hmem
      exact absurd hmem hnewline
  | cons c tail =>
      refine ⟨c, tail, rfl, fun d hd => hend d ?_⟩
      rw [List.getLast?_append_of_ne_nil _ (List.cons_ne_nil c tail)]
      exact hd

/-- A newline at the end of a text belongs to a blank or to the inside of a piece.  What ends in
front of a character of a certain kind still has that character behind it, and one character is
enough to tell, as no punctuation is longer than two. -/
theorem Fits.append {p : Piece} {rest : List Char} (h : p.Fits rest) (hopen : p.isOpen = false)
    (hend : ∀ c ∈ (p.text ++ rest).getLast?, c = '\n') (more : List Char) :
    p.Fits (rest ++ more) := by
  have hrest := h.exists_cons hend
  cases h with
  | blank hc => exact .blank hc
  | blockComment hbody => exact .blockComment hbody
  | overrun hbody => exact .overrun hbody
  | string hbody => exact .string hbody
  | stray hblank hword hdigit hquote hpunct => exact .stray hblank hword hdigit hquote hpunct
  | openComment hbody => cases hopen
  | openString hbody => cases hopen
  | lineComment hbody hhead =>
      obtain ⟨c, tail, rfl, -⟩ := hrest (by simpa [text] using hbody)
      exact .lineComment hbody hhead
  | word hfirst hletters hhead =>
      obtain ⟨c, tail, rfl, -⟩ := hrest (newline_notMem_word (startsWord_iff.mpr hfirst)
        fun c hc => continuesWord_iff.mpr (hletters c hc))
      exact .word hfirst hletters hhead
  | number hne hwhole hfraction hhead hpoint =>
      obtain ⟨c, tail, rfl, hlast⟩ := hrest (newline_notMem_number hwhole hfraction)
      refine .number hne hwhole hfraction hhead fun hnil d hd => ?_
      obtain ⟨rfl, htail⟩ := List.cons_prefix_cons.mp hd
      cases tail with
      | nil => exact absurd (hlast _ rfl) (by decide)
      | cons e tail =>
          obtain ⟨rfl, -⟩ := List.cons_prefix_cons.mp htail
          exact hpoint hnil d ⟨tail, rfl⟩
  | @punct p _ hlongest hslash =>
      obtain ⟨c, tail, rfl, -⟩ := hrest (newline_notMem_punct p)
      refine .punct (fun q hq => hlongest q ?_) hslash
      rw [← List.append_assoc] at hq
      refine List.prefix_of_prefix_length_le hq (List.prefix_append _ _) ?_
      have := (length_spelling q).2
      have := (length_spelling p).1
      simp only [List.length_append, List.length_cons]
      omega

/-- Where nothing is open and a newline ends the first text, its tiling goes on with that of the
second. -/
theorem Tiling.append {cs more : List Char} {ps qs : List Piece} (h : Tiling cs ps)
    (hopen : ∀ p ∈ ps, p.isOpen = false) (hend : ∀ c ∈ cs.getLast?, c = '\n')
    (hmore : Tiling more qs) : Tiling (cs ++ more) (ps ++ qs) := by
  induction h with
  | nil => exact hmore
  | @cons p rest ps hp _ ih =>
      obtain ⟨hopen, hopens⟩ := List.forall_mem_cons.mp hopen
      rw [List.append_assoc]
      refine .cons (hp.append hopen hend more) (ih hopens fun c hc => hend c ?_)
      rw [List.getLast?_append, hc]
      rfl

end Piece

open Piece

/-- And so its pieces are those of both texts. -/
theorem pieces_append {cs : List Char} (more : List Char)
    (hopen : ∀ p ∈ pieces cs, p.isOpen = false) (hend : ∀ c ∈ cs.getLast?, c = '\n') :
    pieces (cs ++ more) = pieces cs ++ pieces more :=
  ((tiling_pieces cs).append hopen hend (tiling_pieces more)).eq_pieces

/-! ## Tokens -/

/-- The lexicon after it has met the words among the pieces. -/
def Lexicon.reading (lexicon : Lexicon) (ps : List Piece) : Lexicon :=
  ps.foldl (fun lexicon p => (p.find lexicon).2) lexicon

section

variable {lexicon : Lexicon} {line : Position}

theorem lexicon_scanPieces (ps : List Piece) :
    (scanPieces lexicon line ps).lexicon = lexicon.reading ps := by
  induction ps generalizing lexicon line with
  | nil => rfl
  | cons p ps ih =>
      rw [scanPieces]
      split <;> exact ih

/-- No piece of the text is an end mark. -/
theorem Piece.find_ne_eof (p : Piece) (lexicon : Lexicon) :
    (p.find lexicon).1 ≠ .token .eof := by
  cases p with
  | word letters =>
      have hkind (x : Symbol) : x.kind ≠ .eof := by
        rw [Symbol.kind]
        cases x.keyword? <;> exact Kind.noConfusion
      rw [find]
      exact fun h => hkind _ (Finding.token.inj h)
  | _ =>
      intro h
      cases h

/-- What the tokens of the second part are put behind: the tokens of the first part without the end
mark.  The second part is scanned by the lexicon that the first part leaves, and from the line on
which it ends. -/
theorem exists_tokens_scanPieces (ps : List Piece) :
    ∃ ts : List Token, (∀ t ∈ ts, t.kind ≠ .eof) ∧
      (scanPieces lexicon line ps).tokens =
        ts ++ [⟨.eof, "", line.behind (ps.flatMap text)⟩] ∧
      ∀ qs, (scanPieces lexicon line (ps ++ qs)).tokens = ts ++
        (scanPieces (lexicon.reading ps) (line.behind (ps.flatMap text)) qs).tokens := by
  induction ps generalizing lexicon line with
  | nil =>
      rw [List.flatMap_nil, Position.behind_nil]
      exact ⟨[], List.forall_mem_nil _, rfl, fun qs => rfl⟩
  | cons p ps ih =>
      obtain ⟨ts, hts, htokens, happend⟩ := @ih (p.find lexicon).2 (line.behind p.text)
      have hne := p.find_ne_eof lexicon
      rw [List.flatMap_cons, Position.behind_append]
      simp only [List.cons_append, scanPieces]
      cases hfind : (p.find lexicon).1 with
      | skipped => exact ⟨ts, hts, htokens, happend⟩
      | problem _ => exact ⟨ts, hts, htokens, happend⟩
      | token kind =>
          have hkind : kind ≠ .eof := by
            rintro rfl
            exact hne hfind
          let t : Token := ⟨kind, String.ofList p.text, line.behind p.text⟩
          refine ⟨t :: ts, List.forall_mem_cons.mpr ⟨hkind, hts⟩, ?_, fun qs => ?_⟩
          · exact congrArg (List.cons _) htokens
          · exact congrArg (List.cons _) (happend qs)

/-- The end mark of the first pieces is not among the tokens of all of them. -/
theorem body_scanPieces_append (ps qs : List Piece) :
    Token.body (scanPieces lexicon line (ps ++ qs)).tokens =
      Token.body (scanPieces lexicon line ps).tokens ++ Token.body (scanPieces (lexicon.reading ps)
        (line.behind (ps.flatMap text)) qs).tokens := by
  obtain ⟨ts, hts, htokens, happend⟩ := @exists_tokens_scanPieces lexicon line ps
  rw [htokens, happend, Token.body_append_of_ne_eof hts, Token.body_append_of_ne_eof hts]
  exact congrArg (· ++ _) (List.append_nil ts).symm

/-- The problems of both parts are reported one after the other. -/
theorem diagnostics_scanPieces_append (ps qs : List Piece) :
    (scanPieces lexicon line (ps ++ qs)).diagnostics =
      (scanPieces lexicon line ps).diagnostics ++ (scanPieces (lexicon.reading ps)
        (line.behind (ps.flatMap text)) qs).diagnostics := by
  induction ps generalizing lexicon line with
  | nil =>
      rw [List.flatMap_nil, Position.behind_nil]
      rfl
  | cons p ps ih =>
      have ih := @ih (p.find lexicon).2 (line.behind p.text)
      rw [List.flatMap_cons, Position.behind_append]
      simp only [List.cons_append, scanPieces]
      cases (p.find lexicon).1 with
      | skipped => exact ih
      | token _ => exact ih
      | problem _ => exact congrArg (List.cons _) ih

end

/-- The symbol that a lexicon has for the name. -/
def Lexicon.symbol (lexicon : Lexicon) (x : Symbol) : Symbol := (lexicon.intern x.name).1

/-- A name keeps its symbol. -/
theorem Lexicon.intern_of_prefix {lexicon later : Lexicon} {name : String}
    (h : (lexicon.intern name).2.words <+: later.words) :
    (later.intern name).1 = (lexicon.intern name).1 := by
  have hid : (later.intern name).1.id = (lexicon.intern name).1.id := by
    have hplace := idxOf?_of_prefix (h.trans (later.words_prefix_intern name))
      (lexicon.idxOf?_intern name)
    rw [later.idxOf?_intern name] at hplace
    exact Option.some.inj hplace
  have hname := (later.name_intern name).trans (lexicon.name_intern name).symm
  generalize (later.intern name).1 = x, (lexicon.intern name).1 = y at hid hname
  obtain ⟨id, name⟩ := x
  cases hid
  cases hname
  rfl

/-- Reading pieces only adds names. -/
theorem Lexicon.words_prefix_reading (lexicon : Lexicon) (ps : List Piece) :
    lexicon.words <+: (lexicon.reading ps).words := by
  induction ps generalizing lexicon with
  | nil => exact List.prefix_rfl
  | cons p ps ih =>
      refine List.IsPrefix.trans ?_ (ih (p.find lexicon).2)
      cases p with
      | word letters => exact lexicon.words_prefix_intern _
      | _ => exact List.prefix_rfl

section

variable {lexicon lexicon' later : Lexicon}

/-- Two lexicons agree on what is reserved, and on everything else up to its symbol. -/
theorem Lexicon.Proper.kind_intern (h : lexicon.Proper) (h' : lexicon'.Proper) {name : String}
    (hlater : (lexicon'.intern name).2.words <+: later.words) :
    (lexicon'.intern name).1.kind = (lexicon.intern name).1.kind.rename later.symbol := by
  have hkeyword : (lexicon'.intern name).1.keyword? = (lexicon.intern name).1.keyword? := by
    refine Option.ext fun k => ?_
    rw [h.keyword?_intern, h'.keyword?_intern]
  rw [Symbol.kind, Symbol.kind, hkeyword]
  cases (lexicon.intern name).1.keyword? with
  | some k => rfl
  | none =>
      refine congrArg Kind.identifier ?_
      rw [Lexicon.symbol, Lexicon.name_intern, Lexicon.intern_of_prefix hlater]

def Finding.rename (f : Symbol → Symbol) : Finding → Finding
  | token kind => token (kind.rename f)
  | finding => finding

/-- What is found of a piece differs from lexicon to lexicon in symbols only. -/
theorem Piece.find_rename (h : lexicon.Proper) (h' : lexicon'.Proper) (p : Piece)
    (hlater : (p.find lexicon').2.words <+: later.words) :
    (p.find lexicon').1 = (p.find lexicon).1.rename later.symbol := by
  cases p with
  | word letters => exact congrArg Finding.token (h.kind_intern h' hlater)
  | _ => rfl

/-- Another lexicon and another line to begin with change the symbols and the lines of the tokens,
and nothing else. -/
theorem tokens_scanPieces_rename (h : lexicon.Proper) (h' : lexicon'.Proper) (line k : Position)
    (ps : List Piece) (hlater : (lexicon'.reading ps).words <+: later.words) :
    (scanPieces lexicon' (line + k) ps).tokens =
      (scanPieces lexicon line ps).tokens.map (Token.rename later.symbol (· + k)) := by
  induction ps generalizing lexicon lexicon' line with
  | nil => rfl
  | cons p ps ih =>
      have ih := ih (proper_find h p) (proper_find h' p) (line.behind p.text) hlater
      rw [scanPieces, scanPieces, Position.add_behind]
      rw [p.find_rename h h' ((Lexicon.words_prefix_reading _ ps).trans hlater)]
      cases (p.find lexicon).1 with
      | skipped => exact ih
      | problem _ => exact ih
      | token kind => exact congrArg (List.cons _) ih

/-- Another lexicon changes only the symbols of the tokens. -/
theorem tokens_scanPieces_eq (h : lexicon.Proper) (h' : lexicon'.Proper) (line : Position)
    (ps : List Piece) (hlater : (lexicon'.reading ps).words <+: later.words) :
    (scanPieces lexicon' line ps).tokens =
      (scanPieces lexicon line ps).tokens.map (Token.rename later.symbol id) := by
  have hrename := tokens_scanPieces_rename h h' line 0 ps hlater
  rwa [UInt32.add_zero, Position.add_zero_eq_id] at hrename

/-- The same token, so many lines further on. -/
def Token.moved (k : Nat) (t : Token) : Token := { t with line := t.line + .ofNat k }

/-- A token is moved by renaming its line. -/
theorem Token.rename_id_eq_moved (k : Nat) : Token.rename id (· + .ofNat k) = Token.moved k := by
  funext t
  obtain ⟨kind, _, _⟩ := t
  cases kind <;> rfl

/-- The same problem, so many lines further on. -/
def Diagnostic.moved (k : Nat) (d : Diagnostic) : Diagnostic :=
  { d with line := d.line + .ofNat k }

theorem Diagnostic.moved_zero : Diagnostic.moved 0 = id := by
  funext d
  exact congrArg (fun line => { d with line }) (UInt32.add_zero d.line)

/-- The problems of a text do not depend on the names met before, and only their lines change if the
lines are counted from further on. -/
theorem diagnostics_scanPieces_moved (lexicon lexicon' : Lexicon) (line : Position) (k : Nat)
    (ps : List Piece) :
    (scanPieces lexicon' (line + .ofNat k) ps).diagnostics =
      (scanPieces lexicon line ps).diagnostics.map (Diagnostic.moved k) := by
  induction ps generalizing lexicon lexicon' line with
  | nil => rfl
  | cons p ps ih =>
      have ih := ih (p.find lexicon).2 (p.find lexicon').2 (line.behind p.text)
      rw [scanPieces, scanPieces, Position.add_behind]
      cases p with
      | openComment _ | openString _ | stray _ => exact congrArg (List.cons _) ih
      | _ => exact ih

/-- No problem depends on the names met before. -/
theorem diagnostics_scanPieces_eq (lexicon lexicon' : Lexicon) (line : Position) (ps : List Piece) :
    (scanPieces lexicon line ps).diagnostics = (scanPieces lexicon' line ps).diagnostics := by
  have hmoved := diagnostics_scanPieces_moved lexicon' lexicon line 0 ps
  have hline : line + .ofNat 0 = line := UInt32.add_zero line
  rwa [hline, Diagnostic.moved_zero, List.map_id] at hmoved

/-- Of the tokens only the lines change if the lines are counted from further on.  The symbols are
the same in all lexicons that have the same ones in the end. -/
theorem tokens_scanPieces_moved (h : lexicon.Proper) (h' : lexicon'.Proper) (line k : Position)
    (ps : List Piece) (hlater : (lexicon.reading ps).words <+: later.words)
    (hlater' : (lexicon'.reading ps).words <+: later.words) :
    (scanPieces lexicon' (line + k) ps).tokens =
      (scanPieces lexicon line ps).tokens.map (Token.rename id (· + k)) := by
  have hrename : Token.rename id (· + k) ∘ Token.rename later.symbol id =
      Token.rename later.symbol (· + k) := by
    funext t
    obtain ⟨kind, _, _⟩ := t
    cases kind <;> rfl
  rw [tokens_scanPieces_rename h h' line k ps hlater', ← hrename, ← List.map_map,
    ← tokens_scanPieces_eq h h line ps hlater]

theorem Lexicon.Proper.reading (h : lexicon.Proper) (ps : List Piece) :
    (lexicon.reading ps).Proper :=
  h.trans (lexicon.words_prefix_reading ps)

/-! ## Sources -/

/-- A source has no diagnostics exactly if no piece of it is a problem. -/
theorem diagnostics_scan_eq_nil (h : lexicon.Proper) {source : String} :
    (scan lexicon source).diagnostics = [] ↔
      ∀ p ∈ pieces source.toList, p.problem? = none := by
  rw [← List.filterMap_eq_nil_iff, ← diagnostics_scanPieces h 1, List.map_eq_nil_iff, scan]

/-- The tokens of a source in another lexicon are the same, up to the symbols of names. -/
theorem exists_tokens_scan_eq (h : lexicon.Proper) (h' : lexicon'.Proper) (source : String) :
    ∃ f, (scan lexicon' source).tokens =
      (scan lexicon source).tokens.map (Token.rename f id) :=
  ⟨_, tokens_scanPieces_eq h h' 1 (pieces source.toList) List.prefix_rfl⟩

/-- The number of lines that end in the source. -/
def lineCount (source : String) : Nat := source.toList.count '\n'

variable {first : String}

/-- Where a source leaves no string and no comment open, no piece of it runs to its end. -/
theorem forall_isOpen_eq_false (h : lexicon.Proper) {source : String}
    (hclosed : ∀ d ∈ (scan lexicon source).diagnostics,
      d.problem ≠ .unterminatedString ∧ d.problem ≠ .unterminatedComment) :
    ∀ p ∈ pieces source.toList, p.isOpen = false := by
  refine fun p hp => isOpen_eq_false fun q hq => ?_
  have hmem : q ∈ (scan lexicon source).diagnostics.map Diagnostic.problem := by
    rw [scan, diagnostics_scanPieces h]
    exact List.mem_filterMap.mpr ⟨p, hp, hq⟩
  obtain ⟨d, hd, rfl⟩ := List.mem_map.mp hmem
  exact hclosed d hd

/-- Two sources, of which the first is closed and ends with a newline, are cut into the pieces of
each. -/
theorem pieces_toList_append_of_closed (h : lexicon.Proper)
    (hend : first.toList.getLast? = some '\n')
    (hclosed : ∀ d ∈ (scan lexicon first).diagnostics,
      d.problem ≠ .unterminatedString ∧ d.problem ≠ .unterminatedComment) (second : String) :
    pieces (first ++ second).toList = pieces first.toList ++ pieces second.toList := by
  rw [String.toList_append]
  refine pieces_append _ (forall_isOpen_eq_false h hclosed) ?_
  rintro c hc
  exact Option.some.inj (hc.symm.trans hend)

/-- A source without diagnostics is closed. -/
theorem pieces_toList_append (h : lexicon.Proper) (hend : first.toList.getLast? = some '\n')
    (hclean : (scan lexicon first).diagnostics = []) (second : String) :
    pieces (first ++ second).toList = pieces first.toList ++ pieces second.toList := by
  refine pieces_toList_append_of_closed h hend ?_ second
  rw [hclean]
  exact List.forall_mem_nil _

/-- The names of both sources are met in the same order. -/
theorem lexicon_scan_append (h : lexicon.Proper) (hend : first.toList.getLast? = some '\n')
    (hclean : (scan lexicon first).diagnostics = []) (second : String) :
    (scan lexicon (first ++ second)).lexicon =
      (scan (scan lexicon first).lexicon second).lexicon := by
  rw [scan, pieces_toList_append h hend hclean, lexicon_scanPieces, scan, lexicon_scanPieces, scan,
    lexicon_scanPieces, Lexicon.reading, List.foldl_append]
  rfl

/-- The second source is scanned as it would be after the first, with its lines moved by as many as
the first one has. -/
theorem body_scan_append (h : lexicon.Proper) (hend : first.toList.getLast? = some '\n')
    (hclean : (scan lexicon first).diagnostics = []) (second : String) :
    Token.body (scan lexicon (first ++ second)).tokens =
      Token.body (scan lexicon first).tokens ++
        (Token.body (scan (scan lexicon first).lexicon second).tokens).map
          (Token.rename id (· + .ofNat (lineCount first))) := by
  rw [scan, pieces_toList_append h hend hclean, body_scanPieces_append, flatMap_text_pieces,
    Position.behind, ← lineCount, tokens_scanPieces_moved (h.reading _) (h.reading _) 1 _ _
      List.prefix_rfl List.prefix_rfl, Token.body_rename, scan, scan, lexicon_scanPieces]

end

/-- The second of two sources has no more newlines than both. -/
theorem countable_of_append {first second : String}
    (hfew : lineCount (first ++ second) < UInt32.size - 1) : Countable second.toList := by
  rw [lineCount, String.toList_append, List.count_append] at hfew
  exact Nat.lt_of_le_of_lt (Nat.le_add_left _ _) hfew

/-- Where the lines of both sources together can be counted, a line of the second is moved by as
many as the first one has. -/
theorem toNat_moved {first second : String} (hfew : lineCount (first ++ second) < UInt32.size - 1)
    {line : Position} (hline : line ≤ lineBehind second.toList) :
    (line + .ofNat (lineCount first)).toNat = line.toNat + lineCount first := by
  rw [UInt32.le_iff_toNat_le, (countable_of_append hfew).toNat_lineBehind] at hline
  rw [lineCount, String.toList_append, List.count_append] at hfew
  refine Position.toNat_add_ofNat ?_
  rw [lineCount]
  omega

/-- Three scans with one history of names, in whatever order: of a source that ends with a newline
and leaves no string and no comment open, of another source, and of both put together.  The names
that were met before a scan are given for each, and in the end there are those of `later`.  Then the
tokens of the whole are those of the first source without its end mark, and those of the second
with their lines moved; and so it is with the diagnostics.  With fewer than `2 ^ 32 - 1` newlines in
the whole, a line is moved by the number of newlines in the first source. -/
theorem scan_append_at_newline (names₁ names₂ names₃ : List String) {later : Lexicon}
    {first second : String} (hend : first.toList.getLast? = some '\n')
    (hclosed : ∀ d ∈ (scan (Lexicon.reserved.knowing names₁) first).diagnostics,
      d.problem ≠ .unterminatedString ∧ d.problem ≠ .unterminatedComment)
    (hlater₁ : (scan (Lexicon.reserved.knowing names₁) first).lexicon.words <+: later.words)
    (hlater₂ : (scan (Lexicon.reserved.knowing names₂) second).lexicon.words <+: later.words)
    (hlater₃ : (scan (Lexicon.reserved.knowing names₃) (first ++ second)).lexicon.words <+:
      later.words) :
    (∃ ts stop, (scan (Lexicon.reserved.knowing names₁) first).tokens = ts ++ [⟨.eof, "", stop⟩] ∧
      (scan (Lexicon.reserved.knowing names₃) (first ++ second)).tokens =
        ts ++ (scan (Lexicon.reserved.knowing names₂) second).tokens.map
          (Token.moved (lineCount first))) ∧
      (scan (Lexicon.reserved.knowing names₃) (first ++ second)).diagnostics =
        (scan (Lexicon.reserved.knowing names₁) first).diagnostics ++
          (scan (Lexicon.reserved.knowing names₂) second).diagnostics.map
            (Diagnostic.moved (lineCount first)) ∧
      (lineCount (first ++ second) < UInt32.size - 1 →
        (∀ t ∈ (scan (Lexicon.reserved.knowing names₂) second).tokens,
          (t.moved (lineCount first)).line.toNat = t.line.toNat + lineCount first) ∧
        ∀ d ∈ (scan (Lexicon.reserved.knowing names₂) second).diagnostics,
          (d.moved (lineCount first)).line.toNat = d.line.toNat + lineCount first) := by
  have hproper (names : List String) := Lexicon.proper_reserved.knowing names
  have hpieces := pieces_toList_append_of_closed (hproper names₁) hend hclosed second
  simp only [scan, lexicon_scanPieces] at hlater₁ hlater₂ hlater₃
  rw [hpieces, Lexicon.reading, List.foldl_append] at hlater₃
  have hlater₃' := (Lexicon.words_prefix_reading _ (pieces second.toList)).trans hlater₃
  obtain ⟨ts, -, htokens, happend⟩ :=
    @exists_tokens_scanPieces (Lexicon.reserved.knowing names₃) 1 (pieces first.toList)
  rw [flatMap_text_pieces] at htokens happend
  refine ⟨⟨ts, lineBehind first.toList, ?_, ?_⟩, ?_, fun hfew => ⟨fun t ht => ?_, fun d hd => ?_⟩⟩
  · rw [scan, lineBehind, ← htokens]
    have hsame := tokens_scanPieces_eq (hproper names₃) (hproper names₃) 1 _ hlater₃'
    exact (tokens_scanPieces_eq (hproper names₃) (hproper names₁) 1 _ hlater₁).trans hsame.symm
  · rw [scan, hpieces, happend, scan, ← Token.rename_id_eq_moved]
    refine congrArg (ts ++ ·) ?_
    exact tokens_scanPieces_moved (hproper names₂) ((hproper names₃).reading _) 1 _ _ hlater₂
      hlater₃
  · rw [scan, hpieces, diagnostics_scanPieces_append, flatMap_text_pieces]
    refine congrArg₂ (· ++ ·) (diagnostics_scanPieces_eq _ _ 1 _) ?_
    exact diagnostics_scanPieces_moved _ _ 1 _ _
  · exact toNat_moved hfew (line_le_of_mem_tokens _ (countable_of_append hfew) ht)
  · exact toNat_moved hfew (line_le_of_mem_diagnostics _ (countable_of_append hfew) hd)

/-- A character that fits nowhere is reported on its line in the whole as well.  The second source
was scanned before the first one here, and shares a name with it. -/
theorem scan_append_at_newline_strays :
    ∃ ts stop,
      (scan (Lexicon.reserved.knowing ["b", "a"]) "var @ a;\n").tokens =
        ts ++ [⟨.eof, "", stop⟩] ∧
      (scan (Lexicon.reserved.knowing ["b", "a"]) ("var @ a;\n" ++ "b = a #")).tokens =
        ts ++ (scan .reserved "b = a #").tokens.map (Token.moved 1) ∧
      (scan (Lexicon.reserved.knowing ["b", "a"]) ("var @ a;\n" ++ "b = a #")).diagnostics =
        [⟨1, .line, .strayCharacter '@'⟩, ⟨2, .line, .strayCharacter '#'⟩] := by
  obtain ⟨⟨ts, stop, hfirst, hboth⟩, hdiagnostics, -⟩ :=
    @scan_append_at_newline ["b", "a"] [] ["b", "a"] (Lexicon.reserved.knowing ["b", "a"])
      "var @ a;\n" "b = a #" (by decide +kernel) (by decide +kernel) (by decide +kernel)
      (by decide +kernel) (by decide +kernel)
  refine ⟨ts, stop, hfirst, hboth, hdiagnostics.trans ?_⟩
  decide +kernel

end Lox
