import Lox.Proofs.Session.Rejected

/-!
# Interning

A lexicon hands out one symbol for each spelling, whoever asks for it and whatever was asked for
before.  So symbols can be told apart by their identity alone, and a symbol is that of a reserved
word exactly if it is spelled like one.  All that a session asks its lexicon for are the clock and
the words of its sources, in order, those of rejected sources as well.
-/

namespace Lox

namespace Lexicon

/-- The lexicon that has met nothing. -/
def empty : Lexicon := ⟨#[]⟩

/-- The symbols handed out for names that are asked for in turn, and the lexicon after that. -/
def internAll (lexicon : Lexicon) : List String → List Symbol × Lexicon
  | [] => ([], lexicon)
  | name :: names =>
    let asked := lexicon.intern name
    let rest := asked.2.internAll names
    (asked.1 :: rest.1, rest.2)

/-- The reserved words with their symbols in a new lexicon. -/
def table : List (Symbol × Keyword) :=
  (empty.internAll (Keyword.all.map Keyword.spelling)).1.zip Keyword.all

section

variable {lexicon later : Lexicon} {name : String} {names more : List String} {x : Symbol}

/-! ## One name -/

/-- Interning adds the name at most. -/
theorem mem_words_intern {n : String} :
    n ∈ (lexicon.intern name).2.words ↔ n ∈ lexicon.words ∨ n = name := by
  unfold intern
  split
  · next id hid =>
    have hmem : name ∈ lexicon.words := by
      rw [Array.mem_toList_iff, ← Array.isSome_idxOf?, hid]
      rfl
    exact (or_iff_left_of_imp fun h => h ▸ hmem).symm
  · rw [words, Array.toList_push, List.mem_append, List.mem_singleton]

/-- Interning writes no name down twice. -/
theorem nodup_intern (h : lexicon.words.Nodup) : (lexicon.intern name).2.words.Nodup := by
  unfold intern
  split
  · exact h
  · next hnone =>
    rw [Array.idxOf?_eq_none_iff, ← Array.mem_toList_iff] at hnone
    rw [words, Array.toList_push, List.nodup_append]
    refine ⟨h, List.pairwise_singleton _ name, fun n hn m hm => ?_⟩
    rw [List.mem_singleton.mp hm]
    exact ne_of_mem_of_not_mem hn hnone

/-- A lexicon has the symbols of its own words. -/
theorem intern_of_getElem? {i : Nat} (h : lexicon.words.Nodup)
    (hi : lexicon.words[i]? = some name) : lexicon.intern name = (⟨i, name⟩, lexicon) := by
  have hplace : lexicon.spellings.idxOf? name = some i := by
    rw [← @Array.toArray_toList _ lexicon.spellings, List.idxOf?_toArray,
      List.idxOf?_eq_some_iff]
    obtain ⟨hlt, rfl⟩ := List.getElem?_eq_some_iff.mp hi
    refine ⟨hlt, rfl, fun j hj heq => ?_⟩
    exact hj.ne ((List.getElem_inj h).mp heq)
  rw [intern, hplace]

/-- A name that is known leaves the lexicon as it is. -/
theorem intern_of_mem (h : lexicon.words.Nodup) (hmem : name ∈ lexicon.words) :
    (lexicon.intern name).2 = lexicon := by
  obtain ⟨i, hi⟩ := List.mem_iff_getElem?.mp hmem
  rw [intern_of_getElem? h hi]

/-- The symbol of a name points at the entry of that name. -/
theorem getElem?_intern :
    (lexicon.intern name).2.words[(lexicon.intern name).1.id]? = some name := by
  obtain ⟨hlt, hget, -⟩ := List.idxOf?_eq_some_iff.mp (lexicon.idxOf?_intern name)
  exact List.getElem?_eq_some_iff.mpr ⟨hlt, hget⟩

/-! ## Names in turn -/

theorem snd_internAll : (lexicon.internAll names).2 = lexicon.knowing names := by
  induction names generalizing lexicon with
  | nil => rfl
  | cons name names ih => exact ih

/-- To intern two lists of names in turn is to intern them one behind the other. -/
theorem internAll_append :
    lexicon.internAll (names ++ more) =
      ((lexicon.internAll names).1 ++ ((lexicon.knowing names).internAll more).1,
        (lexicon.knowing names).knowing more) := by
  induction names generalizing lexicon with
  | nil => exact Prod.ext rfl snd_internAll
  | cons name names ih =>
      rw [List.cons_append, internAll, ih]
      rfl

theorem knowing_append :
    lexicon.knowing (names ++ more) = (lexicon.knowing names).knowing more :=
  List.foldl_append

/-- Each symbol carries the name it was made for. -/
theorem map_name_internAll : (lexicon.internAll names).1.map Symbol.name = names := by
  induction names generalizing lexicon with
  | nil => rfl
  | cons name names ih =>
      rw [internAll, List.map_cons, lexicon.name_intern, ih]

theorem mem_words_knowing {n : String} :
    n ∈ (lexicon.knowing names).words ↔ n ∈ lexicon.words ∨ n ∈ names := by
  induction names generalizing lexicon with
  | nil => simp [knowing]
  | cons name names ih =>
      rw [knowing, List.foldl_cons, ← knowing, ih, mem_words_intern, List.mem_cons, or_assoc]

/-- Interning any names writes none down twice. -/
theorem nodup_knowing (h : lexicon.words.Nodup) : (lexicon.knowing names).words.Nodup := by
  induction names generalizing lexicon with
  | nil => exact h
  | cons name names ih => exact ih (nodup_intern h)

/-- A symbol that was handed out stands where its spelling is, now and later. -/
theorem getElem?_of_mem_internAll (hx : x ∈ (lexicon.internAll names).1)
    (hlater : (lexicon.knowing names).words <+: later.words) :
    later.words[x.id]? = some x.name := by
  induction names generalizing lexicon with
  | nil => cases hx
  | cons name names ih =>
      rcases List.mem_cons.mp hx with hx | hx
      · rw [hx, name_intern]
        have hwords := ((lexicon.intern name).2.words_prefix_knowing names).trans hlater
        obtain ⟨hlt, hget⟩ := List.getElem?_eq_some_iff.mp (@getElem?_intern lexicon name)
        exact List.getElem?_eq_some_iff.mpr
          ⟨hlt.trans_le hwords.length_le, (hwords.getElem hlt).symm.trans hget⟩
      · exact ih hx hlater

theorem reserved_eq_knowing : reserved = empty.knowing (Keyword.all.map Keyword.spelling) :=
  congrArg Lexicon.mk (by decide +kernel)

theorem nodup_reserved : reserved.words.Nodup := by
  decide +kernel

/-- The reserved lexicon knows the keywords and nothing else. -/
theorem mem_words_reserved {n : String} : n ∈ reserved.words ↔ ∃ k : Keyword, k.spelling = n := by
  constructor
  · intro h
    obtain ⟨k, -, hk⟩ := List.mem_map.mp h
    exact ⟨k, hk⟩
  · rintro ⟨k, rfl⟩
    exact List.mem_map_of_mem (Keyword.mem_all k)

/-- A lexicon has the symbols that it has handed out. -/
theorem intern_of_mem_internAll (hnodup : later.words.Nodup)
    (hx : x ∈ (lexicon.internAll names).1)
    (hlater : (lexicon.knowing names).words <+: later.words) :
    later.intern x.name = (x, later) :=
  intern_of_getElem? hnodup (getElem?_of_mem_internAll hx hlater)

end

/-! ## Reserved words -/

/-- The table has each keyword under the symbol of its spelling. -/
theorem lookup_table (k : Keyword) : table.lookup (reserved.intern k.spelling).1 = some k := by
  cases k <;> decide +kernel

theorem spelling_of_mem_table {p : Symbol × Keyword} (h : p ∈ table) : p.2.spelling = p.1.name := by
  revert p
  decide +kernel

section

variable {names : List String} {x : Symbol}

/-- A symbol that was handed out is a keyword exactly if its name is the spelling of one. -/
theorem keyword?_of_mem_internAll (hx : x ∈ (reserved.internAll names).1) {k : Keyword} :
    x.keyword? = some k ↔ k.spelling = x.name := by
  have hkeyword := @Proper.keyword?_intern _ (proper_reserved.knowing names) x.name k
  rwa [intern_of_mem_internAll (nodup_knowing nodup_reserved) hx List.prefix_rfl] at hkeyword

/-- The symbols of the reserved words are those of the table, whatever names were asked for. -/
theorem lookup_table_of_mem_internAll (hx : x ∈ (reserved.internAll names).1) :
    table.lookup x = x.keyword? := by
  cases hk : x.keyword? with
  | some k =>
      have hname := (keyword?_of_mem_internAll hx).mp hk
      have hmem : k.spelling ∈ reserved.words := mem_words_reserved.mpr ⟨k, rfl⟩
      have hsymbol : (reserved.intern k.spelling).1 = x := by
        have hlater : (reserved.intern k.spelling).2.words <+: (reserved.knowing names).words := by
          rw [intern_of_mem nodup_reserved hmem]
          exact reserved.words_prefix_knowing names
        rw [← intern_of_prefix hlater, hname,
          intern_of_mem_internAll (nodup_knowing nodup_reserved) hx List.prefix_rfl]
      rw [← hsymbol]
      exact lookup_table k
  | none =>
      rw [List.lookup_eq_none_iff]
      intro p hp
      rw [bne_iff_ne]
      rintro rfl
      rw [(keyword?_of_mem_internAll hx).mpr (spelling_of_mem_table hp)] at hk
      cases hk

end

end Lexicon

/-! ## Sources -/

/-- The word that a piece is. -/
def Piece.word? : Piece → Option String
  | word letters => some (String.ofList letters)
  | _ => none

/-- The names that a scan of the source asks for, in order. -/
def requests (source : String) : List String := (pieces source.toList).filterMap Piece.word?

/-- Whether a token of this kind is read from a word. -/
def Kind.isWord : Kind → Bool
  | keyword _ | identifier _ => true
  | _ => false

theorem Symbol.isWord_kind (x : Symbol) : x.kind.isWord = true := by
  rw [Symbol.kind]
  cases x.keyword? <;> rfl

section

variable {lexicon : Lexicon} {p : Piece}

/-- A word is looked up under its letters, and its token is that of the symbol. -/
theorem Piece.find_of_word? {name : String} (h : p.word? = some name) :
    p.find lexicon = (.token (lexicon.intern name).1.kind, (lexicon.intern name).2) := by
  cases p with
  | word letters =>
      cases h
      rfl
  | _ => cases h

/-- Any other piece leaves the lexicon alone, and its token is no word. -/
theorem Piece.find_of_word?_eq_none (h : p.word? = none) :
    (p.find lexicon).2 = lexicon ∧
      ∀ kind, (p.find lexicon).1 = .token kind → kind.isWord = false := by
  cases p with
  | word letters => cases h
  | string _ | number _ _ | punct _ =>
      refine ⟨rfl, fun kind hkind => ?_⟩
      cases hkind
      rfl
  | _ => exact ⟨rfl, fun kind hkind => by cases hkind⟩

/-- A scan asks for the words of the source in turn, and its tokens have the symbols it gets. -/
theorem scanPieces_words (line : Position) (ps : List Piece) :
    ((scanPieces lexicon line ps).tokens.map Token.kind).filter Kind.isWord =
        (lexicon.internAll (ps.filterMap Piece.word?)).1.map Symbol.kind ∧
      (scanPieces lexicon line ps).lexicon = lexicon.knowing (ps.filterMap Piece.word?) := by
  induction ps generalizing lexicon line with
  | nil => exact ⟨rfl, rfl⟩
  | cons p ps ih =>
      obtain ⟨hkinds, hlexicon⟩ := @ih (p.find lexicon).2 (line.behind p.text)
      rw [scanPieces]
      cases hword : p.word? with
      | some name =>
          rw [Piece.find_of_word? hword] at hkinds hlexicon ⊢
          rw [List.filterMap_cons_some hword]
          refine ⟨?_, hlexicon⟩
          rw [List.map_cons, List.filter_cons_of_pos (Symbol.isWord_kind _), hkinds]
          rfl
      | none =>
          obtain ⟨hsame, hkind⟩ := @Piece.find_of_word?_eq_none lexicon _ hword
          rw [hsame] at hkinds hlexicon ⊢
          rw [List.filterMap_cons_none hword]
          cases hfound : (p.find lexicon).1 with
          | skipped => exact ⟨hkinds, hlexicon⟩
          | problem _ => exact ⟨hkinds, hlexicon⟩
          | token kind =>
              refine ⟨?_, hlexicon⟩
              rw [List.map_cons, List.filter_cons_of_neg (by simp [hkind kind hfound])]
              exact hkinds

end

/-- The lexicon of a session has met the clock and then the words of all sources. -/
theorem Session.lexicon_after (clock : Nat → Number) (fuel : Nat) (room : Option Nat)
    (sources : List String) :
    ((start room).after clock fuel sources).lexicon =
      Lexicon.reserved.knowing ("clock" :: sources.flatMap requests) := by
  induction sources using List.reverseRecOn with
  | nil => rfl
  | append_singleton sources source ih =>
      rw [after_concat, lexicon_eval, scan, (scanPieces_words 1 _).2, ih, List.flatMap_append,
        List.flatMap_singleton, ← List.cons_append, Lexicon.knowing_append]
      rfl

/-- Interning is faithful: for names that are asked for in turn,

* each symbol has the name that was asked for, and symbols are the same exactly if their names are;
* names that are asked for later change neither the symbols handed out before nor what is handed
  out for their names;
* the lexicon has each reserved word and each of the names once, and nothing else;
* a symbol is that of a reserved word exactly if it is spelled like the word, and the table made
  of the symbols that a new lexicon hands out for the reserved words agrees.

The scans of a session ask for nothing but the words of its sources, in order, and the words among
their tokens have the symbols that are handed out. -/
theorem interning_is_faithful :
    Lexicon.reserved = (Lexicon.empty.internAll (Keyword.all.map Keyword.spelling)).2 ∧
    (∀ names more : List String,
      let handed := Lexicon.reserved.internAll names
      let later := handed.2.internAll more
      handed.1.map Symbol.name = names ∧
      (∀ x ∈ handed.1, ∀ y ∈ handed.1,
        (x.id = y.id ↔ x.name = y.name) ∧ (x = y ↔ x.name = y.name)) ∧
      Lexicon.reserved.internAll (names ++ more) = (handed.1 ++ later.1, later.2) ∧
      (∀ x ∈ handed.1,
        later.2.words[x.id]? = some x.name ∧ later.2.intern x.name = (x, later.2)) ∧
      handed.2.words.Nodup ∧
      (∀ n, n ∈ handed.2.words ↔ (∃ k : Keyword, k.spelling = n) ∨ n ∈ names) ∧
      ∀ x ∈ handed.1, Lexicon.table.lookup x = x.keyword? ∧
        ∀ k, x.keyword? = some k ↔ k.spelling = x.name) ∧
    ∀ (clock : Nat → Number) (fuel : Nat) (room : Option Nat) (sources : List String),
      let session := (Session.start room).after clock fuel sources
      session.lexicon = (Lexicon.reserved.internAll ("clock" :: sources.flatMap requests)).2 ∧
      ∀ source, ((scan session.lexicon source).tokens.map Token.kind).filter Kind.isWord =
        (session.lexicon.internAll (requests source)).1.map Symbol.kind := by
  refine ⟨?_, fun names more => ?_, fun clock fuel room sources => ⟨?_, fun source => ?_⟩⟩
  · rw [Lexicon.snd_internAll, Lexicon.reserved_eq_knowing]
  · intro handed later
    have hlater : (Lexicon.reserved.knowing names).words <+: later.2.words := by
      simp only [later, handed, Lexicon.snd_internAll]
      exact Lexicon.words_prefix_knowing _ more
    have hnodup : later.2.words.Nodup := by
      simp only [later, handed, Lexicon.snd_internAll]
      exact Lexicon.nodup_knowing (Lexicon.nodup_knowing Lexicon.nodup_reserved)
    have hplace (x : Symbol) (hx : x ∈ handed.1) : later.2.words[x.id]? = some x.name :=
      Lexicon.getElem?_of_mem_internAll hx hlater
    have hsymbol (x : Symbol) (hx : x ∈ handed.1) : later.2.intern x.name = (x, later.2) :=
      Lexicon.intern_of_mem_internAll hnodup hx hlater
    refine ⟨Lexicon.map_name_internAll, fun x hx y hy => ?_, ?_,
      fun x hx => ⟨hplace x hx, hsymbol x hx⟩, ?_, fun n => ?_,
      fun x hx => ⟨Lexicon.lookup_table_of_mem_internAll hx, fun k => ?_⟩⟩
    · have hx' := hsymbol x hx
      have hid : x.id = y.id → x.name = y.name := by
        intro h
        rw [← Option.some_inj, ← hplace x hx, h, hplace y hy]
      have heq : x.name = y.name → x = y := by
        intro h
        rw [h, hsymbol y hy] at hx'
        exact (Prod.mk.inj hx').1.symm
      exact ⟨⟨hid, fun h => congrArg Symbol.id (heq h)⟩, ⟨congrArg Symbol.name, heq⟩⟩
    · rw [Lexicon.internAll_append]
      simp only [later, handed, Lexicon.snd_internAll]
    · simp only [handed, Lexicon.snd_internAll]
      exact Lexicon.nodup_knowing Lexicon.nodup_reserved
    · simp only [handed, Lexicon.snd_internAll]
      rw [Lexicon.mem_words_knowing, Lexicon.mem_words_reserved]
    · exact Lexicon.keyword?_of_mem_internAll hx
  · rw [Lexicon.snd_internAll, Session.lexicon_after]
  · exact (scanPieces_words 1 _).1

/-- The first names that are not reserved get the symbols behind those of the reserved words, and
`print` gets the one that it has. -/
example : (Lexicon.reserved.internAll ["prints", "print", "prin", "prints"]).1 =
    [⟨17, "prints"⟩, ⟨10, "print"⟩, ⟨18, "prin"⟩, ⟨17, "prints"⟩] := by
  decide +kernel

end Lox
