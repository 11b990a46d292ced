import Mathlib.Data.List.InsertIdx
import ManifestLint.Proofs.Stream.WellFormed

set_option autoImplicit false

/-! # The entries of a stream

What a stream shows of its tokens. A *piece* is a kind with a value; the pieces of a stream
decide its text. An *entry* is a token with its piece and its position; the handle of the token
is left out, as it only matters to the stream.

A draft is *sound* when its stream is well formed and holds tokens that exist. It is *owned*
when, besides, every token of the stream belongs to it; a second stream that takes a token over
ends that. What is done to a draft keeps both. -/

namespace ManifestLint

/-! ## Pieces -/

/-- A kind with a value. -/
structure Piece where
  kind : Kind
  value : String
deriving DecidableEq, Repr

namespace Piece

/-- One space. -/
def singleSpace : Piece := ⟨.whitespace, " "⟩

/-- Decides whether a piece only keeps others apart. -/
def isSpace (piece : Piece) : Bool := piece.kind.isSpace

/-- The characters of a piece. -/
def chars (piece : Piece) : List Char := piece.value.toList

/-- The text of pieces: their values one after another. -/
def text (pieces : List Piece) : String := String.join (pieces.map value)

/-- The characters of pieces, one after another. -/
def charsOf (pieces : List Piece) : List Char := pieces.flatMap chars

@[simp] theorem charsOf_nil : charsOf [] = [] := rfl

@[simp] theorem charsOf_cons (piece : Piece) (rest : List Piece) :
    charsOf (piece :: rest) = piece.chars ++ charsOf rest := rfl

@[simp] theorem charsOf_append (left right : List Piece) :
    charsOf (left ++ right) = charsOf left ++ charsOf right := List.flatMap_append

/-- What is no spacing has none of the kinds of spacing. -/
theorem kind_ne {piece : Piece} (h : piece.isSpace = false) {kind : Kind}
    (hkind : kind.isSpace = true) : piece.kind ≠ kind := by
  rintro rfl
  rw [isSpace, hkind] at h
  cases h

theorem toList_text (pieces : List Piece) : (text pieces).toList = charsOf pieces := by
  rw [text, String.join_eq_foldl]
  have hfold : ∀ (s : String), ((pieces.map value).foldl (· ++ ·) s).toList =
      s.toList ++ charsOf pieces := by
    induction pieces with
    | nil => intro s; simp
    | cons piece rest ih =>
        intro s
        rw [List.map_cons, List.foldl_cons, ih, String.toList_append, List.append_assoc]
        rfl
  rw [hfold]
  rfl

end Piece

/-- The single space, as it has to stand between two pieces. -/
def oneSpace : List Piece := [.singleSpace]

/-- The kind and the value of a token. -/
def Token.piece (token : Token) : Piece := ⟨token.kind, token.value⟩

/-- The kind and the value of a lexeme. -/
def Lexeme.piece (lexeme : Lexeme) : Piece := ⟨lexeme.kind, lexeme.value⟩

/-! ## Entries -/

/-- A token of a stream: its number, what it is, and where it began. -/
structure Entry where
  id : TokenId
  piece : Piece
  position : Position
deriving DecidableEq, Repr

namespace Entry

/-- The kind of an entry. -/
def kind (entry : Entry) : Kind := entry.piece.kind

/-- Decides whether an entry is spacing. -/
def isSpace (entry : Entry) : Bool := entry.piece.isSpace

theorem kind_ne {entry : Entry} (h : entry.isSpace = false) {kind : Kind}
    (hkind : kind.isSpace = true) : entry.kind ≠ kind := Piece.kind_ne h hkind

theorem isSpace_of_kind {entry : Entry} {kind : Kind} (h : entry.kind = kind)
    (hkind : kind.isSpace = false) : entry.isSpace = false :=
  (congrArg Kind.isSpace h).trans hkind

end Entry

/-- The entries of lexemes whose tokens are numbered from `first` on. -/
def Lexeme.entriesFrom (first : TokenId) : List Lexeme → List Entry
  | [] => []
  | lexeme :: rest => ⟨first, lexeme.piece, lexeme.position⟩ :: entriesFrom (first + 1) rest

theorem Lexeme.map_piece_entriesFrom (first : TokenId) (lexemes : List Lexeme) :
    (entriesFrom first lexemes).map Entry.piece = lexemes.map piece := by
  induction lexemes generalizing first with
  | nil => rfl
  | cons lexeme rest ih => rw [entriesFrom, List.map_cons, ih, List.map_cons]

theorem Lexeme.map_position_entriesFrom (first : TokenId) (lexemes : List Lexeme) :
    (entriesFrom first lexemes).map Entry.position = lexemes.map position := by
  induction lexemes generalizing first with
  | nil => rfl
  | cons lexeme rest ih => rw [entriesFrom, List.map_cons, ih, List.map_cons]

/-- The entry of a token. -/
def Pool.entry (pool : Pool) (token : TokenId) : Entry :=
  ⟨token, (pool.get token).piece, (pool.get token).position⟩

namespace Draft

/-- The entries of a stream from front to back. -/
def entries (draft : Draft) : List Entry := draft.stream.tokens.map draft.pool.entry

/-- The pieces of a stream from front to back. -/
def pieces (draft : Draft) : List Piece := draft.contents.map Token.piece

/-- The entries that are no spacing. -/
def code (draft : Draft) : List Entry := draft.entries.filter fun entry => !entry.isSpace

theorem pieces_eq (draft : Draft) : draft.pieces = draft.entries.map Entry.piece := by
  simp [pieces, contents, entries, Pool.entry]

theorem render_eq (draft : Draft) : draft.render = Piece.text draft.pieces := by
  simp only [render, pieces, Piece.text, List.map_map]
  rfl

/-- The draft with the cache of its stream brought up to date. -/
def refreshed (draft : Draft) : Draft := ⟨draft.pool, draft.stream.refresh⟩

@[simp] theorem refreshed_pool (draft : Draft) : draft.refreshed.pool = draft.pool := rfl

@[simp] theorem refreshed_stream (draft : Draft) :
    draft.refreshed.stream = draft.stream.refresh := rfl

@[simp] theorem entries_refreshed (draft : Draft) : draft.refreshed.entries = draft.entries := by
  simp [entries]

@[simp] theorem refreshed_refreshed (draft : Draft) :
    draft.refreshed.refreshed = draft.refreshed := by
  simp [refreshed, Stream.refresh_refresh]

end Draft

/-! ## Changes of the pool -/

namespace Pool

@[simp] theorem entry_setHandle (pool : Pool) (token : TokenId) (handle : Nat) :
    (pool.setHandle token handle).entry = pool.entry := by
  funext other
  simp only [entry, setHandle, get_modify]
  split <;> rfl

@[simp] theorem size_setHandle (pool : Pool) (token : TokenId) (handle : Nat) :
    (pool.setHandle token handle).size = pool.size := size_modify _ _ _

@[simp] theorem size_setValue (pool : Pool) (token : TokenId) (value : String) :
    (pool.setValue token value).size = pool.size := size_modify _ _ _

theorem get_of_size_le (pool : Pool) {token : TokenId} (h : pool.size ≤ token) :
    pool.get token = default := by
  simp only [get, size] at *
  rw [Array.getD_eq_getD_getElem?, Array.getElem?_eq_none h]
  rfl

theorem entry_add_of_lt (pool : Pool) (token : Token) {other : TokenId} (h : other < pool.size) :
    (pool.add token).entry other = pool.entry other := by
  simp only [entry, get_add, if_neg (Nat.ne_of_lt h)]

theorem entry_add_size (pool : Pool) (token : Token) :
    (pool.add token).entry pool.size = ⟨pool.size, token.piece, token.position⟩ := by
  simp only [entry, get_add, if_pos]

theorem entry_setValue_of_ne (pool : Pool) {token other : TokenId} (h : other ≠ token)
    (value : String) : (pool.setValue token value).entry other = pool.entry other := by
  simp only [entry, setValue, get_modify]
  rw [if_neg fun hand => h hand.1]

theorem entry_setValue_self (pool : Pool) {token : TokenId} (h : token < pool.size)
    (value : String) : (pool.setValue token value).entry token =
      ⟨token, ⟨(pool.get token).kind, value⟩, (pool.get token).position⟩ := by
  simp only [entry, setValue, get_modify]
  rw [if_pos ⟨trivial, h⟩]
  rfl

theorem handle_setValue (pool : Pool) (token other : TokenId) (value : String) :
    ((pool.setValue token value).get other).handle = (pool.get other).handle := by
  simp only [setValue, get_modify]
  split <;> rfl

end Pool

/-! ## Sound and owned drafts -/

namespace Draft

/-- The stream is well formed, and its tokens exist. -/
structure Sound (draft : Draft) : Prop where
  wellFormed : draft.stream.WellFormed
  arena_lt : ∀ h token, draft.stream.arena.get? h = some token → token < draft.pool.size

/-- Every token of the stream belongs to it. -/
structure Owned (draft : Draft) : Prop extends Sound draft where
  handle_eq : ∀ h token, draft.stream.arena.get? h = some token →
    (draft.pool.get token).handle = some h

theorem mem_tokens {draft : Draft} (hs : draft.Sound) {token : TokenId} :
    token ∈ draft.stream.tokens ↔ ∃ h, draft.stream.arena.get? h = some token := by
  simp only [Stream.tokens, List.mem_filterMap]
  constructor
  · rintro ⟨h, -, harena⟩
    exact ⟨h, harena⟩
  · rintro ⟨h, harena⟩
    have hmem := (hs.wellFormed.arena_isSome h).1 (by simp [harena])
    exact ⟨h, hmem, harena⟩

theorem lt_of_mem_tokens {draft : Draft} (hs : draft.Sound) {token : TokenId}
    (hmem : token ∈ draft.stream.tokens) : token < draft.pool.size := by
  obtain ⟨h, harena⟩ := (mem_tokens hs).1 hmem
  exact hs.arena_lt h token harena

theorem isLive_iff {draft : Draft} {token : TokenId} :
    draft.isLive token = true ↔
      ∃ h, (draft.pool.get token).handle = some h ∧ draft.stream.arena.get? h = some token := by
  unfold isLive Stream.holds
  cases (draft.pool.get token).handle with
  | none => simp
  | some h => simp

/-- In an owned draft the tokens that belong to the stream are those that stand in it. -/
theorem isLive_iff_mem {draft : Draft} (ho : draft.Owned) {token : TokenId} :
    draft.isLive token = true ↔ token ∈ draft.stream.tokens := by
  rw [isLive_iff, mem_tokens ho.toSound]
  constructor
  · rintro ⟨h, -, harena⟩
    exact ⟨h, harena⟩
  · rintro ⟨h, harena⟩
    exact ⟨h, ho.handle_eq h token harena, harena⟩

theorem nodup_tokens {draft : Draft} (ho : draft.Owned) : draft.stream.tokens.Nodup := by
  apply ho.wellFormed.nodup.filterMap
  intro h h' token harena harena'
  have heq := (ho.handle_eq h token harena).symm.trans (ho.handle_eq h' token harena')
  exact Option.some.inj heq

theorem Sound.refreshed {draft : Draft} (hs : draft.Sound) : draft.refreshed.Sound where
  wellFormed := hs.wellFormed.refresh
  arena_lt h token harena := hs.arena_lt h token (by simpa using harena)

theorem Owned.refreshed {draft : Draft} (ho : draft.Owned) : draft.refreshed.Owned where
  toSound := ho.toSound.refreshed
  handle_eq h token harena := ho.handle_eq h token (by simpa using harena)

theorem Sound.add {draft : Draft} (hs : draft.Sound) (token : Token) :
    (Draft.mk (draft.pool.add token) draft.stream).Sound where
  wellFormed := hs.wellFormed
  arena_lt h other harena := by
    have hlt : other < draft.pool.size := hs.arena_lt h other harena
    show other < (draft.pool.add token).size
    rw [Pool.size_add]
    exact Nat.lt_succ_of_lt hlt

theorem Owned.add {draft : Draft} (ho : draft.Owned) (token : Token) :
    (Draft.mk (draft.pool.add token) draft.stream).Owned where
  toSound := ho.toSound.add token
  handle_eq h other harena := by
    have hlt := ho.arena_lt h other harena
    rw [Pool.get_add, if_neg (Nat.ne_of_lt hlt)]
    exact ho.handle_eq h other harena

theorem Sound.setValue {draft : Draft} (hs : draft.Sound) (token : TokenId) (value : String) :
    (Draft.mk (draft.pool.setValue token value) draft.stream).Sound where
  wellFormed := hs.wellFormed
  arena_lt h other harena := by
    show other < (draft.pool.setValue token value).size
    rw [Pool.size_setValue]
    exact hs.arena_lt h other harena

theorem Owned.setValue {draft : Draft} (ho : draft.Owned) (token : TokenId) (value : String) :
    (Draft.mk (draft.pool.setValue token value) draft.stream).Owned where
  toSound := ho.toSound.setValue token value
  handle_eq h other harena := by
    rw [Pool.handle_setValue]
    exact ho.handle_eq h other harena

theorem Sound.insertAt {draft : Draft} (hs : draft.Sound) {position : Nat}
    (hposition : position ≤ draft.stream.size) {token : TokenId}
    (hlt : token < draft.pool.size) : (draft.insertAt position token).Sound where
  wellFormed := hs.wellFormed.insertAt hposition token
  arena_lt h other harena := by
    simp only [Draft.insertAt, Pool.size_setHandle]
    simp only [Draft.insertAt, Stream.insertAt, Table.get?_insert] at harena
    split at harena
    · cases harena
      exact hlt
    · exact hs.arena_lt h other harena

theorem Owned.insertAt {draft : Draft} (ho : draft.Owned) {position : Nat}
    (hposition : position ≤ draft.stream.size) {token : TokenId}
    (hlt : token < draft.pool.size) (hnew : token ∉ draft.stream.tokens) :
    (draft.insertAt position token).Owned where
  toSound := ho.toSound.insertAt hposition hlt
  handle_eq h other harena := by
    simp only [Draft.insertAt, Stream.insertAt, Table.get?_insert] at harena
    simp only [Draft.insertAt, Pool.setHandle, Pool.get_modify]
    split at harena
    · rename_i hh
      cases harena
      rw [if_pos (And.intro rfl hlt), hh]
    · have hne : other ≠ token := by
        rintro rfl
        exact hnew ((mem_tokens ho.toSound).2 ⟨h, harena⟩)
      rw [if_neg fun hand => hne hand.1]
      exact ho.handle_eq h other harena

theorem Sound.removeAt {draft : Draft} (hs : draft.Sound) {position handle : Nat}
    (hget : draft.stream.order[position]? = some handle) :
    (Draft.mk draft.pool (draft.stream.removeAt position handle)).Sound where
  wellFormed := hs.wellFormed.removeAt hget
  arena_lt h token harena := by
    simp only [Stream.removeAt, Table.get?_erase] at harena
    split at harena
    · cases harena
    · exact hs.arena_lt h token harena

theorem Owned.removeAt {draft : Draft} (ho : draft.Owned) {position handle : Nat}
    (hget : draft.stream.order[position]? = some handle) :
    (Draft.mk draft.pool (draft.stream.removeAt position handle)).Owned where
  toSound := ho.toSound.removeAt hget
  handle_eq h token harena := by
    simp only [Stream.removeAt, Table.get?_erase] at harena
    split at harena
    · cases harena
    · exact ho.handle_eq h token harena

/-! ## Changes of the entries -/

theorem insertIdx_length_append {α : Type} (pre post : List α) (a : α) :
    (pre ++ post).insertIdx pre.length a = pre ++ a :: post := by
  induction pre with
  | nil => rfl
  | cons b rest ih => rw [List.cons_append, List.length_cons, List.insertIdx_succ_cons, ih]; rfl

theorem length_entries {draft : Draft} (hs : draft.Sound) :
    draft.entries.length = draft.stream.size := by
  rw [entries, List.length_map, hs.wellFormed.length_tokens]

/-- A token that is put in stands at its place among the entries. -/
theorem entries_insertAt {draft : Draft} (hs : draft.Sound) {pre post : List Entry}
    (hentries : draft.entries = pre ++ post) (token : TokenId) :
    (draft.insertAt pre.length token).entries = pre ++ draft.pool.entry token :: post := by
  have hle : pre.length ≤ draft.stream.size := by
    rw [← length_entries hs, hentries, List.length_append]
    omega
  simp only [Draft.insertAt, entries, Pool.entry_setHandle]
  rw [hs.wellFormed.tokens_insertAt hle, List.map_insertIdx]
  show draft.entries.insertIdx _ _ = _
  rw [hentries]
  exact insertIdx_length_append pre post (draft.pool.entry token)

/-- A token that is taken out is missing among the entries. -/
theorem entries_removeAt {draft : Draft} (hs : draft.Sound) {pre post : List Entry}
    {entry : Entry} (hentries : draft.entries = pre ++ entry :: post) {handle : Nat}
    (hget : draft.stream.order[pre.length]? = some handle) :
    (Draft.mk draft.pool (draft.stream.removeAt pre.length handle)).entries = pre ++ post := by
  simp only [entries]
  rw [hs.wellFormed.tokens_removeAt hget, ← List.eraseIdx_map]
  show draft.entries.eraseIdx _ = _
  rw [hentries, List.eraseIdx_append_of_length_le (Nat.le_refl _), Nat.sub_self]
  rfl

/-! ## The draft of a source -/

theorem owned_empty (pool : Pool) (source : String) : (Draft.mk pool (.empty source)).Owned where
  wellFormed := Stream.wellFormed_empty source
  arena_lt h token harena := by simp [Stream.empty] at harena
  handle_eq h token harena := by simp [Stream.empty] at harena

/-- A new token at the end. -/
theorem Owned.append {draft : Draft} (ho : draft.Owned) (lexeme : Lexeme) :
    (draft.append lexeme).Owned ∧ (draft.append lexeme).pool.size = draft.pool.size + 1 ∧
      (draft.append lexeme).entries =
        draft.entries ++ [⟨draft.pool.size, lexeme.piece, lexeme.position⟩] := by
  have hadd := ho.add (.ofLexeme lexeme)
  have hlt : draft.pool.size < (draft.pool.add (.ofLexeme lexeme)).size := by
    rw [Pool.size_add]
    omega
  have hnew : draft.pool.size ∉ draft.stream.tokens := fun hmem =>
    Nat.lt_irrefl _ (lt_of_mem_tokens ho.toSound hmem)
  refine ⟨hadd.insertAt (Nat.le_refl _) hlt hnew, ?_, ?_⟩
  · simp [Draft.append, Draft.insertAt, Pool.size_add]
  simp only [Draft.append, entries, Draft.insertAt, Pool.entry_setHandle]
  rw [ho.wellFormed.tokens_insertAt_size, List.map_append, List.map_singleton,
    Pool.entry_add_size]
  congr 1
  apply List.map_congr_left
  intro token hmem
  exact Pool.entry_add_of_lt _ _ (lt_of_mem_tokens ho.toSound hmem)

theorem Owned.appendAll {draft : Draft} (ho : draft.Owned) (lexemes : List Lexeme) :
    (draft.appendAll lexemes).Owned ∧
      (draft.appendAll lexemes).entries =
        draft.entries ++ Lexeme.entriesFrom draft.pool.size lexemes := by
  induction lexemes generalizing draft with
  | nil => exact ⟨ho, (List.append_nil draft.entries).symm⟩
  | cons lexeme rest ih =>
      obtain ⟨hnext, hsize, hentries⟩ := ho.append lexeme
      obtain ⟨hrest, hothers⟩ := ih hnext
      refine ⟨hrest, ?_⟩
      show ((draft.append lexeme).appendAll rest).entries = _
      rw [hothers, hentries, hsize, List.append_assoc]
      rfl

theorem owned_ofLexemes (source : String) (lexemes : List Lexeme) :
    (ofLexemes source lexemes).Owned :=
  ((owned_empty .empty source).appendAll lexemes).1

theorem entries_ofLexemes (source : String) (lexemes : List Lexeme) :
    (ofLexemes source lexemes).entries = Lexeme.entriesFrom 0 lexemes :=
  ((owned_empty .empty source).appendAll lexemes).2

theorem pieces_ofLexemes (source : String) (lexemes : List Lexeme) :
    (ofLexemes source lexemes).pieces = lexemes.map Lexeme.piece := by
  rw [pieces_eq, entries_ofLexemes, Lexeme.map_piece_entriesFrom]

end Draft

end ManifestLint
