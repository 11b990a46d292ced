import ManifestLint.Proofs.Stream.Faults
import ManifestLint.Proofs.Stream.Follows

set_option autoImplicit false

/-! # Streams as plain lists

What a stream comes to when handles, arena and cache are left out: a list of tokens. `Call.plain`
says what every call answers on such a list and what list it leaves, and `Operation.runPlain` does
so for all operations on several lists over common tokens. When an operation fails, everything
stays as it was.

On an owned draft a call does just that (`Call.run_plain`). -/

namespace ManifestLint

/-! ## Lists -/

/-- A list of tokens, with the pieces of all tokens that were made. -/
structure PlainDraft where
  pieces : Array Piece
  list : List TokenId

/-- The elements of a list on one side of an element, the nearest first. -/
def Direction.beyond (list : List TokenId) (t : TokenId) : Direction → List TokenId
  | back => (list.take (list.idxOf t)).reverse
  | forth => list.drop (list.idxOf t + 1)

namespace PlainDraft

/-- The kind and the value of a token. -/
def piece (draft : PlainDraft) (t : TokenId) : Piece :=
  draft.pieces.getD t (default : Token).piece

/-- Puts a token at a position of the list, unless it stands there already or there is no such
position. -/
def insert (draft : PlainDraft) (place : Int) (t : TokenId) : Except Fault (Answer × PlainDraft) :=
  if t ∈ draft.list then .error (.alreadyPresent t)
  else if 0 ≤ place ∧ place ≤ draft.list.length then
    .ok (.token t, { draft with list := draft.list.insertIdx place.toNat t })
  else .error (.insertOutOfRange place)

/-- An answer about an element of the list. -/
def about (draft : PlainDraft) (t : TokenId) (answer : Answer) :
    Except Fault (Answer × PlainDraft) :=
  if t ∈ draft.list then .ok (answer, draft) else .error (.stale t)

/-- The element at a position; a negative position counts from the end. -/
def elementAt (draft : PlainDraft) (place : Int) : Option TokenId :=
  let position := if place < 0 then place + draft.list.length else place
  if 0 ≤ position then draft.list[position.toNat]? else none

/-- Puts tokens at the end of a list, one after another; none may stand there already. -/
def fill : List TokenId → List TokenId → Except Fault (List TokenId)
  | list, [] => .ok list
  | list, t :: rest => if t ∈ list then .error (.alreadyPresent t) else fill (list ++ [t]) rest

end PlainDraft

open PlainDraft in
/-- What a call answers on a plain list, and the list that it leaves. -/
def Call.plain (draft : PlainDraft) : Call → Except Fault (Answer × PlainDraft)
  | insert place t => draft.insert place t
  | insertBefore anchor t =>
    if anchor ∈ draft.list then draft.insert (draft.list.idxOf anchor) t
    else .error (.stale anchor)
  | remove t =>
    if t ∈ draft.list then
      .ok (.number (draft.list.idxOf t), { draft with list := draft.list.erase t })
    else .error (.stale t)
  | index t => draft.about t (.number (draft.list.idxOf t))
  | neighbour direction t => draft.about t (.optional (direction.beyond draft.list t).head?)
  | nearest direction skip t => draft.about t
      (.optional ((direction.beyond draft.list t).find? fun u => !skip (draft.piece u).kind))
  | isLive t => .ok (.verdict (decide (t ∈ draft.list)), draft)
  | setValue t value =>
    .ok (.done, { draft with
      pieces := draft.pieces.modify t fun piece => { piece with value := value } })
  | iterate => .ok (.tokens draft.list, draft)
  | tokenAt place =>
    match draft.elementAt place with
    | some t => .ok (.token t, draft)
    | none => .error .indexOutOfRange
  | ofKinds kinds =>
    .ok (.tokens (draft.list.filter fun t => kinds.contains (draft.piece t).kind), draft)
  | size => .ok (.number draft.list.length, draft)
  | render => .ok (.text (Piece.text (draft.list.map draft.piece)), draft)

/-- Several lists over common tokens. -/
structure PlainStore where
  pieces : Array Piece
  lists : Array (List TokenId)

namespace PlainStore

/-- No tokens and no lists. -/
def empty : PlainStore := ⟨#[], #[]⟩

/-- One of the lists, with the pieces. -/
def draft (store : PlainStore) (n : Nat) : PlainDraft := ⟨store.pieces, store.lists.getD n []⟩

/-- The lists with one of them and the pieces replaced. -/
def putDraft (store : PlainStore) (n : Nat) (draft : PlainDraft) : PlainStore :=
  ⟨draft.pieces, store.lists.setIfInBounds n draft.list⟩

end PlainStore

/-- Carries an operation out on plain lists. An operation that fails changes nothing. -/
def Operation.runPlain (store : PlainStore) : Operation → Except Fault Answer × PlainStore
  | make token =>
    (.ok (.token store.pieces.size), { store with pieces := store.pieces.push token.piece })
  | fill _ tokens =>
    match PlainDraft.fill [] tokens with
    | .ok list => (.ok (.number store.lists.size), { store with lists := store.lists.push list })
    | .error fault => (.error fault, store)
  | read _ lexemes =>
    (.ok (.number store.lists.size),
      ⟨store.pieces ++ (lexemes.map Lexeme.piece).toArray,
        store.lists.push (List.range' store.pieces.size lexemes.length)⟩)
  | call n asked =>
    match asked.plain (store.draft n) with
    | .ok (answer, draft) => (.ok answer, store.putDraft n draft)
    | .error fault => (.error fault, store)

namespace PlainStore

/-- The lists that a history leaves. -/
def after (store : PlainStore) : List Operation → PlainStore
  | [] => store
  | operation :: rest => after (operation.runPlain store).2 rest

/-- The answers that a history gets. -/
def answers (store : PlainStore) : List Operation → List (Except Fault Answer)
  | [] => []
  | operation :: rest => (operation.runPlain store).1 :: answers (operation.runPlain store).2 rest

end PlainStore

/-! ## From streams to lists -/

/-- The pieces of all tokens. -/
def Pool.pieces (pool : Pool) : Array Piece := pool.tokens.map Token.piece

/-- The plain list that a stream comes to. -/
def Draft.plain (draft : Draft) : PlainDraft := ⟨draft.pool.pieces, draft.stream.tokens⟩

namespace Pool

theorem size_pieces (pool : Pool) : pool.pieces.size = pool.size := Array.size_map

theorem getD_pieces (pool : Pool) (t : TokenId) :
    pool.pieces.getD t (default : Token).piece = (pool.get t).piece := by
  simp only [pieces, get, Array.getD_eq_getD_getElem?, Array.getElem?_map]
  cases pool.tokens[t]? <;> rfl

theorem pieces_add (pool : Pool) (token : Token) :
    (pool.add token).pieces = pool.pieces.push token.piece := Array.map_push

theorem pieces_modify (pool : Pool) (t : TokenId) {f : Token → Token} {g : Piece → Piece}
    (h : ∀ token, (f token).piece = g token.piece) :
    (pool.modify t f).pieces = pool.pieces.modify t g := by
  apply Array.ext_getElem?
  intro i
  simp only [pieces, modify, Array.getElem?_map, Array.getElem?_modify]
  split
  · cases pool.tokens[i]? with
    | none => rfl
    | some token => exact congrArg some (h token)
  · rfl

theorem pieces_setHandle (pool : Pool) (t : TokenId) (handle : Nat) :
    (pool.setHandle t handle).pieces = pool.pieces := by
  have hmodify : pool.pieces.modify t id = pool.pieces := by
    apply Array.ext_getElem?
    intro i
    rw [Array.getElem?_modify]
    split <;> simp
  exact (pool.pieces_modify t fun _ => rfl).trans hmodify

theorem pieces_setValue (pool : Pool) (t : TokenId) (value : String) :
    (pool.setValue t value).pieces =
      pool.pieces.modify t fun piece => { piece with value := value } :=
  pool.pieces_modify t fun _ => rfl

end Pool

namespace Draft

@[simp] theorem plain_list (draft : Draft) : draft.plain.list = draft.stream.tokens := rfl

@[simp] theorem plain_refreshed (draft : Draft) : draft.refreshed.plain = draft.plain := by
  simp [plain]

theorem plain_piece (draft : Draft) (t : TokenId) :
    draft.plain.piece t = (draft.pool.get t).piece := draft.pool.getD_pieces t

end Draft

/-! ## Positions and neighbours -/

section Positions

variable {draft : Draft} {t : TokenId}

/-- The position of a token is its index in the list. -/
theorem Draft.Owned.run_index (ho : draft.Owned) (hmem : t ∈ draft.stream.tokens) :
    ∃ handle, (draft.pool.get t).handle = some handle ∧
      draft.stream.order[draft.stream.tokens.idxOf t]? = some handle ∧
      (Edit.index t).run draft = .ok (draft.stream.tokens.idxOf t) draft.refreshed := by
  obtain ⟨position, handle, hhandle, harena, hget, hrun⟩ :=
    Edit.run_index_of_live ho.wellFormed ((isLive_iff_mem ho).2 hmem)
  obtain ⟨hlt, rfl⟩ := List.getElem?_eq_some_iff.1 (ho.wellFormed.tokens_at hget harena)
  rw [(nodup_tokens ho).idxOf_getElem position hlt]
  exact ⟨handle, hhandle, hget, hrun⟩

theorem Draft.Owned.isLive_of_notMem (ho : draft.Owned) (hmem : t ∉ draft.stream.tokens) :
    draft.isLive t = false := by
  rw [Bool.eq_false_iff, ne_eq, isLive_iff_mem ho]
  exact hmem

theorem head?_beyond_back {list : List TokenId} (hmem : t ∈ list) :
    (Direction.back.beyond list t).head? =
      if list.idxOf t = 0 then none else list[list.idxOf t - 1]? := by
  have hlt := List.idxOf_lt_length_of_mem hmem
  show (list.take (list.idxOf t)).reverse.head? = _
  rw [List.head?_reverse, List.getLast?_take]
  split
  · rfl
  · rw [List.getElem?_eq_getElem (by omega)]
    rfl

theorem head?_beyond_forth (list : List TokenId) (t : TokenId) :
    (Direction.forth.beyond list t).head? = list[list.idxOf t + 1]? := List.head?_drop

theorem Draft.Owned.run_step (ho : draft.Owned) (hmem : t ∈ draft.stream.tokens)
    (direction : Direction) : (direction.step t).run draft =
      .ok (direction.beyond draft.stream.tokens t).head? draft.refreshed := by
  obtain ⟨handle, -, hget, hrun⟩ := ho.run_index hmem
  have hlt : draft.stream.tokens.idxOf t < draft.stream.size := (List.getElem?_eq_some_iff.1 hget).1
  cases direction with
  | back =>
      rw [head?_beyond_back hmem]
      exact Edit.run_prev ho.wellFormed hrun hlt
  | forth =>
      rw [head?_beyond_forth]
      exact Edit.run_next ho.wellFormed hrun

theorem split_at_idxOf {list : List TokenId} (hmem : t ∈ list) :
    list = list.take (list.idxOf t) ++ t :: list.drop (list.idxOf t + 1) := by
  have hlt := List.idxOf_lt_length_of_mem hmem
  have hcons := List.drop_eq_getElem_cons hlt
  rw [List.getElem_idxOf hlt] at hcons
  rw [← hcons, List.take_append_drop]

/-- A search finds the nearest token on its side that is not to be skipped. -/
theorem Draft.Owned.run_search (ho : draft.Owned) (hmem : t ∈ draft.stream.tokens)
    (direction : Direction) (skip : Kind → Bool) :
    ∃ after, (Edit.search direction.step skip t).run draft = .ok
      ((direction.beyond draft.stream.tokens t).find? fun u => !skip (draft.pool.get u).kind)
      after := by
  have hshows : draft.Shows ⟨draft.entries, draft.pool.size⟩ := ⟨ho, rfl, rfl⟩
  have hsplit : draft.entries =
      (draft.stream.tokens.take (draft.stream.tokens.idxOf t)).map draft.pool.entry ++
        draft.pool.entry t ::
          (draft.stream.tokens.drop (draft.stream.tokens.idxOf t + 1)).map draft.pool.entry := by
    rw [← List.map_cons, ← List.map_append, ← split_at_idxOf hmem]
    rfl
  have hfound : ∀ side : List TokenId,
      ((side.map draft.pool.entry).find? fun e => !skip e.kind).map Entry.id =
        side.find? fun u => !skip (draft.pool.get u).kind := by
    intro side
    rw [List.find?_map, Option.map_map]
    exact Option.map_id'
  rw [← hfound]
  cases direction with
  | back =>
      have hback : draft.entries.reverse = _ := congrArg List.reverse hsplit
      rw [List.reverse_append, List.reverse_cons, List.append_assoc, List.singleton_append] at hback
      obtain ⟨after, hrun, -⟩ :=
        (Edit.follows_prev ⟨draft.entries, draft.pool.size⟩).search_reads skip hback draft hshows
      rw [← List.map_reverse] at hrun
      exact ⟨after, hrun⟩
  | forth =>
      obtain ⟨after, hrun, -⟩ :=
        (Edit.follows_next ⟨draft.entries, draft.pool.size⟩).search_reads skip hsplit draft hshows
      exact ⟨after, hrun⟩

end Positions

/-! ## Calls -/

/-- A program on a draft comes to an outcome on the plain list: it gives the same answer and
leaves the list that is expected, or it fails alike and leaves all tokens and the list as they
were. -/
def Edit.ComesTo (e : Edit Answer) (draft : Draft) : Except Fault (Answer × PlainDraft) → Prop
  | .ok (answer, next) => ∃ after, e.run draft = .ok answer after ∧ after.plain = next
  | .error fault => ∃ after, e.run draft = .error fault after ∧ after.pool = draft.pool ∧
      after.plain = draft.plain

namespace Edit

variable {draft : Draft} {t : TokenId}

theorem ComesTo.of_refreshed {e e' : Edit Answer} {outcome : Except Fault (Answer × PlainDraft)}
    (hrun : e.run draft = e'.run draft.refreshed) (h : e'.ComesTo draft.refreshed outcome) :
    e.ComesTo draft outcome := by
  cases outcome with
  | ok result =>
      obtain ⟨after, hafter, hplain⟩ := h
      exact ⟨after, hrun.trans hafter, hplain⟩
  | error fault =>
      obtain ⟨after, hafter, hpool, hplain⟩ := h
      exact ⟨after, hrun.trans hafter, hpool, hplain.trans draft.plain_refreshed⟩

/-- A program that needs its token in the stream, and then answers and only looks. -/
theorem comesTo_about {e : Edit Answer} {answer : Answer} (hreads : e.ReadsOnly)
    (hmem : t ∈ draft.stream.tokens → ∃ after, e.run draft = .ok answer after)
    (hnotMem : t ∉ draft.stream.tokens → e.run draft = .error (.stale t) draft) :
    e.ComesTo draft (draft.plain.about t answer) := by
  unfold PlainDraft.about
  split
  · rename_i h
    obtain ⟨after, hrun⟩ := hmem h
    refine ⟨after, hrun, ?_⟩
    have hfinal := hreads draft
    rw [final_of_ok hrun] at hfinal
    rcases hfinal with rfl | rfl
    · rfl
    · exact draft.plain_refreshed
  · rename_i h
    exact ⟨draft, hnotMem h, rfl, rfl⟩

theorem comesTo_insert (ho : draft.Owned) (place : Int) (t : TokenId) :
    ((insert place t).answering .token).ComesTo draft (draft.plain.insert place t) := by
  have hlength := ho.wellFormed.length_tokens
  unfold PlainDraft.insert
  simp only [Draft.plain_list, hlength]
  split
  · rename_i hmem
    have hlive := (Draft.isLive_iff_mem ho).2 hmem
    exact ⟨draft, run_answering_error (run_insert_of_live hlive place) _, rfl, rfl⟩
  · rename_i hmem
    have hlive := ho.isLive_of_notMem hmem
    split
    · rename_i hinside
      obtain ⟨position, rfl⟩ := Int.eq_ofNat_of_zero_le hinside.1
      have hposition : position ≤ draft.stream.size := Int.ofNat_le.1 hinside.2
      refine ⟨_, run_answering_ok (run_insert_of_not_live hlive hposition) _, ?_⟩
      simp only [Draft.plain, Draft.insertAt, Pool.pieces_setHandle,
        ho.wellFormed.tokens_insertAt hposition, Int.toNat_natCast]
    · rename_i houtside
      exact ⟨draft, run_answering_error (run_insert_of_outside hlive houtside) _, rfl, rfl⟩

theorem comesTo_insertBefore (ho : draft.Owned) (anchor t : TokenId) :
    ((insertBefore anchor t).answering .token).ComesTo draft
      (Call.plain draft.plain (.insertBefore anchor t)) := by
  simp only [Call.plain]
  split
  · rename_i hmem
    obtain ⟨-, -, -, hrun⟩ := ho.run_index hmem
    have hinsert := comesTo_insert ho.refreshed (draft.stream.tokens.idxOf anchor) t
    rw [draft.plain_refreshed] at hinsert
    refine hinsert.of_refreshed ?_
    unfold answering insertBefore
    rw [bind_assoc, run_bind_ok hrun]
  · rename_i hmem
    have hlive := ho.isLive_of_notMem hmem
    exact ⟨draft, run_answering_error (run_bind_error (run_index_of_not_live hlive)) _, rfl, rfl⟩

theorem comesTo_remove (ho : draft.Owned) (t : TokenId) :
    ((remove t).answering .number).ComesTo draft (Call.plain draft.plain (.remove t)) := by
  simp only [Call.plain]
  split
  · rename_i hmem
    obtain ⟨handle, hhandle, hget, hrun⟩ := ho.run_index hmem
    have hget' : draft.stream.refresh.order[draft.stream.tokens.idxOf t]? = some handle := by
      simpa using hget
    have hremove : (remove t).run draft = .ok (draft.stream.tokens.idxOf t)
        ⟨draft.pool, draft.stream.refresh.removeAt (draft.stream.tokens.idxOf t) handle⟩ := by
      unfold remove
      rw [run_bind_ok hrun, Edit.run_bind, Edit.run_get]
      simp only [Draft.refreshed_pool, hhandle]
      rfl
    refine ⟨_, run_answering_ok hremove _, ?_⟩
    simp only [Draft.plain, ho.wellFormed.refresh.tokens_removeAt hget', Stream.refresh_tokens]
    rw [List.erase_eq_eraseIdx_of_idxOf rfl]
  · rename_i hmem
    have hlive := ho.isLive_of_notMem hmem
    exact ⟨draft, run_answering_error (run_remove_of_not_live hlive) _, rfl, rfl⟩

theorem comesTo_tokenAt (ho : draft.Owned) (place : Int) :
    ((tokenAtIndex place).answering .token).ComesTo draft
      (Call.plain draft.plain (.tokenAt place)) := by
  have hlength := ho.wellFormed.length_tokens
  by_cases hinside : -(draft.stream.size : Int) ≤ place ∧ place < draft.stream.size
  · obtain ⟨position, hplace⟩ := Int.eq_ofNat_of_zero_le
      (show 0 ≤ if place < 0 then place + draft.stream.size else place by split <;> omega)
    have hlt : position < draft.stream.tokens.length := by
      split at hplace <;> omega
    have hget := List.getElem?_eq_getElem hlt
    have helement : draft.plain.elementAt place = some draft.stream.tokens[position] := by
      simp only [PlainDraft.elementAt, Draft.plain_list, hlength, hplace]
      rw [if_pos (by omega), Int.toNat_natCast, hget]
    simp only [Call.plain, helement]
    exact ⟨draft, run_answering_ok (run_tokenAtIndex ho.wellFormed hplace hget) _, rfl⟩
  · have helement : draft.plain.elementAt place = none := by
      simp only [PlainDraft.elementAt, Draft.plain_list, hlength]
      split_ifs with hneg hge hge
      · omega
      · rfl
      · exact List.getElem?_eq_none (by omega)
      · rfl
    simp only [Call.plain, helement]
    exact ⟨draft, run_answering_error (run_tokenAtIndex_of_outside hinside) _, rfl, rfl⟩

end Edit

/-- **A call of an owned draft** comes to what it does on the plain list. -/
theorem Call.comesTo {draft : Draft} (ho : draft.Owned) (call : Call) :
    call.edit.ComesTo draft (call.plain draft.plain) := by
  have hpiece : draft.plain.piece = fun t => (draft.pool.get t).piece :=
    funext draft.plain_piece
  have hstale : ∀ {t : TokenId}, t ∉ draft.stream.tokens → draft.isLive t = false :=
    ho.isLive_of_notMem
  cases call with
  | insert place t => exact Edit.comesTo_insert ho place t
  | insertBefore anchor t => exact Edit.comesTo_insertBefore ho anchor t
  | remove t => exact Edit.comesTo_remove ho t
  | index t =>
      refine Edit.comesTo_about (readsOnly trivial) (fun hmem => ?_) fun hmem => ?_
      · obtain ⟨-, -, -, hrun⟩ := ho.run_index hmem
        exact ⟨_, Edit.run_answering_ok hrun _⟩
      · exact Edit.run_answering_error (Edit.run_index_of_not_live (hstale hmem)) _
  | neighbour direction t =>
      refine Edit.comesTo_about (readsOnly trivial) (fun hmem => ?_) fun hmem => ?_
      · exact ⟨_, Edit.run_answering_ok (ho.run_step hmem direction) _⟩
      · exact Edit.run_answering_error (Edit.run_step_of_not_live (hstale hmem) direction) _
  | nearest direction skip t =>
      refine Edit.comesTo_about (readsOnly trivial) (fun hmem => ?_) fun hmem => ?_
      · obtain ⟨after, hrun⟩ := ho.run_search hmem direction skip
        rw [hpiece]
        exact ⟨after, Edit.run_answering_ok hrun _⟩
      · exact Edit.run_answering_error
          (Edit.run_bind_error (Edit.run_step_of_not_live (hstale hmem) direction)) _
  | isLive t =>
      have hlive : draft.isLive t = decide (t ∈ draft.stream.tokens) := by
        rw [Bool.eq_iff_iff, Draft.isLive_iff_mem ho, decide_eq_true_iff]
      refine ⟨draft, ?_, rfl⟩
      rw [Draft.plain_list, ← hlive]
      rfl
  | setValue t value =>
      refine ⟨_, Edit.run_answering_ok (Edit.run_setValue t value draft) _, ?_⟩
      simp only [Draft.plain, Pool.pieces_setValue]
  | iterate => exact ⟨draft, Edit.run_answering_ok (Edit.run_iterate ho.wellFormed) _, rfl⟩
  | tokenAt place => exact Edit.comesTo_tokenAt ho place
  | ofKinds kinds =>
      refine ⟨draft, ?_, rfl⟩
      rw [hpiece]
      rfl
  | size =>
      refine ⟨draft, ?_, rfl⟩
      rw [Draft.plain_list, ho.wellFormed.length_tokens]
      rfl
  | render =>
      refine ⟨draft, ?_, rfl⟩
      have htext : draft.render = Piece.text (draft.stream.tokens.map draft.plain.piece) := by
        rw [Draft.render_eq, hpiece, Draft.pieces, Draft.contents, List.map_map]
        rfl
      rw [Draft.plain_list, ← htext]
      rfl

end ManifestLint
