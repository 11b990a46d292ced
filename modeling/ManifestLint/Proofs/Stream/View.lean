import ManifestLint.Proofs.Stream.Operations
import ManifestLint.Rule.Spacing

set_option autoImplicit false

/-! # A stream as a list of entries

An owned draft behaves as the list of its entries. A *view* is that list together with the
number of tokens there are, which is the number the next token will get. `e.Turns v a v'` says
that on every draft that shows `v` the program `e` succeeds with the value `a`, and that the
draft it leaves shows `v'`; `e.Reads v a` says that it leaves the view alone. `e.Fails v fault v'`
says that it fails, and what it leaves then.

With one statement for each operation the rest of the theory is about lists: handles, arena and
cache do not occur any more. -/

namespace ManifestLint

/-- The entries of a stream, and the number the next token will get. -/
structure View where
  entries : List Entry
  size : Nat

/-- An owned draft with the given entries. -/
structure Draft.Shows (draft : Draft) (view : View) : Prop where
  owned : draft.Owned
  entries_eq : draft.entries = view.entries
  size_eq : draft.pool.size = view.size

theorem Draft.shows_of_owned {draft : Draft} (ho : draft.Owned) :
    draft.Shows ⟨draft.entries, draft.pool.size⟩ := ⟨ho, rfl, rfl⟩

namespace Draft.Shows

variable {draft : Draft} {view : View}

theorem refreshed (h : draft.Shows view) : draft.refreshed.Shows view where
  owned := h.owned.refreshed
  entries_eq := by rw [entries_refreshed, h.entries_eq]
  size_eq := h.size_eq

theorem map_id (h : draft.Shows view) : view.entries.map Entry.id = draft.stream.tokens := by
  rw [← h.entries_eq, Draft.entries, List.map_map]
  exact List.map_id _

theorem nodup (h : draft.Shows view) : (view.entries.map Entry.id).Nodup := by
  rw [h.map_id]
  exact nodup_tokens h.owned

theorem entry_eq (h : draft.Shows view) {entry : Entry} (hmem : entry ∈ view.entries) :
    draft.pool.entry entry.id = entry := by
  rw [← h.entries_eq] at hmem
  obtain ⟨t, -, rfl⟩ := List.mem_map.1 hmem
  rfl

theorem mem_tokens (h : draft.Shows view) {entry : Entry} (hmem : entry ∈ view.entries) :
    entry.id ∈ draft.stream.tokens := by
  rw [← h.map_id]
  exact List.mem_map_of_mem hmem

theorem isLive (h : draft.Shows view) {entry : Entry} (hmem : entry ∈ view.entries) :
    draft.isLive entry.id = true :=
  (isLive_iff_mem h.owned).2 (h.mem_tokens hmem)

theorem length_eq (h : draft.Shows view) : draft.stream.size = view.entries.length := by
  rw [← h.entries_eq, length_entries h.owned.toSound]

theorem id_lt (h : draft.Shows view) {entry : Entry} (hmem : entry ∈ view.entries) :
    entry.id < view.size := by
  rw [← h.size_eq]
  exact lt_of_mem_tokens h.owned.toSound (h.mem_tokens hmem)

end Draft.Shows

namespace Edit

/-- On every draft that shows `view` the program succeeds with the value `a`, and leaves a draft
that shows `view'`. -/
def Turns {α : Type} (e : Edit α) (view : View) (a : α) (view' : View) : Prop :=
  ∀ draft : Draft, draft.Shows view → ∃ after, e.run draft = .ok a after ∧ after.Shows view'

/-- On every draft that shows `view` the program succeeds with the value `a`, and leaves a draft
that shows the same. -/
abbrev Reads {α : Type} (e : Edit α) (view : View) (a : α) : Prop := e.Turns view a view

/-- On every draft that shows `view` the program fails with the fault, and leaves a draft that
shows `view'`. -/
def Fails {α : Type} (e : Edit α) (view : View) (fault : Fault) (view' : View) : Prop :=
  ∀ draft : Draft, draft.Shows view → ∃ after, e.run draft = .error fault after ∧ after.Shows view'

namespace Turns

variable {α β : Type} {view view' view'' : View}

theorem pure (a : α) : (pure a : Edit α).Reads view a :=
  fun draft hdraft => ⟨draft, rfl, hdraft⟩

theorem bind {e : Edit α} {f : α → Edit β} {a : α} {b : β} (he : e.Turns view a view')
    (hf : (f a).Turns view' b view'') : (e >>= f).Turns view b view'' := by
  intro draft hdraft
  obtain ⟨after, hrun, hafter⟩ := he draft hdraft
  obtain ⟨last, hrun', hlast⟩ := hf after hafter
  exact ⟨last, by rw [run_bind_ok hrun, hrun'], hlast⟩

/-- A program may ask for the draft; of what it learns only the number of tokens matters. -/
theorem get_bind {f : Draft → Edit β} {b : β}
    (h : ∀ draft : Draft, draft.stream.size = view.entries.length → (f draft).Turns view b view') :
    (get >>= f).Turns view b view' :=
  fun draft hdraft => h draft hdraft.length_eq draft hdraft

/-- A program may ask for a token of the stream; it learns what the entry of the token says. -/
theorem token_bind {f : Token → Edit β} {b : β} {entry : Entry} (hmem : entry ∈ view.entries)
    (h : ∀ token : Token, token.piece = entry.piece → token.position = entry.position →
      (f token).Turns view b view') :
    (token entry.id >>= f).Turns view b view' := by
  intro draft hdraft
  have hentry := hdraft.entry_eq hmem
  refine h (draft.pool.get entry.id) ?_ ?_ draft hdraft
  · rw [← hentry]
    rfl
  · rw [← hentry]
    rfl

/-- The tokens of a view are distinct. -/
theorem of_nodup {e : Edit α} {a : α}
    (h : (view.entries.map Entry.id).Nodup → e.Turns view a view') : e.Turns view a view' :=
  fun draft hdraft => h hdraft.nodup draft hdraft

theorem ne_error {e : Edit α} {a : α} (he : e.Turns view a view') {draft : Draft}
    (hdraft : draft.Shows view) (fault : Fault) (after : Draft) :
    e.run draft ≠ .error fault after := by
  obtain ⟨done, hrun, -⟩ := he draft hdraft
  rw [hrun]
  nofun

/-- A program fails where the rest of it fails. -/
theorem bind_fails {e : Edit α} {f : α → Edit β} {a : α} {fault : Fault}
    (he : e.Turns view a view') (hf : (f a).Fails view' fault view'') :
    (e >>= f).Fails view fault view'' := by
  intro draft hdraft
  obtain ⟨after, hrun, hafter⟩ := he draft hdraft
  obtain ⟨last, hrun', hlast⟩ := hf after hafter
  exact ⟨last, by rw [run_bind_ok hrun, hrun'], hlast⟩

end Turns

namespace Fails

variable {α β : Type} {view view' : View} {fault : Fault}

theorem throw (fault : Fault) : (throw fault : Edit α).Fails view fault view :=
  fun draft hdraft => ⟨draft, rfl, hdraft⟩

theorem eq_of_run {e : Edit α} (he : e.Fails view fault view') {draft : Draft}
    (hdraft : draft.Shows view) {fault' : Fault} {after : Draft}
    (hrun : e.run draft = .error fault' after) : fault' = fault ∧ after.Shows view' := by
  obtain ⟨left, hleft, hshows⟩ := he draft hdraft
  rw [hleft] at hrun
  cases hrun
  exact ⟨rfl, hshows⟩

theorem get_bind {f : Draft → Edit β}
    (h : ∀ draft : Draft, draft.stream.size = view.entries.length →
      (f draft).Fails view fault view') : (get >>= f).Fails view fault view' :=
  fun draft hdraft => h draft hdraft.length_eq draft hdraft

theorem token_bind {f : Token → Edit β} {entry : Entry} (hmem : entry ∈ view.entries)
    (h : ∀ token : Token, token.piece = entry.piece → (f token).Fails view fault view') :
    (token entry.id >>= f).Fails view fault view' := by
  intro draft hdraft
  refine h (draft.pool.get entry.id) ?_ draft hdraft
  rw [← hdraft.entry_eq hmem]
  rfl

end Fails

variable {view : View} {pre post : List Entry} {entry : Entry}

/-! ## Positions and neighbours -/

theorem mem_of_split (h : view.entries = pre ++ entry :: post) : entry ∈ view.entries := by
  rw [h]
  simp

/-- The position of a token is the number of entries before it. -/
theorem run_index_of_split {draft : Draft} (hdraft : draft.Shows view)
    (h : view.entries = pre ++ entry :: post) :
    ∃ handle, draft.stream.arena.get? handle = some entry.id ∧
      (draft.pool.get entry.id).handle = some handle ∧
      draft.stream.order[pre.length]? = some handle ∧
      (index entry.id).run draft = .ok pre.length draft.refreshed := by
  have hs := hdraft.owned.toSound
  obtain ⟨position, handle, hhandle, harena, hget, hrun⟩ :=
    run_index_of_live hs.wellFormed (hdraft.isLive (mem_of_split h))
  have hid : (view.entries.map Entry.id)[position]? = some entry.id := by
    rw [hdraft.map_id]
    exact hs.wellFormed.tokens_at hget harena
  have hid' : (view.entries.map Entry.id)[pre.length]? = some entry.id := by
    rw [h]
    simp
  have hposition : position = pre.length :=
    (List.getElem?_inj (List.getElem?_eq_some_iff.1 hid).1 hdraft.nodup).1 (hid.trans hid'.symm)
  subst hposition
  exact ⟨handle, harena, hhandle, hget, hrun⟩

theorem index_reads (h : view.entries = pre ++ entry :: post) :
    (index entry.id).Reads view pre.length := by
  intro draft hdraft
  obtain ⟨-, -, -, -, hrun⟩ := run_index_of_split hdraft h
  exact ⟨draft.refreshed, hrun, hdraft.refreshed⟩

theorem tokenAt_reads (h : view.entries = pre ++ entry :: post) :
    (tokenAt pre.length).Reads view entry.id := by
  intro draft hdraft
  obtain ⟨handle, harena, -, hget, -⟩ := run_index_of_split hdraft h
  refine ⟨draft, ?_, hdraft⟩
  unfold tokenAt
  rw [Edit.run_bind, Edit.run_get]
  simp only [hget, harena]
  rfl

theorem prev_reads (h : view.entries = pre ++ entry :: post) :
    (prev entry.id).Reads view (pre.getLast?.map Entry.id) := by
  unfold prev
  refine (index_reads h).bind ?_
  rcases List.eq_nil_or_concat pre with rfl | ⟨front, last, rfl⟩
  · exact Turns.pure none
  · have hsplit : view.entries = front ++ last :: entry :: post := by
      rw [h]
      simp
    rw [List.concat_eq_append, List.length_append, List.length_singleton, List.getLast?_concat]
    exact (tokenAt_reads hsplit).bind (Turns.pure _)

theorem next_reads (h : view.entries = pre ++ entry :: post) :
    (next entry.id).Reads view (post.head?.map Entry.id) := by
  unfold next
  refine (index_reads h).bind (Turns.get_bind fun draft hsize => ?_)
  rw [hsize, h]
  cases post with
  | nil =>
      rw [if_neg (by simp)]
      exact Turns.pure none
  | cons following rest =>
      have hsplit : view.entries = (pre ++ [entry]) ++ following :: rest := by
        rw [h]
        simp
      rw [if_pos (by simp)]
      have htoken := tokenAt_reads hsplit
      rw [List.length_append, List.length_singleton] at htoken
      exact htoken.bind (Turns.pure _)

theorem ofKinds_reads (kinds : List Kind) :
    (ofKinds kinds).Reads view
      ((view.entries.filter fun entry => kinds.contains entry.kind).map Entry.id) := by
  intro draft hdraft
  refine ⟨draft, ?_, hdraft⟩
  unfold ofKinds
  rw [Edit.run_bind, Edit.run_get, ← hdraft.entries_eq, Draft.entries, List.filter_map,
    List.map_map]
  show EStateM.Result.ok _ draft = EStateM.Result.ok _ draft
  congr 1
  exact (List.map_id _).symm

theorem findingAt_reads (hmem : entry ∈ view.entries) (check message : String)
    (severity : Severity) :
    (findingAt check entry.id message severity).Reads view
      ⟨check, severity, message, entry.position, some entry.id⟩ := by
  unfold findingAt
  refine Turns.token_bind hmem fun token _ hposition => ?_
  rw [hposition]
  exact Turns.pure _

theorem isSingleSpace_reads (hmem : entry ∈ view.entries) :
    (isSingleSpace (some entry.id)).Reads view (decide (entry.piece = .singleSpace)) := by
  unfold isSingleSpace
  refine Turns.token_bind hmem fun token hpiece _ => ?_
  have hvalue : token.isSingleSpace = decide (entry.piece = .singleSpace) := by
    rw [← hpiece, Bool.eq_iff_iff]
    simp [Token.isSingleSpace, Token.piece, Piece.singleSpace]
  rw [hvalue]
  exact Turns.pure _

/-- A check is collected over the keys of a list as soon as it is known at each key; where there
is no key there must be nothing to collect. -/
theorem collect_reads {α β γ : Type} {f : α → Edit (Option β)} {key : γ → Option α}
    {g : γ → Option β} {xs : List γ}
    (hkey : ∀ x ∈ xs, ∀ a, key x = some a → (f a).Reads view (g x))
    (hnone : ∀ x ∈ xs, key x = none → g x = none) :
    (collect f (xs.filterMap key)).Reads view (xs.filterMap g) := by
  induction xs with
  | nil => exact Turns.pure []
  | cons x rest ih =>
      rw [List.forall_mem_cons] at hkey hnone
      have hrest := ih hkey.2 hnone.2
      rw [List.filterMap_cons, List.filterMap_cons]
      cases hx : key x with
      | none =>
          rw [hnone.1 hx]
          exact hrest
      | some a =>
          show (collect f (a :: rest.filterMap key)).Reads view _
          unfold collect
          refine (hkey.1 a hx).bind ?_
          cases g x with
          | none => exact hrest
          | some b => exact hrest.bind (Turns.pure _)

/-! ## Edits -/

theorem remove_turns (h : view.entries = pre ++ entry :: post) :
    (remove entry.id).Turns view pre.length ⟨pre ++ post, view.size⟩ := by
  intro draft hdraft
  obtain ⟨handle, -, hhandle, hget, hrun⟩ := run_index_of_split hdraft h
  have hfresh := hdraft.refreshed
  have hget' : draft.refreshed.stream.order[pre.length]? = some handle := by simpa using hget
  refine ⟨⟨draft.pool, draft.stream.refresh.removeAt pre.length handle⟩, ?_,
    hfresh.owned.removeAt hget', ?_, hdraft.size_eq⟩
  · unfold remove
    rw [run_bind_ok hrun, Edit.run_bind, Edit.run_get]
    simp only [Draft.refreshed_pool, hhandle]
    rw [Edit.run_bind, Edit.run_set]
    rfl
  · exact Draft.entries_removeAt hfresh.owned.toSound (hfresh.entries_eq.trans h) hget'

theorem setValue_turns (h : view.entries = pre ++ entry :: post) (value : String) :
    (setValue entry.id value).Turns view ()
      ⟨pre ++ ⟨entry.id, ⟨entry.kind, value⟩, entry.position⟩ :: post, view.size⟩ := by
  intro draft hdraft
  refine ⟨_, run_setValue entry.id value draft, hdraft.owned.setValue _ _, ?_, ?_⟩
  · have hmap : (Draft.mk (draft.pool.setValue entry.id value) draft.stream).entries =
        view.entries.map fun e => (draft.pool.setValue entry.id value).entry e.id := by
      rw [Draft.entries, ← hdraft.map_id, List.map_map]
      rfl
    have hold : ∀ e ∈ view.entries, e.id ≠ entry.id →
        (draft.pool.setValue entry.id value).entry e.id = e := by
      intro e he hne
      rw [Pool.entry_setValue_of_ne _ hne, hdraft.entry_eq he]
    -- no token stands twice, so that all other entries are left alone
    have hnodup := hdraft.nodup
    rw [h, List.map_append, List.map_cons, List.nodup_middle, List.nodup_cons] at hnodup
    have hother : ∀ e ∈ pre ++ post, e.id ≠ entry.id := by
      intro e he heq
      apply hnodup.1
      rw [← heq, ← List.map_append]
      exact List.mem_map_of_mem he
    have hlt : entry.id < draft.pool.size := by
      rw [hdraft.size_eq]
      exact hdraft.id_lt (mem_of_split h)
    rw [hmap, h, List.map_append, List.map_cons, Pool.entry_setValue_self _ hlt]
    have hkeep : ∀ part : List Entry, (∀ e ∈ part, e ∈ pre ++ post) →
        part.map (fun e => (draft.pool.setValue entry.id value).entry e.id) = part := by
      intro part hpart
      refine List.map_congr_left (g := id) (fun e he => ?_) |>.trans (List.map_id part)
      refine hold e ?_ (hother e (hpart e he))
      rw [h]
      have := hpart e he
      simp only [List.mem_append, List.mem_cons] at this ⊢
      tauto
    rw [hkeep pre fun e he => List.mem_append_left post he,
      hkeep post fun e he => List.mem_append_right pre he]
    have hentry := hdraft.entry_eq (mem_of_split h)
    congr 2
    rw [← hentry]
    rfl
  · rw [Pool.size_setValue]
    exact hdraft.size_eq

/-- The entry of the space that is put before `anchor` when the next token gets the number
`id`. -/
def spaceBefore (id : Nat) (anchor : Entry) : Entry := ⟨id, .singleSpace, anchor.position⟩

theorem insertSpaceBefore_turns (h : view.entries = pre ++ entry :: post) :
    (insertSpaceBefore entry.id).Turns view ()
      ⟨pre ++ spaceBefore view.size entry :: entry :: post, view.size + 1⟩ := by
  intro draft hdraft
  have hentry := hdraft.entry_eq (mem_of_split h)
  have hposition : (draft.pool.get entry.id).position = entry.position :=
    congrArg Entry.position hentry
  -- the draft with the new space, which is in no stream yet
  set made : Draft := ⟨draft.pool.add (.singleSpace entry.position), draft.stream⟩ with hmade
  have hmadeOwned : made.Owned := hdraft.owned.add _
  have hmadeEntries : made.entries = view.entries := by
    rw [← hdraft.entries_eq]
    apply List.map_congr_left
    intro t ht
    exact Pool.entry_add_of_lt _ _ (Draft.lt_of_mem_tokens hdraft.owned.toSound ht)
  have hshows : made.Shows ⟨view.entries, view.size + 1⟩ :=
    ⟨hmadeOwned, hmadeEntries, by rw [hmade, Pool.size_add, hdraft.size_eq]⟩
  obtain ⟨handle, -, -, -, hrun⟩ := run_index_of_split hshows h
  have hnotMem : draft.pool.size ∉ made.refreshed.stream.tokens := by
    rw [Draft.refreshed_stream, Stream.refresh_tokens]
    exact fun hmem => Nat.lt_irrefl _ (Draft.lt_of_mem_tokens hdraft.owned.toSound hmem)
  have hnew : made.refreshed.isLive draft.pool.size = false := by
    rw [Bool.eq_false_iff, ne_eq, Draft.isLive_iff_mem hmadeOwned.refreshed]
    exact hnotMem
  have hle : pre.length ≤ made.refreshed.stream.size := by
    rw [hshows.refreshed.length_eq, h, List.length_append]
    omega
  have hlt : draft.pool.size < made.refreshed.pool.size := by
    rw [Draft.refreshed_pool, hmade, Pool.size_add]
    exact Nat.lt_succ_self _
  refine ⟨made.refreshed.insertAt pre.length draft.pool.size, ?_,
    hmadeOwned.refreshed.insertAt hle hlt hnotMem, ?_, ?_⟩
  · unfold insertSpaceBefore
    rw [run_bind_ok (run_token _ _), hposition, run_bind_ok (run_create _ _)]
    unfold insertBefore
    rw [run_bind_ok (run_bind_ok hrun |>.trans (run_insert_of_not_live hnew hle))]
    rfl
  · rw [Draft.entries_insertAt hmadeOwned.refreshed.toSound
      (show made.refreshed.entries = pre ++ entry :: post by
        rw [Draft.entries_refreshed, hmadeEntries, h]),
      Draft.refreshed_pool, hmade, Pool.entry_add_size, hdraft.size_eq]
    rfl
  · rw [← hshows.size_eq]
    simp [Draft.insertAt]

end Edit

end ManifestLint
