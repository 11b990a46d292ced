import ManifestLint.Proofs.Stream.Plain

set_option autoImplicit false

/-! # Streams that share no tokens

A history is *exclusive* when it puts a token into a stream only while the token stands in no
other one; it may well put a token into a stream that has it, which is refused. After an exclusive
history every stream owns its tokens, and the streams behave as plain lists
(`Store.after_plain`): each operation gives the answer that it gives on lists and leaves the
same lists, and no stream gives a handle out twice. -/

namespace ManifestLint

/-! ## Exclusive histories -/

/-- A token that the operation puts into a stream exists and stands in no other stream, and the
stream exists. -/
def Operation.Exclusive (store : Store) : Operation → Prop
  | make _ | read _ _ => True
  | fill _ tokens => ∀ t ∈ tokens, t < store.pool.size ∧
      ∀ m < store.streams.size, t ∉ (store.draft m).stream.tokens
  | call n asked => n < store.streams.size ∧ ∀ t ∈ asked.put?, t < store.pool.size ∧
      ∀ m < store.streams.size, m ≠ n → t ∉ (store.draft m).stream.tokens

instance (store : Store) : (operation : Operation) → Decidable (operation.Exclusive store)
  | .make _ | .read _ _ => .isTrue trivial
  | .fill _ tokens => inferInstanceAs (Decidable (∀ t ∈ tokens, _ ∧ _))
  | .call n asked => inferInstanceAs (Decidable (n < store.streams.size ∧ ∀ t ∈ asked.put?, _ ∧ _))

namespace Store

/-- Every operation of the history is exclusive when it is carried out. -/
def Exclusive (store : Store) : List Operation → Prop
  | [] => True
  | operation :: rest => operation.Exclusive store ∧ Exclusive (operation.run store).2 rest

instance decidableExclusive (store : Store) :
    (operations : List Operation) → Decidable (store.Exclusive operations)
  | [] => .isTrue trivial
  | operation :: rest =>
    have := decidableExclusive (operation.run store).2 rest
    inferInstanceAs (Decidable (_ ∧ _))

/-- Every stream owns its tokens. -/
def Owned (store : Store) : Prop := ∀ n, (store.draft n).Owned

/-! ## One stream of a store -/

theorem draft_of_size_le {store : Store} {n : Nat} (h : store.streams.size ≤ n) :
    store.draft n = ⟨store.pool, .empty ""⟩ := by
  simp only [draft, Array.getD_eq_getD_getElem?, Array.getElem?_eq_none h]
  rfl

theorem draft_push (pool : Pool) (streams : Array Stream) (stream : Stream) (n : Nat) :
    (Store.mk pool (streams.push stream)).draft n =
      ⟨pool, if n = streams.size then stream else streams.getD n default⟩ := by
  simp only [draft, Array.getD_eq_getD_getElem?, Array.getElem?_push]
  split <;> rfl

theorem draft_putDraft (store : Store) (n m : Nat) (draft : Draft) :
    (store.putDraft n draft).draft m =
      ⟨draft.pool, if m = n ∧ n < store.streams.size then draft.stream
        else (store.draft m).stream⟩ := by
  simp only [Store.draft, putDraft, Array.getD_eq_getD_getElem?, Array.getElem?_setIfInBounds]
  by_cases hm : n = m
  · subst hm
    by_cases hlt : n < store.streams.size
    · simp [hlt]
    · simp [hlt]
  · simp [hm, Ne.symm hm]

theorem notMem_tokens {store : Store} {n : Nat} {t : TokenId}
    (h : n < store.streams.size → t ∉ (store.draft n).stream.tokens) :
    t ∉ (store.draft n).stream.tokens := by
  by_cases hlt : n < store.streams.size
  · exact h hlt
  · rw [draft_of_size_le (Nat.le_of_not_lt hlt)]
    exact List.not_mem_nil

theorem run_ok {α : Type} {store : Store} {n : Nat} {e : Edit α} {a : α} {after : Draft}
    (h : e.run (store.draft n) = .ok a after) :
    store.run n e = (.ok a, store.putDraft n after) := by
  simp only [run, h]

theorem run_failed {α : Type} {store : Store} {n : Nat} {e : Edit α} {fault : Fault}
    {after : Draft} (h : e.run (store.draft n) = .error fault after) :
    store.run n e = (.error fault, store.putDraft n after) := by
  simp only [run, h]

end Store

/-! ## Streams go on to own their tokens -/

namespace Draft

/-- A new token at the end of one stream leaves the other streams alone. -/
theorem owned_other_append {draft : Draft} {other : Stream} (lexeme : Lexeme)
    (ho : (Draft.mk draft.pool other).Owned) :
    (Draft.mk (draft.append lexeme).pool other).Owned := by
  have hadd := ho.add (.ofLexeme lexeme)
  have hnew : draft.pool.size ∉ other.tokens := fun hmem =>
    Nat.lt_irrefl _ (lt_of_mem_tokens ho.toSound hmem)
  exact hadd.setHandle hnew _

theorem owned_other_appendAll {draft : Draft} {other : Stream} (lexemes : List Lexeme)
    (ho : (Draft.mk draft.pool other).Owned) :
    (Draft.mk (draft.appendAll lexemes).pool other).Owned := by
  induction lexemes generalizing draft with
  | nil => exact ho
  | cons lexeme rest ih => exact ih (owned_other_append lexeme ho)

end Draft

namespace Store

theorem owned_empty : empty.Owned := fun n => by
  rw [draft_of_size_le (Nat.zero_le n)]
  exact Draft.owned_empty _ _

namespace Owned

variable {store : Store}

theorem push {draft : Draft} (hnew : draft.Owned)
    (hold : ∀ n, (Draft.mk draft.pool (store.draft n).stream).Owned) :
    (Store.mk draft.pool (store.streams.push draft.stream)).Owned := by
  intro n
  rw [draft_push]
  split
  · exact hnew
  · exact hold n

/-- **One operation**: every stream goes on to own its tokens, whether the operation succeeds or
fails. -/
theorem run (ho : store.Owned) {operation : Operation} (h : operation.Exclusive store) :
    (operation.run store).2.Owned := by
  cases operation with
  | make token => exact fun n => (ho n).add token
  | fill name tokens =>
      have hchanging := store.changing_filled name tokens
      have hnew := hchanging.owned (Draft.owned_empty store.pool name) fun t ht => (h t ht).1
      have hold : ∀ n, (Draft.mk (store.filled name tokens).pool (store.draft n).stream).Owned :=
        fun n => hchanging.owned_other (ho n) fun t ht => notMem_tokens fun hlt => (h t ht).2 n hlt
      rcases store.run_fill name tokens with hrun | hrun
      · rw [hrun]
        exact push hnew hold
      · rw [hrun]
        exact hold
  | read name lexemes =>
      exact push ((Draft.owned_empty store.pool name).appendAll lexemes).1
        fun n => Draft.owned_other_appendAll lexemes (ho n)
  | call n asked =>
      have hchanging := asked.makes _ (ho n).wellFormed
      show (store.run n asked.edit).2.Owned
      rw [run_eq]
      intro m
      rw [draft_putDraft]
      split
      · exact hchanging.owned (ho n) fun t ht => (h.2 t ht).1
      · rename_i hne
        refine hchanging.owned_other (ho m) fun t ht => notMem_tokens fun hlt => ?_
        exact (h.2 t ht).2 m hlt fun hm => hne ⟨hm, h.1⟩

/-- After an exclusive history every stream owns its tokens. -/
theorem after (ho : store.Owned) {operations : List Operation} (h : store.Exclusive operations) :
    (store.after operations).Owned := by
  induction operations generalizing store with
  | nil => exact ho
  | cons operation rest ih => exact ih (ho.run h.1) h.2

end Owned

end Store

/-! ## Operations on plain lists -/

/-- The lists that the streams of a store come to. -/
def Store.plain (store : Store) : PlainStore :=
  ⟨store.pool.pieces, store.streams.map Stream.tokens⟩

theorem PlainStore.putDraft_draft (store : PlainStore) (n : Nat) :
    store.putDraft n (store.draft n) = store := by
  obtain ⟨pieces, lists⟩ := store
  have hlists : lists.setIfInBounds n (lists.getD n []) = lists := by
    apply Array.ext_getElem?
    intro i
    rw [Array.getElem?_setIfInBounds, Array.getD_eq_getD_getElem?]
    by_cases hi : n = i
    · subst hi
      by_cases hlt : n < lists.size
      · simp [hlt]
      · simp [hlt]
    · rw [if_neg hi]
  simp only [draft, putDraft, hlists]

namespace Store

theorem plain_draft (store : Store) (n : Nat) :
    (store.draft n).plain = store.plain.draft n := by
  simp only [plain, Draft.plain, PlainStore.draft, Store.draft, Array.getD_eq_getD_getElem?,
    Array.getElem?_map]
  cases store.streams[n]? <;> rfl

theorem plain_putDraft (store : Store) (n : Nat) (draft : Draft) :
    (store.putDraft n draft).plain = store.plain.putDraft n draft.plain := by
  simp only [plain, putDraft, PlainStore.putDraft, Array.map_setIfInBounds]
  rfl

theorem plain_push (store : Store) (draft : Draft) :
    (Store.mk draft.pool (store.streams.push draft.stream)).plain =
      ⟨draft.pool.pieces, store.plain.lists.push draft.stream.tokens⟩ := by
  simp only [plain, Array.map_push]

end Store

namespace Draft

/-- Tokens that exist are put in one after another as far as none of them is repeated. -/
theorem Owned.run_appendAll {draft : Draft} (ho : draft.Owned) {tokens : List TokenId}
    (hlt : ∀ t ∈ tokens, t < draft.pool.size) :
    match PlainDraft.fill draft.stream.tokens tokens with
    | .ok list => ∃ after, (Edit.appendAll tokens).run draft = .ok () after ∧
        after.pool.pieces = draft.pool.pieces ∧ after.stream.tokens = list
    | .error fault => ∃ after, (Edit.appendAll tokens).run draft = .error fault after ∧
        after.pool.pieces = draft.pool.pieces := by
  induction tokens generalizing draft with
  | nil => exact ⟨draft, rfl, rfl, rfl⟩
  | cons t rest ih =>
      rw [List.forall_mem_cons] at hlt
      rw [PlainDraft.fill, Edit.run_appendAll_cons]
      by_cases hmem : t ∈ draft.stream.tokens
      · rw [if_pos hmem]
        have hrun := Edit.run_insert_of_live ((isLive_iff_mem ho).2 hmem) draft.stream.size
        exact ⟨draft, Edit.run_bind_error hrun, rfl⟩
      · rw [if_neg hmem]
        have hrun := Edit.run_insert_of_not_live (ho.isLive_of_notMem hmem)
          (Nat.le_refl draft.stream.size)
        have hnext := ih (ho.insertAt (Nat.le_refl _) hlt.1 hmem)
          (by simpa [Draft.insertAt] using hlt.2)
        have htokens : (draft.insertAt draft.stream.size t).stream.tokens =
            draft.stream.tokens ++ [t] := ho.wellFormed.tokens_insertAt_size t
        have hpieces : (draft.insertAt draft.stream.size t).pool.pieces = draft.pool.pieces :=
          Pool.pieces_setHandle _ _ _
        rw [Edit.run_bind_ok hrun, ← htokens, ← hpieces]
        exact hnext

/-- New tokens are put in one after another, each with the next number. -/
theorem Owned.plain_appendAll {draft : Draft} (ho : draft.Owned) (lexemes : List Lexeme) :
    (draft.appendAll lexemes).plain =
      ⟨draft.pool.pieces ++ (lexemes.map Lexeme.piece).toArray,
        draft.stream.tokens ++ List.range' draft.pool.size lexemes.length⟩ := by
  induction lexemes generalizing draft with
  | nil => simp [Draft.appendAll, plain]
  | cons lexeme rest ih =>
      obtain ⟨hnext, hsize, -⟩ := ho.append lexeme
      have hpieces : (draft.append lexeme).pool.pieces = draft.pool.pieces.push lexeme.piece := by
        show (Pool.setHandle _ _ _).pieces = _
        rw [Pool.pieces_setHandle, Pool.pieces_add]
        rfl
      have htokens : (draft.append lexeme).stream.tokens =
          draft.stream.tokens ++ [draft.pool.size] := ho.wellFormed.tokens_insertAt_size _
      show ((draft.append lexeme).appendAll rest).plain = _
      rw [ih hnext, hsize, hpieces, htokens]
      simp [List.range'_succ]

end Draft

namespace Store.Owned

variable {store : Store}

/-- **One operation** gives the answer that it gives on plain lists, and the streams come to the
lists that it leaves. -/
theorem run_plain (ho : store.Owned) {operation : Operation} (h : operation.Exclusive store) :
    (operation.run store).1 = (operation.runPlain store.plain).1 ∧
      (operation.run store).2.plain = (operation.runPlain store.plain).2 := by
  cases operation with
  | make token =>
      simp only [Operation.run, Operation.runPlain, Store.create, Store.plain, Pool.size_pieces,
        Pool.pieces_add, and_self]
  | fill name tokens =>
      have hfill := (Draft.owned_empty store.pool name).run_appendAll fun t ht => (h t ht).1
      have hempty : (Stream.empty name).tokens = [] := rfl
      rw [hempty] at hfill
      simp only [Operation.runPlain]
      cases hplain : PlainDraft.fill [] tokens with
      | ok list =>
          rw [hplain] at hfill
          obtain ⟨draft, hrun, hpieces, hlist⟩ := hfill
          rw [run_fill_ok hrun]
          refine ⟨by simp [Store.plain], ?_⟩
          rw [plain_push, hpieces, hlist]
          rfl
      | error fault =>
          rw [hplain] at hfill
          obtain ⟨draft, hrun, hpieces⟩ := hfill
          rw [run_fill_error hrun]
          refine ⟨rfl, ?_⟩
          simp only [Store.plain, hpieces]
  | read name lexemes =>
      have hplain := (Draft.owned_empty store.pool name).plain_appendAll lexemes
      simp only [Operation.run, Operation.runPlain]
      refine ⟨by simp [Store.plain], ?_⟩
      have hpieces := congrArg PlainDraft.pieces hplain
      have hlist := congrArg PlainDraft.list hplain
      simp only [Draft.plain] at hpieces hlist
      unfold Store.openLexemes
      rw [plain_push, hpieces, hlist]
      simp [Store.plain, Stream.tokens, Stream.empty, Pool.size_pieces]
  | call n asked =>
      have hcomes := Call.comesTo (ho n) asked
      rw [plain_draft] at hcomes
      simp only [Operation.run, Operation.runPlain]
      cases houtcome : asked.plain (store.plain.draft n) with
      | ok result =>
          rw [houtcome] at hcomes
          obtain ⟨after, hrun, hplain⟩ := hcomes
          rw [run_ok hrun]
          refine ⟨rfl, ?_⟩
          rw [plain_putDraft, hplain]
      | error fault =>
          rw [houtcome] at hcomes
          obtain ⟨after, hrun, -, hplain⟩ := hcomes
          rw [run_failed hrun]
          refine ⟨rfl, ?_⟩
          rw [plain_putDraft, hplain, plain_draft, PlainStore.putDraft_draft]

/-- An exclusive history gives the answers that it gives on plain lists, and leaves the same. -/
theorem after_plain (ho : store.Owned) {operations : List Operation}
    (h : store.Exclusive operations) :
    store.answers operations = store.plain.answers operations ∧
      (store.after operations).plain = store.plain.after operations := by
  induction operations generalizing store with
  | nil => exact ⟨rfl, rfl⟩
  | cons operation rest ih =>
      obtain ⟨hanswer, hplain⟩ := ho.run_plain h.1
      obtain ⟨hanswers, hafter⟩ := ih (ho.run h.1) h.2
      rw [hplain] at hanswers hafter
      refine ⟨?_, hafter⟩
      rw [Store.answers, PlainStore.answers, hanswer, hanswers]

/-- A call answers what it answers on the plain list. -/
theorem run_call (ho : store.Owned) (n : Nat) (asked : Call) :
    (Operation.run store (.call n asked)).1 =
      (asked.plain (store.draft n).plain).map Prod.fst := by
  have hcomes := Call.comesTo (ho n) asked
  simp only [Operation.run]
  cases houtcome : asked.plain (store.draft n).plain with
  | ok result =>
      rw [houtcome] at hcomes
      obtain ⟨after, hrun, -⟩ := hcomes
      rw [run_ok hrun]
      rfl
  | error fault =>
      rw [houtcome] at hcomes
      obtain ⟨after, hrun, -⟩ := hcomes
      rw [run_failed hrun]
      rfl

/-- A call that fails leaves all tokens, with their handles, and all lists as they were. -/
theorem kept_of_run_call (ho : store.Owned) {n : Nat} {asked : Call} {fault : Fault}
    (h : (Operation.run store (.call n asked)).1 = .error fault) :
    (Operation.run store (.call n asked)).2.pool = store.pool ∧
      (Operation.run store (.call n asked)).2.plain = store.plain := by
  have hcomes := Call.comesTo (ho n) asked
  rw [ho.run_call] at h
  cases houtcome : asked.plain (store.draft n).plain with
  | ok result =>
      rw [houtcome] at h
      cases h
  | error fault' =>
      rw [houtcome] at hcomes
      obtain ⟨after, hrun, hpool, hplain⟩ := hcomes
      simp only [Operation.run, run_failed hrun]
      refine ⟨hpool, ?_⟩
      rw [plain_putDraft, hplain, plain_draft, PlainStore.putDraft_draft]

end Store.Owned

/-! ## Neighbours -/

section Neighbours

variable {list : List TokenId} {a b : TokenId}

theorem idxOf_of_getElem? (hnodup : list.Nodup) {i : Nat} (h : list[i]? = some a) :
    list.idxOf a = i := by
  obtain ⟨hlt, rfl⟩ := List.getElem?_eq_some_iff.1 h
  exact hnodup.idxOf_getElem i hlt

theorem getElem?_idxOf (hmem : a ∈ list) : list[list.idxOf a]? = some a := by
  have hlt := List.idxOf_lt_length_of_mem hmem
  rw [List.getElem?_eq_getElem hlt, List.getElem_idxOf hlt]

/-- In a list without repetition one element follows another if that one precedes it. -/
theorem head?_beyond_iff (hnodup : list.Nodup) :
    a ∈ list ∧ (Direction.forth.beyond list a).head? = some b ↔
      b ∈ list ∧ (Direction.back.beyond list b).head? = some a := by
  rw [head?_beyond_forth]
  constructor
  · rintro ⟨hmem, hnext⟩
    have hb := List.mem_of_getElem? hnext
    refine ⟨hb, ?_⟩
    rw [head?_beyond_back hb, idxOf_of_getElem? hnodup hnext, if_neg (Nat.succ_ne_zero _),
      Nat.add_sub_cancel]
    exact getElem?_idxOf hmem
  · rintro ⟨hmem, hprev⟩
    rw [head?_beyond_back hmem] at hprev
    split at hprev
    · cases hprev
    · rename_i hne
      have hindex := idxOf_of_getElem? hnodup hprev
      refine ⟨List.mem_of_getElem? hprev, ?_⟩
      rw [hindex, Nat.sub_add_cancel (Nat.pos_of_ne_zero hne)]
      exact getElem?_idxOf hmem

theorem neighbour_iff (draft : PlainDraft) (direction : Direction) :
    ((Call.neighbour direction a).plain draft).map Prod.fst = .ok (.optional (some b)) ↔
      a ∈ draft.list ∧ (direction.beyond draft.list a).head? = some b := by
  simp only [Call.plain, PlainDraft.about]
  split
  · rename_i hmem
    simp [hmem, Except.map]
  · rename_i hmem
    simp [hmem, Except.map]

end Neighbours

/-! ## Handles -/

namespace Store

/-- The handles that a stream gave to tokens between two states: those of the tokens that have
come in. -/
def given (before after : Store) (n : Nat) : List Nat :=
  ((after.draft n).stream.tokens.filter fun t => t ∉ (before.draft n).stream.tokens).filterMap
    fun t => (after.pool.get t).handle

/-- The handles that a stream gives to tokens in the course of a history. -/
def handed (store : Store) (n : Nat) : List Operation → List Nat
  | [] => []
  | operation :: rest =>
    store.given (operation.run store).2 n ++ (operation.run store).2.handed n rest

/-- An operation gives no handle of a stream out that was given out before. -/
theorem extends_run {store : Store} (hs : store.Owned) (operation : Operation) (n : Nat) :
    Stream.Extends (store.draft n).stream ((operation.run store).2.draft n).stream := by
  have hpush : ∀ draft : Draft, Stream.Extends (store.draft n).stream
      ((Store.mk draft.pool (store.streams.push draft.stream)).draft n).stream := by
    intro draft
    rw [draft_push]
    split
    · rename_i hn
      -- the stream is new, so that no handle was given out
      rw [draft_of_size_le (Nat.le_of_eq hn.symm)]
      exact ⟨Nat.zero_le _, fun h t hlt => absurd hlt (Nat.not_lt_zero h)⟩
    · exact .refl _
  cases operation with
  | make token => exact .refl _
  | fill name tokens =>
      rcases store.run_fill name tokens with hrun | hrun
      · rw [hrun]
        exact hpush _
      · rw [hrun]
        exact .refl _
  | read name lexemes => exact hpush _
  | call m asked =>
      show Stream.Extends _ ((store.run m asked.edit).2.draft n).stream
      rw [run_eq, draft_putDraft]
      split
      · rename_i hn
        rw [hn.1]
        exact (asked.makes _ (hs m).wellFormed).stream_extends
      · exact .refl _

section Given

variable {before after : Store} {n : Nat}

theorem mem_given (ho : after.Owned) {h : Nat} (hmem : h ∈ given before after n) :
    ∃ t, t ∉ (before.draft n).stream.tokens ∧
      (after.draft n).stream.arena.get? h = some t := by
  simp only [given, List.mem_filterMap, List.mem_filter, decide_eq_true_eq] at hmem
  obtain ⟨t, ⟨hin, hnew⟩, hhandle⟩ := hmem
  obtain ⟨h', harena⟩ := (Draft.mem_tokens (ho n).toSound).1 hin
  have heq := ((ho n).handle_eq h' t harena).symm.trans hhandle
  cases heq
  exact ⟨t, hnew, harena⟩

/-- A handle that is given out was not given out before. -/
theorem le_of_mem_given (hbefore : before.Owned) (ho : after.Owned)
    (hextends : Stream.Extends (before.draft n).stream (after.draft n).stream) {h : Nat}
    (hmem : h ∈ given before after n) : (before.draft n).stream.nextHandle ≤ h := by
  obtain ⟨t, hnew, harena⟩ := mem_given ho hmem
  by_contra hlt
  have hold := hextends.arena h t (Nat.lt_of_not_le hlt) harena
  exact hnew ((Draft.mem_tokens (hbefore n).toSound).2 ⟨h, hold⟩)

theorem lt_of_mem_given (ho : after.Owned) {h : Nat} (hmem : h ∈ given before after n) :
    h < (after.draft n).stream.nextHandle := by
  obtain ⟨t, -, harena⟩ := mem_given ho hmem
  have hs := (ho n).wellFormed
  exact hs.lt_nextHandle h ((hs.arena_isSome h).1 (by simp [harena]))

theorem nodup_given (ho : after.Owned) : (given before after n).Nodup := by
  have hnodup : ((after.draft n).stream.tokens.filter
      fun t => t ∉ (before.draft n).stream.tokens).Nodup := (Draft.nodup_tokens (ho n)).filter _
  have hpairs := List.Pairwise.and_mem.1 hnodup
  refine List.Pairwise.filterMap _ ?_ hpairs
  rintro t u ⟨ht, hu, hne⟩ h hh h' hh' rfl
  -- the token of a handle is what the arena has there
  have hat : ∀ {t : TokenId}, t ∈ (after.draft n).stream.tokens →
      (after.pool.get t).handle = some h → (after.draft n).stream.arena.get? h = some t := by
    intro t hin hhandle
    obtain ⟨h', harena⟩ := (Draft.mem_tokens (ho n).toSound).1 hin
    have heq := ((ho n).handle_eq h' t harena).symm.trans hhandle
    cases heq
    exact harena
  have htoken := hat (List.mem_of_mem_filter ht) hh
  rw [hat (List.mem_of_mem_filter hu) hh'] at htoken
  exact hne (Option.some.inj htoken).symm

end Given

/-- **No handle is given out twice** in the course of an exclusive history. -/
theorem nodup_handed {store : Store} (ho : store.Owned) {operations : List Operation}
    (h : store.Exclusive operations) (n : Nat) :
    (store.handed n operations).Nodup ∧
      ∀ handle ∈ store.handed n operations, (store.draft n).stream.nextHandle ≤ handle := by
  induction operations generalizing store with
  | nil => exact ⟨List.nodup_nil, fun handle hmem => absurd hmem List.not_mem_nil⟩
  | cons operation rest ih =>
      have hnext := ho.run h.1
      have hextends := extends_run ho operation n
      obtain ⟨hnodup, hlater⟩ := ih hnext h.2
      have hgiven : ∀ handle ∈ store.given (operation.run store).2 n,
          (store.draft n).stream.nextHandle ≤ handle := fun handle hmem =>
        le_of_mem_given ho hnext hextends hmem
      refine ⟨List.nodup_append.2 ⟨nodup_given hnext, hnodup, ?_⟩, ?_⟩
      · -- what is given now is below the next handle, what is given later is not
        rintro handle hmem other hother rfl
        have hlt := lt_of_mem_given hnext hmem
        have hle := hlater handle hother
        omega
      · intro handle hmem
        rcases List.mem_append.1 hmem with hnow | hthen
        · exact hgiven handle hnow
        · exact Nat.le_trans hextends.le (hlater handle hthen)

end Store

/-! ## Streams are lists -/

/-- **The streams of an exclusive history behave as plain lists.** Every operation gives the answer
that it gives on lists, and the streams come to the lists that are left there; the tokens of a
stream are distinct, and they are those that belong to it. Going to the next token and to the
previous one are inverse to each other. A stream never gives a handle out twice, and a call that
fails leaves all lists and all tokens, with their handles, as they were. -/
theorem Store.acts_as_lists (operations : List Operation)
    (h : empty.Exclusive operations) :
    empty.answers operations = PlainStore.empty.answers operations ∧
    (empty.after operations).plain = PlainStore.empty.after operations ∧
    (∀ n, ((empty.after operations).draft n).stream.tokens.Nodup ∧
      ∀ t, ((empty.after operations).draft n).isLive t = true ↔
        t ∈ ((empty.after operations).draft n).stream.tokens) ∧
    (∀ n a b,
      (Operation.run (empty.after operations) (.call n (.neighbour .forth a))).1 =
          .ok (.optional (some b)) ↔
        (Operation.run (empty.after operations) (.call n (.neighbour .back b))).1 =
          .ok (.optional (some a))) ∧
    (∀ n, (empty.handed n operations).Nodup) ∧
    ∀ n asked fault,
      (Operation.run (empty.after operations) (.call n asked)).1 = .error fault →
        (Operation.run (empty.after operations) (.call n asked)).2.pool =
            (empty.after operations).pool ∧
          (Operation.run (empty.after operations) (.call n asked)).2.plain =
            (empty.after operations).plain := by
  have ho : (empty.after operations).Owned := owned_empty.after h
  have hempty : empty.plain = PlainStore.empty := by
    simp [plain, empty, PlainStore.empty, Pool.pieces, Pool.empty]
  obtain ⟨hanswers, hplain⟩ := owned_empty.after_plain h
  rw [hempty] at hanswers hplain
  refine ⟨hanswers, hplain, fun n => ⟨?_, fun t => ?_⟩, fun n a b => ?_, fun n => ?_, ?_⟩
  · exact Draft.nodup_tokens (ho n)
  · exact Draft.isLive_iff_mem (ho n)
  · rw [ho.run_call, ho.run_call, neighbour_iff, neighbour_iff]
    exact head?_beyond_iff (Draft.nodup_tokens (ho n))
  · exact (nodup_handed owned_empty h n).1
  · intro n asked fault hfail
    exact ho.kept_of_run_call hfail

/-- A space is put between two tokens, refused when it is to be put in again, and asked for a
neighbour; a token that is taken out is not known any more until it is put in again, under a new
handle. -/
theorem Store.acts_as_lists_edited :
    let operations : List Operation :=
      [.read "a" [⟨.identifier, "x", ⟨1, 1⟩⟩, ⟨.identifier, "y", ⟨1, 2⟩⟩],
        .make (.singleSpace ⟨1, 2⟩), .call 0 (.insertBefore 1 2), .call 0 (.insert 0 2),
        .call 0 (.neighbour .back 1), .call 0 (.remove 0), .call 0 (.index 0),
        .call 0 (.insert 2 0), .call 0 .render]
    empty.Exclusive operations ∧
    empty.answers operations =
      [.ok (.number 0), .ok (.token 2), .ok (.token 2), .error (.alreadyPresent 2),
        .ok (.optional (some 2)), .ok (.number 0), .error (.stale 0), .ok (.token 0),
        .ok (.text " yx")] ∧
    empty.handed 0 operations = [0, 1, 2, 3] ∧ (empty.handed 0 operations).Nodup := by
  intro operations
  have h : empty.Exclusive operations := by decide
  obtain ⟨hanswers, -, -, -, hhanded, -⟩ := acts_as_lists operations h
  refine ⟨h, ?_, by decide, hhanded 0⟩
  rw [hanswers]
  rfl

end ManifestLint
