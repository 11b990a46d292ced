import ManifestLint.Proofs.Stream.History

set_option autoImplicit false

/-! # Why operations fail

An operation fails for the reasons it is documented to fail for: a token does not belong to the
stream, or belongs to it already, or the caller gave a position that there is none. It never fails
because a handle is missing, whatever was done before and with however many streams
(`Store.after_wellFormed`). -/

namespace ManifestLint

/-! ## Calls -/

namespace Edit

variable {α : Type}

theorem run_error_of_answering {e : Edit α} {wrap : α → Answer} {draft after : Draft}
    {fault : Fault} (h : (e.answering wrap).run draft = .error fault after) :
    e.run draft = .error fault after := by
  cases hrun : e.run draft with
  | ok a last =>
      rw [run_answering_ok hrun wrap] at h
      cases h
  | error fault' last =>
      rw [run_answering_error hrun wrap] at h
      cases h
      rfl

theorem mapM_eq_filterMap {arena : Table TokenId} {handles : List Nat}
    (h : ∀ handle ∈ handles, (arena.get? handle).isSome = true) :
    handles.mapM arena.get? = some (handles.filterMap arena.get?) := by
  induction handles with
  | nil => rfl
  | cons handle rest ih =>
      rw [List.forall_mem_cons] at h
      obtain ⟨t, ht⟩ := Option.isSome_iff_exists.1 h.1
      rw [List.mapM_cons, List.filterMap_cons_some ht, ht, ih h.2]
      rfl

/-- Going through a stream finds a token under every handle. -/
theorem run_iterate {draft : Draft} (hs : draft.stream.WellFormed) :
    iterate.run draft = .ok draft.stream.tokens draft := by
  have hall := mapM_eq_filterMap fun handle hmem => (hs.arena_isSome handle).2 hmem
  unfold iterate
  rw [Edit.run_bind, Edit.run_get]
  simp only [hall]
  rfl

theorem run_tokenAtIndex {draft : Draft} (hs : draft.stream.WellFormed) {place : Int}
    {position : Nat} {t : TokenId}
    (hplace : (if place < 0 then place + draft.stream.size else place) = position)
    (hget : draft.stream.tokens[position]? = some t) :
    (tokenAtIndex place).run draft = .ok t draft := by
  unfold tokenAtIndex
  rw [Edit.run_bind, Edit.run_get]
  simp only [hplace, Int.natCast_nonneg, if_true, Int.toNat_natCast]
  exact run_tokenAt hs hget

theorem run_tokenAtIndex_of_outside {draft : Draft} {place : Int}
    (h : ¬(-(draft.stream.size : Int) ≤ place ∧ place < draft.stream.size)) :
    (tokenAtIndex place).run draft = .error .indexOutOfRange draft := by
  unfold tokenAtIndex
  rw [Edit.run_bind, Edit.run_get]
  simp only
  split_ifs with hneg hge hge
  · omega
  · rfl
  · exact run_tokenAt_of_le (by omega)
  · rfl

theorem run_step_of_not_live {draft : Draft} {t : TokenId} (h : draft.isLive t = false)
    (direction : Direction) : (direction.step t).run draft = .error (.stale t) draft := by
  cases direction with
  | back => exact run_bind_error (run_index_of_not_live h)
  | forth => exact run_bind_error (run_index_of_not_live h)

theorem run_step_of_live {draft : Draft} (hs : draft.stream.WellFormed) {t : TokenId}
    (h : draft.isLive t = true) (direction : Direction) :
    ∃ found, (direction.step t).run draft = .ok found draft.refreshed := by
  obtain ⟨position, handle, -, -, hget, hrun⟩ := run_index_of_live hs h
  cases direction with
  | back => exact ⟨_, run_prev hs hrun (List.getElem?_eq_some_iff.1 hget).1⟩
  | forth => exact ⟨_, run_next hs hrun⟩

/-- A program that succeeds whenever its token belongs to the stream fails only because it does
not. -/
theorem fault_of_live {e : Edit α} {t : TokenId} {draft after : Draft} {fault : Fault}
    (hdead : draft.isLive t = false → e.run draft = .error (.stale t) draft)
    (hlive : draft.isLive t = true → ∃ a next, e.run draft = .ok a next)
    (h : e.run draft = .error fault after) : fault = .stale t := by
  cases hbelongs : draft.isLive t with
  | false =>
      rw [hdead hbelongs] at h
      cases h
      rfl
  | true =>
      obtain ⟨a, next, hrun⟩ := hlive hbelongs
      rw [hrun] at h
      cases h

/-- A walk fails at a token that another stream took over, or when it goes in a circle. -/
theorem fault_of_walk {direction : Direction} {skip : Kind → Bool} {fuel : Nat}
    {current : Option TokenId} {draft after : Draft} {fault : Fault}
    (hs : draft.stream.WellFormed)
    (h : (walk direction.step skip fuel current).run draft = .error fault after) :
    (∃ t, fault = .stale t) ∨ fault = .endlessWalk := by
  induction fuel generalizing current draft with
  | zero =>
      cases current with
      | none => cases h
      | some t =>
          cases h
          exact .inr rfl
  | succ fuel ih =>
      cases current with
      | none => cases h
      | some t =>
          unfold walk at h
          rw [run_bind_ok (run_token t draft)] at h
          split at h
          · cases hlive : draft.isLive t with
            | false =>
                rw [run_bind_error (run_step_of_not_live hlive direction)] at h
                cases h
                exact .inl ⟨t, rfl⟩
            | true =>
                obtain ⟨found, hrun⟩ := run_step_of_live hs hlive direction
                rw [run_bind_ok hrun] at h
                exact ih hs.refresh h
          · cases h

theorem fault_of_search {direction : Direction} {skip : Kind → Bool} {t : TokenId}
    {draft after : Draft} {fault : Fault} (hs : draft.stream.WellFormed)
    (h : (search direction.step skip t).run draft = .error fault after) :
    (∃ u, fault = .stale u) ∨ fault = .endlessWalk := by
  unfold search at h
  cases hlive : draft.isLive t with
  | false =>
      rw [run_bind_error (run_step_of_not_live hlive direction)] at h
      cases h
      exact .inl ⟨t, rfl⟩
  | true =>
      obtain ⟨found, hrun⟩ := run_step_of_live hs hlive direction
      rw [run_bind_ok hrun, Edit.run_bind, Edit.run_get] at h
      exact fault_of_walk hs.refresh h

theorem fault_of_insert {index : Int} {t : TokenId} {draft after : Draft} {fault : Fault}
    (h : (insert index t).run draft = .error fault after) :
    fault = .alreadyPresent t ∨
      fault = .insertOutOfRange index ∧ ¬(0 ≤ index ∧ index ≤ draft.stream.size) := by
  cases hlive : draft.isLive t with
  | true =>
      rw [run_insert_of_live hlive index] at h
      cases h
      exact .inl rfl
  | false =>
      by_cases hinside : 0 ≤ index ∧ index ≤ draft.stream.size
      · obtain ⟨position, rfl⟩ := Int.eq_ofNat_of_zero_le hinside.1
        rw [run_insert_of_not_live hlive (Int.ofNat_le.1 hinside.2)] at h
        cases h
      · rw [run_insert_of_outside hlive hinside] at h
        cases h
        exact .inr ⟨rfl, hinside⟩

theorem run_appendAll_cons (t : TokenId) (rest : List TokenId) (draft : Draft) :
    (appendAll (t :: rest)).run draft =
      (insert draft.stream.size t >>= fun _ => appendAll rest).run draft := rfl

theorem fault_of_appendAll {tokens : List TokenId} {draft after : Draft} {fault : Fault}
    (h : (appendAll tokens).run draft = .error fault after) :
    ∃ t ∈ tokens, fault = .alreadyPresent t := by
  induction tokens generalizing draft with
  | nil => cases h
  | cons t rest ih =>
      rw [run_appendAll_cons] at h
      cases hrun : (insert draft.stream.size t).run draft with
      | ok value next =>
          rw [run_bind_ok hrun] at h
          obtain ⟨u, hmem, hfault⟩ := ih h
          exact ⟨u, List.mem_cons_of_mem t hmem, hfault⟩
      | error fault' next =>
          rw [run_bind_error hrun] at h
          cases h
          -- the end of the stream is never out of range
          rcases fault_of_insert hrun with hfault | ⟨-, houtside⟩
          · exact ⟨t, List.mem_cons_self, hfault⟩
          · omega

end Edit

/-- The faults that a call of a stream with so many tokens can end with. -/
def Call.MayFail (size : Nat) : Call → Fault → Prop
  | insert place t, fault => fault = .alreadyPresent t ∨
      fault = .insertOutOfRange place ∧ ¬(0 ≤ place ∧ place ≤ size)
  | insertBefore anchor t, fault => fault = .stale anchor ∨ fault = .alreadyPresent t
  | remove t, fault | index t, fault | neighbour _ t, fault => fault = .stale t
  | nearest _ _ _, fault => (∃ t, fault = .stale t) ∨ fault = .endlessWalk
  | tokenAt place, fault =>
      fault = .indexOutOfRange ∧ ¬(-(size : Int) ≤ place ∧ place < size)
  | _, _ => False

theorem Call.mayFail_of_run {call : Call} {draft after : Draft} {fault : Fault}
    (hs : draft.stream.WellFormed) (h : call.edit.run draft = .error fault after) :
    call.MayFail draft.stream.size fault := by
  cases call with
  | insert place t => exact Edit.fault_of_insert (Edit.run_error_of_answering h)
  | insertBefore anchor t =>
      replace h := Edit.run_error_of_answering h
      unfold Edit.insertBefore at h
      cases hlive : draft.isLive anchor with
      | false =>
          rw [Edit.run_bind_error (Edit.run_index_of_not_live hlive)] at h
          cases h
          exact .inl rfl
      | true =>
          obtain ⟨position, handle, -, -, hget, hrun⟩ := Edit.run_index_of_live hs hlive
          rw [Edit.run_bind_ok hrun] at h
          -- the position of the anchor is never out of range
          have hlt : position < draft.stream.size := (List.getElem?_eq_some_iff.1 hget).1
          rcases Edit.fault_of_insert h with hfault | ⟨-, houtside⟩
          · exact .inr hfault
          · rw [Draft.refreshed_stream, Stream.refresh_size] at houtside
            omega
  | remove t =>
      refine Edit.fault_of_live Edit.run_remove_of_not_live (fun hlive => ?_)
        (Edit.run_error_of_answering h)
      obtain ⟨position, handle, -, -, hrun⟩ := Edit.run_remove_of_live hs hlive
      exact ⟨_, _, hrun⟩
  | index t =>
      refine Edit.fault_of_live Edit.run_index_of_not_live (fun hlive => ?_)
        (Edit.run_error_of_answering h)
      obtain ⟨position, handle, -, -, -, hrun⟩ := Edit.run_index_of_live hs hlive
      exact ⟨_, _, hrun⟩
  | neighbour direction t =>
      refine Edit.fault_of_live (fun hlive => Edit.run_step_of_not_live hlive direction)
        (fun hlive => ?_) (Edit.run_error_of_answering h)
      obtain ⟨found, hrun⟩ := Edit.run_step_of_live hs hlive direction
      exact ⟨_, _, hrun⟩
  | nearest direction skip t => exact Edit.fault_of_search hs (Edit.run_error_of_answering h)
  | isLive t => cases h
  | setValue t value => cases h
  | iterate =>
      replace h := Edit.run_error_of_answering h
      rw [Edit.run_iterate hs] at h
      cases h
  | tokenAt place =>
      replace h := Edit.run_error_of_answering h
      by_cases hinside : -(draft.stream.size : Int) ≤ place ∧ place < draft.stream.size
      · obtain ⟨position, hplace⟩ := Int.eq_ofNat_of_zero_le
          (show 0 ≤ if place < 0 then place + draft.stream.size else place by split <;> omega)
        have hlt : position < draft.stream.tokens.length := by
          rw [hs.length_tokens]
          split at hplace <;> omega
        rw [Edit.run_tokenAtIndex hs hplace (List.getElem?_eq_getElem hlt)] at h
        cases h
      · rw [Edit.run_tokenAtIndex_of_outside hinside] at h
        cases h
        exact ⟨rfl, hinside⟩
  | ofKinds kinds => cases h
  | size => cases h
  | render => cases h

/-- The faults that an operation can end with. Opening a stream fails only when a token is to be
put into it twice. -/
def Operation.MayFail (store : Store) : Operation → Fault → Prop
  | fill _ tokens, fault => ∃ t ∈ tokens, fault = .alreadyPresent t
  | call n asked, fault => asked.MayFail (store.draft n).stream.size fault
  | make _, _ | read _ _, _ => False

/-! ## Stores -/

namespace Store

theorem run_error {α : Type} {store : Store} {n : Nat} {e : Edit α} {fault : Fault}
    (h : (store.run n e).1 = .error fault) :
    ∃ after, e.run (store.draft n) = .error fault after := by
  unfold run at h
  split at h
  · cases h
  · rename_i fault' after hrun
    cases h
    exact ⟨after, hrun⟩

theorem WellFormed.mayFail {store : Store} (hs : store.WellFormed) {operation : Operation}
    {fault : Fault} (h : (operation.run store).1 = .error fault) :
    operation.MayFail store fault := by
  cases operation with
  | make token => cases h
  | fill name tokens =>
      simp only [Operation.run, openStream] at h
      split at h
      · cases h
      · rename_i hrun
        cases h
        exact Edit.fault_of_appendAll hrun
  | read name lexemes => cases h
  | call n asked =>
      obtain ⟨after, hrun⟩ := run_error h
      exact Call.mayFail_of_run (hs.draft n) hrun

end Store

theorem Operation.MayFail.ne_missingHandle {store : Store} {operation : Operation} {fault : Fault}
    (h : operation.MayFail store fault) : fault ≠ .missingHandle := by
  rintro rfl
  cases operation with
  | make token => exact h
  | fill name tokens =>
      obtain ⟨t, -, hfault⟩ := h
      cases hfault
  | read name lexemes => exact h
  | call n asked => cases asked <;> simp [MayFail, Call.MayFail] at h

/-- **The streams of a store agree with themselves after every history.** In each of them order,
arena and cache hold the same handles, and the cache is right below the watermark. No operation
fails because a handle is missing, and none because a position is out of range that the caller
did not give. A token that belongs to a stream is found under its handle in the arena, in the
order and in the refreshed cache, and at the position that it is said to have. -/
theorem Store.after_wellFormed (operations : List Operation) :
    (∀ stream ∈ (empty.after operations).streams, stream.WellFormed) ∧
    (∀ operation fault, (Operation.run (empty.after operations) operation).1 = .error fault →
      operation.MayFail (empty.after operations) fault ∧ fault ≠ .missingHandle) ∧
    ∀ n t, ((empty.after operations).draft n).isLive t = true →
      ∃ position handle, ∃ fresh : Draft,
        ((empty.after operations).pool.get t).handle = some handle ∧
        fresh.stream.arena.get? handle = some t ∧
        fresh.stream.order[position]? = some handle ∧
        fresh.stream.positions.get? handle = some position ∧
        (Edit.index t).run ((empty.after operations).draft n) = .ok position fresh ∧
        (Edit.tokenAtIndex position).run fresh = .ok t fresh := by
  have hs : (empty.after operations).WellFormed := wellFormed_empty.after operations
  refine ⟨hs, fun operation fault h => ?_, fun n t hlive => ?_⟩
  · have hfail := hs.mayFail h
    exact ⟨hfail, hfail.ne_missingHandle⟩
  · have hform := hs.draft n
    obtain ⟨position, handle, hhandle, harena, hget, hrun⟩ := Edit.run_index_of_live hform hlive
    have hget' := hget
    have harena' := harena
    rw [← Stream.refresh_order] at hget'
    rw [← Stream.refresh_arena] at harena'
    have htoken := hform.refresh.tokens_at hget' harena'
    exact ⟨position, handle, _, hhandle, harena', hget', hform.refresh_position hget, hrun,
      Edit.run_tokenAtIndex hform.refresh (if_neg (by omega)) htoken⟩

/-- A second stream takes a token of the first one over, and the first takes it back in. The
token now stands in the first stream twice, and still it is found at the position it is said to
have, while the second stream does not know it any more. -/
theorem Store.after_wellFormed_shared :
    let operations : List Operation :=
      [.read "a" [⟨.identifier, "x", ⟨1, 1⟩⟩, ⟨.identifier, "y", ⟨1, 2⟩⟩], .fill "b" [1],
        .call 0 (.insert 0 1)]
    ((empty.after operations).draft 0).stream.tokens = [1, 0, 1] ∧
    ((empty.after operations).draft 1).isLive 1 = false ∧
    ∃ position, ∃ fresh : Draft,
      (Edit.index 1).run ((empty.after operations).draft 0) = .ok position fresh ∧
      (Edit.tokenAtIndex position).run fresh = .ok 1 fresh := by
  intro operations
  refine ⟨by decide, by decide, ?_⟩
  obtain ⟨position, -, fresh, -, -, -, -, hindex, htoken⟩ :=
    (after_wellFormed operations).2.2 0 1 (by decide)
  exact ⟨position, fresh, hindex, htoken⟩

end ManifestLint
