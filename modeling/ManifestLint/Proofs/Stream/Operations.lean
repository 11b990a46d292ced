import ManifestLint.Proofs.Stream.Entry
import ManifestLint.Stream.Walk

set_option autoImplicit false

/-! # What the operations of a stream do

One statement for each operation on a draft whose stream is well formed: what it returns and which
draft it leaves. An operation on a token that does not belong to the stream fails and leaves the
draft as it was (`run_index_of_not_live`); otherwise the position of the token is found, and the
cache is up to date from then on (`run_index_of_live`). -/

namespace ManifestLint.Edit

/-! ## Sequencing -/

theorem run_bind_ok {α β : Type} {e : Edit α} {f : α → Edit β} {draft after : Draft} {a : α}
    (h : e.run draft = .ok a after) : (e >>= f).run draft = (f a).run after := by
  rw [Edit.run_bind, h]

theorem run_bind_error {α β : Type} {e : Edit α} {f : α → Edit β} {draft after : Draft}
    {fault : Fault} (h : e.run draft = .error fault after) :
    (e >>= f).run draft = .error fault after := by
  rw [Edit.run_bind, h]

theorem exists_of_run_bind_ok {α β : Type} {e : Edit α} {f : α → Edit β} {draft after : Draft}
    {b : β} (h : (e >>= f).run draft = .ok b after) :
    ∃ a mid, e.run draft = .ok a mid ∧ (f a).run mid = .ok b after := by
  rw [Edit.run_bind] at h
  cases hrun : e.run draft with
  | ok a mid =>
      rw [hrun] at h
      exact ⟨a, mid, rfl, h⟩
  | error fault mid =>
      rw [hrun] at h
      cases h

/-- Decides whether a program fails. -/
def fails {α : Type} (e : Edit α) (draft : Draft) : Bool :=
  match e.run draft with
  | .ok _ _ => false
  | .error _ _ => true

theorem exists_of_fails {α : Type} {e : Edit α} {draft : Draft} (h : e.fails draft = true) :
    ∃ fault after, e.run draft = .error fault after := by
  unfold fails at h
  cases hrun : e.run draft with
  | ok a after =>
      rw [hrun] at h
      cases h
  | error fault after => exact ⟨fault, after, rfl⟩

/-! ## Positions -/

theorem run_index_of_not_live {draft : Draft} {t : TokenId} (h : draft.isLive t = false) :
    (index t).run draft = .error (.stale t) draft := by
  unfold index
  rw [Edit.run_bind, Edit.run_get]
  unfold Draft.isLive at h
  cases hhandle : (draft.pool.get t).handle with
  | none => simp [hhandle, run_throw]
  | some handle =>
      rw [hhandle] at h
      simp [hhandle, h, run_throw]

/-- **Looking a position up** succeeds for a token that belongs to the stream, and the position
is the one of its handle in the order. -/
theorem run_index_of_live {draft : Draft} (hs : draft.stream.WellFormed) {t : TokenId}
    (h : draft.isLive t = true) :
    ∃ position handle, (draft.pool.get t).handle = some handle ∧
      draft.stream.arena.get? handle = some t ∧
      draft.stream.order[position]? = some handle ∧
      (index t).run draft = .ok position draft.refreshed := by
  obtain ⟨handle, hhandle, harena⟩ := Draft.isLive_iff.1 h
  have hmem : handle ∈ draft.stream.order := (hs.arena_isSome handle).1 (by simp [harena])
  obtain ⟨position, hposition⟩ := List.getElem?_of_mem hmem
  refine ⟨position, handle, hhandle, harena, hposition, ?_⟩
  have hcache := hs.refresh_position hposition
  have hholds : draft.stream.holds t (some handle) = true := by simp [Stream.holds, harena]
  unfold index
  rw [Edit.run_bind, Edit.run_get]
  simp only [hhandle, hholds, if_true]
  rw [Edit.run_bind, Edit.run_set]
  simp only [hcache]
  rfl

/-- A position leads to the token that stands there. -/
theorem run_tokenAt {draft : Draft} (hs : draft.stream.WellFormed) {position : Nat} {t : TokenId}
    (h : draft.stream.tokens[position]? = some t) :
    (tokenAt position).run draft = .ok t draft := by
  rw [hs.getElem?_tokens, Option.bind_eq_some_iff] at h
  obtain ⟨handle, hget, harena⟩ := h
  unfold tokenAt
  rw [Edit.run_bind, Edit.run_get]
  simp only [hget, harena]
  rfl

theorem run_tokenAt_refreshed {draft : Draft} (hs : draft.stream.WellFormed) {position : Nat}
    {t : TokenId} (h : draft.stream.tokens[position]? = some t) :
    (tokenAt position).run draft.refreshed = .ok t draft.refreshed := by
  refine run_tokenAt hs.refresh ?_
  rw [Draft.refreshed_stream, Stream.refresh_tokens]
  exact h

theorem run_tokenAt_of_le {draft : Draft} {position : Nat} (h : draft.stream.size ≤ position) :
    (tokenAt position).run draft = .error .indexOutOfRange draft := by
  unfold tokenAt
  rw [Edit.run_bind, Edit.run_get]
  simp only [List.getElem?_eq_none h]
  rfl

/-- **The neighbour before a token** is the one at the position before, if there is one. -/
theorem run_prev {draft : Draft} (hs : draft.stream.WellFormed) {t : TokenId} {position : Nat}
    (hrun : (index t).run draft = .ok position draft.refreshed)
    (hlt : position < draft.stream.size) :
    (prev t).run draft =
      .ok (if position = 0 then none else draft.stream.tokens[position - 1]?)
        draft.refreshed := by
  unfold prev
  rw [run_bind_ok hrun]
  cases position with
  | zero => rfl
  | succ before =>
      have hbefore : before < draft.stream.tokens.length := by
        rw [hs.length_tokens]
        omega
      have hget : draft.stream.tokens[before]? = some draft.stream.tokens[before] :=
        List.getElem?_eq_getElem hbefore
      rw [run_bind_ok (run_tokenAt_refreshed hs hget), if_neg (Nat.succ_ne_zero before),
        Nat.add_sub_cancel, hget]
      rfl

/-- **The neighbour after a token** is the one at the position after, if there is one. -/
theorem run_next {draft : Draft} (hs : draft.stream.WellFormed) {t : TokenId} {position : Nat}
    (hrun : (index t).run draft = .ok position draft.refreshed) :
    (next t).run draft = .ok draft.stream.tokens[position + 1]? draft.refreshed := by
  have hlength := hs.length_tokens
  unfold next
  rw [run_bind_ok hrun, Edit.run_bind, Edit.run_get]
  simp only [Draft.refreshed_stream, Stream.refresh_size]
  split
  · rename_i hlt
    have hbound : position + 1 < draft.stream.tokens.length := by omega
    have hget : draft.stream.tokens[position + 1]? = some draft.stream.tokens[position + 1] :=
      List.getElem?_eq_getElem hbound
    rw [run_bind_ok (run_tokenAt_refreshed hs hget), hget]
    rfl
  · rename_i hge
    rw [List.getElem?_eq_none (by omega)]
    rfl

/-! ## Taking out and putting in -/

theorem run_remove_of_not_live {draft : Draft} {t : TokenId} (h : draft.isLive t = false) :
    (remove t).run draft = .error (.stale t) draft :=
  run_bind_error (run_index_of_not_live h)

theorem run_remove_of_live {draft : Draft} (hs : draft.stream.WellFormed) {t : TokenId}
    (h : draft.isLive t = true) :
    ∃ position handle, draft.stream.arena.get? handle = some t ∧
      draft.stream.order[position]? = some handle ∧
      (remove t).run draft =
        .ok position ⟨draft.pool, draft.stream.refresh.removeAt position handle⟩ := by
  obtain ⟨position, handle, hhandle, harena, hposition, hrun⟩ := run_index_of_live hs h
  refine ⟨position, handle, harena, hposition, ?_⟩
  unfold remove
  rw [run_bind_ok hrun, Edit.run_bind, Edit.run_get]
  simp only [Draft.refreshed_pool, hhandle]
  rw [Edit.run_bind, Edit.run_set]
  rfl

theorem run_create (token : Token) (draft : Draft) :
    (create token).run draft =
      .ok draft.pool.size ⟨draft.pool.add token, draft.stream⟩ := rfl

theorem run_setValue (t : TokenId) (value : String) (draft : Draft) :
    (setValue t value).run draft =
      .ok () ⟨draft.pool.setValue t value, draft.stream⟩ := rfl

theorem run_token (t : TokenId) (draft : Draft) :
    (token t).run draft = .ok (draft.pool.get t) draft := rfl

theorem run_insert_of_not_live {draft : Draft} {t : TokenId} (h : draft.isLive t = false)
    {position : Nat} (hposition : position ≤ draft.stream.size) :
    (insert position t).run draft = .ok t (draft.insertAt position t) := by
  unfold insert
  rw [Edit.run_bind, Edit.run_get]
  simp only [h, Bool.false_eq_true, if_false]
  rw [if_pos ⟨Int.natCast_nonneg position, Int.ofNat_le.2 hposition⟩, Edit.run_bind,
    Edit.run_set]
  rfl

theorem run_insert_of_live {draft : Draft} {t : TokenId} (h : draft.isLive t = true)
    (index : Int) : (insert index t).run draft = .error (.alreadyPresent t) draft := by
  unfold insert
  rw [Edit.run_bind, Edit.run_get]
  simp only [h, if_true]
  rfl

theorem run_insert_of_outside {draft : Draft} {t : TokenId} (h : draft.isLive t = false)
    {index : Int} (houtside : ¬(0 ≤ index ∧ index ≤ draft.stream.size)) :
    (insert index t).run draft = .error (.insertOutOfRange index) draft := by
  unfold insert
  rw [Edit.run_bind, Edit.run_get]
  simp only [h, Bool.false_eq_true, if_false]
  rw [if_neg houtside]
  rfl

/-! ## The final draft and the moments before it -/

/-- The draft that a program leaves, whether it succeeds or fails. -/
def final {α : Type} (e : Edit α) (draft : Draft) : Draft := Draft.left (e.run draft)

section Final

variable {α β : Type} {e : Edit α} {f : α → Edit β} {draft after moment : Draft}

theorem final_of_ok {a : α} (h : e.run draft = .ok a after) : e.final draft = after := by
  rw [final, h, Draft.left]

theorem final_of_error {fault : Fault} (h : e.run draft = .error fault after) :
    e.final draft = after := by
  rw [final, h, Draft.left]

theorem final_bind_ok {a : α} (h : e.run draft = .ok a after) :
    (e >>= f).final draft = (f a).final after := by
  rw [final, run_bind_ok h, final]

/-- What is left is what was there, if nothing was stored, or else the last moment. -/
theorem final_eq_or_mem (e : Edit α) (draft : Draft) :
    e.final draft = draft ∨ e.final draft ∈ e.moments draft := by
  rw [final, ← e.last draft, List.getLastD_eq_getLast?]
  cases hlast : (e.moments draft).getLast? with
  | none => exact .inl rfl
  | some moment => exact .inr (List.mem_of_getLast? hlast)

theorem mem_moments_bind : moment ∈ (e >>= f).moments draft ↔
    moment ∈ e.moments draft ∨
      ∃ a after, e.run draft = .ok a after ∧ moment ∈ (f a).moments after := by
  rw [moments_bind, List.mem_append]
  refine or_congr_right ?_
  cases e.run draft <;> simp

end Final

end ManifestLint.Edit
