import Mathlib.Data.List.Basic
import Mathlib.Data.List.Nodup
import ManifestLint.Stream.Edit

set_option autoImplicit false

/-! # Well-formed streams

A stream keeps the same sequence in three places: the order, the arena, and the cache of
positions. A stream is *well formed* when the three agree: no handle stands twice in the order,
the handles of the order are those of the arena and those of the cache, all of them were given
out, and the cache is right up to the watermark.

Nothing is said about the tokens themselves, so that a stream stays well formed when another
stream takes one of its tokens over. Every change of a stream keeps it well formed, and changes
its tokens as one expects of a list (`tokens_insertAt`, `tokens_removeAt`). -/

namespace ManifestLint.Stream

/-! ## The invariant -/

/-- A position below the watermark, where the cache can be trusted. -/
def Trusted (stream : Stream) (position : Nat) : Prop :=
  ∀ first, stream.staleFrom = some first → position < first

/-- **The invariant of a stream**: order, arena and cache hold the same handles. -/
structure WellFormed (stream : Stream) : Prop where
  /-- No handle stands twice in the order. -/
  nodup : stream.order.Nodup
  /-- The arena holds the handles of the order. -/
  arena_isSome : ∀ h, (stream.arena.get? h).isSome = true ↔ h ∈ stream.order
  /-- The cache holds the handles of the order. -/
  positions_isSome : ∀ h, (stream.positions.get? h).isSome = true ↔ h ∈ stream.order
  /-- Every handle was given out. -/
  lt_nextHandle : ∀ h ∈ stream.order, h < stream.nextHandle
  /-- The watermark is at most the end. -/
  staleFrom_le : ∀ first, stream.staleFrom = some first → first ≤ stream.order.length
  /-- The cache is right below the watermark. -/
  position_eq : ∀ position h, stream.order[position]? = some h → stream.Trusted position →
    stream.positions.get? h = some position

theorem wellFormed_empty (source : String) : (empty source).WellFormed where
  nodup := List.nodup_nil
  arena_isSome h := by simp [empty]
  positions_isSome h := by simp [empty]
  lt_nextHandle h hmem := by simp [empty] at hmem
  staleFrom_le first hfirst := by simp [empty] at hfirst
  position_eq position h hget := by simp [empty] at hget

/-! ## The watermark -/

theorem lowerTo_eq_some {staleFrom : Option Nat} {position first : Nat}
    (h : lowerTo staleFrom position = some first) :
    first ≤ position ∧ ∀ old, staleFrom = some old → first ≤ old := by
  cases staleFrom with
  | none =>
      simp only [lowerTo, Option.some.injEq] at h
      exact ⟨by omega, by simp⟩
  | some old =>
      simp only [lowerTo, Option.some.injEq] at h
      refine ⟨by omega, ?_⟩
      rintro old' ⟨⟩
      omega

theorem lowerTo_isSome (staleFrom : Option Nat) (position : Nat) :
    ∃ first, lowerTo staleFrom position = some first := by
  cases staleFrom with
  | none => exact ⟨_, rfl⟩
  | some old => exact ⟨_, rfl⟩

/-! ## Refreshing the cache -/

theorem get?_numberFrom_of_notMem {h : Nat} (handles : List Nat) (hmem : h ∉ handles)
    (positions : Table Nat) (first : Nat) :
    (numberFrom positions first handles).get? h = positions.get? h := by
  induction handles generalizing positions first with
  | nil => rfl
  | cons handle rest ih =>
      rw [List.mem_cons, not_or] at hmem
      rw [numberFrom, ih hmem.2, Table.get?_insert, if_neg hmem.1]

theorem get?_numberFrom {handles : List Nat} (hnodup : handles.Nodup) (positions : Table Nat)
    (first i h : Nat) (hget : handles[i]? = some h) :
    (numberFrom positions first handles).get? h = some (first + i) := by
  induction handles generalizing positions first i with
  | nil => simp at hget
  | cons handle rest ih =>
      rw [List.nodup_cons] at hnodup
      rw [numberFrom]
      cases i with
      | zero =>
          simp only [List.getElem?_cons_zero, Option.some.injEq] at hget
          subst hget
          rw [get?_numberFrom_of_notMem rest hnodup.1, Table.get?_insert, if_pos rfl, Nat.add_zero]
      | succ i =>
          rw [List.getElem?_cons_succ] at hget
          rw [ih hnodup.2 _ _ i hget]
          congr 1
          omega

section Refresh

variable (stream : Stream)

@[simp] theorem refresh_source : stream.refresh.source = stream.source := by
  unfold refresh; split <;> rfl

@[simp] theorem refresh_arena : stream.refresh.arena = stream.arena := by
  unfold refresh; split <;> rfl

@[simp] theorem refresh_order : stream.refresh.order = stream.order := by
  unfold refresh; split <;> rfl

@[simp] theorem refresh_nextHandle : stream.refresh.nextHandle = stream.nextHandle := by
  unfold refresh; split <;> rfl

@[simp] theorem refresh_staleFrom : stream.refresh.staleFrom = none := by
  unfold refresh; split
  · assumption
  · rfl

@[simp] theorem refresh_tokens : stream.refresh.tokens = stream.tokens := by
  simp [tokens]

@[simp] theorem refresh_size : stream.refresh.size = stream.size := by
  simp [size]

@[simp] theorem refresh_holds (token : TokenId) (handle : Option Nat) :
    stream.refresh.holds token handle = stream.holds token handle := by
  simp [holds]

theorem refresh_refresh : stream.refresh.refresh = stream.refresh := by
  have h := refresh_staleFrom stream
  revert h
  generalize stream.refresh = fresh
  intro h
  simp [refresh, h]

end Refresh

/-- A refreshed cache is right everywhere. -/
theorem WellFormed.refresh_position {stream : Stream} (hs : stream.WellFormed) {position h : Nat}
    (hget : stream.order[position]? = some h) :
    stream.refresh.positions.get? h = some position := by
  cases hfirst : stream.staleFrom with
  | none =>
      have hrefresh : stream.refresh = stream := by simp [refresh, hfirst]
      rw [hrefresh]
      exact hs.position_eq position h hget (by simp [Trusted, hfirst])
  | some first =>
      have hrefresh : stream.refresh.positions =
          numberFrom stream.positions first (stream.order.drop first) := by
        simp [refresh, hfirst]
      rw [hrefresh]
      by_cases hlt : position < first
      · have hnotMem : h ∉ stream.order.drop first := by
          intro hmem
          obtain ⟨i, hi⟩ := List.getElem?_of_mem hmem
          rw [List.getElem?_drop] at hi
          have hposition := (List.getElem?_eq_some_iff.1 hget).1
          have := (List.getElem?_inj hposition hs.nodup).1 (hget.trans hi.symm)
          omega
        rw [get?_numberFrom_of_notMem _ hnotMem]
        -- below the watermark the cache was right before
        refine hs.position_eq position h hget ?_
        rintro first' hfirst'
        rw [hfirst] at hfirst'
        cases hfirst'
        exact hlt
      · -- from the watermark on the handles are numbered anew
        have hdrop : (stream.order.drop first)[position - first]? = some h := by
          rw [List.getElem?_drop, show first + (position - first) = position by omega]
          exact hget
        rw [get?_numberFrom (hs.nodup.sublist (List.drop_sublist first _)) _ _ _ _ hdrop]
        congr 1
        omega

theorem WellFormed.refresh {stream : Stream} (hs : stream.WellFormed) :
    stream.refresh.WellFormed where
  nodup := by simpa using hs.nodup
  arena_isSome h := by simpa using hs.arena_isSome h
  positions_isSome h := by
    rw [refresh_order]
    constructor
    · intro hsome
      by_contra hmem
      have hold : stream.refresh.positions.get? h = stream.positions.get? h := by
        unfold Stream.refresh
        split
        · rfl
        · exact get?_numberFrom_of_notMem _ (fun hd => hmem (List.mem_of_mem_drop hd)) _ _
      rw [hold] at hsome
      exact hmem ((hs.positions_isSome h).1 hsome)
    · intro hmem
      obtain ⟨i, hi⟩ := List.getElem?_of_mem hmem
      rw [hs.refresh_position hi]
      rfl
  lt_nextHandle h hmem := by
    rw [refresh_order] at hmem
    rw [refresh_nextHandle]
    exact hs.lt_nextHandle h hmem
  staleFrom_le first hfirst := by simp at hfirst
  position_eq position h hget _ := by
    rw [refresh_order] at hget
    exact hs.refresh_position hget

/-! ## Putting a token in -/

theorem WellFormed.nextHandle_notMem {stream : Stream} (hs : stream.WellFormed) :
    stream.nextHandle ∉ stream.order := fun hmem =>
  Nat.lt_irrefl _ (hs.lt_nextHandle _ hmem)

theorem WellFormed.insertAt {stream : Stream} (hs : stream.WellFormed) {position : Nat}
    (hposition : position ≤ stream.size) (token : TokenId) :
    (stream.insertAt position token).WellFormed where
  nodup := by
    have hnew := hs.nextHandle_notMem
    have hperm : (stream.order.insertIdx position stream.nextHandle).Perm
        (stream.nextHandle :: stream.order) := List.perm_insertIdx _ _ hposition
    exact hperm.nodup_iff.2 (List.nodup_cons.2 ⟨hnew, hs.nodup⟩)
  arena_isSome h := by
    simp only [Stream.insertAt, Table.get?_insert, List.mem_insertIdx hposition]
    by_cases hh : h = stream.nextHandle
    · simp [hh]
    · simp [hh, hs.arena_isSome h]
  positions_isSome h := by
    simp only [Stream.insertAt, Table.get?_insert, List.mem_insertIdx hposition]
    by_cases hh : h = stream.nextHandle
    · simp [hh]
    · simp [hh, hs.positions_isSome h]
  lt_nextHandle h hmem := by
    simp only [Stream.insertAt, List.mem_insertIdx hposition] at hmem ⊢
    rcases hmem with rfl | hmem
    · omega
    · have := hs.lt_nextHandle h hmem
      omega
  staleFrom_le first hfirst := by
    have hle := (lowerTo_eq_some hfirst).1
    have hlen : (stream.insertAt position token).order.length = stream.order.length + 1 :=
      List.length_insertIdx_of_le_length hposition _
    have : position ≤ stream.order.length := hposition
    omega
  position_eq i h hget htrusted := by
    obtain ⟨first, hfirst⟩ := lowerTo_isSome stream.staleFrom (position + 1)
    have hlt : i < first := htrusted first hfirst
    have hbounds := lowerTo_eq_some hfirst
    simp only [Stream.insertAt, Table.get?_insert]
    simp only [Stream.insertAt, List.getElem?_insertIdx] at hget
    -- below the new watermark stand the old handles before `position`, and the new one at it
    by_cases hi : i < position
    · rw [if_pos hi] at hget
      have hmem : h ∈ stream.order := List.mem_of_getElem? hget
      have hne : h ≠ stream.nextHandle := by
        rintro rfl
        exact hs.nextHandle_notMem hmem
      rw [if_neg hne]
      refine hs.position_eq i h hget fun old hold => ?_
      have := hbounds.2 old hold
      omega
    · have hieq : i = position := by omega
      rw [if_neg hi, if_pos hieq, if_pos (by rw [← hieq] at hposition; exact hposition)] at hget
      cases hget
      rw [if_pos rfl, hieq]

/-! ## Taking a token out -/

theorem WellFormed.removeAt {stream : Stream} (hs : stream.WellFormed) {position handle : Nat}
    (hget : stream.order[position]? = some handle) :
    (stream.removeAt position handle).WellFormed := by
  obtain ⟨hlt, hvalue⟩ := List.getElem?_eq_some_iff.1 hget
  have hmem : ∀ h, h ∈ stream.order.eraseIdx position ↔ h ≠ handle ∧ h ∈ stream.order := by
    intro h
    have herase : stream.order.eraseIdx position = stream.order.erase handle := by
      rw [← hvalue]
      exact (List.Nodup.erase_getElem hs.nodup position hlt).symm
    rw [herase, hs.nodup.mem_erase_iff]
  refine ⟨?_, ?_, ?_, ?_, ?_, ?_⟩
  · exact hs.nodup.sublist (List.eraseIdx_sublist _ _)
  · intro h
    simp only [Stream.removeAt, Table.get?_erase, hmem]
    by_cases hh : h = handle
    · simp [hh]
    · simp [hh, hs.arena_isSome h]
  · intro h
    simp only [Stream.removeAt, Table.get?_erase, hmem]
    by_cases hh : h = handle
    · simp [hh]
    · simp [hh, hs.positions_isSome h]
  · intro h hin
    exact hs.lt_nextHandle h ((hmem h).1 hin).2
  · intro first hfirst
    have hle := (lowerTo_eq_some hfirst).1
    have hlen : (stream.removeAt position handle).order.length = stream.order.length - 1 :=
      List.length_eraseIdx_of_lt hlt
    omega
  · intro i h hi htrusted
    obtain ⟨first, hfirst⟩ := lowerTo_isSome stream.staleFrom position
    have hilt : i < first := htrusted first hfirst
    have hbounds := lowerTo_eq_some hfirst
    have hne : h ≠ handle := ((hmem h).1 (List.mem_of_getElem? hi)).1
    simp only [Stream.removeAt, Table.get?_erase, if_neg hne]
    simp only [Stream.removeAt, List.getElem?_eraseIdx] at hi
    -- nothing below the watermark has moved
    rw [if_pos (by omega)] at hi
    refine hs.position_eq i h hi fun old hold => ?_
    have := hbounds.2 old hold
    omega

/-! ## The tokens -/

theorem WellFormed.arena_eq_some {stream : Stream} (hs : stream.WellFormed) {h : Nat}
    (hmem : h ∈ stream.order) : ∃ token, stream.arena.get? h = some token :=
  Option.isSome_iff_exists.1 ((hs.arena_isSome h).2 hmem)

theorem WellFormed.getElem?_tokens {stream : Stream} (hs : stream.WellFormed) (position : Nat) :
    stream.tokens[position]? = stream.order[position]?.bind stream.arena.get? := by
  have hall : ∀ h ∈ stream.order, (stream.arena.get? h).isSome = true := fun h hmem =>
    (hs.arena_isSome h).2 hmem
  unfold tokens
  revert hall
  generalize stream.order = order
  intro hall
  induction order generalizing position with
  | nil => simp
  | cons h rest ih =>
      obtain ⟨token, htoken⟩ := Option.isSome_iff_exists.1 (hall h List.mem_cons_self)
      rw [List.filterMap_cons_some htoken]
      cases position with
      | zero => simp [htoken]
      | succ position =>
          rw [List.getElem?_cons_succ, List.getElem?_cons_succ]
          exact ih position fun h' hmem => hall h' (List.mem_cons_of_mem h hmem)

theorem WellFormed.tokens_at {stream : Stream} (hs : stream.WellFormed) {position handle : Nat}
    {t : TokenId} (hget : stream.order[position]? = some handle)
    (harena : stream.arena.get? handle = some t) : stream.tokens[position]? = some t := by
  rw [hs.getElem?_tokens, hget]
  exact harena

theorem WellFormed.length_tokens {stream : Stream} (hs : stream.WellFormed) :
    stream.tokens.length = stream.size := by
  apply Nat.le_antisymm (List.length_filterMap_le _ _)
  by_contra hlt
  have hget := hs.getElem?_tokens stream.tokens.length
  rw [List.getElem?_eq_none (Nat.le_refl _)] at hget
  obtain ⟨h, hh⟩ : ∃ h, stream.order[stream.tokens.length]? = some h :=
    ⟨_, List.getElem?_eq_getElem (Nat.lt_of_not_le hlt)⟩
  obtain ⟨token, htoken⟩ := hs.arena_eq_some (List.mem_of_getElem? hh)
  simp [hh, htoken] at hget

theorem WellFormed.tokens_insertAt {stream : Stream} (hs : stream.WellFormed) {position : Nat}
    (hposition : position ≤ stream.size) (token : TokenId) :
    (stream.insertAt position token).tokens = stream.tokens.insertIdx position token := by
  -- the old handles still lead to their tokens, as the new handle is none of them
  have hold : ∀ i : Nat, stream.order[i]?.bind (stream.arena.insert stream.nextHandle token).get? =
      stream.tokens[i]? := by
    intro i
    rw [hs.getElem?_tokens]
    cases hi : stream.order[i]? with
    | none => rfl
    | some h =>
        have hne : h ≠ stream.nextHandle := by
          rintro rfl
          exact hs.nextHandle_notMem (List.mem_of_getElem? hi)
        simp [Table.get?_insert, hne]
  apply List.ext_getElem?
  intro i
  rw [(hs.insertAt hposition token).getElem?_tokens, List.getElem?_insertIdx]
  simp only [Stream.insertAt, List.getElem?_insertIdx]
  have hlen : stream.tokens.length = stream.order.length := hs.length_tokens
  have hle : position ≤ stream.order.length := hposition
  split_ifs
  · exact hold i
  · simp [Table.get?_insert]
  · omega
  · omega
  · rfl
  · exact hold (i - 1)

/-- A token that is put in at the end is the last one. -/
theorem WellFormed.tokens_insertAt_size {stream : Stream} (hs : stream.WellFormed)
    (token : TokenId) : (stream.insertAt stream.size token).tokens = stream.tokens ++ [token] := by
  rw [hs.tokens_insertAt (Nat.le_refl _), ← hs.length_tokens, List.insertIdx_length_self]

theorem WellFormed.tokens_removeAt {stream : Stream} (hs : stream.WellFormed)
    {position handle : Nat} (hget : stream.order[position]? = some handle) :
    (stream.removeAt position handle).tokens = stream.tokens.eraseIdx position := by
  have hlt := (List.getElem?_eq_some_iff.1 hget).1
  have hold : ∀ i : Nat, i ≠ position →
      stream.order[i]?.bind (stream.arena.erase handle).get? = stream.tokens[i]? := by
    intro i hne
    rw [hs.getElem?_tokens]
    cases hi : stream.order[i]? with
    | none => rfl
    | some h =>
        have hh : h ≠ handle := by
          rintro rfl
          exact hne ((List.getElem?_inj hlt hs.nodup).1 (hget.trans hi.symm)).symm
        simp [Table.get?_erase, hh]
  apply List.ext_getElem?
  intro i
  rw [(hs.removeAt hget).getElem?_tokens, List.getElem?_eraseIdx]
  simp only [Stream.removeAt, List.getElem?_eraseIdx]
  split_ifs
  · exact hold i (by omega)
  · exact hold (i + 1) (by omega)

end ManifestLint.Stream
