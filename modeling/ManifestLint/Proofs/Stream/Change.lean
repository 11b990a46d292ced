import Mathlib.Logic.Relation
import ManifestLint.Proofs.Stream.ReadsOnly

set_option autoImplicit false

/-! # Changes of a stream

All that an operation does to a stream is made of four changes: the cache is brought up to date,
a token is put in that does not belong to the stream, a token is taken out, the value of a token
is overwritten. `Change puts` names the tokens that may be put in.

What holds of an operation however it ends is derived from that. A change keeps the stream well
formed. If the tokens that are put in exist, the stream goes on to own its tokens; if they stand
in no other stream, the others go on to own theirs (`Changing.owned_other`). And what stands under
a handle that was given out before, stood there before (`Stream.Extends`). -/

namespace ManifestLint

open Relation (ReflTransGen)

/-! ## Handles -/

/-- The later of two states of a stream gives no handle out that the earlier had given out: under
such a handle stands what stood there before, or nothing. -/
structure Stream.Extends (before after : Stream) : Prop where
  le : before.nextHandle ≤ after.nextHandle
  arena : ∀ h t, h < before.nextHandle → after.arena.get? h = some t →
    before.arena.get? h = some t

theorem Stream.Extends.refl (stream : Stream) : Stream.Extends stream stream :=
  ⟨Nat.le_refl _, fun _ _ _ h => h⟩

theorem Stream.Extends.trans {a b c : Stream} (hab : Stream.Extends a b)
    (hbc : Stream.Extends b c) : Stream.Extends a c where
  le := Nat.le_trans hab.le hbc.le
  arena h t hlt harena :=
    hab.arena h t hlt (hbc.arena h t (Nat.lt_of_lt_of_le hlt hab.le) harena)

namespace Draft

/-! ## Changes -/

/-- One change of a draft; a token that is put in is one that `puts` allows. -/
inductive Change (puts : TokenId → Prop) : Draft → Draft → Prop
  /-- The cache is brought up to date. -/
  | refresh (draft : Draft) : Change puts draft draft.refreshed
  /-- A token that does not belong to the stream is put in. -/
  | insert (draft : Draft) {position : Nat} {token : TokenId} (hputs : puts token)
      (hposition : position ≤ draft.stream.size) (hlive : draft.isLive token = false) :
      Change puts draft (draft.insertAt position token)
  /-- A token is taken out. -/
  | remove (draft : Draft) {position handle : Nat}
      (hget : draft.stream.order[position]? = some handle) :
      Change puts draft ⟨draft.pool, draft.stream.removeAt position handle⟩
  /-- The value of a token is overwritten. -/
  | setValue (draft : Draft) (token : TokenId) (value : String) :
      Change puts draft ⟨draft.pool.setValue token value, draft.stream⟩

/-- Any number of changes, one after another. -/
def Changing (puts : TokenId → Prop) : Draft → Draft → Prop := ReflTransGen (Change puts)

/-- The handle of a token that does not stand in a stream may be overwritten. -/
theorem Owned.setHandle {draft : Draft} (ho : draft.Owned) {token : TokenId}
    (hnew : token ∉ draft.stream.tokens) (handle : Nat) :
    (Draft.mk (draft.pool.setHandle token handle) draft.stream).Owned where
  wellFormed := ho.wellFormed
  arena_lt h other harena := by
    show other < (draft.pool.setHandle token handle).size
    rw [Pool.size_setHandle]
    exact ho.arena_lt h other harena
  handle_eq h other harena := by
    have hne : other ≠ token := by
      rintro rfl
      exact hnew ((mem_tokens ho.toSound).2 ⟨h, harena⟩)
    simp only [Pool.setHandle, Pool.get_modify]
    rw [if_neg fun hand => hne hand.1]
    exact ho.handle_eq h other harena

namespace Change

variable {puts : TokenId → Prop} {before after : Draft}

theorem wellFormed (h : Change puts before after) (hs : before.stream.WellFormed) :
    after.stream.WellFormed := by
  cases h with
  | refresh => exact hs.refresh
  | insert hputs hposition hlive => exact hs.insertAt hposition _
  | remove hget => exact hs.removeAt hget
  | setValue token value => exact hs

theorem size_eq (h : Change puts before after) : after.pool.size = before.pool.size := by
  cases h with
  | refresh => rfl
  | insert hputs hposition hlive => exact Pool.size_setHandle _ _ _
  | remove hget => rfl
  | setValue token value => exact Pool.size_setValue _ _ _

theorem owned (h : Change puts before after) (ho : before.Owned)
    (hputs : ∀ t, puts t → t < before.pool.size) : after.Owned := by
  cases h with
  | refresh => exact ho.refreshed
  | @insert position token hput hposition hlive =>
      have hnew : token ∉ before.stream.tokens := by
        rw [← isLive_iff_mem ho, hlive]
        exact Bool.false_ne_true
      exact ho.insertAt hposition (hputs token hput) hnew
  | remove hget => exact ho.removeAt hget
  | setValue token value => exact ho.setValue token value

theorem owned_other (h : Change puts before after) {other : Stream}
    (ho : (Draft.mk before.pool other).Owned) (hputs : ∀ t, puts t → t ∉ other.tokens) :
    (Draft.mk after.pool other).Owned := by
  cases h with
  | refresh => exact ho
  | @insert position token hput hposition hlive => exact ho.setHandle (hputs token hput) _
  | remove hget => exact ho
  | setValue token value => exact ho.setValue token value

theorem stream_extends (h : Change puts before after) :
    Stream.Extends before.stream after.stream := by
  cases h with
  | refresh =>
      exact ⟨by simp, fun h t _ harena => by simpa using harena⟩
  | insert hputs hposition hlive =>
      refine ⟨Nat.le_succ _, fun h t hlt harena => ?_⟩
      simp only [Draft.insertAt, Stream.insertAt, Table.get?_insert] at harena
      rw [if_neg (Nat.ne_of_lt hlt)] at harena
      exact harena
  | remove hget =>
      refine ⟨Nat.le_refl _, fun h t hlt harena => ?_⟩
      simp only [Stream.removeAt, Table.get?_erase] at harena
      split at harena
      · cases harena
      · exact harena
  | setValue token value => exact .refl _

end Change

namespace Changing

variable {puts : TokenId → Prop} {before after : Draft}

theorem refl (draft : Draft) : Changing puts draft draft := ReflTransGen.refl

theorem single (h : Change puts before after) : Changing puts before after :=
  ReflTransGen.single h

theorem trans {a b c : Draft} (hab : Changing puts a b) (hbc : Changing puts b c) :
    Changing puts a c := ReflTransGen.trans hab hbc

/-- **Changes keep a stream well formed.** -/
theorem wellFormed (h : Changing puts before after) (hs : before.stream.WellFormed) :
    after.stream.WellFormed := by
  induction h with
  | refl => exact hs
  | tail _ step ih => exact step.wellFormed ih

theorem size_eq (h : Changing puts before after) : after.pool.size = before.pool.size := by
  induction h with
  | refl => rfl
  | tail _ step ih => rw [step.size_eq, ih]

/-- **A stream goes on to own its tokens** if those that are put in exist. -/
theorem owned (h : Changing puts before after) (ho : before.Owned)
    (hputs : ∀ t, puts t → t < before.pool.size) : after.Owned := by
  induction h with
  | refl => exact ho
  | tail hsome step ih =>
      refine step.owned ih fun t ht => ?_
      rw [size_eq hsome]
      exact hputs t ht

/-- **The other streams go on to own their tokens** if none of them is put in. -/
theorem owned_other (h : Changing puts before after) {other : Stream}
    (ho : (Draft.mk before.pool other).Owned) (hputs : ∀ t, puts t → t ∉ other.tokens) :
    (Draft.mk after.pool other).Owned := by
  induction h with
  | refl => exact ho
  | tail _ step ih => exact step.owned_other ih hputs

/-- **No handle is given out again.** -/
theorem stream_extends (h : Changing puts before after) :
    Stream.Extends before.stream after.stream := by
  induction h with
  | refl => exact .refl _
  | tail _ step ih => exact ih.trans step.stream_extends

end Changing

end Draft

/-! ## Programs -/

namespace Edit

variable {α β : Type} {puts : TokenId → Prop}

/-- On a draft whose stream is well formed a program makes nothing but changes, whether it
succeeds or fails. -/
def Makes (puts : TokenId → Prop) (e : Edit α) : Prop :=
  ∀ draft : Draft, draft.stream.WellFormed → Draft.Changing puts draft (e.final draft)

theorem ReadsOnly.makes {e : Edit α} (he : e.ReadsOnly) : e.Makes puts := by
  intro draft _
  rcases he draft with h | h
  · rw [h]
    exact .refl _
  · rw [h]
    exact .single (.refresh draft)

theorem Makes.bind {e : Edit α} {f : α → Edit β} (he : e.Makes puts)
    (hf : ∀ a, (f a).Makes puts) : (e >>= f).Makes puts := by
  intro draft hs
  have hfirst := he draft hs
  cases hrun : e.run draft with
  | error fault after =>
      rw [final_of_error hrun] at hfirst
      rw [final_of_error (run_bind_error hrun)]
      exact hfirst
  | ok a after =>
      rw [final_of_ok hrun] at hfirst
      rw [final_bind_ok hrun]
      exact hfirst.trans (hf a after (hfirst.wellFormed hs))

theorem makes_insert {t : TokenId} (hputs : puts t) (index : Int) :
    (insert index t).Makes puts := by
  intro draft hs
  cases hlive : draft.isLive t with
  | true =>
      rw [final_of_error (run_insert_of_live hlive index)]
      exact .refl _
  | false =>
      by_cases hinside : 0 ≤ index ∧ index ≤ draft.stream.size
      · obtain ⟨position, rfl⟩ := Int.eq_ofNat_of_zero_le hinside.1
        have hposition : position ≤ draft.stream.size := Int.ofNat_le.1 hinside.2
        rw [final_of_ok (run_insert_of_not_live hlive hposition)]
        exact .single (.insert draft hputs hposition hlive)
      · rw [final_of_error (run_insert_of_outside hlive hinside)]
        exact .refl _

theorem makes_insertBefore {t : TokenId} (hputs : puts t) (anchor : TokenId) :
    (insertBefore anchor t).Makes puts :=
  (LooksOnly.index anchor).readsOnly.makes.bind fun position => makes_insert hputs position

theorem makes_remove (t : TokenId) : (remove t).Makes puts := by
  intro draft hs
  cases hlive : draft.isLive t with
  | false =>
      rw [final_of_error (run_remove_of_not_live hlive)]
      exact .refl _
  | true =>
      obtain ⟨position, handle, -, hget, hrun⟩ := run_remove_of_live hs hlive
      have hget' : draft.refreshed.stream.order[position]? = some handle := by simpa using hget
      rw [final_of_ok hrun]
      exact (Draft.Changing.single (.refresh draft)).trans (.single (.remove _ hget'))

theorem makes_setValue (t : TokenId) (value : String) : (setValue t value).Makes puts :=
  fun draft _ => .single (.setValue draft t value)

theorem makes_appendAll {tokens : List TokenId} (hputs : ∀ t ∈ tokens, puts t) :
    (appendAll tokens).Makes puts := by
  induction tokens with
  | nil => exact (ReadsOnly.pure ()).makes
  | cons t rest ih =>
      rw [List.forall_mem_cons] at hputs
      exact LooksOnly.get.readsOnly.makes.bind fun draft =>
        (makes_insert hputs.1 draft.stream.size).bind fun _ => ih hputs.2

end Edit

end ManifestLint
