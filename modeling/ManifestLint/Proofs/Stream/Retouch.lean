import Mathlib.Logic.Relation
import ManifestLint.Proofs.Stream.Entry

set_option autoImplicit false

/-! # Retouching the spacing of a stream

The elementary changes that a repair is made of: the cache is brought up to date, a new space is
made, such a space is put in, a space is taken out, the value of a white space is set to one
space. A draft that is reached by any number of them has the code it started with
(`keepsCode_of_retouching`): a repair that is made of nothing else cannot touch the code, however
far it gets.

`Edit.Retouches` is the rule by which a program is shown to be made of such changes, also where
it fails. -/

namespace ManifestLint

open Relation (ReflTransGen)

namespace Draft

/-! ## Elementary changes -/

/-- One elementary change. Tokens from the number `old` on are new. -/
inductive Retouch (old : Nat) : Draft → Draft → Prop
  /-- The cache is brought up to date. -/
  | refresh (draft : Draft) : Retouch old draft draft.refreshed
  /-- A new space is made, which is in no stream yet. -/
  | create (draft : Draft) (position : Position) :
      Retouch old draft ⟨draft.pool.add (.singleSpace position), draft.stream⟩
  /-- A new space is put in. -/
  | insert (draft : Draft) {position : Nat} {token : TokenId}
      (hposition : position ≤ draft.stream.size) (hnew : old ≤ token)
      (hlt : token < draft.pool.size) (hspace : (draft.pool.get token).piece = .singleSpace) :
      Retouch old draft (draft.insertAt position token)
  /-- A token of the stream that is spacing is taken out. -/
  | remove (draft : Draft) {position handle : Nat} {token : TokenId}
      (hget : draft.stream.order[position]? = some handle)
      (harena : draft.stream.arena.get? handle = some token)
      (hspace : (draft.pool.get token).kind.isSpace = true) :
      Retouch old draft ⟨draft.pool, draft.stream.removeAt position handle⟩
  /-- White space becomes one space. -/
  | setSpace (draft : Draft) {token : TokenId}
      (hkind : (draft.pool.get token).kind = .whitespace) :
      Retouch old draft ⟨draft.pool.setValue token " ", draft.stream⟩

/-- Any number of elementary changes, one after another. -/
def Retouching (old : Nat) : Draft → Draft → Prop := ReflTransGen (Retouch old)

theorem Retouching.refl {old : Nat} (draft : Draft) : Retouching old draft draft :=
  ReflTransGen.refl

theorem Retouching.single {old : Nat} {before after : Draft} (h : Retouch old before after) :
    Retouching old before after :=
  ReflTransGen.single h

theorem Retouching.trans {old : Nat} {a b c : Draft} (hab : Retouching old a b)
    (hbc : Retouching old b c) : Retouching old a c :=
  ReflTransGen.trans hab hbc

theorem Retouch.sound {old : Nat} {before after : Draft} (h : Retouch old before after)
    (hs : before.Sound) : after.Sound := by
  cases h with
  | refresh => exact hs.refreshed
  | create position => exact hs.add _
  | insert hposition hnew hlt hspace => exact hs.insertAt hposition hlt
  | remove hget harena hspace => exact hs.removeAt hget
  | setSpace hkind => exact hs.setValue _ _

theorem Retouch.size_le {old : Nat} {before after : Draft} (h : Retouch old before after) :
    before.pool.size ≤ after.pool.size := by
  cases h with
  | refresh => exact Nat.le_refl _
  | create position => simp [Pool.size_add]
  | insert hposition hnew hlt hspace => simp [Draft.insertAt]
  | remove hget harena hspace => exact Nat.le_refl _
  | setSpace hkind => simp

theorem Retouching.sound {old : Nat} {before after : Draft} (h : Retouching old before after)
    (hs : before.Sound) : after.Sound := by
  induction h with
  | refl => exact hs
  | tail _ step ih => exact step.sound ih

theorem Retouching.size_le {old : Nat} {before after : Draft}
    (h : Retouching old before after) : before.pool.size ≤ after.pool.size := by
  induction h with
  | refl => exact Nat.le_refl _
  | tail _ step ih => exact Nat.le_trans ih step.size_le

/-! ## What an elementary change does to the entries -/

/-- A token after a change: the same kind and position, and the same value unless it is white
space that became one space. -/
def SameToken (before after : Token) : Prop :=
  after.kind = before.kind ∧ after.position = before.position ∧
    (after.value = before.value ∨ before.kind = .whitespace ∧ after.value = " ")

theorem SameToken.refl (token : Token) : SameToken token token := ⟨rfl, rfl, .inl rfl⟩

theorem SameToken.trans {a b c : Token} (hab : SameToken a b) (hbc : SameToken b c) :
    SameToken a c := by
  obtain ⟨hkind, hposition, hvalue⟩ := hab
  obtain ⟨hkind', hposition', hvalue'⟩ := hbc
  refine ⟨hkind'.trans hkind, hposition'.trans hposition, ?_⟩
  rcases hvalue' with hvalue' | ⟨hwhite, hspace⟩
  · rw [hvalue']
    exact hvalue
  · exact .inr ⟨hkind ▸ hwhite, hspace⟩

theorem Retouch.sameToken {old : Nat} {before after : Draft} (h : Retouch old before after)
    {token : TokenId} (hlt : token < before.pool.size) :
    SameToken (before.pool.get token) (after.pool.get token) := by
  cases h with
  | refresh => exact SameToken.refl _
  | create position =>
      rw [Pool.get_add, if_neg (Nat.ne_of_lt hlt)]
      exact SameToken.refl _
  | insert hposition hnew hlt' hspace =>
      simp only [Draft.insertAt, Pool.setHandle, Pool.get_modify]
      split <;> exact ⟨rfl, rfl, .inl rfl⟩
  | remove hget harena hspace => exact SameToken.refl _
  | @setSpace other hkind =>
      simp only [Pool.setValue, Pool.get_modify]
      split
      · rename_i hand
        exact ⟨rfl, rfl, .inr ⟨hand.1 ▸ hkind, rfl⟩⟩
      · exact SameToken.refl _

/-- Filtering gives the same of two maps that differ only where neither is kept. -/
theorem filter_map_congr {α β : Type} {p : β → Bool} {f g : α → β} {xs : List α}
    (h : ∀ x ∈ xs, f x = g x ∨ p (f x) = false ∧ p (g x) = false) :
    (xs.map f).filter p = (xs.map g).filter p := by
  induction xs with
  | nil => rfl
  | cons x rest ih =>
      have hrest := ih fun y hy => h y (List.mem_cons_of_mem x hy)
      rw [List.map_cons, List.map_cons, List.filter_cons, List.filter_cons, hrest]
      rcases h x List.mem_cons_self with heq | ⟨hf, hg⟩
      · rw [heq]
      · simp [hf, hg]

/-- The entries around a position of the order. -/
theorem entries_split {draft : Draft} (hs : draft.Sound) {position handle : Nat}
    {token : TokenId} (hget : draft.stream.order[position]? = some handle)
    (harena : draft.stream.arena.get? handle = some token) :
    ∃ pre post, draft.entries = pre ++ draft.pool.entry token :: post ∧
      pre.length = position := by
  obtain ⟨hlt, hvalue⟩ := List.getElem?_eq_some_iff.1 (hs.wellFormed.tokens_at hget harena)
  refine ⟨(draft.stream.tokens.take position).map draft.pool.entry,
    (draft.stream.tokens.drop (position + 1)).map draft.pool.entry, ?_, ?_⟩
  · rw [← List.map_cons, ← List.map_append, ← hvalue, ← List.drop_eq_getElem_cons hlt,
      List.take_append_drop]
    rfl
  · rw [List.length_map, List.length_take_of_le (Nat.le_of_lt hlt)]

theorem Retouch.code_eq {old : Nat} {before after : Draft} (h : Retouch old before after)
    (hs : before.Sound) : after.code = before.code := by
  cases h with
  | refresh => simp [code]
  | create position =>
      simp only [code, entries]
      apply filter_map_congr
      intro token hmem
      exact .inl (Pool.entry_add_of_lt _ _ (lt_of_mem_tokens hs hmem))
  | @insert position token hposition hnew hlt hspace =>
      have hlen : (before.entries.take position).length = position := by
        rw [List.length_take_of_le]
        rw [length_entries hs]
        exact hposition
      have hentries :=
        entries_insertAt hs (List.take_append_drop position before.entries).symm token
      rw [hlen] at hentries
      have hisSpace : (before.pool.entry token).isSpace = true := by
        simp [Entry.isSpace, Pool.entry, hspace, Piece.isSpace, Piece.singleSpace, Kind.isSpace]
      rw [code, hentries, List.filter_append, List.filter_cons_of_neg (by simp [hisSpace]),
        ← List.filter_append, List.take_append_drop, code]
  | @remove position handle token hget harena hspace =>
      obtain ⟨pre, post, hentries, rfl⟩ := entries_split hs hget harena
      have hisSpace : (before.pool.entry token).isSpace = true := hspace
      rw [code, entries_removeAt hs hentries hget, code, hentries, List.filter_append,
        List.filter_append, List.filter_cons_of_neg (by simp [hisSpace])]
  | @setSpace token hkind =>
      simp only [code, entries]
      apply filter_map_congr
      intro other hmem
      by_cases hother : other = token
      · right
        have hlt : token < before.pool.size := hother ▸ lt_of_mem_tokens hs hmem
        rw [hother, Pool.entry_setValue_self _ hlt]
        simp [Entry.isSpace, Piece.isSpace, Pool.entry, Token.piece, hkind, Kind.isSpace]
      · exact .inl (Pool.entry_setValue_of_ne _ hother _)

theorem Retouch.isSpace_of_gone {old : Nat} {before after : Draft}
    (h : Retouch old before after) (hs : before.Sound) {token : TokenId}
    (hmem : token ∈ before.stream.tokens) (hgone : token ∉ after.stream.tokens) :
    (before.pool.get token).kind.isSpace = true := by
  cases h with
  | refresh => exact absurd (by simpa using hmem) hgone
  | create position => exact absurd hmem hgone
  | insert hposition hnew hlt hspace =>
      refine absurd ?_ hgone
      simp only [Draft.insertAt]
      rw [hs.wellFormed.tokens_insertAt hposition]
      exact List.subset_insertIdx _ _ _ hmem
  | @remove position handle other hget harena hspace =>
      have htoken := hs.wellFormed.tokens_at hget harena
      rw [hs.wellFormed.tokens_removeAt hget] at hgone
      obtain ⟨i, hi⟩ := List.getElem?_of_mem hmem
      have hieq : i = position := by
        by_contra hne
        exact hgone (List.mem_eraseIdx_iff_getElem?.2 ⟨i, hne, hi⟩)
      rw [hieq, htoken] at hi
      cases hi
      exact hspace
  | setSpace hkind => exact absurd hmem hgone

theorem Retouch.mem_of_mem {old : Nat} {before after : Draft} (h : Retouch old before after)
    (hs : before.Sound) {token : TokenId} (hmem : token ∈ after.stream.tokens) :
    token ∈ before.stream.tokens ∨
      old ≤ token ∧ (before.pool.get token).piece = .singleSpace := by
  cases h with
  | refresh => exact .inl (by simpa using hmem)
  | create position => exact .inl hmem
  | insert hposition hnew hlt hspace =>
      simp only [Draft.insertAt] at hmem
      rw [hs.wellFormed.tokens_insertAt hposition] at hmem
      rcases List.eq_or_mem_of_mem_insertIdx hmem with rfl | hmem
      · exact .inr ⟨hnew, hspace⟩
      · exact .inl hmem
  | remove hget harena hspace =>
      rw [hs.wellFormed.tokens_removeAt hget] at hmem
      exact .inl (List.mem_of_mem_eraseIdx hmem)
  | setSpace hkind => exact .inl hmem

/-! ## The code is kept -/

/-- **What retouching leaves alone**: the code in front of all, and of the rest everything that
is not spacing. -/
structure KeepsCode (before after : Draft) : Prop where
  /-- The tokens that are no spacing are the same ones in the same order, with the same kinds,
  values and positions. -/
  code_eq : after.code = before.code
  /-- A token that is gone was spacing. -/
  isSpace_of_gone : ∀ token ∈ before.stream.tokens, token ∉ after.stream.tokens →
    (before.pool.get token).kind.isSpace = true
  /-- A token that has come is new, and one space. -/
  space_of_come : ∀ token ∈ after.stream.tokens, token ∉ before.stream.tokens →
    before.pool.size ≤ token ∧ (after.pool.get token).piece = .singleSpace
  /-- No token changes but white space that becomes one space. -/
  sameToken : ∀ token < before.pool.size,
    SameToken (before.pool.get token) (after.pool.get token)

theorem SameToken.singleSpace {before after : Token} (h : SameToken before after)
    (hspace : before.piece = .singleSpace) : after.piece = .singleSpace := by
  obtain ⟨hkind, -, hvalue⟩ := h
  simp only [Token.piece, Piece.singleSpace, Piece.mk.injEq] at hspace ⊢
  refine ⟨hkind.trans hspace.1, ?_⟩
  rcases hvalue with hvalue | hvalue
  · exact hvalue.trans hspace.2
  · exact hvalue.2

theorem keepsCode_of_retouching {before after : Draft} (hs : before.Sound)
    (h : Retouching before.pool.size before after) : before.KeepsCode after := by
  induction h with
  | refl =>
      exact ⟨rfl, fun _ hmem hgone => absurd hmem hgone, fun _ hmem hgone => absurd hmem hgone,
        fun token _ => SameToken.refl _⟩
  | @tail middle after steps step ih =>
      have hmiddle : middle.Sound := Retouching.sound steps hs
      have hsize : before.pool.size ≤ middle.pool.size := Retouching.size_le steps
      refine ⟨(step.code_eq hmiddle).trans ih.code_eq, ?_, ?_, ?_⟩
      · -- what is gone went in the last step or before it
        intro token hmem hgone
        by_cases hin : token ∈ middle.stream.tokens
        · have hspace := step.isSpace_of_gone hmiddle hin hgone
          rwa [(ih.sameToken token (lt_of_mem_tokens hs hmem)).1] at hspace
        · exact ih.isSpace_of_gone token hmem hin
      · intro token hmem hnot
        have hlt : token < middle.pool.size := by
          -- the stream holds existing tokens only, and the one that is put in is a single space
          by_contra hge
          have hdefault := Pool.get_of_size_le middle.pool (Nat.le_of_not_lt hge)
          rcases step.mem_of_mem hmiddle hmem with hin | ⟨-, hspace⟩
          · exact hge (lt_of_mem_tokens hmiddle hin)
          · rw [hdefault] at hspace
            exact absurd hspace (by decide)
        have hsame := step.sameToken hlt
        rcases step.mem_of_mem hmiddle hmem with hin | ⟨hnew, hspace⟩
        · obtain ⟨hnew, hspace⟩ := ih.space_of_come token hin hnot
          exact ⟨hnew, hsame.singleSpace hspace⟩
        · exact ⟨hnew, hsame.singleSpace hspace⟩
      · intro token hlt
        exact (ih.sameToken token hlt).trans (step.sameToken (Nat.lt_of_lt_of_le hlt hsize))

end Draft

end ManifestLint
