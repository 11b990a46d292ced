import ManifestLint.Proofs.Stream.ReadsOnly
import ManifestLint.Proofs.Stream.Retouch

set_option autoImplicit false

/-! # Repairs are retouches

Each of the four bundled repairs is made of elementary changes of the spacing, on every sound
draft and for every finding: the anchor may be any token, one of another stream or none at all,
and the repair may fail at any point. -/

namespace ManifestLint

open Draft (Retouching)

namespace Edit

/-! ## Programs made of elementary changes -/

/-- From `draft` on, a program goes through drafts that elementary changes lead to, and if it
succeeds then its value and the draft that it leaves satisfy `Q`. -/
structure Retouches {α : Type} (old : Nat) (e : Edit α) (draft : Draft)
    (Q : α → Draft → Prop) : Prop where
  steps : ∀ moment ∈ e.moments draft, Retouching old draft moment
  value : ∀ a after, e.run draft = .ok a after → Q a after

namespace Retouches

variable {α β : Type} {old : Nat} {draft : Draft}

/-- What the program leaves is its last moment, or what was there. -/
theorem final {e : Edit α} {Q : α → Draft → Prop} (he : Retouches old e draft Q) :
    Retouching old draft (e.final draft) := by
  rcases e.final_eq_or_mem draft with heq | hmem
  · rw [heq]
    exact .refl draft
  · exact he.steps _ hmem

theorem pure {a : α} {Q : α → Draft → Prop} (h : Q a draft) :
    Retouches old (pure a) draft Q := by
  refine ⟨fun _ hmem => absurd hmem List.not_mem_nil, ?_⟩
  rintro _ _ ⟨⟩
  exact h

theorem throw {fault : Fault} {Q : α → Draft → Prop} :
    Retouches old (throw fault) draft Q :=
  ⟨fun _ hmem => absurd hmem List.not_mem_nil, fun _ _ hrun => nomatch hrun⟩

theorem bind {e : Edit α} {f : α → Edit β} {Q : α → Draft → Prop} {Q' : β → Draft → Prop}
    (he : Retouches old e draft Q)
    (hf : ∀ a after, Retouching old draft after → Q a after → Retouches old (f a) after Q') :
    Retouches old (e >>= f) draft Q' := by
  have hnext : ∀ a after, e.run draft = .ok a after →
      Retouching old draft after ∧ Retouches old (f a) after Q' := by
    intro a after hrun
    have hsteps := he.final
    rw [final_of_ok hrun] at hsteps
    exact ⟨hsteps, hf a after hsteps (he.value a after hrun)⟩
  refine ⟨fun moment hmem => ?_, fun b after' hrun' => ?_⟩
  · rcases mem_moments_bind.1 hmem with hfirst | ⟨a, after, hrun, hsecond⟩
    · exact he.steps moment hfirst
    · -- what leads to the draft in between leads on to the moments after it
      obtain ⟨hmid, hrest⟩ := hnext a after hrun
      exact hmid.trans (hrest.steps moment hsecond)
  · obtain ⟨a, after, hrun, hsecond⟩ := exists_of_run_bind_ok hrun'
    exact (hnext a after hrun).2.value b after' hsecond

/-- A program that only looks leaves the tokens as they are. -/
theorem of_looksOnly {e : Edit α} (he : e.LooksOnly) :
    Retouches old e draft (fun _ after => after.pool = draft.pool) := by
  refine ⟨fun moment hmem => ?_, fun a after hrun => ?_⟩
  · rcases he draft moment hmem with rfl | rfl
    · exact .refl _
    · exact .single (.refresh draft)
  · have hfinal := he.readsOnly draft
    rw [final_of_ok hrun] at hfinal
    rcases hfinal with rfl | rfl
    · rfl
    · rfl

theorem get : Retouches old get draft fun now after => now = draft ∧ after = draft := by
  refine ⟨fun _ hmem => absurd hmem List.not_mem_nil, ?_⟩
  rintro _ _ ⟨⟩
  exact ⟨rfl, rfl⟩

theorem set {stored : Draft} (h : Retouching old draft stored) :
    Retouches old (set stored) draft fun _ after => after = stored := by
  refine ⟨fun moment hmem => ?_, ?_⟩
  · rw [moments_set, List.mem_singleton] at hmem
    rw [hmem]
    exact h
  · rintro _ _ ⟨⟩
    rfl

theorem token (t : TokenId) :
    Retouches old (Edit.token t) draft fun token after =>
      after = draft ∧ token = draft.pool.get t := by
  refine ⟨fun _ hmem => absurd hmem List.not_mem_nil, ?_⟩
  rintro _ _ ⟨⟩
  exact ⟨rfl, rfl⟩

end Retouches

/-! ## Collecting and removing spaces -/

/-- What is collected as spacing is spacing. -/
theorem spacesUntil_retouches {old : Nat} {draft : Draft}
    {step : TokenId → Edit (Option TokenId)} (hstep : ∀ t, LooksOnly (step t))
    (refusal : Option TokenId → Refusal) (stop : Option TokenId) (fuel : Nat)
    (current : Option TokenId) :
    Retouches old (spacesUntil step refusal stop fuel current) draft fun spaces after =>
      after.pool = draft.pool ∧ ∀ t ∈ spaces, (draft.pool.get t).kind.isSpace = true := by
  induction fuel generalizing current draft with
  | zero =>
      unfold spacesUntil
      split
      · exact .pure ⟨rfl, by simp⟩
      · cases current with
        | none => exact .throw
        | some t =>
            refine (Retouches.of_looksOnly (.token t)).bind fun _ _ _ _ => ?_
            split <;> exact .throw
  | succ fuel ih =>
      unfold spacesUntil
      split
      · exact .pure ⟨rfl, by simp⟩
      · cases current with
        | none => exact .throw
        | some t =>
            refine (Retouches.token t).bind ?_
            rintro token after - ⟨rfl, rfl⟩
            split
            · rename_i hspace
              refine (Retouches.of_looksOnly (hstep t)).bind fun next after' _ hpool => ?_
              refine ih next |>.bind fun spaces after'' _ hspaces => .pure ?_
              rw [hpool] at hspaces
              exact ⟨hspaces.1, List.forall_mem_cons.2 ⟨hspace, hspaces.2⟩⟩
            · exact .throw

/-- Looking a position up refreshes the stream at most, and what is found is the position of the
handle of the token. -/
theorem index_retouches {old : Nat} {draft : Draft} (hs : draft.Sound) (t : TokenId) :
    Retouches old (index t) draft fun position after => after = draft.refreshed ∧
      ∃ handle, (draft.pool.get t).handle = some handle ∧
        draft.stream.arena.get? handle = some t ∧
        draft.stream.order[position]? = some handle := by
  refine ⟨(Retouches.of_looksOnly (.index t)).steps, fun found after hok => ?_⟩
  cases hlive : draft.isLive t with
  | false =>
      rw [run_index_of_not_live hlive] at hok
      cases hok
  | true =>
      obtain ⟨position, handle, hhandle, harena, hget, hrun⟩ :=
        run_index_of_live hs.wellFormed hlive
      rw [hrun] at hok
      cases hok
      exact ⟨rfl, handle, hhandle, harena, hget⟩

theorem remove_retouches {old : Nat} {draft : Draft} (hs : draft.Sound) {t : TokenId}
    (hspace : (draft.pool.get t).kind.isSpace = true) :
    Retouches old (remove t) draft fun _ after => after.pool = draft.pool := by
  unfold remove
  refine (index_retouches hs t).bind ?_
  rintro position _ - ⟨rfl, handle, hhandle, harena, hget⟩
  refine Retouches.get.bind ?_
  rintro now _ - ⟨rfl, rfl⟩
  simp only [Draft.refreshed_pool, hhandle]
  refine (Retouches.set (.single ?_)).bind ?_
  · exact .remove draft.refreshed (by simpa using hget) (by simpa using harena) hspace
  · rintro _ _ - rfl
    exact .pure rfl

theorem removeAll_retouches {old : Nat} {draft : Draft} (hs : draft.Sound)
    {spaces : List TokenId} (hspaces : ∀ t ∈ spaces, (draft.pool.get t).kind.isSpace = true) :
    Retouches old (removeAll spaces) draft fun _ _ => True := by
  induction spaces generalizing draft with
  | nil => exact .pure trivial
  | cons t rest ih =>
      rw [List.forall_mem_cons] at hspaces
      refine (remove_retouches hs hspaces.1).bind fun _ after hsteps hpool => ?_
      refine ih (hsteps.sound hs) ?_
      rw [hpool]
      exact hspaces.2

/-! ## Putting a space in -/

/-- A new space has the next free number. -/
theorem create_retouches {old : Nat} {draft : Draft} (position : Position) :
    Retouches old (create (.singleSpace position)) draft fun space after =>
      space = draft.pool.size ∧ after = ⟨draft.pool.add (.singleSpace position), draft.stream⟩ := by
  unfold create
  refine Retouches.get.bind ?_
  rintro now _ - ⟨rfl, rfl⟩
  refine (Retouches.set (.single (.create _ position))).bind ?_
  rintro _ _ - rfl
  exact .pure ⟨rfl, rfl⟩

/-- A new single space that is in no stream can be put in. -/
theorem insert_retouches {old : Nat} {draft : Draft} {t : TokenId} {position : Nat}
    (hlive : draft.isLive t = false) (hposition : position ≤ draft.stream.size) (hnew : old ≤ t)
    (hlt : t < draft.pool.size) (hspace : (draft.pool.get t).piece = .singleSpace) :
    Retouches old (insert position t) draft fun _ _ => True := by
  unfold insert
  refine Retouches.get.bind ?_
  rintro now _ - ⟨rfl, rfl⟩
  rw [if_neg (by simp [hlive]), if_pos ⟨Int.natCast_nonneg _, Int.ofNat_le.2 hposition⟩]
  refine (Retouches.set (.single ?_)).bind fun _ _ _ _ => .pure trivial
  exact .insert _ hposition hnew hlt hspace

theorem insertSpaceBefore_retouches {old : Nat} {draft : Draft} (hs : draft.Sound)
    (hold : old ≤ draft.pool.size) (anchor : TokenId) :
    Retouches old (insertSpaceBefore anchor) draft fun _ _ => True := by
  unfold insertSpaceBefore
  refine (Retouches.token anchor).bind ?_
  rintro token after - ⟨rfl, -⟩
  -- the draft with the new space, which is in no stream yet
  refine (create_retouches token.position).bind ?_
  rintro space made - ⟨rfl, hmade⟩
  have hsound : made.Sound := hmade ▸ hs.add (.singleSpace token.position)
  refine Retouches.bind (Q := fun _ _ => True) ?_ fun _ _ _ _ => .pure trivial
  unfold insertBefore
  refine (index_retouches hsound anchor).bind ?_
  rintro position _ - ⟨rfl, handle, -, -, hget⟩
  have hposition : position ≤ made.refreshed.stream.size := by
    rw [Draft.refreshed_stream, Stream.refresh_size]
    exact Nat.le_of_lt (List.getElem?_eq_some_iff.1 hget).1
  refine insert_retouches ?_ hposition hold ?_ ?_
  · simp [hmade, Draft.isLive, Draft.refreshed, Pool.get_add, Token.singleSpace, Stream.holds]
  · rw [Draft.refreshed_pool, hmade, Pool.size_add]
    exact Nat.lt_succ_self _
  · rw [Draft.refreshed_pool, hmade, Pool.get_add, if_pos rfl]
    rfl

end Edit

open Edit

/-! ## The four repairs -/

namespace OpeningBrace

theorem fixBefore_retouches {old : Nat} {draft : Draft} (hs : draft.Sound)
    (hold : old ≤ draft.pool.size) (finding : Finding) :
    (fixBefore finding).Retouches old draft fun _ _ => True := by
  unfold fixBefore
  refine (Retouches.of_looksOnly (.anchor finding)).bind fun brace d₁ h₁ _ => ?_
  refine (Retouches.of_looksOnly (.prev brace)).bind fun previous d₂ h₂ _ => ?_
  refine (Retouches.of_looksOnly (.prevNonSpace brace)).bind fun code d₃ h₃ _ => ?_
  refine (Retouches.of_looksOnly .get).bind fun now d₄ h₄ _ => ?_
  have h₀₄ := ((h₁.trans h₂).trans h₃).trans h₄
  refine (spacesUntil_retouches LooksOnly.prev _ _ _ _).bind fun spaces d₅ h₅ hspaces => ?_
  have hs₅ := (h₀₄.trans h₅).sound hs
  -- what was collected as spacing still is, as collecting only looks
  refine (removeAll_retouches hs₅ (hspaces.1 ▸ hspaces.2)).bind fun _ d₆ h₆ _ => ?_
  have h₀₆ := (h₀₄.trans h₅).trans h₆
  exact insertSpaceBefore_retouches (h₀₆.sound hs) (Nat.le_trans hold h₀₆.size_le) brace

theorem setSpace_retouches {old : Nat} {draft : Draft} {t : TokenId}
    (hkind : (draft.pool.get t).kind = .whitespace) :
    Retouches old (setValue t " ") draft fun _ _ => True := by
  unfold setValue
  refine Retouches.get.bind ?_
  rintro now _ - ⟨rfl, rfl⟩
  exact ⟨(Retouches.set (.single (.setSpace _ hkind))).steps, fun _ _ _ => trivial⟩

theorem removeNewlines_retouches {old : Nat} {draft : Draft} (hs : draft.Sound) (fuel : Nat)
    (current : Option TokenId) :
    (removeNewlines fuel current).Retouches old draft fun _ _ => True := by
  induction fuel generalizing draft current with
  | zero =>
      cases current with
      | none => exact .pure trivial
      | some t =>
          unfold removeNewlines
          refine (Retouches.of_looksOnly (.token t)).bind fun _ _ _ _ => ?_
          split
          · exact .throw
          · exact .pure trivial
  | succ fuel ih =>
      cases current with
      | none => exact .pure trivial
      | some t =>
          unfold removeNewlines
          refine (Retouches.token t).bind ?_
          rintro token after - ⟨rfl, rfl⟩
          split
          · rename_i hkind
            refine (Retouches.of_looksOnly (.next t)).bind fun following d₁ h₁ hpool => ?_
            have hspace : (d₁.pool.get t).kind.isSpace = true := by
              rw [hpool, hkind]
              rfl
            refine (remove_retouches (h₁.sound hs) hspace).bind fun _ d₂ h₂ _ => ?_
            exact ih ((h₁.trans h₂).sound hs) following
          · exact .pure trivial

theorem fixAfter_retouches {old : Nat} {draft : Draft} (hs : draft.Sound)
    (hold : old ≤ draft.pool.size) (finding : Finding) :
    (fixAfter finding).Retouches old draft fun _ _ => True := by
  unfold fixAfter
  refine (Retouches.of_looksOnly (.anchor finding)).bind fun t d₁ h₁ _ => ?_
  refine (Retouches.token t).bind ?_
  rintro token after - ⟨rfl, rfl⟩
  split
  · rename_i hkind
    exact setSpace_retouches hkind
  · refine (Retouches.of_looksOnly .get).bind fun now d₂ h₂ _ => ?_
    exact removeNewlines_retouches ((h₁.trans h₂).sound hs) _ _
  · exact insertSpaceBefore_retouches (h₁.sound hs) (Nat.le_trans hold h₁.size_le) t

end OpeningBrace

namespace ClassHeader

theorem collapseBetween_retouches {old : Nat} {draft : Draft} (hs : draft.Sound)
    (hold : old ≤ draft.pool.size) (left : TokenId) (right : Option TokenId) :
    (collapseBetween left right).Retouches old draft fun _ _ => True := by
  unfold collapseBetween
  refine (Retouches.of_looksOnly .get).bind fun now d₁ h₁ _ => ?_
  refine (Retouches.of_looksOnly (.next left)).bind fun following d₂ h₂ _ => ?_
  have h₀₂ := h₁.trans h₂
  refine (spacesUntil_retouches LooksOnly.next _ _ _ _).bind fun spaces d₃ h₃ hspaces => ?_
  have hs₃ := (h₀₂.trans h₃).sound hs
  refine (removeAll_retouches hs₃ (hspaces.1 ▸ hspaces.2)).bind fun _ d₄ h₄ _ => ?_
  have h₀₄ := (h₀₂.trans h₃).trans h₄
  cases right with
  | none => exact .throw
  | some r => exact insertSpaceBefore_retouches (h₀₄.sound hs) (Nat.le_trans hold h₀₄.size_le) r

theorem fixNameBefore_retouches {old : Nat} {draft : Draft} (hs : draft.Sound)
    (hold : old ≤ draft.pool.size) (finding : Finding) :
    (fixNameBefore finding).Retouches old draft fun _ _ => True := by
  unfold fixNameBefore
  refine (Retouches.of_looksOnly (.anchor finding)).bind fun t d₁ h₁ _ => ?_
  refine (Retouches.of_looksOnly (.prev t)).bind fun previous d₂ h₂ _ => ?_
  cases previous with
  | none => exact .throw
  | some keyword =>
      refine (Retouches.of_looksOnly (.token keyword)).bind fun _ d₃ h₃ _ => ?_
      split
      · refine (Retouches.of_looksOnly (.nextNonSpace keyword)).bind fun name d₄ h₄ _ => ?_
        have h₀₄ := ((h₁.trans h₂).trans h₃).trans h₄
        exact collapseBetween_retouches (h₀₄.sound hs) (Nat.le_trans hold h₀₄.size_le) _ _
      · exact .throw

theorem fixNameAfter_retouches {old : Nat} {draft : Draft} (hs : draft.Sound)
    (hold : old ≤ draft.pool.size) (finding : Finding) :
    (fixNameAfter finding).Retouches old draft fun _ _ => True := by
  unfold fixNameAfter
  refine (Retouches.of_looksOnly (.anchor finding)).bind fun name d₁ h₁ _ => ?_
  refine (Retouches.of_looksOnly (.nextNonSpace name)).bind fun item d₂ h₂ _ => ?_
  cases item with
  | none => exact .throw
  | some t =>
      have h₀₂ := h₁.trans h₂
      exact collapseBetween_retouches (h₀₂.sound hs) (Nat.le_trans hold h₀₂.size_le) _ _

end ClassHeader

end ManifestLint
