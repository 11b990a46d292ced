import ManifestLint.Proofs.Stream.Operations
import ManifestLint.Rule.ClassHeader
import ManifestLint.Rule.OpeningBrace

set_option autoImplicit false

/-! # Programs that only read

Looking at a stream leaves it as it was, or brings its cache up to date; nothing else happens to
it or to its tokens. The bundled checks are programs of this sort, whatever stream they are run
on and whether they succeed or fail.

A program that changes a stream and puts it back would read only as well, by what it leaves
(`ReadsOnly`). Those that look only do nothing else at any moment (`LooksOnly`). -/

namespace ManifestLint

/-- To bring the cache up to date a second time changes nothing. -/
theorem Draft.eq_or_refreshed_trans {draft mid after : Draft}
    (hmid : mid = draft ∨ mid = draft.refreshed) (hafter : after = mid ∨ after = mid.refreshed) :
    after = draft ∨ after = draft.refreshed := by
  rcases hmid with rfl | rfl
  · exact hafter
  · rw [refreshed_refreshed, or_self] at hafter
    exact .inr hafter

namespace Edit

/-- A program that only reads leaves a draft as it was, or brings its cache up to date. -/
def ReadsOnly {α : Type} (e : Edit α) : Prop :=
  ∀ draft, e.final draft = draft ∨ e.final draft = draft.refreshed

/-- A program that only looks never stores anything but the draft as it was, or the draft with
its cache brought up to date. -/
def LooksOnly {α : Type} (e : Edit α) : Prop :=
  ∀ draft, ∀ moment ∈ e.moments draft, moment = draft ∨ moment = draft.refreshed

variable {α β : Type}

/-! ## Reading on the whole -/

namespace ReadsOnly

theorem pure (a : α) : ReadsOnly (pure a) := fun _ => .inl rfl

theorem bind {e : Edit α} {f : α → Edit β} (he : ReadsOnly e) (hf : ∀ a, ReadsOnly (f a)) :
    ReadsOnly (e >>= f) := by
  intro draft
  have hfirst := he draft
  cases hrun : e.run draft with
  | error fault after =>
      rw [final_of_error hrun] at hfirst
      rw [final_of_error (run_bind_error hrun)]
      exact hfirst
  | ok a after =>
      rw [final_of_ok hrun] at hfirst
      rw [final_bind_ok hrun]
      exact Draft.eq_or_refreshed_trans hfirst (hf a after)

end ReadsOnly

/-! ## Reading at every moment -/

namespace LooksOnly

/-- What only looks at every moment only reads on the whole. -/
theorem readsOnly {e : Edit α} (he : LooksOnly e) : ReadsOnly e := by
  intro draft
  rcases e.final_eq_or_mem draft with heq | hmem
  · exact .inl heq
  · exact he draft _ hmem

/-! ## Building readers -/

theorem pure (a : α) : LooksOnly (pure a) := fun _ _ hmem => nomatch hmem

theorem throw (fault : Fault) : LooksOnly (α := α) (throw fault) := fun _ _ hmem => nomatch hmem

theorem get : LooksOnly (get : Edit Draft) := fun _ _ hmem => nomatch hmem

theorem token (t : TokenId) : LooksOnly (Edit.token t) := fun _ _ hmem => nomatch hmem

theorem bind {e : Edit α} {f : α → Edit β} (he : LooksOnly e) (hf : ∀ a, LooksOnly (f a)) :
    LooksOnly (e >>= f) := by
  intro draft moment hmem
  rcases mem_moments_bind.1 hmem with hfirst | ⟨a, after, hrun, hsecond⟩
  · exact he draft moment hfirst
  · -- the second program begins with what the first one leaves
    have hafter := he.readsOnly draft
    rw [final_of_ok hrun] at hafter
    exact Draft.eq_or_refreshed_trans hafter (hf a after moment hsecond)

theorem ite {c : Prop} [Decidable c] {e e' : Edit α} (h : LooksOnly e) (h' : LooksOnly e') :
    LooksOnly (if c then e else e') := by
  split
  · exact h
  · exact h'

/-! ## Operations of streams -/

theorem index (t : TokenId) : LooksOnly (Edit.index t) := by
  intro draft moment hmem
  right
  unfold Edit.index at hmem
  simp only [moments_bind, moments_get, run_get, List.nil_append] at hmem
  split at hmem
  · cases hmem
  · split at hmem
    · simp only [moments_bind, moments_set, run_set] at hmem
      rcases List.mem_append.1 hmem with hmem | hmem
      · exact List.mem_singleton.1 hmem
      · -- nothing is stored after the cache
        split at hmem <;> cases hmem
    · cases hmem

theorem tokenAt (position : Nat) : LooksOnly (Edit.tokenAt position) := by
  unfold Edit.tokenAt
  refine get.bind fun draft => ?_
  split
  · exact throw _
  · split
    · exact throw _
    · exact pure _

theorem prev (t : TokenId) : LooksOnly (Edit.prev t) := by
  unfold Edit.prev
  refine (index t).bind fun position => ?_
  split
  · exact pure _
  · exact (tokenAt _).bind fun _ => pure _

theorem next (t : TokenId) : LooksOnly (Edit.next t) := by
  unfold Edit.next
  refine (index t).bind fun position => get.bind fun draft => ?_
  exact ite ((tokenAt _).bind fun _ => pure _) (pure _)

theorem ofKinds (kinds : List Kind) : LooksOnly (Edit.ofKinds kinds) :=
  get.bind fun _ => pure _

theorem isSingleSpace (t : Option TokenId) : LooksOnly (Edit.isSingleSpace t) := by
  cases t with
  | none => exact pure _
  | some t => exact (token t).bind fun _ => pure _

theorem walk {step : TokenId → Edit (Option TokenId)} (hstep : ∀ t, LooksOnly (step t))
    (skip : Kind → Bool) (fuel : Nat) (current : Option TokenId) :
    LooksOnly (Edit.walk step skip fuel current) := by
  induction fuel generalizing current with
  | zero =>
      cases current with
      | none => exact pure _
      | some t => exact throw _
  | succ fuel ih =>
      cases current with
      | none => exact pure _
      | some t =>
          unfold Edit.walk
          exact (token t).bind fun _ => ite ((hstep t).bind fun next => ih next) (pure _)

theorem search {step : TokenId → Edit (Option TokenId)} (hstep : ∀ t, LooksOnly (step t))
    (skip : Kind → Bool) (t : TokenId) : LooksOnly (Edit.search step skip t) :=
  (hstep t).bind fun _ => get.bind fun _ => walk hstep skip _ _

theorem nextNonSpace (t : TokenId) : LooksOnly (Edit.nextNonSpace t) := search next _ t

theorem prevNonSpace (t : TokenId) : LooksOnly (Edit.prevNonSpace t) := search prev _ t

theorem anchor (finding : Finding) : LooksOnly (Edit.anchor finding) := by
  unfold Edit.anchor
  split
  · exact throw _
  · exact pure _

theorem findingAt (check : String) (t : TokenId) (message : String) (severity : Severity) :
    LooksOnly (Edit.findingAt check t message severity) :=
  (token t).bind fun _ => pure _

theorem collect {f : α → Edit (Option β)} (hf : ∀ a, LooksOnly (f a)) (xs : List α) :
    LooksOnly (Edit.collect f xs) := by
  induction xs with
  | nil => exact pure _
  | cons a rest ih =>
      unfold Edit.collect
      refine (hf a).bind fun found => ?_
      cases found with
      | none => exact ih
      | some b => exact ih.bind fun _ => pure _

theorem spacesUntil {step : TokenId → Edit (Option TokenId)} (hstep : ∀ t, LooksOnly (step t))
    (refusal : Option TokenId → Refusal) (stop : Option TokenId) (fuel : Nat)
    (current : Option TokenId) :
    LooksOnly (Edit.spacesUntil step refusal stop fuel current) := by
  induction fuel generalizing current with
  | zero =>
      unfold Edit.spacesUntil
      refine ite (pure _) ?_
      cases current with
      | none => exact throw _
      | some t => exact (token t).bind fun _ => ite (throw _) (throw _)
  | succ fuel ih =>
      unfold Edit.spacesUntil
      refine ite (pure _) ?_
      cases current with
      | none => exact throw _
      | some t =>
          exact (token t).bind fun _ =>
            ite ((hstep t).bind fun next => (ih next).bind fun _ => pure _) (throw _)

end LooksOnly

end Edit

open Edit

/-! ## The bundled checks -/

theorem OpeningBrace.looksOnly_checkBefore : checkBefore.LooksOnly := by
  refine (LooksOnly.ofKinds _).bind fun braces => LooksOnly.collect (fun brace => ?_) braces
  refine (LooksOnly.prev _).bind fun previous => (LooksOnly.prevNonSpace _).bind fun code => ?_
  split
  · refine (LooksOnly.token _).bind fun _ => LooksOnly.ite (LooksOnly.pure _) ?_
    refine (LooksOnly.index _).bind fun i => (LooksOnly.index _).bind fun j => ?_
    refine (LooksOnly.isSingleSpace _).bind fun _ => LooksOnly.ite (LooksOnly.pure _) ?_
    exact (LooksOnly.findingAt _ _ _ _).bind fun _ => LooksOnly.pure _
  · exact LooksOnly.pure _

theorem OpeningBrace.looksOnly_checkAfter : checkAfter.LooksOnly := by
  refine (LooksOnly.ofKinds _).bind fun braces => LooksOnly.collect (fun brace => ?_) braces
  refine (LooksOnly.next _).bind fun following => ?_
  cases following with
  | none => exact LooksOnly.pure _
  | some t =>
      refine (LooksOnly.isSingleSpace _).bind fun _ => LooksOnly.ite (LooksOnly.pure _) ?_
      refine (LooksOnly.token _).bind fun _ => LooksOnly.ite (LooksOnly.pure _) ?_
      refine LooksOnly.ite ((LooksOnly.next _).bind fun second => ?_)
        ((LooksOnly.findingAt _ _ _ _).bind fun _ => LooksOnly.pure _)
      cases second with
      | none => exact LooksOnly.pure _
      | some u =>
          exact (LooksOnly.token _).bind fun _ => LooksOnly.ite
            ((LooksOnly.findingAt _ _ _ _).bind fun _ => LooksOnly.pure _) (LooksOnly.pure _)

namespace ClassHeader

theorem looksOnly_headers : headers.LooksOnly := by
  refine (LooksOnly.ofKinds _).bind fun words => LooksOnly.collect (fun word => ?_) words
  refine (LooksOnly.nextNonSpace _).bind fun name => ?_
  cases name with
  | none => exact LooksOnly.pure _
  | some t =>
      exact (LooksOnly.token _).bind fun _ => LooksOnly.ite (LooksOnly.pure _) (LooksOnly.pure _)

theorem looksOnly_singleSpaced (left right : TokenId) : (singleSpaced left right).LooksOnly := by
  refine (LooksOnly.next _).bind fun _ => ?_
  refine (LooksOnly.index _).bind fun _ => (LooksOnly.index _).bind fun _ => ?_
  exact LooksOnly.ite (LooksOnly.isSingleSpace _) (LooksOnly.pure _)

theorem looksOnly_checkNameBefore : checkNameBefore.LooksOnly := by
  refine looksOnly_headers.bind fun found => LooksOnly.collect (fun header => ?_) found
  refine (looksOnly_singleSpaced _ _).bind fun _ => LooksOnly.ite (LooksOnly.pure _) ?_
  refine (LooksOnly.next _).bind fun following => ?_
  cases following with
  | none => exact LooksOnly.throw _
  | some t => exact (LooksOnly.findingAt _ _ _ _).bind fun _ => LooksOnly.pure _

theorem looksOnly_checkNameAfter : checkNameAfter.LooksOnly := by
  refine looksOnly_headers.bind fun found => LooksOnly.collect (fun header => ?_) found
  refine (LooksOnly.nextNonSpace _).bind fun item => ?_
  cases item with
  | none => exact LooksOnly.pure _
  | some t =>
      exact (looksOnly_singleSpaced _ _).bind fun _ => LooksOnly.ite (LooksOnly.pure _)
        ((LooksOnly.findingAt _ _ _ _).bind fun _ => LooksOnly.pure _)

end ClassHeader

end ManifestLint
