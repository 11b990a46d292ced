import ManifestLint.Proofs.Stream.View

set_option autoImplicit false

/-! # Walking along the entries

A step *follows* a list when it leads from each element to the one after it. Going to the next
token follows the entries of the stream, going to the previous one follows them backwards. A walk,
a search and the collecting of spacing are about a step, and so about the list that it follows;
each of them is stated once for both directions. -/

namespace ManifestLint.Edit

/-- `step` leads from each entry of `xs` to the one after it, and `xs` has the entries of the
view. -/
structure Follows (step : TokenId → Edit (Option TokenId)) (view : View) (xs : List Entry) :
    Prop where
  perm : xs.Perm view.entries
  step_reads : ∀ pre entry post, xs = pre ++ entry :: post →
    (step entry.id).Reads view (post.head?.map Entry.id)

theorem follows_next (view : View) : Follows next view view.entries where
  perm := .refl _
  step_reads _ _ _ h := next_reads h

theorem follows_prev (view : View) : Follows prev view view.entries.reverse where
  perm := view.entries.reverse_perm
  step_reads pre entry post h := by
    have hsplit : view.entries = post.reverse ++ entry :: pre.reverse := by
      rw [← view.entries.reverse_reverse, h]
      simp
    have hprev := prev_reads hsplit
    rw [List.getLast?_reverse] at hprev
    exact hprev

namespace Follows

variable {step : TokenId → Edit (Option TokenId)} {view : View} {xs pre gap post : List Entry}
  {entry : Entry}

theorem mem (hf : Follows step view xs) (h : xs = pre ++ entry :: post) :
    entry ∈ view.entries := by
  rw [← hf.perm.mem_iff, h]
  simp

theorem nodup (hf : Follows step view xs) (hnodup : (view.entries.map Entry.id).Nodup) :
    (xs.map Entry.id).Nodup :=
  (hf.perm.map Entry.id).nodup_iff.2 hnodup

/-! ## Walks -/

/-- A walk stops at the first entry that is not to be skipped. -/
theorem walk_reads (hf : Follows step view xs) (skip : Kind → Bool) {fuel : Nat}
    (h : xs = pre ++ post) (hfuel : post.length ≤ fuel) :
    (walk step skip fuel (post.head?.map Entry.id)).Reads view
      ((post.find? fun e => !skip e.kind).map Entry.id) := by
  induction post generalizing pre fuel with
  | nil =>
      unfold walk
      exact Turns.pure none
  | cons entry rest ih =>
      obtain _ | fuel := fuel
      · simp at hfuel
      · unfold walk
        refine Turns.token_bind (hf.mem h) fun token hpiece _ => ?_
        have hkind : token.kind = entry.kind := congrArg Piece.kind hpiece
        rw [hkind, List.find?_cons]
        cases hskip : skip entry.kind with
        | true =>
            have hrest : xs = (pre ++ [entry]) ++ rest := by
              rw [h]
              simp
            exact (hf.step_reads pre entry rest h).bind (ih hrest (Nat.le_of_succ_le_succ hfuel))
        | false => exact Turns.pure _

/-- A search finds the first entry after a step that is not to be skipped. -/
theorem search_reads (hf : Follows step view xs) (skip : Kind → Bool)
    (h : xs = pre ++ entry :: post) :
    (search step skip entry.id).Reads view
      ((post.find? fun e => !skip e.kind).map Entry.id) := by
  unfold search
  refine (hf.step_reads pre entry post h).bind (Turns.get_bind fun draft hsize => ?_)
  have hrest : xs = (pre ++ [entry]) ++ post := by
    rw [h]
    simp
  refine hf.walk_reads skip hrest ?_
  have hlength := hf.perm.length_eq
  rw [h, List.length_append, List.length_cons] at hlength
  omega

/-! ## Collecting spacing -/

/-- The spacing up to the entry where the walk is to stop is collected as it stands. -/
theorem spacesUntil_reads (hf : Follows step view xs)
    (refusal : Option TokenId → Refusal) {fuel : Nat} (h : xs = pre ++ (gap ++ post))
    (hgap : ∀ e ∈ gap, e.isSpace = true) (hfuel : gap.length ≤ fuel) :
    (spacesUntil step refusal (post.head?.map Entry.id) fuel
      ((gap ++ post).head?.map Entry.id)).Reads view (gap.map Entry.id) := by
  induction gap generalizing pre fuel with
  | nil =>
      unfold spacesUntil
      rw [List.nil_append, if_pos rfl]
      exact Turns.pure []
  | cons entry rest ih =>
      refine Turns.of_nodup fun hnodup => ?_
      have hids := hf.nodup hnodup
      rw [List.forall_mem_cons] at hgap
      obtain _ | fuel := fuel
      · simp at hfuel
      · -- the walk is not at its end yet, as no token stands twice
        have hne : ((entry :: rest ++ post).head?.map Entry.id) ≠ post.head?.map Entry.id := by
          intro heq
          cases post with
          | nil => simp at heq
          | cons stop others =>
              rw [h] at hids
              simp only [List.cons_append, List.head?_cons, Option.map_some,
                Option.some.injEq] at heq
              simp [List.nodup_append, List.nodup_cons, heq] at hids
        unfold spacesUntil
        rw [if_neg hne]
        refine Turns.token_bind (hf.mem h) fun token hpiece _ => ?_
        have hspace : token.kind.isSpace = true := by
          rw [show token.kind = entry.kind from congrArg Piece.kind hpiece]
          exact hgap.1
        have hrest : xs = (pre ++ [entry]) ++ (rest ++ post) := by
          rw [h]
          simp
        rw [if_pos hspace]
        refine (hf.step_reads pre entry (rest ++ post) h).bind ?_
        exact (ih hrest hgap.2 (Nat.le_of_succ_le_succ hfuel)).bind (Turns.pure _)

end Follows

/-! ## Taking out -/

variable {view : View} {pre post : List Entry} {entry : Entry}

/-- What stands between two parts of the stream can be taken out in any order. -/
theorem removeAll_turns {ids : List TokenId} {gap : List Entry}
    (h : view.entries = pre ++ (gap ++ post)) (hids : ids.Perm (gap.map Entry.id)) :
    (removeAll ids).Turns view () ⟨pre ++ post, view.size⟩ := by
  induction ids generalizing view gap with
  | nil =>
      have hgap : gap = [] := List.map_eq_nil_iff.1 hids.nil_eq.symm
      rw [hgap, List.nil_append] at h
      rw [← h]
      exact Turns.pure ()
  | cons t rest ih =>
      obtain ⟨entry, hmem, rfl⟩ := List.mem_map.1 (hids.mem_iff.1 List.mem_cons_self)
      obtain ⟨before, after, rfl⟩ := List.append_of_mem hmem
      have hsplit : view.entries = (pre ++ before) ++ entry :: (after ++ post) := by
        rw [h]
        simp
      have hrest : rest.Perm ((before ++ after).map Entry.id) := by
        rw [List.map_append, List.map_cons] at hids
        rw [List.map_append]
        exact (hids.trans List.perm_middle).cons_inv
      have hafter : (View.mk ((pre ++ before) ++ (after ++ post)) view.size).entries =
          pre ++ ((before ++ after) ++ post) := by
        simp
      unfold removeAll
      exact (remove_turns hsplit).bind (ih hafter hrest)

/-! ## Neighbours that are no spacing -/

/-- The nearest token after an entry that is no spacing. -/
theorem nextNonSpace_reads (h : view.entries = pre ++ entry :: post) :
    (nextNonSpace entry.id).Reads view ((post.find? fun e => !e.isSpace).map Entry.id) :=
  (follows_next view).search_reads Kind.isSpace h

/-- The nearest token before an entry that is no spacing. -/
theorem prevNonSpace_reads (h : view.entries = pre ++ entry :: post) :
    (prevNonSpace entry.id).Reads view
      ((pre.reverse.find? fun e => !e.isSpace).map Entry.id) := by
  have hback : view.entries.reverse = post.reverse ++ entry :: pre.reverse := by
    rw [h]
    simp
  exact (follows_prev view).search_reads Kind.isSpace hback

end ManifestLint.Edit
