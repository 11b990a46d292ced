import ManifestLint.Proofs.Stream.Exclusive

set_option autoImplicit false

/-! # Where walks lead

A walk goes from token to token as long as it finds tokens to be skipped. Its steps are followed by
a *trail*, which nothing bounds: that a walk has a trail says that it comes to an end. In a stream
that owns its tokens every walk from one of them has a trail; the positions along it go strictly up
or strictly down, and where it ends is the nearest token that is not to be skipped (`Nearest`). -/

namespace ManifestLint

/-! ## Positions on one side -/

/-- A position lies on one side of another one. -/
def Direction.Reaches : Direction → Nat → Nat → Prop
  | back, i, j => j < i
  | forth, i, j => i < j

/-- The position beside a position, if there can be one. -/
def Direction.beside : Direction → Nat → Option Nat
  | back, 0 => none
  | back, i + 1 => some i
  | forth, i => some (i + 1)

namespace Direction

variable {direction : Direction} {i j k : Nat}

theorem Reaches.trans (h : direction.Reaches i j) (h' : direction.Reaches j k) :
    direction.Reaches i k := by
  cases direction with
  | back => exact Nat.lt_trans h' h
  | forth => exact Nat.lt_trans h h'

theorem Reaches.ne (h : direction.Reaches i j) : i ≠ j := by
  cases direction with
  | back => exact Nat.ne_of_gt h
  | forth => exact Nat.ne_of_lt h

theorem reaches_of_ne (direction : Direction) (h : i ≠ j) :
    direction.Reaches i j ∨ direction.Reaches j i := by
  cases direction with
  | back => exact (Nat.lt_or_gt_of_ne h).symm
  | forth => exact Nat.lt_or_gt_of_ne h

/-- Beyond a position lie the one beside it and what lies beyond that one. -/
theorem reaches_iff_of_beside (h : direction.beside i = some j) :
    direction.Reaches i k ↔ k = j ∨ direction.Reaches j k := by
  cases direction with
  | back =>
      cases i with
      | zero => cases h
      | succ i =>
          obtain rfl : i = j := Option.some.inj h
          show k < i + 1 ↔ k = i ∨ k < i
          omega
  | forth =>
      obtain rfl : i + 1 = j := Option.some.inj h
      show i < k ↔ k = i + 1 ∨ i + 1 < k
      omega

/-- The other way. -/
def turned : Direction → Direction
  | back => forth
  | forth => back

theorem reaches_turned (direction : Direction) (i j : Nat) :
    direction.turned.Reaches i j ↔ direction.Reaches j i := by
  cases direction <;> exact Iff.rfl

theorem not_reaches_of_beside (h : direction.beside i = none) : ¬direction.Reaches i k := by
  cases direction with
  | back =>
      cases i with
      | zero => exact Nat.not_lt_zero k
      | succ i => cases h
  | forth => cases h

end Direction

/-! ## The nearest token -/

/-- What stands nearest to a position on one side, the tokens to be skipped left out; nothing if all
tokens on that side are to be skipped. -/
inductive Nearest (tokens : List TokenId) (skipped : TokenId → Prop) (direction : Direction)
    (i : Nat) : Option TokenId → Prop where
  | found {j : Nat} {u : TokenId} (reaches : direction.Reaches i j) (get : tokens[j]? = some u)
      (kept : ¬skipped u)
      (between : ∀ k v, direction.Reaches i k → direction.Reaches k j → tokens[k]? = some v →
        skipped v) : Nearest tokens skipped direction i (some u)
  | none (all : ∀ k v, direction.Reaches i k → tokens[k]? = some v → skipped v) :
      Nearest tokens skipped direction i none

namespace Nearest

variable {tokens : List TokenId} {skipped : TokenId → Prop} {direction : Direction} {i j : Nat}
  {u : TokenId} {result result' : Option TokenId}

/-- There is one nearest token at most. -/
theorem unique (h : Nearest tokens skipped direction i result)
    (h' : Nearest tokens skipped direction i result') : result = result' := by
  cases h with
  | @found j u hreaches hget hkept hbetween =>
      cases h' with
      | @found j' u' hreaches' hget' hkept' hbetween' =>
          by_cases hj : j = j'
          · subst hj
            exact hget.symm.trans hget'
          · -- the nearer one of the two would have to be skipped
            rcases direction.reaches_of_ne hj with hlt | hlt
            · exact (hkept (hbetween' j u hreaches hlt hget)).elim
            · exact (hkept' (hbetween j' u' hreaches' hlt hget')).elim
      | none hall => exact (hkept (hall j u hreaches hget)).elim
  | none hall =>
      cases h' with
      | @found j' u' hreaches' hget' hkept' hbetween' =>
          exact (hkept' (hall j' u' hreaches' hget')).elim
      | none hall' => rfl

/-- A token that is kept is the nearest one to the position beside it. -/
theorem beside (hbeside : direction.beside i = some j) (hget : tokens[j]? = some u)
    (hkept : ¬skipped u) : Nearest tokens skipped direction i (some u) := by
  refine .found ((Direction.reaches_iff_of_beside hbeside).2 (.inl rfl)) hget hkept
    fun k v hk hk' => ?_
  -- nothing lies between a position and the one beside it
  rcases (Direction.reaches_iff_of_beside hbeside).1 hk with rfl | hbeyond
  · exact absurd rfl hk'.ne
  · exact absurd rfl (hbeyond.trans hk').ne

/-- Going past a token that is to be skipped does not change what is nearest. -/
theorem past (h : Nearest tokens skipped direction j result)
    (hbeside : direction.beside i = some j) (hget : tokens[j]? = some u) (hskip : skipped u) :
    Nearest tokens skipped direction i result := by
  have hpassed : ∀ k v, k = j → tokens[k]? = some v → skipped v := by
    rintro k v rfl hv
    obtain rfl : u = v := Option.some.inj (hget.symm.trans hv)
    exact hskip
  cases h with
  | @found j' u' hreaches hget' hkept hbetween =>
      refine .found ((Direction.reaches_iff_of_beside hbeside).2 (.inr hreaches)) hget' hkept
        fun k v hk hk' hv => ?_
      rcases (Direction.reaches_iff_of_beside hbeside).1 hk with heq | hbeyond
      · exact hpassed k v heq hv
      · exact hbetween k v hbeyond hk' hv
  | none hall =>
      refine .none fun k v hk hv => ?_
      rcases (Direction.reaches_iff_of_beside hbeside).1 hk with heq | hbeyond
      · exact hpassed k v heq hv
      · exact hall k v hbeyond hv

/-- What is nearest to a token that is kept has that token for its nearest one the other way. -/
theorem turned {t : TokenId} (h : Nearest tokens skipped direction i (some u))
    (hget : tokens[i]? = some t) (hkept : ¬skipped t) :
    ∃ j, tokens[j]? = some u ∧ Nearest tokens skipped direction.turned j (some t) := by
  cases h with
  | @found j u hreaches hget' hkept' hbetween =>
      refine ⟨j, hget', .found ((direction.reaches_turned j i).2 hreaches) hget hkept
        fun k v hk hk' hv => ?_⟩
      exact hbetween k v ((direction.reaches_turned k i).1 hk')
        ((direction.reaches_turned j k).1 hk) hv

end Nearest

namespace Edit

/-! ## Trails -/

/-- The run of a walk that has come to `current`: the tokens it looks at from then on, what it finds,
and the draft it leaves. -/
inductive Trail (step : TokenId → Edit (Option TokenId)) (skip : Kind → Bool) :
    Draft → Option TokenId → List TokenId → Option TokenId → Draft → Prop where
  | ended {draft : Draft} : Trail step skip draft none [] none draft
  | found {draft : Draft} {t : TokenId} (kept : skip (draft.pool.get t).kind = false) :
      Trail step skip draft (some t) [t] (some t) draft
  | passed {draft mid after : Draft} {t : TokenId} {next result : Option TokenId}
      {trail : List TokenId} (skipped : skip (draft.pool.get t).kind = true)
      (run : (step t).run draft = .ok next mid) (rest : Trail step skip mid next trail result after) :
      Trail step skip draft (some t) (t :: trail) result after

variable {step : TokenId → Edit (Option TokenId)} {skip : Kind → Bool} {draft after : Draft}
  {t : TokenId} {result : Option TokenId}

/-- Whatever number of steps a walk is given, if it succeeds it has a trail. -/
theorem exists_trail_of_walk {fuel : Nat} {current : Option TokenId}
    (h : (walk step skip fuel current).run draft = .ok result after) :
    ∃ trail, Trail step skip draft current trail result after := by
  induction fuel generalizing draft current with
  | zero =>
      cases current with
      | none =>
          cases h
          exact ⟨[], .ended⟩
      | some t => cases h
  | succ fuel ih =>
      cases current with
      | none =>
          cases h
          exact ⟨[], .ended⟩
      | some t =>
          rw [walk, run_bind_ok (run_token t draft)] at h
          cases hskip : skip (draft.pool.get t).kind with
          | true =>
              rw [if_pos hskip] at h
              obtain ⟨next, mid, hstep, hrest⟩ := exists_of_run_bind_ok h
              obtain ⟨trail, htrail⟩ := ih hrest
              exact ⟨t :: trail, .passed hskip hstep htrail⟩
          | false =>
              rw [if_neg (by simp [hskip])] at h
              cases h
              exact ⟨[t], .found hskip⟩

theorem exists_trail_of_search (h : (search step skip t).run draft = .ok result after) :
    ∃ first mid trail, (step t).run draft = .ok first mid ∧
      Trail step skip mid first trail result after := by
  obtain ⟨first, mid, hstep, h⟩ := exists_of_run_bind_ok h
  rw [Edit.run_bind, Edit.run_get] at h
  obtain ⟨trail, htrail⟩ := exists_trail_of_walk h
  exact ⟨first, mid, trail, hstep, htrail⟩

end Edit

/-! ## Walks in streams that own their tokens -/

section Owned

variable {draft after : Draft} {direction : Direction} {skip : Kind → Bool} {i : Nat} {t : TokenId}
  {current result : Option TokenId} {trail : List TokenId}

/-- **One step** leads to the token beside, if there is one. -/
theorem Draft.Owned.run_step_at (ho : draft.Owned) (hget : draft.stream.tokens[i]? = some t)
    (direction : Direction) : (direction.step t).run draft =
      .ok ((direction.beside i).bind fun j => draft.stream.tokens[j]?) draft.refreshed := by
  have hmem := List.mem_of_getElem? hget
  have hindex := idxOf_of_getElem? (Draft.nodup_tokens ho) hget
  rw [ho.run_step hmem]
  congr 1
  cases direction with
  | back =>
      rw [head?_beyond_back hmem, hindex]
      cases i with
      | zero => rfl
      | succ i => rfl
  | forth =>
      rw [head?_beyond_forth, hindex]
      rfl

/-- Where there is no token beside, there is none beyond. -/
theorem getElem?_eq_none_of_reaches {tokens : List TokenId} {k : Nat} (hlt : i < tokens.length)
    (h : ((direction.beside i).bind fun j => tokens[j]?) = none) (hreaches : direction.Reaches i k) :
    tokens[k]? = none := by
  cases hbeside : direction.beside i with
  | none => exact (Direction.not_reaches_of_beside hbeside hreaches).elim
  | some j =>
      rw [hbeside] at h
      have hle : tokens.length ≤ j := List.getElem?_eq_none_iff.1 h
      rcases (Direction.reaches_iff_of_beside hbeside).1 hreaches with rfl | hbeyond
      · exact h
      · cases direction with
        | back =>
            have hlower : j < i := (Direction.reaches_iff_of_beside hbeside).2 (.inl rfl)
            omega
        | forth =>
            have hupper : j < k := hbeyond
            exact List.getElem?_eq_none (by omega)

/-- **A trail from the token beside a position** goes strictly on, and ends at the nearest token that
is not to be skipped. -/
theorem Edit.Trail.leads (h : Trail direction.step skip draft current trail result after)
    (ho : draft.Owned) (hlt : i < draft.stream.tokens.length)
    (hcurrent : current = (direction.beside i).bind fun j => draft.stream.tokens[j]?) :
    (∃ positions, List.Forall₂ (fun j u => draft.stream.tokens[j]? = some u) positions trail ∧
        (i :: positions).Pairwise direction.Reaches) ∧
      Nearest draft.stream.tokens (fun u => skip (draft.pool.get u).kind = true) direction i
        result := by
  induction h generalizing i with
  | ended =>
      refine ⟨⟨[], .nil, List.pairwise_singleton _ _⟩, .none fun k v hk hv => ?_⟩
      rw [getElem?_eq_none_of_reaches hlt hcurrent.symm hk] at hv
      cases hv
  | @found draft u hkept =>
      obtain ⟨j, hbeside, hget⟩ := Option.bind_eq_some_iff.1 hcurrent.symm
      have hreaches : direction.Reaches i j :=
        (Direction.reaches_iff_of_beside hbeside).2 (.inl rfl)
      refine ⟨⟨[j], .cons hget .nil, by simpa using hreaches⟩,
        .beside hbeside hget (by simp [hkept])⟩
  | @passed draft mid after u next result trail hskip hrun hrest ih =>
      obtain ⟨j, hbeside, hget⟩ := Option.bind_eq_some_iff.1 hcurrent.symm
      have hreaches : direction.Reaches i j :=
        (Direction.reaches_iff_of_beside hbeside).2 (.inl rfl)
      have hj : j < draft.stream.tokens.length := (List.getElem?_eq_some_iff.1 hget).1
      rw [ho.run_step_at hget direction] at hrun
      cases hrun
      have hrefreshed : draft.refreshed.stream.tokens = draft.stream.tokens := by simp
      obtain ⟨⟨positions, hpositions, hmonotone⟩, hnearest⟩ := ih (i := j) ho.refreshed
        (by rw [hrefreshed]; exact hj) (by rw [hrefreshed])
      rw [hrefreshed] at hpositions hnearest
      -- the rest of the trail starts from `j`, which lies beyond `i`
      refine ⟨⟨j :: positions, .cons hget hpositions, ?_⟩, hnearest.past hbeside hget hskip⟩
      refine List.pairwise_cons.2 ⟨fun k hk => ?_, hmonotone⟩
      rcases List.mem_cons.1 hk with rfl | hlater
      · exact hreaches
      · exact hreaches.trans ((List.pairwise_cons.1 hmonotone).1 k hlater)

end Owned

/-! ## The four walks -/

/-- What a walk passes over. -/
inductive Passing where
  | spacing
  | trivia
deriving DecidableEq, Repr

namespace Passing

/-- The kinds that are passed over. -/
def kinds : Passing → List Kind
  | spacing => [.whitespace, .indent, .newline]
  | trivia => [.whitespace, .indent, .newline, .comment]

/-- Decides whether a kind is passed over. -/
def skips : Passing → Kind → Bool
  | spacing => Kind.isSpace
  | trivia => Kind.isTrivia

theorem skips_iff (passing : Passing) (kind : Kind) :
    passing.skips kind = true ↔ kind ∈ passing.kinds := by
  cases passing <;> cases kind <;> decide

end Passing

/-- The walks that a stream offers. -/
def Edit.nearest : Direction → Passing → TokenId → Edit (Option TokenId)
  | .back, .spacing => prevNonSpace
  | .forth, .spacing => nextNonSpace
  | .back, .trivia => prevCode
  | .forth, .trivia => nextCode

theorem Edit.nearest_eq (direction : Direction) (passing : Passing) :
    nearest direction passing = search direction.step passing.skips := by
  cases direction <;> cases passing <;> rfl

namespace Draft

/-- A token is of a kind that is passed over. -/
def IsPassed (draft : Draft) (passing : Passing) (t : TokenId) : Prop :=
  (draft.pool.get t).kind ∈ passing.kinds

instance (draft : Draft) (passing : Passing) : DecidablePred (draft.IsPassed passing) :=
  fun _ => inferInstanceAs (Decidable (_ ∈ _))

/-- Two drafts differ in the cache of positions at most. -/
structure Unmoved (draft after : Draft) : Prop where
  /-- All tokens have the values and the handles that they had. -/
  pool : after.pool = draft.pool
  order : after.stream.order = draft.stream.order
  arena : after.stream.arena = draft.stream.arena
  nextHandle : after.stream.nextHandle = draft.stream.nextHandle

/-- A walk from the token `t` at the position `i` comes to an end, and finds what it should. -/
structure Leads (draft : Draft) (direction : Direction) (passing : Passing) (i : Nat) (t : TokenId)
    (result : Option TokenId) (after : Draft) : Prop where
  run : (Edit.nearest direction passing t).run draft = .ok result after
  /-- The walk has a trail, and the positions of the tokens on it go strictly on. -/
  trail : ∃ first mid trail positions, (direction.step t).run draft = .ok first mid ∧
    Edit.Trail direction.step passing.skips mid first trail result after ∧
    List.Forall₂ (fun j u => draft.stream.tokens[j]? = some u) positions trail ∧
    (i :: positions).Pairwise direction.Reaches
  /-- What is found is the nearest token that is not passed over, if there is one. -/
  nearest : Nearest draft.stream.tokens (draft.IsPassed passing) direction i result

/-- What the walks of a stream come to. -/
structure Walks (draft : Draft) : Prop where
  /-- From a token of the stream every walk leads to the nearest token. -/
  leads : ∀ i t, draft.stream.tokens[i]? = some t → ∀ direction passing,
    ∃ result after, draft.Leads direction passing i t result after
  /-- A token that is not in the stream is refused. -/
  stale : ∀ t, t ∉ draft.stream.tokens → ∀ direction passing,
    (Edit.nearest direction passing t).run draft = .error (.stale t) draft
  /-- Between tokens that are not passed over, walks one way undo walks the other way. -/
  inverse : ∀ passing a b, ¬draft.IsPassed passing a → ¬draft.IsPassed passing b →
    ((∃ after, (Edit.nearest .forth passing a).run draft = .ok (some b) after) ↔
      ∃ after, (Edit.nearest .back passing b).run draft = .ok (some a) after)
  /-- Whatever it is asked for, a walk changes nothing. -/
  unmoved : ∀ t direction passing,
    draft.Unmoved ((Edit.nearest direction passing t).final draft)

variable {draft : Draft} {direction : Direction} {passing : Passing} {a b t : TokenId}

theorem unmoved_nearest (draft : Draft) (direction : Direction) (passing : Passing) (t : TokenId) :
    draft.Unmoved ((Edit.nearest direction passing t).final draft) := by
  have hlooks : (Edit.nearest direction passing t).LooksOnly := by
    rw [Edit.nearest_eq]
    exact .search (Edit.looksOnly_step direction) passing.skips t
  rcases hlooks.readsOnly draft with hsame | hrefreshed
  · rw [hsame]
    exact ⟨rfl, rfl, rfl, rfl⟩
  · rw [hrefreshed]
    exact ⟨rfl, by simp, by simp, by simp⟩

theorem run_nearest_of_notMem (ho : draft.Owned) (h : t ∉ draft.stream.tokens)
    (direction : Direction) (passing : Passing) :
    (Edit.nearest direction passing t).run draft = .error (.stale t) draft := by
  rw [Edit.nearest_eq]
  exact Edit.run_bind_error (Edit.run_step_of_not_live (ho.isLive_of_notMem h) direction)

theorem exists_leads (ho : draft.Owned) {i : Nat} (hget : draft.stream.tokens[i]? = some t)
    (direction : Direction) (passing : Passing) :
    ∃ result after, draft.Leads direction passing i t result after := by
  have hpassed : (fun u => passing.skips (draft.pool.get u).kind = true) = draft.IsPassed passing :=
    funext fun u => propext (passing.skips_iff _)
  obtain ⟨after, hrun⟩ := ho.run_search (List.mem_of_getElem? hget) direction passing.skips
  obtain ⟨first, mid, trail, hstep, htrail⟩ := Edit.exists_trail_of_search hrun
  -- the trail begins beside the token, in the draft whose positions are up to date
  have hstep' := hstep
  rw [ho.run_step_at hget direction] at hstep'
  cases hstep'
  have hrefreshed : draft.refreshed.stream.tokens = draft.stream.tokens := by simp
  have hlt := (List.getElem?_eq_some_iff.1 hget).1
  obtain ⟨⟨positions, hpositions, hmonotone⟩, hnearest⟩ := htrail.leads (i := i) ho.refreshed
    (by rw [hrefreshed]; exact hlt) (by rw [hrefreshed])
  rw [hrefreshed] at hpositions hnearest
  refine ⟨_, after, ?_, ⟨_, _, trail, positions, hstep, htrail, hpositions, hmonotone⟩, ?_⟩
  · rw [Edit.nearest_eq]
    exact hrun
  · rw [← hpassed]
    exact hnearest

/-- A walk finds a token if it is the nearest one. -/
theorem exists_run_nearest_iff (ho : draft.Owned) :
    (∃ after, (Edit.nearest direction passing a).run draft = .ok (some b) after) ↔
      ∃ i, draft.stream.tokens[i]? = some a ∧
        Nearest draft.stream.tokens (draft.IsPassed passing) direction i (some b) := by
  constructor
  · rintro ⟨after, hrun⟩
    by_cases hmem : a ∈ draft.stream.tokens
    · obtain ⟨i, hget⟩ := List.getElem?_of_mem hmem
      obtain ⟨result, after', hleads⟩ := exists_leads ho hget direction passing
      have hrun' := hleads.run
      rw [hrun] at hrun'
      cases hrun'
      exact ⟨i, hget, hleads.nearest⟩
    · rw [run_nearest_of_notMem ho hmem] at hrun
      cases hrun
  · rintro ⟨i, hget, hnearest⟩
    obtain ⟨result, after, hleads⟩ := exists_leads ho hget direction passing
    obtain rfl := hleads.nearest.unique hnearest
    exact ⟨after, hleads.run⟩

/-- A walk between tokens that are not passed over can be undone. -/
theorem exists_run_nearest_turned (ho : draft.Owned) (ha : ¬draft.IsPassed passing a)
    (h : ∃ after, (Edit.nearest direction passing a).run draft = .ok (some b) after) :
    ∃ after, (Edit.nearest direction.turned passing b).run draft = .ok (some a) after := by
  rw [exists_run_nearest_iff ho] at h ⊢
  obtain ⟨i, hget, hnearest⟩ := h
  exact hnearest.turned hget ha

/-- **The walks of a stream** that owns its tokens. -/
theorem Owned.walks (ho : draft.Owned) : draft.Walks where
  leads _ _ hget direction passing := exists_leads ho hget direction passing
  stale _ hmem direction passing := run_nearest_of_notMem ho hmem direction passing
  inverse _ _ _ ha hb := ⟨exists_run_nearest_turned ho ha, exists_run_nearest_turned ho hb⟩
  unmoved t direction passing := draft.unmoved_nearest direction passing t

end Draft

/-- **Walks in the streams of an exclusive history**, however they were edited. -/
theorem Store.walks_after (operations : List Operation) (h : empty.Exclusive operations)
    (n : Nat) : ((empty.after operations).draft n).Walks :=
  ((owned_empty.after h) n).walks

/-- A class word, a comment and a name with spaces between them, to which one space is added and from
which the line end is taken. The class word and the name are next to each other if comments are
passed over; from the line end there is no walk any more. -/
theorem Store.walks_after_edited :
    let operations : List Operation :=
      [.read "a" [⟨.classWord, "class", ⟨1, 1⟩⟩, ⟨.whitespace, " ", ⟨1, 6⟩⟩,
          ⟨.comment, "# c", ⟨1, 7⟩⟩, ⟨.newline, "\n", ⟨1, 10⟩⟩, ⟨.identifier, "x", ⟨2, 1⟩⟩],
        .make (.singleSpace ⟨1, 7⟩), .call 0 (.insertBefore 2 5), .call 0 (.remove 3)]
    let draft := (empty.after operations).draft 0
    empty.Exclusive operations ∧
    draft.stream.tokens = [0, 1, 5, 2, 4] ∧
    (∃ after, (Edit.nextNonSpace 0).run draft = .ok (some 2) after) ∧
    (∃ after, (Edit.nextCode 0).run draft = .ok (some 4) after) ∧
    (∃ after, (Edit.prevCode 4).run draft = .ok (some 0) after) ∧
    (Edit.nextCode 3).run draft = .error (.stale 3) draft := by
  intro operations draft
  have h : empty.Exclusive operations := by decide
  have hwalks : draft.Walks := walks_after operations h 0
  have hcomment : Nearest draft.stream.tokens (draft.IsPassed .spacing) .forth 0 (some 2) :=
    have hbeside : Nearest draft.stream.tokens (draft.IsPassed .spacing) .forth 2 (some 2) :=
      .beside rfl (by decide : draft.stream.tokens[3]? = some 2) (by decide)
    (hbeside.past (i := 1) (u := 5) rfl (by decide) (by decide)).past (u := 1) rfl (by decide)
      (by decide)
  have hname : Nearest draft.stream.tokens (draft.IsPassed .trivia) .forth 0 (some 4) :=
    have hbeside : Nearest draft.stream.tokens (draft.IsPassed .trivia) .forth 3 (some 4) :=
      .beside rfl (by decide : draft.stream.tokens[4]? = some 4) (by decide)
    ((hbeside.past (i := 2) (u := 2) rfl (by decide) (by decide)).past (i := 1) (u := 5) rfl
      (by decide) (by decide)).past (u := 1) rfl (by decide) (by decide)
  have hcode : ∃ after, (Edit.nextCode 0).run draft = .ok (some 4) after := by
    obtain ⟨result, after, hleads⟩ := hwalks.leads 0 0 (by decide) .forth .trivia
    obtain rfl := hleads.nearest.unique hname
    exact ⟨after, hleads.run⟩
  refine ⟨h, by decide, ?_, hcode, ?_, hwalks.stale 3 (by decide) .forth .trivia⟩
  · obtain ⟨result, after, hleads⟩ := hwalks.leads 0 0 (by decide) .forth .spacing
    obtain rfl := hleads.nearest.unique hcomment
    exact ⟨after, hleads.run⟩
  · exact (hwalks.inverse .trivia 0 4 (by decide) (by decide)).1 hcode

end ManifestLint
