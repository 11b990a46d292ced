import ManifestLint.Proofs.Stream.Change
import ManifestLint.Stream.Store

set_option autoImplicit false

/-! # Histories of streams

What can be done with streams from outside: tokens are made, streams are opened over tokens old
and new, and a stream is called. A *history* is a list of such operations. Nothing is asked of it:
one and the same token may be put into several streams, and each of them overwrites the handle
under which the others know the token. That does not harm a stream: its order, its arena and its
cache are about handles, which the stream gives out itself, so that every operation keeps all
streams well formed (`Store.WellFormed.run`), and so does a history (`Store.WellFormed.after`). -/

namespace ManifestLint

/-! ## Operations -/

/-- The two ways along a stream. -/
inductive Direction where
  | back
  | forth
deriving DecidableEq, Repr

/-- One step along a stream. -/
def Direction.step : Direction → TokenId → Edit (Option TokenId)
  | back => Edit.prev
  | forth => Edit.next

/-- What a stream can be asked for. -/
inductive Call where
  | insert (index : Int) (t : TokenId)
  | insertBefore (anchor t : TokenId)
  | remove (t : TokenId)
  | index (t : TokenId)
  /-- The previous or the next token. -/
  | neighbour (direction : Direction) (t : TokenId)
  /-- The nearest token whose kind is not to be skipped. -/
  | nearest (direction : Direction) (skip : Kind → Bool) (t : TokenId)
  | isLive (t : TokenId)
  | setValue (t : TokenId) (value : String)
  /-- The tokens one after another. -/
  | iterate
  | tokenAt (index : Int)
  | ofKinds (kinds : List Kind)
  | size
  | render

/-- What an operation answers. -/
inductive Answer where
  | done
  | number (n : Nat)
  | token (t : TokenId)
  | optional (t : Option TokenId)
  | verdict (b : Bool)
  | tokens (ts : List TokenId)
  | text (s : String)
deriving DecidableEq, Repr

/-- The tokens from front to back, each looked up under its handle. -/
def Edit.iterate : Edit (List TokenId) := do
  let draft ← get
  match draft.stream.order.mapM draft.stream.arena.get? with
  | none => throw .missingHandle
  | some tokens => return tokens

/-- A program whose result is wrapped up as an answer. -/
def Edit.answering {α : Type} (wrap : α → Answer) (e : Edit α) : Edit Answer := do
  return wrap (← e)

/-- The program that a call runs. -/
def Call.edit : Call → Edit Answer
  | insert place t => (Edit.insert place t).answering .token
  | insertBefore anchor t => (Edit.insertBefore anchor t).answering .token
  | remove t => (Edit.remove t).answering .number
  | index t => (Edit.index t).answering .number
  | neighbour direction t => (direction.step t).answering .optional
  | nearest direction skip t => (Edit.search direction.step skip t).answering .optional
  | isLive t => get >>= fun draft => pure (.verdict (draft.isLive t))
  | setValue t value => (Edit.setValue t value).answering fun _ => .done
  | iterate => Edit.iterate.answering .tokens
  | tokenAt place => (Edit.tokenAtIndex place).answering .token
  | ofKinds kinds => (Edit.ofKinds kinds).answering .tokens
  | size => get >>= fun draft => pure (.number draft.stream.size)
  | render => get >>= fun draft => pure (.text draft.render)

/-- What can be done with the streams of a store. -/
inductive Operation where
  /-- Makes a token that belongs to no stream. -/
  | make (token : Token)
  /-- Opens a stream with tokens that were made before. -/
  | fill (name : String) (tokens : List TokenId)
  /-- Opens a stream with new tokens, one for each lexeme of a source. -/
  | read (name : String) (lexemes : List Lexeme)
  /-- Calls a stream. -/
  | call (stream : Nat) (call : Call)

/-- Carries an operation out. -/
def Operation.run (store : Store) : Operation → Except Fault Answer × Store
  | make token => (.ok (.token (store.create token).1), (store.create token).2)
  | fill name tokens =>
    let (result, after) := store.openStream name (Edit.appendAll tokens)
    (result.map .number, after)
  | read name lexemes => (.ok (.number store.streams.size), store.openLexemes name lexemes)
  | call n asked => store.run n asked.edit

namespace Store

/-- The store that a history leaves. -/
def after (store : Store) : List Operation → Store
  | [] => store
  | operation :: rest => after (operation.run store).2 rest

/-- The answers that a history gets. -/
def answers (store : Store) : List Operation → List (Except Fault Answer)
  | [] => []
  | operation :: rest => (operation.run store).1 :: answers (operation.run store).2 rest

theorem after_append (store : Store) (first second : List Operation) :
    store.after (first ++ second) = (store.after first).after second := by
  induction first generalizing store with
  | nil => rfl
  | cons operation rest ih => exact ih (operation.run store).2

end Store

/-! ## What a call keeps -/

namespace Edit

variable {α β : Type}

theorem run_answering_ok {e : Edit α} {draft after : Draft} {a : α}
    (h : e.run draft = .ok a after) (wrap : α → Answer) :
    (e.answering wrap).run draft = .ok (wrap a) after := run_bind_ok h

theorem run_answering_error {e : Edit α} {draft after : Draft} {fault : Fault}
    (h : e.run draft = .error fault after) (wrap : α → Answer) :
    (e.answering wrap).run draft = .error fault after := run_bind_error h

theorem Makes.answering {e : Edit α} {puts : TokenId → Prop} (he : e.Makes puts)
    (wrap : α → Answer) : (e.answering wrap).Makes puts :=
  he.bind fun a => (ReadsOnly.pure (wrap a)).makes

theorem looksOnly_iterate : iterate.LooksOnly := by
  refine LooksOnly.get.bind fun draft => ?_
  split
  · exact LooksOnly.throw _
  · exact LooksOnly.pure _

theorem looksOnly_tokenAtIndex (index : Int) : (tokenAtIndex index).LooksOnly :=
  LooksOnly.get.bind fun _ => LooksOnly.ite (LooksOnly.tokenAt _) (LooksOnly.throw _)

theorem looksOnly_step (direction : Direction) (t : TokenId) : (direction.step t).LooksOnly := by
  cases direction with
  | back => exact LooksOnly.prev t
  | forth => exact LooksOnly.next t

end Edit

/-- A call that changes nothing but the cache of a stream. -/
def Call.Looks : Call → Prop
  | insert _ _ | insertBefore _ _ | remove _ | setValue _ _ => False
  | _ => True

/-- The token that a call is to put into its stream. -/
def Call.put? : Call → Option TokenId
  | insert _ t | insertBefore _ t => some t
  | _ => none

theorem Call.readsOnly {call : Call} (h : call.Looks) : call.edit.ReadsOnly := by
  refine Edit.LooksOnly.readsOnly ?_
  have hanswer : ∀ {α : Type} {e : Edit α} {wrap : α → Answer}, e.LooksOnly →
      (e.answering wrap).LooksOnly := fun he => he.bind fun _ => .pure _
  cases call with
  | insert place t => exact h.elim
  | insertBefore anchor t => exact h.elim
  | remove t => exact h.elim
  | setValue t value => exact h.elim
  | index t => exact hanswer (.index t)
  | neighbour direction t => exact hanswer (Edit.looksOnly_step direction t)
  | nearest direction skip t => exact hanswer (.search (Edit.looksOnly_step direction) skip t)
  | isLive t => exact .bind .get fun _ => .pure _
  | iterate => exact hanswer Edit.looksOnly_iterate
  | tokenAt place => exact hanswer (Edit.looksOnly_tokenAtIndex place)
  | ofKinds kinds => exact hanswer (.ofKinds kinds)
  | size => exact .bind .get fun _ => .pure _
  | render => exact .bind .get fun _ => .pure _

/-- **A call makes nothing but changes**, whether it succeeds or fails. -/
theorem Call.makes (call : Call) : call.edit.Makes (· ∈ call.put?) := by
  by_cases hlooks : call.Looks
  · exact (readsOnly hlooks).makes
  · cases call with
    | insert place t =>
        have hputs : t ∈ (insert place t).put? := rfl
        exact (Edit.makes_insert hputs place).answering _
    | insertBefore anchor t =>
        have hputs : t ∈ (insertBefore anchor t).put? := rfl
        exact (Edit.makes_insertBefore hputs anchor).answering _
    | remove t => exact (Edit.makes_remove t).answering _
    | setValue t value => exact (Edit.makes_setValue t value).answering _
    | _ => exact (hlooks trivial).elim

/-! ## Stores -/

namespace Store

/-- All streams of the store are well formed. -/
def WellFormed (store : Store) : Prop := ∀ stream ∈ store.streams, stream.WellFormed

theorem run_eq {α : Type} (store : Store) (n : Nat) (e : Edit α) :
    (store.run n e).2 = store.putDraft n (e.final (store.draft n)) := by
  unfold run Edit.final
  cases e.run (store.draft n) with
  | ok value draft => rfl
  | error fault draft => rfl

theorem run_fill_ok {store : Store} {name : String} {tokens : List TokenId} {draft : Draft}
    (h : (Edit.appendAll tokens).run ⟨store.pool, .empty name⟩ = .ok () draft) :
    Operation.run store (.fill name tokens) =
      (.ok (.number store.streams.size), ⟨draft.pool, store.streams.push draft.stream⟩) := by
  simp only [Operation.run, openStream, h]
  rfl

theorem run_fill_error {store : Store} {name : String} {tokens : List TokenId} {draft : Draft}
    {fault : Fault}
    (h : (Edit.appendAll tokens).run ⟨store.pool, .empty name⟩ = .error fault draft) :
    Operation.run store (.fill name tokens) = (.error fault, ⟨draft.pool, store.streams⟩) := by
  simp only [Operation.run, openStream, h]
  rfl

/-- The draft of a new stream when tokens were put into it, as far as that went. -/
def filled (store : Store) (name : String) (tokens : List TokenId) : Draft :=
  (Edit.appendAll tokens).final ⟨store.pool, .empty name⟩

/-- The new stream is opened or given up; what was done to the tokens stays done. -/
theorem run_fill (store : Store) (name : String) (tokens : List TokenId) :
    (Operation.run store (.fill name tokens)).2 =
        ⟨(store.filled name tokens).pool,
          store.streams.push (store.filled name tokens).stream⟩ ∨
      (Operation.run store (.fill name tokens)).2 =
        ⟨(store.filled name tokens).pool, store.streams⟩ := by
  unfold filled
  cases hfill : (Edit.appendAll tokens).run ⟨store.pool, .empty name⟩ with
  | ok value draft =>
      rw [run_fill_ok hfill, Edit.final_of_ok hfill]
      exact .inl rfl
  | error fault draft =>
      rw [run_fill_error hfill, Edit.final_of_error hfill]
      exact .inr rfl

theorem changing_filled (store : Store) (name : String) (tokens : List TokenId) :
    Draft.Changing (· ∈ tokens) ⟨store.pool, .empty name⟩ (store.filled name tokens) :=
  Edit.makes_appendAll (fun _ hmem => hmem) _ (Stream.wellFormed_empty name)

namespace WellFormed

variable {store : Store}

theorem draft (hs : store.WellFormed) (n : Nat) : (store.draft n).stream.WellFormed := by
  by_cases hlt : n < store.streams.size
  · have hget : store.streams.getD n default = store.streams[n] := by
      simp [Array.getD_eq_getD_getElem?, hlt]
    show (store.streams.getD n default).WellFormed
    rw [hget]
    exact hs _ (Array.getElem_mem hlt)
  · have hget : store.streams.getD n default = default := by
      simp [Array.getD_eq_getD_getElem?, hlt]
    show (store.streams.getD n default).WellFormed
    rw [hget]
    exact Stream.wellFormed_empty ""

theorem putDraft (hs : store.WellFormed) (n : Nat) {draft : Draft}
    (hdraft : draft.stream.WellFormed) : (store.putDraft n draft).WellFormed := by
  intro stream hmem
  rcases Array.mem_or_eq_of_mem_setIfInBounds hmem with hold | rfl
  · exact hs stream hold
  · exact hdraft

theorem push (hs : store.WellFormed) {draft : Draft} (hdraft : draft.stream.WellFormed) :
    (Store.mk draft.pool (store.streams.push draft.stream)).WellFormed := by
  intro stream hmem
  rcases Array.mem_push.1 hmem with hold | rfl
  · exact hs stream hold
  · exact hdraft

/-- **One operation** keeps all streams well formed, whether it succeeds or fails. -/
theorem run (hs : store.WellFormed) (operation : Operation) :
    (operation.run store).2.WellFormed := by
  cases operation with
  | make token => exact hs
  | fill name tokens =>
      have hform := (store.changing_filled name tokens).wellFormed (Stream.wellFormed_empty name)
      rcases store.run_fill name tokens with hrun | hrun
      · rw [hrun]
        exact hs.push hform
      · rw [hrun]
        exact hs
  | read name lexemes =>
      have howned := (Draft.owned_empty store.pool name).appendAll lexemes
      exact hs.push howned.1.wellFormed
  | call n asked =>
      show (store.run n asked.edit).2.WellFormed
      rw [run_eq]
      exact hs.putDraft n ((asked.makes _ (hs.draft n)).wellFormed (hs.draft n))

/-- A history keeps all streams well formed. -/
theorem after (hs : store.WellFormed) (operations : List Operation) :
    (store.after operations).WellFormed := by
  induction operations generalizing store with
  | nil => exact hs
  | cons operation rest ih => exact ih (hs.run operation)

end WellFormed

theorem wellFormed_empty : empty.WellFormed := by
  intro stream hmem
  simp [empty] at hmem

end Store

end ManifestLint
