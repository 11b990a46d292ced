import ManifestLint.Stream.Basic
import ManifestLint.Stream.Fault

set_option autoImplicit false

/-! # Editing a stream

A *draft* is a stream together with the pool its tokens live in. An edit is a program that works
on a draft; when it fails, what it did before it failed stays done, which is why the state is
kept beside the fault.

An edit is more than what it comes to. Each change that it makes stores a draft, and these drafts
are the *moments* of the edit: two programs with the same result are different edits if they go
through different drafts. -/

namespace ManifestLint

/-- A stream and the pool of its tokens. -/
structure Draft where
  pool : Pool
  stream : Stream
deriving Repr, Inhabited

/-- The draft that a program leaves, with a value or with a fault. -/
def Draft.left {α : Type} : EStateM.Result Fault Draft α → Draft
  | .ok _ after => after
  | .error _ after => after

/-- A program on a draft that can fail. -/
structure Edit (α : Type) where
  /-- What the program comes to. -/
  run : Draft → EStateM.Result Fault Draft α
  /-- The drafts that the program stores, one after another. -/
  moments : Draft → List Draft
  /-- The draft that was stored last is the one that is left. -/
  last : ∀ draft, (moments draft).getLastD draft = Draft.left (run draft)

theorem getLastD_append {α : Type} (xs ys : List α) (a : α) :
    (xs ++ ys).getLastD a = ys.getLastD (xs.getLastD a) := by
  cases ys with
  | nil => rw [List.append_nil]; rfl
  | cons y rest => simp [List.getLastD_eq_getLast?, List.getLast?_append]

/-- Programs one after another: the second one starts from the draft that the first one leaves. -/
instance : Monad Edit where
  pure a := ⟨fun draft => .ok a draft, fun _ => [], fun _ => rfl⟩
  bind e f :=
    { run draft :=
        match e.run draft with
        | .ok a after => (f a).run after
        | .error fault after => .error fault after
      moments draft := e.moments draft ++
        match e.run draft with
        | .ok a after => (f a).moments after
        | .error _ _ => []
      last draft := by
        have hlast := e.last draft
        rw [getLastD_append, hlast]
        cases e.run draft with
        | ok a after => exact (f a).last after
        | error fault after => rfl }

/-- Storing a draft is a moment of its own; looking at it is none. -/
instance : MonadStateOf Draft Edit where
  get := ⟨fun draft => .ok draft draft, fun _ => [], fun _ => rfl⟩
  set stored := ⟨fun _ => .ok () stored, fun _ => [stored], fun _ => rfl⟩
  modifyGet f :=
    ⟨fun draft => .ok (f draft).1 (f draft).2, fun draft => [(f draft).2], fun _ => rfl⟩

/-- A fault that is caught undoes nothing. -/
instance : MonadExceptOf Fault Edit where
  throw fault := ⟨fun draft => .error fault draft, fun _ => [], fun _ => rfl⟩
  tryCatch e handler :=
    { run draft :=
        match e.run draft with
        | .ok a after => .ok a after
        | .error fault after => (handler fault).run after
      moments draft := e.moments draft ++
        match e.run draft with
        | .ok _ _ => []
        | .error fault after => (handler fault).moments after
      last draft := by
        have hlast := e.last draft
        rw [getLastD_append, hlast]
        cases e.run draft with
        | ok a after => rfl
        | error fault after => exact (handler fault).last after }

namespace Edit

/-! ## What programs come to -/

section Run

variable {α β : Type} (e : Edit α) (f : α → Edit β) (draft stored : Draft)

@[simp] theorem run_pure (a : α) : (pure a : Edit α).run draft = .ok a draft := rfl

@[simp] theorem run_throw (fault : Fault) :
    (throw fault : Edit α).run draft = .error fault draft := rfl

@[simp] theorem run_get : (get : Edit Draft).run draft = .ok draft draft := rfl

@[simp] theorem run_set : (set stored : Edit Unit).run draft = .ok () stored := rfl

@[simp] theorem run_bind : (e >>= f).run draft =
    match e.run draft with
    | .ok a after => (f a).run after
    | .error fault after => .error fault after := rfl

@[simp] theorem run_tryCatch (handler : Fault → Edit α) : (tryCatch e handler).run draft =
    match e.run draft with
    | .ok a after => .ok a after
    | .error fault after => (handler fault).run after := rfl

/-! ## What programs go through -/

@[simp] theorem moments_pure (a : α) : (pure a : Edit α).moments draft = [] := rfl

@[simp] theorem moments_throw (fault : Fault) : (throw fault : Edit α).moments draft = [] := rfl

@[simp] theorem moments_get : (get : Edit Draft).moments draft = [] := rfl

@[simp] theorem moments_set : (set stored : Edit Unit).moments draft = [stored] := rfl

@[simp] theorem moments_bind : (e >>= f).moments draft = e.moments draft ++
    match e.run draft with
    | .ok a after => (f a).moments after
    | .error _ _ => [] := rfl

@[simp] theorem moments_tryCatch (handler : Fault → Edit α) :
    (tryCatch e handler).moments draft = e.moments draft ++
      match e.run draft with
      | .ok _ _ => []
      | .error fault after => (handler fault).moments after := rfl

end Run

theorem ext {α : Type} {e e' : Edit α} (hrun : ∀ draft, e.run draft = e'.run draft)
    (hmoments : ∀ draft, e.moments draft = e'.moments draft) : e = e' := by
  obtain ⟨run, moments, last⟩ := e
  obtain ⟨run', moments', last'⟩ := e'
  obtain rfl : run = run' := funext hrun
  obtain rfl : moments = moments' := funext hmoments
  rfl

instance : LawfulMonad Edit := by
  refine LawfulMonad.mk' Edit (fun e => ?_) (fun a f => ext (fun _ => rfl) fun _ => rfl)
    fun e f g => ext (fun draft => ?_) fun draft => ?_
  · show (e >>= pure) = e
    refine ext (fun draft => ?_) fun draft => ?_
    · rw [run_bind]
      cases e.run draft <;> rfl
    · rw [moments_bind]
      cases e.run draft <;> simp
  · simp only [run_bind]
    cases e.run draft <;> rfl
  · simp only [run_bind, moments_bind]
    cases e.run draft <;> simp

end Edit

namespace Draft

/-- Decides whether a token belongs to the stream. -/
def isLive (draft : Draft) (token : TokenId) : Bool :=
  draft.stream.holds token (draft.pool.get token).handle

/-- The tokens of the stream with all that is known of them. -/
def contents (draft : Draft) : List Token := draft.stream.tokens.map draft.pool.get

/-- The text of the stream: the values of its tokens from front to back. -/
def render (draft : Draft) : String := String.join (draft.contents.map Token.value)

/-- The draft with a token put at a position of the stream. -/
def insertAt (draft : Draft) (position : Nat) (token : TokenId) : Draft :=
  ⟨draft.pool.setHandle token draft.stream.nextHandle, draft.stream.insertAt position token⟩

/-- The draft with a new token at the end. -/
def append (draft : Draft) (lexeme : Lexeme) : Draft :=
  insertAt ⟨draft.pool.add (.ofLexeme lexeme), draft.stream⟩ draft.stream.size draft.pool.size

/-- The draft with new tokens at the end, one for each lexeme. -/
def appendAll (draft : Draft) (lexemes : List Lexeme) : Draft := lexemes.foldl append draft

/-- A new draft of the given lexemes. -/
def ofLexemes (source : String) (lexemes : List Lexeme) : Draft :=
  appendAll ⟨.empty, .empty source⟩ lexemes

end Draft

namespace Edit

/-! ## Looking at the stream -/

/-- What is known of a token. -/
def token (t : TokenId) : Edit Token := do
  return (← get).pool.get t

/-- The tokens of one of the given kinds, from front to back. -/
def ofKinds (kinds : List Kind) : Edit (List TokenId) := do
  let draft ← get
  return draft.stream.tokens.filter fun t => kinds.contains (draft.pool.get t).kind

/-- The token at a position counted from the front. -/
def tokenAt (position : Nat) : Edit TokenId := do
  let draft ← get
  match draft.stream.order[position]? with
  | none => throw .indexOutOfRange
  | some handle =>
    match draft.stream.arena.get? handle with
    | none => throw .missingHandle
    | some t => return t

/-- The token at a position; a negative position counts from the end. -/
def tokenAtIndex (index : Int) : Edit TokenId := do
  let size : Int := (← get).stream.size
  let position := if index < 0 then index + size else index
  if 0 ≤ position then tokenAt position.toNat else throw .indexOutOfRange

/-- The position of a token that belongs to the stream. -/
def index (t : TokenId) : Edit Nat := do
  let draft ← get
  match (draft.pool.get t).handle with
  | none => throw (.stale t)
  | some handle =>
    if draft.stream.holds t (some handle) then
      let stream := draft.stream.refresh
      set { draft with stream := stream }
      match stream.positions.get? handle with
      | none => throw .missingHandle
      | some position => return position
    else throw (.stale t)

/-- The token before a token, if there is one. -/
def prev (t : TokenId) : Edit (Option TokenId) := do
  match ← index t with
  | 0 => return none
  | position + 1 => return some (← tokenAt position)

/-- The token after a token, if there is one. -/
def next (t : TokenId) : Edit (Option TokenId) := do
  let position ← index t
  if position + 1 < (← get).stream.size then return some (← tokenAt (position + 1))
  else return none

/-! ## Changing the stream -/

/-- Makes a new token that belongs to no stream. -/
def create (t : Token) : Edit TokenId := do
  let draft ← get
  set { draft with pool := draft.pool.add t }
  return draft.pool.size

/-- Puts a token into the stream so that it ends up at the given position. -/
def insert (index : Int) (t : TokenId) : Edit TokenId := do
  let draft ← get
  if draft.isLive t then throw (.alreadyPresent t)
  else if 0 ≤ index ∧ index ≤ draft.stream.size then
    set (draft.insertAt index.toNat t)
    return t
  else throw (.insertOutOfRange index)

/-- Puts a token directly before another one. -/
def insertBefore (anchor t : TokenId) : Edit TokenId := do
  insert (← index anchor) t

/-- Takes a token out of the stream; the result is the position it had. -/
def remove (t : TokenId) : Edit Nat := do
  let position ← index t
  let draft ← get
  match (draft.pool.get t).handle with
  | none => throw .missingHandle
  | some handle =>
    set { draft with stream := draft.stream.removeAt position handle }
    return position

/-- Overwrites the value of a token. -/
def setValue (t : TokenId) (value : String) : Edit Unit := do
  let draft ← get
  set { draft with pool := draft.pool.setValue t value }

/-- Puts tokens at the end of the stream, one after another. -/
def appendAll : List TokenId → Edit Unit
  | [] => return
  | t :: rest => do
    let size := (← get).stream.size
    let _ ← insert size t
    appendAll rest

end Edit

end ManifestLint
