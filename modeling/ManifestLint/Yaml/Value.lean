import ManifestLint.Text.Quoted
import ManifestLint.Yaml.Number
import ManifestLint.Yaml.Time

set_option autoImplicit false

/-! # Values of a YAML document

What a document stands for, whatever it was written with. A mapping keeps its entries in the
order of their keys' first appearance, and so does a set.

Settings are not checked beyond their outer shape, so that values of any kind can end up where
a name or a pattern is expected. -/

namespace ManifestLint.Yaml

/-- Why bytes have no value. -/
inductive DocumentFault where
  /-- The bytes are not text. -/
  | undecodable
  /-- The text is not a document. -/
  | malformed
  /-- The text is a document, but something in it that has the form of a value is none. -/
  | valueless
deriving DecidableEq, Repr

/-- The value of a node of a document. -/
inductive Value where
  | null
  | bool (b : Bool)
  | int (n : Int)
  | float (x : Float)
  | text (s : String)
  | bytes (b : List UInt8)
  | date (d : Date)
  | time (t : Time)
  | list (items : List Value)
  /-- An item of a list of pairs. -/
  | pair (first second : Value)
  | set (items : List Value)
  | map (entries : List (Value × Value))
  /-- The list or the mapping that the value itself is a part of. -/
  | enclosing (mapping : Bool)
deriving Repr, Inhabited

namespace Value

/-- Decides whether a value is the given text. -/
def isText (value : Value) (s : String) : Bool :=
  match value with
  | text t => t == s
  | _ => false

/-- Decides whether a value counts as absent: nothing, false, zero, and whatever is empty. -/
def isEmptyLike : Value → Bool
  | null => true
  | bool b => !b
  | int n => n == 0
  | float x => x == 0
  | text s => s == ""
  | bytes b => b.isEmpty
  | list items => items.isEmpty
  | set items => items.isEmpty
  | map entries => entries.isEmpty
  | date _ | time _ | pair _ _ | enclosing _ => false

/-! ## Keys -/

/-- Decides whether a value can be a key or a name: collections cannot, but for a pair of values
that can. -/
def isKey : Value → Bool
  | list _ | set _ | map _ | enclosing _ => false
  | pair first second => first.isKey && second.isKey
  | _ => true

/-- What a value amounts to as a key; the two truth values count as one and zero. -/
def amount? : Value → Option Amount
  | bool b => some (.exact (if b then 1 else 0))
  | int n => some (.exact n)
  | float x => some (.ofFloat x)
  | _ => none

/-- Decides whether two values are one and the same key. -/
def sameKey : Value → Value → Bool
  | null, null => true
  | text s, text t => s == t
  | bytes b, bytes c => b == c
  | date d, date e => d == e
  | time t, time u => t.same u
  | pair a b, pair c d => sameKey a c && sameKey b d
  | a, b =>
    match a.amount?, b.amount? with
    | some m, some n => m == n
    | _, _ => false

/-- Decides whether the first key comes before the second one: numbers and truth values by what
they amount to, texts by their characters, bytes one by one, dates and times by the calendar. Keys
of different kinds have no order among each other. -/
def less? : Value → Value → Option Bool
  | text s, text t => some (s < t)
  | bytes b, bytes c => some (b < c)
  | date d, date e => some (d.ordinal < e.ordinal)
  | time t, time u => t.less? u
  | a, b =>
    match a.amount?, b.amount? with
    | some m, some n => some (m.less n)
    | _, _ => none

/-- The entries with a value written at a key. A key that is there already keeps its place and
its spelling. -/
def putEntry (entries : List (Value × Value)) (key value : Value) : List (Value × Value) :=
  match entries with
  | [] => [(key, value)]
  | (k, v) :: rest =>
    if sameKey k key then (k, value) :: rest else (k, v) :: putEntry rest key value

/-- The value at a text key. -/
def lookup? (entries : List (Value × Value)) (name : String) : Option Value :=
  (entries.find? fun entry => entry.1.isText name).map Prod.snd

/-! ## Words for values -/

mutual

/-- A value as messages show it: text in quotes, lists in brackets, sets and mappings in braces. -/
def shown : Value → String
  | null => "None"
  | bool b => if b then "True" else "False"
  | int n => toString n
  | float x => floatText x
  | text s => Text.quoted s
  | bytes b => Text.quotedBytes b
  | date d => d.shown
  | time t => t.shown
  | list items => "[" ++ String.intercalate ", " (shownItems items) ++ "]"
  | pair first second => "(" ++ shown first ++ ", " ++ shown second ++ ")"
  | set [] => "set()"
  | set items => "\x7b" ++ String.intercalate ", " (shownItems items) ++ "\x7d"
  | map entries => "\x7b" ++ String.intercalate ", " (shownEntries entries) ++ "\x7d"
  | enclosing mapping => if mapping then "\x7b...\x7d" else "[...]"

/-- The items of a list as messages show them. -/
def shownItems : List Value → List String
  | [] => []
  | item :: rest => shown item :: shownItems rest

/-- The entries of a mapping as messages show them. -/
def shownEntries : List (Value × Value) → List String
  | [] => []
  | (key, value) :: rest => (shown key ++ ": " ++ shown value) :: shownEntries rest

end

/-- The most decimal digits that an integer is written with. -/
def digitLimit : Nat := 4300

mutual

/-- Decides whether there are words for a value: an integer in it may be too long. -/
def isWritable : Value → Bool
  | int n => n.natAbs < 10 ^ digitLimit
  | list items | set items => areWritable items
  | pair first second => first.isWritable && second.isWritable
  | map entries => areEntriesWritable entries
  | _ => true

/-- Decides whether there are words for all items. -/
def areWritable : List Value → Bool
  | [] => true
  | item :: rest => item.isWritable && areWritable rest

/-- Decides whether there are words for all keys and values. -/
def areEntriesWritable : List (Value × Value) → Bool
  | [] => true
  | (key, value) :: rest => key.isWritable && value.isWritable && areEntriesWritable rest

end

/-- A value as plain text: text stands for itself, and dates and times are written as such. -/
def plain : Value → String
  | text s => s
  | date d => d.plain
  | time t => t.plain
  | value => value.shown

end Value

end ManifestLint.Yaml
