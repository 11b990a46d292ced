import ManifestLint.Yaml.Scalar
import ManifestLint.Yaml.Value

set_option autoImplicit false

/-! # The value of plain text

Plain text can stand for nothing, a truth value, a number, a date or a time, each of which has a
fixed set of spellings; any other plain text stands for itself. -/

namespace ManifestLint.Yaml

/-! ## Integers -/

/-- The value of a digit of the given base. -/
def digitValue? (base : Nat) (c : Char) : Option Nat :=
  (Scalar.hexValue? c).bind fun n => if n < base then some n else none

/-- The number written by digits of the given base; underscores between them do not count, but
there must be a digit. -/
def number? (base : Nat) (cs : List Char) : Option Nat :=
  let digits := cs.filter (· != '_')
  if digits = [] then none
  else digits.foldlM (fun n c => (digitValue? base c).map (n * base + ·)) 0

/-- The parts of a text between colons. -/
def splitColons : List Char → List (List Char)
  | [] => [[]]
  | c :: cs =>
    if c = ':' then [] :: splitColons cs
    else
      match splitColons cs with
      | [] => [[c]]
      | part :: parts => (c :: part) :: parts

/-- One of the later parts of a number to the base sixty: one or two digits below sixty. -/
def sixtieth? (cs : List Char) : Option Nat :=
  if cs.length = 1 ∨ cs.length = 2 then
    if cs.all Char.isDigit then (number? 10 cs).bind fun n => if n < 60 then some n else none
    else none
  else none

/-- The number that unsigned plain text stands for. -/
def unsigned? (cs : List Char) : Option Nat :=
  match cs with
  | [] => none
  | ['0'] => some 0
  | '0' :: 'b' :: digits => number? 2 digits
  | '0' :: 'x' :: digits => number? 16 digits
  | '0' :: digits => number? 8 ('0' :: digits)
  | c :: _ =>
    if c.isDigit then
      match splitColons cs with
      | [whole] => number? 10 whole
      | whole :: parts => do
        let first ← number? 10 whole
        let rest ← parts.mapM sixtieth?
        return rest.foldl (fun n m => n * 60 + m) first
      | [] => none
    else none

/-- The integer that plain text stands for. -/
def integer? (cs : List Char) : Option Int :=
  match cs with
  | '-' :: rest => (unsigned? rest).map fun n => -(n : Int)
  | '+' :: rest => (unsigned? rest).map fun n => (n : Int)
  | _ => (unsigned? cs).map fun n => (n : Int)

/-- Decides whether text has the form of an integer that cannot be read: there are no digits to the
base of two or sixteen, or too many to the base of ten. -/
def isUnreadable (cs : List Char) : Bool :=
  let unsigned := if cs.head? = some '-' ∨ cs.head? = some '+' then cs.drop 1 else cs
  match unsigned with
  | '0' :: 'b' :: digits | '0' :: 'x' :: digits => digits != [] && digits.all (· == '_')
  | '0' :: _ => false
  | _ =>
    (integer? cs).isSome &&
      decide (Value.digitLimit < ((unsigned.takeWhile (· != ':')).filter (· != '_')).length)

/-! ## Floating-point numbers -/

/-- Decides whether a character stands in the digits of a number. -/
def isDigitOrGap (c : Char) : Bool := c.isDigit || c == '_'

/-- The digits at the front, at least `least` of them and at most `most`, as a number, and what
comes after them. -/
def digitsAt? (least most : Nat) (cs : List Char) : Option (Nat × List Char) :=
  let digits := (cs.take most).takeWhile Char.isDigit
  if least ≤ digits.length then
    some ((number? 10 digits).getD 0, cs.drop digits.length)
  else none

/-- The power of ten after the digits of a number; none is written as nothing. -/
def exponent? (cs : List Char) : Option Int :=
  match cs with
  | [] => some 0
  | e :: sign :: digits =>
    if (e = 'e' ∨ e = 'E') ∧ (sign = '+' ∨ sign = '-') ∧ digits.all Char.isDigit then
      (number? 10 digits).map fun n => if sign = '-' then -(n : Int) else n
    else none
  | _ => none

/-- The floating-point number with the given digits before and after its point. -/
def pointed (whole fraction : List Char) (exponent : Int) : Float :=
  let fraction := fraction.filter (· != '_')
  Decimal.toFloat ((number? 10 (whole ++ fraction)).getD 0) (exponent - fraction.length)

/-- The number with the given parts to the base sixty and the given fraction at the last of them. -/
def sixties (parts : List (List Char)) (fraction : List Char) : Float :=
  let last := pointed (parts.getLast?.getD []) fraction 0
  let digits := last :: (parts.dropLast.map fun part => pointed part [] 0).reverse
  digits.zipIdx.foldl (fun x (digit, place) => x + digit * Nat.toFloat (Nat.pow 60 place)) 0

/-- The floating-point number that unsigned plain text stands for, but for one that begins with its
point. -/
def unsignedFloat? (cs : List Char) : Option Float :=
  let (whole, rest) := cs.span (· != '.')
  let (fraction, rest) := (rest.drop 1).span isDigitOrGap
  match splitColons whole with
  | [] => none
  | first :: more =>
    if !cs.contains '.' || !(first.head?.map Char.isDigit).getD false ||
        !first.all isDigitOrGap then
      none
    else if more = [] then (exponent? rest).map (pointed first fraction)
    else if rest = [] ∧ more.all fun part => (sixtieth? part).isSome then
      some (sixties (first :: more) fraction)
    else none

/-- The floating-point number that plain text stands for. -/
def float? (cs : List Char) : Option Float :=
  let infinity : Float := 1 / 0
  let unsigned (rest : List Char) : Option Float :=
    if [".inf", ".Inf", ".INF"].contains (String.ofList rest) then some infinity
    else unsignedFloat? rest
  match cs with
  | '-' :: rest => (unsigned rest).map fun x => -x
  | '+' :: rest => unsigned rest
  | '.' :: digit :: after =>
    if digit.isDigit then
      let (fraction, rest) := after.span isDigitOrGap
      (exponent? rest).map (pointed ['0'] (digit :: fraction))
    else if [".nan", ".NaN", ".NAN"].contains (String.ofList cs) then some (0 / 0)
    else unsigned cs
  | _ => unsigned cs

/-! ## Dates and times -/

/-- A date, or a date with a time of day and an offset, as it is written: there need not be such a
day. -/
structure Stamp where
  year : Nat
  month : Nat
  day : Nat
  /-- The hour, the minute, the second and the microsecond. -/
  clock : Option (Nat × Nat × Nat × Nat)
  offset : Option Int

/-- Decides whether a character is a blank between a date, a time and its offset. -/
def isBlank (c : Char) : Bool := c == ' ' || c == '\t'

/-- What comes after a character that has to be at the front. -/
def after? (c : Char) (cs : List Char) : Option (List Char) :=
  if cs.head? = some c then some (cs.drop 1) else none

/-- The offset at the end of a time, if there is one. -/
def zone? (cs : List Char) : Option (Option Int) := do
  match cs.dropWhile isBlank with
  | [] => if cs = [] then some none else none
  | ['Z'] => return some 0
  | sign :: rest =>
    let (hours, rest) ← digitsAt? 1 2 rest
    let (minutes, rest) ←
      match rest with
      | ':' :: rest => digitsAt? 2 2 rest
      | _ => some (0, rest)
    let offset : Int := hours * 60 + minutes
    if rest ≠ [] then none
    else if sign = '+' then return some offset
    else if sign = '-' then return some (-offset)
    else none

/-- The part of a second after its point, as a number of microseconds; what is smaller does not
count. -/
def microseconds (digits : List Char) : Nat :=
  (number? 10 ((digits ++ List.replicate 6 '0').take 6)).getD 0

/-- What comes after the mark between a date and a time: a letter, or blanks. -/
def timeAfter? (cs : List Char) : Option (List Char) :=
  match cs with
  | 'T' :: rest | 't' :: rest => some rest
  | ' ' :: rest | '\t' :: rest => some (rest.dropWhile isBlank)
  | _ => none

/-- The date, or the date and the time, that plain text has the form of. -/
def stamp? (cs : List Char) : Option Stamp := do
  let (year, rest) ← digitsAt? 4 4 cs
  let (month, rest) ← digitsAt? 1 2 (← after? '-' rest)
  let (day, rest) ← digitsAt? 1 2 (← after? '-' rest)
  if rest = [] then
    -- a date without a time has two digits for the month and two for the day
    if cs.length = 10 then some ⟨year, month, day, none, none⟩ else none
  else
    let (hour, rest) ← digitsAt? 1 2 (← timeAfter? rest)
    let (minute, rest) ← digitsAt? 2 2 (← after? ':' rest)
    let (second, rest) ← digitsAt? 2 2 (← after? ':' rest)
    let (fraction, rest) :=
      match rest with
      | '.' :: after => after.span Char.isDigit
      | _ => ([], rest)
    let offset ← zone? rest
    some ⟨year, month, day, some (hour, minute, second, microseconds fraction), offset⟩

/-- The value of a date or a time, if there is such a day and the clock can show it. -/
def Stamp.value? (stamp : Stamp) : Option Value := do
  let date ← Date.of? stamp.year stamp.month stamp.day
  match stamp.clock with
  | none => return .date date
  | some (hour, minute, second, microsecond) =>
    if hclock : hour < 24 ∧ minute < 60 ∧ second < 60 ∧ microsecond < 1000000 then
      if hoffset : ∀ minutes ∈ stamp.offset, -1440 < minutes ∧ minutes < 1440 then
        return .time ⟨date, hour, minute, second, microsecond, stamp.offset, hclock, hoffset⟩
      else none
    else none

/-! ## Plain text -/

/-- The words for true. -/
def trueWords : List String :=
  ["yes", "Yes", "YES", "true", "True", "TRUE", "on", "On", "ON"]

/-- The words for false. -/
def falseWords : List String :=
  ["no", "No", "NO", "false", "False", "FALSE", "off", "Off", "OFF"]

/-- The words for nothing. -/
def nullWords : List String := ["", "~", "null", "Null", "NULL"]

/-- The value that plain text stands for. There is none for what has the form of an integer and
cannot be read as one, or the form of a date or a time and is none. -/
def resolvePlain (cs : List Char) : Except DocumentFault Value :=
  let s := String.ofList cs
  if trueWords.contains s then .ok (.bool true)
  else if falseWords.contains s then .ok (.bool false)
  else if nullWords.contains s then .ok .null
  else if isUnreadable cs then .error .valueless
  else
    match integer? cs, float? cs, stamp? cs with
    | some n, _, _ => .ok (.int n)
    | none, some x, _ => .ok (.float x)
    | none, none, some stamp =>
      match stamp.value? with
      | some value => .ok value
      | none => .error .valueless
    | none, none, none => .ok (.text s)

end ManifestLint.Yaml
