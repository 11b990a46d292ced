set_option autoImplicit false

/-! # Numbers

Whole numbers, truth values and floating-point numbers are compared with each other by what they
amount to, exactly. A floating-point number is written with as few decimal digits as it takes to
read it back. -/

namespace ManifestLint.Yaml

/-! ## Amounts -/

/-- What a number amounts to. -/
inductive Amount where
  | exact (q : Rat)
  | infinite (negative : Bool)
  /-- The outcome of an operation that has none. -/
  | undefined
deriving DecidableEq, Repr

/-- Decides whether a floating-point number has a minus sign, which zero can have too. -/
def isNegative (x : Float) : Bool := x.toBits.toNat.testBit 63

namespace Amount

/-- The amount of a floating-point number: its bits are those of the sign, of the exponent and of
the fraction. -/
def ofFloat (x : Float) : Amount :=
  let bits := x.toBits.toNat
  let exponent := (bits >>> 52) % 2048
  let fraction := bits % (1 <<< 52)
  if exponent = 2047 then if fraction = 0 then .infinite (isNegative x) else .undefined
  else
    let magnitude : Rat :=
      if exponent = 0 then mkRat fraction (1 <<< 1074)
      else mkRat (((1 <<< 52) + fraction) <<< exponent : Nat) (1 <<< 1075)
    .exact (if isNegative x then -magnitude else magnitude)

/-- Decides whether the first amount is less than the second one. -/
def less : Amount → Amount → Bool
  | .exact p, .exact q => p < q
  | .exact _, .infinite negative => !negative
  | .infinite negative, .exact _ => negative
  | .infinite negative, .infinite negative' => negative && !negative'
  | .undefined, _ | _, .undefined => false

end Amount

/-! ## The digits of a floating-point number -/

/-- A decimal fraction: its digits, and how many of them stand before the point. Where that number
is negative there are as many zeros between the point and the digits. -/
structure Decimal where
  digits : List Char
  point : Int

namespace Decimal

/-- The number of digits before the point of a positive number, or minus the number of zeros
directly after it. -/
def pointOf (q : Rat) : Int :=
  if 1 ≤ q then (Nat.toDigits 10 q.floor.toNat).length
  else -(((List.range 400).find? fun zeros => decide (1 ≤ q * 10 ^ (zeros + 1))).getD 0 : Nat)

/-- A number times a power of ten. -/
def scaled (q : Rat) (power : Int) : Rat :=
  if 0 ≤ power then q * 10 ^ power.toNat else q / 10 ^ power.natAbs

/-- A whole number times a power of ten as a floating-point number. -/
def toFloat (n : Nat) (power : Int) : Float := Float.ofScientific n (power < 0) power.natAbs

/-- The number of `count` digits, after scaling by the given power of ten, that is next to `q` and
reads back as `x`, if there is one; of two such numbers the nearer one, and the even one of two that
are equally near. -/
def digitsFor? (x : Float) (q : Rat) (power : Int) : Option Nat :=
  let below := (scaled q power).floor.toNat
  let rest := scaled q power - below
  let readsBack (n : Nat) : Bool := toFloat n (-power) == x
  let upwards : Bool := 1 / 2 < rest || (rest == 1 / 2 && below % 2 == 1)
  let candidates := if upwards then [below + 1, below] else [below, below + 1]
  candidates.find? readsBack

/-- The shortest decimal fraction that reads back as a positive finite number. Seventeen digits are
always enough. -/
def shortest (x : Float) (q : Rat) : Decimal :=
  let point := pointOf q
  let found := (List.range 17).findSome? fun (fewer : Nat) =>
    let power := (fewer : Int) + 1 - point
    (digitsFor? x q power).map fun n => (n, power)
  let (n, power) := found.getD (0, 0)
  let digits := Nat.toDigits 10 n
  ⟨(digits.reverse.dropWhile (· == '0')).reverse, digits.length - power⟩

/-- A decimal fraction as text, with a power of ten if it is very large or very small. -/
def text (decimal : Decimal) : String :=
  let ⟨digits, point⟩ := decimal
  let zeros (n : Int) := List.replicate n.toNat '0'
  String.ofList <|
    if -4 < point ∧ point ≤ 16 then
      if point ≤ 0 then '0' :: '.' :: zeros (-point) ++ digits
      else
        let fraction := digits.drop point.toNat
        digits.take point.toNat ++ zeros (point - digits.length) ++
          '.' :: if fraction = [] then ['0'] else fraction
    else
      let fraction := digits.drop 1
      let exponent := Nat.toDigits 10 (point - 1).natAbs
      digits.take 1 ++ (if fraction = [] then [] else '.' :: fraction) ++
        'e' :: (if point < 1 then '-' else '+') ::
          (List.replicate (2 - exponent.length) '0' ++ exponent)

end Decimal

/-- A floating-point number as text. -/
def floatText (x : Float) : String :=
  let sign := if isNegative x then "-" else ""
  match Amount.ofFloat x with
  | .undefined => "nan"
  | .infinite _ => sign ++ "inf"
  | .exact q =>
    if q = 0 then sign ++ "0.0"
    else sign ++ (Decimal.shortest x.abs (if q < 0 then -q else q)).text

end ManifestLint.Yaml
