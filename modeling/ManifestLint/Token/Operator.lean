import ManifestLint.Token.Kind

set_option autoImplicit false

/-! # Operators

The fixed texts of operators and punctuation, longer texts before their beginnings, so that
the first entry that fits is the longest. A minus sign is not among them: whether it begins a
number, an arrow or stands alone is decided where tokens are scanned. -/

namespace ManifestLint

/-- The texts of the operators with their kinds, the longest first. -/
def operators : List (List Char × Kind) :=
  [(['<', '<', '|'], .leftDoubleCollect),
   (['|', '>', '>'], .rightDoubleCollect),
   (['<', '|'], .leftCollect),
   (['|', '>'], .rightCollect),
   (['=', '>'], .fatArrow),
   (['=', '='], .doubleEqual),
   (['=', '~'], .regexMatch),
   (['!', '='], .notEqual),
   (['!', '~'], .regexNoMatch),
   (['<', '='], .lessEqual),
   (['>', '='], .greaterEqual),
   (['~', '>'], .inEdgeSub),
   (['<', '-'], .outEdge),
   (['<', '~'], .outEdgeSub),
   (['='], .equals),
   (['|'], .pipe),
   (['~'], .tilde),
   (['%'], .percent),
   (['&'], .ampersand),
   (['.'], .dot),
   (['\x7b'], .leftBrace),
   (['\x7d'], .rightBrace),
   (['['], .leftBracket),
   ([']'], .rightBracket),
   (['('], .leftParen),
   ([')'], .rightParen),
   (['<'], .lessThan),
   (['>'], .greaterThan),
   (['!'], .bang),
   (['?'], .question),
   ([':'], .colon),
   ([','], .comma),
   ([';'], .semicolon),
   (['@'], .atSign),
   (['+'], .plus),
   (['*'], .star),
   (['/'], .slash)]

/-- The first operator whose text stands at the front of `cs`. -/
def operatorAt? (cs : List Char) : Option (List Char × Kind) :=
  operators.find? fun entry => entry.1.isPrefixOf cs

theorem operators_nonempty : ∀ entry ∈ operators, entry.1 ≠ [] := by decide

theorem operatorAt?_isPrefix {cs : List Char} {entry : List Char × Kind}
    (h : operatorAt? cs = some entry) : entry.1 <+: cs := by
  simpa using List.find?_some h

theorem operatorAt?_ne_nil {cs : List Char} {entry : List Char × Kind}
    (h : operatorAt? cs = some entry) : entry.1 ≠ [] :=
  operators_nonempty entry (List.mem_of_find?_eq_some h)

end ManifestLint
