import EggLang.Number.Decimal

/-! Numerals: how a number is read from text. A numeral has an optional sign, and then names an
infinity or `NaN`, or has digits with an optional point and an optional exponent. -/

namespace EggLang.Number

/-- The value of one or more decimal digits, and of nothing else. -/
def readDigits? (cs : List Char) : Option Nat :=
  if cs.isEmpty || !cs.all Char.isDigit then none else some (digitsValue cs)

/-- The exponent that ends a numeral. A numeral without one has exponent zero. -/
def readExponent? : List Char → Option Int
  | [] => some 0
  | c :: cs =>
    if c = 'e' || c = 'E' then
      match cs with
      | '-' :: digits => (readDigits? digits).map fun e => -(e : Int)
      | '+' :: digits => (readDigits? digits).map Int.ofNat
      | digits => (readDigits? digits).map Int.ofNat
    else none

/-- The digits after the point, if there is one, and what follows them. -/
def splitFraction : List Char → List Char × List Char
  | '.' :: cs => (cs.takeWhile Char.isDigit, cs.dropWhile Char.isDigit)
  | cs => ([], cs)

/-- A numeral of digits. There is at least one, on either side of the point. -/
def readDecimal? (cs : List Char) : Option Number :=
  let whole := cs.takeWhile Char.isDigit
  let (fraction, rest) := splitFraction (cs.dropWhile Char.isDigit)
  if whole.isEmpty && fraction.isEmpty then none
  else
    (readExponent? rest).map fun e =>
      ofMagnitude (ofDecimal (digitsValue (whole ++ fraction)) (e - fraction.length))

def readUnsigned? (cs : List Char) : Option Number :=
  let word := String.ofList (cs.map Char.toLower)
  if word = "inf" || word = "infinity" then some infinity
  else if word = "nan" then some nan
  else readDecimal? cs

def read? (text : String) : Option Number :=
  match text.toList with
  | '-' :: cs => (readUnsigned? cs).map (-·)
  | '+' :: cs => readUnsigned? cs
  | cs => readUnsigned? cs

end EggLang.Number
