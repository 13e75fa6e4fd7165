import EggLang.Number.Basic

/-! Decimals as numbers: the magnitude nearest to a fraction or to a decimal, a tie going to the
even magnitude. Every finite magnitude is a whole number of units of `2⁻¹⁰⁷⁴`. -/

namespace EggLang.Number

/-- The value of a finite magnitude, in units of `2⁻¹⁰⁷⁴`. -/
def units (m : Nat) : Nat :=
  let shift := m / Nat.pow 2 52 - 1
  (m - shift * Nat.pow 2 52) * Nat.pow 2 shift

/-- The natural number nearest to `a / b`, a tie going to the even one. -/
def roundDiv (a b : Nat) : Nat :=
  let q := a / b
  let twice := 2 * (a % b)
  if twice < b then q else if b < twice then q + 1 else q + q % 2

/-- The magnitude nearest to `a / b`. From `2 ^ 53` units on, each doubling doubles the step
between magnitudes. -/
def nearest (a b : Nat) : Nat :=
  let scaled := a * Nat.pow 2 1074
  let shift := (scaled / b).log2 - 52
  min (shift * Nat.pow 2 52 + roundDiv scaled (b * Nat.pow 2 shift)) infiniteMagnitude

/-- The magnitude nearest to `m · 10 ^ e`. A power beyond every magnitude is not computed. -/
def ofDecimal (m : Nat) : Int → Nat
  | .ofNat e =>
    if m = 0 then 0 else if 400 < e then infiniteMagnitude else nearest (m * Nat.pow 10 e) 1
  | .negSucc e => if m.log2 + 400 < e then 0 else nearest m (Nat.pow 10 (e + 1))

/-- The number that a string of decimal digits stands for. -/
def digitsValue (digits : List Char) : Nat :=
  digits.foldl (fun value c => value * 10 + (c.toNat - '0'.toNat)) 0

end EggLang.Number
