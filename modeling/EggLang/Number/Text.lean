import EggLang.Number.Decimal

/-! Numbers as text: the fewest digits that read back as the number, of two such the nearer, and
never an exponent. A magnitude is written from its exact value in units of `10⁻¹⁰⁷⁴`. -/

namespace EggLang.Number

/-- The value of a finite magnitude, in units of `10⁻¹⁰⁷⁴`. -/
def exactDecimal (m : Nat) : Nat := units m * Nat.pow 5 1074

def digitCount (n : Nat) : Nat := if n < 10 then 1 else digitCount (n / 10) + 1

def digits (n : Nat) : List Char :=
  if n < 10 then [Nat.digitChar n] else digits (n / 10) ++ [Nat.digitChar (n % 10)]

/-- The coefficient `c` for which `c · 10 ^ p` units of `10⁻¹⁰⁷⁴` read back as `m`, when `exact` has
one next to it. Of two the nearer is taken, and the upper of two equally near. -/
def coefficient? (m exact p : Nat) : Option Nat :=
  let reads (c : Nat) : Bool := ofDecimal c ((p : Int) - 1074) == m
  let low := exact / Nat.pow 10 p
  let nearerLow := decide (2 * (exact % Nat.pow 10 p) < Nat.pow 10 p)
  if reads low && (nearerLow || !reads (low + 1)) then some low
  else if reads (low + 1) then some (low + 1)
  else none

/-- A coefficient and the power of ten it is multiplied by, with the greatest power not above `p`
for which there is a coefficient. -/
def shorten (m exact : Nat) : Nat → Nat × Nat
  | 0 => (exact, 0)
  | p + 1 =>
    match coefficient? m exact (p + 1) with
    | some c => (c, p + 1)
    | none => shorten m exact p

/-- The shortest decimal that reads back as the magnitude `m`, in units of `10⁻¹⁰⁷⁴`. -/
def shortest (m : Nat) : Nat × Nat :=
  shorten m (exactDecimal m) (digitCount (exactDecimal m))

/-- The digits of `c · 10 ^ p` units of `10⁻¹⁰⁷⁴`, with a point only before digits that need it. -/
def positional (c p : Nat) : List Char :=
  if 1074 ≤ p then digits c ++ List.replicate (p - 1074) '0'
  else
    let places := 1074 - p
    let ds := digits c
    let padded := List.replicate (places + 1 - ds.length) '0' ++ ds
    padded.take (padded.length - places) ++ '.' :: padded.drop (padded.length - places)

def magnitudeText (m : Nat) : List Char :=
  if m = 0 then ['0']
  else if m = infiniteMagnitude then ['i', 'n', 'f']
  else positional (shortest m).1 (shortest m).2

def text (x : Number) : String :=
  if x.isNaN then "NaN"
  else String.ofList ((if x.isNegative then ['-'] else []) ++ magnitudeText x.magnitude)

end EggLang.Number
