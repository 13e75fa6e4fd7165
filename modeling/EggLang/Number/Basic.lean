/-! Numbers: double-precision floating point, held as the binary64 encoding. Below the sign bit the
encoding counts the magnitudes from zero upwards, so a magnitude is a natural number and one step
along the naturals is one step along the numbers. -/

namespace EggLang

/-- A double-precision number, as its encoding. -/
structure Number where
  bits : UInt64
deriving DecidableEq, Repr, Inhabited

namespace Number

def ofFloat (x : Float) : Number := ⟨x.toBits⟩

def toFloat (x : Number) : Float := Float.ofBits x.bits

/-! ### Arithmetic and comparison -/

instance : Add Number := ⟨fun x y => ofFloat (x.toFloat + y.toFloat)⟩

instance : Sub Number := ⟨fun x y => ofFloat (x.toFloat - y.toFloat)⟩

instance : Mul Number := ⟨fun x y => ofFloat (x.toFloat * y.toFloat)⟩

instance : Div Number := ⟨fun x y => ofFloat (x.toFloat / y.toFloat)⟩

/-- Negation turns the sign bit, that of a zero included. -/
instance : Neg Number := ⟨fun x => ⟨x.bits ^^^ 0x8000000000000000⟩⟩

/-- Equality of numbers, which holds between the two zeros and never of `NaN`. -/
def equals (x y : Number) : Bool := x.toFloat == y.toFloat

def less (x y : Number) : Bool := decide (x.toFloat < y.toFloat)

def atMost (x y : Number) : Bool := decide (x.toFloat ≤ y.toFloat)

/-! ### Sign and magnitude -/

/-- Whether the sign bit is set. -/
def isNegative (x : Number) : Bool := decide (Nat.pow 2 63 ≤ x.bits.toNat)

/-- The encoding below the sign bit. -/
def magnitude (x : Number) : Nat := x.bits.toNat % Nat.pow 2 63

/-- The magnitude of the infinities. Those below it are finite, and those above it encode `NaN`. -/
def infiniteMagnitude : Nat := 2047 * Nat.pow 2 52

def isNaN (x : Number) : Bool := decide (infiniteMagnitude < x.magnitude)

def isInfinite (x : Number) : Bool := decide (x.magnitude = infiniteMagnitude)

def isFinite (x : Number) : Bool := decide (x.magnitude < infiniteMagnitude)

/-- The number without sign of a magnitude. -/
def ofMagnitude (m : Nat) : Number := ⟨m.toUInt64⟩

def infinity : Number := ofMagnitude infiniteMagnitude

def nan : Number := ofMagnitude (infiniteMagnitude + Nat.pow 2 51)

def one : Number := ofMagnitude (1023 * Nat.pow 2 52)

theorem magnitude_ofMagnitude {m : Nat} (h : m < Nat.pow 2 63) :
    (ofMagnitude m).magnitude = m := by
  rw [Nat.pow_eq] at h
  simp only [magnitude, ofMagnitude, Nat.toUInt64, UInt64.toNat_ofNat', Nat.pow_eq]
  omega

end Number

end EggLang
