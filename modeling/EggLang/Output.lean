import EggLang.RuntimeError

/-! Where programs print: bytes, as many as there is room for. -/

namespace EggLang

/-- The bytes printed so far, and how many there is room for in all. Without a capacity there is
room for any number. -/
structure Output where
  bytes : ByteArray
  capacity : Option Nat

namespace Output

/-- Nothing printed yet. -/
def empty (capacity : Option Nat) : Output := ⟨.empty, capacity⟩

/-- Prints a text. Where there is not enough room, as much is printed as fits, and it fails. -/
def write (text : String) : EStateM RuntimeError Output Unit := fun out =>
  let all := out.bytes ++ text.toUTF8
  match out.capacity with
  | none => .ok () { out with bytes := all }
  | some n =>
    if all.size ≤ n then .ok () { out with bytes := all }
    else .error .outputFull { out with bytes := all.extract 0 n }

end Output

end EggLang
