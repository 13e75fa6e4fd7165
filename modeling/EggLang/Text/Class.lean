import EggLang.Text.Property

/-! The classes of characters that scripts and prompt lines are cut by: blanks, word characters and
alphanumeric characters. A mark belongs to words but is not alphanumeric, and a number such as `²`
is alphanumeric but belongs to no word. -/

namespace EggLang.Text

/-- A blank separates tokens and is trimmed off prompt lines. -/
def isBlank (c : Char) : Bool := whiteSpace.contains c.toNat

/-- Words are made of letters, marks, decimal digits, connectors and joiners. -/
def isWord (c : Char) : Bool :=
  alphabetic.contains c.toNat || decimalNumber.contains c.toNat ||
    connectorPunctuation.contains c.toNat || mark.contains c.toNat || joinControl.contains c.toNat

/-- Letters and numbers of every category. -/
def isAlphanumeric (c : Char) : Bool :=
  alphabetic.contains c.toNat || decimalNumber.contains c.toNat || otherNumber.contains c.toNat

/-- The text without the blanks at its two ends. -/
def trim (cs : List Char) : List Char :=
  ((cs.dropWhile isBlank).reverse.dropWhile isBlank).reverse

end EggLang.Text
