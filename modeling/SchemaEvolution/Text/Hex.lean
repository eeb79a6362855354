/-!
# Hexadecimal digits and character codes

The value of a run of hexadecimal digits and the character that a code denotes.
-/

namespace SchemaEvolution.Text

def hexValue? (c : Char) : Option Nat :=
  if c.isDigit then some (c.toNat - '0'.toNat)
  else if 'a' ≤ c && c ≤ 'f' then some (c.toNat - 'a'.toNat + 10)
  else if 'A' ≤ c && c ≤ 'F' then some (c.toNat - 'A'.toNat + 10)
  else none

def digitInBase? (base : Nat) (c : Char) : Option Nat :=
  (hexValue? c).filter (· < base)

/-- The number that a run of digits denotes in a base, after the digits whose value is `start`;
none if a character is no digit of that base. -/
def valueInBase? (base start : Nat) (digits : List Char) : Option Nat :=
  digits.foldlM (fun n c => (digitInBase? base c).map (base * n + ·)) start

def charOf? (code : Nat) : Option Char :=
  if h : code.isValidChar then some (Char.ofNatAux code h) else none

end SchemaEvolution.Text
