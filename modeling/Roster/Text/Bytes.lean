/-!
Text as bytes in UTF-8, and bytes as hexadecimal text.
-/

namespace Roster.Text

def bytes (s : String) : List UInt8 := s.toList.flatMap String.utf8EncodeChar

def hexDigit (n : Nat) : Char := (Nat.digitChar (n % 16))

/-- Two lower-case digits a byte. -/
def hex (bs : List UInt8) : List Char :=
  bs.flatMap fun b => [hexDigit (b.toNat / 16), hexDigit b.toNat]

end Roster.Text
