import Roster.Hash.Sha256
import Roster.Text.Bytes

/-!
Digests of owners and what they own, for noticing a change. The hashed bytes frame every owner by
`=` and a newline and end every item with a zero byte.
-/

namespace Roster

structure Digest where
  text : String
  deriving DecidableEq, Repr

namespace Digest

def frameEntry (owner : String) (items : List String) : List UInt8 :=
  Text.bytes owner ++ 0x3d :: items.flatMap (fun item => Text.bytes item ++ [0]) ++ [0x0a]

def frame (entries : List (String × List String)) : List UInt8 :=
  entries.flatMap fun e => frameEntry e.1 e.2

/-- The first half of the hash, in hexadecimal. -/
def ofBytes (bytes : List UInt8) : Digest :=
  ⟨"sha256:" ++ .ofList (Text.hex ((Sha256.hash bytes).take 16))⟩

def of (entries : List (String × List String)) : Digest := ofBytes (frame entries)

end Digest

end Roster
