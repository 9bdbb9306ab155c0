import NetStack.Bytes
import NetStack.Text.Numeral

namespace NetStack.Ipv4

/-- An address as a 32-bit word, the network part in the high bits. -/
structure Address where
  bits : UInt32
  deriving DecidableEq, Inhabited

namespace Address

def ofOctets (a b c d : UInt8) : Address := ⟨Bytes.word32 a b c d⟩

def octets (address : Address) : Bytes := Bytes.ofWord32 address.bits

def unspecified : Address := ⟨0⟩

def isUnspecified (address : Address) : Bool := address == unspecified

def chars (address : Address) : List Char :=
  List.intercalate ['.'] (address.octets.map fun octet => Text.decimal octet.toNat)

instance : ToString Address := ⟨fun address => String.ofList address.chars⟩

/-- Four decimal octets of one to three digits, with dots between them. -/
def ofChars? (text : List Char) : Option Address := do
  match ← (text.splitOn '.').mapM (Text.number? 10 3 0x100) with
  | [a, b, c, d] => some (ofOctets (.ofNat a) (.ofNat b) (.ofNat c) (.ofNat d))
  | _ => none

def parse? (text : String) : Option Address := ofChars? text.toList

@[simp] theorem octets_length (address : Address) : address.octets.length = 4 := rfl

end Address

end NetStack.Ipv4
