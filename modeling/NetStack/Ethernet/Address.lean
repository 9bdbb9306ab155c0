import NetStack.Bytes
import NetStack.Text.Numeral

namespace NetStack.Ethernet

structure Address where
  a : UInt8
  b : UInt8
  c : UInt8
  d : UInt8
  e : UInt8
  f : UInt8
  deriving DecidableEq, Inhabited

namespace Address

def broadcast : Address := ⟨0xff, 0xff, 0xff, 0xff, 0xff, 0xff⟩

def unknown : Address := ⟨0, 0, 0, 0, 0, 0⟩

def octets (address : Address) : Bytes :=
  [address.a, address.b, address.c, address.d, address.e, address.f]

def ofOctets? : Bytes → Option Address
  | [a, b, c, d, e, f] => some ⟨a, b, c, d, e, f⟩
  | _ => none

def readAt (bytes : Bytes) (index : Nat) : Address :=
  ⟨bytes.octet index, bytes.octet (index + 1), bytes.octet (index + 2), bytes.octet (index + 3),
    bytes.octet (index + 4), bytes.octet (index + 5)⟩

def isBroadcast (address : Address) : Bool := address == broadcast

def isMulticast (address : Address) : Bool := address.a &&& 0x01 != 0

def isUnicast (address : Address) : Bool := !(address.isBroadcast || address.isMulticast)

def isLocal (address : Address) : Bool := address.a &&& 0x02 != 0

def chars (address : Address) : List Char :=
  List.intercalate [':'] (address.octets.map fun octet => Text.hex 2 octet.toNat)

instance : ToString Address := ⟨fun address => String.ofList address.chars⟩

def ofChars? (text : List Char) : Option Address := do
  let separator := if '-' ∈ text then '-' else ':'
  let octets ← (text.splitOn separator).mapM (Text.number? 16 2 0x100)
  ofOctets? (octets.map UInt8.ofNat)

def parse? (text : String) : Option Address := ofChars? text.toList

@[simp] theorem octets_length (address : Address) : address.octets.length = 6 := rfl

theorem ofOctets?_octets (address : Address) : ofOctets? address.octets = some address := rfl

theorem octets_of_ofOctets? {bytes : Bytes} {address : Address}
    (read : ofOctets? bytes = some address) : address.octets = bytes := by
  unfold ofOctets? at read
  split at read
  · cases read
    rfl
  · cases read

end Address

end NetStack.Ethernet
