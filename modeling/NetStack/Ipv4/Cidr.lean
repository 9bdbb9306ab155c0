import NetStack.Ipv4.Address

namespace NetStack.Ipv4

/-- A network. The address may have bits set beyond the leading ones. -/
structure Cidr where
  address : Address
  length : Nat
  length_le : length ≤ 32
  deriving DecidableEq

namespace Cidr

def make? (address : Address) (length : Nat) : Option Cidr :=
  if bounded : length ≤ 32 then some ⟨address, length, bounded⟩ else none

def everything : Cidr := ⟨.unspecified, 0, by decide⟩

def maskBits (cidr : Cidr) : UInt32 := UInt32.ofNat (0xffffffff <<< (32 - cidr.length))

def netmask (cidr : Cidr) : Address := ⟨cidr.maskBits⟩

/-- The address agrees with the network in all leading bits. -/
def contains (cidr : Cidr) (address : Address) : Bool :=
  (cidr.address.bits ^^^ address.bits) &&& cidr.maskBits == 0

def chars (cidr : Cidr) : List Char := cidr.address.chars ++ '/' :: Text.decimal cidr.length

instance : ToString Cidr := ⟨fun cidr => String.ofList cidr.chars⟩

/-- An address, a slash, and a length of one or two digits. -/
def ofChars? (text : List Char) : Option Cidr := do
  let (addressText, lengthText) ← Text.splitOnce? '/' text
  let length ← Text.number? 10 2 33 lengthText
  make? (← Address.ofChars? addressText) length

def parse? (text : String) : Option Cidr := ofChars? text.toList

end Cidr

end NetStack.Ipv4
