import NetStack.Ipv4.Address

namespace NetStack.Ipv4

structure Endpoint where
  address : Address
  port : UInt16
  deriving DecidableEq, Inhabited

namespace Endpoint

def isSpecified (endpoint : Endpoint) : Bool :=
  !endpoint.address.isUnspecified && endpoint.port != 0

def chars (endpoint : Endpoint) : List Char :=
  endpoint.address.chars ++ ':' :: Text.decimal endpoint.port.toNat

instance : ToString Endpoint := ⟨fun endpoint => String.ofList endpoint.chars⟩

/-- An address, optionally followed by a colon and a port of one to five digits. The port is zero
    where none is given. -/
def ofChars? (text : List Char) : Option Endpoint :=
  match Text.splitOnce? ':' text with
  | none => do return ⟨← Address.ofChars? text, 0⟩
  | some (addressText, portText) => do
    let port ← Text.number? 10 5 0x10000 portText
    return ⟨← Address.ofChars? addressText, .ofNat port⟩

def parse? (text : String) : Option Endpoint := ofChars? text.toList

end Endpoint

end NetStack.Ipv4
