import NetStack.Text.Numeral

namespace NetStack.Ipv4

structure Protocol where
  code : UInt8
  deriving DecidableEq, Inhabited

namespace Protocol

def icmp : Protocol := ⟨1⟩
def tcp : Protocol := ⟨6⟩
def udp : Protocol := ⟨17⟩

def name (protocol : Protocol) : String :=
  if protocol = icmp then "ICMP"
  else if protocol = tcp then "TCP"
  else if protocol = udp then "UDP"
  else String.ofList ('0' :: 'x' :: Text.hex 2 protocol.code.toNat)

instance : ToString Protocol := ⟨name⟩

end Protocol

end NetStack.Ipv4
