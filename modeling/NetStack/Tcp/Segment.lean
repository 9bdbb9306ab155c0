import NetStack.Bytes
import NetStack.Tcp.SeqNo

namespace NetStack.Tcp

structure Flags where
  fin : Bool := false
  syn : Bool := false
  rst : Bool := false
  psh : Bool := false
  ack : Bool := false
  urg : Bool := false
  deriving DecidableEq, Inhabited

namespace Flags

def none : Flags := {}

def toByte (flags : Flags) : UInt8 :=
  UInt8.ofNat (flags.fin.toNat + 2 * flags.syn.toNat + 4 * flags.rst.toNat + 8 * flags.psh.toNat +
    16 * flags.ack.toNat + 32 * flags.urg.toNat)

/-- The control bits of an octet. Its two reserved bits are dropped. -/
def ofByte (octet : UInt8) : Flags where
  fin := octet.toNat.testBit 0
  syn := octet.toNat.testBit 1
  rst := octet.toNat.testBit 2
  psh := octet.toNat.testBit 3
  ack := octet.toNat.testBit 4
  urg := octet.toNat.testBit 5

theorem ofByte_toByte (flags : Flags) : ofByte flags.toByte = flags := by
  rcases flags with ⟨_ | _, _ | _, _ | _, _ | _, _ | _, _ | _⟩ <;> rfl

end Flags

structure Segment where
  sourcePort : UInt16 := 0
  destinationPort : UInt16 := 0
  seqno : SeqNo := ⟨0⟩
  ackno : SeqNo := ⟨0⟩
  flags : Flags := .none
  window : UInt16 := 0
  urgent : UInt16 := 0
  /-- The checksum that the segment arrived with; it plays no part when the segment is sent. -/
  checksum : UInt16 := 0
  payload : Bytes := []
  deriving DecidableEq, Inhabited

namespace Segment

/-- How many sequence numbers the segment occupies: one for each octet, one for `syn` and one for
    `fin`. -/
def space (segment : Segment) : Nat :=
  segment.payload.length + segment.flags.syn.toNat + segment.flags.fin.toNat

def text (segment : Segment) : String :=
  let flag (isSet : Bool) (name : String) : String := if isSet then name else ""
  s!"TCP src={segment.sourcePort} dst={segment.destinationPort}" ++
    flag segment.flags.syn " syn" ++ flag segment.flags.fin " fin" ++
    flag segment.flags.rst " rst" ++ s!" seq={segment.seqno}" ++
    (if segment.flags.ack then s!" ack={segment.ackno}" else "") ++
    s!" win={segment.window} len={segment.payload.length}"

instance : ToString Segment := ⟨text⟩

end Segment

end NetStack.Tcp
