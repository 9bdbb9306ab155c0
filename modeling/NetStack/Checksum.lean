import NetStack.Bytes

namespace NetStack

namespace Checksum

/-- Add the big-endian words of a byte string to a 32-bit total; an odd last octet is the high half
    of a word. -/
def addWords : Bytes → UInt32 → UInt32
  | high :: low :: rest, total => addWords rest (total + (Bytes.word16 high low).toUInt32)
  | [high], total => total + (Bytes.word16 high 0).toUInt32
  | [], total => total

def foldCarries (total : UInt32) : UInt16 :=
  let folded := (total >>> 16) + (total &&& 0xffff)
  (folded >>> 16).toUInt16 + folded.toUInt16

def sum (bytes : Bytes) : UInt16 := foldCarries (addWords bytes 0)

def combine (sums : List UInt16) : UInt16 :=
  foldCarries (sums.foldl (fun total sum => total + sum.toUInt32) 0)

/-- The sum over an intact packet, its checksum field included. -/
def intact : UInt16 := 0xffff

inductive Duty where
  | both
  | verify
  | compute
  | neither
  deriving DecidableEq

def Duty.verifies : Duty → Bool
  | both | verify => true
  | compute | neither => false

def Duty.computes : Duty → Bool
  | both | compute => true
  | verify | neither => false

structure Policy where
  ipv4 : Duty := .both
  tcp : Duty := .both
  deriving DecidableEq

def Policy.ignored : Policy := ⟨.neither, .neither⟩

end Checksum

end NetStack
