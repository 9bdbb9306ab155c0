import NetStack.Tcp.SeqNo
import NetStack.Time

namespace NetStack.Tcp

structure Config where
  receiveCapacity : Nat := 64000
  sendCapacity : Nat := 64000
  timeout : Duration := .ofMillis 1000
  maxRetransmissions : Nat := 8
  maxPayload : Nat := 1000
  /-- The initial sequence number, where it is not to be drawn from the seed. -/
  isn : Option SeqNo := none
  seed : UInt64 := 0
  deriving DecidableEq

namespace Config

/-- A number drawn from a seed: one step of a linear congruential generator on 64 bits, from whose
    result 32 bits are taken at a place that its top three bits choose. -/
def draw (seed : UInt64) : UInt32 :=
  let state := seed * 0xbb2efcec3c39611d + 0x7590ef39
  (state >>> ((29 : UInt64) - (state >>> 61))).toUInt32

def initialSeqno (config : Config) : SeqNo := config.isn.getD ⟨draw config.seed⟩

end Config

end NetStack.Tcp
