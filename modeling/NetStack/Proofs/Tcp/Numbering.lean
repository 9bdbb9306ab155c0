import NetStack.Tcp.SeqNo

namespace NetStack.Tcp.SeqNo

theorem distance_ofPosition {position checkpoint : Nat} (isn : SeqNo)
    (behind : checkpoint ≤ position + 0x80000000) (ahead : position < checkpoint + 0x80000000) :
    (ofPosition position isn).distance (ofPosition checkpoint isn) =
      (position : Int) - checkpoint := by
  simp only [distance, ofPosition_toNat, Int.bmod_def, modulus]
  omega

theorem positionNear_ofPosition {position checkpoint : Nat} (isn : SeqNo)
    (behind : checkpoint ≤ position + 0x80000000) (ahead : position < checkpoint + 0x80000000)
    (bound : position < positionLimit) :
    (ofPosition position isn).positionNear isn checkpoint = position := by
  have nearest : (checkpoint : Int) +
      (ofPosition position isn).distance (ofPosition checkpoint isn) = position := by
    rw [distance_ofPosition isn behind ahead]
    omega
  simp only [positionNear, nearest]
  rw [if_neg (by omega), if_pos (by exact_mod_cast bound), Int.toNat_natCast]

theorem positionNear_of_small {position checkpoint : Nat} (isn : SeqNo)
    (small : position < 0x80000000) (near : checkpoint < 0x80000000) :
    (ofPosition position isn).positionNear isn checkpoint = position := by
  apply positionNear_ofPosition
  · omega
  · omega
  · unfold positionLimit
    omega

theorem advance_advance (s : SeqNo) (n m : UInt32) :
    (s.advance n).advance m = (s.advance m).advance n := by
  simp only [advance, UInt32.add_assoc, UInt32.add_comm m n]

@[simp] theorem ofPosition_advance (position : Nat) (isn : SeqNo) (n : UInt32) :
    ofPosition position (isn.advance n) = (ofPosition position isn).advance n :=
  isn.advance_advance n (UInt32.ofNat position)

@[simp] theorem distance_advance (a b : SeqNo) (n : UInt32) :
    (a.advance n).distance (b.advance n) = a.distance b := by
  simp only [distance, advance, UInt32.toNat_add, Int.bmod_def, modulus]
  omega

@[simp] theorem positionNear_advance (s isn : SeqNo) (n : UInt32) (checkpoint : Nat) :
    (s.advance n).positionNear (isn.advance n) checkpoint = s.positionNear isn checkpoint := by
  simp only [positionNear, ofPosition_advance, distance_advance]

@[simp] theorem advance_inj (a b : SeqNo) (n : UInt32) :
    a.advance n = b.advance n ↔ a = b := by
  cases a
  cases b
  simp [advance]

end NetStack.Tcp.SeqNo
