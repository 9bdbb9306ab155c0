import Mathlib.Data.Nat.Dist
import NetStack.Proofs.Machine.Sender
import NetStack.Proofs.Tcp.Numbering

namespace NetStack.Tcp.SeqNo

theorem ofPosition_eq_iff (isn : SeqNo) (position other : Nat) :
    ofPosition position isn = ofPosition other isn ↔ position % modulus = other % modulus := by
  have number (place : Nat) := ofPosition_toNat place isn
  unfold modulus at number ⊢
  constructor
  · intro same
    have left := number position
    rw [same, number other] at left
    omega
  · intro same
    have numbers : (ofPosition position isn).value = (ofPosition other isn).value := by
      apply UInt32.toNat.inj
      rw [number, number]
      omega
    exact congrArg mk numbers

/-- All that reading a position can do: go the short way, or the long way round where the short one
    leaves the range. -/
theorem positionNear_cases (s isn : SeqNo) {checkpoint : Nat} (small : checkpoint < positionLimit)
    {way : Int} (way_eq : s.distance (ofPosition checkpoint isn) = way) :
    0 ≤ checkpoint + way ∧ checkpoint + way < positionLimit ∧
        (s.positionNear isn checkpoint : Int) = checkpoint + way ∨
      checkpoint + way < 0 ∧ (s.positionNear isn checkpoint : Int) = checkpoint + way + modulus ∨
      positionLimit ≤ checkpoint + way ∧
        (s.positionNear isn checkpoint : Int) = checkpoint + way - modulus := by
  have lower := s.distance_lower (ofPosition checkpoint isn)
  have upper := s.distance_upper (ofPosition checkpoint isn)
  have limit : positionLimit = 0x10000000000000000 := rfl
  have turn : modulus = 0x100000000 := rfl
  unfold positionNear
  rw [way_eq] at *
  dsimp only
  by_cases negative : (checkpoint : Int) + way < 0
  · rw [if_pos negative]
    omega
  · rw [if_neg negative]
    by_cases beyond : (checkpoint : Int) + way < positionLimit
    · rw [if_pos beyond]
      omega
    · rw [if_neg beyond]
      omega

theorem positionNear_lt_limit (s isn : SeqNo) {checkpoint : Nat}
    (small : checkpoint < positionLimit) : s.positionNear isn checkpoint < positionLimit := by
  have lower := s.distance_lower (ofPosition checkpoint isn)
  have upper := s.distance_upper (ofPosition checkpoint isn)
  have cases := s.positionNear_cases isn small rfl
  unfold positionLimit modulus at *
  omega

/-- Nearer to a checkpoint, or as near and lower. -/
def Nearer (checkpoint position other : Nat) : Prop :=
  Nat.dist checkpoint position < Nat.dist checkpoint other ∨
    Nat.dist checkpoint position = Nat.dist checkpoint other ∧ position < other

theorem nearer_of_ofPosition (s isn : SeqNo) {checkpoint other : Nat}
    (small : checkpoint < positionLimit) (inside : other < positionLimit)
    (same : ofPosition other isn = s) (distinct : other ≠ s.positionNear isn checkpoint) :
    Nearer checkpoint (s.positionNear isn checkpoint) other := by
  have lower := s.distance_lower (ofPosition checkpoint isn)
  have upper := s.distance_upper (ofPosition checkpoint isn)
  have cases := s.positionNear_cases isn small rfl
  have turns : other % modulus = s.positionNear isn checkpoint % modulus := by
    rw [← ofPosition_eq_iff isn, same, ofPosition_positionNear]
  generalize s.positionNear isn checkpoint = position at *
  unfold Nearer Nat.dist
  unfold positionLimit modulus at *
  -- another position is a whole turn away or more, and the way to this one is at most half a turn
  -- unless the other side has none
  omega

/-- For every wire number, initial number and checkpoint of 64 bits, no step of reading the position
    leaves its word, and what is read wraps to the wire number and is the nearest position that
    does. So a position is read back from its wire number wherever the checkpoint is less than half
    a turn above it, or up to half a turn below. -/
theorem positionNear_nearest (s isn : SeqNo) (checkpoint : Nat)
    (small : checkpoint < positionLimit) :
    let way := s.distance (ofPosition checkpoint isn)
    let position := s.positionNear isn checkpoint
    (-0x80000000 ≤ way ∧ way < 0x80000000) ∧ Machine.position s isn checkpoint = some position ∧
      position < positionLimit ∧ ofPosition position isn = s ∧
      (∀ other < positionLimit, ofPosition other isn = s → other ≠ position →
        Nearer checkpoint position other) ∧
      ∀ n < positionLimit, -0x80000000 ≤ (n : Int) - checkpoint →
        (n : Int) - checkpoint < 0x80000000 →
          (ofPosition n isn).positionNear isn checkpoint = n := by
  intro way position
  refine ⟨⟨distance_lower _ _, distance_upper _ _⟩, Machine.position_eq s isn checkpoint small,
    s.positionNear_lt_limit isn small, s.ofPosition_positionNear isn checkpoint, ?_, ?_⟩
  · intro other inside same distinct
    exact s.nearer_of_ofPosition isn small inside same distinct
  · intro n inside behind ahead
    exact positionNear_ofPosition isn (by omega) (by omega) inside

/-- Half a turn away on both sides, the lower position is taken; with the checkpoint at the end of
    the range there is only the one behind. -/
theorem positionNear_nearest_edges :
    Nearer 0x100000000 0x80000000 0x180000000 ∧
      positionNear ⟨0x80000000⟩ ⟨0⟩ 0x100000000 = 0x80000000 ∧
      positionNear ⟨0x7fffffff⟩ ⟨0⟩ 0xffffffffffffffff = 0xffffffff7fffffff ∧
      Machine.position ⟨0⟩ ⟨7⟩ 0 = some 0xfffffff9 := by
  have tie := positionNear_nearest ⟨0x80000000⟩ ⟨0⟩ 0x100000000 (by decide)
  have low := positionNear_nearest ⟨0⟩ ⟨7⟩ 0 (by decide)
  exact ⟨tie.2.2.2.2.1 0x180000000 (by decide) (by decide) (by decide), by decide, by decide,
    low.2.1⟩

end NetStack.Tcp.SeqNo
