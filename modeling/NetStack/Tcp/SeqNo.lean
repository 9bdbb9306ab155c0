namespace NetStack.Tcp

structure SeqNo where
  value : UInt32
  deriving DecidableEq, Inhabited

namespace SeqNo

def advance (s : SeqNo) (n : UInt32) : SeqNo := ⟨s.value + n⟩

def modulus : Nat := 0x100000000

/-- How far `a` is past `b`, on the shorter way round; a way that is half round counts as
    backward. -/
def distance (a b : SeqNo) : Int :=
  ((a.value.toNat : Int) - b.value.toNat).bmod modulus

def ofPosition (position : Nat) (isn : SeqNo) : SeqNo := isn.advance (UInt32.ofNat position)

def positionLimit : Nat := 0x10000000000000000

/-- The absolute position nearest to `checkpoint` that wraps to `s`. Where that would be negative or
    beyond the limit, it is the one a full turn nearer. -/
def positionNear (s isn : SeqNo) (checkpoint : Nat) : Nat :=
  let nearest : Int := checkpoint + s.distance (ofPosition checkpoint isn)
  if nearest < 0 then (nearest + modulus).toNat
  else if nearest < positionLimit then nearest.toNat
  else (nearest - modulus).toNat

instance : ToString SeqNo := ⟨fun s => toString s.value.toNat⟩

@[simp] theorem ofPosition_toNat (position : Nat) (isn : SeqNo) :
    (ofPosition position isn).value.toNat = (isn.value.toNat + position) % modulus := by
  simp only [ofPosition, advance, UInt32.toNat_add, UInt32.toNat_ofNat', modulus]
  omega

theorem distance_lower (a b : SeqNo) : -0x80000000 ≤ a.distance b := by
  have bound := Int.le_bmod (x := (a.value.toNat : Int) - b.value.toNat) (m := modulus) (by decide)
  simpa [distance, modulus] using bound

theorem distance_upper (a b : SeqNo) : a.distance b < 0x80000000 := by
  have bound := Int.bmod_lt (x := (a.value.toNat : Int) - b.value.toNat) (m := modulus) (by decide)
  simpa [distance, modulus] using bound

theorem add_distance (a b : SeqNo) :
    ((b.value.toNat : Int) + a.distance b) % modulus = a.value.toNat := by
  have := a.value.toNat_lt
  have := b.value.toNat_lt
  simp only [distance, Int.bmod_def, modulus]
  omega

theorem ofPosition_positionNear (s isn : SeqNo) (checkpoint : Nat) :
    ofPosition (s.positionNear isn checkpoint) isn = s := by
  have reached := s.add_distance (ofPosition checkpoint isn)
  have lower := s.distance_lower (ofPosition checkpoint isn)
  generalize away : s.distance (ofPosition checkpoint isn) = step at reached lower
  have nearby :
      (s.positionNear isn checkpoint : Int) % modulus = (checkpoint + step) % modulus := by
    simp only [positionNear, away, modulus, positionLimit]
    by_cases negative : (checkpoint : Int) + step < 0
    · simp only [negative, if_true]
      omega
    · simp only [negative, if_false]
      split <;> omega
  have number : (ofPosition (s.positionNear isn checkpoint) isn).value.toNat = s.value.toNat := by
    simp only [ofPosition_toNat, modulus] at reached nearby ⊢
    omega
  cases s
  exact congrArg SeqNo.mk (UInt32.toNat.inj number)

end SeqNo

end NetStack.Tcp
