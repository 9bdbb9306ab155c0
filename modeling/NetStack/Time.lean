import NetStack.Text.Numeral

namespace NetStack

def maxMillis : Nat := 0xffffffffffffffff

structure Duration where
  millis : Nat
  bounded : millis ≤ maxMillis
  deriving DecidableEq

structure Instant where
  millis : Nat
  bounded : millis ≤ maxMillis
  deriving DecidableEq

def secondsText (millis : Nat) : String :=
  String.ofList (Text.decimal (millis / 1000) ++ '.' :: Text.padded 10 3 (millis % 1000) ++ ['s'])

namespace Duration

def ofMillis (n : Nat) : Duration := ⟨min n maxMillis, Nat.min_le_right _ _⟩

def ofSeconds (n : Nat) : Duration := ofMillis (1000 * n)

def zero : Duration := ofMillis 0

def add (a b : Duration) : Duration := ofMillis (a.millis + b.millis)

def scale (a : Duration) (factor : Nat) : Duration := ofMillis (a.millis * factor)

def sub? (a b : Duration) : Option Duration :=
  if b.millis ≤ a.millis then some (ofMillis (a.millis - b.millis)) else none

instance : Add Duration := ⟨add⟩
instance : Inhabited Duration := ⟨zero⟩
instance : LE Duration := ⟨fun a b => a.millis ≤ b.millis⟩
instance : ToString Duration := ⟨fun a => secondsText a.millis⟩

instance (a b : Duration) : Decidable (a ≤ b) := inferInstanceAs (Decidable (a.millis ≤ b.millis))

theorem le_iff (a b : Duration) : a ≤ b ↔ a.millis ≤ b.millis := Iff.rfl

theorem millis_add (a b : Duration) : (a + b).millis = min (a.millis + b.millis) maxMillis := rfl

theorem millis_scale (a : Duration) (factor : Nat) :
    (a.scale factor).millis = min (a.millis * factor) maxMillis := rfl

end Duration

namespace Instant

def ofMillis (n : Nat) : Instant := ⟨min n maxMillis, Nat.min_le_right _ _⟩

def ofSeconds (n : Nat) : Instant := ofMillis (1000 * n)

def zero : Instant := ofMillis 0

def add (t : Instant) (span : Duration) : Instant := ofMillis (t.millis + span.millis)

/-- The span from `earlier` to `later`, zero if it is the other way round. -/
def since (later earlier : Instant) : Duration := Duration.ofMillis (later.millis - earlier.millis)

instance : HAdd Instant Duration Instant := ⟨add⟩
instance : Inhabited Instant := ⟨zero⟩
instance : LE Instant := ⟨fun a b => a.millis ≤ b.millis⟩
instance : LT Instant := ⟨fun a b => a.millis < b.millis⟩
instance : ToString Instant := ⟨fun t => secondsText t.millis⟩

instance (a b : Instant) : Decidable (a ≤ b) := inferInstanceAs (Decidable (a.millis ≤ b.millis))
instance (a b : Instant) : Decidable (a < b) := inferInstanceAs (Decidable (a.millis < b.millis))

theorem le_iff (a b : Instant) : a ≤ b ↔ a.millis ≤ b.millis := Iff.rfl

theorem lt_iff (a b : Instant) : a < b ↔ a.millis < b.millis := Iff.rfl

theorem millis_add (t : Instant) (span : Duration) :
    (t + span).millis = min (t.millis + span.millis) maxMillis := rfl

end Instant

end NetStack
