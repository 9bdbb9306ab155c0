import NetStack.Time

namespace NetStack.Tcp

structure Timer where
  initial : Duration
  timeout : Duration
  /-- The time since the countdown began; `none` while the timer is idle. -/
  elapsed : Option Duration
  /-- How many times in a row the timer expired without progress, counted in 32 bits. -/
  count : UInt32
  deriving DecidableEq

namespace Timer

def ofTimeout (initial : Duration) : Timer := ⟨initial, initial, none, 0⟩

def retries (timer : Timer) : Nat := timer.count.toNat

def isRunning (timer : Timer) : Bool := timer.elapsed.isSome

def start (timer : Timer) : Timer := ⟨timer.initial, timer.initial, some .zero, 0⟩

def close (timer : Timer) : Timer := ⟨timer.initial, timer.initial, none, 0⟩

def tick (timer : Timer) (span : Duration) : Bool × Timer :=
  match timer.elapsed with
  | none => (false, timer)
  | some elapsed =>
    let total := elapsed + span
    (decide (timer.timeout ≤ total), { timer with elapsed := some total })

/-- Count again after an expiry. The timeout doubles unless the peer's window is closed. -/
def backOff (timer : Timer) (windowOpen : Bool) : Timer :=
  { timer with
    timeout := if windowOpen then timer.timeout.scale 2 else timer.timeout
    elapsed := some .zero
    count := timer.count + 1 }

/-- Forget the expiries after progress, and count on only if something is still outstanding. -/
def reset (timer : Timer) (outstanding : Bool) : Timer :=
  if outstanding then timer.start else timer.close

inductive Op where
  | start
  | tick (span : Duration)
  | backOff (windowOpen : Bool)
  | reset (outstanding : Bool)
  | close
  deriving DecidableEq

def step (timer : Timer) : Op → Option Bool × Timer
  | .start => (none, timer.start)
  | .tick span =>
    let (expired, next) := timer.tick span
    (some expired, next)
  | .backOff windowOpen => (none, timer.backOff windowOpen)
  | .reset outstanding => (none, timer.reset outstanding)
  | .close => (none, timer.close)

end Timer

end NetStack.Tcp
