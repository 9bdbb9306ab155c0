import NetStack.Bytes

namespace NetStack.Machine

def wordLimit : Nat := 0x10000000000000000

/-- No slice is longer. -/
def sliceLimit : Nat := 0x7fffffffffffffff

def add (a b : Nat) : Option Nat := if a + b < wordLimit then some (a + b) else none

def sub (a b : Nat) : Option Nat := if b ≤ a then some (a - b) else none

def rem (a b : Nat) : Option Nat := if b = 0 then none else some (a % b)

def slice (data : Bytes) (start stop : Nat) : Option Bytes :=
  if start ≤ stop ∧ stop ≤ data.length then some ((data.take stop).drop start) else none

def splice (target : Bytes) (start : Nat) (source : Bytes) : Bytes :=
  target.take start ++ source ++ target.drop (start + source.length)

def copy (target : Bytes) (start stop : Nat) (source : Bytes) : Option Bytes :=
  if start ≤ stop ∧ stop ≤ target.length ∧ source.length = stop - start then
    some (splice target start source)
  else none

/-- Pass through the body until it is done. -/
def loop {σ : Type} (body : σ → Option (ForInStep σ)) (left : σ → Nat)
    (less : ∀ {s after}, body s = some (.yield after) → left after < left s) (s : σ) : Option σ :=
  match _ : body s with
  | none => none
  | some (.done after) => some after
  | some (.yield after) => loop body left less after
termination_by left s
decreasing_by exact less ‹_›

theorem add_eq {a b : Nat} (small : a + b < wordLimit) : add a b = some (a + b) := if_pos small

theorem eq_of_add {a b sum : Nat} (added : add a b = some sum) :
    sum = a + b ∧ sum < wordLimit := by
  unfold add at added
  split at added
  · cases added
    exact ⟨rfl, ‹_›⟩
  · nomatch added

theorem add_sizes {a b : Nat} (left : a ≤ sliceLimit) (right : b ≤ sliceLimit) :
    add a b = some (a + b) :=
  add_eq (Nat.lt_of_le_of_lt (Nat.add_le_add left right) (by decide))

theorem sub_eq {a b : Nat} (order : b ≤ a) : sub a b = some (a - b) := if_pos order

theorem rem_eq {a b : Nat} (positive : 0 < b) : rem a b = some (a % b) := if_neg (by omega)

theorem slice_eq {data : Bytes} {start stop : Nat} (order : start ≤ stop)
    (inside : stop ≤ data.length) : slice data start stop = some ((data.take stop).drop start) :=
  if_pos ⟨order, inside⟩

theorem slice_rest {data : Bytes} {start : Nat} (inside : start ≤ data.length) :
    slice data start data.length = some (data.drop start) := by
  rw [slice_eq inside (Nat.le_refl _), List.take_length]

theorem copy_eq {target source : Bytes} {start stop : Nat} (stop_eq : stop = start + source.length)
    (inside : stop ≤ target.length) : copy target start stop source =
      some (splice target start source) :=
  if_pos ⟨by omega, inside, by omega⟩

theorem splice_nil (target : Bytes) (start : Nat) : splice target start [] = target := by
  rw [splice, List.append_nil, List.length_nil, Nat.add_zero, List.take_append_drop]

theorem splice_length {target source : Bytes} {start : Nat}
    (inside : start + source.length ≤ target.length) :
    (splice target start source).length = target.length := by
  rw [splice, List.length_append, List.length_append, List.length_take, List.length_drop]
  omega

theorem splice_cons {target : Bytes} {start : Nat} (octet : UInt8) (rest : Bytes)
    (inside : start < target.length) :
    splice target start (octet :: rest) = splice (target.set start octet) (start + 1) rest := by
  have front : (target.set start octet).take (start + 1) = target.take start ++ [octet] := by
    rw [List.take_succ_eq_append_getElem (by rw [List.length_set]; exact inside),
      List.getElem_set_self, List.take_set_of_le (Nat.le_refl _)]
  have back : (target.set start octet).drop (start + 1 + rest.length) =
      target.drop (start + (octet :: rest).length) := by
    rw [List.drop_set_of_lt (by omega), List.length_cons]
    congr 1
    omega
  rw [splice, splice, front, back, List.append_assoc (target.take start) [octet]]
  rfl

section Loop

variable {σ : Type} {body : σ → Option (ForInStep σ)} {left : σ → Nat} {s after : σ}
  {less : ∀ {s after}, body s = some (.yield after) → left after < left s}

theorem loop_of_done (pass : body s = some (.done after)) : loop body left less s = some after := by
  rw [loop]
  split <;> simp_all

theorem loop_of_yield (pass : body s = some (.yield after)) :
    loop body left less s = loop body left less after := by
  rw [loop]
  split <;> simp_all

end Loop

end NetStack.Machine
