namespace NetStack.Text

def digit? (radix : Nat) (c : Char) : Option Nat :=
  let value? :=
    if '0' ≤ c ∧ c ≤ '9' then some (c.toNat - '0'.toNat)
    else if 'a' ≤ c ∧ c ≤ 'z' then some (c.toNat - 'a'.toNat + 10)
    else if 'A' ≤ c ∧ c ≤ 'Z' then some (c.toNat - 'A'.toNat + 10)
    else none
  value?.filter (· < radix)

/-- The number that a string of digit values denotes, the first one the most significant. -/
def ofDigits (radix : Nat) (digits : List Nat) : Nat :=
  digits.foldl (fun value digit => radix * value + digit) 0

/-- Read between one and `maxDigits` digits that denote a number below `limit`. -/
def number? (radix maxDigits limit : Nat) (text : List Char) : Option Nat := do
  guard (text ≠ [] ∧ text.length ≤ maxDigits)
  let digits ← text.mapM (digit? radix)
  let value := ofDigits radix digits
  guard (value < limit)
  return value

/-- Part the text at the first separator, which is dropped; `none` if there is none. -/
def splitOnce? (separator : Char) (text : List Char) : Option (List Char × List Char) :=
  match text.dropWhile (· ≠ separator) with
  | [] => none
  | _ :: rest => some (text.takeWhile (· ≠ separator), rest)

def decimal (n : Nat) : List Char := Nat.toDigits 10 n

def padded (radix width n : Nat) : List Char :=
  let digits := Nat.toDigits radix n
  List.replicate (width - digits.length) '0' ++ digits

def hex (width n : Nat) : List Char := padded 16 width n

end NetStack.Text
