import NetStack.Proofs.Machine.Field
import NetStack.Proofs.Text.Addresses

namespace NetStack

namespace Machine

open Text (digit? number? splitOnce?)

def mul32 (a b : Nat) : Option Nat := if a * b < 0x100000000 then some (a * b) else none

def addDigits (radix : Nat) : List Char → Nat → Option (Option Nat)
  | [], total => some (some total)
  | c :: rest, total =>
    match digit? radix c with
    | none => some none
    | some digit => do addDigits radix rest (← add32 (← mul32 total radix) digit)

/-- How many octets encode a text. -/
def size (text : List Char) : Nat := (text.map Char.utf8Size).sum

def readNumber (radix most limit : Nat) (text : List Char) : Option (Option Nat) := do
  if text = [] ∨ most < size text then return none
  else
    match ← addDigits radix text 0 with
    | none => return none
    | some value => return if value < limit then some value else none

def readOctets (radix most : Nat) : Nat → List (List Char) → Option (Option Bytes)
  | 0, [] => some (some [])
  | 0, _ :: _ => some none
  | _ + 1, [] => some none
  | count + 1, part :: rest => do
    match ← readNumber radix most 0x100 part with
    | none => return none
    | some value => return (← readOctets radix most count rest).map (.ofNat value :: ·)

def readHardware (text : List Char) : Option (Option Ethernet.Address) := do
  let separator := if '-' ∈ text then '-' else ':'
  return (← readOctets 16 2 6 (text.splitOn separator)).bind Ethernet.Address.ofOctets?

def readAddress (text : List Char) : Option (Option Ipv4.Address) := do
  match ← readOctets 10 3 4 (text.splitOn '.') with
  | some [a, b, c, d] => return some (.ofOctets a b c d)
  | _ => return none

/-- A length beyond the bits of an address is a fault. -/
def readNetwork (text : List Char) : Option (Option Ipv4.Cidr) :=
  match splitOnce? '/' text with
  | none => some none
  | some (front, back) => do
    match ← readNumber 10 2 33 back with
    | none => return none
    | some length =>
      match ← readAddress front with
      | none => return none
      | some address => return some (← Ipv4.Cidr.make? address length)

def readEndpoint (text : List Char) : Option (Option Ipv4.Endpoint) :=
  match splitOnce? ':' text with
  | none => do return (← readAddress text).map (⟨·, 0⟩)
  | some (front, back) => do
    match ← readNumber 10 5 0x10000 back with
    | none => return none
    | some port => return (← readAddress front).map (⟨·, .ofNat port⟩)

section Number

variable {radix most limit : Nat} {text : List Char}

theorem digit?_lt {c : Char} {digit : Nat} (read : digit? radix c = some digit) :
    digit < radix :=
  of_decide_eq_true (Option.filter_eq_some_iff.mp read).2

/-- There is room as long as one more than the number, with all the places to come, fits. -/
theorem addDigits_eq (positive : 0 < radix) (text : List Char) (total : Nat)
    (room : (total + 1) * radix ^ text.length ≤ 0x100000000) :
    addDigits radix text total = some ((text.mapM (digit? radix)).map fun digits =>
      digits.foldl (fun value digit => radix * value + digit) total) := by
  induction text generalizing total with
  | nil => rfl
  | cons c rest ih =>
    unfold addDigits
    rw [List.mapM_cons]
    cases read : digit? radix c with
    | none => rfl
    | some digit =>
      have below := digit?_lt read
      have next : radix * total + digit + 1 ≤ (total + 1) * radix := by
        rw [Nat.add_mul, Nat.one_mul, Nat.mul_comm total]
        omega
      have places : 0 < radix ^ rest.length := Nat.pow_pos positive
      have room' : (radix * total + digit + 1) * radix ^ rest.length ≤ 0x100000000 :=
        calc (radix * total + digit + 1) * radix ^ rest.length
          _ ≤ (total + 1) * radix * radix ^ rest.length := Nat.mul_le_mul_right _ next
          _ = (total + 1) * radix ^ (c :: rest).length := by
            rw [List.length_cons, Nat.pow_succ', Nat.mul_assoc]
          _ ≤ 0x100000000 := room
      have small : radix * total + digit + 1 ≤ 0x100000000 :=
        Nat.le_trans (Nat.le_mul_of_pos_right _ places) room'
      have product : mul32 total radix = some (radix * total) := by
        rw [mul32, Nat.mul_comm, if_pos (by omega)]
      dsimp only
      rw [product, Option.bind_eq_bind, Option.bind_some, add32_eq (by omega), Option.bind_eq_bind,
        Option.bind_some, ih _ room']
      cases rest.mapM (digit? radix) <;> rfl

theorem length_le_size (text : List Char) : text.length ≤ size text := by
  induction text with
  | nil => exact Nat.le_refl _
  | cons c rest ih =>
    have positive := c.utf8Size_pos
    unfold size at ih ⊢
    rw [List.length_cons, List.map_cons, List.sum_cons]
    omega

theorem size_eq_length (digits : ∀ c ∈ text, ∃ digit, Text.IsDigit c digit) :
    size text = text.length := by
  induction text with
  | nil => rfl
  | cons c rest ih =>
    rw [List.forall_mem_cons] at digits
    obtain ⟨⟨digit, is_digit⟩, digits⟩ := digits
    have single : c.utf8Size = 1 := by
      have ascii : c.val.toNat ≤ 0x7f := Nat.le_of_lt_succ is_digit.ascii
      exact if_pos (UInt32.le_iff_toNat_le.mpr ascii)
    have rest_size := ih digits
    unfold size at rest_size ⊢
    rw [List.map_cons, List.sum_cons, single, rest_size, List.length_cons, Nat.add_comm]

theorem readNumber_eq (positive : 0 < radix) (small : radix ≤ 16)
    (fits : radix ^ most ≤ 0x100000000) (limit : Nat) (text : List Char) :
    readNumber radix most limit text = some (number? radix most limit text) := by
  unfold readNumber
  split
  · rename_i refused
    cases read : number? radix most limit text with
    | none => rfl
    | some value =>
      obtain ⟨numeral, _⟩ := (Text.number?_eq_some_iff small).mp read
      have size := size_eq_length fun c member => numeral.mem member
      have short := numeral.2.1
      exact absurd refused (not_or.mpr ⟨numeral.1, by omega⟩)
  · rename_i accepted
    obtain ⟨something, short⟩ := not_or.mp accepted
    have length := length_le_size text
    have places : (0 + 1) * radix ^ text.length ≤ 0x100000000 := by
      rw [Nat.zero_add, Nat.one_mul]
      exact Nat.le_trans (Nat.pow_le_pow_right positive (by omega)) fits
    have admitted : text ≠ [] ∧ text.length ≤ most := ⟨something, by omega⟩
    rw [addDigits_eq positive text 0 places, number?, guard, if_pos admitted]
    cases text.mapM (digit? radix) with
    | none => rfl
    | some digits =>
      show some (if Text.ofDigits radix digits < limit then some (Text.ofDigits radix digits)
        else none) = some _
      by_cases below : Text.ofDigits radix digits < limit
      · simp [below]
      · simp [below]

end Number

section Address

variable {radix most : Nat}

theorem readOctets_eq (positive : 0 < radix) (small : radix ≤ 16)
    (fits : radix ^ most ≤ 0x100000000) (count : Nat) (parts : List (List Char)) :
    readOctets radix most count parts =
      some ((parts.mapM (number? radix most 0x100)).bind fun values =>
        if values.length = count then some (values.map UInt8.ofNat) else none) := by
  induction count generalizing parts with
  | zero =>
    cases parts with
    | nil => rfl
    | cons part rest =>
      unfold readOctets
      rw [List.mapM_cons]
      cases number? radix most 0x100 part with
      | none => rfl
      | some value =>
        cases rest.mapM (number? radix most 0x100) with
        | none => rfl
        | some values => simp
  | succ count ih =>
    cases parts with
    | nil => rfl
    | cons part rest =>
      unfold readOctets
      rw [List.mapM_cons, readNumber_eq positive small fits, ih]
      cases number? radix most 0x100 part with
      | none => rfl
      | some value =>
        cases rest.mapM (number? radix most 0x100) with
        | none => rfl
        | some values =>
          by_cases all : values.length = count
          · simp [all]
          · simp [all]

theorem readHardware_eq (text : List Char) :
    readHardware text = some (Ethernet.Address.ofChars? text) := by
  unfold readHardware Ethernet.Address.ofChars?
  dsimp only
  rw [readOctets_eq (by decide) (by decide) (by decide)]
  generalize (if '-' ∈ text then '-' else ':') = separator
  cases (text.splitOn separator).mapM (number? 16 2 0x100) with
  | none => rfl
  | some values =>
    show some (Option.bind (if values.length = 6 then some (values.map UInt8.ofNat) else none)
      Ethernet.Address.ofOctets?) = some (Ethernet.Address.ofOctets? (values.map UInt8.ofNat))
    by_cases six : values.length = 6
    · rw [if_pos six, Option.bind_some]
    · cases made : Ethernet.Address.ofOctets? (values.map UInt8.ofNat) with
      | none => rw [if_neg six, Option.bind_none]
      | some address =>
        have length := congrArg List.length (Ethernet.Address.octets_of_ofOctets? made)
        rw [List.length_map, Ethernet.Address.octets_length] at length
        exact absurd length.symm six

theorem readAddress_eq (text : List Char) :
    readAddress text = some (Ipv4.Address.ofChars? text) := by
  unfold readAddress Ipv4.Address.ofChars?
  rw [readOctets_eq (by decide) (by decide) (by decide)]
  cases (text.splitOn '.').mapM (number? 10 3 0x100) with
  | none => rfl
  | some values =>
    match values with
    | [] | [_] | [_, _] | [_, _, _] | [_, _, _, _] => rfl
    | _ :: _ :: _ :: _ :: _ :: _ => simp

theorem readNetwork_eq (text : List Char) :
    readNetwork text = some (Ipv4.Cidr.ofChars? text) := by
  unfold readNetwork Ipv4.Cidr.ofChars?
  cases splitOnce? '/' text with
  | none => rfl
  | some parts =>
    obtain ⟨front, back⟩ := parts
    dsimp only
    rw [readNumber_eq (by decide) (by decide) (by decide), readAddress_eq]
    simp only [Option.bind_eq_bind, Option.bind_some]
    cases read : number? 10 2 33 back with
    | none => rfl
    | some length =>
      obtain ⟨_, below⟩ := (Text.number?_eq_some_iff (by decide)).mp read
      cases Ipv4.Address.ofChars? front with
      | none => rfl
      | some address =>
        have made : Ipv4.Cidr.make? address length = some ⟨address, length, by omega⟩ :=
          dif_pos (by omega)
        simp only [Option.bind_some, made]
        rfl

theorem readEndpoint_eq (text : List Char) :
    readEndpoint text = some (Ipv4.Endpoint.ofChars? text) := by
  unfold readEndpoint Ipv4.Endpoint.ofChars?
  cases splitOnce? ':' text with
  | none =>
    dsimp only
    rw [readAddress_eq]
    cases Ipv4.Address.ofChars? text <;> rfl
  | some parts =>
    obtain ⟨front, back⟩ := parts
    dsimp only
    rw [readNumber_eq (by decide) (by decide) (by decide), readAddress_eq]
    cases number? 10 5 0x10000 back <;> cases Ipv4.Address.ofChars? front <;> rfl

end Address

end Machine

namespace Text

open Ethernet (Address)
open Ipv4 (Cidr Endpoint)

/-- A text is read without a fault, whatever it is. It is read as an address, a network or an
    endpoint just if it spells one, and what is written is read again. -/
theorem reads_what_is_spelled :
    (∀ text : String,
      Machine.readHardware text.toList = some (Address.parse? text) ∧
      Machine.readNetwork text.toList = some (Cidr.parse? text) ∧
      Machine.readEndpoint text.toList = some (Endpoint.parse? text) ∧
      (∀ address, Address.parse? text = some address ↔ address.Spelled text.toList) ∧
      (∀ network, Cidr.parse? text = some network ↔ network.Spelled text.toList) ∧
      ∀ endpoint, Endpoint.parse? text = some endpoint ↔ endpoint.Spelled text.toList) ∧
    (∀ address, Address.parse? (toString address) = some address) ∧
    (∀ network, Cidr.parse? (toString network) = some network) ∧
    ∀ endpoint, Endpoint.parse? (toString endpoint) = some endpoint := by
  refine ⟨fun text => ⟨Machine.readHardware_eq _, Machine.readNetwork_eq _,
    Machine.readEndpoint_eq _, fun address => Address.ofChars?_eq_some_iff,
    fun network => Cidr.ofChars?_eq_some_iff, fun endpoint => Endpoint.ofChars?_eq_some_iff⟩,
    fun address => ?_, fun network => ?_, fun endpoint => ?_⟩
  · show Address.ofChars? (String.ofList address.chars).toList = some address
    rw [String.toList_ofList]
    exact Address.ofChars?_eq_some_iff.mpr address.spelled_chars
  · show Cidr.ofChars? (String.ofList network.chars).toList = some network
    rw [String.toList_ofList]
    exact Cidr.ofChars?_eq_some_iff.mpr network.spelled_chars
  · show Endpoint.ofChars? (String.ofList endpoint.chars).toList = some endpoint
    rw [String.toList_ofList]
    exact Endpoint.ofChars?_eq_some_iff.mpr endpoint.spelled_chars

end Text

end NetStack
