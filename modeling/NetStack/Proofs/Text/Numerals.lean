import Mathlib.Data.List.Forall2
import Mathlib.Data.Nat.Digits.Defs
import NetStack.Text.Numeral

namespace NetStack.Text

def lowerDigits : List Char := "0123456789abcdef".toList

def upperDigits : List Char := "0123456789ABCDEF".toList

/-- The character is the digit for a value, in either case. -/
def IsDigit (c : Char) (value : Nat) : Prop :=
  lowerDigits[value]? = some c ∨ upperDigits[value]? = some c

/-- Digits, at least one and not more than allowed, that denote a number. -/
def Numeral (radix most : Nat) (text : List Char) (value : Nat) : Prop :=
  text ≠ [] ∧ text.length ≤ most ∧ ∃ digits,
    List.Forall₂ (fun c digit => IsDigit c digit ∧ digit < radix) text digits ∧
      Nat.ofDigits radix digits.reverse = value

section Digit

variable {radix value : Nat} {c : Char}

theorem IsDigit.lt (digit : IsDigit c value) : value < 16 := by
  rcases digit with lower | upper
  · exact (List.getElem?_eq_some_iff.mp lower).1
  · exact (List.getElem?_eq_some_iff.mp upper).1

theorem IsDigit.ascii (digit : IsDigit c value) : c.toNat < 0x80 := by
  have all : (lowerDigits ++ upperDigits).all (fun c => c.toNat < 0x80) = true := by decide
  refine of_decide_eq_true (List.all_eq_true.mp all c ?_)
  rcases digit with lower | upper
  · exact List.mem_append_left _ (List.mem_of_getElem? lower)
  · exact List.mem_append_right _ (List.mem_of_getElem? upper)

theorem IsDigit.digit?_eq (digit : IsDigit c value) : digit? 16 c = some value := by
  have reads : ∀ value < 16, lowerDigits[value]?.bind (digit? 16) = some value ∧
      upperDigits[value]?.bind (digit? 16) = some value := by decide
  obtain ⟨of_lower, of_upper⟩ := reads value digit.lt
  rcases digit with lower | upper
  · rw [lower, Option.bind_some] at of_lower
    exact of_lower
  · rw [upper, Option.bind_some] at of_upper
    exact of_upper

theorem digit?_eq_filter (small : radix ≤ 16) (c : Char) :
    digit? radix c = (digit? 16 c).filter (· < radix) := by
  unfold digit?
  dsimp only
  rw [Option.filter_filter]
  congr 1
  funext digit
  rw [Bool.eq_iff_iff, Bool.and_eq_true, decide_eq_true_eq, decide_eq_true_eq]
  omega

theorem digit?_of_not_ascii (foreign : 0x80 ≤ c.toNat) : digit? radix c = none := by
  have above (last : Char) (ascii : last.toNat < 0x80) : ¬ c ≤ last := by
    intro order
    have order : c.toNat ≤ last.toNat := order
    omega
  simp only [digit?, above '9' (by decide), above 'z' (by decide), above 'Z' (by decide), and_false,
    if_false, Option.filter_none]

theorem isDigit_of_digit? (read : digit? 16 c = some value) : IsDigit c value := by
  have ascii : ∀ code < 0x80, (digit? 16 (Char.ofNat code)).all (fun value =>
      lowerDigits[value]? = some (Char.ofNat code) ∨
        upperDigits[value]? = some (Char.ofNat code)) = true := by
    decide +kernel
  by_cases foreign : 0x80 ≤ c.toNat
  · rw [digit?_of_not_ascii foreign] at read
    cases read
  · have digit := ascii c.toNat (by omega)
    rw [Char.ofNat_toNat, read, Option.all_some, decide_eq_true_eq] at digit
    exact digit

theorem digit?_eq_some_iff (small : radix ≤ 16) :
    digit? radix c = some value ↔ IsDigit c value ∧ value < radix := by
  rw [digit?_eq_filter small, Option.filter_eq_some_iff, decide_eq_true_eq]
  exact and_congr_left' ⟨isDigit_of_digit?, IsDigit.digit?_eq⟩

end Digit

section Number

theorem mapM_eq_some_iff {α β : Type} {read : α → Option β} {texts : List α} {values : List β} :
    texts.mapM read = some values ↔
      List.Forall₂ (fun text value => read text = some value) texts values := by
  induction texts generalizing values with
  | nil => simp [eq_comm]
  | cons first rest ih =>
    rw [List.mapM_cons, List.forall₂_cons_left_iff]
    simp only [Option.bind_eq_bind, Option.bind_eq_some_iff, Option.pure_def, Option.some.injEq, ih]
    constructor
    · rintro ⟨value, read_first, values, read_rest, rfl⟩
      exact ⟨value, values, read_first, read_rest, rfl⟩
    · rintro ⟨value, values, read_first, read_rest, rfl⟩
      exact ⟨value, read_first, values, read_rest, rfl⟩

theorem exists_of_mem_left {α β : Type} {related : α → β → Prop} {lefts : List α} {rights : List β}
    (pairs : List.Forall₂ related lefts rights) {left : α} (member : left ∈ lefts) :
    ∃ right, related left right := by
  induction pairs with
  | nil => cases member
  | @cons _ right _ _ pair _ ih =>
    rcases List.mem_cons.mp member with rfl | later
    · exact ⟨right, pair⟩
    · exact ih later

theorem ofDigits_eq (radix : Nat) (digits : List Nat) :
    ofDigits radix digits = Nat.ofDigits radix digits.reverse := by
  rw [Nat.ofDigits_eq_foldr, List.foldr_reverse, ofDigits]
  congr 1
  funext value digit
  exact Nat.add_comm _ _

variable {radix most limit value : Nat} {text : List Char}

theorem number?_eq_some_iff (small : radix ≤ 16) :
    number? radix most limit text = some value ↔
      Numeral radix most text value ∧ value < limit := by
  unfold number? Numeral
  simp only [Option.bind_eq_bind, Option.bind_eq_some_iff, Option.guard_eq_some', Option.pure_def,
    Option.some.injEq, mapM_eq_some_iff, digit?_eq_some_iff small, ofDigits_eq]
  constructor
  · rintro ⟨_, ⟨something, short⟩, digits, all, _, below, rfl⟩
    exact ⟨⟨something, short, digits, all, rfl⟩, below⟩
  · rintro ⟨⟨something, short, digits, all, rfl⟩, below⟩
    exact ⟨(), ⟨something, short⟩, digits, all, (), below, rfl⟩

theorem Numeral.mem (numeral : Numeral radix most text value) {c : Char} (member : c ∈ text) :
    ∃ digit, IsDigit c digit := by
  obtain ⟨_, _, digits, all, _⟩ := numeral
  obtain ⟨digit, is_digit, _⟩ := exists_of_mem_left all member
  exact ⟨digit, is_digit⟩

theorem exists_digits_toDigits (wide : 1 < radix) (small : radix ≤ 16) (n : Nat) : ∃ digits,
    List.Forall₂ (fun c digit => IsDigit c digit ∧ digit < radix) (Nat.toDigits radix n) digits ∧
      Nat.ofDigits radix digits.reverse = n := by
  have digitChar : ∀ digit < 16, lowerDigits[digit]? = some digit.digitChar := by decide
  induction n using Nat.strongRecOn with
  | ind n ih =>
    by_cases single : n < radix
    · rw [Nat.toDigits_of_lt_base single]
      exact ⟨[n], .cons ⟨.inl (digitChar n (by omega)), single⟩ .nil, by simp⟩
    · have last : n % radix < radix := Nat.mod_lt _ (by omega)
      obtain ⟨digits, all, whole⟩ := ih (n / radix) (Nat.div_lt_self (by omega) wide)
      rw [Nat.toDigits_of_base_le wide (by omega)]
      refine ⟨digits ++ [n % radix], ?_, ?_⟩
      · exact List.rel_append all (.cons ⟨.inl (digitChar _ (by omega)), last⟩ .nil)
      · rw [List.reverse_append, List.reverse_singleton, List.singleton_append, Nat.ofDigits_cons,
          whole]
        exact Nat.mod_add_div n radix

theorem numeral_toDigits (wide : 1 < radix) (small : radix ≤ 16) (positive : 0 < most)
    (bound : value < radix ^ most) : Numeral radix most (Nat.toDigits radix value) value := by
  refine ⟨?_, (Nat.length_toDigits_le_iff wide positive).mpr bound,
    exists_digits_toDigits wide small value⟩
  rw [← List.length_pos_iff_ne_nil]
  exact Nat.length_toDigits_pos

theorem Numeral.zero_cons (numeral : Numeral radix most text value) (positive : 0 < radix)
    (fits : text.length + 1 ≤ most) : Numeral radix most ('0' :: text) value := by
  obtain ⟨_, _, digits, all, whole⟩ := numeral
  refine ⟨List.cons_ne_nil _ _, fits, 0 :: digits, .cons ⟨.inl rfl, positive⟩ all, ?_⟩
  rw [List.reverse_cons, Nat.ofDigits_append, whole, Nat.ofDigits_singleton, Nat.mul_zero,
    Nat.add_zero]

theorem Numeral.zeros_append (numeral : Numeral radix most text value) (positive : 0 < radix)
    {zeros : Nat} (fits : zeros + text.length ≤ most) :
    Numeral radix most (List.replicate zeros '0' ++ text) value := by
  induction zeros with
  | zero => exact numeral
  | succ zeros ih =>
    rw [List.replicate_succ, List.cons_append]
    apply (ih (by omega)).zero_cons positive
    rw [List.length_append, List.length_replicate]
    omega

theorem numeral_decimal (positive : 0 < most) (bound : value < 10 ^ most) :
    Numeral 10 most (decimal value) value :=
  numeral_toDigits (by decide) (by decide) positive bound

theorem numeral_hex (positive : 0 < most) (bound : value < 16 ^ most) :
    Numeral 16 most (hex most value) value := by
  have numeral : Numeral 16 most (Nat.toDigits 16 value) value :=
    numeral_toDigits (by decide) (by decide) positive bound
  have short := numeral.2.1
  exact numeral.zeros_append (by decide) (by omega)

end Number

end NetStack.Text
