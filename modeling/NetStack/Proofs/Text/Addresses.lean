import Mathlib.Data.List.TakeWhile
import NetStack.Ethernet.Address
import NetStack.Ipv4.Cidr
import NetStack.Ipv4.Endpoint
import NetStack.Proofs.Text.Numerals

namespace NetStack

namespace Text

def Grouped (separator : Char) (radix most : Nat) (text : List Char) (octets : Bytes) : Prop :=
  ∃ groups, text = List.intercalate [separator] groups ∧
    List.Forall₂ (fun group octet => Numeral radix most group octet.toNat) groups octets

section Grouped

variable {separator : Char} {radix most : Nat} {text : List Char} {octets : Bytes}

theorem grouped_of_mapM (small : radix ≤ 16) {values : List Nat}
    (read : (text.splitOn separator).mapM (number? radix most 0x100) = some values) :
    Grouped separator radix most text (values.map UInt8.ofNat) := by
  refine ⟨text.splitOn separator, (List.intercalate_splitOn separator).symm, ?_⟩
  rw [List.forall₂_map_right_iff]
  refine (mapM_eq_some_iff.mp read).imp fun group value number => ?_
  obtain ⟨numeral, below⟩ := (number?_eq_some_iff small).mp number
  rw [UInt8.toNat_ofNat', Nat.mod_eq_of_lt below]
  exact numeral

theorem mem_intercalate {c : Char} {groups : List (List Char)}
    (member : c ∈ List.intercalate [separator] groups) :
    c = separator ∨ ∃ group ∈ groups, c ∈ group := by
  induction groups with
  | nil => cases member
  | cons first rest ih =>
    cases rest with
    | nil =>
      rw [List.intercalate_singleton] at member
      exact .inr ⟨first, List.mem_singleton_self first, member⟩
    | cons second rest =>
      rw [List.intercalate_cons_cons, List.mem_append, List.mem_append] at member
      rcases member with (inside | between) | behind
      · exact .inr ⟨first, List.mem_cons_self, inside⟩
      · exact .inl (List.mem_singleton.mp between)
      · rcases ih behind with separates | ⟨group, listed, inside⟩
        · exact .inl separates
        · exact .inr ⟨group, List.mem_cons_of_mem first listed, inside⟩

theorem exists_isDigit {groups : List (List Char)} {group : List Char}
    (numerals : List.Forall₂ (fun group octet => Numeral radix most group (UInt8.toNat octet))
      groups octets) (member : group ∈ groups) {c : Char} (inside : c ∈ group) :
    ∃ digit, IsDigit c digit := by
  obtain ⟨octet, numeral⟩ := exists_of_mem_left numerals member
  exact numeral.mem inside

theorem Grouped.not_mem (grouped : Grouped separator radix most text octets) {c : Char}
    (other : c ≠ separator) (no_digit : ∀ digit, ¬ IsDigit c digit) : c ∉ text := by
  obtain ⟨groups, rfl, numerals⟩ := grouped
  intro member
  rcases mem_intercalate member with separates | ⟨group, listed, inside⟩
  · exact other separates
  · obtain ⟨digit, is_digit⟩ := exists_isDigit numerals listed inside
    exact no_digit digit is_digit

theorem mapM_of_grouped (small : radix ≤ 16) (parted : ∀ digit, ¬ IsDigit separator digit)
    (something : octets ≠ []) (grouped : Grouped separator radix most text octets) :
    (text.splitOn separator).mapM (number? radix most 0x100) = some (octets.map UInt8.toNat) := by
  obtain ⟨groups, rfl, numerals⟩ := grouped
  have absent : ∀ group ∈ groups, separator ∉ group := by
    intro group member inside
    obtain ⟨digit, is_digit⟩ := exists_isDigit numerals member inside
    exact parted digit is_digit
  have some_groups : groups ≠ [] := by
    rintro rfl
    exact something (List.forall₂_nil_left_iff.mp numerals)
  rw [List.splitOn_intercalate separator absent some_groups, mapM_eq_some_iff,
    List.forall₂_map_right_iff]
  refine numerals.imp fun group octet numeral => ?_
  exact (number?_eq_some_iff small).mpr ⟨numeral, octet.toNat_lt⟩

theorem Grouped.separator_mem (grouped : Grouped separator radix most text octets)
    (two : 2 ≤ octets.length) : separator ∈ text := by
  obtain ⟨groups, rfl, numerals⟩ := grouped
  rw [← numerals.length_eq] at two
  match groups, two with
  | first :: second :: rest, _ => simp [List.intercalate, List.intersperse]

theorem grouped_intercalate {write : Nat → List Char}
    (writes : ∀ octet : UInt8, Numeral radix most (write octet.toNat) octet.toNat)
    (octets : Bytes) : Grouped separator radix most
      (List.intercalate [separator] (octets.map fun octet => write octet.toNat)) octets := by
  refine ⟨_, rfl, ?_⟩
  rw [List.forall₂_map_left_iff, List.forall₂_same]
  exact fun octet _ => writes octet

theorem ofNat_comp_toNat : UInt8.ofNat ∘ UInt8.toNat = id := by
  funext octet
  exact UInt8.ofNat_toNat

end Grouped

section Split

variable {separator : Char} {text front back : List Char}

theorem splitOnce?_of_not_mem (absent : separator ∉ text) : splitOnce? separator text = none := by
  have none_left : text.dropWhile (· ≠ separator) = [] := by
    rw [List.dropWhile_eq_nil_iff]
    intro c member
    exact decide_eq_true fun same => absent (same ▸ member)
  rw [splitOnce?, none_left]

theorem splitOnce?_append (absent : separator ∉ front) (back : List Char) :
    splitOnce? separator (front ++ separator :: back) = some (front, back) := by
  have others : ∀ c ∈ front, decide (c ≠ separator) = true := fun c member =>
    decide_eq_true fun same => absent (same ▸ member)
  have rest : List.dropWhile (fun c => decide (c ≠ separator)) (separator :: back) =
      separator :: back := List.dropWhile_cons_of_neg (by simp)
  have nothing : List.takeWhile (fun c => decide (c ≠ separator)) (separator :: back) = [] :=
    List.takeWhile_cons_of_neg (by simp)
  rw [splitOnce?, List.dropWhile_append_of_pos others, List.takeWhile_append_of_pos others, rest,
    nothing, List.append_nil]

theorem eq_append_of_splitOnce? (found : splitOnce? separator text = some (front, back)) :
    text = front ++ separator :: back := by
  by_cases member : separator ∈ text
  · obtain ⟨before, after, rfl, absent⟩ := List.eq_append_cons_of_mem member
    rw [splitOnce?_append absent] at found
    cases found
    rfl
  · rw [splitOnce?_of_not_mem member] at found
    cases found

end Split

theorem not_isDigit {c : Char} (parts : c ∈ [':', '-', '.', '/']) (digit : Nat) :
    ¬ IsDigit c digit := by
  intro is_digit
  have refused : digit? 16 c = none := by
    simp only [List.mem_cons, List.not_mem_nil, or_false] at parts
    rcases parts with rfl | rfl | rfl | rfl <;> rfl
  rw [is_digit.digit?_eq] at refused
  cases refused

end Text

namespace Ethernet.Address

/-- Six hexadecimal octets of one or two digits, with colons between all or hyphens between all. -/
def Spelled (address : Address) (text : List Char) : Prop :=
  Text.Grouped ':' 16 2 text address.octets ∨ Text.Grouped '-' 16 2 text address.octets

variable {address : Address} {text : List Char}

theorem ofChars?_eq_some_iff : ofChars? text = some address ↔ address.Spelled text := by
  have read_iff (separator : Char) (parts : separator ∈ [':', '-', '.', '/']) :
      ((text.splitOn separator).mapM (Text.number? 16 2 0x100) >>= fun octets =>
        ofOctets? (octets.map UInt8.ofNat)) = some address ↔
          Text.Grouped separator 16 2 text address.octets := by
    rw [Option.bind_eq_bind, Option.bind_eq_some_iff]
    constructor
    · rintro ⟨values, read, made⟩
      rw [octets_of_ofOctets? made]
      exact Text.grouped_of_mapM (by decide) read
    · intro grouped
      refine ⟨_, Text.mapM_of_grouped (by decide) (Text.not_isDigit parts) (List.cons_ne_nil _ _)
        grouped, ?_⟩
      rw [List.map_map, Text.ofNat_comp_toNat, List.map_id]
      exact ofOctets?_octets address
  unfold ofChars? Spelled
  dsimp only
  by_cases hyphens : '-' ∈ text
  · rw [if_pos hyphens, read_iff '-' (by decide)]
    refine ⟨.inr, fun spelled => spelled.resolve_left fun grouped => ?_⟩
    exact grouped.not_mem (by decide) (Text.not_isDigit (by decide)) hyphens
  · rw [if_neg hyphens, read_iff ':' (by decide)]
    refine ⟨.inl, fun spelled => spelled.resolve_right fun grouped => ?_⟩
    exact hyphens (grouped.separator_mem (by rw [octets_length]; decide))

theorem spelled_chars (address : Address) : address.Spelled address.chars :=
  .inl (Text.grouped_intercalate (fun octet => Text.numeral_hex (by decide) octet.toNat_lt) _)

end Ethernet.Address

namespace Ipv4

/-- Four decimal octets of one to three digits, with dots between them. -/
def Address.Spelled (address : Address) (text : List Char) : Prop :=
  Text.Grouped '.' 10 3 text address.octets

/-- An address, a slash, and how many leading bits count, in one or two digits. -/
def Cidr.Spelled (network : Cidr) (text : List Char) : Prop :=
  ∃ front back, text = front ++ '/' :: back ∧ network.address.Spelled front ∧
    Text.Numeral 10 2 back network.length

/-- An address alone for port zero, or with a colon and a port of one to five digits. -/
def Endpoint.Spelled (endpoint : Endpoint) (text : List Char) : Prop :=
  endpoint.address.Spelled text ∧ endpoint.port = 0 ∨
    ∃ front back, text = front ++ ':' :: back ∧ endpoint.address.Spelled front ∧
      Text.Numeral 10 5 back endpoint.port.toNat

variable {text : List Char}

theorem Address.octets_ofOctets (a b c d : UInt8) : (ofOctets a b c d).octets = [a, b, c, d] :=
  Bytes.ofWord32_word32 a b c d

theorem Address.ofChars?_eq_some_iff {address : Address} :
    ofChars? text = some address ↔ address.Spelled text := by
  unfold ofChars? Spelled
  rw [Option.bind_eq_bind, Option.bind_eq_some_iff]
  constructor
  · rintro ⟨values, read, made⟩
    split at made
    · cases made
      rw [octets_ofOctets]
      exact Text.grouped_of_mapM (by decide) read
    · cases made
  · intro grouped
    refine ⟨_, Text.mapM_of_grouped (by decide) (Text.not_isDigit (by decide))
      (List.cons_ne_nil _ _) grouped, ?_⟩
    obtain ⟨bits⟩ := address
    show some (ofOctets (.ofNat (UInt8.toNat _)) (.ofNat (UInt8.toNat _)) (.ofNat (UInt8.toNat _))
      (.ofNat (UInt8.toNat _))) = _
    rw [UInt8.ofNat_toNat, UInt8.ofNat_toNat, UInt8.ofNat_toNat, UInt8.ofNat_toNat]
    exact congrArg (some ∘ mk) (Bytes.word32_ofWord32 bits)

theorem Address.spelled_chars (address : Address) : address.Spelled address.chars :=
  Text.grouped_intercalate (fun octet => Text.numeral_decimal (by decide)
    (Nat.lt_trans octet.toNat_lt (by decide))) _

theorem Address.Spelled.not_mem {address : Address} (spelled : address.Spelled text) {c : Char}
    (other : c ≠ '.') (parts : c ∈ [':', '-', '.', '/']) : c ∉ text :=
  Text.Grouped.not_mem spelled other (Text.not_isDigit parts)

theorem Cidr.ofChars?_eq_some_iff {network : Cidr} :
    ofChars? text = some network ↔ network.Spelled text := by
  unfold ofChars? Spelled
  simp only [Option.bind_eq_bind, Option.bind_eq_some_iff]
  constructor
  · rintro ⟨⟨front, back⟩, found, length, read_length, address, read, made⟩
    unfold make? at made
    split at made
    · cases made
      exact ⟨front, back, Text.eq_append_of_splitOnce? found,
        Address.ofChars?_eq_some_iff.mp read,
        ((Text.number?_eq_some_iff (by decide)).mp read_length).1⟩
    · cases made
  · rintro ⟨front, back, rfl, spelled, numeral⟩
    have absent : '/' ∉ front := spelled.not_mem (by decide) (by decide)
    exact ⟨(front, back), Text.splitOnce?_append absent back, network.length,
      (Text.number?_eq_some_iff (by decide)).mpr ⟨numeral, Nat.lt_succ_of_le network.length_le⟩,
      network.address, Address.ofChars?_eq_some_iff.mpr spelled, dif_pos network.length_le⟩

theorem Cidr.spelled_chars (network : Cidr) : network.Spelled network.chars :=
  ⟨_, _, rfl, network.address.spelled_chars,
    Text.numeral_decimal (by decide) (Nat.lt_of_le_of_lt network.length_le (by decide))⟩

theorem Endpoint.ofChars?_eq_some_iff {endpoint : Endpoint} :
    ofChars? text = some endpoint ↔ endpoint.Spelled text := by
  unfold ofChars? Spelled
  constructor
  · intro read
    split at read
    · obtain ⟨address, spelled, made⟩ := Option.bind_eq_some_iff.mp read
      cases made
      exact .inl ⟨Address.ofChars?_eq_some_iff.mp spelled, rfl⟩
    · rename_i front back found
      obtain ⟨port, read_port, read⟩ := Option.bind_eq_some_iff.mp read
      obtain ⟨address, spelled, made⟩ := Option.bind_eq_some_iff.mp read
      cases made
      obtain ⟨numeral, below⟩ := (Text.number?_eq_some_iff (by decide)).mp read_port
      refine .inr ⟨front, back, Text.eq_append_of_splitOnce? found,
        Address.ofChars?_eq_some_iff.mp spelled, ?_⟩
      rw [UInt16.toNat_ofNat', Nat.mod_eq_of_lt below]
      exact numeral
  · rintro (⟨spelled, open_port⟩ | ⟨front, back, rfl, spelled, numeral⟩)
    · rw [Text.splitOnce?_of_not_mem (spelled.not_mem (by decide) (by decide))]
      dsimp only
      rw [Address.ofChars?_eq_some_iff.mpr spelled, Option.bind_eq_bind, Option.bind_some,
        ← open_port]
      rfl
    · rw [Text.splitOnce?_append (spelled.not_mem (by decide) (by decide)) back]
      dsimp only
      rw [(Text.number?_eq_some_iff (by decide)).mpr ⟨numeral, endpoint.port.toNat_lt⟩,
        Address.ofChars?_eq_some_iff.mpr spelled, Option.bind_eq_bind, Option.bind_some,
        Option.bind_eq_bind, Option.bind_some, UInt16.ofNat_toNat]
      rfl

theorem Endpoint.spelled_chars (endpoint : Endpoint) : endpoint.Spelled endpoint.chars :=
  .inr ⟨_, _, rfl, endpoint.address.spelled_chars,
    Text.numeral_decimal (by decide) (Nat.lt_trans endpoint.port.toNat_lt (by decide))⟩

end Ipv4

end NetStack
