namespace NetStack.Link

/-- At most one entry for each key. The order of the entries matters only for which of several goes
first when one has to give way. -/
structure SlotTable (Key Value : Type) (slots : Nat) where
  entries : List (Key × Value)
  deriving DecidableEq

namespace SlotTable

variable {Key Value : Type} [DecidableEq Key] {slots : Nat}

def empty : SlotTable Key Value slots := ⟨[]⟩

def count (table : SlotTable Key Value slots) : Nat := table.entries.length

def get? (table : SlotTable Key Value slots) (key : Key) : Option Value := table.entries.lookup key

def contains (table : SlotTable Key Value slots) (key : Key) : Bool := (table.get? key).isSome

def insert? (table : SlotTable Key Value slots) (key : Key) (value : Value) :
    Option (SlotTable Key Value slots) :=
  if table.contains key then
    some ⟨table.entries.map fun entry => if entry.1 = key then (key, value) else entry⟩
  else if table.count < slots then
    some ⟨table.entries ++ [(key, value)]⟩
  else
    none

/-- Take a key out. The last entry moves into its slot. -/
def erase (table : SlotTable Key Value slots) (key : Key) : SlotTable Key Value slots :=
  if table.contains key then
    match table.entries.getLast? with
    | none => table
    | some last => ⟨table.entries.dropLast.map fun entry => if entry.1 = key then last else entry⟩
  else
    table

def lowest? (table : SlotTable Key Value slots) (rank : Value → Nat) : Option (Key × Value) :=
  match table.entries with
  | [] => none
  | first :: rest =>
    some (rest.foldl (fun best entry => if rank entry.2 < rank best.2 then entry else best) first)

/-- Give a key a value. If every slot is taken, the first entry that ranks lowest gives way. -/
def put (table : SlotTable Key Value slots) (rank : Value → Nat) (key : Key) (value : Value) :
    SlotTable Key Value slots :=
  match table.insert? key value with
  | some filled => filled
  | none =>
    match table.lowest? rank with
    | none => table
    | some (lowest, _) => ((table.erase lowest).insert? key value).getD table

def eraseWhere (table : SlotTable Key Value slots) (test : Value → Bool) :
    SlotTable Key Value slots :=
  let doomed := table.entries.filter fun entry => test entry.2
  doomed.foldl (fun left entry => left.erase entry.1) table

end SlotTable

end NetStack.Link
