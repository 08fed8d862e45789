import BlobReplica.Toml.Statement

/-! Configuration documents: the table that a text describes. -/

namespace BlobReplica.Toml

/-- A document while its statements are carried out: the whole table and the names in the last
header. -/
structure Draft where
  entries : Entries := []
  header : List String := []

def Draft.add (d : Draft) : Statement → Option Draft
  | .assign key value => do
    return { d with entries := ← Entries.assignUnder d.header key value d.entries }
  | .table header => do
    return ⟨← Entries.declareTable header d.entries, header.names⟩
  | .element header => do
    return ⟨← Entries.addElement header d.entries, header.names⟩

def parse? (s : String) : Option Value := do
  let d ← (← statements.whole s).foldlM Draft.add {}
  return .table .declared d.entries

/-- The fields of a record with the given names: the entries of a table, or the items of an array
in the order of the names. A time has none of them. -/
def Value.fields? (names : List String) : Value → Option Entries
  | .table _ entries => some entries
  | .array items => some (names.zip items)
  | .tables elements => some (names.zip (elements.map (.table .declared)))
  | .time => some []
  | _ => none

def Value.natural? (bound : Nat) : Value → Option Nat
  | .integer n => if 0 ≤ n ∧ n ≤ bound then some n.toNat else none
  | _ => none

def Value.string? : Value → Option String
  | .string s => some s
  | _ => none

def Value.boolean? : Value → Option Bool
  | .boolean b => some b
  | _ => none

/-- A field as `read` understands it, or its default if there is none. -/
def Entries.field? {α : Type} (fields : Entries) (name : String) (default : α)
    (read : Value → Option α) : Option α :=
  match Entries.get? fields name with
  | none => some default
  | some v => read v

end BlobReplica.Toml
