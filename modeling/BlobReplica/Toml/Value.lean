/-! Values of configuration documents, and the rules by which keys and headers add to a table. A
table remembers how it came to be, because that decides what may still be added to it. -/

namespace BlobReplica.Toml

/-- How a table came to be. -/
inductive Standing where
  /-- By a header of its own, or as the whole document. -/
  | declared
  /-- On the way to the table of another header. -/
  | implied
  /-- By a key with dots. -/
  | dotted
  /-- Between braces; nothing is added to it from outside. -/
  | closed
deriving DecidableEq, Repr

/-- A value. Numbers with a fraction and times are told apart from all else, but not kept. -/
inductive Value where
  | string (text : String)
  | integer (n : Int)
  | fractional
  | boolean (b : Bool)
  | time
  | array (items : List Value)
  | table (standing : Standing) (entries : List (String × Value))
  /-- Tables that a header adds one by one; the last is open. -/
  | tables (elements : List (List (String × Value)))

/-- The entries of a table in the order in which they were made. -/
abbrev Entries := List (String × Value)

/-- A key: the tables on the way and the name in the last of them. -/
structure Path where
  before : List String
  name : String
deriving DecidableEq, Repr

namespace Path

def ofNames? : List String → Option Path
  | [] => none
  | [name] => some ⟨[], name⟩
  | step :: rest => (ofNames? rest).map fun p => { p with before := step :: p.before }

def names (p : Path) : List String :=
  p.before ++ [p.name]

end Path

namespace Entries

def get? (entries : Entries) (name : String) : Option Value :=
  (entries.find? (·.1 == name)).map (·.2)

def has (entries : Entries) (name : String) : Bool :=
  entries.any (·.1 == name)

def replace (entries : Entries) (name : String) (value : Value) : Entries :=
  entries.map fun e => if e.1 == name then (name, value) else e

/-- Changes the table that the names lead to, making the missing tables on the way. A key with
dots does not enter tables that a header declared; of tables added one by one the last is meant. -/
def alter (isKey : Bool) (change : Standing → Entries → Option Entries) :
    List String → Standing → Entries → Option Entries
  | [], standing, entries => change standing entries
  | name :: rest, _, entries =>
    match Entries.get? entries name with
    | none => do
      let standing := if isKey then .dotted else .implied
      let inner ← alter isKey change rest standing []
      return entries ++ [(name, .table standing inner)]
    | some (.table standing inner) => do
      guard (standing ≠ .closed ∧ ¬(isKey ∧ standing = .declared))
      let inner ← alter isKey change rest standing inner
      return Entries.replace entries name (.table standing inner)
    | some (.tables elements) => do
      let inner ← alter isKey change rest .declared (elements.getLastD [])
      return Entries.replace entries name (.tables (elements.dropLast ++ [inner]))
    | some _ => none

/-- Gives a key its value. A name is given a value once, and a key with dots ends in a table that
keys with dots made. -/
def assign (key : Path) (value : Value) (standing : Standing) (entries : Entries) :
    Option Entries :=
  alter true (fun last inner =>
    if (last = .dotted) ≠ (key.before ≠ []) ∨ Entries.has inner key.name then none
    else some (inner ++ [(key.name, value)])) key.before standing entries

/-- Declares the table of a header. Only a table that other headers implied may exist already. -/
def declareTable (header : Path) (entries : Entries) : Option Entries :=
  alter false (fun _ inner =>
    match Entries.get? inner header.name with
    | none => some (inner ++ [(header.name, .table .declared [])])
    | some (.table .implied kept) =>
      some (Entries.replace inner header.name (.table .declared kept))
    | some _ => none) header.before .declared entries

def addElement (header : Path) (entries : Entries) : Option Entries :=
  alter false (fun _ inner =>
    match Entries.get? inner header.name with
    | none => some (inner ++ [(header.name, .tables [[]])])
    | some (.tables elements) =>
      some (Entries.replace inner header.name (.tables (elements ++ [[]])))
    | some _ => none) header.before .declared entries

/-- Gives a key its value in the table that the last header opened. -/
def assignUnder (header : List String) (key : Path) (value : Value) (entries : Entries) :
    Option Entries :=
  alter false (assign key value) header .declared entries

end Entries
end BlobReplica.Toml
