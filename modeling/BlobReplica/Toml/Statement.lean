import BlobReplica.Toml.Number
import BlobReplica.Toml.Text

/-! The statements of a configuration document: a key with its value, a header that declares a
table, and a header that adds one to a list of tables. -/

namespace BlobReplica.Toml

open Text (Reader)

inductive Statement where
  | assign (key : Path) (value : Value)
  | table (header : Path)
  | element (header : Path)

/-- Keys have fewer names than this, and arrays and tables in values nest less deep. -/
def maxDepth : Nat := 80

def isKeyChar (c : Char) : Bool :=
  c.isAlphanum || c == '_' || c == '-'

def name : Reader String := do
  match ← Reader.next? with
  | some '"' => quotedLine
  | some '\'' => literalLine
  | _ => return String.ofList (← Reader.someRun isKeyChar)

/-- Names with dots between them and blanks around them. -/
def key : Reader Path := do
  let names ← Reader.separated (do spaces; let n ← name; spaces; return n) '.'
  guard (names.length < maxDepth)
  StateT.lift (Path.ofNames? names)

def assignment (value : Reader Value) (after : Reader Unit) : Reader (Path × Value) := do
  let k ← key
  Reader.mark '='
  spaces
  let v ← value
  after
  return (k, v)

def boolean : Reader Value :=
  (do Reader.word "true".toList; return .boolean true) <|>
  (do Reader.word "false".toList; return .boolean false)

def array (value : Reader Value) : Reader Value := do
  Reader.mark '['
  let items ← Reader.separated (do gap; let v ← value; gap; return v) ','
  let _ ← if items.isEmpty then pure none else Reader.optional (Reader.mark ',')
  gap
  Reader.mark ']'
  return .array items

def closedTable (value : Reader Value) : Reader Value := do
  Reader.mark '\x7b'
  let pairs ← Reader.separated (assignment value spaces) ','
  spaces
  Reader.mark '\x7d'
  let entries ← StateT.lift (pairs.foldlM (fun es p => Entries.assign p.1 p.2 .closed es) [])
  return .table .closed entries

/-- A value whose arrays and tables nest at most `depth` deep. -/
def value : (depth : Nat) → Reader Value
  | 0 => plain
  | depth + 1 => array (value depth) <|> closedTable (value depth) <|> plain
where
  plain : Reader Value :=
    (.string <$> string) <|> boolean <|> number

def statement : Reader Statement := do
  match ← Reader.next? with
  | some '[' =>
    (do
      Reader.word ['[', '[']
      let header ← key
      Reader.word [']', ']']
      lineEnd
      return .element header) <|>
    (do
      Reader.mark '['
      let header ← key
      Reader.mark ']'
      lineEnd
      return .table header)
  | _ =>
    let (k, v) ← assignment (value (maxDepth - 1)) lineEnd
    return .assign k v

def statements : Reader (List Statement) := do
  let _ ← Reader.optional (Reader.mark '\ufeff')
  let found ← Reader.many (do
    spaces
    (some <$> statement) <|> (do lineBreak; return none) <|>
      (do comment; lineBreak <|> Reader.finished; return none))
  spaces
  Reader.finished
  return found.filterMap id

end BlobReplica.Toml
