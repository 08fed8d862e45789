import BlobReplica.Text.Hex

/-! JSON documents with unsigned numbers, written without blanks or indented by two blanks a level.
Members keep their order. -/

namespace BlobReplica

inductive Document where
  | null
  | bool (value : Bool)
  | number (value : Nat)
  | string (value : String)
  | array (items : List Document)
  | object (members : List (String × Document))

namespace Document

/-- A character as it stands between quotes. -/
def escape (c : Char) : List Char :=
  if c == '"' then ['\\', '"']
  else if c == '\\' then ['\\', '\\']
  else if c == '\x08' then ['\\', 'b']
  else if c == '\x0c' then ['\\', 'f']
  else if c == '\n' then ['\\', 'n']
  else if c == '\x0d' then ['\\', 'r']
  else if c == '\t' then ['\\', 't']
  else if c.toNat < 0x20 then '\\' :: 'u' :: Text.hexPadded 4 c.toNat
  else [c]

def quoted (s : String) : String :=
  String.ofList ('"' :: s.toList.flatMap escape ++ ['"'])

mutual

def render : Document → String
  | .null => "null"
  | .bool b => if b then "true" else "false"
  | .number n => toString n
  | .string s => quoted s
  | .array items => "[" ++ ",".intercalate (renderItems items) ++ "]"
  | .object members => "\x7b" ++ ",".intercalate (renderMembers members) ++ "\x7d"

def renderItems : List Document → List String
  | [] => []
  | item :: rest => item.render :: renderItems rest

def renderMembers : List (String × Document) → List String
  | [] => []
  | (name, value) :: rest => (quoted name ++ ":" ++ value.render) :: renderMembers rest

end

def newline (level : Nat) : String :=
  String.ofList ('\n' :: List.replicate (2 * level) ' ')

mutual

def renderIndented (level : Nat) : Document → String
  | .null => "null"
  | .bool b => if b then "true" else "false"
  | .number n => toString n
  | .string s => quoted s
  | .array [] => "[]"
  | .object [] => "\x7b\x7d"
  | .array (item :: rest) =>
    "[" ++ newline (level + 1) ++
      ("," ++ newline (level + 1)).intercalate (indentedItems (level + 1) (item :: rest)) ++
      newline level ++ "]"
  | .object (member :: rest) =>
    "\x7b" ++ newline (level + 1) ++
      ("," ++ newline (level + 1)).intercalate (indentedMembers (level + 1) (member :: rest)) ++
      newline level ++ "\x7d"

def indentedItems (level : Nat) : List Document → List String
  | [] => []
  | item :: rest => item.renderIndented level :: indentedItems level rest

def indentedMembers (level : Nat) : List (String × Document) → List String
  | [] => []
  | (name, value) :: rest =>
    (quoted name ++ ": " ++ value.renderIndented level) :: indentedMembers level rest

end

/-- An absent value is `null`. -/
def optional {α : Type} (f : α → Document) : Option α → Document
  | none => .null
  | some a => f a

end Document
end BlobReplica
