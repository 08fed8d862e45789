import BlobReplica.Text.Blank
import BlobReplica.Text.Search

/-! Selecting keys. A pattern with `*` or `%` in it accepts the keys that hold its pieces in order,
the first piece in front, with any text between and behind; other patterns name one key. -/

namespace BlobReplica

inductive KeyPattern where
  | all
  | exact (key : String)
  | wildcard (pieces : List String)
deriving DecidableEq, Repr

namespace KeyPattern

def isWildcardMark (c : Char) : Bool :=
  c == '*' || c == '%'

/-- The pieces between wildcards, one more than there are wildcards. -/
def piecesOf : List Char → List (List Char)
  | [] => [[]]
  | c :: rest =>
    if isWildcardMark c then [] :: piecesOf rest
    else match piecesOf rest with
      | [] => [[c]]
      | piece :: pieces => (c :: piece) :: pieces

/-- Reads a pattern; slashes around it do not count, and nothing else selects every key. -/
def parse (pattern : String) : KeyPattern :=
  let cs := Text.trimOf '/' pattern.toList
  if cs = [] then .all
  else if cs.any isWildcardMark then .wildcard ((piecesOf cs).map String.ofList)
  else .exact (String.ofList cs)

def isWildcard : KeyPattern → Bool
  | .exact _ => false
  | _ => true

/-- Whether the pieces occur one after the other, each as far left as it can. -/
def occurInOrder : List (List Char) → List Char → Bool
  | [], _ => true
  | piece :: pieces, key =>
    match Text.after? piece key with
    | none => false
    | some rest => occurInOrder pieces rest

/-- Whether the first piece stands in front and the others follow in order. -/
def piecesMatch : List (List Char) → List Char → Bool
  | [], _ => true
  | first :: pieces, key =>
    first.isPrefixOf key && occurInOrder pieces (key.drop first.length)

def accepts (p : KeyPattern) (key : String) : Bool :=
  match p with
  | .all => true
  | .exact name => name == key
  | .wildcard pieces => piecesMatch (pieces.map String.toList) key.toList

end KeyPattern
end BlobReplica
