/-! Letter case. Names of properties and headers are compared without regard to the case of the
ASCII letters; every other character stands for itself. -/

namespace BlobReplica.Text

def lower (s : String) : String :=
  String.ofList (s.toList.map Char.toLower)

/-- Whether two names differ in the case of ASCII letters at most. -/
def sameName (a b : String) : Bool :=
  lower a == lower b

theorem sameName_refl (a : String) : sameName a a = true := by
  simp [sameName]

theorem sameName_comm (a b : String) : sameName a b = sameName b a := by
  simp [sameName, BEq.comm]

/-- One word with a capital first letter and small letters after it. -/
def capitalize : List Char → List Char
  | [] => []
  | c :: rest => c.toUpper :: rest.map Char.toLower

/-- The pieces between occurrences of `mark`, one more than there are occurrences. -/
def splitAt (mark : Char) : List Char → List (List Char)
  | [] => [[]]
  | c :: rest =>
    if c == mark then [] :: splitAt mark rest
    else match splitAt mark rest with
      | [] => [[c]]
      | piece :: pieces => (c :: piece) :: pieces

def split (mark : Char) (s : String) : List String :=
  (splitAt mark s.toList).map String.ofList

/-- The text before and after the first occurrence of `mark`. -/
def cutAt (mark : Char) (s : String) : Option (String × String) :=
  match s.toList.dropWhile (· != mark) with
  | [] => none
  | _ :: after => some (String.ofList (s.toList.takeWhile (· != mark)), String.ofList after)

def dropStart (start s : String) : Option String :=
  if start.toList.isPrefixOf s.toList then some (String.ofList (s.toList.drop start.toList.length))
  else none

end BlobReplica.Text
