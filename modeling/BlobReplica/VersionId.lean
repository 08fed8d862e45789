import BlobReplica.Text.Blank
import BlobReplica.Text.Hex
import BlobReplica.Bytes

/-! Version identifiers: 128 bits, written as a UUID and ordered as the number they spell. -/

namespace BlobReplica

/-- The identity of one creation of an object. -/
structure VersionId where
  bits : BitVec 128
deriving DecidableEq, Repr

namespace VersionId

def number (v : VersionId) : Nat :=
  v.bits.toNat

def ofNumber (n : Nat) : VersionId :=
  ⟨BitVec.ofNat 128 n⟩

def zero : VersionId :=
  ofNumber 0

instance : Inhabited VersionId := ⟨zero⟩

def bytes (v : VersionId) : Bytes :=
  Bytes.bigEndian 16 v.number

/-- Reads sixteen bytes; the argument's length is not looked at. -/
def ofBytes (bytes : Bytes) : VersionId :=
  ofNumber (Bytes.number bytes)

/-- Why a value is no version identifier. -/
inductive Error where
  | invalidText (text : String)
  | invalidLength (actual : Nat)
deriving Repr, DecidableEq

def Error.message : Error → String
  | .invalidText text => s!"invalid version id: {text}"
  | .invalidLength actual => s!"invalid byte length: expected 16, got {actual}"

def ofBytes? (bytes : Bytes) : Except Error VersionId :=
  if bytes.length = 16 then .ok (ofBytes bytes) else .error (.invalidLength bytes.length)

def digits (v : VersionId) : List Char :=
  Text.hexPadded 32 v.number

/-- The digits in groups of eight, four, four, four and twelve. -/
def chars (v : VersionId) : List Char :=
  let d := v.digits
  d.take 8 ++ '-' :: (d.drop 8).take 4 ++ '-' :: (d.drop 12).take 4 ++
    '-' :: (d.drop 16).take 4 ++ '-' :: d.drop 20

def text (v : VersionId) : String :=
  String.ofList v.chars

def short (v : VersionId) : String :=
  String.ofList (v.digits.take 8)

def debug (v : VersionId) : String :=
  s!"VersionId({v.short})"

def readDigits (width : Nat) (cs : List Char) : Option VersionId :=
  if cs.length = width then (Text.hexNumber? cs).map ofNumber else none

/-- Reads the grouped form: hyphens at places 8, 13, 18 and 23 of thirty-six. -/
def readGroups (cs : List Char) : Option VersionId :=
  match cs.drop 8, cs.drop 13, cs.drop 18, cs.drop 23 with
  | '-' :: _, '-' :: _, '-' :: _, '-' :: last =>
    readDigits 32
      (cs.take 8 ++ (cs.drop 9).take 4 ++ (cs.drop 14).take 4 ++ (cs.drop 19).take 4 ++ last)
  | _, _, _, _ => none

/-- Reads the four written forms: digits, groups, groups in braces, groups after
`urn:uuid:` in either case. -/
def readChars (cs : List Char) : Option VersionId :=
  if cs.length = 32 then readDigits 32 cs
  else if cs.length = 36 then readGroups cs
  else if cs.length = 38 then
    match cs with
    | '{' :: rest => if rest.getLast? = some '}' then readGroups rest.dropLast else none
    | _ => none
  else if cs.length = 45 then
    if (cs.take 9).map Char.toLower = "urn:uuid:".toList then readGroups (cs.drop 9) else none
  else none

def ofText? (s : String) : Option VersionId :=
  readChars s.toList

def parse? (s : String) : Option VersionId :=
  readChars (Text.trimChars s.toList)

def parse (s : String) : Except Error VersionId :=
  match parse? s with
  | some v => .ok v
  | none => .error (.invalidText s)

/-- The kind of identifier: its thirteenth digit. -/
def kind (v : VersionId) : Nat :=
  v.number >>> 76 % 16

/-- A time-ordered identifier of kind seven: the time takes the upper forty-eight bits, the
sequence number the lower sixty-two. -/
def mint (millis sequence : Nat) : VersionId :=
  ofNumber ((millis % 1 <<< 48) <<< 80 + 7 <<< 76 + 2 <<< 62 + sequence % 1 <<< 62)

instance : LT VersionId := ⟨fun a b => a.number < b.number⟩

instance (a b : VersionId) : Decidable (a < b) :=
  inferInstanceAs (Decidable (a.number < b.number))

instance : LE VersionId := ⟨fun a b => a.number ≤ b.number⟩

instance (a b : VersionId) : Decidable (a ≤ b) :=
  inferInstanceAs (Decidable (a.number ≤ b.number))

def sort (versions : List VersionId) : List VersionId :=
  versions.mergeSort fun a b => a ≤ b

end VersionId
end BlobReplica
