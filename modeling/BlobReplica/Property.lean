import BlobReplica.Table
import BlobReplica.Text.Blank
import BlobReplica.Text.Letters

/-! Properties of an object: named texts, written as given and found without regard to the case of
ASCII letters. -/

namespace BlobReplica

abbrev Properties := Table String

namespace Property

def validFrom : String := "Valid-From"

def validUntil : String := "Valid-Until"

def created : String := "Created"

def lastModified : String := "Last-Modified"

def contentMd5 : String := "Content-MD5"

def contentType : String := "Content-Type"

def fileName : String := "OriginalFileName"

def defaultContentType : String := "application/octet-stream"

/-- A checksum as it is compared: without blanks around it, without hyphens, in lower case. -/
def normalizeMd5 (s : String) : String :=
  String.ofList (((Text.trimChars s.toList).filter (· != '-')).map Char.toLower)

end Property

namespace Properties

/-- The value of the first property whose name is `name` up to letter case. -/
def lookup? (ps : Properties) (name : String) : Option String :=
  (ps.entries.find? fun e => Text.sameName e.1 name).map (·.2)

/-- Gives the property of that name up to letter case a new value, or adds one. -/
def assign (ps : Properties) (name value : String) : Properties :=
  match ps.entries.find? fun e => Text.sameName e.1 name with
  | some (spelled, _) => Table.insert ps spelled value
  | none => Table.insert ps name value

end Properties
end BlobReplica
