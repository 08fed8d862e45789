import BlobReplica.Http.Header
import BlobReplica.Property

/-! Properties out of response headers. Headers that describe the transfer are left out, a content
disposition gives its file name only, and names get one spelling whatever their case. -/

namespace BlobReplica.Recovery

/-- Headers that describe the transfer and not the object. -/
def transferHeaders : List String :=
  ["Accept-Ranges", "Date", "ETag", "Content-Length", "Content-Type", "Content-Range"]

def wellKnownNames : List String :=
  [Property.validFrom, Property.validUntil, Property.created, Property.lastModified,
    Property.contentMd5, Property.contentType, Property.fileName]

/-- The spelling of a name: its own if it is well known, else each word between hyphens with a
capital first letter. -/
def canonicalName (name : String) : String :=
  match wellKnownNames.find? (Text.sameName · name) with
  | some known => known
  | none => String.ofList (['-'].intercalate ((Text.splitAt '-' name.toList).map Text.capitalize))

/-- The properties that response headers give, in their order. -/
def recoveredProperties (headers : Http.Headers) : List (String × String) :=
  headers.filterMap fun (name, value) =>
    if transferHeaders.any (Text.sameName · name) then none
    else if Text.sameName name "Content-Disposition" then
      (Http.dispositionFileName? value).map (Property.fileName, ·)
    else some (canonicalName name, value)

end BlobReplica.Recovery
