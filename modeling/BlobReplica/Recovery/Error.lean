import BlobReplica.VersionId

/-! Why recovery from the authority fails. -/

namespace BlobReplica.Recovery

/-- What is wrong with the body of a response that should hold several byte ranges. -/
inductive PartsFault where
  | noOpening
  | unterminatedLine
  | unreadableHeader
  | noRange
  | truncated
  | noClosing
deriving DecidableEq, Repr

def PartsFault.message : PartsFault → String
  | .noOpening => "opening boundary not found"
  | .unterminatedLine => "unterminated header line"
  | .unreadableHeader => "non-UTF-8 part header"
  | .noRange => "part without Content-Range"
  | .truncated => "part body truncated"
  | .noClosing => "closing boundary not found"

inductive Error where
  | noResponse
  | baseUrl (text : String)
  | status (expected actual : Nat)
  | parts (fault : PartsFault)
  | contentRange (text : String)
  /-- The blob refused the bytes. -/
  | refused (reason : String)
deriving DecidableEq, Repr

def Error.message : Error → String
  | .noResponse => "upstream request failed"
  | .baseUrl text => "invalid upstream base URL: " ++ text
  | .status expected actual => s!"unexpected upstream status {actual} (expected {expected})"
  | .parts fault => "malformed multipart body: " ++ fault.message
  | .contentRange text => "malformed Content-Range: " ++ text
  | .refused reason => "cache error: " ++ reason

end BlobReplica.Recovery
