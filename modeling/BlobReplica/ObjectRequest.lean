import BlobReplica.Http.Header
import BlobReplica.Query
import BlobReplica.Text.Decimal

/-! Request paths of objects: path elements, then a time, then an end time and a version in any
order. Tokens `name=value` are flags and may stand anywhere. -/

namespace BlobReplica

structure ObjectRequest where
  path : List String := []
  startTime : Option Millis := none
  endTime : Option Millis := none
  version : Option VersionId := none
  flags : Properties := .empty
  /-- The version that the client already holds. -/
  cachedVersion : Option VersionId := none
  notAfter : Option Millis := none
  notBefore : Option Millis := none
  browseLimit : Option Nat := none

namespace ObjectRequest

def maxPathElements : Nat := 10

/-- Why a path is no object request. -/
inductive Error where
  | threeTimes (path : String)
  | unexpectedToken (token path : String)
  | twoVersions (path : String)
  | tooManyElements
  | noPath
  | noTime (path : String)
deriving DecidableEq, Repr

def Error.message : Error → String
  | .threeTimes path => "more than two timestamps in " ++ path
  | .unexpectedToken token path => s!"unexpected token {token} in {path}"
  | .twoVersions path => "two versions in " ++ path
  | .tooManyElements => s!"at most {maxPathElements} path elements are allowed"
  | .noPath => "missing object path"
  | .noTime path => "missing timestamp in " ++ path

/-- A number of digits only, with any blanks around it. -/
def number? (token : String) : Option Nat :=
  Text.readDigits Text.maxWord (Text.trimChars token.toList)

def addToken (path : String) (r : ObjectRequest) (token : String) : Except Error ObjectRequest :=
  match Text.cutAt '=' token with
  | some (name, value) => .ok { r with flags := Table.insert r.flags name value }
  | none =>
    match number? token with
    | some n =>
      match r.startTime, r.endTime with
      | none, _ => .ok { r with startTime := some n }
      | some _, none => .ok { r with endTime := some n }
      | some _, some _ => .error (.threeTimes path)
    | none =>
      if r.startTime.isNone then .ok { r with path := r.path ++ [token] }
      else match VersionId.parse? token with
        | none => .error (.unexpectedToken token path)
        | some v =>
          if r.version.isSome then .error (.twoVersions path) else .ok { r with version := some v }

def tokens (path : String) : List String :=
  (Text.split '/' path).filter (· ≠ "")

/-- Reads a path without its conditional headers. A listing may do without path and time. -/
def parsePath (path : String) (timeRequired : Bool) : Except Error ObjectRequest :=
  match (tokens path).foldlM (addToken path) {} with
  | .error e => .error e
  | .ok r =>
    if maxPathElements < r.path.length then .error .tooManyElements
    else if timeRequired && r.path.isEmpty then .error .noPath
    else if timeRequired && r.startTime.isNone then .error (.noTime path)
    else .ok r

/-- A time that a conditional header gives; zero stands for none. -/
def headerTime? (headers : Http.Headers) (name : String) : Option Millis :=
  ((headers.readable? name).bind number?).filter (· ≠ 0)

/-- Takes the conditional headers into a request. -/
def withHeaders (r : ObjectRequest) (headers : Http.Headers) : ObjectRequest :=
  { r with
    cachedVersion := (headers.readable? "If-None-Match").bind fun v =>
      VersionId.parse? (String.ofList (Text.trimOf '"' (Text.trimChars v.toList)))
    notAfter := headerTime? headers "If-Not-After"
    notBefore := headerTime? headers "If-Not-Before"
    browseLimit := ((headers.readable? "Browse-Limit").bind fun v =>
      Text.readWord (Text.trim v)).filter (0 < ·) }

def parse (path : String) (headers : Http.Headers) (timeRequired : Bool) :
    Except Error ObjectRequest :=
  (parsePath path timeRequired).map (·.withHeaders headers)

def key (r : ObjectRequest) : String :=
  "/".intercalate r.path

def constraints (r : ObjectRequest) : Constraints :=
  { version := r.version, time := r.startTime, flags := r.flags
    notAfter := r.notAfter, notBefore := r.notBefore }

def listing (r : ObjectRequest) : Listing :=
  { pattern := KeyPattern.parse r.key, constraints := r.constraints, limit := r.browseLimit }

end ObjectRequest
end BlobReplica
