import BlobReplica.Blob.Error
import BlobReplica.Http.Message

/-! Why the service turns a request down. -/

namespace BlobReplica.Service

inductive Error where
  | badRequest (reason : String)
  | notFound
  | cache (error : Blob.Error)
  | config (reason : String)
  | io (reason : String)
  | internal (reason : String)
deriving DecidableEq, Repr

namespace Error

def message : Error → String
  | .badRequest reason => "bad request: " ++ reason
  | .notFound => "no matching objects found"
  | .cache error => "cache error: " ++ error.message
  | .config reason => "configuration error: " ++ reason
  | .io reason => "I/O error: " ++ reason
  | .internal reason => "internal error: " ++ reason

def status : Error → Nat
  | .badRequest _ => 400
  | .notFound => 404
  | .cache _ => 422
  | .config _ | .io _ | .internal _ => 500

def response (e : Error) : Http.Response :=
  Http.Response.text e.status e.message

end Error
end BlobReplica.Service
