import BlobReplica.Document
import BlobReplica.Net.Address
import BlobReplica.Service.Router
import BlobReplica.Toml

/-! What the HTTP service of a node is told: where to listen, and its policy. -/

namespace BlobReplica.Service

structure Settings where
  address : Net.SocketAddress := .v4 .loopback 8080
  policy : Policy := {}

namespace Settings

def ofToml? (v : Toml.Value) : Option Settings := do
  let fields ← v.fields? ["bind_addr", "max_upload_size", "permissive_cors"]
  let unset : Settings := {}
  return {
    address := ← fields.field? "bind_addr" unset.address
      fun v => v.string?.bind Net.SocketAddress.parse?
    policy := {
      maxUploadSize := ← fields.field? "max_upload_size" unset.policy.maxUploadSize
        (·.natural? Text.maxWord)
      permissiveCors := ← fields.field? "permissive_cors" unset.policy.permissiveCors
        (·.boolean?) } }

def parse? (text : String) : Option Settings :=
  (Toml.parse? text).bind ofToml?

def document (s : Settings) : Document :=
  .object [
    ("bind_addr", .string s.address.text),
    ("max_upload_size", .number s.policy.maxUploadSize),
    ("permissive_cors", .bool s.policy.permissiveCors)]

end Settings
end BlobReplica.Service
