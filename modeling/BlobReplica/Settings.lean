import BlobReplica.Receiver.Settings
import BlobReplica.Service.Settings

/-! The settings of a node, and the file that they stand in. -/

namespace BlobReplica

structure NodeSettings where
  receiver : Receiver.Settings := {}
  service : Service.Settings := {}

namespace NodeSettings

def ofToml? (v : Toml.Value) : Option NodeSettings := do
  let fields ← v.fields? ["receiver", "server"]
  return {
    receiver := ← fields.field? "receiver" {} Receiver.Settings.ofToml?
    service := ← fields.field? "server" {} Service.Settings.ofToml? }

def parse (text : String) : Except Receiver.SettingsError NodeSettings :=
  match (Toml.parse? text).bind ofToml? with
  | none => .error .unreadable
  | some s => do
    let _ ← s.receiver.validate.mapError .invalid
    return s

def document (s : NodeSettings) : Document :=
  .object [("receiver", s.receiver.document), ("server", s.service.document)]

end NodeSettings

/-- The contents of files by name, or the reason that the system gives for refusing one. -/
abbrev Files := String → Except String Bytes

/-- Why no settings come out of a file. -/
inductive LoadError where
  | file (name reason : String)
  /-- The file holds something else than text. -/
  | noText (name : String)
  | settings (name : String) (error : Receiver.SettingsError)
deriving DecidableEq, Repr

/-- The reasons, the outermost first. -/
def LoadError.reasons : LoadError → List String
  | .file name reason => ["reading " ++ name, reason]
  | .noText name => ["reading " ++ name]
  | .settings name error => ["loading " ++ name, error.message]

def NodeSettings.load (files : Files) (name : String) : Except LoadError NodeSettings := do
  let bytes ← (files name).mapError (.file name)
  match Utf8.decode? bytes with
  | none => .error (.noText name)
  | some text => (parse text).mapError (.settings name)

end BlobReplica
