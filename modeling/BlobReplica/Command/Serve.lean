import BlobReplica.Command
import BlobReplica.CommandLine
import BlobReplica.Receiver
import BlobReplica.Settings

/-! Running a node until it is interrupted. -/

namespace BlobReplica

namespace CommandLine.ServeArguments

/-- The settings of the file with those of the command line over them. -/
def override (a : ServeArguments) (s : NodeSettings) : NodeSettings :=
  { receiver := { s.receiver with
      unicast := a.unicast <|> s.receiver.unicast
      recovery := { s.receiver.recovery with
        baseUrl := a.recoveryUrl <|> s.receiver.recovery.baseUrl } }
    service := { s.service with address := a.address.getD s.service.address } }

def settings (a : ServeArguments) (files : Files) : Except (List String) NodeSettings := do
  let s ← match a.config with
    | some file => (NodeSettings.load files file).mapError LoadError.reasons
    | none => .ok {}
  let s := a.override s
  let _ ← s.receiver.validate.mapError fun fault => [(Receiver.SettingsError.invalid fault).message]
  return s

end CommandLine.ServeArguments

namespace Command

def runningLines (s : NodeSettings) (r : Receiver) : List String :=
  let shown (label : String) (address : Option Net.SocketAddress) : List String :=
    address.toList.map fun a => label ++ a.text
  let recovery := if r.recovers then s.receiver.recovery.baseUrl.getD "disabled" else "disabled"
  ["✓ replicast node running"] ++ shown "  Multicast: " r.groupAddress ++
    shown "  Unicast:   " r.unicastAddress ++
    ["  Recovery:  " ++ recovery, "  HTTP:      " ++ s.service.address.text]

structure Running where
  settings : NodeSettings
  receiver : Receiver

def begin (host : Host) (files : Files) (a : CommandLine.ServeArguments) :
    Except (List String) Running := do
  let settings ← a.settings files
  return ⟨settings, ← (Receiver.start host settings.receiver).mapError Receiver.StartError.reasons⟩

def stoppedLine : String := "✓ stopped"

/-- Runs a node that is interrupted once it listens. -/
def serve (host : Host) (files : Files) (a : CommandLine.ServeArguments) : Result :=
  match begin host files a with
  | .error reasons => .failed reasons
  | .ok node =>
    let lines := runningLines node.settings node.receiver
    match host.listen node.settings.service.address with
    | .error reason =>
      { lines, failure := some [(Service.Error.io reason).message, reason] }
    | .ok () => { lines := lines ++ [stoppedLine] }

end Command
end BlobReplica
