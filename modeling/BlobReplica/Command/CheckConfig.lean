import BlobReplica.Command
import BlobReplica.CommandLine
import BlobReplica.Settings

/-! Checking a settings file: what it says is shown as text or as a JSON document. -/

namespace BlobReplica.Command

/-- The settings line by line, for a host with that many cores. -/
def describe (file : String) (s : NodeSettings) (cores : Nat) : List String :=
  let r := s.receiver
  let group := match r.group with
    | some group => s!"{group.text}:{r.groupService.toNat}"
    | none => "disabled"
  let unicast := (r.unicast.map Net.SocketAddress.text).getD "disabled"
  let recovery := match r.recovery.baseUrl with
    | some url =>
      if r.anyListener ∧ r.recovery.isEnabled then s!"{url} (grace {r.recovery.grace} ms)"
      else "disabled"
    | none => "disabled"
  let warnings := if r.anyListener then [] else ["  ! no UDP listener configured"]
  [s!"✓ {file} is valid",
    "  Multicast: " ++ group,
    "  Unicast:   " ++ unicast,
    "  Recovery:  " ++ recovery,
    s!"  Workers:   {r.workerCount cores}",
    s!"  Max object: {r.maxObjectSize} bytes",
    "  HTTP:      " ++ s.service.address.text] ++ warnings

def checkConfig (files : Files) (cores : Nat) (file : String)
    (format : CommandLine.OutputFormat) : Result :=
  match NodeSettings.load files file with
  | .error e => .failed e.reasons
  | .ok s =>
    match format with
    | .json => { lines := [s.document.renderIndented 0] }
    | .text => { lines := describe file s cores }

end BlobReplica.Command
