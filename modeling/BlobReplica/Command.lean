/-! What comes of running a command. -/

namespace BlobReplica.Command

/-- What was printed, and the reasons of a failure, the outermost first. -/
structure Result where
  lines : List String := []
  failure : Option (List String) := none
deriving DecidableEq, Repr

namespace Result

def failed (reasons : List String) : Result :=
  { failure := some reasons }

def output (r : Result) : String :=
  String.join (r.lines.map (· ++ "\n"))

end Result
end BlobReplica.Command
