import BlobReplica.Proofs.Intake.Steps
import BlobReplica.Proofs.Recovery.Steps

/-! What can be done to a node, and runs of such events. A blob is handed to an event in the state in
which its holder sees it; what an event refuses leaves the node as it was. -/

namespace BlobReplica.Node

inductive Event where
  | fragment (i : Intake) (f : Fragment) (now : Millis)
  | datagram (i : Intake) (d : Bytes) (now : Millis)
  | sweep (now : Millis) (policy : Cache.SweepPolicy)
  /-- Takes a blob that is due out of the queue. -/
  | poll (now : Millis)
  /-- Attempts recovery of a blob, with what the authority answers if it is asked. -/
  | recover (b : Blob) (response : Option Recovery.FetchResponse) (now : Millis)
  /-- Does something to a blob, wherever it is held. -/
  | operate (b : Blob) (op : Blob.Operation)
  /-- Takes in a blob, such as one of which nothing has arrived yet. -/
  | insert (b : Blob)
  | insertObject (key : String) (version : VersionId) (properties : Properties) (payload : Bytes)
      (now : Millis)
  | remove (key : String) (version : VersionId)
  | discardInvalid (key : String) (version : VersionId) (now : Millis)
  | markInvalid (version : VersionId) (now : Millis)
  | resort (key : String)

def perform (n : Node) : Event → Node
  | .fragment i f now => (i.fragment n f now).1
  | .datagram i d now => (i.datagram n d now).1
  | .sweep now policy => n.withCache (n.cache.sweep now policy).1
  | .poll now => { n with queue := (n.queue.poll now).1 }
  | .recover b response now => (Recovery.attempt n b response now).1
  | .operate b op => n.update (b.perform op).1
  | .insert b =>
    match n.cache.insert b with
    | .ok (c, _) => n.withCache c
    | .error _ => n
  | .insertObject key version properties payload now =>
    match n.cache.insertObject key version properties payload now with
    | .ok (c, _) => n.withCache c
    | .error _ => n
  | .remove key version => n.withCache (n.cache.remove key version).1
  | .discardInvalid key version now => n.withCache (n.cache.discardInvalid key version now).1
  | .markInvalid version now => n.withCache (n.cache.markInvalid version now)
  | .resort key => n.resort key

/-- Events with the node before each, the first one first. -/
abbrev History := List (Node × Event)

/-- Runs of events, each of which may happen when it comes. A run grows at its end. -/
inductive Run (may : Node → Event → Prop) (start : Node) : History → Node → Prop where
  | start : Run may start [] start
  | step {h : History} {n : Node} {e : Event} (run : Run may start h n) (permitted : may n e) :
      Run may start (h ++ [(n, e)]) (n.perform e)

theorem Run.trans {may : Node → Event → Prop} {start n n' : Node} {h h' : History}
    (first : Run may start h n) (second : Run may n h' n') : Run may start (h ++ h') n' := by
  induction second with
  | start => rwa [List.append_nil]
  | step _ permitted ih =>
    rw [← List.append_assoc]
    exact .step ih permitted

/-- Four bytes out of the middle of ten. -/
def sampleFragment : Fragment :=
  ⟨"k", .ofNumber 7, .payload, 10, 2, [99, 100, 101, 102]⟩

/-- A node to which one fragment has come. -/
def sampleNode : Node :=
  (empty 10000).perform (.fragment {} sampleFragment 10)

def sampleBlob : Blob where
  key := "k"
  version := .ofNumber 7
  arrived := 10
  status := .partiallyReceived
  created := 10
  lastTouched := 10
  size := some 10
  payload := .assembling ⟨10, ⟨[⟨0, 2⟩, ⟨6, 10⟩]⟩, [(2, [99, 100, 101, 102])]⟩

/-- Both gaps of the blob, with the checksum of the whole. -/
def sampleAnswer : Recovery.FetchResponse where
  status := 206
  headers := [("Content-Type", "multipart/byteranges; boundary=XX"),
    ("Content-MD5", "a925576942e94b2ef57a066101b48876")]
  body := Utf8.encode ("--XX\r\nContent-Range: bytes 0-1/10\r\n\r\nab\r\n" ++
    "--XX\r\nContent-Range: bytes 6-9/10\r\n\r\nghij\r\n--XX--\r\n")

theorem sampleNode_cache : sampleNode.cache.find? "k" (.ofNumber 7) = some sampleBlob := by
  decide +kernel

end BlobReplica.Node
