import BlobReplica.Fragment.Split
import BlobReplica.Cache.Entry
import BlobReplica.Cache.Folder
import BlobReplica.Cache.Sweep
import BlobReplica.Recovery.Attempt
import BlobReplica.Intake
import BlobReplica.Service.Router
import BlobReplica.Net.Address
import BlobReplica.Binary64
import BlobReplica.Toml
import BlobReplica.Settings
import BlobReplica.Receiver
import BlobReplica.CommandLine
import BlobReplica.Command.CheckConfig
import BlobReplica.Command.Publish
import BlobReplica.Command.Serve
import BlobReplica.Main
import BlobReplica.Proofs.Datagram.Reading
import BlobReplica.Proofs.Recovery.QueueRuns
import BlobReplica.Proofs.Recovery.Convergence
import BlobReplica.Proofs.Recovery.Failure
import BlobReplica.Proofs.Intake.Streams
import BlobReplica.Proofs.Node.Tickets
import BlobReplica.Proofs.Cache.Entry
import BlobReplica.Proofs.Cache.Marks
import BlobReplica.Proofs.Cache.Changes
import BlobReplica.Proofs.Node.Changes
import BlobReplica.Proofs.Node.Discarded
import BlobReplica.Proofs.Cache.Queries
import BlobReplica.Proofs.Node.Order
import BlobReplica.Proofs.Intake.Gathering
import BlobReplica.Proofs.Intake.Arrival
import BlobReplica.Proofs.Intake.ArrivalOrder
import BlobReplica.Proofs.Blob.Life
import BlobReplica.Proofs.Blob.Headers
import BlobReplica.Proofs.Command.Publish
import BlobReplica.Proofs.Node.Present
import BlobReplica.Proofs.Node.Waiting
import BlobReplica.Proofs.Service.Atomic
import BlobReplica.Proofs.Node.Verified
import BlobReplica.Proofs.Blob.Bounds
import BlobReplica.Proofs.Blob.Summary
import BlobReplica.Proofs.Blob.Repeat
import BlobReplica.Proofs.Cache.Pruning
import BlobReplica.Proofs.Datagram.Bounds
import BlobReplica.Proofs.Recovery.Bounds
import BlobReplica.Proofs.Node.Bounds
import BlobReplica.InPlace
import BlobReplica.Proofs.Node.Objects
import BlobReplica.Proofs.InPlace
import BlobReplica.Proofs.Recovery.Requests
import BlobReplica.Proofs.Recovery.Slices
import BlobReplica.Proofs.Datagram.Damage
import BlobReplica.Proofs.Service.Ranges
import BlobReplica.Proofs.Recovery.Places
import BlobReplica.Proofs.Service.Location
import BlobReplica.Proofs.Query.Pattern
import BlobReplica.Proofs.Service.Download
import BlobReplica.Proofs.Cache.Folder
import BlobReplica.Proofs.Service.FileName
import BlobReplica.Proofs.RangeSet.Overlap
import BlobReplica.Proofs.Fragment.Sending
import BlobReplica.Proofs.Cache.Discard
import BlobReplica.Proofs.Recovery.Spelling
