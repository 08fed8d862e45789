import BlobReplica.Cache.Folder
import BlobReplica.Document

/-! JSON descriptions of objects, folders and the cache. -/

namespace BlobReplica.Service

open Document in
def objectSummary (b : Blob) : Document :=
  .object [("path", string b.key), ("version", string b.version.text),
    ("size", number (b.size.getD 0)), ("startTime", number b.validity.start),
    ("endTime", number b.validity.stop), ("created", number b.created),
    ("contentType", string b.contentType), ("originalName", string b.fileName),
    ("properties", object (b.properties.entries.map fun (n, v) => (n, string v)))]

open Document in
def folderSummary (s : Cache.FolderStats) : Document :=
  .object [("own_count", number s.ownCount), ("own_size", number s.ownSize),
    ("nested_count", number s.nestedCount), ("nested_size", number s.nestedSize)]

open Document in
def cacheSummary (s : Cache.Stats) : Document :=
  .object [("keys", number s.keys), ("versions", number s.versions),
    ("complete", number s.complete), ("incomplete", number s.incomplete),
    ("complete_bytes", number s.completeBytes)]

def release : String := "0.1.0"

open Document in
def healthSummary (c : Cache) : Document :=
  .object [("status", string "ok"), ("version", string release), ("cache", cacheSummary c.stats)]

end BlobReplica.Service
