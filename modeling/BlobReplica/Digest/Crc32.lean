import BlobReplica.Bytes

/-! The reflected CRC-32 with polynomial EDB88320, all-ones start and complemented end. -/

namespace BlobReplica.Digest

/-- One place of the division: the remainder moves down and the polynomial is taken off where a
one leaves. -/
def crcShift (r : UInt32) : UInt32 :=
  if r &&& 1 == 1 then (r >>> 1) ^^^ 0xedb88320 else r >>> 1

def crcByte (r : UInt32) (b : UInt8) : UInt32 :=
  Nat.repeat crcShift 8 (r ^^^ b.toUInt32)

def crc32 (bytes : Bytes) : UInt32 :=
  bytes.foldl crcByte 0xffffffff ^^^ 0xffffffff

end BlobReplica.Digest
