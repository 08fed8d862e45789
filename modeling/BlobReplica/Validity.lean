import BlobReplica.Text.Blank
import BlobReplica.Text.Decimal

/-! Times and validity intervals. A time is a number of milliseconds since the epoch, below 2^64;
the largest such number stands for no end. -/

namespace BlobReplica

abbrev Millis := Nat

namespace Millis

def unbounded : Millis := Text.maxWord

/-- Reads a time with any blanks around it and an optional plus sign. -/
def parse? (s : String) : Option Millis :=
  Text.readUnsigned Text.maxWord (Text.trimChars s.toList)

/-- A sum that stays at the largest time. -/
def later (at_ span : Millis) : Millis :=
  min (at_ + span) unbounded

end Millis

/-- The half-open interval `[start, stop)` in which a version answers queries. -/
structure Validity where
  start : Millis
  stop : Millis
deriving DecidableEq, Repr

namespace Validity

def unbounded : Validity := ⟨0, Millis.unbounded⟩

def covers (v : Validity) (at_ : Millis) : Bool :=
  v.start ≤ at_ && at_ < v.stop

/-- Whether the interval ended strictly before `now`. -/
def expiredAt (v : Validity) (now : Millis) : Bool :=
  v.stop < now

def debug (v : Validity) : String :=
  s!"Validity[{v.start}, {v.stop})"

end Validity
end BlobReplica
