import BlobReplica.Text.Decimal
import BlobReplica.Text.Hex
import BlobReplica.Text.Reader

/-! Internet addresses, and addresses of the services behind them, as they are read and written. -/

namespace BlobReplica.Net

open Text (Reader)

structure Ipv4 where
  a : UInt8
  b : UInt8
  c : UInt8
  d : UInt8
deriving DecidableEq, Repr

namespace Ipv4

def unspecified : Ipv4 := ⟨0, 0, 0, 0⟩

def loopback : Ipv4 := ⟨127, 0, 0, 1⟩

def text (ip : Ipv4) : String :=
  s!"{ip.a.toNat}.{ip.b.toNat}.{ip.c.toNat}.{ip.d.toNat}"

def isMulticast (ip : Ipv4) : Bool :=
  224 ≤ ip.a && ip.a ≤ 239

/-- At most three digits, without a zero in front of others. -/
def octet : Reader UInt8 := do
  let digits ← Reader.someRun Char.isDigit
  guard (digits.length ≤ 3 ∧ (digits.head? = some '0' → digits.length = 1))
  let n := Text.digitsValue digits
  guard (n < 256)
  return UInt8.ofNat n

def read : Reader Ipv4 := do
  let a ← octet
  Reader.mark '.'
  let b ← octet
  Reader.mark '.'
  let c ← octet
  Reader.mark '.'
  return ⟨a, b, c, ← octet⟩

def parse? (s : String) : Option Ipv4 :=
  read.whole s

end Ipv4

structure Ipv6 where
  groups : List UInt16
  size : groups.length = 8
deriving DecidableEq, Repr

namespace Ipv6

def ofGroups? (groups : List UInt16) : Option Ipv6 :=
  if size : groups.length = 8 then some ⟨groups, size⟩ else none

def joinGroups (groups : List UInt16) : String :=
  ":".intercalate (groups.map fun g => String.ofList (Nat.toDigits 16 g.toNat))

/-- Start and length of the first of the longest runs of zero groups. -/
def longestZeroRun (groups : List UInt16) : Nat × Nat :=
  (List.range groups.length).foldl (fun best start =>
    let length := ((groups.drop start).takeWhile (· == 0)).length
    if best.2 < length then (start, length) else best) (0, 0)

def twoOctets (g : UInt16) : UInt8 × UInt8 :=
  (UInt8.ofNat (g.toNat / 256), UInt8.ofNat (g.toNat % 256))

/-- Two colons stand for the longest run of zero groups, if it has more than one; an embedded
address of the shorter kind keeps its own form. -/
def text (ip : Ipv6) : String :=
  match ip.groups with
  | [0, 0, 0, 0, 0, 0xffff, x, y] =>
    let (a, b) := twoOctets x
    let (c, d) := twoOctets y
    "::ffff:" ++ (Ipv4.mk a b c d).text
  | groups =>
    let (start, length) := longestZeroRun groups
    if length ≤ 1 then joinGroups groups
    else joinGroups (groups.take start) ++ "::" ++ joinGroups (groups.drop (start + length))

def group : Reader UInt16 := do
  let digits ← Reader.someRun fun c => (Text.hexValue? c).isSome
  guard (digits.length ≤ 4)
  return UInt16.ofNat ((Text.hexNumber? digits).getD 0)

/-- As many groups as there are, `room` at most, and whether the last two were written as an
address of the shorter kind. -/
def readGroups (isFirst : Bool) : (room : Nat) → Reader (List UInt16 × Bool)
  | 0 => pure ([], false)
  | room + 1 =>
    let separator : Reader Unit := if isFirst then pure () else Reader.mark ':'
    (do
      guard (0 < room)
      separator
      let ip ← Ipv4.read
      return ([UInt16.ofNat (ip.a.toNat * 256 + ip.b.toNat),
        UInt16.ofNat (ip.c.toNat * 256 + ip.d.toNat)], true)) <|>
    (do
      separator
      let g ← group
      let (more, embedded) ← readGroups false room
      return (g :: more, embedded)) <|>
    pure ([], false)

def read : Reader Ipv6 := do
  let (before, embedded) ← readGroups true 8
  if before.length = 8 then StateT.lift (ofGroups? before)
  else
    guard !embedded
    Reader.word [':', ':']
    let (behind, _) ← readGroups true (7 - before.length)
    let zeros := List.replicate (8 - before.length - behind.length) 0
    StateT.lift (ofGroups? (before ++ zeros ++ behind))

end Ipv6

/-- A service at an address: the address and the number of the service. -/
inductive SocketAddress where
  | v4 (ip : Ipv4) (service : UInt16)
  | v6 (ip : Ipv6) (scope : UInt32) (service : UInt16)
deriving DecidableEq, Repr

namespace SocketAddress

def service : SocketAddress → UInt16
  | .v4 _ service => service
  | .v6 _ _ service => service

def host : SocketAddress → String
  | .v4 ip _ => ip.text
  | .v6 ip _ _ => ip.text

/-- A scope is written unless it is zero. -/
def text : SocketAddress → String
  | .v4 ip service => s!"{ip.text}:{service.toNat}"
  | .v6 ip scope service =>
    let scopeText := if scope = 0 then "" else s!"%{scope.toNat}"
    s!"[{ip.text}{scopeText}]:{service.toNat}"

def readNumber (bound : Nat) : Reader Nat := do
  StateT.lift (Text.readDigits bound (← Reader.run Char.isDigit))

def readService : Reader UInt16 := do
  Reader.mark ':'
  return UInt16.ofNat (← readNumber 0xffff)

def readScope : Reader UInt32 := do
  Reader.mark '%'
  return UInt32.ofNat (← readNumber 0xffffffff)

def readV4 : Reader SocketAddress := do
  let ip ← Ipv4.read
  return .v4 ip (← readService)

def readV6 : Reader SocketAddress := do
  Reader.mark '['
  let ip ← Ipv6.read
  let scope ← readScope <|> pure 0
  Reader.mark ']'
  return .v6 ip scope (← readService)

def parse? (s : String) : Option SocketAddress :=
  (readV4 <|> readV6).whole s

end SocketAddress
end BlobReplica.Net
