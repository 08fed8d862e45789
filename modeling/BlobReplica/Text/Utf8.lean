import BlobReplica.Bytes

/-! UTF-8. A character is read from the front of a byte string exactly when its encoding stands
there; a fault names the first position where no character starts and how many bytes of it begin
one. -/

namespace BlobReplica.Utf8

def encodeChars (cs : List Char) : Bytes :=
  cs.flatMap String.utf8EncodeChar

def encode (s : String) : Bytes :=
  encodeChars s.toList

/-- How many bytes a character has whose first byte is `lead`; zero when none starts so. -/
def width (lead : UInt8) : Nat :=
  if lead < 0x80 then 1
  else if lead < 0xc2 then 0
  else if lead < 0xe0 then 2
  else if lead < 0xf0 then 3
  else if lead < 0xf5 then 4
  else 0

/-- The payload bits of `bytes`, the first one without its length marker. -/
def codePoint (bytes : Bytes) : Nat :=
  match bytes with
  | [] => 0
  | lead :: rest =>
    let marker := match rest.length with
      | 0 => 0
      | 1 => 0xc0
      | 2 => 0xe0
      | _ => 0xf0
    rest.foldl (fun acc b => acc * 64 + b.toNat % 64) (lead.toNat - marker)

/-- The character whose encoding stands at the front, and the bytes after it. -/
def front? (bytes : Bytes) : Option (Char × Bytes) :=
  match bytes with
  | [] => none
  | lead :: rest =>
    let c := Char.ofNat (codePoint (lead :: rest.take (width lead - 1)))
    let form := String.utf8EncodeChar c
    if form.isPrefixOf (lead :: rest) then some (c, (lead :: rest).drop form.length) else none

theorem front?_length {bytes rest : Bytes} {c : Char} (h : front? bytes = some (c, rest)) :
    rest.length < bytes.length := by
  unfold front? at h
  split at h
  · contradiction
  · simp only at h
    split at h
    · simp only [Option.some.injEq, Prod.mk.injEq] at h
      obtain ⟨_, rfl⟩ := h
      simp only [List.length_drop, List.length_cons, String.length_utf8EncodeChar]
      have := Char.utf8Size_pos (Char.ofNat (codePoint (‹UInt8› :: List.take (width ‹UInt8› - 1) ‹Bytes›)))
      omega
    · contradiction

/-- Why and where bytes stop being text. -/
inductive Fault where
  /-- `length` bytes at `index` begin a character that the next byte does not continue. -/
  | invalid (length index : Nat)
  /-- The bytes end within the character that starts at `index`. -/
  | incomplete (index : Nat)
deriving Repr, DecidableEq

def Fault.message : Fault → String
  | .invalid length index => s!"invalid utf-8 sequence of {length} bytes from index {index}"
  | .incomplete index => s!"incomplete utf-8 byte sequence from index {index}"

def mayFollow (lead b : UInt8) : Bool :=
  let low : UInt8 := if lead == 0xe0 then 0xa0 else if lead == 0xf0 then 0x90 else 0x80
  let high : UInt8 := if lead == 0xed then 0x9f else if lead == 0xf4 then 0x8f else 0xbf
  low ≤ b && b ≤ high

def faultAt (index : Nat) (bytes : Bytes) : Fault :=
  match bytes with
  | [] => .incomplete index
  | lead :: rest =>
    if width lead = 0 then .invalid 1 index
    else match rest with
      | [] => .incomplete index
      | second :: others =>
        if mayFollow lead second then
          let good := (others.take (width lead - 2)).takeWhile fun b => 0x80 ≤ b && b < 0xc0
          if good.length = others.length then .incomplete index
          else .invalid (2 + good.length) index
        else .invalid 1 index

def decodeFrom (index : Nat) (read : List Char) (bytes : Bytes) :
    Except Fault (List Char) :=
  if bytes = [] then .ok read.reverse
  else match _h : front? bytes with
    | none => .error (faultAt index bytes)
    | some (c, rest) => decodeFrom (index + c.utf8Size) (c :: read) rest
termination_by bytes.length
decreasing_by exact front?_length _h

def decodeChars (bytes : Bytes) : Except Fault (List Char) :=
  decodeFrom 0 [] bytes

def decode (bytes : Bytes) : Except Fault String :=
  (decodeChars bytes).map String.ofList

def decode? (bytes : Bytes) : Option String :=
  (decode bytes).toOption

def size (s : String) : Nat :=
  (encode s).length

end BlobReplica.Utf8
