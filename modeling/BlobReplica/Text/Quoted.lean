import BlobReplica.Text.Hex
import BlobReplica.Text.Hidden

/-! Quoted text for diagnostics: double quotes around it, backslashes before quotes and
backslashes, and characters without a glyph of their own spelled out. -/

namespace BlobReplica.Text

def hexMinimal (n : Nat) : List Char :=
  (Nat.toDigits 16 n)

def quoteChar (c : Char) : List Char :=
  if c == '"' then ['\\', '"']
  else if c == '\\' then ['\\', '\\']
  else if c == '\x00' then ['\\', '0']
  else if c == '\t' then ['\\', 't']
  else if c == '\n' then ['\\', 'n']
  else if c == '\x0d' then ['\\', 'r']
  else if c.toNat < 0x20 || isHidden c then
    '\\' :: 'u' :: '\x7b' :: hexMinimal c.toNat ++ ['\x7d']
  else [c]

def quote (s : String) : String :=
  String.ofList ('"' :: s.toList.flatMap quoteChar ++ ['"'])

end BlobReplica.Text
