import BlobReplica.Text.Hex
import BlobReplica.Text.Reader

/-! Blanks, line ends, comments and strings of configuration documents. -/

namespace BlobReplica.Toml

open Text (Reader)

def isSpace (c : Char) : Bool :=
  c == ' ' || c == '\t'

/-- The characters of comments and strings: all but the ASCII controls, with the tab. -/
def isText (c : Char) : Bool :=
  c == '\t' || (0x20 ≤ c.toNat && c.toNat != 0x7f)

def spaces : Reader Unit :=
  discard (Reader.run isSpace)

def lineBreak : Reader Unit :=
  Reader.mark '\n' <|> Reader.word ['\x0d', '\n']

def comment : Reader Unit := do
  Reader.mark '#'
  discard (Reader.run isText)

def lineEnd : Reader Unit := do
  spaces
  let _ ← Reader.optional comment
  lineBreak <|> Reader.finished

/-- Blanks, line breaks and comments between the items of an array. -/
def gap : Reader Unit :=
  discard (Reader.many (discard (Reader.one isSpace) <|> lineBreak <|> (do comment; lineBreak)))

def blankLines : Reader Unit :=
  discard (Reader.many (discard (Reader.one isSpace) <|> lineBreak))

def numberedChar (digits : Nat) : Reader Char := fun cs =>
  match Text.hexNumber? (cs.take digits) with
  | some n =>
    if (cs.take digits).length = digits ∧ n.isValidChar then
      some (Char.ofNat n, cs.drop digits)
    else none
  | none => none

/-- What a backslash stands for with what follows it. -/
def escape : Reader Char := do
  Reader.mark '\\'
  match ← Reader.one (fun _ => true) with
  | 'b' => return '\x08'
  | 't' => return '\t'
  | 'n' => return '\n'
  | 'f' => return '\x0c'
  | 'r' => return '\x0d'
  | '"' => return '"'
  | '\\' => return '\\'
  | 'u' => numberedChar 4
  | 'U' => numberedChar 8
  | _ => failure

/-- A backslash at the end of a line, with all blank space behind it. -/
def continuation : Reader Unit := do
  Reader.mark '\\'
  spaces
  lineBreak
  blankLines

def quotedLine : Reader String := do
  Reader.mark '"'
  let cs ← Reader.many
    (Reader.one (fun c => isText c && c != '"' && c != '\\') <|> escape)
  Reader.mark '"'
  return String.ofList cs

def literalLine : Reader String := do
  Reader.mark '\''
  let cs ← Reader.run fun c => isText c && c != '\''
  Reader.mark '\''
  return String.ofList cs

/-- A quote inside a text of several lines: the closing three do not begin here. -/
def looseQuote (quote : Char) : Reader Char := fun cs =>
  if [quote, quote, quote].isPrefixOf cs then none else Reader.one (· == quote) cs

/-- Three quotes, and the one or two in front of them that still belong to the text. -/
def closing (quote : Char) : Reader (List Char) := do
  Reader.word [quote, quote, quote]
  let extra ← Reader.run (· == quote)
  guard (extra.length ≤ 2)
  return extra

def severalLines (quote : Char) (piece : Reader (List Char)) : Reader String := do
  Reader.word [quote, quote, quote]
  let _ ← Reader.optional lineBreak
  let cs ← Reader.many
    (piece <|> (do return [← looseQuote quote]) <|> (do lineBreak; return ['\n']))
  return String.ofList (cs.flatten ++ (← closing quote))

def quotedLines : Reader String :=
  severalLines '"'
    ((do return [← Reader.one fun c => isText c && c != '"' && c != '\\']) <|>
      (do continuation; return []) <|> (do return [← escape]))

def literalLines : Reader String :=
  severalLines '\'' (do return [← Reader.one fun c => isText c && c != '\''])

def string : Reader String :=
  quotedLines <|> quotedLine <|> literalLines <|> literalLine

end BlobReplica.Toml
