/-! Readers take what they read off the front of a text, or refuse the text. A choice of two tries
the second one on the same text. -/

namespace BlobReplica.Text

abbrev Reader := StateT (List Char) Option

namespace Reader

variable {α : Type}

def one (accepts : Char → Bool) : Reader Char
  | [] => none
  | c :: rest => if accepts c then some (c, rest) else none

def mark (c : Char) : Reader Unit :=
  discard (one (· == c))

def word (w : List Char) : Reader Unit := fun cs =>
  if w.isPrefixOf cs then some ((), cs.drop w.length) else none

/-- The longest run of characters that `accepts` holds of, which may be empty. -/
def run (accepts : Char → Bool) : Reader (List Char) := fun cs =>
  some (cs.takeWhile accepts, cs.dropWhile accepts)

def someRun (accepts : Char → Bool) : Reader (List Char) := do
  let cs ← run accepts
  guard (cs ≠ [])
  return cs

def optional (r : Reader α) : Reader (Option α) :=
  (some <$> r) <|> pure none

def finished : Reader Unit := fun cs =>
  if cs = [] then some ((), []) else none

/-- The next character, which stays unread. -/
def next? : Reader (Option Char) := fun cs =>
  some (cs.head?, cs)

def itemsFrom (item : Reader α) (cs : List Char) : List α × List Char :=
  match item cs with
  | none => ([], cs)
  | some (a, rest) =>
    if _shorter : rest.length < cs.length then
      let (as, rest) := itemsFrom item rest
      (a :: as, rest)
    else ([a], rest)
termination_by cs.length

/-- Items until one is refused or takes nothing off the text. -/
def many (item : Reader α) : Reader (List α) := fun cs =>
  some (itemsFrom item cs)

/-- Items with a mark between them; a mark that no item follows stays unread. -/
def separated (item : Reader α) (between : Char) : Reader (List α) := do
  match ← optional item with
  | none => return []
  | some first => return first :: (← many (do mark between; item))

def whole (r : Reader α) (s : String) : Option α :=
  match r s.toList with
  | some (a, []) => some a
  | _ => none

end Reader
end BlobReplica.Text
