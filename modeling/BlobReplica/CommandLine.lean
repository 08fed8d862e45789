import BlobReplica.Binary64
import BlobReplica.CommandLine.Grammar
import BlobReplica.Net.Address
import BlobReplica.Text.Blank
import BlobReplica.Text.Letters

/-! The commands of a node and their arguments. -/

namespace BlobReplica.CommandLine

/-- Runs a node. Addresses and URL take precedence over the settings file. -/
structure ServeArguments where
  config : Option String := none
  address : Option Net.SocketAddress := none
  unicast : Option Net.SocketAddress := none
  recoveryUrl : Option String := none
deriving DecidableEq, Repr

/-- Sends a file as one object version. -/
structure PublishArguments where
  file : String
  key : String
  target : Net.SocketAddress := .v4 ⟨239, 255, 0, 1⟩ 3342
  validFrom : Nat := 0
  validUntil : Option Nat := none
  contentType : Option String := none
  /-- In the order given. -/
  properties : List (String × String) := []
  fragmentSize : Nat := 1200
  /-- The share of datagrams that are left out on purpose. -/
  dropRate : Binary64 := .zero
  /-- How many networks a group datagram may cross. -/
  timeToLive : Nat := 1
deriving DecidableEq, Repr

inductive Command where
  | serve (arguments : ServeArguments)
  | publish (arguments : PublishArguments)
  /-- Reads a settings file and shows what it says. -/
  | checkConfig (file : String)
deriving DecidableEq, Repr

inductive OutputFormat where
  | text
  | json
deriving DecidableEq, Repr

structure Invocation where
  command : Command
  verbose : Bool
  format : OutputFormat
deriving DecidableEq, Repr

structure Draft (α : Type) where
  arguments : α
  verbose : Bool := false
  format : Option OutputFormat := none

variable {α : Type}

def entry {β : Type} (read : String → Except Refusal β) (enter : β → α → α) :
    Entry (Draft α) := fun text draft => do
  return { draft with arguments := enter (← read text) draft.arguments }

def readable {β : Type} (read : String → Option β) (text : String) : Except Refusal β :=
  match read text with
  | some b => .ok b
  | none => .error .unreadableValue

def fileName (text : String) : Except Refusal String :=
  if text = "" then .error .invalidValue else .ok text

/-- A 32-bit number, which may have a sign. -/
def readSmall? (text : String) : Option Nat :=
  match text.toList with
  | '-' :: digits => Text.readDigits 0 digits
  | cs => Text.readUnsigned 0xffffffff cs

/-- A name that is not blank, an equals sign, and a value. -/
def readProperty? (text : String) : Option (String × String) := do
  let (name, value) ← Text.cutAt '=' text
  let name := Text.trim name
  if name = "" then none else some (name, value)

def readFormat (text : String) : Except Refusal OutputFormat :=
  if text = "text" then .ok .text
  else if text = "json" then .ok .json
  else .error .invalidValue

def commonSwitches : List (Switch (Draft α)) := [
  { name := "verbose", letter := some 'v', effect := .flag fun d => { d with verbose := true } },
  { name := "format", effect := .value fun text d => do
      return { d with format := some (← readFormat text) } },
  { name := "help", letter := some 'h', effect := .leave .help }]

def serveGrammar : Grammar (Draft ServeArguments) where
  switches := [
    { name := "config", letter := some 'c',
      effect := .value (entry fileName fun file a => { a with config := some file }) },
    { name := "bind",
      effect := .value (entry (readable Net.SocketAddress.parse?) fun address a =>
        { a with address := some address }) },
    { name := "unicast",
      effect := .value (entry (readable Net.SocketAddress.parse?) fun address a =>
        { a with unicast := some address }) },
    { name := "recovery-url",
      effect := .value (entry .ok fun url a => { a with recoveryUrl := some url }) }]
    ++ commonSwitches

def publishGrammar : Grammar (Draft PublishArguments) where
  operands := [entry fileName fun file a => { a with file }]
  switches := [
    { name := "key", letter := some 'k', isRequired := true,
      effect := .value (entry .ok fun key a => { a with key }) },
    { name := "target", letter := some 't',
      effect := .value (entry (readable Net.SocketAddress.parse?) fun target a =>
        { a with target }) },
    { name := "valid-from",
      effect := .value (entry (readable Text.readWord) fun validFrom a => { a with validFrom }) },
    { name := "valid-until",
      effect := .value (entry (readable Text.readWord) fun time a =>
        { a with validUntil := some time }) },
    { name := "content-type",
      effect := .value (entry .ok fun text a => { a with contentType := some text }) },
    { name := "property", letter := some 'p', isRepeatable := true,
      effect := .value (entry (readable readProperty?) fun p a =>
        { a with properties := a.properties ++ [p] }) },
    { name := "fragment-size",
      effect := .value (entry (readable Text.readWord) fun fragmentSize a =>
        { a with fragmentSize }) },
    { name := "drop-rate",
      effect := .value (entry (readable Binary64.parse?) fun dropRate a => { a with dropRate }) },
    { name := "ttl",
      effect := .value (entry (readable readSmall?) fun timeToLive a => { a with timeToLive }) }]
    ++ commonSwitches

def checkConfigGrammar : Grammar (Draft String) where
  operands := [entry fileName fun file _ => file]
  switches := commonSwitches

def nodeGrammar : Grammar (Draft Unit) where
  commands := ["serve", "publish", "check-config", "help"]
  switches := { name := "version", letter := some 'V', effect := .leave .version } :: commonSwitches

def readCommand (g : Grammar (Draft α)) (empty : α) (arguments : List String) :
    Except Refusal (Draft α) := do
  let (p, _) ← g.read (g.start { arguments := empty }) arguments
  g.finish p

/-- Combines arguments in front of the command with those behind it, which take precedence. -/
def invoke (outer : Draft Unit) (inner : Draft α) (command : α → Command) : Invocation where
  command := command inner.arguments
  verbose := inner.verbose || outer.verbose
  format := (inner.format <|> outer.format).getD .text

def readHelp : List String → Except Refusal Invocation
  | [] => .error .help
  | name :: rest =>
    if nodeGrammar.commands.contains name && rest.isEmpty then .error .help
    else .error .unknownCommand

def parse (arguments : List String) : Except Refusal Invocation := do
  let (p, command) ← nodeGrammar.read (nodeGrammar.start { arguments := () }) arguments
  match command with
  | none =>
    let p ← p.settle
    throw (if p.given.isEmpty then .nothingGiven else .missingCommand)
  | some ("help", rest) => readHelp rest
  | some ("serve", rest) =>
    let inner ← readCommand serveGrammar {} rest
    return invoke (← p.settle).draft inner .serve
  | some ("publish", rest) =>
    let inner ← readCommand publishGrammar { file := "", key := "" } rest
    return invoke (← p.settle).draft inner .publish
  | some (_, rest) =>
    let inner ← readCommand checkConfigGrammar "" rest
    return invoke (← p.settle).draft inner .checkConfig

end BlobReplica.CommandLine
