/-! Command lines: switches with a name and perhaps a letter, operands, and names of commands. A
switch is written with two dashes and its name or with one dash and its letter; its value follows
as the next argument or behind an equals sign, and behind a letter at once. After two dashes alone
all arguments are operands. Values are read when the next argument shows that they are complete. -/

namespace BlobReplica.CommandLine

inductive Refusal where
  | missingArgument
  | unknownArgument
  | unreadableValue
  /-- A value is missing, empty where it may not be, or none of those to choose from. -/
  | invalidValue
  | superfluousValue
  | unknownCommand
  | missingCommand
  | repeated
  | help
  | version
  /-- There are no arguments at all. -/
  | nothingGiven
deriving DecidableEq, Repr

/-- Asking for a text is no failure. -/
def Refusal.exitStatus : Refusal → Nat
  | .help | .version => 0
  | _ => 2

variable {σ : Type}

/-- Reads a value and enters it in a draft. -/
abbrev Entry (σ : Type) := String → σ → Except Refusal σ

inductive Effect (σ : Type) where
  | flag (enter : σ → σ)
  | value (enter : Entry σ)
  /-- Ends the reading. -/
  | leave (refusal : Refusal)

structure Switch (σ : Type) where
  name : String
  letter : Option Char := none
  effect : Effect σ
  isRequired : Bool := false
  isRepeatable : Bool := false

/-- What the arguments of a command may be; every operand has to be given. -/
structure Grammar (σ : Type) where
  switches : List (Switch σ)
  operands : List (Entry σ) := []
  commands : List String := []

/-- A switch or operand that is not entered yet. -/
inductive Pending (σ : Type) where
  | nothing
  | value (switch : Switch σ) (enter : Entry σ) (text : Option String)
  | operand (enter : Entry σ) (text : String)

/-- Arguments read so far: the draft, the names of the switches in it, the operands still to come,
and whether all that follows is an operand. -/
structure Progress (σ : Type) where
  draft : σ
  given : List String := []
  operands : List (Entry σ)
  pending : Pending σ := .nothing
  onlyOperands : Bool := false

namespace Progress

def take (p : Progress σ) (switch : Switch σ) (enter : σ → Except Refusal σ) :
    Except Refusal (Progress σ) := do
  if p.given.contains switch.name && !switch.isRepeatable then throw .repeated
  return { p with draft := ← enter p.draft, given := switch.name :: p.given }

def settle (p : Progress σ) : Except Refusal (Progress σ) :=
  let settled := { p with pending := .nothing }
  match p.pending with
  | .nothing => .ok p
  | .value _ _ none => .error .invalidValue
  | .value switch enter (some text) => settled.take switch (enter text)
  | .operand enter text => do return { settled with draft := ← enter text p.draft }

def awaitsValue (p : Progress σ) : Bool :=
  match p.pending with
  | .value _ _ none => true
  | _ => false

end Progress

namespace Grammar

def start (g : Grammar σ) (draft : σ) : Progress σ :=
  { draft, operands := g.operands }

def operand (g : Grammar σ) (p : Progress σ) (text : String) :
    Except Refusal (Progress σ) :=
  match p.operands with
  | enter :: operands => do return { ← p.settle with operands, pending := .operand enter text }
  | [] =>
    if g.commands.isEmpty || (p.onlyOperands && g.commands.contains text) then
      .error .unknownArgument
    else .error .unknownCommand

def apply (p : Progress σ) (switch : Switch σ) (attached : Option String) :
    Except Refusal (Progress σ) :=
  match switch.effect, attached with
  | .value enter, some text => do (← p.settle).take switch (enter text)
  | .value enter, none => do return { ← p.settle with pending := .value switch enter none }
  | _, some _ => .error .superfluousValue
  | .flag enter, none => do (← p.settle).take switch fun draft => .ok (enter draft)
  | .leave refusal, none => do let _ ← p.settle; throw refusal

def long (g : Grammar σ) (p : Progress σ) (text : List Char) :
    Except Refusal (Progress σ) :=
  let name := String.ofList (text.takeWhile (· != '='))
  let attached := (text.dropWhile (· != '=')).tail?.map String.ofList
  match g.switches.find? (·.name == name) with
  | none => .error .unknownArgument
  | some switch => apply p switch attached

/-- Letters of flags, the last of them perhaps of a switch with a value. -/
def letters (g : Grammar σ) (p : Progress σ) : List Char → Except Refusal (Progress σ)
  | [] => .ok p
  | c :: rest =>
    match g.switches.find? (·.letter == some c) with
    | none => .error .unknownArgument
    | some switch =>
      match switch.effect, rest with
      | .value _, '=' :: text => apply p switch (some (String.ofList text))
      | .value _, _ :: _ => apply p switch (some (String.ofList rest))
      | _, _ => do letters g (← apply p switch none) rest

def step (g : Grammar σ) (p : Progress σ) (argument : String) :
    Except Refusal (Progress σ) :=
  if p.onlyOperands then operand g p argument
  else match argument.toList with
    | ['-', '-'] => .ok { p with onlyOperands := true }
    | '-' :: '-' :: text => long g p text
    | '-' :: c :: text => letters g p (c :: text)
    | _ =>
      match p.pending with
      | .value switch enter none => .ok { p with pending := .value switch enter (some argument) }
      | _ => operand g p argument

def read (g : Grammar σ) (p : Progress σ) :
    List String → Except Refusal (Progress σ × Option (String × List String))
  | [] => .ok (p, none)
  | argument :: rest =>
    if !p.onlyOperands && !p.awaitsValue && g.commands.contains argument then
      .ok (p, some (argument, rest))
    else do g.read (← step g p argument) rest

/-- Ends the reading: nothing that is required may be missing. -/
def finish (g : Grammar σ) (p : Progress σ) : Except Refusal σ := do
  let p ← p.settle
  let lacks := g.switches.any fun s => s.isRequired && !p.given.contains s.name
  if lacks || !p.operands.isEmpty then throw .missingArgument
  return p.draft

end Grammar
end BlobReplica.CommandLine
