/-!
# Command lines

A tool has commands, and a command has options. An option is named in full after two dashes or
by one letter after a single dash; its value is the next word, or follows directly after an
equals sign or the letter. The first fault, or the first wish for help, decides the outcome.

## Main definitions

* `CommandLine.Parameter`, `CommandLine.Command`, `CommandLine.Tool` — what may be said
* `CommandLine.Arguments` — what was said
* `CommandLine.Tool.read` — the meaning of a list of words
-/

namespace TypedData.CommandLine

/-- How many values an option takes. -/
inductive Arity where
  | none
  | one
  /-- One or more, up to the next option. -/
  | many
deriving Repr, DecidableEq, Inhabited

/-- An option. -/
structure Parameter where
  name : String
  letter : Option Char
  arity : Arity
  /-- The name of its value in descriptions. -/
  valueName : String
  isRequired : Bool
  /-- Whether its value may be the empty text. -/
  allowsEmpty : Bool
  /-- The values it may have; none are listed if all are allowed. -/
  choices : List String
  /-- The value that counts where none is given. -/
  standard : Option String
  description : String
deriving Repr, DecidableEq, Inhabited

/-- A command. -/
structure Command where
  name : String
  description : String
  parameters : List Parameter
deriving Repr, DecidableEq, Inhabited

/-- A tool. -/
structure Tool where
  name : String
  description : String
  version : Option String
  /-- The options that go with every command. -/
  shared : List Parameter
  commands : List Command
deriving Repr, DecidableEq, Inhabited

/-! ### Arguments -/

/-- The options of a command line with their values, later ones first. -/
structure Arguments where
  given : List (String × List String)
deriving Repr, DecidableEq, Inhabited

namespace Arguments

/-- Nothing was said. -/
def empty : Arguments := ⟨[]⟩

/-- Whether an option was given. -/
def has (a : Arguments) (name : String) : Bool := a.given.any (·.1 == name)

/-- The values of an option that may be repeated. -/
def all (a : Arguments) (name : String) : List String :=
  ((a.given.filter (·.1 == name)).reverse.map (·.2)).flatten

/-- The value of an option that takes one. -/
def get? (a : Arguments) (name : String) : Option String :=
  match a.given.find? (·.1 == name) with
  | some (_, v :: _) => some v
  | _ => none

/-- Adds an option. -/
def add (a : Arguments) (name : String) (values : List String) : Arguments :=
  ⟨(name, values) :: a.given⟩

/-- Arguments under later ones. -/
def followedBy (a b : Arguments) : Arguments := ⟨b.given ++ a.given⟩

end Arguments

/-! ### Reading -/

/-- Why reading ends before all words are read. -/
inductive Stop where
  | help
  | version
  | misuse
deriving Repr, DecidableEq, Inhabited

/-- What has been read so far. -/
structure Scan where
  arguments : Arguments
  /-- The option whose values are being read, and the values so far. -/
  pending : Option (Parameter × List String)
deriving Inhabited

namespace Scan

/-- Nothing read. -/
def start : Scan := ⟨.empty, none⟩

/-- An option with its values, if it may be given like this. -/
def accept (a : Arguments) (p : Parameter) (values : List String) : Except Stop Arguments :=
  if p.arity ≠ .none ∧ values = [] then .error .misuse
  else if p.arity ≠ .many ∧ a.has p.name then .error .misuse
  else if !p.allowsEmpty && values.contains "" then .error .misuse
  else if p.choices ≠ [] ∧ !values.all p.choices.contains then .error .misuse
  else .ok (a.add p.name values)

/-- What was said once the values of the pending option are complete. -/
def settle (s : Scan) : Except Stop Arguments :=
  match s.pending with
  | none => .ok s.arguments
  | some (p, values) => accept s.arguments p values

/-- An option that stands alone, or has its value with it. -/
def complete (s : Scan) (p : Parameter) (values : List String) : Except Stop Scan :=
  match s.settle with
  | .error e => .error e
  | .ok a => (accept a p values).map fun a => ⟨a, none⟩

/-- An option whose values are the next words. -/
def await (s : Scan) (p : Parameter) : Except Stop Scan :=
  s.settle.map fun a => ⟨a, some (p, [])⟩

/-- A word that is a value. -/
def value (s : Scan) (word : String) : Except Stop Scan :=
  match s.pending with
  | none => .error .misuse
  | some (p, values) =>
    if p.arity = .many then .ok ⟨s.arguments, some (p, values ++ [word])⟩
    else (accept s.arguments p [word]).map fun a => ⟨a, none⟩

/-- A wish for help or for the version. -/
def wish (s : Scan) (stop : Stop) : Except Stop Scan :=
  match s.settle with
  | .error e => .error e
  | .ok _ => .error stop

/-- An option by its full name, perhaps with a value. -/
def long (parameters : List Parameter) (hasVersion : Bool) (s : Scan) (word : List Char) :
    Except Stop Scan :=
  let name := String.ofList (word.takeWhile (· != '='))
  let attached : Option String :=
    match word.dropWhile (· != '=') with
    | [] => none
    | _ :: v => some (String.ofList v)
  match parameters.find? (·.name == name), attached with
  | some p, none => if p.arity = .none then s.complete p [] else s.await p
  | some p, some v => if p.arity = .none then .error .misuse else s.complete p [v]
  | none, none =>
    if name = "help" then s.wish .help
    else if hasVersion && name = "version" then s.wish .version
    else .error .misuse
  | none, some _ => .error .misuse

/-- Options by their letters. What follows a letter that takes a value is its value. -/
def letters (parameters : List Parameter) (hasVersion : Bool) (s : Scan) :
    List Char → Except Stop Scan
  | [] => .ok s
  | c :: rest =>
    match parameters.find? (·.letter == some c) with
    | some p =>
      if p.arity = .none then
        match s.complete p [] with
        | .error e => .error e
        | .ok s => letters parameters hasVersion s rest
      else
        match rest with
        | [] => s.await p
        | '=' :: v => s.complete p [String.ofList v]
        | v => s.complete p [String.ofList v]
    | none =>
      if c = 'h' then s.wish .help
      else if hasVersion && c = 'V' then s.wish .version
      else .error .misuse

/-- Reads words up to the name of a command, and gives that name with the words after it. -/
def run (parameters : List Parameter) (hasVersion : Bool) (isCommand : String → Bool)
    (s : Scan) : List String → Except Stop (Arguments × Option (String × List String))
  | [] => s.settle.map fun a => (a, none)
  | word :: rest =>
    -- A word is a value as long as one is awaited, whatever it says.
    if s.pending.isNone && isCommand word then .ok (s.arguments, some (word, rest))
    else
      match word.toList with
      -- What follows two dashes stands for no option, and nothing else is awaited.
      | ['-', '-'] => if rest = [] then s.settle.map fun a => (a, none) else .error .misuse
      | '-' :: '-' :: cs =>
        match long parameters hasVersion s cs with
        | .error e => .error e
        | .ok s => run parameters hasVersion isCommand s rest
      | '-' :: c :: cs =>
        match letters parameters hasVersion s (c :: cs) with
        | .error e => .error e
        | .ok s => run parameters hasVersion isCommand s rest
      | _ =>
        match s.value word with
        | .error e => .error e
        | .ok s => run parameters hasVersion isCommand s rest

end Scan

/-- What a command line asks for. -/
inductive Request where
  /-- A description: of the tool, or of one of its commands. -/
  | describe (command : Option Command)
  /-- A description of the command that describes the others. -/
  | describeHelp
  | version
  | misuse
  | perform (command : Command) (arguments : Arguments)
deriving Inhabited

namespace Tool

/-- The command of a name. -/
def command? (t : Tool) (name : String) : Option Command := t.commands.find? (·.name == name)

/-- A command with its arguments, once everything it needs is there. -/
def perform (c : Command) (a : Arguments) : Request :=
  if c.parameters.all fun p => !p.isRequired || a.has p.name then .perform c a else .misuse

/-- What the words after the name of a command ask for. -/
def readCommand (t : Tool) (c : Command) (before : Arguments) (words : List String) : Request :=
  match Scan.run (c.parameters ++ t.shared) false (fun _ => false) .start words with
  | .ok (a, _) => perform c (before.followedBy a)
  | .error .help => .describe (some c)
  | .error _ => .misuse

/-- What is asked for with the command that describes others. -/
def readHelp (t : Tool) : List String → Request
  | [] => .describe none
  | [name] =>
    if name = "help" then .describeHelp
    else
      match t.command? name with
      | some c => .describe (some c)
      | none => .misuse
  | _ => .misuse

/-- What a command line asks for. -/
def read (t : Tool) (words : List String) : Request :=
  match Scan.run t.shared t.version.isSome (fun w => w = "help" || (t.command? w).isSome) .start
      words with
  | .ok (a, some (name, rest)) =>
    if name = "help" then t.readHelp rest
    else
      match t.command? name with
      | some c => t.readCommand c a rest
      | none => .misuse
  | .ok (_, none) => .misuse
  | .error .help => .describe none
  | .error .version => .version
  | .error .misuse => .misuse

end Tool

end TypedData.CommandLine
