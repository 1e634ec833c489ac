import TypedData.CommandLine.Grammar

/-!
# Descriptions of tools

## Main definitions

* `CommandLine.Tool.help` — the description of a tool
* `CommandLine.Tool.commandHelp` — the description of one of its commands
-/

namespace TypedData.CommandLine

/-- A text with blanks after it up to a width. -/
def padded (width : Nat) (s : String) : String :=
  s ++ String.ofList (List.replicate (width - s.length) ' ')

/-- Lines, each with an end. -/
def joinLines (lines : List String) : String := String.join (lines.map (· ++ "\n"))

/-- A list of texts with another between them. -/
def joinWith (separator : String) (xs : List String) : String := String.intercalate separator xs

namespace Parameter

/-- The option by its full name, with its value. -/
def longForm (p : Parameter) : String :=
  "--" ++ p.name ++
    match p.arity with
    | .none => ""
    | .one => " <" ++ p.valueName ++ ">"
    | .many => " <" ++ p.valueName ++ ">..."

/-- The option by its letter, if it has one, and by its full name. -/
def form (p : Parameter) : String :=
  (match p.letter with
    | some c => "-" ++ String.singleton c ++ ", "
    | none => "    ") ++ p.longForm

/-- What is said about an option: its description, its standard value, and its choices. -/
def about (p : Parameter) : String :=
  joinWith " "
    ((if p.description = "" then [] else [p.description]) ++
      (match p.standard with
        | some v => ["[default: " ++ v ++ "]"]
        | none => []) ++
      if p.choices = [] then []
      else ["[possible values: " ++ joinWith ", " p.choices ++ "]"])

/-- Whether two options stand in order: first by place, then by letter or name. -/
def inOrder (p q : Nat × Parameter) : Bool :=
  let key (p : Parameter) : String :=
    match p.letter with
    | some c => String.singleton c
    | none => p.name
  p.1 < q.1 || (p.1 = q.1 && decide (key p.2 ≤ key q.2))

/-- An option that takes no value and only asks for something. -/
def wish (name : String) (letter : Char) (description : String) : Parameter :=
  ⟨name, some letter, .none, "", false, true, [], none, description⟩

end Parameter

/-- Options with their places. -/
def placed (ps : List Parameter) : List (Nat × Parameter) := (List.range ps.length).zip ps

/-- The width of a page. -/
def pageWidth : Nat := 100

/-- The space beside the names of options that is not for their descriptions. -/
def margin : Nat := 12

/-- Whether descriptions go below the options: when the names take more than two fifths of the
page and some description does not fit beside them. -/
def needsOwnLines (ps : List Parameter) (width : Nat) : Bool :=
  ps.any fun p =>
    2 * pageWidth < 5 * (width + margin) && pageWidth < p.about.length + width + margin

/-- The lines of some options. -/
def optionLines (ps : List Parameter) : List String :=
  let width := (ps.map (·.longForm.length)).foldl max 0 + 4
  if needsOwnLines ps width then
    ps.flatMap fun p => ["  " ++ p.form, "          " ++ p.about]
  else ps.map fun p => "  " ++ padded (width + 2) p.form ++ p.about

/-- What is said about options: common and special ones by place, and then the wishes. -/
def optionSection (shared special : List Parameter) (hasVersion : Bool) : List String :=
  let sorted := (placed shared ++ placed special).mergeSort Parameter.inOrder
  "Options:" ::
    optionLines
      (sorted.map (·.2) ++ [.wish "help" 'h' "Print help"] ++
        if hasVersion then [.wish "version" 'V' "Print version"] else [])

namespace Tool

/-- The name of the command that describes others. -/
def helpName : String := "help"

/-- What the command that describes others does. -/
def helpDescription : String := "Print this message or the help of the given subcommand(s)"

/-- The lines of the commands. -/
def commandLines (t : Tool) : List String :=
  let rows := t.commands.map (fun c => (c.name, c.description)) ++ [(helpName, helpDescription)]
  let width := (rows.map (·.1.length)).foldl max 0
  rows.map fun r => "  " ++ padded (width + 2) r.1 ++ r.2

/-- The description of a tool. -/
def help (t : Tool) : String :=
  joinLines
    ([t.description, "", "Usage: " ++ t.name ++ " [OPTIONS] <COMMAND>", "", "Commands:"] ++
      t.commandLines ++ [""] ++ optionSection t.shared [] t.version.isSome)

/-- The description of a command. -/
def commandHelp (t : Tool) (c : Command) : String :=
  let required := (c.parameters.filter (·.isRequired)).map (·.longForm)
  joinLines
    ([c.description, "",
      "Usage: " ++ joinWith " " ([t.name, c.name, "[OPTIONS]"] ++ required), ""] ++
      optionSection t.shared c.parameters false)

/-- The description of the command that describes others. -/
def helpHelp (t : Tool) : String :=
  joinLines
    [helpDescription, "", "Usage: " ++ t.name ++ " " ++ helpName ++ " [COMMAND]...", "",
      "Arguments:", "  [COMMAND]...  Print help for the subcommand(s)"]

end Tool

end TypedData.CommandLine
