import TypedData.Binary64.Shortest

/-!
# TOML values

A document is a table. Tables may be opened by a header, implied by the header of a table
inside them, or come about by dotted keys, and which of these it was decides what may still be
added to them.

## Main definitions

* `Toml` — TOML values
* `Toml.Statement` — what the lines of a document say
* `Toml.Section` — a header with the assignments under it
* `Toml.ofStatements?` — the table that the statements of a document make up
-/

namespace TypedData

/-- A TOML value. -/
inductive Toml where
  | string (value : String)
  /-- An integer of 64 bits. -/
  | integer (value : Int)
  | float (value : Binary64)
  | boolean (value : Bool)
  /-- A date, a time of day, or both. -/
  | moment
  | array (items : List Toml)
  /-- Fields in the order in which they were made. -/
  | table (fields : List (String × Toml))
deriving Inhabited

namespace Toml

/-- A key with a value. The key is dotted if it has parts before its last one. -/
structure Assignment where
  before : List String
  last : String
  value : Toml
deriving Inhabited

/-- What a line of a document says. -/
inductive Statement where
  /-- Opens a table. -/
  | header (before : List String) (last : String)
  /-- Opens one more table of an array of tables. -/
  | element (before : List String) (last : String)
  | assign (assignment : Assignment)
deriving Inhabited

/-! ### Tables that are being made -/

/-- How a table came about. -/
inductive Origin where
  | header
  /-- By the header of a table inside it. -/
  | implied
  /-- By a dotted key. -/
  | dotted
deriving Repr, DecidableEq, Inhabited

/-- A part of a document that is being made. -/
inductive Node where
  /-- Complete, and closed to additions. -/
  | value (value : Toml)
  | table (origin : Origin) (fields : List (String × Node))
  /-- An array of tables; the last one is open. -/
  | tables (items : List (List (String × Node)))
deriving Inhabited

/-- The fields of a table that is being made. -/
abbrev Fields := List (String × Node)

namespace Fields

/-- The field of a name. -/
def get? (fields : Fields) (name : String) : Option Node :=
  (fields.find? (·.1 == name)).map (·.2)

/-- Replaces a field where it stands. -/
def replace (fields : Fields) (name : String) (node : Node) : Fields :=
  fields.map fun f => if f.1 = name then (name, node) else f

/-- Removes a field. -/
def remove (fields : Fields) (name : String) : Fields := fields.filter (·.1 != name)

/-- Adds a field at the end. -/
def add (fields : Fields) (name : String) (node : Node) : Fields := fields ++ [(name, node)]

/-- Changes the last table of an array of tables. -/
def inLast? (change : Fields → Option Fields) (items : List Fields) : Option Node :=
  match items.getLast? with
  | none => none
  | some fields => (change fields).map fun fields => .tables (items.dropLast ++ [fields])

/-- Changes the table that the parts of a header lead to. Tables that are not there are made. -/
def underHeader? (change : Fields → Option Fields) (fields : Fields) :
    List String → Option Fields
  | [] => change fields
  | name :: rest =>
    match fields.get? name with
    | none => (underHeader? change [] rest).map fun sub => fields.add name (.table .implied sub)
    | some (.value _) => none
    | some (.tables items) =>
      (inLast? (fun sub => underHeader? change sub rest) items).map fun node =>
        fields.replace name node
    | some (.table origin sub) =>
      (underHeader? change sub rest).map fun sub => fields.replace name (.table origin sub)

/-- Changes the table that the parts of a dotted key lead to. Tables with headers of their own
are closed to dotted keys, and the table itself must come from dotted keys. -/
def underDots? (change : Fields → Option Fields) (fields : Fields) :
    List String → Option Fields
  | [] => change fields
  | name :: rest =>
    match fields.get? name with
    | none => (underDots? change [] rest).map fun sub => fields.add name (.table .dotted sub)
    | some (.value _) => none
    | some (.tables items) =>
      if rest = [] then none
      else
        (inLast? (fun sub => underDots? change sub rest) items).map fun node =>
          fields.replace name node
    | some (.table origin sub) =>
      if origin = .header ∨ (rest = [] ∧ origin = .implied) then none
      else (underDots? change sub rest).map fun sub => fields.replace name (.table origin sub)

/-- Adds an assignment. No key may be assigned twice. -/
def assign? (fields : Fields) (a : Assignment) : Option Fields :=
  underDots?
    (fun fields =>
      match fields.get? a.last with
      | none => some (fields.add a.last (.value a.value))
      | some _ => none)
    fields a.before

/-- Adds several assignments. -/
def assignAll? (fields : Fields) (assignments : List Assignment) : Option Fields :=
  assignments.foldlM assign? fields

mutual

/-- The value that a part of a document has become. -/
def finishNode : Node → Toml
  | .value v => v
  | .table _ fields => .table (finish fields)
  | .tables items => .array (finishEach items)

/-- The fields that a table has in the end. -/
def finish : List (String × Node) → List (String × Toml)
  | [] => []
  | (name, node) :: rest => (name, finishNode node) :: finish rest

/-- The tables that an array of tables has in the end. -/
def finishEach : List (List (String × Node)) → List Toml
  | [] => []
  | fields :: rest => .table (finish fields) :: finishEach rest

end

end Fields

/-- The table of a list of assignments between braces. -/
def inlineTable? (assignments : List Assignment) : Option Toml :=
  (Fields.assignAll? [] assignments).map fun fields => .table (Fields.finish fields)

/-! ### Documents -/

/-- The assignments under a header. -/
structure Section where
  /-- The parts of the header before its last one. -/
  before : List String
  last : String
  /-- Whether the header opens one more table of an array of tables. -/
  isElement : Bool
  assignments : List Assignment
deriving Inhabited

/-- Adds a section. A table has one header at most. -/
def addSection? (root : Fields) (s : Section) : Option Fields :=
  Fields.underHeader?
    (fun fields =>
      match s.isElement, fields.get? s.last with
      | false, none =>
        (Fields.assignAll? [] s.assignments).map fun sub => fields.add s.last (.table .header sub)
      -- A table implied before gets its header now, and moves to the end.
      | false, some (.table .implied sub) =>
        (Fields.assignAll? sub s.assignments).map fun sub =>
          (fields.remove s.last).add s.last (.table .header sub)
      | true, none =>
        (Fields.assignAll? [] s.assignments).map fun sub => fields.add s.last (.tables [sub])
      | true, some (.tables items) =>
        (Fields.assignAll? [] s.assignments).map fun sub =>
          fields.replace s.last (.tables (items ++ [sub]))
      | _, _ => none)
    root s.before

/-- The assignments before the first header, and the sections after it. -/
def sectionsOf : List Statement → List Assignment × List Section
  | [] => ([], [])
  | .assign a :: rest =>
    let (first, sections) := sectionsOf rest
    (a :: first, sections)
  | .header before last :: rest =>
    let (first, sections) := sectionsOf rest
    ([], ⟨before, last, false, first⟩ :: sections)
  | .element before last :: rest =>
    let (first, sections) := sectionsOf rest
    ([], ⟨before, last, true, first⟩ :: sections)

/-- The table that the statements of a document make up. -/
def ofStatements? (statements : List Statement) : Option (List (String × Toml)) :=
  let (first, sections) := sectionsOf statements
  match Fields.assignAll? [] first with
  | none => none
  | some root => (sections.foldlM addSection? root).map Fields.finish

end Toml

end TypedData
