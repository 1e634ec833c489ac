import TypedData.Limits
import TypedData.Text.Blank
import TypedData.Text.Quoted
import TypedData.Toml.Reader

/-!
# Settings

Limits are set by a TOML document and, over it, by environment variables. What neither of them
sets keeps its default.

## Main definitions

* `Setting` — what can be set
* `Limits.ofToml` — the limits of a document
* `Limits.withVariables` — limits under environment variables
* `SettingsError` — why settings are refused
-/

namespace TypedData

/-- What can be set. -/
inductive Setting where
  | maxDepth
  | maxNumberExponent
deriving Repr, DecidableEq, Inhabited

namespace Setting

/-- The key in a document. -/
def key : Setting → String
  | maxDepth => "max_depth"
  | maxNumberExponent => "max_number_exponent"

/-- The environment variable. -/
def envName : Setting → String
  | maxDepth => "CTY_MAX_DEPTH"
  | maxNumberExponent => "CTY_MAX_NUMBER_EXPONENT"

/-- The setting of a key. -/
def ofKey? (key : String) : Option Setting :=
  [maxDepth, maxNumberExponent].find? (·.key == key)

/-- The kind of number that is expected. -/
def kindName : Setting → String
  | maxDepth => "usize"
  | maxNumberExponent => "u32"

/-- The least number that is too great. -/
def bound : Setting → Nat
  | maxDepth => Nat.pow 2 64
  | maxNumberExponent => Nat.pow 2 32

/-- Sets a limit. -/
def set (s : Setting) (limits : Limits) (n : Nat) : Limits :=
  match s with
  | maxDepth => { limits with maxDepth := n }
  | maxNumberExponent => { limits with maxNumberExponent := n }

end Setting

/-- Why settings are refused. -/
inductive SettingsError where
  /-- The document is not TOML. -/
  | unreadable
  | unknownKey (key : String)
  | notInteger (setting : Setting) (found : Toml)
  | outOfRange (setting : Setting) (found : Int)
  /-- The text of an environment variable is no limit. -/
  | badVariable (setting : Setting) (text : String)
deriving Inhabited

namespace SettingsError

/-- A floating-point number, if finite with at least one decimal place. -/
def floatText (f : Binary64) : String :=
  let s := f.text
  if f.isFinite && !s.toList.contains '.' then s ++ ".0" else s

/-- What stands in place of an integer. -/
def foundText : Toml → String
  | .string s => "string " ++ Text.quoted s
  | .integer n => "integer `" ++ String.ofList (Decimal.intText n) ++ "`"
  | .float f => "floating point `" ++ floatText f ++ "`"
  | .boolean b => "boolean `" ++ (if b then "true" else "false") ++ "`"
  | .moment => "map"
  | .array _ => "sequence"
  | .table _ => "map"

/-- The wording of a settings error. -/
def message : SettingsError → String
  | unreadable => "<toml syntax>"
  | unknownKey key =>
    "unknown field `" ++ key ++ "`, expected `" ++ Setting.maxDepth.key ++ "` or `" ++
      Setting.maxNumberExponent.key ++ "`"
  | notInteger s found =>
    "invalid type: " ++ foundText found ++ ", expected " ++ s.kindName
  | outOfRange s found =>
    "invalid value: " ++ foundText (.integer found) ++ ", expected " ++ s.kindName
  | badVariable s text => s.envName ++ "=" ++ Text.quoted text ++ " is not a valid limit"

/-- The key in the document that an error is about. -/
def key? : SettingsError → Option String
  | unreadable => none
  | unknownKey key => some key
  | notInteger s _ => some s.key
  | outOfRange s _ => some s.key
  | badVariable _ _ => none

end SettingsError

namespace Limits

/-- Applies one field of a document. -/
def withField (limits : Limits) (field : String × Toml) : Except SettingsError Limits :=
  match Setting.ofKey? field.1 with
  | none => .error (.unknownKey field.1)
  | some s =>
    match field.2 with
    | .integer n =>
      if 0 ≤ n ∧ n < s.bound then .ok (s.set limits n.toNat) else .error (.outOfRange s n)
    | found => .error (.notInteger s found)

/-- The limits that a document sets. -/
def ofToml (text : String) : Except SettingsError Limits :=
  match Toml.read? text with
  | none => .error .unreadable
  | some fields => fields.foldlM withField .default

/-- The natural number of a text below a bound: digits, perhaps after a plus sign, and perhaps
between blanks. -/
def ofVariable? (bound : Nat) (text : String) : Option Nat :=
  let ds :=
    match (Text.trim text).toList with
    | '+' :: ds => ds
    | ds => ds
  if ds ≠ [] ∧ ds.all Char.isDigit then
    let n := Decimal.natOfDigits ds
    if n < bound then some n else none
  else none

/-- Applies one environment variable, if it is there. -/
def withVariable (lookup : String → Option String) (limits : Limits) (s : Setting) :
    Except SettingsError Limits :=
  match lookup s.envName with
  | none => .ok limits
  | some text =>
    match ofVariable? s.bound text with
    | some n => .ok (s.set limits n)
    | none => .error (.badVariable s text)

/-- Limits under environment variables. -/
def withVariables (lookup : String → Option String) (limits : Limits) :
    Except SettingsError Limits :=
  [Setting.maxDepth, .maxNumberExponent].foldlM (withVariable lookup) limits

end Limits

end TypedData
