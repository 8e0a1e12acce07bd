import YupFront.File.System
import YupFront.Json.Decode
import YupFront.Preferences.Layers
import YupFront.Toml.Document

/-! Preferences in documents. A document may leave out sections and keys, and what it says besides
them is skipped; but a value of a wrong type spoils it. -/

namespace YupFront

/-! TOML. -/

namespace Level

/-- The level with a name, or with a name as the only key of a table that holds nothing else. -/
def ofToml? : Toml → Option Level
  | .text name => all.find? fun l => l.key == name
  | .table _ [(name, .table _ [])] => all.find? fun l => l.key == name
  | .table _ [(name, .array [])] => all.find? fun l => l.key == name
  | _ => none

end Level

def Setting.ofToml? : Key → Toml → Option Setting
  | .flag f, .bool b => some (.flag f b)
  | .flag _, _ => none
  | .level, v => (Level.ofToml? v).map .level

/-- What a section sets. It is a table, or an array of the first values in their order; a date or
time in its place sets nothing. -/
def Section.ofToml? (s : Section) : Toml → Option Overlay
  | .table _ fields => do
    let found ← s.keys.mapM fun k =>
      match fields.lookup k.name with
      | some v => (Setting.ofToml? k v).map some
      | none => some none
    return found.filterMap id
  | .array items => (s.keys.zip items).mapM fun p => Setting.ofToml? p.1 p.2
  | .tables items => (s.keys.zip items).mapM fun p => Setting.ofToml? p.1 p.2
  | .moment _ => some []
  | .text _ | .integer _ | .float _ | .bool _ => none

/-! JSON. -/

def Setting.ofJson? (levels : Nat) : Key → Json → Option Setting
  | .flag f, v => v.bool?.map (.flag f)
  | .level, v => (v.choice? Level.all Level.key levels).map .level

/-- The settings that are there, each read by its own rule. -/
def readSettings? (levels : Nat) : List (Key × Option Json) → Option Overlay
  | [] => some []
  | (_, none) :: rest => readSettings? levels rest
  | (k, some v) :: rest => do
    let setting ← Setting.ofJson? levels k v
    return setting :: (← readSettings? levels rest)

def Section.ofJson? (levels : Nat) (s : Section) (v : Json) : Option Overlay := do
  let values ← v.fields? (s.keys.map Key.name)
  readSettings? levels (s.keys.zip values)

/-! Writing. -/

namespace Preferences

def valueText (p : Preferences) : Key → String
  | .flag f => if p.flag f then "true" else "false"
  | .level => "\"" ++ p.logging.level.key ++ "\""

def toToml (p : Preferences) : String :=
  String.intercalate "\n" <| Section.all.map fun s =>
    "[" ++ s.name ++ "]\n" ++
      String.join (s.keys.map fun k => k.name ++ " = " ++ p.valueText k ++ "\n")

def valueJson (p : Preferences) : Key → Json
  | .flag f => .bool (p.flag f)
  | .level => .text p.logging.level.key

def toJson (p : Preferences) : Json :=
  .record <| Section.all.map fun s =>
    (s.name, .record (s.keys.map fun k => (k.name, p.valueJson k)))

def ofToml? (env : Environment) (text : String) : Option Preferences := do
  let fields ← Toml.read? text
  ofSections? env Section.ofToml? fun s => fields.lookup s.name

def ofJson? (env : Environment) (text : String) : Option Preferences := do
  let v ← Json.read? text
  let values ← v.fields? (Section.all.map Section.name)
  ofSections? env (Section.ofJson? (Json.nestingLimit - 2)) fun s =>
    ((Section.all.zip values).lookup s).join

end Preferences

/-! Documents in files. -/

inductive PreferencesError where
  | unreadable (path : String) (e : SystemError)
  | invalid (path : String)
deriving DecidableEq, Repr

def PreferencesError.message : PreferencesError → String
  | unreadable path e => "Failed to read preferences file '" ++ path ++ "': " ++ e.message
  | invalid path => "Invalid preferences file '" ++ path ++ "'"

def Preferences.load (env : Environment) (system : FileSystem) (path : String) :
    Except PreferencesError Preferences :=
  match system.readText path with
  | .error e => .error (.unreadable path e)
  | .ok text =>
    match ofToml? env text with
    | none => .error (.invalid path)
    | some p => .ok p

end YupFront
