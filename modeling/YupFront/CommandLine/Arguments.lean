import YupFront.Log.Level

/-! The command line: which arguments there are and how they are read, from left to right. What is
wrong with a single argument counts before what is wrong with all of them together. -/

namespace YupFront

inductive Switch where
  | stdin
  | tree
  | noTree
  | json
  | tokens
  | explain
  | sourcePositions
deriving DecidableEq, Repr

namespace Switch

def all : List Switch := [stdin, tree, noTree, json, tokens, explain, sourcePositions]

def name : Switch → String
  | stdin => "stdin"
  | tree => "tree"
  | noTree => "no-tree"
  | json => "json"
  | tokens => "tokens"
  | explain => "explain"
  | sourcePositions => "source-positions"

def ofName? (text : String) : Option Switch := all.find? fun s => s.name == text

end Switch

inductive Input where
  | file (path : String)
  | standard
deriving DecidableEq, Repr

structure Arguments where
  input : Option String
  switches : List Switch
  level : Option Level
  config : Option String
deriving DecidableEq, Repr

namespace Arguments

def none : Arguments := ⟨.none, [], .none, .none⟩

def has (a : Arguments) (s : Switch) : Bool := a.switches.contains s

/-- A file, unless its name is `-` or missing. -/
def source (a : Arguments) : Input :=
  match a.input with
  | .none => .standard
  | some path => if path = "-" then .standard else .file path

def showTree (a : Arguments) : Bool := a.has .tree || !a.has .noTree

/-- An input is wanted exactly once, and not both a tree and no tree. -/
def isConsistent (a : Arguments) : Bool :=
  (a.input.isSome != a.has .stdin) && !(a.has .tree && a.has .noTree)

end Arguments

inductive Request where
  | run (a : Arguments)
  | version
  | help
  | unreadable
deriving DecidableEq, Repr

namespace Request

inductive Valued where
  | level
  | config
deriving DecidableEq, Repr

def Valued.ofName? (name : String) : Option Valued :=
  if name = "log-level" then some .level
  else if name = "config" then some .config
  else none

def setValue? (a : Arguments) (value : String) : Valued → Option Arguments
  | .level =>
    match a.level, Level.ofText? value with
    | .none, some l => some { a with level := some l }
    | _, _ => none
  | .config =>
    match a.config with
    | .none => some { a with config := some value }
    | some _ => none

def setSwitch? (a : Arguments) (s : Switch) : Option Arguments :=
  if a.has s then none else some { a with switches := s :: a.switches }

def setInput? (a : Arguments) (path : String) : Option Arguments :=
  match a.input with
  | .none => some { a with input := some path }
  | some _ => none

def splitValue (text : String) : String × Option String :=
  let cs := text.toList
  match cs.dropWhile (· != '=') with
  | [] => (text, none)
  | _ :: value => (String.ofList (cs.takeWhile (· != '=')), some (String.ofList value))

/-- Whether an argument can be a value or an input: it does not begin with a dash, or is one. -/
def isPlain (text : String) : Bool := !text.startsWith "-" || text == "-"

def finish (a : Arguments) : Request := if a.isConsistent then .run a else .unreadable

/-- Arguments behind `--`, where only an input can be. -/
def readInputs (a : Arguments) : List String → Request
  | [] => finish a
  | text :: rest =>
    match setInput? a text with
    | some a => readInputs a rest
    | none => .unreadable

/-- Letters behind a single dash. -/
def ofLetters (text : String) : Request :=
  match text.toList.tail.head? with
  | some 'V' => .version
  | some 'h' => .help
  | _ => .unreadable

def read (a : Arguments) : List String → Request
  | [] => finish a
  | text :: rest =>
    if text = "--" then readInputs a rest
    else if isPlain text then
      match setInput? a text with
      | some a => read a rest
      | none => .unreadable
    else if !text.startsWith "--" then ofLetters text
    else
      match splitValue (String.ofList (text.toList.drop 2)) with
      | ("version", none) => .version
      | ("help", none) => .help
      | (name, value) =>
        match Valued.ofName? name, value, rest with
        | some option, some value, rest =>
          match setValue? a value option with
          | some a => read a rest
          | none => .unreadable
        | some option, none, value :: rest =>
          if isPlain value then
            match setValue? a value option with
            | some a => read a rest
            | none => .unreadable
          else .unreadable
        | some _, none, [] => .unreadable
        | none, value, rest =>
          match Switch.ofName? name, value with
          | some s, none =>
            match setSwitch? a s with
            | some a => read a rest
            | none => .unreadable
          | _, _ => .unreadable

def ofArguments (arguments : List String) : Request := read .none arguments

end Request

end YupFront
