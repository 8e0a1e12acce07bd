import YupFront.Toml.Reader

/-! TOML documents: statements, one a line, and the table that they describe. -/

namespace YupFront.Toml

inductive Statement where
  | assign (path : List String) (key : String) (v : Toml)
  | header (path : List String) (key : String)
  | arrayHeader (path : List String) (key : String)

namespace Reader

def header : Reader Statement := do
  expect '['
  if (← peek) = some '[' then
    expect '['
    let (keys, key) ← path
    expect ']'
    expect ']'
    return .arrayHeader keys key
  else
    let (keys, key) ← path
    expect ']'
    return .header keys key

def statementsFrom : Nat → List Statement → Reader (List Statement)
  | 0, _ => failure
  | fuel + 1, done => do
    spaces
    match ← peek with
    | none => return done.reverse
    | some '#' | some '\n' =>
      endLine
      statementsFrom fuel done
    | some '[' =>
      let s ← header
      endLine
      statementsFrom fuel (s :: done)
    | some _ =>
      let (keys, key) ← path
      expect '='
      spaces
      let v ← value nestingLimit
      endLine
      statementsFrom fuel (.assign keys key v :: done)

end Reader

/-- The characters of a text with a newline at the end of each line; a carriage return may stand
nowhere else than in front of a newline. -/
def newlines? (done : List Char) : List Char → Option (List Char)
  | [] => some done.reverse
  | '\r' :: '\n' :: cs => newlines? ('\n' :: done) cs
  | c :: cs => if c = '\r' then none else newlines? (c :: done) cs

/-- A mark of the byte order may begin a text. -/
def withoutMark : List Char → List Char
  | c :: cs => if c.toNat = 0xFEFF then cs else c :: cs
  | [] => []

def statements? (text : String) : Option (List Statement) := do
  let cs ← newlines? [] (withoutMark text.toList)
  let (found, _) ← Reader.statementsFrom (cs.length + 1) [] cs
  return found

/-- The table of a document that is being read, and the path of the table that receives values. -/
structure Draft where
  root : Fields
  current : List String

/-- Makes the table with a header; it may so far only have been a step on the way to others. -/
def openTable? (key : String) (fields : Fields) : Option Fields :=
  match fields.lookup key with
  | none => some (fields ++ [(key, .table .header [])])
  | some (.table .implied inner) => some (replace key (.table .header inner) fields)
  | some _ => none

/-- Adds one more table to those with a name. -/
def openArrayTable? (key : String) (fields : Fields) : Option Fields :=
  match fields.lookup key with
  | none => some (fields ++ [(key, .tables [.table .header []])])
  | some (.tables items) => some (replace key (.tables (items ++ [.table .header []])) fields)
  | some _ => none

def Draft.apply? (d : Draft) : Statement → Option Draft
  | .assign path key v => do
    let root ← modify? false (assign? path key v) d.current .header d.root
    return { d with root }
  | .header path key => do
    let root ← modify? false (fun _ fields => openTable? key fields) path .header d.root
    return ⟨root, path ++ [key]⟩
  | .arrayHeader path key => do
    let root ← modify? false (fun _ fields => openArrayTable? key fields) path .header d.root
    return ⟨root, path ++ [key]⟩

def read? (text : String) : Option Fields := do
  let found ← statements? text
  let final ← found.foldlM Draft.apply? ⟨[], []⟩
  return final.root

end YupFront.Toml
