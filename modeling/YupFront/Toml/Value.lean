/-! Values of TOML documents. -/

namespace YupFront

/-- How a table came to be, which decides who may still add to it. -/
inductive TableForm where
  /-- Written between braces; it is complete. -/
  | inline
  /-- Named by a header. -/
  | header
  /-- Named by a header as a step on the way to another table. -/
  | implied
  /-- Named by a dotted key as a step on the way to a value. -/
  | dotted
deriving DecidableEq, Repr

inductive Toml where
  | text (s : String)
  | integer (n : Int)
  | float (spelling : String)
  | bool (b : Bool)
  | moment (spelling : String)
  | array (items : List Toml)
  | table (form : TableForm) (fields : List (String × Toml))
  /-- Tables with one name, in order. -/
  | tables (items : List Toml)

namespace Toml

abbrev Fields := List (String × Toml)

def replace (key : String) (v : Toml) (fields : Fields) : Fields :=
  fields.map fun f => if f.1 = key then (key, v) else f

def insertNew? (key : String) (v : Toml) (fields : Fields) : Option Fields :=
  match fields.lookup key with
  | none => some (fields ++ [(key, v)])
  | some _ => none

/-- Changes the table at the end of a path. Tables that are missing on the way are made; the last
one stands for tables of one name. A dotted path does not lead into a table that has a header. -/
def modify? (isDotted : Bool) (change : TableForm → Fields → Option Fields) :
    List String → TableForm → Fields → Option Fields
  | [], form, fields => change form fields
  | key :: path, _, fields =>
    match fields.lookup key with
    | none => do
      let form := if isDotted then .dotted else .implied
      let inner ← modify? isDotted change path form []
      return fields ++ [(key, .table form inner)]
    | some (.table form inner) =>
      if form = .inline ∨ (isDotted ∧ form = .header) then none
      else do
        let inner ← modify? isDotted change path form inner
        return replace key (.table form inner) fields
    | some (.tables items) =>
      match items.getLast? with
      | some (.table form inner) => do
        let inner ← modify? isDotted change path form inner
        return replace key (.tables (items.dropLast ++ [.table form inner])) fields
      | _ => none
    | some _ => none

/-- Adds a value at the end of a dotted path. -/
def assign? (path : List String) (key : String) (v : Toml) (form : TableForm) (fields : Fields) :
    Option Fields :=
  modify? true (fun reached inner =>
    if path = [] ∨ reached = .dotted then insertNew? key v inner else none) path form fields

end Toml

end YupFront
