import YupFront.Fault
import YupFront.Json.Value

/-! Taking JSON values apart.
Arrays and objects that are looked into may nest to a fixed depth; what is skipped may not be
looked into and so nests freely. -/

namespace YupFront.Json

/-- How deep arrays and objects may nest. -/
def nestingLimit : Nat := 127

/-- Removes the value of a named field; a field that is given twice has no value. -/
def field? (fields : List (Option String × Json)) (name : String) : Option (Option Json) :=
  match fields.filter fun f => f.1 == some name with
  | [] => some none
  | [f] => some (some f.2)
  | _ => none

/-- The named fields of an object, absent ones as `none`, or an array that lists them in order.
Other fields are skipped, but need a key that is a text. -/
def fields? (names : List String) : Json → Option (List (Option Json))
  | .object fields =>
    if fields.all fun f => f.1.isSome then names.mapM (field? fields) else none
  | .array items =>
    if items.length ≤ names.length then
      some (items.map some ++ List.replicate (names.length - items.length) none)
    else none
  | _ => none

def bool? : Json → Option Bool
  | .bool b => some b
  | _ => none

def text? : Json → Option String
  | .string text => text
  | _ => none

/-- A number without sign, point and exponent below `bound`, which has at most twenty digits. -/
def natBelow? (bound : Nat) : Json → Option Nat
  | .number spelling =>
    if spelling.length ≤ 20 && spelling.toList.all Char.isDigit then
      let n := spelling.toList.foldl (fun n c => 10 * n + (c.toNat - '0'.toNat)) 0
      if n < bound then some n else none
    else none
  | _ => none

def optional? (decode : Json → Option α) : Json → Option (Option α)
  | .null => some none
  | v => (decode v).map some

/-- The member of `all` with the given name, which may also be the key of a field `null`. -/
def choice? (all : List α) (name : α → String) (levels : Nat) : Json → Option α
  | .string (some text) => all.find? fun a => name a == text
  | .object [(some text, .null)] =>
    if levels = 0 then none else all.find? fun a => name a == text
  | _ => none

def items? (decode : Json → Option α) : Json → Option (List α)
  | .array items => items.mapM decode
  | _ => none

end YupFront.Json
