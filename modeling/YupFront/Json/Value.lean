import YupFront.Json.Lexeme

/-! JSON values, their two written forms and how they are put together from words.
Fields keep their order and may repeat. -/

namespace YupFront

inductive Json where
  | null
  | bool (b : Bool)
  | number (spelling : String)
  | string (text : Option String)
  | array (items : List Json)
  | object (fields : List (Option String × Json))

namespace Json

def text (s : String) : Json := .string (some s)

def nat (n : Nat) : Json := .number n.repr

def record (fields : List (String × Json)) : Json :=
  .object (fields.map fun f => (some f.1, f.2))

/-! Compact form: the words of a value without blank space. -/

mutual

/-- The words of a value, in front of others. -/
def before : Json → List Lexeme → List Lexeme
  | .null, rest => .null :: rest
  | .bool b, rest => .bool b :: rest
  | .number spelling, rest => .number spelling :: rest
  | .string text, rest => .string text :: rest
  | .array [], rest => .openArray :: .closeArray :: rest
  | .array (x :: xs), rest => .openArray :: before x (itemsBefore xs (.closeArray :: rest))
  | .object [], rest => .openObject :: .closeObject :: rest
  | .object (f :: fs), rest => .openObject :: fieldBefore f (fieldsBefore fs (.closeObject :: rest))
termination_by structural v => v

def itemsBefore : List Json → List Lexeme → List Lexeme
  | [], rest => rest
  | x :: xs, rest => .comma :: before x (itemsBefore xs rest)
termination_by structural xs => xs

def fieldsBefore : List (Option String × Json) → List Lexeme → List Lexeme
  | [], rest => rest
  | f :: fs, rest => .comma :: fieldBefore f (fieldsBefore fs rest)
termination_by structural fs => fs

def fieldBefore : Option String × Json → List Lexeme → List Lexeme
  | (key, value), rest => .string key :: .colon :: before value rest
termination_by structural f => f

end

def compact (v : Json) : String :=
  String.join ((v.before []).map Lexeme.write)

/-! Indented form: two blanks a level, a line for each item and field. -/

def newLine (level : Nat) : String :=
  "\n" ++ String.ofList (List.replicate (2 * level) ' ')

mutual

/-- Appends a value to what has been written. -/
def indentedOnto (level : Nat) (out : String) : Json → String
  | .null => out ++ Lexeme.null.write
  | .bool b => out ++ (Lexeme.bool b).write
  | .number spelling => out ++ (Lexeme.number spelling).write
  | .string text => out ++ (Lexeme.string text).write
  | .array [] => out ++ Lexeme.openArray.write ++ Lexeme.closeArray.write
  | .array (x :: xs) =>
    itemsOnto (level + 1)
        (indentedOnto (level + 1) (out ++ Lexeme.openArray.write ++ newLine (level + 1)) x) xs ++
      newLine level ++ Lexeme.closeArray.write
  | .object [] => out ++ Lexeme.openObject.write ++ Lexeme.closeObject.write
  | .object (f :: fs) =>
    fieldsOnto (level + 1)
        (fieldOnto (level + 1) (out ++ Lexeme.openObject.write ++ newLine (level + 1)) f) fs ++
      newLine level ++ Lexeme.closeObject.write
termination_by structural v => v

def itemsOnto (level : Nat) (out : String) : List Json → String
  | [] => out
  | x :: xs =>
    itemsOnto level (indentedOnto level (out ++ Lexeme.comma.write ++ newLine level) x) xs
termination_by structural xs => xs

def fieldsOnto (level : Nat) (out : String) : List (Option String × Json) → String
  | [] => out
  | f :: fs => fieldsOnto level (fieldOnto level (out ++ Lexeme.comma.write ++ newLine level) f) fs
termination_by structural fs => fs

def fieldOnto (level : Nat) (out : String) : Option String × Json → String
  | (key, value) =>
    indentedOnto level (out ++ (Lexeme.string key).write ++ Lexeme.colon.write ++ " ") value
termination_by structural f => f

end

def indented (v : Json) : String :=
  v.indentedOnto 0 ""

/-! Reading: words are taken one by one, and what is still open waits on a stack. -/

/-- An array or object that is not closed yet, with its contents newest first. -/
inductive Frame where
  | array (items : List Json)
  | object (fields : List (Option String × Json)) (key : Option String)

inductive Expected where
  | value
  | valueOrClose
  | keyOrClose (fields : List (Option String × Json))
  | key (fields : List (Option String × Json))
  | colon (fields : List (Option String × Json)) (key : Option String)
  | separator
  | nothing (result : Json)

structure Assembly where
  expected : Expected
  frames : List Frame

namespace Assembly

def start : Assembly := ⟨.value, []⟩

/-- Hands a finished value to the innermost frame. -/
def deliver (v : Json) : List Frame → Assembly
  | [] => ⟨.nothing v, []⟩
  | .array items :: outer => ⟨.separator, .array (v :: items) :: outer⟩
  | .object fields key :: outer => ⟨.separator, .object ((key, v) :: fields) key :: outer⟩

def open? (frames : List Frame) : Lexeme → Option Assembly
  | .null => some (deliver .null frames)
  | .bool b => some (deliver (.bool b) frames)
  | .number spelling => some (deliver (.number spelling) frames)
  | .string text => some (deliver (.string text) frames)
  | .openArray => some ⟨.valueOrClose, .array [] :: frames⟩
  | .openObject => some ⟨.keyOrClose [], frames⟩
  | _ => none

def step? (a : Assembly) (w : Lexeme) : Option Assembly :=
  match a.expected, w with
  | .value, w => open? a.frames w
  | .valueOrClose, .closeArray =>
    match a.frames with
    | .array items :: outer => some (deliver (.array items.reverse) outer)
    | _ => none
  | .valueOrClose, w => open? a.frames w
  | .keyOrClose fields, .closeObject => some (deliver (.object fields.reverse) a.frames)
  | .keyOrClose fields, .string key => some ⟨.colon fields key, a.frames⟩
  | .key fields, .string key => some ⟨.colon fields key, a.frames⟩
  | .colon fields key, .colon => some ⟨.value, .object fields key :: a.frames⟩
  | .separator, .comma =>
    match a.frames with
    | .array _ :: _ => some ⟨.value, a.frames⟩
    | .object fields _ :: outer => some ⟨.key fields, outer⟩
    | [] => none
  | .separator, .closeArray =>
    match a.frames with
    | .array items :: outer => some (deliver (.array items.reverse) outer)
    | _ => none
  | .separator, .closeObject =>
    match a.frames with
    | .object fields _ :: outer => some (deliver (.object fields.reverse) outer)
    | _ => none
  | _, _ => none

def run (a : Assembly) : List Lexeme → Option Assembly
  | [] => some a
  | w :: ws =>
    match a.step? w with
    | some b => b.run ws
    | none => none

def result? (a : Assembly) : Option Json :=
  match a.expected with
  | .nothing v => some v
  | _ => none

end Assembly

/-- Reads one value, with blank space around it and nothing else. -/
def read? (text : String) : Option Json := do
  let words ← lexemes? text
  let final ← Assembly.start.run words
  final.result?

end Json

end YupFront
