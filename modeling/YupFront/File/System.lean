/-! A file system as far as a reader can see it: names that lead to directories and files. -/

namespace YupFront

inductive SystemError where
  | zeroByte
  | nameTooLong
  | noEntry
  | notDirectory
  | isDirectory
  | accessDenied
  | notPermitted
  | notText
  /-- Any other error, with its message. -/
  | other (message : String)
deriving DecidableEq, Repr

def SystemError.message : SystemError → String
  | zeroByte => "file name contained an unexpected NUL byte"
  | nameTooLong => "File name too long (os error 36)"
  | noEntry => "No such file or directory (os error 2)"
  | notDirectory => "Not a directory (os error 20)"
  | isDirectory => "Is a directory (os error 21)"
  | accessDenied => "Permission denied (os error 13)"
  | notPermitted => "Operation not permitted (os error 1)"
  | notText => "stream did not contain valid UTF-8"
  | other message => message

/-- The text that some bytes encode. -/
def textOf (bytes : ByteArray) : Except SystemError String :=
  match String.fromUTF8? bytes with
  | some text => .ok text
  | none => .error .notText

inductive Entry where
  | directory
  | file (bytes : ByteArray)

/-- The names from the root on. -/
abbrev Location := List String

namespace Location

def render (l : Location) : String := String.intercalate "/" l

def parent (l : Location) : Location := if l = [""] then l else l.dropLast

end Location

/-- The newest entry of a location counts. -/
structure FileSystem where
  home : Location
  entries : List (Location × Entry)

namespace FileSystem

/-- What is at a location. All that leads to an entry or to the home is a directory. -/
def find? (s : FileSystem) (l : Location) : Option Entry :=
  match s.entries.find? fun e => e.1 == l with
  | some e => some e.2
  | none =>
    if l.isPrefixOf s.home || s.entries.any fun e => l.isPrefixOf e.1 then some .directory else none

def nameLimit : Nat := 255

def pathLimit : Nat := 4095

def follow (s : FileSystem) (at_ : Location) (entry : Entry) :
    List String → Except SystemError (Location × Entry)
  | [] => .ok (at_, entry)
  | name :: names =>
    match entry with
    | .file _ => .error .notDirectory
    | .directory =>
      if name = "" ∨ name = "." then s.follow at_ .directory names
      else if name = ".." then s.follow at_.parent .directory names
      else if nameLimit < name.utf8ByteSize then .error .nameTooLong
      else
        match s.find? (at_ ++ [name]) with
        | none => .error .noEntry
        | some entry => s.follow (at_ ++ [name]) entry names

def names (path : String) : List String := path.splitOn "/"

/-- A path that begins with a slash begins at the root. -/
def start (s : FileSystem) (path : String) : Location :=
  if path.startsWith "/" then [""] else s.home

/-- What a path leads to. -/
def resolve (s : FileSystem) (path : String) : Except SystemError (Location × Entry) :=
  if path.toList.any fun c => c.toNat == 0 then .error .zeroByte
  else if path = "" then .error .noEntry
  else if pathLimit < path.utf8ByteSize then .error .nameTooLong
  else s.follow (s.start path) .directory (names path)

/-- The locations that are named on the way. -/
def passed (at_ : Location) : List String → List Location
  | [] => []
  | name :: names =>
    if name = "" ∨ name = "." then passed at_ names
    else if name = ".." then passed at_.parent names
    else (at_ ++ [name]) :: passed (at_ ++ [name]) names

/-- No location on the way has too long a path, counted from the root. -/
def WayFits (s : FileSystem) (path : String) : Prop :=
  ∀ l ∈ passed (s.start path) (names path), l.render.utf8ByteSize ≤ pathLimit

instance (s : FileSystem) (path : String) : Decidable (s.WayFits path) :=
  inferInstanceAs (Decidable (∀ l ∈ passed (s.start path) (names path), _))

/-- The location that a path leads to. Each location on the way is looked up by its whole path, which
can be too long although the path that is given is not. -/
def canonical (s : FileSystem) (path : String) : Except SystemError Location :=
  match s.resolve path with
  | .error e => .error e
  | .ok (location, _) => if s.WayFits path then .ok location else .error .nameTooLong

/-- The bytes of the file at a location. -/
def contents (s : FileSystem) (l : Location) : Except SystemError ByteArray :=
  if pathLimit < l.render.utf8ByteSize then .error .nameTooLong
  else
    match s.find? l with
    | none => .error .noEntry
    | some .directory => .error .isDirectory
    | some (.file bytes) => .ok bytes

def readBytes (s : FileSystem) (path : String) : Except SystemError ByteArray :=
  match s.resolve path with
  | .error e => .error e
  | .ok (_, .directory) => .error .isDirectory
  | .ok (_, .file bytes) => .ok bytes

def readText (s : FileSystem) (path : String) : Except SystemError String :=
  match s.readBytes path with
  | .error e => .error e
  | .ok bytes => textOf bytes

theorem follow_of_resolve {s : FileSystem} {path : String} {found : Location × Entry}
    (h : s.resolve path = .ok found) : s.follow (s.start path) .directory (names path) = .ok found := by
  unfold resolve at h
  split at h
  · cases h
  · split at h
    · cases h
    · split at h
      · cases h
      · exact h

/-- A walk that ends at a file has named its location last. -/
theorem file_of_follow {s : FileSystem} {at_ l : Location} {path : List String} {bytes : ByteArray}
    (h : s.follow at_ .directory path = .ok (l, .file bytes)) :
    l ∈ passed at_ path ∧ s.find? l = some (.file bytes) := by
  induction path generalizing at_ with
  | nil => cases h
  | cons name path ih =>
    rw [follow] at h
    rw [passed]
    by_cases hstay : name = "" ∨ name = "."
    · rw [if_pos hstay] at h ⊢
      exact ih h
    · rw [if_neg hstay] at h ⊢
      by_cases hup : name = ".."
      · rw [if_pos hup] at h ⊢
        exact ih h
      · rw [if_neg hup] at h ⊢
        by_cases hlong : nameLimit < name.utf8ByteSize
        · rw [if_pos hlong] at h
          cases h
        · rw [if_neg hlong] at h
          cases hfind : s.find? (at_ ++ [name]) with
          | none => simp [hfind] at h
          | some entry =>
            simp only [hfind] at h
            cases entry with
            | directory =>
              obtain ⟨hpassed, hfound⟩ := ih h
              exact ⟨List.mem_cons_of_mem _ hpassed, hfound⟩
            | file bytes =>
              cases path with
              | nil =>
                cases h
                exact ⟨List.mem_cons_self, hfind⟩
              | cons next path => cases h

section Answers

variable {s : FileSystem} {path : String} {location : Location} {bytes : ByteArray}

theorem canonical_eq_ok {entry : Entry} (h : s.resolve path = .ok (location, entry))
    (hway : s.WayFits path) : s.canonical path = .ok location := by
  simp only [canonical, h, if_pos hway]

theorem contents_eq_ok (h : s.resolve path = .ok (location, .file bytes)) (hway : s.WayFits path) :
    s.contents location = .ok bytes := by
  obtain ⟨hpassed, hfound⟩ := file_of_follow (follow_of_resolve h)
  have hfits := hway location hpassed
  rw [contents, if_neg (Nat.not_lt_of_le hfits), hfound]

end Answers

/-- A path that consists of one name and leads away from where it begins. -/
structure IsName (name : String) : Prop where
  names_eq : names name = [name]
  moves : ¬(name = "" ∨ name = ".") ∧ name ≠ ".."
  relative : ¬name.startsWith "/" = true
  plain : ¬(name.toList.any fun c => c.toNat == 0) = true
  short : name.utf8ByteSize ≤ nameLimit

namespace IsName

variable {s : FileSystem} {name : String}

theorem resolve {entry : Entry} (h : IsName name) (hfind : s.find? (s.home ++ [name]) = some entry) :
    s.resolve name = .ok (s.home ++ [name], entry) := by
  have hempty : ¬name = "" := fun he => h.moves.1 (.inl he)
  have hlimit : nameLimit ≤ pathLimit := by decide
  have hpath : ¬pathLimit < name.utf8ByteSize := Nat.not_lt_of_le (Nat.le_trans h.short hlimit)
  have hname : ¬nameLimit < name.utf8ByteSize := Nat.not_lt_of_le h.short
  rw [FileSystem.resolve, if_neg h.plain, if_neg hempty, if_neg hpath, start, if_neg h.relative,
    h.names_eq, follow, if_neg h.moves.1, if_neg h.moves.2, if_neg hname, hfind]
  cases entry <;> rfl

theorem wayFits (h : IsName name)
    (hfits : (Location.render (s.home ++ [name])).utf8ByteSize ≤ pathLimit) : s.WayFits name := by
  intro l hl
  rw [start, if_neg h.relative, h.names_eq, passed, if_neg h.moves.1, if_neg h.moves.2, passed,
    List.mem_singleton] at hl
  rwa [hl]

end IsName

theorem isName_a : IsName "a" where
  names_eq := by
    rw [names, String.splitOn, if_neg (by decide), String.splitOnAux, if_neg (by decide +kernel),
      if_neg (by decide +kernel), String.splitOnAux, if_pos (by decide +kernel)]
    decide +kernel
  moves := by decide
  relative := by decide +kernel
  plain := by decide +kernel
  short := by decide +kernel

end FileSystem

end YupFront
