import YupFront.File.Host
import YupFront.File.Metadata
import YupFront.Lexer.Analyzer
import YupFront.Source.Lines
import YupFront.Text.Blank
import YupFront.Text.Quoted

/-! Loading a source file. The first check that fails decides the error: the path is blank, leads
nowhere or not to a file, the file is too large, has the wrong extension, is not text or has too
many lines. In between, the host can refuse to tell where the file is, how large it is or what is in
it. -/

namespace YupFront

inductive LoadError where
  | notFound (path : String)
  | wrongExtension (extension : Option String)
  | tooLarge (size limit : Nat)
  | permissionDenied (path : String)
  | notText (path : String)
  | unreadable (message : String)
  | invalidPath (path : String)
  | tooManyLines (lines limit : Nat)
deriving DecidableEq, Repr

namespace LoadError

def message : LoadError → String
  | notFound path => "File not found: " ++ path
  | wrongExtension extension =>
    "Invalid file extension: expected .yup, found " ++ Text.quotedOption extension
  | tooLarge size limit =>
    "File too large: " ++ size.repr ++ " bytes (max: " ++ limit.repr ++ ")"
  | permissionDenied path => "Permission denied: " ++ path
  | notText path => "Invalid UTF-8 encoding in file: " ++ path
  | unreadable message => "I/O error reading file: " ++ message
  | invalidPath path => "Invalid file path: " ++ path
  | tooManyLines lines limit =>
    "File exceeds maximum line count: " ++ lines.repr ++ " (max: " ++ limit.repr ++ ")"

def code : LoadError → Code
  | notFound _ => .fileNotFound
  | wrongExtension _ => .invalidExtension
  | tooLarge _ _ => .fileTooLarge
  | permissionDenied _ => .permissionDenied
  | notText _ => .invalidEncoding
  | unreadable _ => .readFailure
  | invalidPath _ => .invalidPath
  | tooManyLines _ _ => .tooManyLines

/-- What an error of the host is to a loader that wanted to do something with a path. -/
def ofSystem (e : SystemError) (path action : String) : LoadError :=
  match e with
  | .noEntry => notFound path
  | .accessDenied | .notPermitted => permissionDenied path
  | .notText => notText path
  | _ => unreadable ("Failed to " ++ action ++ " '" ++ path ++ "': " ++ e.message)

end LoadError

/-- The text of a source file and what is known about the file. -/
structure Loaded where
  source : String
  metadata : FileMetadata

/-- The host has refused what was asked about a path. What is logged names the path by a key. -/
def deny (e : SystemError) (path action logged : String) (name : String × String) :
    Logging (Except LoadError α) := do
  let failure := LoadError.ofSystem e path action
  log ((Event.error failure.code logged).withKeys [name, ("io_error", e.message)])
  return .error failure

def locate (host : Host) (path : String) : Logging (Except LoadError Location) := do
  if Text.isBlankText path then
    let e := LoadError.invalidPath path
    log (Event.error e.code "Empty file path provided")
    return .error e
  else if !host.isThere path then
    let e := LoadError.notFound path
    log ((Event.error e.code "File not found").withKeys [("path", path)])
    return .error e
  else if !host.isFile path then
    let e := LoadError.invalidPath path
    log ((Event.error e.code "Path is not a regular file").withKeys [("path", path)])
    return .error e
  else
    match host.canonical path with
    | .error e => deny e path "resolve path" "Failed to canonicalize path" ("path", path)
    | .ok location => return .ok location

def FileMetadata.ofFile (location : Location) (size : Nat) : FileMetadata where
  path := location.render
  size := size
  extension := (location.getLast?.bind extension?).map Text.lower
  lineCount := 0

def collectMetadata (host : Host) (location : Location) :
    Logging (Except LoadError FileMetadata) := do
  match host.size location with
  | .error e =>
    deny e location.render "read metadata for" "Failed to read file metadata"
      ("path", location.render)
  | .ok size =>
    let m := FileMetadata.ofFile location size
    log ((Event.debug "File metadata collected").withKeys
      [("size", humanSize m.size), ("extension", m.shownExtension),
        ("is_yup", Event.showBool m.isSource)])
    return .ok m

def checkMetadata (preferences : LoadingPreferences) (path : String) (m : FileMetadata) :
    Logging (Except LoadError Unit) := do
  if Limits.fileSize < m.size then
    let e := LoadError.tooLarge m.size Limits.fileSize
    log ((Event.error e.code "File exceeds maximum size").withKeys
      [("file", path), ("size", humanSize m.size), ("limit", humanSize Limits.fileSize)])
    return .error e
  else if preferences.requireExtension && !m.isSource then
    let e := LoadError.wrongExtension m.extension
    log ((Event.error e.code "File does not have required .yup extension").withKeys
      [("file", path), ("extension", m.shownExtension)])
    return .error e
  else return .ok ()

def readSource (host : Host) (path : String) (location : Location) :
    Logging (Except LoadError String) := do
  match host.readText location with
  | .error e => deny e location.render "read file" "Failed to read file" ("file", path)
  | .ok source =>
    log ((Event.debug "File content read").withKeys
      [("file", path), ("bytes", source.utf8ByteSize.repr), ("chars", source.length.repr)])
    return .ok source

def Loaded.event (preferences : LoadingPreferences) (elapsed : Nat) (path : String) (r : Loaded) :
    Event :=
  (Event.success .fileRead "File read").withKeys <|
    if preferences.logTimings then
      [("duration_ms", renderDuration elapsed), ("file", path),
        ("size", humanSize r.metadata.size), ("lines", r.metadata.lineCount.repr),
        ("chars", r.source.length.repr), ("large_file", Event.showBool r.metadata.isLarge)]
    else [("file", path), ("lines", r.metadata.lineCount.repr)]

def checkLines (path : String) (m : FileMetadata) (source : String) :
    Logging (Except LoadError Loaded) := do
  let m := { m with lineCount := countLines source }
  if m.isWithinLines then return .ok ⟨source, m⟩
  else
    let e := LoadError.tooManyLines m.lineCount Limits.lineCount
    log ((Event.error e.code "File exceeds maximum line count").withKeys
      [("file", path), ("lines", m.lineCount.repr), ("max_lines", Limits.lineCount.repr)])
    return .error e

/-- Loads a source file and logs what happens. -/
def load (preferences : LoadingPreferences) (host : Host) (elapsed : Nat) (path : String) :
    Logging (Except LoadError Loaded) := do
  log ((Event.debug "Starting file processing").withKeys [("file", path)])
  match ← locate host path with
  | .error e => return .error e
  | .ok location =>
    match ← collectMetadata host location with
    | .error e => return .error e
    | .ok m =>
      match ← checkMetadata preferences path m with
      | .error e => return .error e
      | .ok () =>
        match ← readSource host path location with
        | .error e => return .error e
        | .ok source =>
          match ← checkLines path m source with
          | .error e => return .error e
          | .ok loaded =>
            log (loaded.event preferences elapsed path)
            return .ok loaded

end YupFront
