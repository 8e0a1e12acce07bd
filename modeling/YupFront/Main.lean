import YupFront.CommandLine.Run

/-! The program: gathers what a run depends on, and prints what comes of it. -/

namespace YupFront

/-- The names that lead to a path, with detours taken out. -/
def locationOf (home : Location) (path : String) : Location :=
  let start := if path.startsWith "/" then [""] else home
  (FileSystem.names path).foldl (fun l name =>
    if name = "" ∨ name = "." then l else if name = ".." then l.parent else l ++ [name]) start

def entryAt (l : Location) : IO (Option Entry) := do
  let path := (← IO.currentDir) / (if l = [""] then "/" else l.render)
  if ← path.isDir then return some .directory
  else
    try
      return some (.file (← IO.FS.readBinFile path))
    catch _ => return none

/-- The part of the file system that a path runs through. -/
def entriesAlong (home : Location) (path : String) : IO (List (Location × Entry)) := do
  let target := locationOf home path
  let mut found := []
  for n in List.range target.length do
    let l := target.take (n + 1)
    if let some e ← entryAt l then found := (l, e) :: found
  return found

def variableNames : List String :=
  "YUP_LOGGING_MIN_LEVEL" :: (Section.all.flatMap Section.keys).filterMap fun
    | .flag f => some f.variableName
    | .level => none

def readEnvironment : IO Environment := do
  let found ← variableNames.mapM fun name => do return (← IO.getEnv name).map fun v => (name, v)
  return found.filterMap id

def presentMoment : IO Int := do
  try
    let stamp ← IO.FS.withTempFile fun _ path => do return (← path.metadata).modified
    return stamp.sec * 1000 + stamp.nsec.toNat / 1000000
  catch _ => return 0

def readWorld (request : Request) : IO World := do
  let home := (← IO.currentDir).toString.splitOn "/"
  let mut entries := []
  let mut input := ByteArray.empty
  if let .run a := request then
    if let some path := a.config then entries := entries ++ (← entriesAlong home path)
    match a.source with
    | .file path => entries := entries ++ (← entriesAlong home path)
    | .standard => input ← (← IO.getStdin).readBinToEnd
  return ⟨← readEnvironment, ⟨home, entries⟩, input, ← presentMoment, 0⟩

end YupFront

open YupFront in
/-- Runs the program twice: once to find out how long it takes, and once to tell. -/
def main (arguments : List String) : IO UInt32 := do
  let world ← readWorld (Request.ofArguments arguments)
  let begun ← IO.monoNanosNow
  discard <| IO.lazyPure fun _ => CommandLine.run world arguments
  let elapsed := ((← IO.monoNanosNow) - begun) / 1000
  let outcome := CommandLine.run { world with elapsed } arguments
  IO.eprint outcome.errors
  IO.print outcome.output
  return outcome.status.toUInt32
