import YupFront.Log.Level

/-! What a user can choose for a run: ten keys in four sections. -/

namespace YupFront

structure LoadingPreferences where
  /-- Refuse files without the extension of the language. -/
  requireExtension : Bool
  /-- Log how long reading took. -/
  logTimings : Bool
deriving DecidableEq, Repr

structure LexingPreferences where
  /-- Count tokens of each kind. -/
  countKinds : Bool
  /-- Log the whole token sequence. -/
  logTokens : Bool
deriving DecidableEq, Repr

structure ParsingPreferences where
  /-- Report places by token offsets in place of lines and columns. -/
  legacyPositions : Bool
  /-- Log every rule that is entered. -/
  traceRules : Bool
deriving DecidableEq, Repr

structure LoggingPreferences where
  /-- Write events as JSON. -/
  structured : Bool
  /-- Write events that are not errors, too. -/
  console : Bool
  /-- The least urgent level of interest. -/
  level : Level
  /-- Mark events with the file in hand. -/
  marksFile : Bool
deriving DecidableEq, Repr

structure Preferences where
  loading : LoadingPreferences
  lexing : LexingPreferences
  parsing : ParsingPreferences
  logging : LoggingPreferences
deriving DecidableEq, Repr

end YupFront
