import YupFront.Preferences.Basic

/-! Where preferences come from. A section is made of environment variables, with defaults for what
they do not tell, and then the settings of a document are put into it. -/

namespace YupFront

/-- The keys that are switched on or off. -/
inductive Flag where
  | requireExtension
  | logTimings
  | countKinds
  | logTokens
  | legacyPositions
  | traceRules
  | structured
  | console
  | marksFile
deriving DecidableEq, Repr

namespace Flag

def name : Flag → String
  | requireExtension => "require_yup_extension"
  | logTimings => "enable_performance_logging"
  | countKinds => "collect_detailed_metrics"
  | logTokens => "log_token_dump"
  | legacyPositions => "legacy_positions"
  | traceRules => "trace_rules"
  | structured => "use_structured_logging"
  | console => "enable_console_logging"
  | marksFile => "include_file_context"

def variableName : Flag → String
  | requireExtension => "YUP_REQUIRE_YUP_EXTENSION"
  | logTimings => "YUP_ENABLE_PERFORMANCE_LOGGING"
  | countKinds => "YUP_LEXICAL_DETAILED_METRICS"
  | logTokens => "YUP_LEXICAL_LOG_TOKEN_DUMP"
  | legacyPositions => "YUP_SYNTAX_LEGACY_POSITIONS"
  | traceRules => "YUP_SYNTAX_TRACE_RULES"
  | structured => "YUP_LOGGING_USE_STRUCTURED"
  | console => "YUP_LOGGING_ENABLE_CONSOLE"
  | marksFile => "YUP_LOGGING_INCLUDE_FILE_CONTEXT"

def default : Flag → Bool
  | requireExtension | logTokens | traceRules | structured | console => false
  | logTimings | countKinds | legacyPositions | marksFile => true

end Flag

inductive Key where
  | flag (f : Flag)
  | level
deriving DecidableEq, Repr

def Key.name : Key → String
  | flag f => f.name
  | level => "min_log_level"

inductive Section where
  | loading
  | lexing
  | parsing
  | logging
deriving DecidableEq, Repr

namespace Section

def all : List Section := [loading, lexing, parsing, logging]

def name : Section → String
  | loading => "file_processor"
  | lexing => "lexical"
  | parsing => "syntax"
  | logging => "logging"

/-- The keys of a section in their order. -/
def keys : Section → List Key
  | loading => [.flag .requireExtension, .flag .logTimings]
  | lexing => [.flag .countKinds, .flag .logTokens]
  | parsing => [.flag .legacyPositions, .flag .traceRules]
  | logging => [.flag .structured, .flag .console, .level, .flag .marksFile]

end Section

inductive Setting where
  | flag (f : Flag) (value : Bool)
  | level (value : Level)
deriving DecidableEq, Repr

/-- What a document sets in one section. -/
abbrev Overlay := List Setting

abbrev Environment := List (String × String)

namespace Environment

/-- Flags are spelled `true` and `false`; any other value counts as none. -/
def flag? (f : Flag) (env : Environment) : Option Bool :=
  match env.lookup f.variableName with
  | some "true" => some true
  | some "false" => some false
  | _ => none

def level? (env : Environment) : Option Level :=
  (env.lookup "YUP_LOGGING_MIN_LEVEL").bind Level.ofText?

end Environment

namespace Preferences

def ofValues (flag : Flag → Bool) (level : Level) : Preferences where
  loading := ⟨flag .requireExtension, flag .logTimings⟩
  lexing := ⟨flag .countKinds, flag .logTokens⟩
  parsing := ⟨flag .legacyPositions, flag .traceRules⟩
  logging := ⟨flag .structured, flag .console, level, flag .marksFile⟩

def flag (p : Preferences) : Flag → Bool
  | .requireExtension => p.loading.requireExtension
  | .logTimings => p.loading.logTimings
  | .countKinds => p.lexing.countKinds
  | .logTokens => p.lexing.logTokens
  | .legacyPositions => p.parsing.legacyPositions
  | .traceRules => p.parsing.traceRules
  | .structured => p.logging.structured
  | .console => p.logging.console
  | .marksFile => p.logging.marksFile

theorem flag_ofValues (flag : Flag → Bool) (level : Level) (f : Flag) :
    (ofValues flag level).flag f = flag f := by
  cases f <;> rfl

def ofEnvironment (env : Environment) : Preferences :=
  ofValues (fun f => (env.flag? f).getD f.default) (env.level?.getD .info)

def set (p : Preferences) : Setting → Preferences
  | .flag f value => ofValues (fun g => if g = f then value else p.flag g) p.logging.level
  | .level value => ofValues p.flag value

/-- Preferences with one section as it is given, if it is. What it leaves out is read from the
environment, for this section alone. -/
def ofSection? (env : Environment) (read : α → Option Overlay) : Option α → Option Preferences
  | none => some (ofEnvironment env)
  | some v => (read v).map fun settings => settings.foldl set (ofEnvironment env)

def ofSections? (env : Environment) (read : Section → α → Option Overlay)
    (given : Section → Option α) : Option Preferences := do
  let part (s : Section) := ofSection? env (read s) (given s)
  return ⟨(← part .loading).loading, (← part .lexing).lexing, (← part .parsing).parsing,
    (← part .logging).logging⟩

end Preferences

end YupFront
