/-! The fixed limits of a build and the names it is known by. -/

namespace YupFront.Limits

/-- Files with more bytes are refused. -/
def fileSize : Nat := 10000000

/-- Inputs with more bytes draw a warning. -/
def largeInput : Nat := 1000000

def lineCount : Nat := 1000000

def manyTokens : Nat := 1000000

def longRun : Nat := 4096

/-- How many blocks and parentheses may be open at once. -/
def nesting : Nat := 256

/-- How many open rules a logged context shows. -/
def shownRules : Nat := 64

def logBuffer : Nat := 10000

def messageBytes : Nat := 4096

def eventsPerFile : Nat := 1000

def profile : String := "development"

def directory : String := "config"

def origin : String := "Generated from " ++ directory ++ "/" ++ profile ++ ".toml"

end YupFront.Limits
