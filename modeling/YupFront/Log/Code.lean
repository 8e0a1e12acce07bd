/-! Codes of events and findings, and the register that says what the codes of errors and
warnings mean. A code outside the register has neutral answers. -/

namespace YupFront

structure Code where
  text : String
deriving DecidableEq, Repr

inductive Severity where
  | critical
  | high
  | medium
  | low
deriving DecidableEq, Repr

namespace Severity

def all : List Severity := [critical, high, medium, low]

def name : Severity → String
  | critical => "Critical"
  | high => "High"
  | medium => "Medium"
  | low => "Low"

/-- Zero for the worst. -/
def rank : Severity → Nat
  | critical => 0
  | high => 1
  | medium => 2
  | low => 3

def ofName? (text : String) : Option Severity :=
  all.find? fun s => s.name == text

end Severity

structure CodeEntry where
  code : Code
  category : String
  severity : Severity
  recoverable : Bool
  halts : Bool
  description : String
  action : String
deriving DecidableEq, Repr

namespace Code

def genericWarning : Code := ⟨"W000"⟩
def genericInfo : Code := ⟨"I000"⟩
def genericDebug : Code := ⟨"D000"⟩

def internalError : Code := ⟨"ERR001"⟩
def startupFailure : Code := ⟨"ERR002"⟩

def fileNotFound : Code := ⟨"E005"⟩
def invalidExtension : Code := ⟨"E006"⟩
def fileTooLarge : Code := ⟨"E007"⟩
def permissionDenied : Code := ⟨"E009"⟩
def invalidEncoding : Code := ⟨"E010"⟩
def readFailure : Code := ⟨"E011"⟩
def invalidPath : Code := ⟨"E012"⟩
def tooManyLines : Code := ⟨"E013"⟩

def longRun : Code := ⟨"W020"⟩
def manyTokens : Code := ⟨"W021"⟩

def noTokens : Code := ⟨"E041"⟩
def unclosedDelimiter : Code := ⟨"E042"⟩
def missingToken : Code := ⟨"E043"⟩
def invalidFactor : Code := ⟨"E044"⟩
def missingRelation : Code := ⟨"E045"⟩
def unexpectedToken : Code := ⟨"E050"⟩
def unexpectedEnd : Code := ⟨"E051"⟩
def parserFailure : Code := ⟨"E086"⟩
def nestingTooDeep : Code := ⟨"E087"⟩

def requestDropped : Code := ⟨"W010"⟩
def largeInput : Code := ⟨"W011"⟩

def startupComplete : Code := ⟨"I004"⟩
def fileRead : Code := ⟨"I006"⟩
def lexingComplete : Code := ⟨"I020"⟩
def treeComplete : Code := ⟨"I040"⟩
def validationPassed : Code := ⟨"I041"⟩
def runComplete : Code := ⟨"I090"⟩

def register : List CodeEntry :=
  [⟨internalError, "System", .critical, false, true, "Internal compiler error",
      "File a bug report with the input that triggered it"⟩,
    ⟨startupFailure, "System", .critical, false, true,
      "Logging or configuration initialization failure",
      "Check YUP_* environment variables and the build profile"⟩,
    ⟨fileNotFound, "FileProcessing", .medium, false, true, "File not found at specified path",
      "Check file path and ensure file exists"⟩,
    ⟨invalidExtension, "FileProcessing", .low, true, false, "File does not have .yup extension",
      "Rename the file or disable YUP_REQUIRE_YUP_EXTENSION"⟩,
    ⟨fileTooLarge, "FileProcessing", .medium, false, true, "File exceeds maximum size limit",
      "Split the program or build with a larger max_file_size"⟩,
    ⟨permissionDenied, "FileProcessing", .medium, false, true, "Permission denied accessing file",
      "Check file permissions and user access rights"⟩,
    ⟨invalidEncoding, "FileProcessing", .medium, false, true, "File is not valid UTF-8",
      "Re-save the file as UTF-8"⟩,
    ⟨readFailure, "FileProcessing", .high, false, true, "I/O error while reading file",
      "Check the file system and retry"⟩,
    ⟨invalidPath, "FileProcessing", .medium, false, true, "Path is not a regular file",
      "Pass a path to a source file"⟩,
    ⟨tooManyLines, "FileProcessing", .medium, false, true, "File exceeds maximum line count",
      "Split the program or build with a larger max_line_count"⟩,
    ⟨longRun, "Lexical", .low, true, false,
      "Identifier or number run is above the run-length warning threshold",
      "Consider a shorter identifier or literal"⟩,
    ⟨manyTokens, "Lexical", .low, true, false, "Token count is above the warning threshold",
      "Expect slower parsing; consider splitting the program"⟩,
    ⟨noTokens, "Syntax", .low, true, false, "No tokens to parse",
      "Nothing to do; empty input is a valid empty program"⟩,
    ⟨unclosedDelimiter, "Syntax", .medium, true, false, "Block or parenthesis left open",
      "Add the missing closing delimiter"⟩,
    ⟨missingToken, "Syntax", .medium, true, false, "Mandatory token missing from statement",
      "Add the token named in the diagnostic"⟩,
    ⟨invalidFactor, "Syntax", .medium, true, false, "Token cannot start an operand",
      "Use a number, identifier or parenthesized expression"⟩,
    ⟨missingRelation, "Syntax", .medium, true, false, "Condition lacks a relational operator",
      "Compare two expressions with == != < > <= or >="⟩,
    ⟨unexpectedToken, "Syntax", .medium, true, false, "Token cannot start a statement",
      "Start statements with let, if, while, print or an identifier"⟩,
    ⟨unexpectedEnd, "Syntax", .medium, true, false, "Input ended inside an expression",
      "Complete the expression"⟩,
    ⟨parserFailure, "Syntax", .critical, false, true, "Internal parser error",
      "File a bug report with the input that triggered it"⟩,
    ⟨nestingTooDeep, "Syntax", .high, true, false, "Maximum nesting depth exceeded",
      "Reduce nesting of blocks or parentheses"⟩,
    ⟨requestDropped, "Pipeline", .low, true, false,
      "Processing request dropped while another run was active",
      "Resubmit after the active run completes"⟩,
    ⟨largeInput, "Pipeline", .low, true, false, "Input is above the large-file threshold",
      "Expect slower processing"⟩]

def entry? (c : Code) : Option CodeEntry :=
  register.find? fun e => e.code == c

def severity (c : Code) : Severity :=
  (c.entry?.map CodeEntry.severity).getD .medium

def recoverable (c : Code) : Bool :=
  (c.entry?.map CodeEntry.recoverable).getD true

def halts (c : Code) : Bool :=
  (c.entry?.map CodeEntry.halts).getD false

def description (c : Code) : String :=
  (c.entry?.map CodeEntry.description).getD "Unknown error"

def action (c : Code) : String :=
  (c.entry?.map CodeEntry.action).getD "No specific action available"

def category (c : Code) : String :=
  (c.entry?.map CodeEntry.category).getD "Unknown"

def missing? (codes : List Code) : Option Code :=
  codes.find? fun c => c.entry?.isNone

end Code

end YupFront
