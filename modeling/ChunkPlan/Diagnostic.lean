import ChunkPlan.BuildError
import ChunkPlan.Entries

/-!
# Diagnostics

One-line reports of what happened in a build, and the list of codes that they may carry.
-/

set_option autoImplicit false

namespace ChunkPlan

/-- How serious a diagnostic is. -/
inductive Severity where
  | error
  | warning
  | other (label : String)
  deriving DecidableEq, Repr, Inhabited

namespace Severity

def label : Severity → String
  | .error => "error"
  | .warning => "warning"
  | .other label => label

def ofLabel (label : String) : Severity :=
  if label = "error" then .error else if label = "warning" then .warning else .other label

end Severity

structure Diagnostic where
  severity : Severity
  message : String
  file : Option String := none
  place : Place := {}
  deriving DecidableEq, Repr, Inhabited

namespace Diagnostic

def ofError (error : BuildError) (severity : Severity := .error) : Diagnostic :=
  { severity, message := error.summary, file := error.file, place := error.place }

/-- The place as text: the absolute path, then the line, then the column.  A column is only told
after a line. -/
def location (workingDirectory : String) (diagnostic : Diagnostic) : String :=
  let file := match diagnostic.file with
    | some file => Path.absolute workingDirectory file
    | none => ""
  match diagnostic.place.line, diagnostic.place.column with
  | some line, some column => s!"{file}:{line}:{column}"
  | some line, none => s!"{file}:{line}"
  | none, _ => file

def format (workingDirectory : String) (diagnostic : Diagnostic) : String :=
  let location := diagnostic.location workingDirectory
  (if location.isEmpty then "" else location ++ ": ")
    ++ s!"{diagnostic.severity.label}: {diagnostic.message}"

end Diagnostic

def diagnosticCodes : Entries (List String) :=
  [("SRC", ["SRC-0010", "SRC-0020", "SRC-0030", "SRC-0040", "SRC-0050"]),
    ("DEP", ["DEP-0010", "DEP-0020", "DEP-0030"]),
    ("MOD", ["MOD-0010", "MOD-0020", "MOD-0030", "MOD-0040", "MOD-0050", "MOD-0060", "MOD-0070",
      "MOD-0080"]),
    ("CFG", ["CFG-0010", "CFG-0020", "CFG-0030", "CFG-0040", "CFG-0050", "CFG-0060"]),
    ("CMP", ["CMP-0010", "CMP-0020", "CMP-0030"])]

def isRegisteredCode (code : String) : Bool :=
  let family := String.ofList (code.toList.takeWhile (· ≠ '-'))
  ((diagnosticCodes.find? family).getD []).contains code

end ChunkPlan
