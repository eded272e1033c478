/-!
# Logs

A run records everything that happens, with the level of each message.  What is shown of it, and
how, is decided when the log is written out.
-/

set_option autoImplicit false

namespace ChunkPlan

/-- Levels of detail, from nothing at all up to every file and module. -/
inductive LogLevel where
  | silent
  | error
  | warning
  | info
  | debug
  deriving DecidableEq, Repr, Inhabited

namespace LogLevel

/-- The rank of a level: a message is shown when its rank is not above that of the options. -/
def rank : LogLevel → Nat
  | .silent => 0
  | .error => 3
  | .warning => 6
  | .info => 10
  | .debug => 30

def name : LogLevel → String
  | .silent => "SILENT"
  | .error => "ERROR"
  | .warning => "WARNING"
  | .info => "INFO"
  | .debug => "DEBUG"

def all : List LogLevel := [.silent, .error, .warning, .info, .debug]

def ofName? (name : String) : Option LogLevel := all.find? (·.name = name)

end LogLevel

/-- Options of a run that every stage shares. -/
structure RunOptions where
  /-- The most detailed level that is shown. -/
  level : LogLevel := .warning
  /-- Whether each message is preceded by the time and its level. -/
  rich : Bool := false
  scanHidden : Bool := false
  deriving DecidableEq, Repr, Inhabited

namespace RunOptions

/-- The options of a command line.  Being asked once for more detail shows the progress, three
times shows everything. -/
def ofVerbosity (verbosity : Int) (rich scanHidden : Bool) : RunOptions :=
  { level := if 3 ≤ verbosity then .debug else if 1 ≤ verbosity then .info else .error
    rich, scanHidden }

end RunOptions

inductive LogEntry where
  | message (level : LogLevel) (text : String)
  | elapsed (label : String)
  | always (text : String)
  deriving DecidableEq, Repr, Inhabited

/-- The texts of measured times, which a log is written out with. -/
structure Clock where
  stamp : String
  milliseconds : String
  deriving Repr, Inhabited

namespace LogEntry

/-- The progress of a stage, for a module if one is named. -/
def stage (name : String) (moduleName : String := "") : LogEntry :=
  .message .info (if moduleName.isEmpty then name ++ "..." else s!"{name} module '{moduleName}'")

/-- The line of a message at some level, if it is shown. -/
def levelLine? (options : RunOptions) (clock : Clock) (level : LogLevel) (text : String) :
    Option String :=
  if options.level.rank < level.rank then none
  else if options.rich then some s!"{clock.stamp} [{level.name}] {text}"
  else some text

def line? (options : RunOptions) (clock : Clock) : LogEntry → Option String
  | .message level text => levelLine? options clock level text
  | .elapsed label =>
    levelLine? options clock .info
      (clock.milliseconds ++ " ms." ++ if label.isEmpty then "" else " " ++ label)
  | .always text => some text

end LogEntry

abbrev Log := List LogEntry

def Log.render (options : RunOptions) (clock : Clock) (log : Log) : String :=
  String.join ((log.filterMap (·.line? options clock)).map (· ++ "\n"))

end ChunkPlan
