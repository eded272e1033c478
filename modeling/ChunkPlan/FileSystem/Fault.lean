import ChunkPlan.Text.Quoted

/-!
# File faults

Why an operation on a file cannot be done, in the numbers and words of the operating system.
-/

set_option autoImplicit false

namespace ChunkPlan

inductive FileFault where
  | missing
  | noDevice
  | exists
  | notDirectory
  | isDirectory
  | nameTooLong
  deriving DecidableEq, Repr, Inhabited

namespace FileFault

def number : FileFault → Nat
  | .missing => 2
  | .noDevice => 6
  | .exists => 17
  | .notDirectory => 20
  | .isDirectory => 21
  | .nameTooLong => 36

def reason : FileFault → String
  | .missing => "No such file or directory"
  | .noDevice => "No such device or address"
  | .exists => "File exists"
  | .notDirectory => "Not a directory"
  | .isDirectory => "Is a directory"
  | .nameTooLong => "File name too long"

end FileFault

/-- A fault and the path that it was met at. -/
structure FileError where
  fault : FileFault
  path : String
  deriving DecidableEq, Repr, Inhabited

def FileError.message (error : FileError) : String :=
  s!"[Errno {error.fault.number}] {error.fault.reason}: {Text.quoted error.path}"

end ChunkPlan
