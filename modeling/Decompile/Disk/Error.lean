import Decompile.Text.Decimal

/-!
# Failures of file operations

- `Fault`: what the operating system refuses.
- `IoError`: a failure met while reading or writing; besides faults these are contents that are
  not what was asked for, and failures reported by others with a text of their own.
- `IoError.message`: the text of a failure; `IoError.kind`: how it is judged.
-/

namespace Decompile

/-- A refusal of the operating system. -/
inductive Fault where
  | notFound
  | cannotExecute
  | permissionDenied
  | alreadyExists
  | notDirectory
  | isDirectory
  | nameTooLong
  | busy
  | notEmpty
  | tooManyLinks
  deriving DecidableEq, Repr

/-- The number the system gives the refusal. -/
def Fault.code : Fault → Nat
  | .notFound => 2
  | .cannotExecute => 8
  | .permissionDenied => 13
  | .alreadyExists => 17
  | .notDirectory => 20
  | .isDirectory => 21
  | .nameTooLong => 36
  | .busy => 16
  | .notEmpty => 39
  | .tooManyLinks => 40

/-- The words the system has for the refusal. -/
def Fault.description : Fault → String
  | .notFound => "No such file or directory"
  | .cannotExecute => "Exec format error"
  | .permissionDenied => "Permission denied"
  | .alreadyExists => "File exists"
  | .notDirectory => "Not a directory"
  | .isDirectory => "Is a directory"
  | .nameTooLong => "File name too long"
  | .busy => "Device or resource busy"
  | .notEmpty => "Directory not empty"
  | .tooManyLinks => "Too many levels of symbolic links"

/-- How a failure is judged by those who may try again. -/
inductive IoKind where
  | notFound
  | permissionDenied
  | outOfMemory
  | other
  deriving DecidableEq, Repr

/-- A failure of reading or writing. -/
inductive IoError where
  /-- The operating system refused. -/
  | fault (f : Fault)
  /-- The bytes of a text are not UTF-8. -/
  | notText
  /-- A record ends before all of it was read. -/
  | endsEarly
  /-- The bytes do not have the checksum stored with them. -/
  | badChecksum
  /-- Compressed bytes cannot be expanded. -/
  | corruptData
  /-- A failure known by its kind and text. -/
  | reported (kind : IoKind) (text : String)
  deriving DecidableEq, Repr

/-- The text of a failure. -/
def IoError.message : IoError → String
  | .fault f => f.description ++ " (os error " ++ String.ofList (Text.decimal f.code) ++ ")"
  | .notText => "stream did not contain valid UTF-8"
  | .endsEarly => "failed to fill whole buffer"
  | .badChecksum => "Invalid checksum"
  | .corruptData => "corrupt deflate stream"
  | .reported _ text => text

/-- How a failure is judged. -/
def IoError.kind : IoError → IoKind
  | .fault .notFound => .notFound
  | .fault .permissionDenied => .permissionDenied
  | .fault _ => .other
  | .notText | .endsEarly | .badChecksum | .corruptData => .other
  | .reported kind _ => kind

end Decompile
