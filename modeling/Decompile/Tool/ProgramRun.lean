import Decompile.Text.Ascii
import Decompile.Text.Quoted
import Decompile.Text.Utf8
import Decompile.Tool.Invocation

/-!
# Programs that were run

What a program printed and how it ended, and what a stage makes of it.

- `ExitStatus`: how a program ended.
- `linesOf`: the lines of a byte stream, each with the newline that ends it.
- `ProgramRun.lines`: the lines a listener is given; bytes that are no text are replaced.
- `ProgramRun.result`: success whatever was printed; else a report of memory that has run out, found
  in some line, decides.
- `launchFailure`: the program could not be started at all.
-/

namespace Decompile

/-- How a program ended. -/
inductive ExitStatus where
  /-- It returned a number; zero means success. -/
  | code (n : Nat)
  /-- It was ended by a signal. -/
  | signal (n : Nat)
  deriving DecidableEq, Repr

/-- The names of the signals from 1 on. -/
def signalNames : List String :=
  ["SIGHUP", "SIGINT", "SIGQUIT", "SIGILL", "SIGTRAP", "SIGABRT", "SIGBUS", "SIGFPE", "SIGKILL",
   "SIGUSR1", "SIGSEGV", "SIGUSR2", "SIGPIPE", "SIGALRM", "SIGTERM", "SIGSTKFLT", "SIGCHLD",
   "SIGCONT", "SIGSTOP", "SIGTSTP", "SIGTTIN", "SIGTTOU", "SIGURG", "SIGXCPU", "SIGXFSZ",
   "SIGVTALRM", "SIGPROF", "SIGWINCH", "SIGIO", "SIGPWR", "SIGSYS"]

namespace ExitStatus

/-- The program succeeded. -/
def isSuccess : ExitStatus → Bool
  | code n => n == 0
  | signal _ => false

/-- The text of a status. -/
def message : ExitStatus → String
  | code n => "exit status: " ++ countText n
  | signal n =>
    let named := match n with
      | 0 => none
      | k + 1 => signalNames[k]?
    match named with
    | some s => "signal: " ++ countText n ++ " (" ++ s ++ ")"
    | none => "signal: " ++ countText n

end ExitStatus

/-- The byte that ends a line. -/
def newline : UInt8 := 10

/-- The lines of a byte stream, each with the newline that ends it; the last one may have none. -/
def linesOf : Bytes → List Bytes
  | [] => []
  | b :: bs =>
    if b = newline then [b] :: linesOf bs
    else
      match linesOf bs with
      | [] => [[b]]
      | l :: ls => (b :: l) :: ls

/-- A line as text. -/
def lineText (l : Bytes) : String := String.ofList (Text.decodeLossy l)

/-- What a program prints when it has used too much memory. -/
def memoryReport : String := "OutOfMemoryError"

/-- The line reports that memory has run out. -/
def reportsMemory (line : String) : Bool := Text.occursIn memoryReport.toList line.toList

/-- What a program printed and how it ended. -/
structure ProgramRun where
  stdout : Bytes
  stderr : Bytes
  status : ExitStatus
  deriving DecidableEq, Repr

namespace ProgramRun

/-- The lines of both streams. Lines of one stream keep their order. -/
def lines (r : ProgramRun) : List String := (linesOf r.stdout ++ linesOf r.stderr).map lineText

/-- What comes of the call of a program that ran to its end. -/
def result (program : String) (r : ProgramRun) : Except StageError Unit :=
  -- a program may print what it likes as long as it succeeds
  if r.status.isSuccess then .ok ()
  else if r.lines.any reportsMemory then .error (.outOfMemory (program ++ " ran out of memory"))
  else .error (.transient (program ++ " exited with " ++ r.status.message))

end ProgramRun

/-- The failure of a program that could not be started. A program that is not there stays so. -/
def launchFailure (program : String) (e : IoError) : StageError :=
  if e.kind = .notFound then .fatal ("backend tool " ++ program ++ " not found")
  else .transient ("failed to launch " ++ program ++ ": " ++ e.message)

/-- What is logged before a program is started. -/
def launchNotice (i : Invocation) : String :=
  let args := i.args.map fun a => (Text.quote .plain a).toList
  "Launching " ++ i.program ++ " [" ++ String.ofList (Text.joinWith [',', ' '] args) ++ "] ("
    ++ i.note ++ ")"

end Decompile
