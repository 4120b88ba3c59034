import Decompile.Path
import Decompile.Text.Decimal

/-!
# Command lines

A command line is a row of words: options common to all commands, the name of a command, and the
options and operands of that command. Common options may also stand behind the name; those win.

- `Request`: what a user wants.
- `OptionRule`, `Level`: which options may stand somewhere, and what values they take.
- `Level.scan`: reads words up to the end, or up to the name of a command.
- `read`: a whole command line. One that cannot be understood is refused as a whole.
-/

namespace Decompile.CommandLine

/-- How one input is to be decompiled; what is left out comes from the preferences. -/
structure RunOptions where
  input : FilePath
  backend : Option String
  targetKey : Option String
  label : Option String
  chunkSize : Option UInt64
  maxAttempts : Option UInt32
  memoryThreshold : Option UInt8
  includeLibraries : Bool
  keepIntermediate : Bool
  /-- Messages are printed as JSON. -/
  json : Bool
  deriving DecidableEq, Repr

/-- New preferences; what is left out stays. -/
structure NewPreferences where
  backend : Option String
  chunkSize : Option UInt64
  maxAttempts : Option UInt32
  memoryThreshold : Option UInt8
  runtime : Option UInt32
  deriving DecidableEq, Repr

/-- What is to be done. -/
inductive Command where
  | run (o : RunOptions)
  | history (json : Bool)
  | backends
  | resume
  | configure (n : NewPreferences)
  deriving DecidableEq, Repr

/-- What a user wants. -/
structure Request where
  storage : FilePath
  /-- The terminal shows more of the log. -/
  verbose : Bool
  command : Command
  deriving DecidableEq, Repr

/-- A command line that asks for no command. -/
inductive Ending where
  | refused
  | help
  | version
  deriving DecidableEq, Repr

/-! ## Options -/

/-- An option that may be given. -/
structure OptionRule where
  long : String
  short : Option Char
  /-- The values it takes; one that takes none is either given or not. -/
  accepts : Option (String → Bool)

/-- Asks for help. -/
def helpOption : OptionRule := ⟨"help", some 'h', none⟩

/-- Asks for the version. -/
def versionOption : OptionRule := ⟨"version", some 'V', none⟩

/-- Any text is a value. -/
def anyText : Option (String → Bool) := some fun _ => true

/-- Every text but the empty one is a value. -/
def someText : Option (String → Bool) := some fun s => s ≠ ""

/-- The digits of a number that may be written with a sign; a minus is for zero only. -/
def readSigned? (bound : Nat) (s : String) : Option Nat :=
  match s.toList with
  | '-' :: digits => (Text.readDecimal? digits).filter (· = 0)
  | cs => Text.readCount? bound cs

/-- A number of 64 bits. -/
def readWide? (s : String) : Option UInt64 :=
  (Text.readCount? UInt64.size s.toList).map UInt64.ofNat

/-- A number of 32 bits. -/
def readMedium? (s : String) : Option UInt32 := (readSigned? UInt32.size s).map UInt32.ofNat

/-- A number of 8 bits. -/
def readSmall? (s : String) : Option UInt8 := (readSigned? 256 s).map UInt8.ofNat

/-- The values that a reader takes. -/
def readBy {α : Type} (read : String → Option α) : Option (String → Bool) :=
  some fun s => (read s).isSome

/-- The options common to all commands. -/
def commonOptions : List OptionRule :=
  [⟨"storage", none, someText⟩, ⟨"verbose", some 'v', none⟩, helpOption]

/-- The options of `run`. -/
def runOptions : List OptionRule :=
  [⟨"backend", some 'b', anyText⟩, ⟨"target-key", none, anyText⟩, ⟨"label", none, anyText⟩,
   ⟨"chunk-size", none, readBy readWide?⟩, ⟨"max-attempts", none, readBy readMedium?⟩,
   ⟨"memory-threshold", none, readBy readSmall?⟩, ⟨"include-libraries", none, none⟩,
   ⟨"keep-intermediate", none, none⟩, ⟨"json", none, none⟩]

/-- The options of `configure`. -/
def configureOptions : List OptionRule :=
  [⟨"backend", none, anyText⟩, ⟨"chunk-size", none, readBy readWide?⟩,
   ⟨"max-attempts", none, readBy readMedium?⟩, ⟨"memory-threshold", none, readBy readSmall?⟩,
   ⟨"runtime-version", none, readBy readMedium?⟩]

/-! ## Words -/

/-- What may stand somewhere on a command line. -/
structure Level where
  options : List OptionRule
  /-- How many operands there are; none where the name of a command is expected. -/
  operands : Option Nat

/-- What has been read. -/
structure Given where
  /-- Options with their values. -/
  options : List (String × String)
  operands : List String

namespace Given

/-- Nothing has been read. -/
def none : Given := ⟨[], []⟩

/-- The value of an option. -/
def value? (g : Given) (long : String) : Option String := g.options.lookup long

/-- The option is given. -/
def has (g : Given) (long : String) : Bool := (g.value? long).isSome

/-- With one more option. Each may be given once. -/
def give (g : Given) (o : OptionRule) (value : String) : Except Ending Given :=
  if o.long = helpOption.long then .error .help
  else if o.long = versionOption.long then .error .version
  else if g.has o.long || !o.accepts.all (· value) then .error .refused
  else .ok { g with options := (o.long, value) :: g.options }

end Given

/-- How far a word has been read. -/
inductive Progress where
  | done (g : Given)
  /-- The next word is the value of the option. -/
  | wants (g : Given) (o : OptionRule)

namespace Level

/-- Reads options of one letter in one word. One that takes a value takes the rest of the word, a
sign of equality before it aside. -/
def takeShorts (l : Level) (g : Given) : List Char → Except Ending Progress
  | [] => .ok (.done g)
  | c :: cs =>
    match l.options.find? fun o => o.short == some c with
    | none => .error .refused
    | some o =>
      match o.accepts, cs with
      | none, cs => (g.give o "").bind fun g => l.takeShorts g cs
      | some _, [] => .ok (.wants g o)
      | some _, '=' :: value => (g.give o (String.ofList value)).map .done
      | some _, value => (g.give o (String.ofList value)).map .done

/-- Reads an option by its name, which a value may follow after a sign of equality. -/
def takeLong (l : Level) (g : Given) (word : List Char) : Except Ending Progress :=
  let (long, value) := word.span (· ≠ '=')
  match l.options.find? fun o => o.long.toList == long with
  | none => .error .refused
  | some o =>
    match o.accepts, value with
    | none, [] => (g.give o "").map .done
    | none, _ => .error .refused
    | some _, [] => .ok (.wants g o)
    | some _, _ :: v => (g.give o (String.ofList v)).map .done

/-- Takes operands. Empty ones are no paths. -/
def takeOperands (l : Level) (g : Given) (words : List String) : Except Ending Given :=
  let operands := g.operands ++ words
  if words.contains "" || l.operands.getD 0 < operands.length then .error .refused
  else .ok { g with operands := operands }

/-- The word is an option, or the mark behind which there are none. -/
def isOption (word : String) : Bool :=
  match word.toList with
  | '-' :: _ :: _ => true
  | _ => false

/-- Reads words. Where the name of a command is expected, what follows it is not read. -/
def scan (l : Level) (g : Given) : List String → Except Ending (Given × List String)
  | [] => .ok (g, [])
  | word :: rest =>
    if !isOption word then
      match l.operands with
      | none => .ok (g, word :: rest)
      | some _ => (l.takeOperands g [word]).bind fun g => l.scan g rest
    -- whatever stands behind this mark is an operand
    else if word = "--" then (l.takeOperands g rest).map fun g => (g, [])
    else
      let progress := match word.toList with
        | '-' :: '-' :: cs => l.takeLong g cs
        | cs => l.takeShorts g (cs.drop 1)
      match progress with
      | .error e => .error e
      | .ok (.done g) => l.scan g rest
      | .ok (.wants g o) =>
        match rest with
        | [] => .error .refused
        | value :: rest =>
          -- an option in place of a value means that the value is missing
          if isOption value then .error .refused
          else (g.give o value).bind fun g => l.scan g rest

end Level

/-! ## Command lines -/

/-- What may stand before the name of a command. -/
def topLevel : Level := ⟨versionOption :: commonOptions, none⟩

/-- What may stand behind the name of a command. -/
def levelOf? : String → Option Level
  | "run" => some ⟨runOptions ++ commonOptions, some 1⟩
  | "history" => some ⟨⟨"json", none, none⟩ :: commonOptions, some 0⟩
  | "backends" | "resume" => some ⟨commonOptions, some 0⟩
  | "configure" => some ⟨configureOptions ++ commonOptions, some 0⟩
  | _ => none

/-- The command of a name with what was given to it. -/
def commandOf? (name : String) (g : Given) : Option Command :=
  match name, g.operands with
  | "run", [input] => some (.run {
      input := ⟨input⟩
      backend := g.value? "backend"
      targetKey := g.value? "target-key"
      label := g.value? "label"
      chunkSize := (g.value? "chunk-size").bind readWide?
      maxAttempts := (g.value? "max-attempts").bind readMedium?
      memoryThreshold := (g.value? "memory-threshold").bind readSmall?
      includeLibraries := g.has "include-libraries"
      keepIntermediate := g.has "keep-intermediate"
      json := g.has "json" })
  | "history", [] => some (.history (g.has "json"))
  | "backends", [] => some .backends
  | "resume", [] => some .resume
  | "configure", [] => some (.configure {
      backend := g.value? "backend"
      chunkSize := (g.value? "chunk-size").bind readWide?
      maxAttempts := (g.value? "max-attempts").bind readMedium?
      memoryThreshold := (g.value? "memory-threshold").bind readSmall?
      runtime := (g.value? "runtime-version").bind readMedium? })
  | _, _ => none

/-- Where everything is kept unless told otherwise. -/
def defaultStorage : String := "./decaf-data"

/-- Asks for help in words: on everything, or on one command. -/
def readHelp (words : List String) : Ending :=
  match words with
  | [] => .help
  | [name] => if (levelOf? name).isSome || name = "help" then .help else .refused
  | _ => .refused

/-- What follows the common options. -/
def readCommand (common : Given) : List String → Except Ending Request
  | [] => .error .refused
  | name :: words =>
    if name = "help" then .error (readHelp words)
    else
      match levelOf? name with
      | none => .error .refused
      | some l => do
        let (g, _) ← l.scan .none words
        match commandOf? name g with
        | none => .error .refused
        | some c =>
          let storage := (g.value? "storage").or (common.value? "storage")
          return ⟨⟨storage.getD defaultStorage⟩, g.has "verbose" || common.has "verbose", c⟩

/-- What the words of a command line ask for. -/
def read (words : List String) : Except Ending Request := do
  let (common, rest) ← topLevel.scan .none words
  readCommand common rest

end Decompile.CommandLine
