import Decompile.Disk.Basic
import Decompile.Disk.Error
import Decompile.Path
import Decompile.Text.Utf8

/-!
# Looking up paths

A path is followed name by name from the root, or from the working directory `cwd` if it is
relative. A parent step leaves the directory reached so far, and a symbolic link continues at its
target.

- `Disk.locate`: the place a path names. The last name need not exist.
- `Disk.entryAt`: what stands there; `exists?`, `isFile`, `isDirectory`: questions about it.
- `Disk.read`: the bytes of a file.
- `Disk.list`, `Disk.walk`: the entries of a directory, and all entries below one.

Both recursions are on the data: `follow` on the names still to take, `locateFrom` on the number of
links that may still be followed.
-/

namespace Decompile

/-- How a path ends, which says what its last name must be. -/
inductive PathEnd where
  /-- With a name: nothing is known about the entry. -/
  | plain
  /-- With a slash: the entry is a directory if it exists. -/
  | slash
  /-- With a dot or a parent step: every name is a directory that exists. -/
  | dots
  deriving DecidableEq, Repr

/-- The names of a path and its parent steps, in order. -/
def FilePath.steps (p : FilePath) : List String :=
  (p.pieces.filter fun x => !FilePath.isIdlePiece x).map String.ofList

/-- How the path ends. -/
def FilePath.ending (p : FilePath) : PathEnd :=
  match p.pieces.reverse.find? (· ≠ []) with
  | none => .dots
  | some last =>
    if last = ['.'] ∨ last = ['.', '.'] then .dots
    else if p.pieces.getLast? = some [] then .slash
    else .plain

/-- Where following names has led. -/
inductive Followed where
  /-- All names are taken. -/
  | arrived (p : Place)
  /-- A link of the directory `p` continues at `target`, and `rest` comes after it. -/
  | redirected (p : Place) (target : String) (rest : List String)
  deriving DecidableEq, Repr

/-- The greatest number of bytes in a name. -/
def nameLimit : Nat := 255

/-- The greatest number of links on the way to an entry. -/
def linkLimit : Nat := 40

namespace Disk

/-- Follows names from the directory `here`. With `free` the last name may be missing, or be
anything; with `through` a link as the last name is followed too. -/
def follow (d : Disk) (free through : Bool) (here : Place) :
    List String → Except IoError Followed
  | [] => .ok (.arrived here)
  | n :: rest =>
    if n = ".." then d.follow free through here.dropLast rest
    else if nameLimit < (Text.encode n).length then .error (.fault .nameTooLong)
    else
      let next := here ++ [n]
      let isFree := free && rest.isEmpty
      match d.find? next with
      | some .directory => d.follow free through next rest
      | some (.link target) =>
        if isFree && !through then .ok (.arrived next) else .ok (.redirected here target rest)
      | some (.file _ _) => if isFree then .ok (.arrived next) else .error (.fault .notDirectory)
      | none => if isFree then .ok (.arrived next) else .error (.fault .notFound)

/-- The ending of a link's target counts where the link was the last name. -/
def endingAfter (target : FilePath) (rest : List String) (ending : PathEnd) : PathEnd :=
  if rest.isEmpty && ending = .plain then target.ending else ending

/-- Follows names and links, at most `links` of these. -/
def locateFrom (d : Disk) (through : Bool) :
    (links : Nat) → PathEnd → Place → List String → Except IoError (Place × PathEnd)
  | links, ending, here, names =>
    match d.follow (ending ≠ .dots) (through || ending ≠ .plain) here names with
    | .error e => .error e
    | .ok (.arrived p) => .ok (p, ending)
    | .ok (.redirected base target rest) =>
      match links with
      | 0 => .error (.fault .tooManyLinks)
      | links + 1 =>
        let t : FilePath := ⟨target⟩
        d.locateFrom through links (endingAfter t rest ending)
          (if t.isAbsolute then [] else base) (t.steps ++ rest)

/-- The place a path names and how the path ends there. -/
def locate (d : Disk) (cwd : Place) (through : Bool) (p : FilePath) :
    Except IoError (Place × PathEnd) :=
  if p.text.toList.contains '\x00' then
    .error (.reported .other "file name contained an unexpected NUL byte")
  else if p.text = "" then .error (.fault .notFound)
  else d.locateFrom through linkLimit p.ending (if p.isAbsolute then [] else cwd) p.steps

/-- The entry a path names, with its place. -/
def entryAt (d : Disk) (cwd : Place) (through : Bool) (p : FilePath) :
    Except IoError (Place × Entry) :=
  match d.locate cwd through p with
  | .error e => .error e
  | .ok (place, ending) =>
    match d.find? place with
    | none => .error (.fault .notFound)
    | some (.file c x) =>
      if ending = .plain then .ok (place, .file c x) else .error (.fault .notDirectory)
    | some e => .ok (place, e)

/-- The path names an entry. -/
def exists? (d : Disk) (cwd : Place) (p : FilePath) : Bool := (d.entryAt cwd true p).isOk

/-- The path names a file. -/
def isFile (d : Disk) (cwd : Place) (p : FilePath) : Bool :=
  match d.entryAt cwd true p with
  | .ok (_, .file _ _) => true
  | _ => false

/-- The path names a directory. -/
def isDirectory (d : Disk) (cwd : Place) (p : FilePath) : Bool :=
  match d.entryAt cwd true p with
  | .ok (_, .directory) => true
  | _ => false

/-- The path names a file that may be run. -/
def isExecutable (d : Disk) (cwd : Place) (p : FilePath) : Bool :=
  match d.entryAt cwd true p with
  | .ok (_, .file _ x) => x
  | _ => false

/-- The contents of the file a path names. -/
def read (d : Disk) (cwd : Place) (p : FilePath) : Except IoError Bytes :=
  match d.entryAt cwd true p with
  | .error e => .error e
  | .ok (_, .file c _) => .ok c
  | .ok _ => .error (.fault .isDirectory)

/-- The entries of the directory a path names, by name. -/
def list (d : Disk) (cwd : Place) (p : FilePath) : Except IoError (List (String × Entry)) :=
  match d.entryAt cwd true p with
  | .error e => .error e
  | .ok (place, .directory) => .ok (d.children place)
  | .ok _ => .error (.fault .notDirectory)

/-- One path below another, name by name. -/
def childPath (root : FilePath) (names : List String) : FilePath :=
  names.foldl FilePath.child root

/-- A file met on a walk: its path, and its name if it is not the root of the walk. -/
structure Found where
  /-- The root of the walk, continued by the names below it. -/
  path : FilePath
  /-- The names below the root of the walk. -/
  names : List String
  /-- The contents. -/
  contents : Bytes
  deriving DecidableEq, Repr

/-- The files at and below a path, depth first and by name. Links are not followed, except the
one that the path itself may name; what cannot be read is passed over. -/
def walk (d : Disk) (cwd : Place) (root : FilePath) : List Found :=
  match d.entryAt cwd false root with
  | .ok (_, .file c _) => [⟨root, [], c⟩]
  | .ok _ =>
    match d.entryAt cwd true root with
    | .ok (place, .directory) =>
      (d.below place).filterMap fun x =>
        match x.2 with
        | .file c _ => some ⟨childPath root x.1, x.1, c⟩
        | _ => none
    | _ => []
  | .error _ => []

end Disk

end Decompile
