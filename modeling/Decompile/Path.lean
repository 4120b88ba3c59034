import Decompile.Text.Ascii

/-!
# File paths

A path is the text it was written as: messages and tool arguments show it unchanged. Questions
about it are answered from its components.

- `FilePath.components`: root, names and parent steps; empty pieces and inner dots do not count.
- `FilePath.join`: one path below another; an absolute one replaces it.
- `FilePath.fileName?`, `parent?`, `stem?`, `extension?`: the parts of the last component.
- `FilePath.relativeTo?`: the components below a given directory.
-/

namespace Decompile

/-- The parts of a text between the separators `sep`; one more than there are separators. -/
def Text.pieces (sep : Char) : List Char → List (List Char)
  | [] => [[]]
  | c :: cs =>
    if c = sep then [] :: Text.pieces sep cs
    else
      match Text.pieces sep cs with
      | [] => [[c]]
      | p :: ps => (c :: p) :: ps

/-- Texts with `sep` between them. -/
def Text.joinWith (sep : List Char) : List (List Char) → List Char
  | [] => []
  | [p] => p
  | p :: ps => p ++ sep ++ Text.joinWith sep ps

/-- A path as it was written. -/
structure FilePath where
  /-- The text of the path. -/
  text : String
  deriving DecidableEq, Repr, Inhabited

namespace FilePath

/-- One step of a path. -/
inductive Component where
  /-- The root directory. -/
  | root
  /-- The directory itself, counted only at the start. -/
  | here
  /-- The parent directory. -/
  | up
  /-- An entry of the directory. -/
  | name (n : String)
  deriving DecidableEq, Repr

/-- The path without any text. -/
def empty : FilePath := ⟨""⟩

/-- The path starts at the root. -/
def isAbsolute (p : FilePath) : Bool := p.text.toList.head? == some '/'

/-- The pieces of the text between slashes. -/
def pieces (p : FilePath) : List (List Char) := Text.pieces '/' p.text.toList

/-- A piece as a component; empty pieces and dots are none. -/
def componentOfPiece (piece : List Char) : Option Component :=
  if piece = [] ∨ piece = ['.'] then none
  else if piece = ['.', '.'] then some .up
  else some (.name (String.ofList piece))

/-- The steps of a path. -/
def components (p : FilePath) : List Component :=
  let steps := p.pieces.filterMap componentOfPiece
  if p.isAbsolute then .root :: steps
  else if p.pieces.head? = some ['.'] then .here :: steps
  else steps

/-- `below` inside the directory `p`; an absolute path replaces `p`. -/
def join (p below : FilePath) : FilePath :=
  if below.isAbsolute || p.text.isEmpty then below
  else if p.text.toList.getLast? = some '/' then ⟨p.text ++ below.text⟩
  else ⟨p.text ++ "/" ++ below.text⟩

/-- The entry `n` of the directory `p`. -/
def child (p : FilePath) (n : String) : FilePath := p.join ⟨n⟩

/-- The last component, if it is a name. -/
def fileName? (p : FilePath) : Option String :=
  match p.components.getLast? with
  | some (.name n) => some n
  | _ => none

/-- A piece that adds no component where it stands after another one. -/
def isIdlePiece (piece : List Char) : Bool := piece == [] || piece == ['.']

/-- The path without its last component; none for the root and the empty path. -/
def parent? (p : FilePath) : Option FilePath :=
  match p.components.getLast? with
  | none | some .root => none
  | some _ =>
    let kept := ((p.pieces.reverse.dropWhile isIdlePiece).drop 1).dropWhile isIdlePiece
    let dotted := p.pieces.head? = some ['.'] && p.components.length > 1
    let text := Text.joinWith ['/'] kept.reverse
    if kept.isEmpty && p.isAbsolute then some ⟨"/"⟩
    else if kept.isEmpty && dotted then some ⟨"."⟩
    else some ⟨String.ofList text⟩

/-- A name split at its last dot; a dot at the start alone does not split. -/
def splitName (n : List Char) : List Char × Option (List Char) :=
  match n.reverse.span (· ≠ '.') with
  -- no dot
  | (_, []) => (n, none)
  -- only the dot at the start
  | (_, [_]) => (n, none)
  | (tail, _ :: lead) => (lead.reverse, some tail.reverse)

/-- The last component up to its extension. -/
def stem? (p : FilePath) : Option String :=
  p.fileName?.map fun n => String.ofList (splitName n.toList).1

/-- What follows the last dot of the last component. -/
def extension? (p : FilePath) : Option String :=
  p.fileName?.bind fun n => (splitName n.toList).2.map String.ofList

/-- The extension is `ext` in any ASCII letter case. -/
def hasExtension (p : FilePath) (ext : String) : Bool :=
  match p.extension? with
  | some e => Text.sameIgnoringCase e.toList ext.toList
  | none => false

/-- What follows `lead` in a list that starts with it. -/
def afterLead : List Component → List Component → Option (List Component)
  | [], cs => some cs
  | _ :: _, [] => none
  | p :: ps, c :: cs => if p = c then afterLead ps cs else none

/-- The components of `p` below the directory `base`. -/
def relativeTo? (p base : FilePath) : Option (List Component) :=
  afterLead base.components p.components

/-- The text of one component. -/
def Component.text : Component → String
  | .root => "/"
  | .here => "."
  | .up => ".."
  | .name n => n

/-- Components with a slash between them. -/
def textOfComponents (cs : List Component) : String :=
  String.ofList (Text.joinWith ['/'] (cs.map fun c => c.text.toList))

end FilePath

end Decompile
