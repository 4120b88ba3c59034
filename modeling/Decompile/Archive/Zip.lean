import Decompile.Archive.Crc32
import Decompile.Archive.Deflate
import Decompile.Disk.Error
import Decompile.Path
import Decompile.Text.Utf8

/-!
# Zip archives

An archive is a row of members, each behind a local header, then a directory of all members, then
an end record that says where the directory is.

- `Zip.Member`, `Zip.write`: members with their contents, and the bytes of an archive of them.
- `Zip.Listed`, `Zip.read`: what the directory says about the members of an archive.
- `Zip.openMember`: the contents of one member.
- `isEnclosed`: a member name that stays below the directory it is unpacked into.
-/

namespace Decompile

/-- Why an archive cannot be read. -/
inductive ArchiveError where
  /-- There is no end record. -/
  | noEndRecord
  /-- The end record says that the directory starts behind it. -/
  | directoryBehindEnd
  /-- There is no directory from where the end record says up to the end record. -/
  | noDirectory
  /-- Something else stands where the directory should go on. -/
  | badDirectory
  /-- A member does not start where the directory says. -/
  | badMember
  /-- The member is encrypted. -/
  | passwordRequired
  /-- The member is compressed in an unknown way. -/
  | unknownMethod
  /-- There is no member of the name. -/
  | noSuchMember
  /-- The bytes of the archive cannot be read. -/
  | io (e : IoError)
  deriving DecidableEq, Repr

/-- The text of an archive failure. -/
def ArchiveError.message : ArchiveError → String
  | .noEndRecord => "invalid Zip archive: Could not find EOCD"
  | .directoryBehindEnd => "invalid Zip archive: Invalid CDFH offset in EOCD"
  | .noDirectory => "invalid Zip archive: No CDFH found"
  | .badDirectory => "invalid Zip archive: Invalid Central Directory header"
  | .badMember => "invalid Zip archive: Invalid local file header"
  | .passwordRequired => "unsupported Zip archive: Password required to decrypt file"
  | .unknownMethod => "unsupported Zip archive: Compression method not supported"
  | .noSuchMember => "specified file not found in archive"
  | .io e => e.message

namespace Zip

/-- A member to be written. -/
structure Member where
  name : String
  contents : List UInt8
  /-- The contents are compressed. -/
  compressed : Bool
  deriving DecidableEq, Repr

/-- The mark for names in UTF-8 among the flags of a member. -/
def wideFlag : Nat := 2048

/-- The name needs the mark for names in UTF-8. -/
def isWide (name : String) : Bool := name.toList.any fun c => 128 ≤ c.toNat

/-- The bytes a member is stored as. -/
def Member.stored (m : Member) : List UInt8 :=
  if m.compressed then Archive.deflate m.contents else m.contents

/-- The fields that the local header and the directory share: flags, method, time, checksum,
sizes and the length of the name, with no further fields. -/
def sharedFields (m : Member) (stored : List UInt8) : List UInt8 :=
  let le := Archive.littleEndian
  le 2 (if isWide m.name then wideFlag else 0) ++ le 2 (if m.compressed then 8 else 0)
    ++ le 2 0 ++ le 2 33 ++ le 4 (Archive.crc32 m.contents).toNat ++ le 4 stored.length
    ++ le 4 m.contents.length ++ le 2 (Text.encode m.name).length ++ le 2 0

/-- How a local header starts. -/
def localSignature : List UInt8 := [0x50, 0x4B, 0x03, 0x04]

/-- How an entry of the directory starts. -/
def listingSignature : List UInt8 := [0x50, 0x4B, 0x01, 0x02]

/-- How an end record starts. -/
def endSignature : List UInt8 := [0x50, 0x4B, 0x05, 0x06]

/-- What stands before the bytes a member is stored as. -/
def localHeader (m : Member) (stored : List UInt8) : List UInt8 :=
  localSignature ++ Archive.littleEndian 2 20 ++ sharedFields m stored ++ Text.encode m.name

/-- A member behind its local header. -/
def entryBytes (m : Member) : List UInt8 :=
  let stored := m.stored
  localHeader m stored ++ stored

/-- The directory's entry for a member that starts at `offset`. -/
def listing (m : Member) (stored : List UInt8) (offset : Nat) : List UInt8 :=
  let le := Archive.littleEndian
  listingSignature ++ le 2 (3 * 256 + 46) ++ le 2 20 ++ sharedFields m stored
    ++ le 2 0 ++ le 2 0 ++ le 2 0 ++ le 4 0 ++ le 4 offset ++ Text.encode m.name

/-- The directory of members of which the first starts at `offset`, and where the last ends. -/
def directory (offset : Nat) : List Member → List UInt8 × Nat
  | [] => ([], offset)
  | m :: ms =>
    let stored := m.stored
    let (rest, after) := directory (offset + (localHeader m stored).length + stored.length) ms
    (listing m stored offset ++ rest, after)

/-- What stands behind the members: the directory and the end record. -/
def ending (ms : List Member) : List UInt8 :=
  let le := Archive.littleEndian
  let (dir, start) := directory 0 ms
  dir ++ endSignature ++ le 2 0 ++ le 2 0 ++ le 2 ms.length ++ le 2 ms.length
    ++ le 4 dir.length ++ le 4 start ++ le 2 0

/-- The bytes of an archive. -/
def write (ms : List Member) : List UInt8 := ms.flatMap entryBytes ++ ending ms

/-! ## Reading -/

/-- The `n` bytes at `offset` as a number, if they are there. -/
def field? (bytes : List UInt8) (offset n : Nat) : Option Nat :=
  let part := (bytes.drop offset).take n
  if part.length = n then some (Archive.readLe part) else none

/-- The characters of the bytes 128 to 255 in names without the mark for UTF-8. -/
def highCharacters : List Char :=
  ("ÇüéâäàåçêëèïîìÄÅÉæÆôöòûùÿÖÜ¢£¥₧ƒáíóúñÑªº¿⌐¬½¼¡«»░▒▓│┤╡╢╖╕╣║╗╝╜╛┐└┴┬├─┼╞╟╚╔╩╦╠═╬╧╨╤╥╙╘╒╓╫╪┘┌█▄▌▐▀" ++
    "αßΓπΣσµτΦΘΩδ∞φε∩≡±≥≤⌠⌡÷≈°∙·√ⁿ²■\u00a0").toList

/-- A byte of a name without the mark for UTF-8. -/
def charOfByte (b : UInt8) : Char :=
  if b.toNat < 128 then Char.ofNat b.toNat
  else highCharacters.getD (b.toNat - 128) Text.replacement

/-- What the directory says about a member. -/
structure Listed where
  name : String
  encrypted : Bool
  method : Nat
  checksum : Nat
  /-- How many bytes it is stored as. -/
  packed : Nat
  /-- Where its local header starts. -/
  offset : Nat
  deriving DecidableEq, Repr

/-- How many bytes an entry of the directory has before the name. -/
def listingLength : Nat := 46

/-- How many bytes a local header has before the name. -/
def localLength : Nat := 30

/-- How many bytes an end record has before the comment. -/
def endLength : Nat := 22

/-- The entry of the directory that some bytes start with, and the bytes after it. Members are
found from `base` on. -/
def readListing (base : Nat) (bytes : List UInt8) :
    Except ArchiveError (Listed × List UInt8) :=
  match field? bytes 8 2, field? bytes 10 2, field? bytes 16 4, field? bytes 20 4,
    field? bytes 28 2, field? bytes 30 2, field? bytes 32 2, field? bytes 42 4 with
  | some flags, some method, some checksum, some packed, some nameLength, some extraLength,
    some commentLength, some offset =>
    let rest := bytes.drop listingLength
    let raw := rest.take nameLength
    let tail := nameLength + extraLength + commentLength
    if !listingSignature.isPrefixOf bytes then .error .badDirectory
    else if (rest.take tail).length < tail then .error (.io .endsEarly)
    else
      let name := if flags / wideFlag % 2 = 1 then Text.decodeLossy raw else raw.map charOfByte
      .ok (⟨String.ofList name, flags % 2 = 1, method, checksum, packed, base + offset⟩,
        rest.drop tail)
  | _, _, _, _, _, _, _, _ => .error (.io .endsEarly)

/-- As many entries of the directory as the end record counts. -/
def readListings (base : Nat) : Nat → List UInt8 → Except ArchiveError (List Listed)
  | 0, _ => .ok []
  | n + 1, bytes => do
    let (l, rest) ← readListing base bytes
    let ls ← readListings base n rest
    return l :: ls

/-- Adds a member; one of the same name is replaced where it stands. -/
def insertListed (l : Listed) : List Listed → List Listed
  | [] => [l]
  | k :: ks => if k.name = l.name then l :: ks else k :: insertListed l ks

/-- Where end records may start, the last first, with the bytes from there on. The first of the
given bytes stand at `pos`, and `earlier` are those found before them. -/
def endCandidates (pos : Nat) (earlier : List (Nat × List UInt8)) :
    List UInt8 → List (Nat × List UInt8)
  | [] => earlier
  | b :: bs =>
    endCandidates (pos + 1)
      (if endSignature.isPrefixOf (b :: bs) then (pos, b :: bs) :: earlier else earlier) bs

/-- Where `part` first stands in some bytes. -/
def firstMatch? (part : List UInt8) (pos : Nat) : List UInt8 → Option Nat
  | [] => none
  | b :: bs => if part.isPrefixOf (b :: bs) then some pos else firstMatch? part (pos + 1) bs

/-- What an end record leads to. -/
structure Located where
  /-- How many bytes stand before the archive. -/
  base : Nat
  /-- How many members there are. -/
  count : Nat
  /-- The directory and all that follows. -/
  directory : List UInt8
  deriving DecidableEq, Repr

/-- Follows the end record that starts at `pos`. The directory starts where the record says, or at
the first place after that which looks like it. -/
def locate (bytes : List UInt8) (pos : Nat) (record : List UInt8) : Except ArchiveError Located :=
  match field? record 10 2, field? record 16 4, field? record 20 2 with
  | some count, some start, some commentLength =>
    if record.length < endLength + commentLength then .error (.io .endsEarly)
    -- an archive without members needs no directory
    else if count = 0 then .ok ⟨0, 0, []⟩
    else if pos ≤ start then .error .directoryBehindEnd
    else
      match firstMatch? listingSignature 0 ((bytes.drop start).take (pos - start)) with
      | none => .error .noDirectory
      | some base => .ok ⟨base, count, bytes.drop (start + base)⟩
  | _, _, _ => .error (.io .endsEarly)

/-- The failure to report after another one: a record that breaks off does not hide it. -/
def worseFailure (earlier : Option ArchiveError) (e : ArchiveError) : Option ArchiveError :=
  match e with
  | .io _ => earlier.or (some e)
  | e => some e

/-- The members that the first usable end record leads to. `failure` is what the directories of
those before it failed of, and `locating` what kept from finding them. -/
def readFrom (bytes : List UInt8) (failure locating : Option ArchiveError) :
    List (Nat × List UInt8) → Except ArchiveError (List Listed)
  | [] => .error ((failure.or locating).getD .noEndRecord)
  | (pos, record) :: rest =>
    match locate bytes pos record with
    | .error e => readFrom bytes failure (worseFailure locating e) rest
    | .ok l =>
      match readListings l.base l.count l.directory with
      -- the record may be part of a comment: an earlier one may be the right one
      | .error e => readFrom bytes (some e) none rest
      | .ok ls => .ok ls

/-- The members of an archive in the order of its directory, each name once. -/
def read (bytes : List UInt8) : Except ArchiveError (List Listed) :=
  (readFrom bytes none none (endCandidates 0 [] bytes)).map fun ls =>
    ls.foldl (fun done l => insertListed l done) []

/-- What reading a member gives: bytes, and a failure met after them. -/
structure Opened where
  contents : List UInt8
  failure : Option IoError
  deriving DecidableEq, Repr

/-- The stored bytes of a member. -/
def packedOf (bytes : List UInt8) (l : Listed) : Except ArchiveError (List UInt8) :=
  let member := bytes.drop l.offset
  match field? member 26 2, field? member 28 2 with
  | some nameLength, some extraLength =>
    if localSignature.isPrefixOf member then
      .ok ((member.drop (localLength + nameLength + extraLength)).take l.packed)
    else .error .badMember
  | _, _ => .error (.io .endsEarly)

/-- Expands stored bytes; methods other than storing and deflating are unknown. -/
def unpack (method : Nat) (packed : List UInt8) : Except ArchiveError (Option (List UInt8)) :=
  if method = 0 then .ok (some packed)
  else if method = 8 then .ok (Archive.inflate packed)
  else .error .unknownMethod

/-- The contents of a member. A wrong checksum shows only when all bytes have been read. -/
def openMember (bytes : List UInt8) (l : Listed) : Except ArchiveError Opened := do
  if l.encrypted then throw .passwordRequired
  match ← unpack l.method (← packedOf bytes l) with
  | none => return ⟨[], some .corruptData⟩
  | some c => return ⟨c, if (Archive.crc32 c).toNat = l.checksum then none else some .badChecksum⟩

/-- The member of a name. -/
def find? (name : String) (ls : List Listed) : Option Listed := ls.find? fun l => l.name == name

/-- The names and contents of all members, if every one can be read without failure. -/
def contents? (bytes : List UInt8) : Option (List (String × List UInt8)) :=
  match read bytes with
  | .error _ => none
  | .ok ls => ls.mapM fun l =>
    match openMember bytes l with
    | .ok ⟨c, none⟩ => some (l.name, c)
    | _ => none

/-- The name is that of a directory. -/
def namesDirectory (name : String) : Bool :=
  match name.toList.getLast? with
  | some c => c == '/' || c == '\\'
  | none => false

/-- Following the steps never leaves the directory in which `depth` names have been entered. -/
def staysBelow : (depth : Nat) → List FilePath.Component → Bool
  | _, [] => true
  | _, .root :: _ => false
  | depth, .here :: cs => staysBelow depth cs
  | depth, .name _ :: cs => staysBelow (depth + 1) cs
  | 0, .up :: _ => false
  | depth + 1, .up :: cs => staysBelow depth cs

/-- A member of this name stays below the directory it is unpacked into. -/
def isEnclosed (name : String) : Bool :=
  !name.toList.contains '\x00' && staysBelow 0 (FilePath.components ⟨name⟩)

end Zip

end Decompile
