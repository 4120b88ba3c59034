import Decompile.Path
import Decompile.Sha256
import Decompile.Text.Utf8

/-!
# Keys for archives

An input without a key gets one from its file name: the runs of letters and digits in the name,
in small letters with dashes between them, and a short hash of that slug.

- `runs`: the longest pieces of a text that hold only ASCII letters and digits.
- `slug`: the runs joined; `archive` if there are none.
- `keyWith`, `keyOf`: slug and hash, for any hash and for the one in use.
-/

namespace Decompile.Target

/-- The longest pieces of letters and digits. -/
def runs : List Char → List (List Char)
  | [] => []
  | c :: cs =>
    if Text.isAlnum c then
      match cs.head?.any Text.isAlnum, runs cs with
      | true, r :: rs => (c :: r) :: rs
      | _, rs => [c] :: rs
    else runs cs

/-- The slug of a name without letters and digits. -/
def emptySlug : List Char := "archive".toList

/-- The runs of a name in small letters with dashes between them. -/
def slug (name : List Char) : List Char :=
  match runs name with
  | [] => emptySlug
  | rs => Text.joinWith ['-'] (rs.map Text.lower)

/-- A byte as two digits of base 16. -/
def hexPair (b : UInt8) : List Char :=
  [Nat.digitChar (b.toNat / 16), Nat.digitChar (b.toNat % 16)]

/-- The first four bytes of the digest of a text. -/
def shortHash (cs : List Char) : List Char :=
  ((Sha256.sha256 (Text.encodeChars cs)).take 4).flatMap hexPair

/-- The key of a file name, with the hash of its slug behind a dash. -/
def keyWith (hash : List Char → List Char) (fileName : String) : String :=
  let base := ((FilePath.mk fileName).fileName?.getD "").toList
  String.ofList (slug base ++ '-' :: hash (slug base))

/-- The key of a file name. -/
def keyOf (fileName : String) : String := keyWith shortHash fileName

end Decompile.Target
