/-!
# ASCII letters and plain search

Letter case is changed for the ASCII letters only; all other characters stand for themselves.

- `isAlnum`: ASCII letters and digits.
- `lower`: a text with its ASCII capitals made small.
- `sameIgnoringCase`: equality up to ASCII case.
- `dropLead?`: the rest of a text after a given start, in any ASCII case or exactly.
- `occursIn`: contiguous search.
-/

namespace Decompile.Text

/-- An ASCII letter or digit. -/
def isAlnum (c : Char) : Bool := c.isAlphanum

/-- The text with `A` to `Z` made small. -/
def lower (cs : List Char) : List Char := cs.map Char.toLower

/-- Equality up to the case of ASCII letters. -/
def sameIgnoringCase (a b : List Char) : Bool := lower a == lower b

/-- What follows `lead` in a text that starts with it, each character compared by `same`. -/
def dropLeadBy (same : Char → Char → Bool) : List Char → List Char → Option (List Char)
  | [], cs => some cs
  | _ :: _, [] => none
  | p :: ps, c :: cs => if same p c then dropLeadBy same ps cs else none

/-- What follows `lead`, in exactly this spelling. -/
def dropLead? (lead cs : List Char) : Option (List Char) := dropLeadBy (· == ·) lead cs

/-- What follows `lead`, in any ASCII letter case. -/
def dropLeadIgnoringCase? (lead cs : List Char) : Option (List Char) :=
  dropLeadBy (fun p c => p.toLower == c.toLower) lead cs

/-- What stands before `tail` in a text that ends with it. -/
def dropTail? (tail cs : List Char) : Option (List Char) :=
  (dropLead? tail.reverse cs.reverse).map List.reverse

/-- `part` stands somewhere in the text without interruption. -/
def occursIn (part : List Char) : List Char → Bool
  | [] => part.isEmpty
  | c :: cs => part.isPrefixOf (c :: cs) || occursIn part cs

theorem dropLeadBy_length {same : Char → Char → Bool} {lead cs rest : List Char}
    (h : dropLeadBy same lead cs = some rest) : cs.length = lead.length + rest.length := by
  induction lead generalizing cs with
  | nil => simp_all [dropLeadBy]
  | cons p ps ih =>
    cases cs with
    | nil => simp [dropLeadBy] at h
    | cons c cs =>
      simp only [dropLeadBy] at h
      split at h
      · have := ih h
        simp only [List.length_cons]
        omega
      · simp at h

/-- Dropping a start that the text was built with gives back the rest. -/
theorem dropLead?_append (lead rest : List Char) : dropLead? lead (lead ++ rest) = some rest := by
  induction lead with
  | nil => rfl
  | cons p ps ih => simpa [dropLead?, dropLeadBy] using ih

theorem eq_append_of_dropLead? {lead cs rest : List Char} (h : dropLead? lead cs = some rest) :
    cs = lead ++ rest := by
  induction lead generalizing cs with
  | nil => simpa [dropLead?, dropLeadBy] using h
  | cons p ps ih =>
    cases cs with
    | nil => simp [dropLead?, dropLeadBy] at h
    | cons c cs =>
      simp only [dropLead?, dropLeadBy] at h
      split at h
      · next hp =>
        rw [beq_iff_eq] at hp
        rw [ih h, hp, List.cons_append]
      · simp at h

end Decompile.Text
