import Decompile.Timestamp
import Decompile.Proofs.Text.Decimal

/-!
# Points in time are read as they were written

- `readNumber_decimalPadded`: a number of fixed width, whatever comes behind it that is no digit.
- `readFraction_renderFraction`: a fraction of 0, 3, 6 or 9 digits.
- `readYear_renderYear`: a year, with its sign if it has one.
- `read?_render`: a whole point in time.
-/

namespace Decompile

namespace Timestamp

open Text (decimalPadded isDigit_of_mem_decimalPadded length_decimalPadded
  readDecimal?_decimalPadded trimStart)

/-- The text does not begin with a digit. -/
def NoDigit (cs : List Char) : Prop := ∀ c ∈ cs.head?, c.isDigit = false

/-- Digits are no blanks. -/
theorem isBlank_of_isDigit {c : Char} (hc : c.isDigit = true) : Text.isBlank c = false := by
  have hbounds := Text.isDigit_bounds hc
  simp [Text.isBlank]
  omega

theorem trimStart_decimalPadded (width n : Nat) (rest : List Char) :
    trimStart (decimalPadded width n ++ rest) = decimalPadded width n ++ rest := by
  obtain ⟨c, t, hcons⟩ := List.exists_cons_of_ne_nil (Text.decimalPadded_ne_nil width n)
  have hc : c.isDigit = true := isDigit_of_mem_decimalPadded (hcons ▸ List.mem_cons_self)
  rw [hcons, List.cons_append, Text.trimStart_cons, isBlank_of_isDigit hc]
  rfl

theorem readNumber_of_width {k width n : Nat} (hwidth : (decimalPadded k n).length ≤ width)
    {rest : List Char} (hrest : NoDigit rest) :
    readNumber width (decimalPadded k n ++ rest) = some (n, rest) := by
  have hdigits : (decimalPadded k n ++ rest).takeWhile Char.isDigit = _ :=
    Text.takeWhile_append_stop (fun _ => isDigit_of_mem_decimalPadded) hrest
  rw [readNumber, trimStart_decimalPadded]
  simp only [hdigits]
  rw [List.take_of_length_le hwidth, readDecimal?_decimalPadded, Option.map_some, List.drop_left]

theorem readNumber_decimalPadded {width n : Nat} (hwidth : 0 < width) (hn : n < 10 ^ width)
    {rest : List Char} (hrest : NoDigit rest) :
    readNumber width (decimalPadded width n ++ rest) = some (n, rest) :=
  readNumber_of_width (Nat.le_of_eq (length_decimalPadded hwidth hn)) hrest

theorem readMark_cons {c : Char} (hc : Text.isBlank c = false) (rest : List Char) :
    readMark c (c :: rest) = some rest := by
  rw [readMark, Text.trimStart_cons, hc]
  simp

/-- A number begins with a digit. -/
theorem decimalPadded_cons (width n : Nat) :
    ∃ c t, decimalPadded width n = c :: t ∧ c.isDigit = true := by
  obtain ⟨c, t, hcons⟩ := List.exists_cons_of_ne_nil (Text.decimalPadded_ne_nil width n)
  exact ⟨c, t, hcons, isDigit_of_mem_decimalPadded (hcons ▸ List.mem_cons_self)⟩

/-- What is read behind the sign of a year. -/
theorem readNumber_unsigned (width n : Nat) {rest : List Char} (hrest : NoDigit rest) :
    let cs := decimalPadded width n ++ rest
    cs.head?.any Char.isDigit = true ∧ readNumber cs.length cs = some (n, rest) := by
  constructor
  · obtain ⟨c, t, hcons, hc⟩ := decimalPadded_cons width n
    rw [hcons]
    exact hc
  · refine readNumber_of_width ?_ hrest
    rw [List.length_append]
    exact Nat.le_add_right _ _

/-- A year is read as it was written, with its sign if it has one. -/
theorem readYear_renderYear (year : Int) {rest : List Char} (hrest : NoDigit rest) :
    readYear (renderYear year ++ rest) = some (year, rest) := by
  by_cases hyear : 0 ≤ year ∧ year ≤ 9999
  · obtain ⟨n, rfl⟩ := Int.eq_ofNat_of_zero_le hyear.1
    have hn : n < 10 ^ 4 := by omega
    have hread := readNumber_decimalPadded (by decide) hn hrest
    rw [renderYear, if_pos hyear, Int.toNat_natCast, readYear, trimStart_decimalPadded]
    obtain ⟨c, t, hcons, hc⟩ := decimalPadded_cons 4 n
    rw [hcons, List.cons_append] at hread ⊢
    -- digits are no signs
    split
    next heq =>
      obtain rfl := (List.cons.inj heq).1
      cases hc
    next heq =>
      obtain rfl := (List.cons.inj heq).1
      cases hc
    next => rw [hread, Option.map_some]
  · obtain ⟨hhead, hread⟩ := readNumber_unsigned 4 year.natAbs hrest
    rw [renderYear, if_neg hyear]
    by_cases hsign : year < 0
    · rw [if_pos hsign, List.cons_append, readYear, Text.trimStart_cons]
      simp only [show Text.isBlank '-' = false by decide, Bool.false_eq_true, if_false, hhead, if_true,
        hread, Option.map_some]
      congr 2
      omega
    · rw [if_neg hsign, List.cons_append, readYear, Text.trimStart_cons]
      simp only [show Text.isBlank '+' = false by decide, Bool.false_eq_true, if_false, hhead, if_true,
        hread, Option.map_some]
      congr 2
      omega

theorem readFraction_digits {width n : Nat} (hwidth : 0 < width) (hle : width ≤ 9)
    (hn : n < 10 ^ width) {rest : List Char} (hrest : NoDigit rest) :
    readFraction ('.' :: decimalPadded width n ++ rest) = some (n * Text.tenTo (9 - width), rest) := by
  have hdigits : (decimalPadded width n ++ rest).takeWhile Char.isDigit = _ :=
    Text.takeWhile_append_stop (fun _ => isDigit_of_mem_decimalPadded) hrest
  have hlength := length_decimalPadded hwidth hn
  have htake : (decimalPadded width n).take 9 = decimalPadded width n :=
    List.take_of_length_le (by omega)
  rw [List.cons_append, readFraction]
  simp only [hdigits, htake, hlength, readDecimal?_decimalPadded, Option.map_some]
  rw [List.drop_left' hlength]

/-- **A fraction is read as it was written**, in groups of three digits or not at all. -/
theorem readFraction_renderFraction {n : Nat} (hn : n < 1000000000) (rest : List Char) :
    readFraction (renderFraction n ++ 'Z' :: rest) = some (n, 'Z' :: rest) := by
  have hend : NoDigit ('Z' :: rest) := fun c hc => by
    obtain rfl : 'Z' = c := Option.some.inj hc
    decide
  unfold renderFraction
  split
  · subst n; rfl
  split
  · rw [readFraction_digits (by decide) (by decide) (show n / 1000000 < 10 ^ 3 by omega) hend]
    simp only [Text.tenTo]
    congr 2
    simp; omega
  split
  · rw [readFraction_digits (by decide) (by decide) (show n / 1000 < 10 ^ 6 by omega) hend]
    simp only [Text.tenTo]
    congr 2
    simp; omega
  · rw [readFraction_digits (by decide) (by decide) (show n < 10 ^ 9 by omega) hend]
    simp [Text.tenTo]

/-- A clock that is not ahead of UTC shows the time. -/
theorem ofLocal?_zero (t : Timestamp) :
    ofLocal? t.date t.hour.val t.minute.val t.second.val t.nanos.val 0 = some t := by
  obtain ⟨date, ⟨hour, hhour⟩, ⟨minute, hminute⟩, ⟨second, hsecond⟩, ⟨nanos, hnanos⟩⟩ := t
  have hminutes : ((60 * hour + minute - 0 : Int) % 1440).toNat = 60 * hour + minute := by omega
  have hparts : (60 * hour + minute) / 60 = hour ∧ (60 * hour + minute) % 60 = minute := by omega
  rw [ofLocal?, if_neg (by omega), if_neg (by omega)]
  simp only [hminutes, Option.bind_eq_bind, Option.bind_some, hparts]
  exact dif_pos ⟨hhour, hminute, hsecond, hnanos⟩

theorem noDigit_cons {c : Char} (hc : c.isDigit = false) (cs : List Char) : NoDigit (c :: cs) := by
  intro d hd
  obtain rfl : c = d := Option.some.inj hd
  exact hc

theorem noDigit_renderFraction (n : Nat) (rest : List Char) :
    NoDigit (renderFraction n ++ 'Z' :: rest) := by
  unfold renderFraction
  split
  · exact noDigit_cons (by decide) _
  split
  · exact noDigit_cons (by decide) _
  split
  · exact noDigit_cons (by decide) _
  · exact noDigit_cons (by decide) _

/-- The months and days of a calendar have at most two digits. -/
theorem Date.bounds (d : Date) : d.month ≤ 12 ∧ d.day ≤ 31 := by
  have hday := d.isDay
  simp only [Decompile.isDay, Bool.and_eq_true, decide_eq_true_eq] at hday
  have hmost : daysInMonth d.year d.month ≤ 31 := by
    unfold daysInMonth
    split
    · split <;> omega
    · split <;> omega
  omega

/-- Two readings in a row, the first of which is known. -/
theorem read_bind {α β : Type} {o : Option α} {a : α} {f : α → Option β} {b : Option β}
    (ho : o = some a) (hf : f a = b) : (o >>= f) = b := by
  rw [ho]
  exact hf

/-- **A point in time is read as it was written**, whatever its year. -/
theorem read?_render {t : Timestamp} (hyear : yearInRange t.date.year = true) :
    read? t.render = some t := by
  obtain ⟨hmonth, hday⟩ := Date.bounds t.date
  have hdate : Date.ofNumbers? t.date.year t.date.month t.date.day = some t.date :=
    dif_pos t.date.isDay
  have hoffset : readOffset (Text.trimStart ['Z']) = some (0, []) := by decide
  have hpair : ∀ {n : Nat} {c : Char} {cs : List Char}, n < 100 → c.isDigit = false →
      readNumber 2 (decimalPadded 2 n ++ c :: cs) = some (n, c :: cs) := fun hn hc =>
    readNumber_decimalPadded (by decide) hn (noDigit_cons hc _)
  have hdash : ∀ cs, readMark '-' ('-' :: cs) = some cs := readMark_cons (by decide)
  have hcolon : ∀ cs, readMark ':' (':' :: cs) = some cs := readMark_cons (by decide)
  have hsecond : readNumber 2 (decimalPadded 2 t.second.val ++ _) = _ :=
    readNumber_decimalPadded (by decide) (by omega) (noDigit_renderFraction t.nanos.val [])
  unfold render
  simp only [List.append_assoc, List.cons_append]
  refine read_bind (readYear_renderYear _ (noDigit_cons (by decide) _)) ?_
  refine read_bind (hdash _) (read_bind (hpair (by omega) (by decide)) ?_)
  refine read_bind (hdash _) (read_bind (hpair (by omega) (by decide)) ?_)
  refine read_bind rfl (read_bind (hpair (by omega) (by decide)) ?_)
  refine read_bind (hcolon _) (read_bind (hpair (by omega) (by decide)) ?_)
  refine read_bind (hcolon _) (read_bind hsecond ?_)
  refine read_bind (readFraction_renderFraction t.nanos.isLt []) (read_bind hoffset ?_)
  refine (if_neg ?_).trans (read_bind hdate (ofLocal?_zero t))
  simp [hyear]

end Timestamp

end Decompile
