import Decompile.Proofs.Text.Ascii
import Decompile.Proofs.Text.Lossy
import Decompile.Tool.ProgramRun

/-!
# What a program prints, line by line

Both streams of a program are read at once, and nothing says whose turn it is. Each stream is read up
to a newline; what stands before it is given to the listener as text. The order of turns shows neither
in the lines of one stream nor in what comes of the call.

- `Pump`: one stream and how far it is read; `Pump.next` reads one byte, or learns that there is none.
- `listen`: both streams, read in some order of turns.
- `CutAtNewlines`: what it means that a text is given line by line.
- `OutputLaw`: what the listener was told, and what comes of the call.
- `listen_law`: the law holds for every order of turns, once both streams are read to their ends, and
  every order of enough turns comes there.
-/

namespace Decompile

/-! ## Reading -/

/-- One of the streams that a program prints to. -/
inductive Pipe where
  | stdout
  | stderr
  deriving DecidableEq, Repr

/-- What the program printed to one stream. -/
def ProgramRun.stream (r : ProgramRun) : Pipe → Bytes
  | .stdout => r.stdout
  | .stderr => r.stderr

/-- One stream and how far it is read. -/
structure Pump where
  /-- What is not read yet. -/
  left : Bytes
  /-- The line that is begun. -/
  held : Bytes
  /-- A line has reported that memory has run out. -/
  reported : Bool
  /-- The end of the stream was seen. -/
  ended : Bool
  deriving DecidableEq, Repr

namespace Pump

/-- A stream of which nothing is read. -/
def start (bs : Bytes) : Pump := ⟨bs, [], false, false⟩

/-- Gives a line to the listener. -/
def pass (p : Pump) (left line : Bytes) : Pump × Option String :=
  ({ p with left, held := [], reported := p.reported || reportsMemory (lineText line) },
    some (lineText line))

/-- Reads one byte. At the end of the stream a line that is begun is given first. -/
def next (p : Pump) : Pump × Option String :=
  match p.left with
  | b :: left =>
    if b = newline then p.pass left (p.held ++ [b])
    else ({ p with left, held := p.held ++ [b] }, none)
  | [] => if p.held = [] then ({ p with ended := true }, none) else p.pass [] p.held

end Pump

/-- Both streams, and what the listener was told so far. -/
structure Listening where
  stdout : Pump
  stderr : Pump
  told : List (Pipe × String)
  deriving DecidableEq, Repr

namespace Listening

/-- How far a stream is read. -/
def pump (l : Listening) : Pipe → Pump
  | .stdout => l.stdout
  | .stderr => l.stderr

/-- A turn for one of the streams. -/
def advance (l : Listening) : Pipe → Listening
  | .stdout => { l with stdout := l.stdout.next.1, told := l.told ++ l.stdout.next.2.toList.map (.stdout, ·) }
  | .stderr => { l with stderr := l.stderr.next.1, told := l.told ++ l.stderr.next.2.toList.map (.stderr, ·) }

/-- The lines of one stream that the listener was told. -/
def toldOn (l : Listening) (c : Pipe) : List String := (l.told.filter fun t => t.1 = c).map (·.2)

/-- Both streams are read to their ends. -/
def Ended (l : Listening) : Prop := ∀ c, (l.pump c).ended = true

/-- What comes of the call, once the program has ended too. -/
def result (program : String) (status : ExitStatus) (l : Listening) : Except StageError Unit :=
  if status.isSuccess then .ok ()
  else if l.stdout.reported || l.stderr.reported then .error (.outOfMemory (program ++ " ran out of memory"))
  else .error (.transient (program ++ " exited with " ++ status.message))

end Listening

/-- The streams of a program, read in some order of turns. -/
def listen (r : ProgramRun) (turns : List Pipe) : Listening :=
  turns.foldl Listening.advance ⟨.start r.stdout, .start r.stderr, []⟩

/-! ## Lines -/

variable {b : UInt8} {bs held : Bytes}

theorem linesOf_newline (bs : Bytes) : linesOf (newline :: bs) = [newline] :: linesOf bs := if_pos rfl

/-- The first line and the others. -/
theorem linesOf_append_newline (hheld : newline ∉ held) (bs : Bytes) :
    linesOf (held ++ newline :: bs) = (held ++ [newline]) :: linesOf bs := by
  induction held with
  | nil => exact linesOf_newline bs
  | cons b held ih =>
    rw [List.mem_cons, not_or] at hheld
    rw [List.cons_append, linesOf, if_neg (Ne.symm hheld.1), ih hheld.2]
    rfl

/-- A line that is not ended. -/
theorem linesOf_of_not_mem (hne : held ≠ []) (hheld : newline ∉ held) : linesOf held = [held] := by
  induction held with
  | nil => exact absurd rfl hne
  | cons b held ih =>
    rw [List.mem_cons, not_or] at hheld
    rw [linesOf, if_neg (Ne.symm hheld.1)]
    cases held with
    | nil => rfl
    | cons a held => rw [ih (List.cons_ne_nil a held) hheld.2]

/-! ## Lines as text -/

/-- A text is given line by line: nothing is lost or split inside a line. -/
structure CutAtNewlines (ls : List (List Char)) (cs : List Char) : Prop where
  flatten : ls.flatten = cs
  nonempty : ∀ l ∈ ls, l ≠ []
  /-- A newline stands nowhere but at the end of a line. -/
  inside : ∀ l ∈ ls, '\n' ∉ l.dropLast
  /-- All lines but the last end with a newline. -/
  terminated : ∀ l ∈ ls.dropLast, l.getLast? = some '\n'

namespace CutAtNewlines

variable {l cs part : List Char} {ls : List (List Char)}

theorem nil : CutAtNewlines [] [] := ⟨rfl, nofun, nofun, nofun⟩

/-- A line that is not ended. -/
theorem single (hne : cs ≠ []) (hcs : '\n' ∉ cs) : CutAtNewlines [cs] cs where
  flatten := List.append_nil cs
  nonempty := List.forall_mem_singleton.mpr hne
  inside := List.forall_mem_singleton.mpr fun hmem => hcs (List.mem_of_mem_dropLast hmem)
  terminated := nofun

theorem cons (hl : '\n' ∉ l) (h : CutAtNewlines ls cs) :
    CutAtNewlines ((l ++ ['\n']) :: ls) (l ++ '\n' :: cs) where
  flatten := by rw [List.flatten_cons, h.flatten, List.append_assoc, List.singleton_append]
  nonempty := List.forall_mem_cons.mpr ⟨by simp, h.nonempty⟩
  inside := List.forall_mem_cons.mpr ⟨by rwa [List.dropLast_concat], h.inside⟩
  terminated := by
    intro k hk
    cases ls with
    | nil => cases hk
    | cons m ls =>
      rw [List.dropLast_cons_cons] at hk
      rcases List.mem_cons.mp hk with rfl | hk
      · exact List.getLast?_concat
      · exact h.terminated k hk

/-- What holds no newline is found in a text just if it is found before or behind a newline. -/
theorem infix_append_newline {a : List Char} (hpart : '\n' ∉ part) (hne : part ≠ []) :
    part <:+: a ++ '\n' :: cs ↔ part <:+: a ∨ part <:+: cs := by
  have hlead : ∀ {m rest : List Char}, '\n' ∉ m → m <+: '\n' :: rest → m = [] := by
    intro m rest hm h
    cases m with
    | nil => rfl
    | cons c m => exact absurd (List.mem_cons.mpr (.inl (List.cons_prefix_cons.mp h).1.symm)) hm
  induction a with
  | nil =>
    rw [List.nil_append, List.infix_cons_iff, List.infix_nil]
    exact or_congr_left ⟨fun h => absurd (hlead hpart h) hne, fun h => absurd h hne⟩
  | cons c a ih =>
    rw [List.cons_append, List.infix_cons_iff, List.infix_cons_iff, or_assoc]
    refine or_congr ⟨fun h => ?_, fun h => h.trans (List.prefix_append (c :: a) _)⟩ ih
    -- it cannot reach the newline
    rcases List.prefix_or_prefix_of_prefix h (List.prefix_append (c :: a) _) with hshort | ⟨m, rfl⟩
    · exact hshort
    · have hm : m = [] := hlead (fun hmem => hpart (List.mem_append_right _ hmem))
        ((List.prefix_append_right_inj (c :: a)).mp h)
      rw [hm, List.append_nil]

/-- What holds no newline is found in a text just if it is found in one of its lines. -/
theorem infix_iff (h : CutAtNewlines ls cs) (hpart : '\n' ∉ part) (hne : part ≠ []) :
    part <:+: cs ↔ ∃ l ∈ ls, part <:+: l := by
  obtain ⟨rfl, -, -, hterminated⟩ := h
  induction ls with
  | nil => simp [List.infix_nil, hne]
  | cons l ls ih =>
    rw [List.exists_mem_cons_iff, List.flatten_cons]
    cases ls with
    | nil => simp
    | cons m ls =>
      rw [List.dropLast_cons_cons, List.forall_mem_cons] at hterminated
      obtain ⟨start, rfl⟩ := List.getLast?_eq_some_iff.mp hterminated.1
      have hline : part <:+: start ++ ['\n'] ↔ part <:+: start := by
        rw [infix_append_newline hpart hne, List.infix_nil, or_iff_left hne]
      rw [List.append_assoc, List.singleton_append, infix_append_newline hpart hne,
        ih hterminated.2, hline]

end CutAtNewlines

theorem newline_mem_decodeLossy : '\n' ∈ Text.decodeLossy bs ↔ newline ∈ bs := by
  have hplain : Text.Plain ['\n'] := List.forall_mem_singleton.mpr (not_or.mpr (by decide))
  rw [← List.singleton_infix_iff, Text.infix_decodeLossy_iff hplain,
    show Text.encodeChars ['\n'] = [newline] from by decide, List.singleton_infix_iff]

theorem decodeLossy_concat_newline (bs : Bytes) :
    Text.decodeLossy (bs ++ [newline]) = Text.decodeLossy bs ++ ['\n'] :=
  Text.decodeLossy_append (by decide)

/-- Reading a stream as text and cutting it into lines commute. -/
theorem cutAtNewlines_linesOf (bs : Bytes) :
    CutAtNewlines ((linesOf bs).map Text.decodeLossy) (Text.decodeLossy bs) := by
  by_cases h : newline ∈ bs
  · obtain ⟨line, rest, hbs, hline⟩ := List.eq_append_cons_of_mem h
    have hshorter : rest.length < bs.length := by
      rw [hbs, List.length_append, List.length_cons]
      omega
    rw [hbs, linesOf_append_newline hline, List.map_cons, decodeLossy_concat_newline,
      Text.decodeLossy_append (by decide)]
    exact (cutAtNewlines_linesOf rest).cons (mt newline_mem_decodeLossy.mp hline)
  · cases bs with
    | nil => exact .nil
    | cons b bs =>
      rw [linesOf_of_not_mem (List.cons_ne_nil b bs) h]
      exact .single (Text.decodeLossy_ne_nil (List.cons_ne_nil b bs)) (mt newline_mem_decodeLossy.mp h)
termination_by bs.length

/-! ## Reports -/

/-- The program printed that memory has run out. -/
def ProgramRun.Reports (r : ProgramRun) : Prop := ∃ c, Text.encode memoryReport <:+: r.stream c

/-- The report is found in a stream just if it is found in the text of the stream. -/
theorem infix_report_iff :
    memoryReport.toList <:+: Text.decodeLossy bs ↔ Text.encode memoryReport <:+: bs := by
  refine Text.infix_decodeLossy_iff fun c hc => ?_
  have hascii : memoryReport.toList.all (fun c => c ≠ Char.ofNat 0 ∧ ¬ 0x80 ≤ c.toNat) = true := by decide
  exact not_or.mpr (of_decide_eq_true (List.all_eq_true.mp hascii c hc))

/-- A report is a report of some line. -/
theorem any_reportsMemory_iff :
    ((linesOf bs).map lineText).any reportsMemory = true ↔ Text.encode memoryReport <:+: bs := by
  have hnewline : '\n' ∉ memoryReport.toList := by decide
  have hcut := (cutAtNewlines_linesOf bs).infix_iff hnewline (by decide)
  rw [← infix_report_iff, hcut, List.any_map, List.any_eq_true]
  simp only [List.mem_map, exists_exists_and_eq_and]
  refine exists_congr fun line => and_congr_right fun _ => ?_
  rw [Function.comp_apply, reportsMemory, lineText, String.toList_ofList, Text.occursIn_iff]

theorem any_lines_iff (r : ProgramRun) : r.lines.any reportsMemory = true ↔ r.Reports := by
  rw [ProgramRun.lines, List.map_append, List.any_append, Bool.or_eq_true, any_reportsMemory_iff,
    any_reportsMemory_iff]
  constructor
  · rintro (h | h)
    · exact ⟨.stdout, h⟩
    · exact ⟨.stderr, h⟩
  · rintro ⟨c, h⟩
    cases c with
    | stdout => exact .inl h
    | stderr => exact .inr h

/-! ## One stream -/

namespace Pump

variable {p : Pump} {out : List String}

/-- The lines that were given and those that are to come are the lines of the stream. -/
structure Reads (bs : Bytes) (out : List String) (p : Pump) : Prop where
  lines : out ++ (linesOf (p.held ++ p.left)).map lineText = (linesOf bs).map lineText
  held : newline ∉ p.held
  reported : p.reported = out.any reportsMemory
  ended : p.ended = true → p.held ++ p.left = []

theorem reads_start (bs : Bytes) : Reads bs [] (.start bs) := ⟨rfl, nofun, rfl, nofun⟩

/-- What is given when a line is complete. -/
theorem Reads.pass (h : Reads bs out p) {left line : Bytes} (hended : p.ended ≠ true)
    (hlines : linesOf (p.held ++ p.left) = line :: linesOf left) :
    Reads bs (out ++ (p.pass left line).2.toList) (p.pass left line).1 where
  lines := by
    rw [← h.lines, hlines, List.map_cons, List.append_assoc]
    rfl
  held := nofun
  reported := by
    rw [List.any_append, ← h.reported]
    exact congrArg (p.reported || ·) (Bool.or_false _).symm
  ended h' := absurd h' hended

theorem Reads.next (h : Reads bs out p) : Reads bs (out ++ p.next.2.toList) p.next.1 := by
  unfold Pump.next
  split
  next b left hleft =>
    have hended : p.ended ≠ true := fun hend => by
      have hnil := h.ended hend
      rw [hleft] at hnil
      exact absurd (List.append_eq_nil_iff.mp hnil).2 (List.cons_ne_nil b left)
    split
    · next hb =>
      subst hb
      exact h.pass hended (by rw [hleft, linesOf_append_newline h.held])
    · next hb =>
      rw [Option.toList_none, List.append_nil]
      refine ⟨?_, ?_, h.reported, fun hend => absurd hend hended⟩
      · rw [← h.lines, hleft, List.append_assoc, List.singleton_append]
      · rw [List.mem_append, List.mem_singleton, not_or]
        exact ⟨h.held, Ne.symm hb⟩
  next hleft =>
    split
    · next hheld =>
      rw [Option.toList_none, List.append_nil]
      exact ⟨h.lines, h.held, h.reported, fun _ => by rw [hheld, hleft, List.append_nil]⟩
    · next hheld =>
      have hended : p.ended ≠ true := fun hend => hheld (List.append_eq_nil_iff.mp (h.ended hend)).1
      refine h.pass hended ?_
      rw [hleft, List.append_nil, linesOf_of_not_mem hheld h.held]
      rfl

/-- What was given of a stream that is read to its end. -/
theorem Reads.out_eq (h : Reads bs out p) (hended : p.ended = true) : out = (linesOf bs).map lineText := by
  rw [← h.lines, h.ended hended]
  exact (List.append_nil out).symm

/-- How many turns a stream needs at most to be read to its end. -/
def due (p : Pump) : Nat :=
  if p.ended then 0 else p.left.length + if p.held = [] ∧ p.left = [] then 1 else 2

theorem due_start_le (bs : Bytes) : (start bs).due ≤ bs.length + 2 := by
  show bs.length + (if _ then 1 else 2) ≤ _
  split <;> omega

theorem ended_of_due_eq_zero (h : p.due = 0) : p.ended = true := by
  by_contra hended
  rw [due, if_neg hended] at h
  split at h <;> omega

theorem due_next_le (p : Pump) : p.next.1.due ≤ p.due - 1 := by
  by_cases hended : p.ended = true
  · have hsame : p.next.1.ended = true := by
      unfold next
      split
      · split
        · exact hended
        · exact hended
      · split
        · rfl
        · exact hended
    rw [due, if_pos hsame]
    exact Nat.zero_le _
  have hdue : p.due = p.left.length + if p.held = [] ∧ p.left = [] then 1 else 2 := if_neg hended
  unfold next
  split
  next b left hleft =>
    -- at most two turns are due when the last byte is read
    have hmore : p.due = left.length + 1 + 2 := by
      rw [hdue, hleft, List.length_cons, if_neg (fun h => List.cons_ne_nil b left h.2)]
    have hafter : ∀ held reported, due ⟨left, held, reported, p.ended⟩ ≤ left.length + 2 := by
      intro held reported
      rw [due, if_neg hended]
      show left.length + _ ≤ _
      split <;> omega
    rw [hmore]
    split
    · exact hafter _ _
    · exact hafter _ _
  next hleft =>
    split
    · exact Nat.zero_le _
    · next hheld =>
      have htwo : p.due = 2 := by
        rw [hdue, hleft, if_neg (fun h => hheld h.1)]
        rfl
      have hone : (p.pass [] p.held).1.due = 1 := by
        rw [due, if_neg (show ¬ (p.pass [] p.held).1.ended = true from hended)]
        rfl
      rw [htwo, hone]

end Pump

/-! ## Both streams -/

namespace Listening

variable {l : Listening} {r : ProgramRun}

theorem pump_advance (l : Listening) (c d : Pipe) :
    (l.advance c).pump d = if c = d then (l.pump d).next.1 else l.pump d := by
  cases c <;> cases d <;> rfl

theorem toldOn_advance (l : Listening) (c d : Pipe) :
    (l.advance c).toldOn d = l.toldOn d ++ if c = d then (l.pump d).next.2.toList else [] := by
  have htold : (l.advance c).told = l.told ++ (l.pump c).next.2.toList.map (c, ·) := by cases c <;> rfl
  rw [toldOn, htold, List.filter_append, List.map_append]
  refine congrArg (l.toldOn d ++ ·) ?_
  split
  · next hcd =>
    subst hcd
    cases (l.pump c).next.2 <;> simp
  · next hcd =>
    cases (l.pump c).next.2 <;> simp [hcd]

/-- Each stream is read as if it were the only one. -/
def Hears (r : ProgramRun) (l : Listening) : Prop := ∀ c, (l.pump c).Reads (r.stream c) (l.toldOn c)

theorem Hears.advance (h : Hears r l) (c : Pipe) : Hears r (l.advance c) := by
  intro d
  rw [pump_advance, toldOn_advance]
  split
  · exact (h d).next
  · rw [List.append_nil]
    exact h d

/-- The lines of both streams, in whatever order they were told. -/
theorem told_perm (l : Listening) : (l.told.map (·.2)).Perm (l.toldOn .stdout ++ l.toldOn .stderr) := by
  have hother : ∀ t : Pipe × String, decide (t.1 = .stderr) = !decide (t.1 = .stdout) := by
    rintro ⟨c, -⟩
    cases c <;> rfl
  rw [toldOn, toldOn, ← List.map_append, List.filter_congr fun t _ => hother t]
  exact (List.filter_append_perm (fun t : Pipe × String => decide (t.1 = .stdout)) l.told).symm.map _

end Listening

open Listening

variable {r : ProgramRun} {l : Listening} {turns : List Pipe}

theorem listen_concat (r : ProgramRun) (turns : List Pipe) (c : Pipe) :
    listen r (turns ++ [c]) = (listen r turns).advance c := List.foldl_concat ..

theorem hears_listen (r : ProgramRun) (turns : List Pipe) : Hears r (listen r turns) := by
  induction turns using List.reverseRecOn with
  | nil =>
    intro c
    cases c with
    | stdout => exact Pump.reads_start r.stdout
    | stderr => exact Pump.reads_start r.stderr
  | append_singleton turns c ih =>
    rw [listen_concat]
    exact ih.advance c

/-- Every turn of a stream brings it nearer to its end. -/
theorem due_listen_le (r : ProgramRun) (turns : List Pipe) (c : Pipe) :
    ((listen r turns).pump c).due ≤ (r.stream c).length + 2 - turns.count c := by
  induction turns using List.reverseRecOn with
  | nil =>
    cases c with
    | stdout => exact Pump.due_start_le r.stdout
    | stderr => exact Pump.due_start_le r.stderr
  | append_singleton turns d ih =>
    rw [listen_concat, pump_advance, List.count_append, List.count_singleton]
    by_cases hd : d = c
    · have hnext := Pump.due_next_le ((listen r turns).pump c)
      rw [if_pos hd, if_pos (beq_iff_eq.mpr hd)]
      omega
    · rw [if_neg hd, if_neg (fun h => hd (beq_iff_eq.mp h))]
      exact ih

/-- Enough turns read both streams to their ends. -/
theorem ended_listen (h : ∀ c, (r.stream c).length + 2 ≤ turns.count c) : (listen r turns).Ended := by
  intro c
  have hdue := due_listen_le r turns c
  have hturns := h c
  exact Pump.ended_of_due_eq_zero (by omega)

/-- What the listener was told of a program, and what comes of the call. -/
structure OutputLaw (program : String) (r : ProgramRun) (l : Listening) : Prop where
  /-- Line by line the listener was told the text of each stream. -/
  text : ∀ c, CutAtNewlines ((l.toldOn c).map String.toList) (Text.decodeLossy (r.stream c))
  /-- Nothing else was told. -/
  told : (l.told.map (·.2)).Perm r.lines
  result_eq : l.result program r.status = r.result program
  /-- A program that succeeds may print what it likes. -/
  ok : l.result program r.status = .ok () ↔ r.status.isSuccess = true
  outOfMemory : l.result program r.status = .error (.outOfMemory (program ++ " ran out of memory")) ↔
    r.status.isSuccess = false ∧ r.Reports
  transient : l.result program r.status = .error (.transient (program ++ " exited with " ++ r.status.message)) ↔
    r.status.isSuccess = false ∧ ¬ r.Reports
  /-- A report stands in the bytes of a stream just if it stands in the text. -/
  reports : r.Reports ↔ ∃ c, memoryReport.toList <:+: Text.decodeLossy (r.stream c)

theorem result_cases (program : String) (r : ProgramRun) :
    r.status.isSuccess = true ∧ r.result program = .ok () ∨
    r.status.isSuccess = false ∧ r.Reports ∧
      r.result program = .error (.outOfMemory (program ++ " ran out of memory")) ∨
    r.status.isSuccess = false ∧ ¬ r.Reports ∧
      r.result program = .error (.transient (program ++ " exited with " ++ r.status.message)) := by
  rw [← any_lines_iff, ProgramRun.result]
  cases r.status.isSuccess with
  | true => exact .inl ⟨rfl, rfl⟩
  | false =>
    right
    cases r.lines.any reportsMemory with
    | true => exact .inl ⟨rfl, rfl, rfl⟩
    | false => exact .inr ⟨rfl, nofun, rfl⟩

theorem result_of_ended (program : String) (h : Hears r l) (hended : l.Ended) :
    l.result program r.status = r.result program := by
  have hreported : (l.stdout.reported || l.stderr.reported) = r.lines.any reportsMemory := by
    have hout : l.stdout.reported = (l.toldOn .stdout).any reportsMemory := (h .stdout).reported
    have herr : l.stderr.reported = (l.toldOn .stderr).any reportsMemory := (h .stderr).reported
    rw [hout, herr, (h .stdout).out_eq (hended .stdout), (h .stderr).out_eq (hended .stderr),
      ← List.any_append, ← List.map_append]
    rfl
  rw [Listening.result, hreported]
  rfl

theorem outputLaw_of_ended (program : String) (h : Hears r l) (hended : l.Ended) : OutputLaw program r l := by
  have hout : ∀ c, l.toldOn c = (linesOf (r.stream c)).map lineText := fun c => (h c).out_eq (hended c)
  have hresult := result_of_ended program h hended
  constructor
  case text =>
    intro c
    have htext : (l.toldOn c).map String.toList = (linesOf (r.stream c)).map Text.decodeLossy := by
      rw [hout, List.map_map]
      exact List.map_congr_left fun line _ => String.toList_ofList
    rw [htext]
    exact cutAtNewlines_linesOf _
  case told =>
    have hperm := l.told_perm
    rw [hout, hout, ← List.map_append] at hperm
    exact hperm
  case result_eq => exact hresult
  case reports => exact exists_congr fun c => infix_report_iff.symm
  -- what comes of the call tells the three cases apart
  all_goals
    rw [hresult]
    rcases result_cases program r with ⟨hs, heq⟩ | ⟨hs, hr, heq⟩ | ⟨hs, hr, heq⟩
    · simp [heq, hs]
    · simp [heq, hs, hr]
    · simp [heq, hs, hr]

/-- **A program is heard in full.** Whatever bytes it prints and whatever the order of turns, once both
streams are read to their ends the listener was told the text of each, line by line, and the call comes
to what the status and the reports say. Enough turns for each stream read it to its end. -/
theorem listen_law (program : String) (r : ProgramRun) (turns : List Pipe) :
    ((∀ c, (r.stream c).length + 2 ≤ turns.count c) → (listen r turns).Ended) ∧
      ((listen r turns).Ended → OutputLaw program r (listen r turns)) :=
  ⟨ended_listen, outputLaw_of_ended program (hears_listen r turns)⟩

/-- A line that is no UTF-8, an empty one and a report without a newline behind it, by turns. -/
theorem listen_law_report :
    let r : ProgramRun := ⟨[0x61, 0xFF, 0x0A, 0xE2, 0x82, 0x0A, 0x0A], Text.encode "java.lang.OutOfMemoryError", .code 1⟩
    let turns : List Pipe := (List.replicate 28 [Pipe.stderr, .stdout]).flatten
    (listen r turns).Ended ∧ OutputLaw "jadx" r (listen r turns) ∧
      (listen r turns).toldOn .stdout = ["a\uFFFD\n", "\uFFFD\n", "\n"] ∧
      r.result "jadx" = .error (.outOfMemory "jadx ran out of memory") := by
  intro r turns
  have hlaw := listen_law "jadx" r turns
  have hended : (listen r turns).Ended := hlaw.1 fun c => by cases c <;> decide +kernel
  exact ⟨hended, hlaw.2 hended, by decide +kernel, by decide +kernel⟩

end Decompile
