import Decompile.Proofs.Act.StageMoves
import Mathlib.Data.List.Induction
import Mathlib.Data.List.TakeWhile

/-!
# The memory watch as a window

The watch counts, and forgets everything at a reading that is not above its limit. What it says is
nevertheless decided by the readings themselves: it trips when the last so many of them are above
the limit. The count stops at the greatest number there is, which is never too small to compare.

- `LastAbove`, `SomeAbove`: the last readings, and some in a row, are above a limit.
- `trailing`, `lastAbove_iff`: how many of the last readings are above the limit.
- `MemoryWatch.streak_after`: what the watch has counted.
- `WatchLaw`, `MemoryWatch.new_law`: what a watch says of its readings.
- `Watched`, `Moves.watched`: what becomes of the readings while a stage is watched.
- `StageWatchLaw`, `memory_window`: when a stage has to give up.
-/

namespace Decompile

/-! ## Numbers -/

open Float.Model in
/-- Comparing two numbers the other way round gives the answer the other way round. -/
theorem Float.compare_swap (a b : UnpackedFloat) : a.compare b = (b.compare a).map .swap := by
  unfold UnpackedFloat.compare
  cases a with
  | notANumber => cases b <;> rfl
  | infinity s =>
    cases b with
    | infinity t => cases s <;> cases t <;> rfl
    | _ => cases s <;> rfl
  | zero s =>
    cases b with
    | finite t m e => cases t <;> rfl
    | infinity t => cases t <;> rfl
    | _ => rfl
  | finite s m e =>
    cases b with
    | finite t n f =>
      cases s <;> cases t <;> simp [Ordering.swap_then, ← Std.OrientedCmp.eq_swap]
    | infinity t => cases t <;> cases s <;> rfl
    | zero t => cases s <;> rfl
    | notANumber => cases s <;> rfl

/-- What is above a number is not at most as great. -/
theorem Float.not_lt_of_le {x y : Float} (h : x ≤ y) : ¬ y < x := by
  intro hlt
  have hle : x.toModel ≤ y.toModel := of_decide_eq_true h
  have hless : y.toModel.unpack.compare x.toModel.unpack = some .lt :=
    beq_iff_eq.mp (of_decide_eq_true hlt : y.toModel < x.toModel)
  have hsome : (x.toModel.unpack.compare y.toModel.unpack).any (·.isLE) = true := hle
  rw [Float.compare_swap, hless] at hsome
  cases hsome

theorem toNat_max_one_pos (n : UInt32) : 0 < (max n 1).toNat := by
  show 0 < (if n ≤ 1 then 1 else n).toNat
  split
  · exact Nat.zero_lt_one
  · next hn =>
    rw [UInt32.le_iff_toNat_le] at hn
    exact Nat.zero_lt_of_lt (Nat.lt_of_not_le hn)

theorem min_hundred_of_le {n : UInt8} (hn : 100 ≤ n) : min n 100 = 100 := by
  show (if n ≤ 100 then n else 100) = 100
  split
  · exact UInt8.le_antisymm ‹_› hn
  · rfl

/-! ## Windows -/

section

variable {limit x : Float} {r : Nat} {xs ys : List Float}

/-- There are `r` readings at the end, and they are above the limit. -/
def LastAbove (limit : Float) (r : Nat) (xs : List Float) : Prop :=
  ∃ before window, xs = before ++ window ∧ window.length = r ∧ ∀ x ∈ window, limit < x

/-- Some `r` readings in a row are above the limit. -/
def SomeAbove (limit : Float) (r : Nat) (xs : List Float) : Prop :=
  ∃ before window after, xs = before ++ window ++ after ∧ window.length = r ∧
    ∀ x ∈ window, limit < x

/-- How many of the last readings are above the limit. -/
def trailing (limit : Float) (xs : List Float) : Nat := (xs.reverse.takeWhile (limit < ·)).length

theorem trailing_concat_of_lt (hx : limit < x) (xs : List Float) :
    trailing limit (xs ++ [x]) = trailing limit xs + 1 := by
  rw [trailing, List.reverse_concat, List.takeWhile_cons_of_pos (by simpa using hx)]
  rfl

theorem trailing_concat_of_not_lt (hx : ¬ limit < x) (xs : List Float) :
    trailing limit (xs ++ [x]) = 0 := by
  rw [trailing, List.reverse_concat, List.takeWhile_cons_of_neg (by simpa using hx)]
  rfl

/-- A window of readings above the limit ends at the last one if it is not longer than they are. -/
theorem lastAbove_iff : LastAbove limit r xs ↔ r ≤ trailing limit xs := by
  constructor
  · rintro ⟨before, window, rfl, rfl, hwindow⟩
    have hall : ∀ x ∈ window.reverse, decide (limit < x) = true := fun x hx =>
      decide_eq_true (hwindow x (List.mem_reverse.mp hx))
    rw [trailing, List.reverse_append, List.takeWhile_append_of_pos hall, List.length_append,
      List.length_reverse]
    exact Nat.le_add_right _ _
  · intro hr
    let last := xs.reverse.takeWhile (limit < ·)
    let rest := xs.reverse.dropWhile (limit < ·)
    have hsplit : xs = (last.drop r ++ rest).reverse ++ (last.take r).reverse := by
      rw [← List.reverse_append, ← List.append_assoc, List.take_append_drop,
        List.takeWhile_append_dropWhile, List.reverse_reverse]
    refine ⟨_, _, hsplit, ?_, fun x hx => ?_⟩
    · rw [List.length_reverse, List.length_take]
      exact min_eq_left hr
    · have hlast := List.mem_of_mem_take (List.mem_reverse.mp hx)
      simpa using List.mem_takeWhile_imp hlast

theorem LastAbove.exists_lt (h : LastAbove limit r xs) (hr : 0 < r) : ∃ x ∈ xs, limit < x := by
  obtain ⟨before, window, rfl, rfl, hwindow⟩ := h
  obtain ⟨x, hx⟩ := List.exists_mem_of_length_pos hr
  exact ⟨x, List.mem_append_right _ hx, hwindow x hx⟩

theorem someAbove_iff : SomeAbove limit r xs ↔ ∃ ys, ys <+: xs ∧ LastAbove limit r ys := by
  constructor
  · rintro ⟨before, window, after, rfl, hr, hwindow⟩
    exact ⟨before ++ window, List.prefix_append _ _, before, window, rfl, hr, hwindow⟩
  · rintro ⟨_, ⟨after, rfl⟩, before, window, rfl, hr, hwindow⟩
    exact ⟨before, window, after, rfl, hr, hwindow⟩

theorem not_someAbove_nil (hr : 0 < r) : ¬ SomeAbove limit r [] := by
  intro h
  obtain ⟨ys, hys, hlast⟩ := someAbove_iff.mp h
  obtain ⟨x, hx, -⟩ := hlast.exists_lt hr
  cases hys.mem hx

/-- One more reading makes a window only at the end. -/
theorem someAbove_concat : SomeAbove limit r (xs ++ [x]) ↔
    SomeAbove limit r xs ∨ LastAbove limit r (xs ++ [x]) := by
  simp only [someAbove_iff]
  constructor
  · rintro ⟨ys, hys, hlast⟩
    rcases List.prefix_concat_iff.mp hys with rfl | hys
    · exact .inr hlast
    · exact .inl ⟨ys, hys, hlast⟩
  · rintro (⟨ys, hys, hlast⟩ | hlast)
    · exact ⟨ys, hys.trans (List.prefix_append _ _), hlast⟩
    · exact ⟨_, List.prefix_rfl, hlast⟩

end

/-! ## The count -/

theorem Verdict.eq_healthy_or_tripped (v : Verdict) : v = .healthy ∨ v = .tripped := by
  cases v <;> simp

namespace MemoryWatch

/-- The watch after some readings. -/
def after (w : MemoryWatch) (xs : List Float) : MemoryWatch :=
  xs.foldl (fun w x => (w.observe x).1) w

theorem after_concat (w : MemoryWatch) (xs : List Float) (x : Float) :
    w.after (xs ++ [x]) = ((w.after xs).observe x).1 := by
  rw [after, List.foldl_append]
  rfl

theorem observeAll_cons (w : MemoryWatch) (x : Float) (xs : List Float) :
    w.observeAll (x :: xs) =
      ((w.observe x).2, (w.observe x).1.streak) :: (w.observe x).1.observeAll xs := rfl

theorem observeAll_append (w : MemoryWatch) (xs ys : List Float) :
    w.observeAll (xs ++ ys) = w.observeAll xs ++ (w.after xs).observeAll ys := by
  induction xs generalizing w with
  | nil => rfl
  | cons x xs ih =>
    rw [List.cons_append, observeAll_cons, observeAll_cons, ih]
    rfl

@[simp] theorem threshold_after (w : MemoryWatch) (xs : List Float) :
    (w.after xs).threshold = w.threshold := by
  induction xs using List.reverseRecOn with
  | nil => rfl
  | append_singleton xs x ih => rw [after_concat, observe, ih]

@[simp] theorem required_after (w : MemoryWatch) (xs : List Float) :
    (w.after xs).required = w.required := by
  induction xs using List.reverseRecOn with
  | nil => rfl
  | append_singleton xs x ih => rw [after_concat, observe, ih]

theorem toNat_nextStreak (n : UInt32) :
    (nextStreak n).toNat = min (n.toNat + 1) 4294967295 := by
  have hn := n.toNat_lt
  rw [nextStreak]
  split
  · next hmax =>
    rw [hmax]
    rfl
  · next hless =>
    have hne : n.toNat ≠ 4294967295 := fun heq => hless (UInt32.toNat_inj.mp heq)
    have hone : (1 : UInt32).toNat = 1 := rfl
    rw [UInt32.toNat_add, hone]
    omega

/-- A new watch has counted the last readings above its limit, as far as it can count. -/
theorem streak_after {w : MemoryWatch} (hnew : w.streak = 0) (xs : List Float) :
    (w.after xs).streak.toNat = min (trailing w.threshold xs) 4294967295 := by
  induction xs using List.reverseRecOn with
  | nil =>
    rw [after, List.foldl_nil, hnew]
    rfl
  | append_singleton xs x ih =>
    rw [after_concat, observe, threshold_after]
    by_cases hx : w.threshold < x
    · rw [if_pos hx, toNat_nextStreak, ih, trailing_concat_of_lt hx]
      omega
    · rw [if_neg hx, trailing_concat_of_not_lt hx]
      rfl

/-- What the watch says of a reading depends on what it has counted with it. -/
theorem verdict_eq_tripped_iff (w : MemoryWatch) (x : Float) :
    (w.observe x).2 = .tripped ↔ w.required ≤ (w.observe x).1.streak := by
  rw [observe]
  split <;> simp_all

/-- A new watch trips at a reading if this one completes a window. -/
theorem verdict_after_iff {w : MemoryWatch} (hnew : w.streak = 0) (xs : List Float) (x : Float) :
    ((w.after xs).observe x).2 = .tripped ↔
      LastAbove w.threshold w.required.toNat (xs ++ [x]) := by
  have hrequired := w.required.toNat_lt
  rw [verdict_eq_tripped_iff, ← after_concat, UInt32.le_iff_toNat_le, streak_after hnew,
    lastAbove_iff]
  show (((w.after xs).required).toNat ≤ _) ↔ _
  rw [required_after]
  omega

/-- Whatever the watch says, it says of some reading. -/
theorem exists_of_mem_observeAll {w : MemoryWatch} {xs : List Float} {said : Verdict × UInt32}
    (h : said ∈ w.observeAll xs) : ∃ before x after, xs = before ++ x :: after ∧
      said.1 = ((w.after before).observe x).2 := by
  induction xs generalizing w with
  | nil => cases h
  | cons x xs ih =>
    rw [observeAll_cons] at h
    rcases List.mem_cons.mp h with rfl | h
    · exact ⟨[], x, xs, rfl, rfl⟩
    · obtain ⟨before, y, after, rfl, hsaid⟩ := ih h
      exact ⟨x :: before, y, after, rfl, hsaid⟩

end MemoryWatch

/-! ## The law of the watch -/

/-- What a watch over a threshold says of the readings it takes. -/
structure WatchLaw (threshold : UInt8) (required : UInt32) : Prop where
  /-- It has tripped at the last reading if the last so many are above the threshold. -/
  last_iff : ∀ xs : List Float,
    ((MemoryWatch.new threshold required).observeAll xs).getLast?.map Prod.fst = some .tripped ↔
      LastAbove (min threshold 100).toFloat (max required 1).toNat xs
  /-- Readings up to 100 never trip a watch over 100. -/
  full : 100 ≤ threshold → ∀ xs : List Float, (∀ x ∈ xs, x ≤ 100.0) →
    ∀ said ∈ (MemoryWatch.new threshold required).observeAll xs, said.1 = .healthy

theorem MemoryWatch.new_law (threshold : UInt8) (required : UInt32) :
    WatchLaw threshold required := by
  have hlast : ∀ xs x, (((new threshold required).after xs).observe x).2 = .tripped ↔
      LastAbove (min threshold 100).toFloat (max required 1).toNat (xs ++ [x]) :=
    verdict_after_iff (w := new threshold required) rfl
  refine ⟨fun xs => ?_, fun hfull xs hxs said hsaid => ?_⟩
  · rcases List.eq_nil_or_concat xs with rfl | ⟨xs, x, rfl⟩
    · refine iff_of_false nofun fun habove => ?_
      obtain ⟨x, hx, -⟩ := habove.exists_lt (toNat_max_one_pos required)
      cases hx
    · rw [List.concat_eq_append, observeAll_append, observeAll_cons, observeAll, List.getLast?_concat,
        Option.map_some, Option.some.injEq]
      exact hlast xs x
  · obtain ⟨before, x, after, rfl, hverdict⟩ := exists_of_mem_observeAll hsaid
    rw [hverdict]
    refine (Verdict.eq_healthy_or_tripped _).resolve_right fun htripped => ?_
    obtain ⟨y, hy, hlt⟩ := ((hlast before x).mp htripped).exists_lt (toNat_max_one_pos required)
    rw [min_hundred_of_le hfull] at hlt
    refine Float.not_lt_of_le (hxs y ?_) hlt
    rw [List.append_cons]
    exact List.mem_append_left _ hy

/-- A reading at the threshold makes the watch forget. -/
example : ((MemoryWatch.new 80 2).observeAll [81.0, 82.0, 80.0, 81.0]).map Prod.fst =
    [.healthy, .tripped, .healthy, .healthy] := by decide

/-! ## The readings of a stage -/

/-- The entry tells the listeners of a key of a reading. -/
def Occurrence.reading? (key : String) : Occurrence → Option Float
  | .published k (.status _ e) => if k = key ∧ e.kind = .memory then e.percent else none
  | _ => none

/-- The readings that the listeners of a key were told of, oldest first. -/
def World.readingsOn (key : String) (journal : List Occurrence) : List Float :=
  journal.filterMap (Occurrence.reading? key)

/-- Nobody is told of a reading. -/
def Occurrence.TellsNoReading (o : Occurrence) : Prop := ∀ key, o.reading? key = none

namespace Monitor

/-- The monitor after some readings. -/
def after (m : Monitor) (xs : List Float) : Monitor := xs.foldl observe m

theorem after_append (m : Monitor) (xs ys : List Float) : m.after (xs ++ ys) = (m.after xs).after ys :=
  List.foldl_append

@[simp] theorem key_after (m : Monitor) (xs : List Float) : (m.after xs).key = m.key := by
  induction xs generalizing m with
  | nil => rfl
  | cons x xs ih => exact ih (m.observe x)

theorem watch_after (m : Monitor) (xs : List Float) : (m.after xs).watch = m.watch.after xs := by
  induction xs generalizing m with
  | nil => rfl
  | cons x xs ih => exact ih (m.observe x)

/-- A new monitor has tripped once some readings in a row were above its limit. -/
theorem tripped_after_iff {m : Monitor} (hnew : m.watch.streak = 0) (hfresh : m.tripped = false)
    (hpos : 0 < m.watch.required.toNat) (xs : List Float) :
    (m.after xs).tripped = true ↔ SomeAbove m.watch.threshold m.watch.required.toNat xs := by
  induction xs using List.reverseRecOn with
  | nil =>
    refine iff_of_false ?_ (not_someAbove_nil hpos)
    rw [after, List.foldl_nil, hfresh]
    exact Bool.false_ne_true
  | append_singleton xs x ih =>
    have hstep : (m.after (xs ++ [x])).tripped =
        ((m.after xs).tripped || ((m.watch.after xs).observe x).2 == .tripped) := by
      rw [after_append, ← watch_after]
      rfl
    rw [hstep, Bool.or_eq_true, beq_iff_eq, ih, MemoryWatch.verdict_after_iff hnew, someAbove_concat]

end Monitor

/-- Between the two worlds the monitor has taken the readings that its listeners were told of. -/
def Watched (w v : World) : Prop :=
  ∃ new, v.journal = w.journal ++ new ∧
    v.monitor = w.monitor.map fun m => m.after (World.readingsOn m.key new)

namespace Watched

variable {u v w : World}

theorem refl (w : World) : Watched w w := by
  refine ⟨[], (List.append_nil _).symm, ?_⟩
  cases h : w.monitor with
  | none => rfl
  | some m => rfl

theorem trans (h : Watched w v) (h' : Watched v u) : Watched w u := by
  obtain ⟨new, hjournal, hmonitor⟩ := h
  obtain ⟨more, hjournal', hmonitor'⟩ := h'
  refine ⟨new ++ more, by rw [hjournal', hjournal, List.append_assoc], ?_⟩
  rw [hmonitor', hmonitor]
  cases w.monitor with
  | none => rfl
  | some m =>
    simp only [Option.map_some, Monitor.key_after, World.readingsOn, List.filterMap_append,
      Monitor.after_append]

instance : Std.Refl Watched := ⟨refl⟩

instance : IsTrans World Watched := ⟨fun _ _ _ => trans⟩

/-- What tells of no reading leaves the monitor as it is. -/
theorem of_journal {new : List Occurrence} (hjournal : v.journal = w.journal ++ new)
    (hnew : ∀ o ∈ new, o.TellsNoReading) (hmonitor : v.monitor = w.monitor) : Watched w v := by
  refine ⟨new, hjournal, ?_⟩
  have hnone : ∀ key, World.readingsOn key new = [] := fun key =>
    List.filterMap_eq_nil_iff.mpr fun o ho => hnew o ho key
  rw [hmonitor]
  cases w.monitor with
  | none => rfl
  | some m =>
    rw [Option.map_some, hnone]
    rfl

theorem of_note {o : Occurrence} (hjournal : v.journal = w.journal ++ [o]) (ho : o.TellsNoReading)
    (hmonitor : v.monitor = w.monitor) : Watched w v :=
  of_journal hjournal (List.forall_mem_singleton.mpr ho) hmonitor

theorem of_eq (hjournal : v.journal = w.journal) (hmonitor : v.monitor = w.monitor) :
    Watched w v :=
  of_journal (by rw [hjournal, List.append_nil]) (fun _ ho => absurd ho List.not_mem_nil) hmonitor

end Watched

/-- Whatever happens meanwhile, the monitor takes the readings that are told, and no others. -/
theorem Moves.watched {h : Host} {N : Occurrence → Prop} (hN : ∀ o, N o → o.TellsNoReading)
    {w v : World} (hm : Moves h N w v) : Watched w v := by
  refine hm.keep_answers (fun hsub w v hm hanswer => ?_)
    (fun hfiles s w => (Engine.submit_submitted s w).keep (R := Watched) hfiles
      (fun _ _ _ _ => .of_note rfl (fun _ => rfl) rfl) (fun _ _ _ => .of_note rfl (fun _ => rfl) rfl)
      fun _ _ _ _ => .of_note rfl (fun _ => rfl) rfl) fun _ _ _ => .of_note rfl (fun _ => rfl) rfl
  cases hm with
  | tick => exact .of_eq rfl rfl
  | change c => exact .of_note rfl (fun _ => rfl) rfl
  | call i admitted => exact .of_note rfl (fun _ => rfl) rfl
  | attempt ticket kind chunk admitted => exact .of_note rfl (fun _ => rfl) rfl
  | tell key m admitted => exact .of_note rfl (hN _ (hsub _ admitted)) rfl
  | answer s admitted => exact hanswer s admitted
  | aside o free =>
    refine .of_note rfl ?_ rfl
    cases o <;> first | exact fun _ => rfl | cases free
  | cancel key said =>
    refine .of_journal rfl ?_ rfl
    rintro o (_ | ⟨_, ho⟩)
    · exact fun _ => rfl
    · obtain ⟨r, -, rfl⟩ := List.mem_map.mp ho
      exact fun _ => rfl
  | read m percent watched =>
    refine ⟨_, rfl, ?_⟩
    rw [watched, Option.map_some, World.readingsOn, List.filterMap_cons_some (b := percent) ?_]
    · rfl
    · simp [Occurrence.reading?, ProgressEvent.memory]

/-! ## The law of a stage -/

/-- The work of a stage while memory is watched. -/
def watchedWork (h : Host) (c : StageContext) (kind : StageKind) :
    Try StageError (Except StageError Items) := do
  World.pause h
  let result ← (collectAndRun h c kind).outcome
  World.pause h
  return result

/-- The world in which a stage begins to be watched. -/
def StageContext.watchBegun (h : Host) (c : StageContext) (w : World) : World :=
  ((startMonitor h c).run w).2

/-- What can come of a world while a stage is watched: the monitor reads, and nothing else that
happens tells of a reading. -/
def MayBecome (h : Host) : World → World → Prop := Moves h Occurrence.TellsNoReading

/-- When a stage of a job has to give up. -/
structure StageWatchLaw (h : Host) (c : StageContext) (kind : StageKind) : Prop where
  /-- The stage is watched from before its work to after it. -/
  watched : ∃ rest : Except StageError Items → Try StageError Unit, runWatched h c kind = (do
    startMonitor h c
    let result ← watchedWork h c kind
    stopMonitor
    rest result)
  /-- What happens meanwhile is a row of moves. -/
  moves : ∀ w,
    MayBecome h (c.watchBegun h w) ((watchedWork h c kind).settle.run (c.watchBegun h w)).2
  /-- At every point of such a row, the stage has to give up exactly if so many readings in a row
  that it was told of were above the threshold. -/
  tripped_iff : ∀ w v, MayBecome h (c.watchBegun h w) v → ∃ new, v.journal = w.journal ++ new ∧
    ((World.isTripped.run v).1 = true ↔
      SomeAbove (min c.job.submission.memoryThreshold 100).toFloat
        (max h.settings.samplesToTrip 1).toNat (World.readingsOn c.job.targetKey new))

variable {h : Host} {c : StageContext}

theorem tellsNoReading_admits (key : String) : Admits Occurrence.TellsNoReading key where
  call _ _ := rfl
  answer _ _ _ := rfl
  status e he _ := by simp [Occurrence.reading?, he]

theorem watchedWork_moves (kind : StageKind) :
    Try.Keeps (Moves h Occurrence.TellsNoReading) (watchedWork h c kind) := by
  have hwork : Try.Keeps (Moves h Occurrence.TellsNoReading) (collectAndRun h c kind) :=
    collectAndRun_moves (tellsNoReading_admits _) (fun _ _ _ => rfl) kind
  unfold watchedWork
  refine .bind (.lift World.pause_moves) fun _ => hwork.outcome.bind fun r => ?_
  exact .bind (.lift World.pause_moves) fun _ => .pure r

theorem tripped_iff_of_mayBecome {w v : World} (hm : MayBecome h (c.watchBegun h w) v) :
    ∃ new, v.journal = w.journal ++ new ∧
      ((World.isTripped.run v).1 = true ↔
        SomeAbove (min c.job.submission.memoryThreshold 100).toFloat
          (max h.settings.samplesToTrip 1).toNat (World.readingsOn c.job.targetKey new)) := by
  obtain ⟨new, hjournal, hmonitor⟩ := Moves.watched (fun _ => id) hm
  refine ⟨new, hjournal, ?_⟩
  have hread : (World.isTripped.run v).1 = (v.monitor.elim false Monitor.tripped) := by
    unfold World.isTripped
    rw [Act.run_get_bind]
    cases v.monitor <;> rfl
  rw [hread, hmonitor]
  exact Monitor.tripped_after_iff rfl rfl (toNat_max_one_pos _) _

theorem StageContext.watchLaw (h : Host) (c : StageContext) (kind : StageKind) :
    StageWatchLaw h c kind where
  watched := by
    unfold runWatched watchedWork
    simp only [bind_assoc, pure_bind]
    exact ⟨_, rfl⟩
  moves _ := watchedWork_moves kind _
  tripped_iff _ _ := tripped_iff_of_mayBecome

/-- **The memory watch is a window.** A watch has tripped at a reading exactly if the last so many
readings were above its threshold, and a stage has to give up exactly if at some time they were. -/
theorem memory_window :
    (∀ threshold required, WatchLaw threshold required) ∧
      ∀ (h : Host) (c : StageContext) (kind : StageKind), StageWatchLaw h c kind :=
  ⟨MemoryWatch.new_law, StageContext.watchLaw⟩

end Decompile
