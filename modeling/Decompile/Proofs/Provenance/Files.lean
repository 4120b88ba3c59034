import Decompile.Proofs.Exclusion.Registry
import Decompile.Proofs.Provenance.Law

/-!
# File operations have their sources

- `Still`: nothing happens to the disk, and nobody claims or releases a key.
- `World.pause_still`: so it is at every moment at which others may act.
- `World.createFile_goes` and the lemmas around it: an operation keeps up the law if what it writes
  or removes is lawful.
- `World.readBytes_held`, `createFile_place`: what an operation that succeeds has found out.
-/

namespace Decompile

/-- Nothing happens to the disk, no tool is called, and the holders of keys stay. -/
structure Still (w v : World) : Prop where
  disk : v.disk = w.disk
  cwd : v.cwd = w.cwd
  journal : ∃ new, v.journal = w.journal ++ new ∧ ∀ o ∈ new, o.isQuiet = true
  holder : ∀ key, v.registry.holder? key = w.registry.holder? key

theorem Still.of_eq {w v : World} (hdisk : v.disk = w.disk) (hcwd : v.cwd = w.cwd)
    (hjournal : v.journal = w.journal) (hregistry : v.registry = w.registry) : Still w v where
  disk := hdisk
  cwd := hcwd
  journal := ⟨[], hjournal.trans (List.append_nil _).symm, fun _ ho => absurd ho List.not_mem_nil⟩
  holder _ := by rw [hregistry]

instance : Std.Refl Still := ⟨fun _ => .of_eq rfl rfl rfl rfl⟩

instance : IsTrans World Still where
  trans _ _ _ hu hv := by
    obtain ⟨first, hfirst, hquiet₁⟩ := hu.journal
    obtain ⟨second, hsecond, hquiet₂⟩ := hv.journal
    refine ⟨hv.disk.trans hu.disk, hv.cwd.trans hu.cwd, ⟨first ++ second, ?_, fun o ho => ?_⟩,
      fun key => (hv.holder key).trans (hu.holder key)⟩
    · rw [hsecond, hfirst, List.append_assoc]
    · exact (List.mem_append.mp ho).elim (hquiet₁ o) (hquiet₂ o)

namespace World

variable {h : Host}

theorem note_still {o : Occurrence} (ho : o.isQuiet = true) : Act.Keeps Still (note o) :=
  fun _ => ⟨rfl, rfl, ⟨[o], rfl, fun _ ho' => List.mem_singleton.mp ho' ▸ ho⟩, fun _ => rfl⟩

theorem log_still (level : LogLevel) (target text : String) :
    Act.Keeps Still (log level target text) :=
  note_still rfl

theorem publish_still (key : String) (m : BusMessage) : Act.Keeps Still (publish key m) := by
  intro w
  refine ⟨rfl, rfl, ⟨[.published key m], rfl, fun o ho => ?_⟩, fun _ => rfl⟩
  rw [List.mem_singleton.mp ho]
  rfl

theorem sample_still (used : UInt64) : Act.Keeps Still (sample h used) := by
  intro w
  unfold sample
  rw [Act.run_get_bind]
  cases w.monitor with
  | none => exact Std.Refl.refl w
  | some m =>
    let percent := percentUsed used h.memoryCeiling
    have hwatch : Act.Keeps Still
        (modify fun w : World => { w with monitor := some (m.observe percent) }) :=
      fun w => .of_eq rfl rfl rfl rfl
    refine (publish_still m.key _).bind (fun _ => hwatch.bind fun _ => ?_) w
    split
    · exact log_still _ _ _
    · exact .pure ()

theorem cancel_still (key : String) : Act.Keeps Still (cancel key) := by
  intro w
  obtain ⟨said, hsaid⟩ := run_cancel key w
  rw [hsaid]
  refine ⟨rfl, rfl, ⟨_, rfl, fun o ho => ?_⟩, Registry.holder?_cancel⟩
  obtain ⟨r, -, rfl⟩ := List.mem_map.mp ho
  rfl

theorem happen_still (x : Happening) : Act.Keeps Still (happen h x) := by
  cases x with
  | cancel key => exact (note_still rfl).bind fun _ => cancel_still key
  | sample used => exact (note_still rfl).bind fun _ => sample_still used

theorem happenAll_still : ∀ xs : List Happening, Act.Keeps Still (happenAll h xs)
  | [] => .pure ()
  | x :: xs => by
    unfold happenAll
    exact (happen_still x).bind fun _ => happenAll_still xs

theorem pause_still : Act.Keeps Still (pause h) := by
  intro w
  have htick : Still w { w with clock := w.clock + 1 } := .of_eq rfl rfl rfl rfl
  exact IsTrans.trans _ _ _ htick (happenAll_still (h.interlude w.clock) _)

theorem access_still : Try.Keeps Still (access h) := by
  unfold access
  refine .bind (.lift pause_still) fun _ => .bind .get fun w => ?_
  cases h.fault w.clock with
  | some e => exact .throw e
  | none => exact .pure ()

theorem plan_still {α : Type} (f : Disk → Place → Except IoError α) : Try.Keeps Still (plan f) := by
  intro w
  show Still w ((plan f).settle.run w).2
  rw [run_plan]
  exact Std.Refl.refl w

theorem readBytes_still (p : FilePath) : Try.Keeps Still (readBytes h p) := by
  unfold readBytes
  exact access_still.bind fun _ => plan_still _

theorem listDirectory_still (p : FilePath) : Try.Keeps Still (listDirectory h p) := by
  unfold listDirectory
  exact access_still.bind fun _ => plan_still _

end World

/-! ## Actions that leave the disk alone -/

variable {h : Host} {c : StageContext} {own : Prop} {w₀ : World} {φ : List Occurrence → Prop}

theorem Tracked.since_append {w v : World} (hw : Tracked h c own w₀ w) {new : List Occurrence}
    (hv : v.journal = w.journal ++ new) : w₀.since v = w₀.since w ++ new := by
  refine World.since_eq ?_
  rw [hv, ← List.append_assoc, ← hw.journal]

theorem Tracked.since_prefix {w v : World} (hw : Tracked h c own w₀ w) {new : List Occurrence}
    (hv : v.journal = w.journal ++ new) : w₀.since w <+: w₀.since v := by
  rw [hw.since_append hv]
  exact List.prefix_append _ _

theorem Tracked.still {w v : World} (hw : Tracked h c own w₀ w) (hs : Still w v) :
    Tracked h c own w₀ v := by
  obtain ⟨new, hjournal, hquiet⟩ := hs.journal
  exact hw.quiet hjournal hquiet hs.cwd hs.disk

theorem Still.goes {w v : World} (hs : Still w v) : Goes h c own w₀ φ w v := by
  intro hw hheld _
  obtain ⟨new, hjournal, -⟩ := hs.journal
  exact ⟨hw.still hs, (hs.holder _).trans hheld, hw.since_prefix hjournal⟩

theorem Act.Keeps.goes {α : Type} {x : Act α} (hx : Act.Keeps Still x) :
    Act.Keeps (Goes h c own w₀ φ) x :=
  hx.mono fun _ _ => Still.goes

theorem Try.Keeps.goes {ε α : Type} {t : Try ε α} (ht : Try.Keeps Still t) :
    Try.Keeps (Goes h c own w₀ φ) t :=
  Act.Keeps.goes ht

/-! ## Actions that change the disk -/

namespace World

/-- A change that has its source. -/
theorem change_goes_at {ch : Change} {w : World} (hch : Tracked h c own w₀ w → Once φ (w₀.since w) →
    Lawful h c own w₀ (w₀.since w) (.changed ch)) : Goes h c own w₀ φ w ((change ch).run w).2 := by
  intro hw hheld hφ
  have hlawful := hch hw hφ
  have hsound : ch.Sound w.disk := by
    rw [hw.disk]
    exact hlawful.1
  have hjournal : ((change ch).run w).2.journal = w.journal ++ [.changed ch] := rfl
  exact ⟨hw.snoc hjournal rfl rfl (hw.plain.apply hsound) hlawful, hheld, hw.since_prefix hjournal⟩

theorem change_goes {ch : Change}
    (hch : ∀ past, Once φ past → Lawful h c own w₀ past (.changed ch)) :
    Act.Keeps (Goes h c own w₀ φ) (change ch) :=
  fun _ => change_goes_at fun _ => hch _

/-- What follows a plan may rely on what it said of the disk as it is. -/
theorem plan_goes {α β : Type} {f : Disk → Place → Except IoError β} {k : β → Try IoError α}
    (hk : ∀ w b, Tracked h c own w₀ w → Once φ (w₀.since w) → f w.disk w₀.cwd = .ok b →
      Goes h c own w₀ φ w ((k b).settle.run w).2) :
    Try.Keeps (Goes h c own w₀ φ) (plan f >>= k) := by
  intro w hw hheld hφ
  rw [Try.run_settle_bind, run_plan]
  cases hplan : f w.disk w.cwd with
  | error e => exact ⟨hw, hheld, List.prefix_refl _⟩
  | ok b =>
    rw [hw.cwd] at hplan
    exact hk w b hw hφ hplan hw hheld hφ

/-- A change that a plan comes to. -/
theorem plan_change_goes {f : Disk → Place → Except IoError Change}
    (hf : ∀ past ch, (w₀.diskAfter past).Plain → Once φ past →
      f (w₀.diskAfter past) w₀.cwd = .ok ch → Lawful h c own w₀ past (.changed ch)) :
    Try.Keeps (Goes h c own w₀ φ) (do access h; change (← plan f)) := by
  refine access_still.goes.bind fun _ => ?_
  refine plan_goes fun w ch hw hφ hplan => change_goes_at fun _ _ => ?_
  have hplain := hw.plain
  rw [hw.disk] at hplan hplain
  exact hf _ ch hplain hφ hplan

section

variable (hcwd : ∀ n ∈ w₀.cwd, IsEntryName n)

include hcwd

theorem makeDirectory_goes (p : FilePath) : Try.Keeps (Goes h c own w₀ φ) (makeDirectory h p) := by
  refine plan_change_goes fun past ch hplain _ hplan => ?_
  obtain ⟨rfl, hsound⟩ := hplain.planMakeDirectory hcwd hplan
  exact ⟨hsound, trivial⟩

theorem makeEach_goes : ∀ ps : List FilePath, Try.Keeps (Goes h c own w₀ φ) (makeEach h ps)
  | [] => .pure ()
  | p :: ps => by
    unfold makeEach
    refine (makeDirectory_goes hcwd p).outcome.bind fun r => ?_
    cases r with
    | ok _ => exact .bind (.pure ()) fun _ => makeEach_goes ps
    | error e =>
      refine .bind (.lift (isDirectory_reads p).keeps) fun there => ?_
      split
      · exact makeEach_goes ps
      · exact (Try.Keeps.throw e).bind fun _ => makeEach_goes ps

theorem makeLowest_goes :
    ∀ missing ps : List FilePath, Try.Keeps (Goes h c own w₀ φ) (makeLowest h missing ps)
  | missing, [] => .pure missing
  | missing, p :: above => by
    unfold makeLowest
    refine (makeDirectory_goes hcwd p).outcome.bind fun r => ?_
    cases r with
    | ok _ => exact .pure missing
    | error e =>
      show Try.Keeps _ (ite _ _ _)
      split
      · exact makeLowest_goes (p :: missing) above
      · refine .bind (.lift (isDirectory_reads p).keeps) fun there => ?_
        split
        · exact .pure missing
        · exact .throw e

theorem makeDirectories_goes (p : FilePath) :
    Try.Keeps (Goes h c own w₀ φ) (makeDirectories h p) := by
  unfold makeDirectories
  exact (makeLowest_goes hcwd _ _).bind fun missing => makeEach_goes hcwd missing

theorem createFile_goes (p : FilePath) (executable : Bool)
    (hwrites : ∀ past, Once φ past → ∃ bytes, Writes h c w₀ past (p.place w₀.cwd) bytes) :
    Try.Keeps (Goes h c own w₀ φ) (createFile h p executable) := by
  unfold createFile
  refine access_still.goes.bind fun _ => ?_
  refine plan_goes fun w ch hw hφ hplan => change_goes_at fun _ _ => ?_
  obtain ⟨⟨x, rfl⟩, hsound⟩ := hw.plain.planCreate hcwd hplan
  rw [hw.disk] at hsound
  exact ⟨hsound, hwrites _ hφ⟩

/-- A file that was made is at the place that its path names. -/
theorem createFile_begun {p : FilePath} {executable : Bool} {w v : World} {place : Place}
    (hw : Tracked h c own w₀ w) (hrun : (createFile h p executable).settle.run w = (.ok place, v)) :
    place = p.place w₀.cwd ∧ Begun (w₀.since v) (p.place w₀.cwd) := by
  unfold createFile at hrun
  rw [Try.run_settle_bind] at hrun
  have haccess := access_still (h := h) w
  rcases hrun' : (access h).settle.run w with ⟨e | u, v'⟩
  · rw [hrun'] at hrun
    cases (Prod.mk.inj hrun).1
  · have hstill : Still w v' := by
      have hpair : ((access h).settle.run w).2 = v' := by rw [hrun']
      exact hpair ▸ haccess
    rw [hrun'] at hrun
    simp only [Try.run_settle_bind, run_plan] at hrun
    cases hplan : v'.disk.planCreate v'.cwd p executable with
    | error e =>
      rw [hplan] at hrun
      cases (Prod.mk.inj hrun).1
    | ok ch =>
      rw [hplan] at hrun
      obtain ⟨hplace, hworld⟩ := Prod.mk.inj hrun
      obtain rfl : ch.place = place := Except.ok.inj hplace
      rw [hstill.disk, hstill.cwd, hw.cwd] at hplan
      obtain ⟨⟨x, rfl⟩, -⟩ := hw.plain.planCreate hcwd hplan
      have hjournal : v.journal = v'.journal ++ [.changed (.create (p.place w₀.cwd) x)] := by
        rw [← hworld]
      refine ⟨rfl, x, ?_⟩
      rw [(hw.still hstill).since_append hjournal]
      exact List.mem_append_right _ List.mem_cons_self

/-- Making a file, and what is done with its place. -/
theorem createFile_gain {p : FilePath} {executable : Bool} {α : Type} {k : Place → Try IoError α}
    (hwrites : ∀ past, Once φ past → ∃ bytes, Writes h c w₀ past (p.place w₀.cwd) bytes)
    (hk : Try.Keeps (Goes h c own w₀ fun e => Once φ e ∧ Begun e (p.place w₀.cwd))
      (k (p.place w₀.cwd))) :
    Try.Keeps (Goes h c own w₀ φ) (createFile h p executable >>= k) := by
  intro w hw hheld hφ
  have hfirst := createFile_goes hcwd p executable hwrites w hw hheld hφ
  rw [Try.run_settle_bind]
  rcases hrun : (createFile h p executable).settle.run w with ⟨e | place, v⟩
  · rw [hrun] at hfirst
    exact hfirst
  · obtain ⟨rfl, hbegun⟩ := createFile_begun hcwd hw hrun
    rw [hrun] at hfirst
    obtain ⟨hv, hheld', hlater⟩ := hfirst
    have hknown := Once.here (φ := fun e => Once φ e ∧ Begun e _) ⟨hφ.mono hlater, hbegun⟩
    obtain ⟨hu, hheld'', hlater'⟩ := hk v hv hheld' hknown
    exact ⟨hu, hheld'', hlater.trans hlater'⟩

theorem replaceFile_goes (p : FilePath) (contents : Bytes)
    (hstores : Stores h c own w₀ (p.place w₀.cwd) contents) :
    Try.Keeps (Goes h c own w₀ φ) (replaceFile h p contents) := by
  refine plan_change_goes fun past ch hplain _ hplan => ?_
  obtain ⟨rfl, hsound⟩ := hplain.planReplace hcwd hplan
  exact ⟨hsound, hstores⟩

end

theorem appendTo_goes (place : Place) (more : Bytes) (hbegun : ∀ e, φ e → Begun e place)
    (hwrites : ∀ past, Once φ past → Writes h c w₀ past place more) :
    Try.Keeps (Goes h c own w₀ φ) (appendTo h place more) := by
  unfold appendTo
  refine access_still.goes.bind fun _ => .lift (change_goes fun past hφ => ?_)
  have hwritten := hwrites past hφ
  obtain ⟨earlier, hearlier, hknown⟩ := hφ
  exact ⟨trivial, (hbegun earlier hknown).mono hearlier, hwritten⟩

theorem writeFile_goes (hcwd : ∀ n ∈ w₀.cwd, IsEntryName n) (p : FilePath) (contents : Bytes)
    (hwrites : ∀ past, Once φ past → Writes h c w₀ past (p.place w₀.cwd) contents) :
    Try.Keeps (Goes h c own w₀ φ) (writeFile h p contents) := by
  unfold writeFile
  refine createFile_gain hcwd (fun past hφ => ⟨contents, hwrites past hφ⟩) ?_
  exact appendTo_goes _ _ (fun _ hknown => hknown.2) fun past hknown =>
    hwrites past (hknown.mp fun _ => And.left)

/-- What a look at the disk comes to is so when it ends. -/
theorem look_held {α : Type} {f : Disk → Place → Except IoError α} {w v : World} {a : α}
    (hrun : (Try.settle (do access h; plan f)).run w = (.ok a, v)) : f v.disk v.cwd = .ok a := by
  rw [Try.run_settle_bind] at hrun
  rcases hrun' : (access h).settle.run w with ⟨e | u, v'⟩
  · rw [hrun'] at hrun
    cases (Prod.mk.inj hrun).1
  · rw [hrun'] at hrun
    simp only [run_plan] at hrun
    obtain ⟨hlook, rfl⟩ := Prod.mk.inj hrun
    exact hlook

/-- The bytes that were read are those of the file. -/
theorem readBytes_held {p : FilePath} {w v : World} {bytes : Bytes} (hv : Tracked h c own w₀ v)
    (hrun : (readBytes h p).settle.run w = (.ok bytes, v)) :
    (w₀.diskAfter (w₀.since v)).read w₀.cwd p = .ok bytes := by
  rw [← hv.disk, ← hv.cwd]
  exact look_held hrun

/-- Reading bytes, and what is done with them. -/
theorem readBytes_gain {p : FilePath} {α : Type} {k : Bytes → Try IoError α}
    (hk : ∀ bytes, Try.Keeps (Goes h c own w₀ fun past => Once φ past ∧
      (w₀.diskAfter past).read w₀.cwd p = .ok bytes) (k bytes)) :
    Try.Keeps (Goes h c own w₀ φ) (readBytes h p >>= k) := by
  refine (readBytes_still p).goes.gain (fun w bytes v hw hφ hrun hv => ?_) hk
  have hs := (readBytes_still (h := h) p).of_run hrun
  obtain ⟨new, hjournal, -⟩ := hs.journal
  exact .here ⟨hφ.mono (hw.since_prefix hjournal), readBytes_held hv hrun⟩

theorem copyFile_goes (hcwd : ∀ n ∈ w₀.cwd, IsEntryName n) (source target : FilePath)
    (hwrites : ∀ past bytes, Once (fun e => Once φ e ∧
      (w₀.diskAfter e).read w₀.cwd source = .ok bytes) past →
        Writes h c w₀ past (target.place w₀.cwd) bytes) :
    Try.Keeps (Goes h c own w₀ φ) (copyFile h source target) := by
  unfold copyFile
  refine access_still.goes.bind fun _ => plan_goes fun w found hw hφ hplan => ?_
  obtain ⟨place, entry⟩ := found
  cases entry with
  | directory => exact Std.Refl.refl w
  | link _ => exact Std.Refl.refl w
  | file contents executable =>
    have hread : (w₀.diskAfter (w₀.since w)).read w₀.cwd source = .ok contents := by
      rw [← hw.disk, Disk.read, hplan]
    -- the copy is made before the source is read again
    have hcopy : Try.Keeps (Goes h c own w₀ fun e => Once φ e ∧
        (w₀.diskAfter e).read w₀.cwd source = .ok contents)
        (createFile h target executable >>= fun copy =>
          readBytes h source >>= fun bytes => appendTo h copy bytes) := by
      refine createFile_gain hcwd (fun past hknown => ⟨contents, hwrites past contents hknown⟩) ?_
      refine readBytes_gain fun bytes => appendTo_goes _ _ (fun e hknown => ?_) fun past hknown =>
        hwrites past bytes ?_
      · obtain ⟨e', he', -, hbegun⟩ := hknown.1
        exact hbegun.mono he'
      · obtain ⟨e, he, hknown, hbytes⟩ := hknown
        have hφ' : Once φ e := (hknown.mp fun _ => And.left).mp fun _ => And.left
        exact ⟨e, he, hφ', hbytes⟩
    exact fun _ hheld _ => hcopy w hw hheld (.here ⟨hφ, hread⟩)

theorem ensureDirectory_goes (hcwd : ∀ n ∈ w₀.cwd, IsEntryName n) (dir : FilePath) :
    Try.Keeps (Goes h c own w₀ φ) (ensureDirectory h dir) := by
  unfold ensureDirectory
  refine .bind (.lift (pathExists_reads dir).keeps) fun there => ?_
  split
  · refine .bind (.lift (isDirectory_reads dir).keeps) fun fits => ?_
    split
    · exact .throw _
    · exact .pure ()
  · exact (makeDirectories_goes hcwd dir).mapError

theorem store_goes (hcwd : ∀ n ∈ w₀.cwd, IsEntryName n) (dir : FilePath) (name : String)
    (contents : Bytes) (hstores : Stores h c own w₀ ((dir.join ⟨name⟩).place w₀.cwd) contents) :
    Try.Keeps (Goes h c own w₀ φ) (store h dir name contents) := by
  unfold store
  refine (ensureDirectory_goes hcwd dir).bind fun _ => ?_
  exact (replaceFile_goes hcwd _ contents hstores).mapError.bind fun _ => .pure _

end World

end Decompile
