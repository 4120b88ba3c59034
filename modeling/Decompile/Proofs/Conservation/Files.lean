import Decompile.Proofs.Act.Succeeds
import Decompile.Proofs.Conservation.Site

/-!
# File operations at a site

- `World.makeDirectories_alters` and the lemmas after it: what an operation may change, whether it
  succeeds or not.
- `World.createFile_succeeds`, `copyFile_succeeds` and others: what an operation that succeeds has
  done.
-/

namespace Decompile

open Site (Hosts)

/-- What follows an action may rely on what it has succeeded with. -/
theorem Try.Keeps.alters_bind {s : Site} {X : Change → Prop} {ε α β : Type} {t : Try ε α}
    {f : α → Try ε β} (ht : Try.Keeps (s.Alters X) t)
    (hf : ∀ w a v, s.Hosts w → t.Succeeds w a v → Try.Keeps (s.Alters X) (f a)) :
    Try.Keeps (s.Alters X) (t >>= f) := by
  intro w hw
  have hfirst := ht w hw
  rw [Try.run_settle_bind]
  rcases hrun : t.settle.run w with ⟨e | a, v⟩
  · rw [hrun] at hfirst
    exact hfirst
  · rw [hrun] at hfirst
    exact hfirst.trans (hf w a v hw hrun v (hfirst.hosts hw))

namespace World

variable {h : Host} {s : Site} {X : Change → Prop}

/-! ## Plans and changes -/

theorem change_alters {c : Change} {w : World} (hc : s.Sound w.disk c) (hX : c.makes = true ∨ X c) :
    s.Alters X w ((change c).run w).2 :=
  fun _ => .single (.change c rfl rfl rfl hc hX)

/-- What follows a plan may rely on what it said of the disk as it is. -/
theorem plan_alters {α β : Type} {f : Disk → Place → Except IoError β} {k : β → Try IoError α}
    (hk : ∀ w b, s.Hosts w → f w.disk s.cwd = .ok b → s.Alters X w ((k b).settle.run w).2) :
    Try.Keeps (s.Alters X) (plan f >>= k) := by
  intro w hw
  rw [Try.run_settle_bind, run_plan]
  cases hplan : f w.disk w.cwd with
  | error e => exact .refl
  | ok b =>
    rw [hw.cwd] at hplan
    exact hk w b hw hplan hw

/-- A change that a plan comes to. -/
theorem plan_change_alters {f : Disk → Place → Except IoError Change}
    (hf : ∀ d c, s.Sited d → f d s.cwd = .ok c → s.Sound d c ∧ (c.makes = true ∨ X c)) :
    Try.Keeps (s.Alters X) (do access h; change (← plan f)) := by
  refine access_still.alters.bind fun _ => plan_alters fun w c hw hplan => ?_
  obtain ⟨hsound, hX⟩ := hf w.disk c hw.sited hplan
  exact change_alters hsound hX

theorem plan_succeeds {α : Type} {f : Disk → Place → Except IoError α} {w v : World} {a : α}
    (hrun : (plan f).Succeeds w a v) : f w.disk w.cwd = .ok a ∧ v = w := by
  unfold Try.Succeeds at hrun
  rw [run_plan] at hrun
  obtain ⟨hok, hworld⟩ := Prod.mk.inj hrun
  exact ⟨hok, hworld.symm⟩

/-- A look at the disk that succeeds has seen it as it is. -/
theorem look_succeeds {α : Type} {f : Disk → Place → Except IoError α} {w v : World} {a : α}
    (hrun : (do access h; plan f : Try IoError α).Succeeds w a v) :
    Still w v ∧ f w.disk w.cwd = .ok a := by
  obtain ⟨_, u, haccess, hplan⟩ := hrun.bind
  have hstill := haccess.keeps access_still
  obtain ⟨hok, rfl⟩ := plan_succeeds hplan
  rw [hstill.disk, hstill.cwd] at hok
  exact ⟨hstill, hok⟩

theorem readBytes_succeeds {p : FilePath} {w v : World} {bytes : Bytes}
    (hrun : (readBytes h p).Succeeds w bytes v) :
    Still w v ∧ w.disk.read w.cwd p = .ok bytes :=
  look_succeeds hrun

/-- A change that a plan has come to. -/
theorem plan_change_succeeds {f : Disk → Place → Except IoError Change} {w v : World}
    (hrun : (do access h; change (← plan f) : Try IoError Unit).Succeeds w () v) :
    ∃ c, f w.disk w.cwd = .ok c ∧ v.disk = w.disk.apply c ∧ v.cwd = w.cwd := by
  obtain ⟨_, u, haccess, hrest⟩ := hrun.bind
  obtain ⟨c, x, hplan, hchange⟩ := hrest.bind
  have hstill := haccess.keeps access_still
  obtain ⟨hok, rfl⟩ := plan_succeeds hplan
  rw [hstill.disk, hstill.cwd] at hok
  obtain ⟨-, rfl⟩ := Prod.mk.inj hchange
  exact ⟨c, hok, congrArg (Disk.apply · c) hstill.disk, hstill.cwd⟩

/-! ## Directories -/

section

variable (hcwd : ∀ n ∈ s.cwd, IsEntryName n)

include hcwd

theorem makeDirectory_alters (p : FilePath) : Try.Keeps (s.Alters X) (makeDirectory h p) := by
  refine plan_change_alters fun d c _ hplan => ?_
  unfold Disk.planMakeDirectory at hplan
  split at hplan
  · cases hplan
  · next place ending hlocate =>
    split at hplan
    · cases hplan
    · next hfree =>
      obtain rfl := Except.ok.inj hplan
      rw [Bool.or_eq_true, not_or] at hfree
      have hnone : d.find? place = none := by simpa using hfree.2
      refine ⟨⟨hnone, ?_⟩, .inl rfl⟩
      rintro rest rfl n hn
      exact Disk.names_locate hcwd hlocate n (List.mem_append_right _ hn)

theorem makeEach_alters : ∀ ps : List FilePath, Try.Keeps (s.Alters X) (makeEach h ps)
  | [] => .pure ()
  | p :: ps => by
    unfold makeEach
    refine (makeDirectory_alters hcwd p).outcome.bind fun r => ?_
    cases r with
    | ok _ => exact .bind (.pure ()) fun _ => makeEach_alters ps
    | error e =>
      refine .bind (.lift (isDirectory_reads p).keeps) fun there => ?_
      split
      · exact makeEach_alters ps
      · exact (Try.Keeps.throw e).bind fun _ => makeEach_alters ps

theorem makeLowest_alters :
    ∀ missing ps : List FilePath, Try.Keeps (s.Alters X) (makeLowest h missing ps)
  | missing, [] => .pure missing
  | missing, p :: above => by
    unfold makeLowest
    refine (makeDirectory_alters hcwd p).outcome.bind fun r => ?_
    cases r with
    | ok _ => exact .pure missing
    | error e =>
      show Try.Keeps _ (ite _ _ _)
      split
      · exact makeLowest_alters (p :: missing) above
      · refine .bind (.lift (isDirectory_reads p).keeps) fun there => ?_
        split
        · exact .pure missing
        · exact .throw e

theorem makeDirectories_alters (p : FilePath) :
    Try.Keeps (s.Alters X) (makeDirectories h p) := by
  unfold makeDirectories
  exact (makeLowest_alters hcwd _ _).bind fun missing => makeEach_alters hcwd missing

theorem ensureDirectory_alters (dir : FilePath) :
    Try.Keeps (s.Alters X) (ensureDirectory h dir) := by
  unfold ensureDirectory
  refine .bind (.lift (pathExists_reads dir).keeps) fun there => ?_
  split
  · refine .bind (.lift (isDirectory_reads dir).keeps) fun fits => ?_
    split
    · exact .throw _
    · exact .pure ()
  · exact (makeDirectories_alters hcwd dir).mapError

end

/-! ## Files -/

section

variable (hs : s.Fresh) {rest : Place} {p : FilePath}

include hs

theorem Sited.planCreate_sound {d : Disk} (hd : s.Sited d) (hp : s.sources.Leads rest p)
    {executable : Bool} {c : Change} (hc : d.planCreate s.cwd p executable = .ok c) :
    s.Sound d c ∧ ∃ x, c = .create (s.base ++ rest) x := by
  obtain ⟨⟨x, rfl⟩, hfile⟩ := (hs.anchoredOn hd).planCreate hp hc
  refine ⟨⟨hfile, fun more heq n hn => ?_⟩, x, rfl⟩
  rw [Site.target, List.append_assoc] at heq
  exact hp.names n (List.append_cancel_left heq ▸ List.mem_append_right _ hn)

theorem createFile_alters (hp : s.sources.Leads rest p) (executable : Bool)
    (hX : ∀ x, X (.create (s.base ++ rest) x)) :
    Try.Keeps (s.Alters X) (createFile h p executable) := by
  unfold createFile
  refine access_still.alters.bind fun _ => plan_alters fun w c hw hplan => ?_
  obtain ⟨hsound, x, rfl⟩ := Sited.planCreate_sound hs hw.sited hp hplan
  exact change_alters hsound (.inr (hX x))

/-- A file that was made is where its path leads. -/
theorem createFile_succeeds (hp : s.sources.Leads rest p) {executable : Bool} {w v : World}
    {q : Place} (hw : s.Hosts w) (hrun : (createFile h p executable).Succeeds w q v) :
    q = s.base ++ rest ∧ ∃ x, v.disk = w.disk.apply (.create (s.base ++ rest) x) ∧
      s.Sound w.disk (.create (s.base ++ rest) x) := by
  unfold createFile at hrun
  obtain ⟨_, u, haccess, hrun⟩ := hrun.bind
  obtain ⟨c, x, hplan, hrun⟩ := hrun.bind
  have hstill := haccess.keeps access_still
  obtain ⟨hok, rfl⟩ := plan_succeeds hplan
  have hu := hw.of_still hstill
  rw [hu.cwd] at hok
  obtain ⟨hsound, x, rfl⟩ := Sited.planCreate_sound hs hu.sited hp hok
  obtain ⟨rfl, rfl⟩ := (Try.Succeeds.lift hrun).pure
  rw [hstill.disk] at hsound
  refine ⟨rfl, x, ?_, hsound⟩
  rw [← hstill.disk]
  rfl

/-- Making a file, and what is done with its place. -/
theorem createFile_bind (hp : s.sources.Leads rest p) {executable : Bool} {α : Type}
    {k : Place → Try IoError α} (hX : ∀ x, X (.create (s.base ++ rest) x))
    (hk : Try.Keeps (s.Alters X) (k (s.base ++ rest))) :
    Try.Keeps (s.Alters X) (createFile h p executable >>= k) := by
  refine (createFile_alters hs hp executable hX).alters_bind fun w q v hw hrun => ?_
  obtain ⟨rfl, -⟩ := createFile_succeeds hs hp hw hrun
  exact hk

omit hs in
theorem appendTo_alters {q : Place} {more : Bytes} (hX : X (.append q more)) :
    Try.Keeps (s.Alters X) (appendTo h q more) := by
  unfold appendTo
  exact access_still.alters.bind fun _ => .lift fun w => change_alters trivial (.inr hX)

omit hs in
theorem appendTo_succeeds {q : Place} {more : Bytes} {w v : World}
    (hrun : (appendTo h q more).Succeeds w () v) : v.disk = w.disk.apply (.append q more) := by
  unfold appendTo at hrun
  obtain ⟨_, u, haccess, hrun⟩ := hrun.bind
  obtain ⟨-, hworld⟩ := Prod.mk.inj hrun
  rw [← hworld, ← (haccess.keeps access_still).disk]

theorem writeFile_alters (hp : s.sources.Leads rest p) (contents : Bytes)
    (hcreate : ∀ x, X (.create (s.base ++ rest) x))
    (happend : X (.append (s.base ++ rest) contents)) :
    Try.Keeps (s.Alters X) (writeFile h p contents) := by
  unfold writeFile
  exact createFile_bind hs hp hcreate (appendTo_alters happend)

theorem replaceFile_alters (hp : s.sources.Leads rest p) {contents : Bytes}
    (hX : X (.replace (s.base ++ rest) contents)) :
    Try.Keeps (s.Alters X) (replaceFile h p contents) := by
  refine plan_change_alters fun d c hd hplan => ?_
  obtain ⟨rfl, hfile⟩ := (hs.anchoredOn hd).planReplace hp hplan
  refine ⟨⟨hfile, fun more heq n hn => ?_⟩, .inr hX⟩
  rw [Site.target, List.append_assoc] at heq
  exact hp.names n (List.append_cancel_left heq ▸ List.mem_append_right _ hn)

theorem replaceFile_succeeds (hp : s.sources.Leads rest p) {contents : Bytes} {w v : World}
    (hw : s.Hosts w) (hrun : (replaceFile h p contents).Succeeds w () v) :
    v.disk = w.disk.apply (.replace (s.base ++ rest) contents) := by
  obtain ⟨c, hplan, hdisk, -⟩ := plan_change_succeeds hrun
  rw [hw.cwd] at hplan
  obtain ⟨rfl, -⟩ := (hs.anchoredOn hw.sited).planReplace hp hplan
  exact hdisk

theorem store_alters {dir : FilePath} {name : String} {contents : Bytes}
    (hp : s.sources.Leads rest (dir.join ⟨name⟩)) (hX : X (.replace (s.base ++ rest) contents)) :
    Try.Keeps (s.Alters X) (store h dir name contents) := by
  unfold store
  refine (ensureDirectory_alters hs.cwd dir).bind fun _ => ?_
  exact (replaceFile_alters hs hp hX).mapError.bind fun _ => .pure _

theorem removeFile_alters (hp : s.sources.Leads rest p) (hX : X (.remove (s.base ++ rest)))
    (hfree : ∀ e, s.before.find? (s.base ++ rest) = some e → e.isFile = true) :
    Try.Keeps (s.Alters X) (removeFile h p) := by
  refine plan_change_alters fun d c hd hplan => ?_
  obtain rfl := (hs.anchoredOn hd).planRemoveFile hp hplan
  exact ⟨hfree, .inr hX⟩

omit hs in
theorem changeAll_alters {cs : List Change}
    (hcs : ∀ c ∈ cs, ∃ q, c = .remove q ∧ X c ∧
      ∀ e, s.before.find? q = some e → e.isFile = true) :
    Try.Keeps (s.Alters X) (changeAll h cs) := by
  induction cs with
  | nil => exact .pure ()
  | cons c cs ih =>
    unfold changeAll
    obtain ⟨q, rfl, hX, hfree⟩ := hcs c List.mem_cons_self
    refine access_still.alters.bind fun _ => ?_
    refine .bind (.lift fun w => change_alters hfree (.inr hX)) fun _ => ?_
    exact ih fun c hc => hcs c (List.mem_cons_of_mem _ hc)

theorem removeTree_alters (hp : s.sources.Leads rest p)
    (hX : ∀ more, X (.remove (s.base ++ rest ++ more)))
    (hfree : ∀ more e, s.before.find? (s.base ++ rest ++ more) = some e → e.isFile = true) :
    Try.Keeps (s.Alters X) (removeTree h p) := by
  unfold removeTree
  refine plan_alters fun w cs hw hplan => changeAll_alters (fun c hc => ?_) w
  obtain ⟨more, rfl⟩ := (hs.anchoredOn hw.sited).planRemoveTree hp hplan c hc
  exact ⟨_, rfl, hX more, hfree more⟩

omit hs in
theorem ifPresent_alters {t : Try IoError Unit} (ht : Try.Keeps (s.Alters X) t) :
    Try.Keeps (s.Alters X) (ifPresent t) := by
  unfold ifPresent
  refine ht.outcome.bind fun r => ?_
  cases r with
  | ok _ => exact .pure ()
  | error e =>
    show Try.Keeps _ (ite _ _ _)
    split
    · exact .pure ()
    · exact .throw e

theorem copyFile_alters (hp : s.sources.Leads rest p) (source : FilePath)
    (hcreate : ∀ x, X (.create (s.base ++ rest) x))
    (happend : ∀ bytes, X (.append (s.base ++ rest) bytes)) :
    Try.Keeps (s.Alters X) (copyFile h source p) := by
  unfold copyFile
  refine access_still.alters.bind fun _ => plan_alters fun w found hw _ => ?_
  obtain ⟨q, e⟩ := found
  cases e with
  | directory => exact Std.Refl.refl w
  | link _ => exact Std.Refl.refl w
  | file contents executable =>
    refine createFile_bind hs hp hcreate (k := fun place => do
      appendTo h place (← readBytes h source)) ?_ w
    exact (readBytes_still source).alters.bind fun bytes => appendTo_alters (happend bytes)

/-! ## Writes that succeed -/

omit hs in
/-- What is made and then written to has been written. -/
theorem wrote_of_create (d : Disk) (q : Place) (x : Bool) (b : Bytes) :
    d.Wrote [(q, b)] ((d.apply (.create q x)).apply (.append q b)) := by
  have happly : (d.apply (.create q x)).apply (.append q b) =
      (d.put q (.file [] x)).put q (.file b x) := by
    simp only [Disk.apply, Disk.find?_put, if_true, List.nil_append]
  rw [happly]
  refine .single (x := x) (by rw [Disk.find?_put, if_pos rfl]) fun r hr => ?_
  rw [Disk.find?_put, if_neg hr, Disk.find?_put, if_neg hr]

omit hs in
/-- What leaves the disk alone writes nothing. -/
theorem wrote_of_still {w v : World} (hstill : Still w v) : w.disk.Wrote [] v.disk := by
  rw [hstill.disk]
  exact .refl _

omit hs in
/-- Directories that are made are no writes. -/
theorem wrote_of_makes {w v : World} (hw : s.Hosts w) (ha : s.Alters (fun _ => False) w v) :
    w.disk.Wrote [] v.disk :=
  .nil fun _ _ => (ha hw).untouched fun _ hX => hX.elim

/-- A file that was stored has been written as a whole. -/
theorem store_succeeds {dir : FilePath} {name : String} {contents : Bytes} {q : FilePath}
    (hp : s.sources.Leads rest (dir.join ⟨name⟩)) {w v : World} (hw : s.Hosts w)
    (hrun : (store h dir name contents).Succeeds w q v) :
    w.disk.Wrote [(s.base ++ rest, contents)] v.disk ∧ s.Hosts v := by
  unfold store at hrun
  obtain ⟨_, u, hensure, hrun⟩ := hrun.bind
  obtain ⟨_, u', hreplace, hlast⟩ := hrun.bind
  obtain ⟨-, rfl⟩ := hlast.pure
  have halters := hensure.keeps (ensureDirectory_alters (X := fun _ => False) hs.cwd dir)
  have hu := (halters hw).hosts hw
  have hdisk := replaceFile_succeeds hs hp hu hreplace.mapError
  refine ⟨(wrote_of_makes hw halters).comp (.single (x := false) ?_ fun r hr => ?_), ?_⟩
  · rw [hdisk, Disk.apply, Disk.find?_put, if_pos rfl]
  · rw [hdisk]
    exact Disk.find?_apply_of_ne _ _ hr
  · have hreplaces : Try.Keeps (s.Alters fun _ => True) (replaceFile h _ contents) :=
      replaceFile_alters hs hp trivial
    exact (hreplace.mapError.keeps hreplaces hu).hosts hu

/-- A copy has the contents of its source, which is another file. -/
theorem copyFile_succeeds (hp : s.sources.Leads rest p) {source : FilePath} {w v : World}
    (hw : s.Hosts w) (hrun : (copyFile h source p).Succeeds w () v)
    (hother : ∀ q e, w.disk.entryAt s.cwd true source = .ok (q, e) → q ≠ s.base ++ rest) :
    ∃ bytes, w.disk.read s.cwd source = .ok bytes ∧
      w.disk.Wrote [(s.base ++ rest, bytes)] v.disk := by
  unfold copyFile at hrun
  obtain ⟨_, u, haccess, hrun⟩ := hrun.bind
  obtain ⟨⟨q, e⟩, u', hplan, hrun⟩ := hrun.bind
  have hstill := haccess.keeps access_still
  obtain ⟨hentry, rfl⟩ := plan_succeeds hplan
  have hu := hw.of_still hstill
  rw [hu.cwd] at hentry
  rw [← hstill.disk] at hother ⊢
  cases e with
  | directory => exact absurd hrun Try.Succeeds.not_throw
  | link _ => exact absurd hrun Try.Succeeds.not_throw
  | file contents executable =>
    obtain ⟨place, u₁, hcreate, hrun⟩ := Try.Succeeds.bind hrun
    obtain ⟨bytes, u₂, hread, happend⟩ := hrun.bind
    obtain ⟨rfl, x, hmade, hsound⟩ := createFile_succeeds hs hp hu hcreate
    obtain ⟨hstill₂, hbytes⟩ := readBytes_succeeds hread
    have hended := appendTo_succeeds happend
    have hu₁ : u₁.cwd = s.cwd :=
      ((createFile_alters (X := fun _ => True) hs hp executable fun _ => trivial).of_run hcreate
        hu).hosts hu |>.cwd
    have hwas : u'.disk.read s.cwd source = .ok contents := by
      rw [Disk.read, hentry]
    -- the source is not the copy, so it is read as it was
    have hagain : u₁.disk.read s.cwd source = .ok contents := by
      rw [hmade]
      refine Disk.read_of_keeps (hsound.keeps fun q hq => by cases hq) hwas fun r y hr => ?_
      have hne := hother r _ hr
      rw [Disk.find?_apply_of_ne _ _ hne]
      exact (Disk.entryAt_of_locate hr).choose_spec.2.1
    rw [hu₁, hagain] at hbytes
    obtain rfl := Except.ok.inj hbytes
    refine ⟨contents, hwas, ?_⟩
    rw [hended, hstill₂.disk, hmade]
    exact wrote_of_create _ _ _ _

end

end World

end Decompile
