import Decompile.Proofs.Conservation.Tree

/-!
# What tools are given to read

- `inputsOf`: what a call of a backend reads.
- `attemptsAt`, `converted`: the attempts at the chunks of a stage, and what a conversion has read.
- `Tried.converted`: a conversion that has succeeded has read every item once, in order.
- `Passes.attempts`: the attempts of a stage that was passed.
- `Engine.DirectConversion`: what a job with a direct backend has read.
- `SplitRun`: what is known of a job with a backend that reads archives.
-/

namespace Decompile

open Site (Hosts)

/-! ## Calls -/

/-- What a call of a backend is given to read. -/
def inputsOf (b : Backend) (i : Invocation) : List String :=
  match b with
  | .jadx => i.args.drop 3
  | .cfr => i.args.take 1
  | .fernflower => (i.args.drop 1).dropLast

/-- The calls of a backend read each input once, in order. -/
theorem flatMap_inputsOf_planConvert (b : Backend) (cat : Catalog) (inputs : List FilePath)
    (outDir : FilePath) :
    (planConvert b cat inputs outDir).flatMap (inputsOf b) = inputs.map FilePath.text := by
  unfold planConvert
  split
  · next hnone =>
    rw [List.isEmpty_iff.mp hnone]
    rfl
  · cases b with
    | jadx => exact List.flatMap_singleton _ _
    | cfr =>
      rw [List.flatMap_map]
      exact List.map_eq_flatMap.symm
    | fernflower =>
      have hargs : (fernflowerCall cat inputs outDir).args =
          "-dgs=1" :: (inputs.map FilePath.text ++ [outDir.text]) := rfl
      show [fernflowerCall cat inputs outDir].flatMap _ = _
      rw [List.flatMap_singleton, inputsOf, hargs, List.drop_succ_cons, List.drop_zero,
        List.dropLast_concat]

/-- The attempts at the chunks of a stage of a job. -/
def attemptsAt (ticket : Nat) (kind : StageKind) (as : List Attempt) : List Attempt :=
  as.filter fun t => t.ticket = ticket ∧ t.kind = kind

theorem attemptsAt_append (ticket : Nat) (kind : StageKind) (as bs : List Attempt) :
    attemptsAt ticket kind (as ++ bs) = attemptsAt ticket kind as ++ attemptsAt ticket kind bs :=
  List.filter_append ..

/-- What the conversion of a job has read, one call after another. Of the attempts at a chunk the
last one counts. -/
def converted (b : Backend) (ticket : Nat) (os : List Occurrence) : List String :=
  ((settled (attemptsAt ticket .convert (attemptsIn os))).flatMap Attempt.calls).flatMap (inputsOf b)

namespace World

theorem callsIn_append (a b : List Occurrence) : callsIn (a ++ b) = callsIn a ++ callsIn b :=
  List.filterMap_append

theorem callsIn_workIn (os : List Occurrence) : callsIn (workIn os) = callsIn os := by
  unfold callsIn workIn
  rw [List.filterMap_filter]
  congr 1
  funext o
  cases o <;> rfl

theorem callsIn_noted (as : List Attempt) :
    callsIn (as.flatMap Attempt.noted) = as.flatMap Attempt.calls := by
  have hcalled : ∀ is : List Invocation, callsIn (is.map .called) = is := by
    intro is
    induction is with
    | nil => rfl
    | cons i is ih => exact congrArg (i :: ·) ih
  induction as with
  | nil => rfl
  | cons a as ih =>
    rw [List.flatMap_cons, List.flatMap_cons, callsIn_append, ih]
    exact congrArg (· ++ _) (hcalled a.calls)

end World

/-- What was worked between two worlds is in the journal. -/
theorem Worked.since {as : List Attempt} {w v : World} (hworked : Worked (as.flatMap Attempt.noted) w v)
    (hlog : v.journal = w.journal ++ w.since v) :
    attemptsIn (w.since v) = as ∧ World.callsIn (w.since v) = as.flatMap Attempt.calls := by
  have hwork : World.workIn (w.since v) = as.flatMap Attempt.noted := by
    unfold Worked at hworked
    rw [hlog, World.workIn, List.filter_append] at hworked
    exact List.append_cancel_left hworked
  rw [← attemptsIn_workIn, ← World.callsIn_workIn, hwork, attemptsIn_noted, World.callsIn_noted]
  exact ⟨rfl, rfl⟩

/-! ## The attempts of a stage -/

variable {h : Host} {c : StageContext} {s : Site} {w v : World}

namespace Tried

variable {ticket total k n : Nat} {kind other : StageKind} {plan : Nat → List Invocation}
  {as : List Attempt} {paths : List FilePath}

theorem attemptsAt_self (ha : Tried ticket kind plan total k n as) :
    attemptsAt ticket kind as = as :=
  List.filter_eq_self.mpr fun t ht => by
    obtain ⟨hticket, hkind, -⟩ := ha.calls ht
    exact decide_eq_true ⟨hticket, hkind⟩

theorem attemptsAt_other (ha : Tried ticket kind plan total k n as) (hne : kind ≠ other) :
    attemptsAt ticket other as = [] :=
  List.filter_eq_nil_iff.mpr fun t ht => by
    obtain ⟨-, rfl, -⟩ := ha.calls ht
    simp [hne]

/-- What the calls of a stage come to, if those for a chunk come to something for each of its items
and of the attempts at a chunk the last one counts. -/
theorem flatMap_settled {β : Type} {f : Invocation → List β} {g : FilePath → List β}
    (hcount : paths.length ≤ itemLimit)
    (hplan : ∀ chunk : Chunk, (plannedCalls h c kind (.files paths) chunk).flatMap f =
      (chunk.slice paths).flatMap g)
    (ha : Tried ticket kind (chunkPlan h c kind (.files paths)) (c.chunks (.files paths)).length
      0 (c.chunks (.files paths)).length as) :
    ((Decompile.settled as).flatMap Attempt.calls).flatMap f = paths.flatMap g := by
  have hslice : ∀ k, (chunkPlan h c kind (.files paths) k).flatMap f =
      (sliceOf c.job.submission.chunkSize paths k).flatMap g := by
    intro k
    unfold chunkPlan StageContext.chunks sliceOf Items.count
    cases (chunksOf paths.length c.job.submission.chunkSize)[k]? with
    | none => rfl
    | some chunk => exact hplan chunk
  rw [ha.settled, Nat.sub_zero, ← List.range_eq_range', List.flatMap_map, List.flatMap_assoc]
  simp only [hslice]
  exact flatMap_sliceOf hcount c.job.submission.chunkSize g

/-- **A conversion has read every item once, in order.** -/
theorem converted (hcount : paths.length ≤ itemLimit)
    (ha : Tried ticket .convert (chunkPlan h c .convert (.files paths)) (c.chunks (.files paths)).length
      0 (c.chunks (.files paths)).length as) :
    ((Decompile.settled as).flatMap Attempt.calls).flatMap (inputsOf c.job.backend) =
      paths.map FilePath.text := by
  rw [List.map_eq_flatMap]
  refine ha.flatMap_settled hcount fun chunk => ?_
  rw [← List.map_eq_flatMap]
  exact flatMap_inputsOf_planConvert _ _ _ _

/-- No call of a conversion reads anything but its items. -/
theorem inputs_mem
    (ha : Tried ticket .convert (chunkPlan h c .convert (.files paths)) total k n as)
    {i : Invocation} (hi : i ∈ as.flatMap Attempt.calls) {x : String}
    (hx : x ∈ inputsOf c.job.backend i) : x ∈ paths.map FilePath.text := by
  obtain ⟨t, ht, hmem⟩ := List.mem_flatMap.mp hi
  obtain ⟨-, -, -, hprefix⟩ := ha.calls ht
  have hplanned := hprefix.subset hmem
  unfold chunkPlan at hplanned
  split at hplanned
  · next chunk hchunk =>
    have hall : x ∈ (planConvert c.job.backend h.catalog (chunk.slice paths) c.layout.java).flatMap
        (inputsOf c.job.backend) := List.mem_flatMap.mpr ⟨i, hplanned, hx⟩
    rw [flatMap_inputsOf_planConvert] at hall
    obtain ⟨p, hp, rfl⟩ := List.mem_map.mp hall
    exact List.mem_map_of_mem (Chunk.mem_of_mem_slice hp)
  · cases hplanned

/-- A stage that plans no calls makes none. -/
theorem calls_eq_nil (ha : Tried ticket kind plan total k n as) (hplan : ∀ i, plan i = []) :
    as.flatMap Attempt.calls = [] :=
  List.flatMap_eq_nil_iff.mpr fun t ht => by
    obtain ⟨-, -, -, hprefix⟩ := ha.calls ht
    rw [hplan] at hprefix
    exact List.prefix_nil.mp hprefix

end Tried

/-- Only conversions call tools. -/
theorem chunkPlan_eq_nil {kind : StageKind} (hkind : kind.converts = false) (items : Items) (k : Nat) :
    chunkPlan h c kind items k = [] := by
  unfold chunkPlan
  split
  · cases kind with
    | unpack | resources => rfl
    | intermediateConvert | convert => cases hkind
  · rfl

/-- Attempts at other stages than the conversion of a job, in which no tool is called. -/
structure Readless (ticket : Nat) (as : List Attempt) : Prop where
  others : attemptsAt ticket .convert as = []
  calls : as.flatMap Attempt.calls = []

theorem Readless.append {ticket : Nat} {as bs : List Attempt} (ha : Readless ticket as)
    (hb : Readless ticket bs) : Readless ticket (as ++ bs) where
  others := by rw [attemptsAt_append, ha.others, hb.others, List.nil_append]
  calls := by rw [List.flatMap_append, ha.calls, hb.calls, List.nil_append]

/-- What was read between two worlds, if only the conversion has called tools. -/
theorem Worked.converted {ticket : Nat} {before as after : List Attempt}
    (hworked : Worked ((before ++ (as ++ after)).flatMap Attempt.noted) w v)
    (hlog : v.journal = w.journal ++ w.since v) (hbefore : Readless ticket before)
    (has : attemptsAt ticket .convert as = as) (hafter : Readless ticket after) (b : Backend) :
    converted b ticket (w.since v) = ((settled as).flatMap Attempt.calls).flatMap (inputsOf b) ∧
      World.callsIn (w.since v) = as.flatMap Attempt.calls := by
  obtain ⟨hattempts, hcalls⟩ := hworked.since hlog
  rw [List.flatMap_append, List.flatMap_append, hbefore.calls, hafter.calls, List.nil_append,
    List.append_nil] at hcalls
  rw [Decompile.converted, hattempts, attemptsAt_append, attemptsAt_append, hbefore.others, has,
    hafter.others, List.nil_append, List.append_nil]
  exact ⟨rfl, hcalls⟩

/-- What a stage has found when it began to work on its items, and the attempts it has made. Until
then it has touched nothing that other stages write. -/
inductive Attempts (h : Host) (c : StageContext) (s : Site) (kind : StageKind) (w v : World)
    (as : List Attempt) : Prop where
  | mk {u u' : World} (items : Items) (hosts : s.Hosts u)
    (untouched : ∀ other rest, kind ≠ other → w.disk.Untouched u.disk (s.area other ++ rest))
    (stands : ∀ other, s.Stands c.layout other w.disk → s.Stands c.layout other u.disk)
    (collects : (Items.collect h c kind).Succeeds u items u')
    (worked : Worked (as.flatMap Attempt.noted) w v)
    (tried : Tried c.ticket kind (chunkPlan h c kind items) (c.chunks items).length 0
      (c.chunks items).length as)

namespace Attempts

variable {kind target : StageKind} {as : List Attempt}

theorem worked (ha : Attempts h c s kind w v as) : Worked (as.flatMap Attempt.noted) w v := by
  obtain ⟨_, -, -, -, -, hworked, -⟩ := ha
  exact hworked

theorem attemptsAt_own (ha : Attempts h c s kind w v as) :
    attemptsAt c.ticket kind as = as := by
  obtain ⟨_, -, -, -, -, -, htried⟩ := ha
  exact htried.attemptsAt_self

theorem attemptsAt_ne (ha : Attempts h c s kind w v as) (hne : kind ≠ target) :
    attemptsAt c.ticket target as = [] := by
  obtain ⟨_, -, -, -, -, -, htried⟩ := ha
  exact htried.attemptsAt_other hne

/-- A stage in which no call is planned reads nothing. -/
theorem readless (ha : Attempts h c s kind w v as) (hne : kind ≠ .convert)
    (hplan : ∀ items k, chunkPlan h c kind items k = []) : Readless c.ticket as := by
  refine ⟨ha.attemptsAt_ne hne, ?_⟩
  obtain ⟨items, -, -, -, -, -, htried⟩ := ha
  exact htried.calls_eq_nil (hplan items)

end Attempts

theorem Passes.attempts {stage : Stage} (hs : s.Fresh) (hc : s.Serves h c) (htools : ToolsWithin h c)
    (hp : Passes h c s stage w v) (hw : s.Hosts w)
    (hunpacked : stage.kind ≠ .unpack → s.Stands c.layout .unpack w.disk)
    (hjars : stage.kind = .convert → c.job.backend.isDirect = false →
      s.Stands c.layout .intermediateConvert w.disk) :
    ∃ as, Attempts h c s stage.kind w v as := by
  obtain ⟨x, y, hfirst, hrun, hlast, -, -⟩ := hp.parts hw
  have hx := hfirst.hosts hw
  obtain ⟨items, u, u', hcourse, -, hcollect, -, as, hworked, htried⟩ := hrun.summary hs hc htools hx
    (fun hkind => hfirst.stands hw (hunpacked hkind))
    fun hkind hsplit => hfirst.stands hw (hjars hkind hsplit)
  refine ⟨as, .mk items (hcourse.hosts hx) (fun other rest hne => ?_) (fun other hstands => ?_)
    hcollect ?_ htried⟩
  · exact (hfirst.untouched hw other rest).trans (Site.Course.others hcourse hne rest)
  · exact (hfirst.stands hw hstands).within hcourse
  · have hall := (hfirst.worked.append hworked).append hlast.worked
    rwa [List.nil_append, List.append_nil] at hall

/-! ## Direct backends -/

/-- The paths of the bytecode among what was unpacked, in order. -/
def Site.codePaths (s : Site) (c : StageContext) (d : Disk) : List FilePath :=
  (s.codeIn c.job.submission.inputType d).map (Disk.childPath c.layout.unpacked)

/-- Different places below a directory have paths that are written differently. -/
theorem nodup_text_childPath {root : FilePath} {qs : List Place} (hqs : qs.Nodup)
    (hnames : ∀ q ∈ qs, ∀ n ∈ q, IsEntryName n) :
    ((qs.map (Disk.childPath root)).map FilePath.text).Nodup := by
  rw [List.map_map]
  exact hqs.map_on fun p hp q hq heq => Disk.text_childPath_inj (hnames p hp) (hnames q hq) heq

section

variable (hs : s.Fresh) (hc : s.Serves h c)

include hs hc

omit hs hc in
/-- A conversion has read the files that it has found in a directory of another stage. -/
theorem Attempts.reads {as : List Attempt} {source : StageKind} {keep : String → Bool}
    (ha : Attempts h c s .convert w v as) (hsource : .convert ≠ source)
    (hfound : ∀ {u u' : World} {items : Items}, s.Hosts u → s.Stands c.layout source u.disk →
      (Items.collect h c .convert).Succeeds u items u' →
        items = .files ((s.filesIn u.disk source keep).map
          (Disk.childPath (outputOf c.layout source))))
    (hstands : s.Stands c.layout source w.disk)
    (hfew : (s.filesIn w.disk source keep).length ≤ itemLimit) :
    ((settled as).flatMap Attempt.calls).flatMap (inputsOf c.job.backend) =
        ((s.filesIn w.disk source keep).map (Disk.childPath (outputOf c.layout source))).map
          FilePath.text ∧
      ∀ i ∈ as.flatMap Attempt.calls, ∀ x ∈ inputsOf c.job.backend i,
        x ∈ ((s.filesIn w.disk source keep).map (Disk.childPath (outputOf c.layout source))).map
          FilePath.text := by
  obtain @⟨u, u', items, hosts, untouched, stands, collects, -, tried⟩ := ha
  obtain rfl := hfound hosts (stands source hstands) collects
  have hsame : s.filesIn u.disk source keep = s.filesIn w.disk source keep :=
    Site.filesIn_untouched fun q _ => untouched source q hsource
  rw [hsame] at tried
  exact ⟨tried.converted (by rwa [List.length_map]), fun i hi x hx => tried.inputs_mem hi hx⟩

/-- A direct backend finds the bytecode that was unpacked. -/
theorem collect_direct (hdirect : c.job.backend.isDirect = true) {u u' : World} {items : Items}
    (hu : s.Hosts u) (hstands : s.Stands c.layout .unpack u.disk)
    (hcollect : (Items.collect h c .convert).Succeeds u items u') :
    items = .files (s.codePaths c u.disk) := by
  replace hcollect : Try.Succeeds (ite _ _ _) u items u' := hcollect
  rw [if_pos hdirect] at hcollect
  exact (Items.code_succeeds hs hc hu hstands hcollect).2

end

/-- What a job with a direct backend has read. -/
inductive Engine.DirectConversion (h : Host) (a : Accepted) (s : Site) (w : World) : Prop where
  | mk {past later : List Occurrence} (parts : w.since ((runJob h a).run w).2 = past ++ later)
    (unpacked : Unpacked h (a.context h) s w past)
    (reads : converted a.job.backend a.ticket (w.since ((runJob h a).run w).2) =
      (s.codePaths (a.context h) (w.diskAfter past)).map FilePath.text)
    (sorted : (s.codeIn a.job.submission.inputType (w.diskAfter past)).Pairwise (· < ·))
    (once : ((s.codePaths (a.context h) (w.diskAfter past)).map FilePath.text).Nodup)
    (others : ∀ i ∈ World.callsIn (w.since ((runJob h a).run w).2), ∀ x ∈ inputsOf a.job.backend i,
      x ∈ (s.codePaths (a.context h) (w.diskAfter past)).map FilePath.text)

variable {a : Accepted} {base : Place}

theorem Engine.directConversion (ha : a.Planned h) (hs : (a.site h w base).Fresh)
    (hidle : w.monitor = none) (htools : ToolsWithin h (a.context h)) (hdone : Succeeds h a w)
    (hdirect : a.job.backend.isDirect = true) : DirectConversion h a (a.site h w base) w := by
  have hc := ha.serves w base
  have hw := Accepted.hosts hs
  obtain ⟨z, hroute, hafter⟩ := runJob_route ha hs hidle htools hdone
  cases hroute with
  | split split => cases hdirect.symm.trans split
  | @direct u x direct unpack unpacked convert hx resources =>
    obtain ⟨hu, hstands, hunpacked, hlog, hdisk, -⟩ := unpack.unpacked hs hc htools hw (vacant hs)
    obtain ⟨as₀, ha₀⟩ := unpack.attempts hs hc htools hw nofun nofun
    obtain ⟨as₁, ha₁⟩ := convert.attempts hs hc htools hu (fun _ => hstands) fun _ hsplit => by
      cases hdirect.symm.trans hsplit
    obtain ⟨as₂, ha₂⟩ :=
      resources.attempts hs hc htools hx.hosts (fun _ => hx.stocked.stands) nofun
    have hfew : ((a.site h w base).codeIn a.job.submission.inputType u.disk).length ≤ itemLimit :=
      hdisk ▸ hunpacked.length_filesIn _
    obtain ⟨hreads, hothers⟩ := ha₁.reads (by decide : StageKind.convert ≠ .unpack)
      (collect_direct hs hc hdirect) hstands hfew
    have hlater := hx.since hs hc htools resources hafter
    have hsince : w.since ((runJob h a).run w).2 = w.since u ++ u.since ((runJob h a).run w).2 :=
      World.since_eq (by rw [← List.append_assoc, ← hlog, ← hlater])
    have hlogs : ((runJob h a).run w).2.journal = w.journal ++ w.since ((runJob h a).run w).2 := by
      rw [hsince, ← List.append_assoc, ← hlog, ← hlater]
    have hworked : Worked ((as₀ ++ (as₁ ++ as₂)).flatMap Attempt.noted) w ((runJob h a).run w).2 := by
      have hall := ha₀.worked.append (ha₁.worked.append (ha₂.worked.append hafter.worked))
      rwa [List.append_nil, ← List.flatMap_append, ← List.flatMap_append] at hall
    obtain ⟨hconverted, hcalls⟩ := hworked.converted hlogs
      (ha₀.readless (by decide) (chunkPlan_eq_nil rfl)) ha₁.attemptsAt_own
      (ha₂.readless (by decide) (chunkPlan_eq_nil rfl)) a.job.backend
    rw [hdisk] at hreads hothers
    refine .mk hsince hunpacked (hconverted.trans hreads) (Site.filesIn_ascending _ _ _ _) ?_ ?_
    · refine nodup_text_childPath (Site.filesIn_nodup _ _ _ _) fun q hq => ?_
      exact Site.Sited.names_filesIn (hdisk ▸ hu.sited) hq
    · rw [hcalls]
      exact hothers

/-! ## Backends that read archives -/

/-- What is known of a job that has succeeded with a backend that reads archives: when they are made,
what there is to make them of, and the attempts of its four stages. -/
inductive SplitRun (h : Host) (c : StageContext) (s : Site) (w v : World) : Prop where
  | mk {u x y z : World} {as₀ as₁ as₂ as₃ : List Attempt} (hosts : s.Hosts u)
    (stands : s.Stands c.layout .unpack u.disk) (unpacked : Unpacked h c s w (w.since u))
    (disk : u.disk = w.diskAfter (w.since u))
    (vacant : ∀ rest b e, u.disk.find? (s.area .intermediateConvert ++ rest) ≠ some (.file b e))
    (makes : Passes h c s ⟨1, .intermediateConvert⟩ u x) (made : Reaches c s u x)
    (jars : s.Stands c.layout .intermediateConvert x.disk)
    (whole : w.since v = w.since u ++ u.since x ++ x.since v)
    (log : v.journal = w.journal ++ w.since v) (tried₀ : Attempts h c s .unpack w u as₀)
    (tried₁ : Attempts h c s .intermediateConvert u x as₁) (tried₂ : Attempts h c s .convert x y as₂)
    (tried₃ : Attempts h c s .resources y z as₃)
    (worked : Worked ((as₀ ++ as₁ ++ (as₂ ++ as₃)).flatMap Attempt.noted) w v)

theorem Engine.splitRun (ha : a.Planned h) (hs : (a.site h w base).Fresh) (hidle : w.monitor = none)
    (htools : ToolsWithin h (a.context h)) (hdone : Succeeds h a w)
    (hsplit : a.job.backend.isDirect = false) :
    SplitRun h (a.context h) (a.site h w base) w ((runJob h a).run w).2 := by
  have hc := ha.serves w base
  have hw := Accepted.hosts hs
  obtain ⟨z, hroute, hafter⟩ := runJob_route ha hs hidle htools hdone
  cases hroute with
  | direct direct => cases hsplit.symm.trans direct
  | @split u x y split unpack unpacked makes hx jars convert hy resources =>
    obtain ⟨hu, hstands, hunpacked, hlog, hdisk, hfree⟩ :=
      unpack.unpacked hs hc htools hw (vacant hs)
    have hvacant : ∀ rest b e, u.disk.find? ((a.site h w base).area .intermediateConvert ++ rest) ≠
        some (.file b e) := fun rest b e hfile => by
      have hold := (hfree .intermediateConvert nofun rest).file_iff.mp hfile
      cases (hs.free .intermediateConvert rest).symm.trans hold
    obtain ⟨as₀, ha₀⟩ := unpack.attempts hs hc htools hw nofun nofun
    obtain ⟨as₁, ha₁⟩ := makes.attempts hs hc htools hu (fun _ => hstands) nofun
    obtain ⟨as₂, ha₂⟩ :=
      convert.attempts hs hc htools hx.hosts (fun _ => hx.stocked.stands) fun _ _ => jars
    obtain ⟨as₃, ha₃⟩ :=
      resources.attempts hs hc htools hy.hosts (fun _ => hy.stocked.stands) nofun
    -- from when the archives are made on
    have hfrom : Reaches (a.context h) (a.site h w base) x x :=
      ⟨hx.hosts, .refl hx.stocked.stands, .refl⟩
    obtain ⟨hthen, -⟩ := convert.reaches hs hc htools rfl hfrom fun _ _ => jars
    have hmade := hx.course.journal.1
    have hlater := hthen.since hs hc htools resources hafter
    have hwhole : w.since ((runJob h a).run w).2 =
        w.since u ++ u.since x ++ x.since ((runJob h a).run w).2 :=
      World.since_eq (by rw [← List.append_assoc, ← List.append_assoc, ← hlog, ← hmade, ← hlater])
    have hlogs : ((runJob h a).run w).2.journal = w.journal ++ w.since ((runJob h a).run w).2 := by
      rw [hwhole, ← List.append_assoc, ← List.append_assoc, ← hlog, ← hmade, ← hlater]
    have hworked : Worked ((as₀ ++ as₁ ++ (as₂ ++ as₃)).flatMap Attempt.noted) w
        ((runJob h a).run w).2 := by
      have hall := (ha₀.worked.append ha₁.worked).append
        (ha₂.worked.append (ha₃.worked.append hafter.worked))
      rwa [List.append_nil, ← List.flatMap_append, ← List.flatMap_append, ← List.flatMap_append] at hall
    exact .mk hu hstands hunpacked hdisk hvacant makes hx jars hwhole hlogs ha₀ ha₁ ha₂ ha₃ hworked

end Decompile
