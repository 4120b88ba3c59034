import Decompile.Proofs.Discards.Found
import Decompile.Proofs.Locality.Run

/-!
# Discards

While nothing happens and no file operation fails, what a stage has consumed is discarded, and nothing
else comes of it.

- `Host.Coincides.onward`: no program takes time back.
- `Cleared`: some changes were made, and nothing else.
- `Try.Clears`: what an action does at a host that is quiet meanwhile; `bind` and the lemmas after it put
  actions together.
- `Stable.removeFiles_clears`, `removeTree_clears`: files, and the directory of a stage.
- `Stable.clearAway_discards`: a stage discards what `Site.discards` says.
-/

namespace Decompile

variable {h : Host} {w v u : World} {cs cs' : List Change} {α ε : Type}

theorem World.run_ifPresent (t : Try IoError Unit) (w : World) : (ifPresent t).settle.run w =
    (match (t.settle.run w).1 with
      | .ok () => .ok ()
      | .error e => if e.kind = .notFound then .ok () else .error e, (t.settle.run w).2) := by
  unfold ifPresent
  rw [Try.run_settle_outcome_bind]
  cases (t.settle.run w).1 with
  | ok _ => rfl
  | error e =>
    show (Try.settle (ite _ _ _)).run _ = (ite _ _ _, _)
    split <;> rfl

/-- A host is the same as itself. -/
theorem Host.Coincides.refl (h : Host) (a b : Nat) : h.Coincides h a b :=
  ⟨rfl, rfl, rfl, fun _ _ _ => rfl, fun _ _ _ => rfl, fun _ _ _ => rfl⟩

/-- No program takes time back. -/
theorem Try.Coincides.onward {t : Try ε α} (ht : Try.Coincides 0 0 t t) (w : World) :
    w.clock ≤ (t.settle.run w).2.clock :=
  (ht w).1

/-- The changes were made, and nothing else that is seen. -/
structure Cleared (cs : List Change) (w v : World) : Prop where
  veiled : Veiled w v
  disk : v.disk = w.disk.replay cs

theorem Cleared.refl (w : World) : Cleared [] w w := ⟨rfl, rfl⟩

theorem Cleared.trans (hw : Cleared cs w v) (hv : Cleared cs' v u) : Cleared (cs ++ cs') w u :=
  ⟨hw.veiled.trans hv.veiled, by rw [hv.disk, hw.disk, Disk.replay_append]⟩

/-- If the host is quiet meanwhile, the action makes the changes, and nothing else that is seen. -/
def Try.Clears (h : Host) (cs : List Change) (t : Try ε Unit) (w : World) : Prop :=
  h.Quiet w.clock (t.settle.run w).2.clock →
    (t.settle.run w).1 = .ok () ∧ Cleared cs w (t.settle.run w).2

namespace Try.Clears

theorem pure (w : World) : Clears h [] (Pure.pure () : Try ε Unit) w := fun _ => ⟨rfl, .refl w⟩

theorem bind {t : Try ε Unit} {f : Unit → Try ε Unit} (ht : t.Clears h cs w)
    (hfirst : w.clock ≤ (t.settle.run w).2.clock) (hrest : ∀ v, v.clock ≤ ((f ()).settle.run v).2.clock)
    (hf : ∀ v, Cleared cs w v → (f ()).Clears h cs' v) : Clears h (cs ++ cs') (t >>= f) w := by
  intro hquiet
  unfold Clears at ht
  rw [run_settle_bind] at hquiet ⊢
  rcases hrun : t.settle.run w with ⟨r, v⟩
  rw [hrun] at ht hfirst hquiet
  cases r with
  | error e => cases (ht hquiet).1
  | ok _ =>
    have hover := hrest v
    have hcleared := (ht fun n hfrom hto => hquiet n hfrom (Nat.lt_of_lt_of_le hto hover)).2
    obtain ⟨hok, hlast⟩ := hf v hcleared fun n hfrom hto => hquiet n (Nat.le_trans hfirst hfrom) hto
    exact ⟨hok, hcleared.trans hlast⟩

/-- What succeeds is not missing. -/
theorem ifPresent {t : Try IoError Unit} (ht : t.Clears h cs w) : (World.ifPresent t).Clears h cs w := by
  intro hquiet
  rw [World.run_ifPresent] at hquiet ⊢
  obtain ⟨hok, hcleared⟩ := ht hquiet
  rw [hok]
  exact ⟨rfl, hcleared⟩

/-- What is missing is taken for success. -/
theorem ifMissing {t : Try IoError Unit} {e : IoError} (he : e.kind = .notFound)
    (ht : t.settle.run w = (.error e, w)) : (World.ifPresent t).Clears h [] w := by
  intro _
  rw [World.run_ifPresent, ht]
  exact ⟨if_pos he, .refl w⟩

end Try.Clears

/-! ## Operations -/

namespace World

/-- A moment at which nothing happens. -/
theorem access_clears (w : World) : (access h).Clears h [] w := by
  intro hquiet
  have hover : w.clock < ((access h).settle.run w).2.clock := by
    rw [run_access]
    cases h.fault (w.clock + 1) <;> exact Nat.lt_of_lt_of_eq (Nat.lt_succ_self _) (pause_clock w).symm
  obtain ⟨hidle, hfault⟩ := hquiet w.clock (Nat.le_refl _) hover
  have hpaused : ((pause h).run w).2 = { w with clock := w.clock + 1 } := by
    unfold pause
    rw [Act.run_get_bind, hidle]
    rfl
  rw [run_access, hfault, hpaused]
  exact ⟨rfl, rfl, rfl⟩

theorem change_clears (c : Change) (w : World) :
    (liftM (change c) : Try IoError Unit).Clears h [c] w := by
  exact fun _ => ⟨rfl, (veil_change c w).symm, rfl⟩

theorem changeAll_onward (cs : List Change) (w : World) :
    w.clock ≤ ((changeAll h cs).settle.run w).2.clock :=
  Try.Coincides.onward ((Host.Coincides.refl h 0 0).changeAll cs) w

theorem removeFiles_onward (ps : List FilePath) (w : World) :
    w.clock ≤ ((removeFiles h ps).settle.run w).2.clock :=
  Try.Coincides.onward ((Host.Coincides.refl h 0 0).removeFiles ps) w

theorem access_onward (w : World) : w.clock ≤ ((access h).settle.run w).2.clock :=
  Try.Coincides.onward (Host.Coincides.refl h 0 0).access w

/-- Changes one after another. -/
theorem changeAll_clears (cs : List Change) (w : World) : (changeAll h cs).Clears h cs w := by
  induction cs generalizing w with
  | nil => exact .pure w
  | cons c cs ih =>
    have hrest : ∀ v, v.clock ≤ ((liftM (change c) >>= fun _ => changeAll h cs :
        Try IoError Unit).settle.run v).2.clock := fun v =>
      changeAll_onward (h := h) cs ((change c).run v).2
    unfold changeAll
    exact (access_clears w).bind (access_onward w) hrest fun v _ =>
      (change_clears c v).bind (Nat.le_refl _) (changeAll_onward cs) fun u _ => ih u

/-- A file is removed if this is planned, and nothing changes before. -/
theorem removeFile_clears {p : FilePath} {c : Change} (hplan : w.disk.planRemoveFile w.cwd p = .ok c) :
    (removeFile h p).Clears h [c] w := by
  have hchange : ∀ v, v.disk = w.disk → v.cwd = w.cwd →
      (do change (← plan fun d cwd => d.planRemoveFile cwd p) : Try IoError Unit).Clears h [c] v := by
    intro v hdisk hcwd hquiet
    have hrun : (do change (← plan fun d cwd => d.planRemoveFile cwd p) : Try IoError Unit).settle.run v =
        (liftM (change c) : Try IoError Unit).settle.run v := by
      rw [Try.run_settle_bind, run_plan, hdisk, hcwd, hplan]
    rw [hrun] at hquiet ⊢
    exact change_clears c v hquiet
  have honward : ∀ v, v.clock ≤ ((do change (← plan fun d cwd => d.planRemoveFile cwd p) :
      Try IoError Unit).settle.run v).2.clock := fun v =>
    Try.Coincides.onward (.bind (plan_coincides _) fun c => .lift (change_coincides c)) v
  unfold removeFile
  exact (access_clears w).bind (access_onward w) honward fun v hv => hchange v hv.disk hv.veiled.cwd.symm

end World

/-! ## What a stage has consumed -/

namespace Site

variable {s : Site} {c : StageContext} {kind source : StageKind} {named : String → Bool} {d d' : Disk}
  {q : Place} {items : Items}

section

variable (hs : s.Grounded) (hc : s.Serves h c)
include hs hc

/-- A file that is found is removed. -/
theorem Stable.planRemoveFile (hd : s.Stable d) {b : Bytes} {x : Bool}
    (hfile : d.find? (s.area source ++ q) = some (.file b x)) :
    d.planRemoveFile s.cwd (Disk.childPath (outputOf c.layout source) q) =
        .ok (.remove (s.area source ++ q)) ∧ s.Stable (d.apply (.remove (s.area source ++ q))) := by
  constructor
  · unfold Disk.planRemoveFile
    rw [hd.entryAt_found hs hc hfile false]
  · have hbuilds : s.Builds source d (.remove (s.area source ++ q)) := by
      refine ⟨fun e hbefore => ?_, fun hdir => ?_, q, rfl, fun hnil => ?_⟩
      · rw [hs.fresh.free] at hbefore
        cases hbefore
      · rw [hfile] at hdir
        cases hdir
      · rw [hnil, List.append_nil] at hfile
        cases hd.areas source _ hfile
    exact hd.apply hbuilds

/-- Files of a directory are removed one after another. -/
theorem Stable.removeFiles_clears {qs : List Place} (hnodup : qs.Nodup) (hw : w.cwd = s.cwd)
    (hd : s.Stable w.disk)
    (hfiles : ∀ q ∈ qs, ∃ b x, w.disk.find? (s.area source ++ q) = some (.file b x)) :
    (removeFiles h (qs.map (Disk.childPath (outputOf c.layout source)))).Clears h
      (qs.map fun q => .remove (s.area source ++ q)) w := by
  induction qs generalizing w with
  | nil => exact .pure w
  | cons q qs ih =>
    obtain ⟨hnew, hnodup⟩ := List.nodup_cons.mp hnodup
    obtain ⟨⟨b, x, hfile⟩, hrest⟩ := List.forall_mem_cons.mp hfiles
    obtain ⟨hplan, hstable⟩ := hd.planRemoveFile hs hc hfile
    rw [← hw] at hplan
    have hfirst := (World.removeFile_clears (h := h) hplan).ifPresent
    unfold removeFiles
    refine hfirst.bind (Try.Coincides.onward
      (World.ifPresent_coincides ((Host.Coincides.refl h 0 0).removeFile _)) w)
      (World.removeFiles_onward _) fun v hv => ?_
    refine ih hnodup (hv.veiled.cwd.symm.trans hw) (hv.disk ▸ hstable) fun r hr => ?_
    obtain ⟨b', x', hfile'⟩ := hrest r hr
    -- another file is still there
    have hne : s.area source ++ r ≠ s.area source ++ q := fun heq =>
      hnew (List.append_cancel_left heq ▸ hr)
    refine ⟨b', x', ?_⟩
    rw [hv.disk]
    exact (Disk.find?_apply_of_ne _ (.remove _) hne).trans hfile'

/-- The directory of a stage is removed with everything in it; it may be missing. -/
theorem Stable.removeTree_clears (source : StageKind) (hw : w.cwd = s.cwd) (hd : s.Stable w.disk) :
    ∃ cs, (World.ifPresent (World.removeTree h (outputOf c.layout source))).Clears h cs w ∧
      ∀ q, (w.disk.replay cs).find? q = if s.area source <+: q then none else w.disk.find? q := by
  cases harea : w.disk.find? (s.area source) with
  | none =>
    have hfails : (World.removeTree h (outputOf c.layout source)).settle.run w =
        (.error (.fault .notFound), w) := by
      unfold World.removeTree
      rw [Try.run_settle_bind, World.run_plan, Disk.planRemoveTree, hw,
        hd.entryAt_missing hs hc harea false]
    refine ⟨[], .ifMissing rfl hfails, fun q => ?_⟩
    show w.disk.find? q = _
    split
    · next hprefix =>
      obtain ⟨rest, rfl⟩ := hprefix
      by_cases hnil : rest = []
      · rw [hnil, List.append_nil, harea]
      · cases hfound : w.disk.find? (s.area source ++ rest) with
        | none => rfl
        | some e =>
          rw [hd.tree.directory hfound hnil] at harea
          cases harea
    · rfl
  | some e =>
    obtain rfl := hd.areas source e harea
    have hentry := (hd.stands hs hc harea).entryAt hs.fresh hc hd.sited false
    rw [← hw] at hentry
    obtain ⟨cs, hcs⟩ : ∃ cs, w.disk.planRemoveTree w.cwd (outputOf c.layout source) = .ok cs := by
      unfold Disk.planRemoveTree
      rw [hentry]
      exact ⟨_, rfl⟩
    refine ⟨cs, Try.Clears.ifPresent fun hquiet => ?_, Disk.find?_removeTree hentry hcs⟩
    have hrun : (World.removeTree h (outputOf c.layout source)).settle.run w =
        (World.changeAll h cs).settle.run w := by
      unfold World.removeTree
      rw [Try.run_settle_bind, World.run_plan, hcs]
    rw [hrun] at hquiet ⊢
    exact World.changeAll_clears cs w hquiet

omit hs hc in
/-- Bytecode that unpacking has left is what a stage finds by its extension. -/
theorem filter_isUnpackedCode (t : InputType) (d : Disk) (q : Place) :
    (if q ∈ (s.filesIn d .unpack (nameHasExtension (codeExtension t))).map (s.area .unpack ++ ·) then none
      else d.find? q) = (d.find? q).filter fun e => !s.isUnpackedCode t q e := by
  cases hfound : d.find? q with
  | none => exact ite_self _
  | some e =>
    have hcode :
        q ∈ (s.filesIn d .unpack (nameHasExtension (codeExtension t))).map (s.area .unpack ++ ·) ↔
        s.isUnpackedCode t q e = true := by
      rw [List.mem_map]
      constructor
      · rintro ⟨rest, hrest, rfl⟩
        obtain ⟨-, ⟨b, x, hfile⟩, hname⟩ := mem_filesIn.mp hrest
        obtain rfl := Option.some.inj (hfound.symm.trans hfile)
        rw [isUnpackedCode_append, hname]
        rfl
      · intro hcode
        obtain ⟨hfile, rest, rfl, hname⟩ := area_of_isUnpackedCode hcode
        refine ⟨rest, mem_filesIn.mpr ⟨?_, ?_, hname⟩, rfl⟩
        · rintro rfl
          cases hname
        · cases e with
          | file b x => exact ⟨b, x, hfound⟩
          | _ => cases hfile
    rw [Option.filter_some]
    by_cases hlost : s.isUnpackedCode t q e = true
    · rw [if_pos (hcode.mpr hlost), hlost]
      rfl
    · rw [if_neg (hlost ∘ hcode.mp), Bool.eq_false_iff.mpr hlost]
      rfl

omit hs hc in
theorem filter_isPrefixOf (area q : Place) (x : Option Entry) :
    (if area <+: q then none else x) = x.filter fun _ => !area.isPrefixOf q := by
  by_cases hprefix : area <+: q
  · rw [if_pos hprefix, List.isPrefixOf_iff_prefix.mpr hprefix]
    cases x <;> rfl
  · rw [if_neg hprefix, Bool.eq_false_iff.mpr fun h => hprefix (List.isPrefixOf_iff_prefix.mp h)]
    cases x <;> rfl

/-- Bytecode that unpacking has left is removed. -/
theorem Stable.removeCode_clears (hw : w.cwd = s.cwd) (hd : s.Stable w.disk) (t : InputType) :
    ∃ cs, (removeFiles h ((s.filesIn w.disk .unpack
      (nameHasExtension (codeExtension t))).map (Disk.childPath c.layout.unpacked))).Clears h cs w ∧
      ∀ q, (w.disk.replay cs).find? q = (w.disk.find? q).filter fun e => !s.isUnpackedCode t q e := by
  have hfiles : ∀ q ∈ s.filesIn w.disk .unpack (nameHasExtension (codeExtension t)),
      ∃ b x, w.disk.find? (s.area .unpack ++ q) = some (.file b x) := fun q hq =>
    (mem_filesIn.mp hq).2.1
  have hremoved := hd.removeFiles_clears hs hc (filesIn_nodup _ _ _ _) hw hfiles
  refine ⟨_, hremoved, fun q => ?_⟩
  rw [← filter_isUnpackedCode, ← Disk.find?_replay_removes, List.map_map]
  rfl

/-- A directory is removed all of which was consumed. -/
theorem Stable.removeArea_clears (hw : w.cwd = s.cwd) (hd : s.Stable w.disk) (source : StageKind) :
    ∃ cs, (World.ifPresent (World.removeTree h (outputOf c.layout source))).Clears h cs w ∧
      ∀ q, (w.disk.replay cs).find? q =
        (w.disk.find? q).filter fun _ => !(s.area source).isPrefixOf q := by
  obtain ⟨cs, hcs, hgone⟩ := hd.removeTree_clears (h := h) hs hc source hw
  exact ⟨cs, hcs, fun q => (hgone q).trans (filter_isPrefixOf _ q _)⟩

/-- **A stage discards what it has consumed.** -/
theorem Stable.discards_consumed (hw : w.cwd = s.cwd) (hd : s.Stable w.disk)
    (hitems : ∀ source named, sourceOf c.job kind = some (source, named) → items =
      .files ((s.filesIn w.disk source named).map (Disk.childPath (outputOf c.layout source)))) :
    ∃ cs, (discardConsumed h c kind items).Clears h cs w ∧
      ∀ q, (w.disk.replay cs).find? q = (w.disk.find? q).filter fun e => !s.discards c.job kind q e := by
  cases kind with
  | unpack =>
    refine ⟨[], .pure w, fun q => ?_⟩
    show w.disk.find? q = (w.disk.find? q).filter fun _ => true
    cases w.disk.find? q <;> rfl
  | resources => exact hd.removeArea_clears hs hc hw .unpack
  | intermediateConvert =>
    obtain rfl := hitems _ _ rfl
    exact hd.removeCode_clears hs hc hw _
  | convert =>
    by_cases hdirect : c.job.backend.isDirect = true
    · obtain rfl := hitems .unpack (nameHasExtension (codeExtension c.job.submission.inputType))
        (by rw [sourceOf_convert, if_pos hdirect])
      simp only [discards_convert, if_pos hdirect]
      have hrun : ∀ ps, discardConsumed h c .convert (.files ps) = removeFiles h ps := fun ps => by
        unfold discardConsumed
        rw [hdirect]
        rfl
      rw [hrun]
      exact hd.removeCode_clears hs hc hw _
    · simp only [discards_convert, if_neg hdirect]
      have hrun : discardConsumed h c .convert items =
          World.ifPresent (World.removeTree h c.layout.intermediate) := by
        unfold discardConsumed
        rw [Bool.eq_false_iff.mpr hdirect]
        rfl
      rw [hrun]
      exact hd.removeArea_clears hs hc hw .intermediateConvert

end

end Site

/-! ## What follows a stage that has succeeded -/

/-- A job that keeps intermediate files clears nothing away. -/
theorem clearAway_keeps {c : StageContext} (hkeep : c.job.submission.keepIntermediate = true)
    (kind : StageKind) (items : Items) : clearAway h c kind items = pure () := by
  unfold clearAway
  rw [hkeep]
  rfl

/-- **A stage of a job that does not keep them discards what it has consumed**, if nothing happens
meanwhile, and nothing else comes of it. -/
theorem Site.Stable.clearAway_discards {s : Site} {c : StageContext} (kind : StageKind) (items : Items)
    (hs : s.Grounded) (hc : s.Serves h c) (hkeep : c.job.submission.keepIntermediate = false)
    (hw : w.cwd = s.cwd) (hd : s.Stable w.disk)
    (hitems : ∀ source named, sourceOf c.job kind = some (source, named) → items =
      .files ((s.filesIn w.disk source named).map (Disk.childPath (outputOf c.layout source))))
    (hquiet : h.Quiet w.clock ((clearAway h c kind items).settle.run w).2.clock) :
    Veiled w ((clearAway h c kind items).settle.run w).2 ∧
      ∀ q, ((clearAway h c kind items).settle.run w).2.disk.find? q =
        (w.disk.find? q).filter fun e => !s.discards c.job kind q e := by
  obtain ⟨cs, hclears, hgone⟩ := hd.discards_consumed hs hc hw hitems
  have hrun : (clearAway h c kind items).settle.run w =
      (match ((discardConsumed h c kind items).settle.run w).1 with
        | .ok () => (pure () : Try StageError Unit)
        | .error e => liftM (World.log .warn Work.logTarget
          (stageLogHead c kind ++ "could not remove consumed input: " ++ e.message))).settle.run
        ((discardConsumed h c kind items).settle.run w).2 := by
    unfold clearAway
    rw [hkeep]
    rfl
  have hclock : ((clearAway h c kind items).settle.run w).2.clock =
      ((discardConsumed h c kind items).settle.run w).2.clock := by
    rw [hrun]
    cases ((discardConsumed h c kind items).settle.run w).1 <;> rfl
  rw [hclock] at hquiet
  obtain ⟨hok, hcleared⟩ := hclears hquiet
  rw [hrun, hok]
  refine ⟨hcleared.veiled, fun q => ?_⟩
  rw [← hgone, ← hcleared.disk]
  rfl

end Decompile
