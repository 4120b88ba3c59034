import Decompile.Proofs.Packing.Pack
import Decompile.Proofs.Packing.Tree
import Decompile.Proofs.Unpacking.Stage

/-!
# Expanding what was packed

Expanding an archive of class files into an empty directory leaves exactly the files that were packed
into it, under the paths that they had, and removes the archive. So packing and expanding are inverse,
also where attempts to pack have failed before.

- `Zip.listed_of_contents?`: what reading an archive says about its members.
- `Work.extractEach_lays`: writing the members of class files one after another.
- `Work.expand_comes`: what expanding comes to.
- `Recreated`, `Work.pack_expand`: packing and expanding are inverse.
-/

namespace Decompile

open FilePath (Continues)

/-! ## Members that were read -/

namespace Zip

/-- The member is listed under the name, and opens to the contents. -/
def Gives (bytes : Bytes) (l : Listed) (c : String × Bytes) : Prop :=
  l.name = c.1 ∧ openMember bytes l = .ok ⟨c.2, none⟩

variable {bytes : Bytes} {ls : List Listed} {cs : List (String × Bytes)} {c : String × Bytes}

/-- An archive of which all members can be read lists them in order. -/
theorem listed_of_contents? (h : contents? bytes = some cs) :
    ∃ ls, read bytes = .ok ls ∧ List.Forall₂ (Gives bytes) ls cs := by
  unfold contents? at h
  split at h
  · cases h
  · next ls hread =>
    refine ⟨ls, hread, ?_⟩
    clear hread
    induction ls generalizing cs with
    | nil =>
      obtain rfl : [] = cs := Option.some.inj h
      exact .nil
    | cons l ls ih =>
      rw [List.mapM_cons, Option.bind_eq_bind, Option.bind_eq_some_iff] at h
      obtain ⟨c, hc, h⟩ := h
      rw [Option.bind_eq_bind, Option.bind_eq_some_iff] at h
      obtain ⟨rest, hrest, h⟩ := h
      obtain rfl : c :: rest = cs := Option.some.inj h
      refine .cons ?_ (ih hrest)
      split at hc
      · next b hopen =>
        obtain rfl := Option.some.inj hc
        exact ⟨rfl, hopen⟩
      · cases hc

theorem names_of_gives (h : List.Forall₂ (Gives bytes) ls cs) : ls.map Listed.name = cs.map Prod.fst := by
  induction h with
  | nil => rfl
  | cons hl _ ih => rw [List.map_cons, List.map_cons, hl.1, ih]

/-- Where no name comes twice, each member is found under its name. -/
theorem find?_of_gives (h : List.Forall₂ (Gives bytes) ls cs) (hnodup : (cs.map Prod.fst).Nodup)
    (hc : c ∈ cs) : ∃ l, find? c.1 ls = some l ∧ Gives bytes l c := by
  induction h with
  | nil => cases hc
  | @cons l c' ls cs hl hrest ih =>
    rw [List.map_cons, List.nodup_cons] at hnodup
    unfold find?
    rcases List.mem_cons.mp hc with rfl | hc
    · exact ⟨l, List.find?_cons_of_pos (by simpa using hl.1), hl⟩
    · rw [List.find?_cons_of_neg]
      · exact ih hnodup.2 hc
      · have hne : c'.1 ≠ c.1 := fun heq => hnodup.1 (heq ▸ List.mem_map.mpr ⟨c, hc, rfl⟩)
        simpa [hl.1] using hne

end Zip

namespace Work

variable {h : Host} (hcalm : h.Calm) {d₀ : Disk} {cwd target place : Place} {jar dest : FilePath}
  {bytes : Bytes} {ls : List Zip.Listed} {done sources : List Source} {s : Source} {w : World}

include hcalm

/-- The member of a class file is written where the file belongs. -/
theorem extractMember_source {l : Zip.Listed} {d : Disk} (hnames : ∀ n ∈ s.names, IsFileName n)
    (hbelow : s.names ≠ []) (hslash : Zip.namesDirectory (Zip.memberName s.names) = false)
    (hl : Zip.Gives bytes l (Zip.memberName s.names, s.contents))
    (hground : w.disk.Ground w.cwd dest target)
    (hlay : w.disk.layAt w.cwd dest target (Zip.memberName s.names) ⟨s.contents, none⟩ = (.ok (), d)) :
    (extractMember h bytes dest l).Comes w (.ok ()) d := by
  obtain ⟨hname, hopen⟩ := hl
  simp only at hname hopen
  have hentries : ∀ n ∈ s.names, IsEntryName n := fun n hn => (hnames n hn).entry
  have henclosed := Zip.isEnclosed_memberName hentries (fun n hn => (hnames n hn).clean) hbelow
  have hlays := @extractMember_lays h hcalm w dest target bytes l
  rw [Disk.lay, hopen, hname] at hlays
  simp only [hslash, henclosed, Bool.not_true, Bool.or_self, Bool.false_eq_true, if_false, hlay]
    at hlays
  refine hlays fun _ => ?_
  have hp := hground.continues henclosed
  rw [Zip.steps_memberName hentries] at hp ⊢
  obtain ⟨front, n, hlast⟩ := (List.eq_nil_or_concat' s.names).resolve_left hbelow
  have hdrop : s.names.dropLast = front := by rw [hlast, List.dropLast_concat]
  have hdown : Continues dest (front ++ [n]) (dest.join ⟨Zip.memberName s.names⟩) := hlast ▸ hp
  have hsteps : (dest.join ⟨Zip.memberName s.names⟩).steps ≠ [] := by
    rw [hp.steps]
    exact List.append_ne_nil_of_right_ne_nil _ hbelow
  obtain ⟨parent, hparent⟩ := FilePath.exists_parent? hsteps
  have hstays : Place.stays 0 front = true := Place.stays_names (fun m hm =>
    hentries m (hlast ▸ List.mem_append_left _ hm)) 0
  rw [hdrop]
  exact ⟨parent, hparent, World.makeDirectories_comes hcalm (hdown.parent hparent) hground hstays⟩

/-- The members of class files are laid one after another. -/
theorem extractEach_lays (hempty : d₀.Holds d₀ target [])
    (hdest : d₀.entryAt cwd true dest = .ok (target, .directory))
    (hlisted : ∀ s ∈ sources, Zip.namesDirectory (Zip.memberName s.names) = false ∧
      ∃ l, Zip.find? (Zip.memberName s.names) ls = some l ∧
        Zip.Gives bytes l (Zip.memberName s.names, s.contents))
    (hseparate : Source.Separate (done ++ sources)) {x : Disk} (hx : d₀.Holds x target done) :
    ∃ y, d₀.Holds y target (done ++ sources) ∧ ∀ w : World, w.disk = x → w.cwd = cwd →
      (extractEach h bytes ls dest false (sources.map fun s => Zip.memberName s.names)).Comes w
        (.ok ()) y := by
  induction sources generalizing done x with
  | nil => exact ⟨x, by rwa [List.append_nil], fun w hw _ => hw ▸ .pure () w⟩
  | cons s sources ih =>
    obtain ⟨⟨hslash, l, hfind, hl⟩, hrest⟩ := List.forall_mem_cons.mp hlisted
    rw [List.append_cons] at hseparate ⊢
    have hone := hseparate.of_append
    have hs : s ∈ done ++ [s] := List.mem_append_right _ List.mem_cons_self
    have hground := hx.ground hone.of_append hempty hdest
    obtain ⟨d, hlay, hd⟩ := hx.lay hone hground
    obtain ⟨y, hy, hmore⟩ := ih hrest hseparate hd
    refine ⟨y, hy, fun w hw hcwd => ?_⟩
    rw [← hw, ← hcwd] at hground hlay
    have hwritten := extractMember_source hcalm (hone.names s hs) (hone.below s hs) hslash hl hground
      hlay
    rw [List.map_cons, extractEach]
    simp only [Bool.false_eq_true, if_false, hfind]
    exact hwritten.bind fun v hv hvcwd => hmore v hv (hvcwd.trans hcwd)

/-- The names in an archive of class files are those of the class files. -/
theorem listMembers_sources {base : Place} {root : FilePath} (hread : d₀.read cwd jar = .ok bytes)
    (hls : Zip.read bytes = .ok ls)
    (hnames : ls.map Zip.Listed.name = sources.map fun s => Zip.memberName s.names)
    (hstands : ∀ s ∈ sources, s.Stands d₀ cwd root base) (hw : w.disk = d₀) (hcwd : w.cwd = cwd) :
    (Items.listMembers h jar).Comes w (.ok (sources.map fun s => Zip.memberName s.names)) d₀ := by
  have hbytes := (World.readBytes_comes hcalm jar w).mapError StageError.ofIo
  rw [hw, hcwd, hread] at hbytes
  have hkept : (ls.map Zip.Listed.name).filter (fun n => n.toList.getLast? ≠ some '/') =
      sources.map fun s => Zip.memberName s.names := by
    rw [hnames, List.filter_eq_self]
    intro n hn
    obtain ⟨s, hs, rfl⟩ := List.mem_map.mp hn
    exact decide_eq_true (hstands s hs).memberName_listed
  unfold Items.listMembers
  refine hbytes.bind fun v hv _ => ?_
  simp only [hls, hkept]
  exact hv ▸ .pure _ v

/-- Expanding an archive of class files lays them, and removes the archive. -/
theorem expand_comes {base : Place} {root : FilePath} (hjar : d₀.HasRoom cwd jar place) {x : Bool}
    (hfile : d₀.find? place = some (.file bytes x)) (hout : ¬ target <+: place)
    (hempty : d₀.Holds d₀ target []) (hdest : d₀.entryAt cwd true dest = .ok (target, .directory))
    (hstands : ∀ s ∈ sources, s.Stands d₀ cwd root base)
    (hdistinct : (sources.map Source.names).Nodup)
    (hzip : Zip.contents? bytes = some (sources.map fun s => (Zip.memberName s.names, s.contents))) :
    ∃ y, d₀.Holds y target sources ∧ ∀ w : World, w.disk = d₀ → w.cwd = cwd →
      (expand h jar dest).Comes w (.ok ()) (y.erase place) := by
  have hseparate := Source.Stands.separate hstands hdistinct
  obtain ⟨ls, hls, hgives⟩ := Zip.listed_of_contents? hzip
  have hnames : ls.map Zip.Listed.name = sources.map fun s => Zip.memberName s.names := by
    rw [Zip.names_of_gives hgives, List.map_map]
    rfl
  have hnodup : ((sources.map fun s => (Zip.memberName s.names, s.contents)).map Prod.fst).Nodup := by
    rw [List.map_map]
    refine List.pairwise_map.mpr ((List.pairwise_map.mp hdistinct).imp_of_mem
      fun {s t} hs ht hne heq => hne ?_)
    exact Zip.memberName_inj (hstands s hs).names (hstands t ht).names heq
  have hlisted : ∀ s ∈ sources, Zip.namesDirectory (Zip.memberName s.names) = false ∧
      ∃ l, Zip.find? (Zip.memberName s.names) ls = some l ∧
        Zip.Gives bytes l (Zip.memberName s.names, s.contents) := fun s hs =>
    ⟨(hstands s hs).namesDirectory_memberName,
      Zip.find?_of_gives hgives hnodup (List.mem_map.mpr ⟨s, hs, rfl⟩)⟩
  obtain ⟨y, hy, hwritten⟩ := extractEach_lays hcalm hempty hdest hlisted
    (show Source.Separate ([] ++ sources) from hseparate) hempty
  rw [List.nil_append] at hy
  have hread : d₀.read cwd jar = .ok bytes := Disk.read_eq (hjar.locate true) hfile
  have hremoved : y.planRemoveFile cwd jar = .ok (.remove place) := by
    have hentry := Disk.entryAt_of_keeps (hy.keeps hseparate hempty)
      (Disk.entryAt_eq (hjar.locate false) hfile fun _ => rfl) ((hy.others _ hout).trans hfile)
    rw [Disk.planRemoveFile, hentry]
  refine ⟨y, hy, fun w hw hcwd => ?_⟩
  unfold expand
  refine (listMembers_sources hcalm hread hls hnames hstands hw hcwd).bind fun v hv hvcwd => ?_
  have hbytes := (World.readBytes_comes hcalm jar v).mapError StageError.ofIo
  rw [hv, hvcwd, hcwd, hread] at hbytes
  have hextracted : (extract h jar (sources.map fun s => Zip.memberName s.names) dest false).Comes v
      (.ok ()) y := by
    unfold extract
    refine hbytes.bind fun u hu hucwd => ?_
    simp only [hls]
    exact hwritten u hu (hucwd.trans (hvcwd.trans hcwd))
  refine hextracted.bind fun u hu hucwd => ?_
  have hgone := (World.removeFile_comes hcalm jar u).mapError StageError.ofIo
  rw [hu, hucwd, hvcwd, hcwd, hremoved] at hgone
  exact hgone

end Work

/-! ## Packing and expanding -/

/-- The directory at `target` holds exactly the files, each under the names it had and with its bytes,
the archive is gone, and nothing else has changed. -/
structure Recreated (before after : Disk) (place target : Place) (sources : List Source) : Prop where
  tree : ∀ rest, after.find? (target ++ rest) = Source.tree sources rest
  files : ∀ q b, (q, b) ∈ after.filesUnder target ↔ ∃ s ∈ sources, s.names = q ∧ s.contents = b
  removed : after.find? place = none
  others : ∀ q, q ≠ place → ¬ target <+: q → after.find? q = before.find? q

theorem Disk.Holds.recreated {before packed y : Disk} {place target : Place} {sources : List Source}
    (hy : packed.Holds y target sources) (hseparate : Source.Separate sources)
    (hothers : ∀ q, q ≠ place → packed.find? q = before.find? q) (hout : ¬ target <+: place) :
    Recreated before (y.erase place) place target sources := by
  have htree : ∀ rest, (y.erase place).find? (target ++ rest) = Source.tree sources rest := by
    intro rest
    rw [Disk.find?_erase, if_neg, hy.tree]
    rintro rfl
    exact hout (List.prefix_append _ _)
  refine ⟨htree, fun q b => ?_, ?_, fun q hne hq => ?_⟩
  · rw [Disk.mem_filesUnder, htree]
    constructor
    · rintro ⟨-, x, hfile⟩
      obtain ⟨s, hs, rfl, heq⟩ | ⟨heq, -⟩ := Source.tree_cases hfile
      · obtain ⟨rfl, -⟩ := Entry.file.inj heq
        exact ⟨s, hs, rfl, rfl⟩
      · cases heq
    · rintro ⟨s, hs, rfl, rfl⟩
      exact ⟨hseparate.below s hs, false, hseparate.tree_file hs⟩
  · rw [Disk.find?_erase, if_pos rfl]
  · rw [Disk.find?_erase, if_neg hne, hy.others q hq, hothers q hne]

/-- **Packing and expanding are inverse.** Class files below a root, in any order, are packed into an
archive, which is expanded into an empty directory: that directory then holds exactly these files, and
the archive is gone. Both comes to the same after any number of earlier attempts to pack into that
archive, however these have ended. -/
theorem Work.pack_expand_inverse {h : Host} (hcalm : h.Calm) {w : World} {root jar dest : FilePath}
    {base place target : Place} {sources : List Source}
    (hstands : ∀ s ∈ sources, s.Stands w.disk w.cwd root base)
    (hdistinct : (sources.map Source.names).Nodup)
    (hjar : w.disk.HasRoom w.cwd jar place) (hnone : ∀ s ∈ sources, base ++ s.names ≠ place)
    (hdest : w.disk.entryAt w.cwd true dest = .ok (target, .directory))
    (hempty : ∀ rest, rest ≠ [] → w.disk.find? (target ++ rest) = none) (hout : ¬ target <+: place)
    (hzip : Zip.contents? (Zip.write (sources.map Source.member)) =
      some ((sources.map Source.member).map fun m => (m.name, m.contents))) :
    ∃ packed restored, Recreated w.disk restored place target sources ∧
      ∀ v, Attempted jar w v →
        (pack h (sources.map Source.path) root jar).Reaches v (.ok ()) packed ∧
        (do pack h (sources.map Source.path) root jar; expand h jar dest : Try StageError Unit).Reaches v
          (.ok ()) restored := by
  have hsources : ∀ s ∈ sources, s.Stands w.disk w.cwd root base ∧ base ++ s.names ≠ place :=
    fun s hs => ⟨hstands s hs, hnone s hs⟩
  obtain ⟨packed, hpacked⟩ :
      ∃ packed, packed = w.disk.holding place (Zip.write (sources.map Source.member)) := ⟨_, rfl⟩
  have hfileAt : w.disk.FileAt packed place := hpacked ▸ hjar.fileAt _
  obtain ⟨-, -, hthere, -⟩ := Disk.entryAt_of_locate hdest
  -- the archive stands outside, so the directory is as empty as before
  have hfree : packed.Holds packed target [] := by
    refine ⟨fun rest => ?_, fun _ _ => rfl⟩
    rw [hfileAt.others _ fun heq => hout (heq ▸ List.prefix_append _ _), Source.tree_nil]
    split
    · next hnil => rw [hnil, List.append_nil, hthere]
    · next hne => exact hempty rest hne
  have hread : Zip.contents? (Zip.write (sources.map Source.member)) =
      some (sources.map fun s => (Zip.memberName s.names, s.contents)) := by
    rw [hzip, List.map_map]
    rfl
  obtain ⟨y, hy, hexpands⟩ := expand_comes hcalm (hpacked ▸ hjar.holding _)
    (hpacked ▸ Disk.find?_holding _ _ _) hout hfree
    (Disk.entryAt_of_keeps hfileAt.keeps hdest (hfileAt.keeps _ _ hthere rfl))
    (fun s hs => (hstands s hs).of_fileAt hfileAt (hnone s hs)) hdistinct hread
  refine ⟨packed, y.erase place,
    hy.recreated (Source.Stands.separate hstands hdistinct) hfileAt.others hout, fun v hv => ?_⟩
  have hleaves := hv.leaves hjar
  have hagain := pack_again hcalm hjar hsources hleaves
  rw [← hpacked] at hagain
  exact ⟨hagain, hagain.bind fun u hu hucwd => .inr (hexpands u hu (hucwd.trans hleaves.1))⟩

/-- Two class files, one in a package and one with a name in capitals. -/
def classSources : List Source :=
  [⟨⟨"/u/p/ß.class"⟩, ["p", "ß.class"], [1, 2]⟩, ⟨⟨"/u/A.CLASS"⟩, ["A.CLASS"], []⟩]

/-- A disk with these files, what an attempt to pack has left of the archive, and an empty directory. -/
def classDisk : Disk :=
  (((((Disk.empty.put ["u"] .directory).put ["u", "p"] .directory).put ["u", "p", "ß.class"]
    (.file [1, 2] false)).put ["u", "A.CLASS"] (.file [] true)).put ["j.jar"]
    (.file [80, 75, 3] false)).put ["out"] .directory

theorem classSources_stand : ∀ s ∈ classSources, s.Stands classDisk [] ⟨"/u"⟩ ["u"] := by
  have hwithin : ∀ s ∈ classSources, ∀ front ∈ s.names.inits, front ≠ s.names →
      classDisk.find? (["u"] ++ front) = some .directory := by decide +kernel
  have hread : ∀ s ∈ classSources, s.path.relativeTo? ⟨"/u"⟩ = some (s.names.map .name) ∧
      s.names ≠ [] ∧ s.path.hasExtension "class" = true ∧
      (classDisk.entryAt [] true s.path = .ok (["u"] ++ s.names, .file s.contents false) ∨
        classDisk.entryAt [] true s.path = .ok (["u"] ++ s.names, .file s.contents true)) := by
    decide +kernel
  intro s hs
  obtain ⟨hrelative, hbelow, hclass, hleads⟩ := hread s hs
  exact ⟨hrelative, hbelow, hclass, hleads.elim (⟨false, ·⟩) (⟨true, ·⟩), fun front hlead =>
    hwithin s hs front ((List.mem_inits _ _).mpr hlead)⟩

theorem Work.pack_expand_inverse_classes :
    Recreated classDisk ((Try.settle (do
      pack idleHost (classSources.map Source.path) ⟨"/u"⟩ ⟨"/j.jar"⟩
      expand idleHost ⟨"/j.jar"⟩ ⟨"/out"⟩ : Try StageError Unit)).run (.new classDisk [])).2.disk
      ["j.jar"] ["out"] classSources := by
  have hroom : classDisk.HasRoom [] ⟨"/j.jar"⟩ ["j.jar"] := by
    refine ⟨⟨⟨"/"⟩, by decide +kernel, .inr (by decide +kernel)⟩, by decide +kernel, fun e he => ?_⟩
    obtain rfl : .file [80, 75, 3] false = e := Option.some.inj he
    rfl
  have hempty : ∀ rest, rest ≠ [] → classDisk.find? (["out"] ++ rest) = none := by
    intro rest hne
    cases hfound : classDisk.find? (["out"] ++ rest) with
    | none => rfl
    | some e =>
      have honly : ∀ x ∈ classDisk.entries, ["out"] <+: x.1 → x.1 = ["out"] := by decide +kernel
      have heq := honly _ (mem_of_findEntry hfound) (List.prefix_append _ _)
      exact absurd (List.append_cancel_left heq) hne
  have hdest : classDisk.entryAt [] true ⟨"/out"⟩ = .ok (["out"], .directory) := by decide +kernel
  obtain ⟨packed, restored, hrecreated, hruns⟩ := Work.pack_expand_inverse (h := idleHost)
    (w := .new classDisk []) (fun _ => rfl) classSources_stand (by decide +kernel) hroom
    (by decide +kernel) hdest hempty (by decide) (by decide +kernel)
  obtain ⟨-, ⟨e, hfailed, -⟩ | hcomes⟩ := hruns _ .none
  · -- memory has not run out
    have hdone : ((Try.settle (do
        pack idleHost (classSources.map Source.path) ⟨"/u"⟩ ⟨"/j.jar"⟩
        expand idleHost ⟨"/j.jar"⟩ ⟨"/out"⟩ : Try StageError Unit)).run (.new classDisk [])).1 =
          .ok () := by decide +kernel
    rw [hdone] at hfailed
    cases hfailed
  · rw [hcomes.disk]
    exact hrecreated

end Decompile
