import Decompile.Proofs.Confinement.Run
import Decompile.Proofs.Conservation.Files
import Decompile.Proofs.Disk.Replaced
import Decompile.Proofs.Record.Text
import Decompile.Proofs.Text.Utf8

/-!
# A record is loaded as it was saved

- `World.store_moved`: what the storing of a file comes to.
- `JobRecord.ofBytes_render`: the stored bytes say the record.
- `JobRecord.load_save`: what was saved is loaded.
-/

namespace Decompile

variable {h : Host} {w v : World}

/-! ## Storing -/

/-- Making directories leaves the links as they are. -/
theorem World.ensureDirectory_links (dir : FilePath) (w : World) :
    w.disk.SameLinks ((ensureDirectory h dir).settle.run w).2.disk := by
  have T : Twins h h (Alone fun u => w.disk.SameLinks u.disk)
      ⟨fun _ => True, fun _ => True, fun _ => False, fun _ => False⟩
      (fun u c => u.disk.SameLinks (u.disk.apply c)) := by
    refine Alone.twins (fun u v hu huv => ?_) (fun u c hu hc => hu.trans hc)
      (fun p _ u c hu hc => ?_) (fun _ hp => absurd hp id) (fun _ hp => absurd hp id)
      (fun _ hp => absurd hp id) (fun _ _ => trivial) fun _ _ _ _ => trivial
    · rw [huv.disk]
      exact hu
    · obtain ⟨-, q, -, -, rfl, hmissing⟩ := Disk.locate_of_planMakeDirectory hc
      refine Disk.sameLinks_apply (fun t hlink => ?_) fun _ _ heq => (by cases heq)
      rw [Change.place, hmissing] at hlink
      cases hlink
  exact Alone.keeps (T.ensureDirectory (p := dir) trivial).settle (.refl w.disk)

/-- A file that was stored was moved to its name in one step, the last that happened to the disk. -/
theorem World.store_moved {dir target : FilePath} {name : String} {contents : Bytes}
    (hrun : (store h dir name contents).Succeeds w target v) :
    ∃ (d : Disk) (c : Change), w.disk.SameLinks d ∧
      d.planReplace v.cwd (dir.join ⟨name⟩) contents = .ok c ∧ v.disk = d.apply c := by
  unfold store at hrun
  obtain ⟨_, u, hensure, hrun⟩ := hrun.bind
  obtain ⟨_, u', hreplace, hrun⟩ := hrun.bind
  obtain ⟨-, rfl⟩ := hrun.pure
  obtain ⟨c, hplan, hdisk, hcwd⟩ := plan_change_succeeds hreplace.mapError
  have hlinks := ensureDirectory_links (h := h) dir w
  rw [show (ensureDirectory h dir).settle.run w = (.ok _, u) from hensure] at hlinks
  exact ⟨u.disk, c, hlinks, hcwd ▸ hplan, hdisk⟩

/-! ## Records -/

namespace JobRecord

/-- The stored bytes of a record say that record. -/
theorem ofBytes_render {r : JobRecord} (hr : r.Dated) (path : FilePath) :
    ofBytes path (Text.encode r.render) = .ok r := by
  rw [ofBytes, Text.decode?_encode]
  simp only [read?_render hr]

/-- What is loaded is what the bytes say that are read. -/
theorem load_eq {d : Disk} {cwd : Place} {storage : FilePath} {key : String} {bytes : Bytes}
    (hread : d.read cwd ((Layout.of storage key).root.join ⟨recordName⟩) = .ok bytes) :
    load d cwd (.of storage key) =
      (ofBytes ((Layout.of storage key).root.join ⟨recordName⟩) bytes).map some := by
  simp only [load, hread]

theorem load_of_read {r : JobRecord} (hr : r.Dated) {d : Disk} {cwd : Place} {l : Layout}
    (hread : d.read cwd (l.root.join ⟨recordName⟩) = .ok (Text.encode r.render)) :
    load d cwd l = .ok (some r) := by
  simp only [load, hread, ofBytes_render hr]
  rfl

theorem save_moved {r : JobRecord} {l : Layout} (hsave : (r.save h l).Succeeds w () v) :
    ∃ (d : Disk) (c : Change), w.disk.SameLinks d ∧
      d.planReplace v.cwd (l.root.join ⟨recordName⟩) (Text.encode r.render) = .ok c ∧
      v.disk = d.apply c := by
  unfold save at hsave
  obtain ⟨_, u, hstore, hrun⟩ := hsave.bind
  obtain ⟨-, rfl⟩ := hrun.pure
  exact World.store_moved hstore

/-- **A record that was saved is loaded.** Whatever its texts, numbers, stages and outcome are, the
layout gives the record back once it is saved. The one thing that can be in the way is a link of the
name `job.ron`, which is replaced and not followed: if the way to the directory leads through it, the
directory is gone. -/
theorem load_save {r : JobRecord} (hr : r.Dated) {l : Layout} (hsave : (r.save h l).Succeeds w () v)
    (hlinks : ∀ q t, w.disk.find? q = some (.link t) → v.disk.find? q = some (.link t) ∨
      v.disk.isDirectory v.cwd l.root = true) :
    load v.disk v.cwd l = .ok (some r) := by
  obtain ⟨d, c, hsame, hplan, hdisk⟩ := save_moved hsave
  refine load_of_read hr ?_
  rw [hdisk]
  obtain ⟨q, hc, -, -⟩ := Disk.planReplace_ok hplan
  by_cases hlink : ∃ t, d.find? q = some (.link t)
  · obtain ⟨t, ht⟩ := hlink
    rcases hlinks q t ((hsame q t).mp ht) with hstays | hroot
    · rw [hdisk, hc, Disk.apply, Disk.find?_put, if_pos rfl] at hstays
      cases hstays
    · rw [hdisk] at hroot
      exact Disk.read_of_planReplace_child (by decide) hplan hroot
  · refine Disk.read_of_planReplace hplan fun t ht => hlink ⟨t, ?_⟩
    rwa [hc] at ht

/-- A record with texts, stages and times that need some care. -/
def carefulRecord (key : String) : JobRecord where
  submission := ⟨"c\"f\\r", true, 4294967295, 18446744073709551615, 100, false, key, "\t\x00é",
    ⟨"/1 .dex"⟩, .dex⟩
  backend := .cfr
  stages := [⟨.unpack, .succeeded⟩, ⟨.intermediateConvert, .running⟩, ⟨.convert, .enqueued⟩]
  outcome := some .failed
  ranOutOfMemory := true
  created := ⟨⟨4, 2, 29, by decide⟩, .last 23, .last 59, .last 60, ⟨120000000, by decide⟩⟩
  updated := { Timestamp.ofEpoch 0 1 with date := ⟨10000, 12, 31, by decide⟩ }

theorem carefulRecord_dated (key : String) : (carefulRecord key).Dated := ⟨rfl, rfl⟩

/-- A storage whose directory of targets holds one entry. -/
def storageWith (name : String) (e : Entry) : World :=
  .new ((((Disk.empty.put ["store"] .directory).put ["store", "sources"] .directory).put
    ["store", "sources", name] e)) []

/-- Where there is no link a record is saved and loaded. -/
theorem load_save_careful :
    let l := Layout.of ⟨"/store"⟩ "a"
    let r := carefulRecord "a"
    let v := ((r.save (Engine.idleHost "/store") l).settle.run (storageWith "a" .directory)).2
    r.Dated ∧ (r.save (Engine.idleHost "/store") l).Succeeds (storageWith "a" .directory) () v ∧
      load v.disk v.cwd l = .ok (some r) := by
  have hdone : (((carefulRecord "a").save (Engine.idleHost "/store")
      (Layout.of ⟨"/store"⟩ "a")).settle.run (storageWith "a" .directory)).1 = .ok () := by
    decide +kernel
  have hsave : ((carefulRecord "a").save (Engine.idleHost "/store")
      (Layout.of ⟨"/store"⟩ "a")).Succeeds (storageWith "a" .directory) () _ := Prod.ext hdone rfl
  refine ⟨carefulRecord_dated "a", hsave, load_save (carefulRecord_dated "a") hsave fun q t hq => ?_⟩
  have hlinkless : ∀ x ∈ (storageWith "a" .directory).disk.entries, x.2.isLink = false := by
    decide +kernel
  cases hlinkless _ (mem_of_findEntry hq)

/-- A target may be called `job.ron`, and the way to its directory may lead through a link of that name
to the directory that holds it. The save replaces the link, and no record is loaded. -/
theorem load_fails_behind_link :
    let l := Layout.of ⟨"/store"⟩ "job.ron"
    let r := carefulRecord "job.ron"
    let w := storageWith "job.ron" (.link ".")
    ∃ v, r.Dated ∧ (r.save (Engine.idleHost "/store") l).Succeeds w () v ∧
      load v.disk v.cwd l = .error (.io (.fault .notDirectory)) := by
  have hdone : (((carefulRecord "job.ron").save (Engine.idleHost "/store")
      (Layout.of ⟨"/store"⟩ "job.ron")).settle.run (storageWith "job.ron" (.link "."))).1 = .ok () := by
    decide +kernel
  exact ⟨_, carefulRecord_dated "job.ron", Prod.ext hdone rfl, by decide +kernel⟩

end JobRecord

end Decompile
