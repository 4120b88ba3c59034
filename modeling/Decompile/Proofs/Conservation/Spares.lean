import Decompile.Proofs.Conservation.Run

/-!
# What conversions spare

Between unpacking and the extraction of resources a job converts bytecode, and may discard what it
has converted. None of that touches a resource.

- `StageKind.converts`: the stages in the middle.
- `Site.codeIn`: the bytecode among what was unpacked.
- `Consumed.place`: what such a stage discards is bytecode, or was made on the way.
- `Stocked`, `StageRun.stocked`: what is kept from the end of unpacking on.
- `Passed.stocked`: several stages.
-/

namespace Decompile

open Site (Hosts)

/-- The stage converts bytecode. -/
def StageKind.converts : StageKind → Bool
  | .intermediateConvert | .convert => true
  | .unpack | .resources => false

/-- A resource is no bytecode. -/
theorem nameHasExtension_codeExtension {n : String} (hn : isResourceName n = true) (t : InputType) :
    nameHasExtension (codeExtension t) n = false := by
  rw [isResourceName, Bool.and_eq_true, Bool.not_eq_true', Bool.or_eq_false_iff] at hn
  cases t
  all_goals first
    | exact hn.1.1
    | exact hn.1.2

namespace Site

variable {s : Site} {h : Host} {c : StageContext} {kind : StageKind} {items : Items} {d : Disk}
  {w v : World}

/-- The bytecode among what was unpacked, by its places there, in order. -/
def codeIn (s : Site) (t : InputType) (d : Disk) : List Place :=
  s.filesIn d .unpack (nameHasExtension (codeExtension t))

/-- What a conversion discards is bytecode that was unpacked, or was made on the way. -/
theorem Consumed.place (hs : s.Fresh) (hc : s.Serves h c) (hkind : kind.converts = true)
    (hw : s.Hosts w) (hstands : s.Stands c.layout .unpack w.disk)
    (hcollect : (Items.collect h c kind).Succeeds w items v) {q : Place}
    (hq : s.Consumed c kind items q) :
    (∃ rest, q = s.area .intermediateConvert ++ rest) ∨
      ∃ r ∈ s.codeIn c.job.submission.inputType w.disk, q = s.area .unpack ++ r := by
  have hcode : ∀ {paths r}, (Items.code c.layout c.job.submission.inputType).Succeeds w items v →
      items = .files paths → Disk.childPath c.layout.unpacked r ∈ paths → (∀ n ∈ r, IsEntryName n) →
        r ∈ s.codeIn c.job.submission.inputType w.disk := by
    intro paths r hrun hitems hmem hnames
    obtain ⟨-, hfound⟩ := Items.code_succeeds hs hc hw hstands hrun
    obtain rfl := Items.files.inj (hitems.symm.trans hfound)
    obtain ⟨r', hr', heq⟩ := List.mem_map.mp hmem
    obtain rfl := Disk.childPath_inj (hw.sited.names_filesIn hr') hnames heq
    exact hr'
  unfold Consumed at hq
  cases kind with
  | unpack | resources => cases hkind
  | intermediateConvert =>
    obtain ⟨paths, r, hitems, hmem, hnames, rfl⟩ := hq
    exact .inr ⟨r, hcode hcollect hitems hmem hnames, rfl⟩
  | convert =>
    simp only at hq
    split at hq
    · exact .inl hq
    · next hsplit =>
      obtain ⟨paths, r, hitems, hmem, hnames, rfl⟩ := hq
      have hdirect : c.job.backend.isDirect = true := by simpa using hsplit
      replace hcollect : Try.Succeeds (ite _ _ _) w items v := hcollect
      rw [if_pos hdirect] at hcollect
      exact .inr ⟨r, hcode hcollect hitems hmem hnames, rfl⟩

/-- A resource is no bytecode. -/
theorem not_mem_codeIn {q : Place} (hq : q.getLast?.any isResourceName = true) (t : InputType) :
    q ∉ s.codeIn t d := by
  intro hmem
  obtain ⟨-, -, hcode⟩ := mem_filesIn.mp hmem
  cases hlast : q.getLast? with
  | none =>
    rw [hlast] at hq
    cases hq
  | some n =>
    rw [hlast, Option.any_some] at hq hcode
    rw [nameHasExtension_codeExtension hq] at hcode
    cases hcode

theorem nil_not_mem_codeIn (t : InputType) : [] ∉ s.codeIn t d := fun hmem =>
  (mem_filesIn.mp hmem).1 rfl

/-- A conversion touches nothing but bytecode of what was unpacked, and nothing of the resources. -/
theorem Handles.place_ne (hs : s.Fresh) (hc : s.Serves h c) (hkind : kind.converts = true)
    (hw : s.Hosts w) (hstands : s.Stands c.layout .unpack w.disk)
    (hcollect : (Items.collect h c kind).Succeeds w items v) {x : Change}
    (hx : s.Handles kind (s.Consumed c kind items) x) :
    (∀ q, q ∉ s.codeIn c.job.submission.inputType w.disk → x.place ≠ s.area .unpack ++ q) ∧
      ∀ rest, x.place ≠ s.area .resources ++ rest := by
  have hunpack : kind ≠ .unpack := by
    rintro rfl
    cases hkind
  have hresources : kind ≠ .resources := by
    rintro rfl
    cases hkind
  rcases hx with hx | hx
  · exact ⟨fun q _ => hx.place_ne hunpack q, hx.place_ne hresources⟩
  · rcases hx.place.place hs hc hkind hw hstands hcollect with ⟨rest, hrest⟩ | ⟨r, hr, hrest⟩
    · rw [hrest]
      exact ⟨fun q _ => area_ne (by decide) _ _, area_ne (by decide) _⟩
    · rw [hrest]
      refine ⟨fun q hq heq => hq ?_, area_ne (by decide) _⟩
      rwa [← List.append_cancel_left heq]

/-- What is kept from the end of unpacking on: the directory stands, the resources in it are as they
were, and so is the directory they are to be copied to. -/
structure Stocked (s : Site) (c : StageContext) (d d' : Disk) : Prop where
  stands : s.Stands c.layout .unpack d'
  found : ∀ q, q.getLast?.any isResourceName = true → d.Untouched d' (s.area .unpack ++ q)
  output : ∀ rest, d.Untouched d' (s.area .resources ++ rest)

namespace Stocked

theorem refl (hstands : s.Stands c.layout .unpack d) : s.Stocked c d d :=
  ⟨hstands, fun _ _ => .refl _ _, fun _ => .refl _ _⟩

theorem aside (hd : s.Stocked c d w.disk) (ha : Aside s w v) (hw : s.Hosts w) :
    s.Stocked c d v.disk where
  stands := ha.stands hw hd.stands
  found q hq := (hd.found q hq).trans (ha.untouched hw .unpack q)
  output rest := (hd.output rest).trans (ha.untouched hw .resources rest)

/-- Resources are found as they were. -/
theorem filesIn (hd : s.Stocked c d w.disk) :
    s.filesIn w.disk .unpack isResourceName = s.filesIn d .unpack isResourceName :=
  filesIn_untouched hd.found

end Stocked

end Site

section

variable {h : Host} {c : StageContext} {s : Site} {kind : StageKind} {d : Disk} {w v : World}
  (hs : s.Fresh) (hc : s.Serves h c) (htools : ToolsWithin h c)

include hs hc htools

/-- **What conversions spare.** A conversion leaves resources alone, and the directory it writes
stands if it carries no marks. -/
theorem StageRun.stocked (hkind : kind.converts = true) (hrun : StageRun h c kind w v)
    (hw : s.Hosts w) (hd : s.Stocked c d w.disk)
    (hjars : kind = .convert → c.job.backend.isDirect = false →
      s.Stands c.layout .intermediateConvert w.disk) :
    s.Hosts v ∧ s.Stocked c d v.disk ∧
      (kind.hasMarkers = false → s.Stands c.layout kind v.disk) := by
  have hunpack : kind ≠ .unpack := by
    rintro rfl
    cases hkind
  have hresources : kind ≠ .resources := by
    rintro rfl
    cases hkind
  obtain ⟨items, u, u', hbefore, hmade, hcollect, hcourse, -⟩ :=
    hrun.summary hs hc htools hw (fun _ => hd.stands) hjars
  have hu := hbefore.hosts hw
  have hstands := hd.stands.within hbefore
  have hplaces : ∀ x, s.Handles kind (s.Consumed c kind items) x → _ := fun x hx =>
    hx.place_ne hs hc hkind hu hstands hcollect
  refine ⟨hcourse.hosts hu, ⟨?_, fun q hq => ?_, fun rest => ?_⟩, fun hmarkers => ?_⟩
  · refine hstands.course hcourse fun x hx heq => ?_
    refine (hplaces x hx).1 [] (Site.nil_not_mem_codeIn _) ?_
    rw [heq, List.append_nil]
    rfl
  · refine ((hd.found q hq).trans (Site.Course.others hbefore hunpack q)).trans ?_
    exact hcourse.untouched fun x hx => (hplaces x hx).1 q (Site.not_mem_codeIn hq _)
  · refine ((hd.output rest).trans (Site.Course.others hbefore hresources rest)).trans ?_
    exact hcourse.untouched fun x hx => (hplaces x hx).2 rest
  · cases kind with
    | unpack | resources => cases hkind
    | convert => cases hmarkers
    | intermediateConvert =>
      refine (hmade rfl).course hcourse ?_
      rintro x (hx | hx) heq
      · exact hx.ne_remove heq
      · -- of the bytecode nothing lies in the directory of the archives
        subst heq
        obtain ⟨paths, r, -, -, -, hrest⟩ : s.Consumed c .intermediateConvert items _ := hx.place
        refine Site.area_ne (s := s) (by decide : StageKind.intermediateConvert ≠ .unpack) [] r ?_
        rw [List.append_nil]
        exact hrest

end

end Decompile
