import Decompile.Proofs.Conservation.Items
import Decompile.Proofs.Discards.Ground

/-!
# What stages discard

A job that does not keep intermediate files discards what its stages have consumed. What it has discarded
so far is told by the stages that have succeeded, and none of it is looked for by a later one.

- `StageKind.rank`: the order in which stages run.
- `Site.discards`, `Site.lost`: what a stage discards, and what has been discarded.
- `sourceOf`, `lost_source`: where a stage finds its items; what it looks for there is not lost.
- `Site.Lacks`: one disk lacks what has been discarded, the other has it; `Lacks.during`, `of_during`
  and `discard` follow the disks through a stage.
-/

namespace Decompile

/-- The position of a kind in the order in which stages run. -/
def StageKind.rank : StageKind → Nat
  | unpack => 0
  | intermediateConvert => 1
  | convert => 2
  | resources => 3

/-- Stages of these kinds run before one of the kind. -/
def Precede (b : Backend) (done : List StageKind) (kind : StageKind) : Prop :=
  ∃ later, stageKindsOf b = done ++ kind :: later

variable {b : Backend} {done : List StageKind} {kind other : StageKind}

theorem rank_stageKindsOf (b : Backend) : (stageKindsOf b).Pairwise fun k l => k.rank < l.rank := by
  cases b <;> decide

theorem Precede.rank (h : Precede b done kind) (hother : other ∈ done) : other.rank < kind.rank := by
  obtain ⟨later, heq⟩ := h
  have hpairs := heq ▸ rank_stageKindsOf b
  exact (List.pairwise_append.mp hpairs).2.2 other hother kind List.mem_cons_self

theorem Precede.mem (h : Precede b done kind) (hother : other ∈ done) : other ∈ stageKindsOf b := by
  obtain ⟨later, heq⟩ := h
  exact heq ▸ List.mem_append_left _ hother

theorem Precede.mem_self (h : Precede b done kind) : kind ∈ stageKindsOf b := by
  obtain ⟨later, heq⟩ := h
  exact heq ▸ List.mem_append_right _ List.mem_cons_self

theorem not_direct_of_mem (h : StageKind.intermediateConvert ∈ stageKindsOf b) : b.isDirect = false := by
  cases b with
  | jadx => exact absurd h (by decide)
  | cfr | fernflower => rfl

theorem kinds_chainOf (b : Backend) : (chainOf b).map Stage.kind = stageKindsOf b := by
  cases b <;> rfl

/-- A stage of a chain that is cut there runs after those before it. -/
theorem Cut.precede {chain : List Stage} (cut : Cut chain) (hchain : chain = chainOf b) :
    Precede b (cut.done.map Stage.kind) cut.stage.kind := by
  refine ⟨cut.rest.map Stage.kind, ?_⟩
  rw [← kinds_chainOf, ← hchain, ← List.map_cons, ← List.map_append, cut.whole]

namespace Site

variable (s : Site)

/-- Where the record of the job is. -/
def recordPlace : Place := s.target ++ [recordName]

/-- The entry is a file with bytecode that unpacking has left. -/
def isUnpackedCode (t : InputType) (q : Place) (e : Entry) : Bool :=
  e.isFile && (Disk.below? (s.area .unpack) q).any fun rest =>
    rest.getLast?.any (nameHasExtension (codeExtension t))

/-- What a stage discards once it has succeeded. -/
def discards (j : Job) : StageKind → Place → Entry → Bool
  | .unpack, _, _ => false
  | .intermediateConvert, q, e => s.isUnpackedCode j.submission.inputType q e
  | .convert, q, e =>
    if j.backend.isDirect then s.isUnpackedCode j.submission.inputType q e
    else (s.area .intermediateConvert).isPrefixOf q
  | .resources, q, _ => (s.area .unpack).isPrefixOf q

/-- What stages of these kinds have discarded. -/
def lost (j : Job) (done : List StageKind) (q : Place) (e : Entry) : Bool :=
  done.any fun kind => s.discards j kind q e

variable {s} {j : Job} {q rest : Place} {e : Entry}

theorem discards_convert : s.discards j .convert q e =
    if j.backend.isDirect then s.isUnpackedCode j.submission.inputType q e
    else (s.area .intermediateConvert).isPrefixOf q := rfl

theorem lost_nil : s.lost j [] q e = false := rfl

/-- What is not lost stays. -/
theorem filter_lost {x : Option Entry} (hx : ∀ e, x = some e → s.lost j done q e = false) :
    (x.filter fun e => !s.lost j done q e) = x := by
  cases x with
  | none => rfl
  | some e =>
    rw [Option.filter_some, hx e rfl]
    rfl

theorem lost_append_singleton :
    s.lost j (done ++ [kind]) q e = (s.lost j done q e || s.discards j kind q e) := by
  simp [lost]

theorem area_of_isUnpackedCode {t : InputType} (h : s.isUnpackedCode t q e = true) :
    e.isFile = true ∧ ∃ rest, q = s.area .unpack ++ rest ∧
      rest.getLast?.any (nameHasExtension (codeExtension t)) = true := by
  unfold isUnpackedCode at h
  rw [Bool.and_eq_true, Option.any_eq_true] at h
  obtain ⟨hfile, rest, hrest, hname⟩ := h
  exact ⟨hfile, rest, Disk.eq_append_of_below? hrest, hname⟩

theorem isUnpackedCode_append {t : InputType} : s.isUnpackedCode t (s.area .unpack ++ rest) e =
    (e.isFile && rest.getLast?.any (nameHasExtension (codeExtension t))) := by
  unfold isUnpackedCode
  rw [Disk.below?_append]
  rfl

/-- What is discarded is in a directory that an earlier stage has written. -/
theorem area_of_discards (h : s.discards j kind q e = true) : ∃ source : StageKind,
    (source = .unpack ∨ source = .intermediateConvert) ∧ source.rank < kind.rank ∧ s.area source <+: q := by
  have hcode : ∀ {t : InputType}, s.isUnpackedCode t q e = true → s.area .unpack <+: q := fun h => by
    obtain ⟨-, rest, rfl, -⟩ := area_of_isUnpackedCode h
    exact List.prefix_append _ _
  cases kind with
  | unpack => cases h
  | intermediateConvert => exact ⟨.unpack, .inl rfl, by decide, hcode h⟩
  | convert =>
    rw [discards_convert] at h
    split at h
    · exact ⟨.unpack, .inl rfl, by decide, hcode h⟩
    · exact ⟨.intermediateConvert, .inr rfl, by decide, List.isPrefixOf_iff_prefix.mp h⟩
  | resources => exact ⟨.unpack, .inl rfl, by decide, List.isPrefixOf_iff_prefix.mp h⟩

theorem area_of_lost (h : s.lost j done q e = true) : ∃ source : StageKind,
    (source = .unpack ∨ source = .intermediateConvert) ∧ s.area source <+: q := by
  obtain ⟨kind, -, hkind⟩ := List.any_eq_true.mp h
  obtain ⟨source, hsource, -, hprefix⟩ := area_of_discards hkind
  exact ⟨source, hsource, hprefix⟩

/-- What is not below the directory of the target is not lost, nor is that directory or the record. -/
theorem lost_outside (hq : ∀ kind, ¬ s.area kind <+: q) : s.lost j done q e = false := by
  cases hlost : s.lost j done q e with
  | false => rfl
  | true =>
    obtain ⟨source, -, hprefix⟩ := area_of_lost hlost
    exact absurd hprefix (hq source)

theorem not_area_recordPlace (kind : StageKind) : ¬ s.area kind <+: s.recordPlace := by
  rintro ⟨rest, heq⟩
  rw [area_eq, recordPlace, List.append_assoc] at heq
  exact areaOf_ne_recordName kind (List.cons.inj (List.append_cancel_left heq)).1

theorem recordPlace_ne_area (kind : StageKind) (rest : Place) : s.area kind ++ rest ≠ s.recordPlace :=
  fun heq => not_area_recordPlace kind ⟨rest, heq⟩

/-- Before a stage runs, nothing is lost in the directory that it writes. -/
theorem lost_own (h : Precede j.backend done kind) : s.lost j done (s.area kind ++ rest) e = false := by
  cases hlost : s.lost j done (s.area kind ++ rest) e with
  | false => rfl
  | true =>
    obtain ⟨other, hother, hdiscards⟩ := List.any_eq_true.mp hlost
    obtain ⟨source, -, hrank, hprefix⟩ := area_of_discards hdiscards
    obtain rfl := eq_of_isPrefix_area hprefix (List.prefix_append _ rest)
    exact absurd (h.rank hother) (Nat.not_lt_of_lt hrank)

/-- What is below a directory that is lost is lost too. -/
theorem lost_below {n : String} (h : s.lost j done q .directory = true) :
    s.lost j done (q ++ [n]) e = true := by
  obtain ⟨kind, hkind, hdiscards⟩ := List.any_eq_true.mp h
  have hcode : ∀ {t : InputType}, s.isUnpackedCode t q .directory ≠ true := fun h =>
    Bool.false_ne_true (area_of_isUnpackedCode h).1
  have hdeeper : ∀ {p : Place}, p.isPrefixOf q = true → p.isPrefixOf (q ++ [n]) = true := fun hp =>
    List.isPrefixOf_iff_prefix.mpr ((List.isPrefixOf_iff_prefix.mp hp).trans (List.prefix_append _ _))
  refine List.any_eq_true.mpr ⟨kind, hkind, ?_⟩
  cases kind with
  | unpack => cases hdiscards
  | intermediateConvert => exact absurd hdiscards hcode
  | convert =>
    rw [discards_convert] at hdiscards ⊢
    split at hdiscards
    · exact absurd hdiscards hcode
    · next hsplit =>
      rw [if_neg hsplit]
      exact hdeeper hdiscards
  | resources => exact hdeeper hdiscards

/-! ## Where stages find their items -/

/-- The directory where a stage of a job finds its items, and which names it takes for them; there is
none for unpacking. -/
def sourceOf (j : Job) : StageKind → Option (StageKind × (String → Bool))
  | .unpack => none
  | .intermediateConvert => some (.unpack, nameHasExtension (codeExtension j.submission.inputType))
  | .convert =>
    if j.backend.isDirect then
      some (.unpack, nameHasExtension (codeExtension j.submission.inputType))
    else some (.intermediateConvert, nameHasExtension "jar")
  | .resources => some (.unpack, isResourceName)

theorem sourceOf_convert : sourceOf j .convert =
    if j.backend.isDirect then
      some (.unpack, nameHasExtension (codeExtension j.submission.inputType))
    else some (.intermediateConvert, nameHasExtension "jar") := rfl

theorem isResourceName_of_code {t : InputType} {n : String}
    (h : nameHasExtension (codeExtension t) n = true) : isResourceName n = false := by
  unfold isResourceName
  cases t with
  | jar =>
    replace h : nameHasExtension "class" n = true := h
    simp [h]
  | apk | dex =>
    replace h : nameHasExtension "dex" n = true := h
    simp [h]

variable {source : StageKind} {named : String → Bool}

/-- A stage finds its items in a directory that an earlier stage has written. -/
theorem rank_sourceOf (hsource : sourceOf j kind = some (source, named)) : source.rank < kind.rank := by
  cases kind with
  | unpack => cases hsource
  | intermediateConvert | resources =>
    cases hsource
    decide
  | convert =>
    rw [sourceOf_convert] at hsource
    split at hsource
    · cases hsource
      decide
    · cases hsource
      decide

theorem sourceOf_ne (hsource : sourceOf j kind = some (source, named)) : source ≠ kind := fun heq =>
  absurd (rank_sourceOf hsource) (heq ▸ Nat.lt_irrefl _)

/-- Bytecode that unpacking has left is found in no other directory, and is no directory. -/
theorem source_of_isUnpackedCode {t : InputType}
    (h : s.isUnpackedCode t (s.area source ++ rest) e = true) : source = .unpack ∧ e ≠ .directory ∧
      rest.getLast?.any (nameHasExtension (codeExtension t)) = true := by
  obtain ⟨hfile, rest', heq, hname⟩ := area_of_isUnpackedCode h
  obtain rfl : .unpack = source :=
    eq_of_isPrefix_area (heq ▸ List.prefix_append _ rest') (List.prefix_append _ _)
  obtain rfl := List.append_cancel_left heq
  refine ⟨rfl, fun hdir => ?_, hname⟩
  rw [hdir] at hfile
  cases hfile

/-- Resources are no bytecode, and neither are the directories they are in. -/
theorem isUnpackedCode_of_resource {t : InputType}
    (he : e = .directory ∨ rest.getLast?.any isResourceName = true) :
    s.isUnpackedCode t (s.area .unpack ++ rest) e = false := by
  refine Bool.eq_false_iff.mpr fun hcode => ?_
  obtain ⟨-, hfile, hname⟩ := source_of_isUnpackedCode hcode
  have hresource := he.resolve_left hfile
  cases hlast : rest.getLast? with
  | none =>
    rw [hlast] at hresource
    cases hresource
  | some n =>
    rw [hlast, Option.any_some] at hname hresource
    rw [isResourceName_of_code hname] at hresource
    cases hresource

/-- **What a stage looks for is not lost**, and neither are the directories on the way. -/
theorem lost_source (h : Precede j.backend done kind) (hsource : sourceOf j kind = some (source, named))
    (he : e = .directory ∨ rest.getLast?.any named = true) :
    s.lost j done (s.area source ++ rest) e = false := by
  cases hlost : s.lost j done (s.area source ++ rest) e with
  | false => rfl
  | true =>
    obtain ⟨other, hother, hdiscards⟩ := List.any_eq_true.mp hlost
    have hrank := h.rank hother
    exfalso
    -- of the stages before this one, which discards what this one looks for?
    cases kind with
    | unpack => cases hsource
    | intermediateConvert =>
      obtain ⟨source', -, hless, -⟩ := area_of_discards hdiscards
      have : other.rank = 0 := Nat.lt_one_iff.mp hrank
      omega
    | convert =>
      obtain rfl : other = .intermediateConvert := by
        cases other with
        | intermediateConvert => rfl
        | unpack => cases hdiscards
        | convert | resources => exact absurd hrank (by decide)
      have hsplit := not_direct_of_mem (h.mem hother)
      rw [sourceOf_convert, hsplit] at hsource
      cases hsource
      cases (source_of_isUnpackedCode hdiscards).1
    | resources =>
      cases hsource
      have hresource : ∀ {t : InputType}, s.isUnpackedCode t (s.area .unpack ++ rest) e ≠ true :=
        Bool.eq_false_iff.mp (isUnpackedCode_of_resource he)
      cases other with
      | unpack => cases hdiscards
      | intermediateConvert => exact hresource hdiscards
      | convert =>
        rw [discards_convert] at hdiscards
        split at hdiscards
        · exact hresource hdiscards
        · cases eq_of_isPrefix_area (List.isPrefixOf_iff_prefix.mp hdiscards)
            (List.prefix_append (s.area .unpack) rest)
      | resources => exact absurd hrank (by decide)

/-! ## The disks of the two runs -/

/-- The second disk lacks what stages of the kinds `done` have discarded, and says otherwise in its
record what becomes of intermediate files. -/
structure Lacks (s : Site) (j : Job) (done : List StageKind) (d d' : Disk) : Prop where
  stable : s.Stable d
  vacant : ∀ kind, kind ∉ stageKindsOf j.backend → ∀ rest, d.find? (s.area kind ++ rest) = none
  outside : ∀ q, (∀ n rest, q ≠ s.target ++ n :: rest) → d.find? q = s.before.find? q
  spared : ∀ q, q ≠ s.recordPlace → d'.find? q = (d.find? q).filter fun e => !s.lost j done q e
  record : ∃ r : JobRecord, d.find? s.recordPlace = some (.file (Text.encode r.render) false) ∧
    d'.find? s.recordPlace = some (.file (Text.encode (r.keeping (some false)).render) false)

variable {d d' d'' d₀ d₀' : Disk}

namespace Lacks

section

variable (hl : s.Lacks j done d d')
include hl

/-- What the second disk has, the first one has, but for the contents of the record. -/
theorem found (hq : d'.find? q = some e) :
    d.find? q = some e ∨
      q = s.recordPlace ∧ e.isFile = true ∧ ∃ f, d.find? q = some f ∧ f.isFile = true := by
  by_cases hrecord : q = s.recordPlace
  · obtain ⟨r, hleft, hright⟩ := hl.record
    subst hrecord
    rw [hright] at hq
    obtain rfl := Option.some.inj hq
    exact .inr ⟨rfl, rfl, _, hleft, rfl⟩
  · rw [hl.spared q hrecord, Option.filter_eq_some_iff] at hq
    exact .inl hq.1

theorem kept (hq : d.find? q = some e) (hrecord : q ≠ s.recordPlace) (hlost : s.lost j done q e = false) :
    d'.find? q = some e := by
  rw [hl.spared q hrecord, hq, Option.filter_some, hlost]
  rfl

/-- What is on the first disk and not in the directory of a stage is on the second. -/
theorem shared (hrecord : q ≠ s.recordPlace) (hq : ∀ kind, ¬ s.area kind <+: q) :
    d'.find? q = d.find? q := by
  rw [hl.spared q hrecord, filter_lost fun _ _ => lost_outside hq]

/-- What stands above anything on the second disk is not lost. -/
theorem not_lost_above {n : String} (hfound : d'.find? (q ++ [n]) = some e) :
    s.lost j done q .directory = false := by
  by_cases hrecord : q ++ [n] = s.recordPlace
  · obtain ⟨rfl, -⟩ := List.append_inj' hrecord rfl
    exact lost_outside fun kind hbelow =>
      not_area_recordPlace kind (hbelow.trans (List.prefix_append _ _))
  · rw [hl.spared _ hrecord, Option.filter_eq_some_iff] at hfound
    refine Bool.eq_false_iff.mpr fun hlost => ?_
    rw [lost_below hlost] at hfound
    exact Bool.false_ne_true hfound.2

/-- The second disk is a tree too: with a directory all is lost that is in it. -/
theorem tree_right : d'.Tree := by
  have hroot : d'.find? [] = some .directory := by
    refine hl.kept hl.stable.tree.root
      (List.append_ne_nil_of_right_ne_nil _ (List.cons_ne_nil _ _)).symm
      (lost_outside fun kind hprefix => ?_)
    rw [area_eq] at hprefix
    exact List.append_ne_nil_of_right_ne_nil _ (List.cons_ne_nil _ _) (List.prefix_nil.mp hprefix)
  refine ⟨hroot, fun q n e hfound => ?_⟩
  obtain ⟨f, hold⟩ : ∃ f, d.find? (q ++ [n]) = some f := by
    rcases hl.found hfound with hold | ⟨-, -, f, hold, -⟩
    · exact ⟨e, hold⟩
    · exact ⟨f, hold⟩
  obtain ⟨hdir, hfits⟩ := hl.stable.tree.inner q n f hold
  have hrecord : q ≠ s.recordPlace := by
    rintro rfl
    obtain ⟨r, hleft, -⟩ := hl.record
    rw [hleft] at hdir
    cases hdir
  exact ⟨hl.kept hdir hrecord (hl.not_lost_above hfound), hfits⟩

theorem right (hs : s.Fresh) : s.Stable d' where
  sited := by
    refine ⟨fun q e hbefore hfile => ?_, fun rest t hlink => ?_, fun rest e hfound => ?_⟩
    · have harea : ∀ kind, ¬ s.area kind <+: q := by
        rintro kind ⟨rest, rfl⟩
        rw [hs.free] at hbefore
        cases hbefore
      have hrecord : q ≠ s.recordPlace := by
        rintro rfl
        rcases hs.bare _ e hbefore with hnil | ⟨-, hrecord⟩
        · cases hnil
        · rw [hfile] at hrecord
          cases hrecord
      rw [hl.shared hrecord harea]
      exact hl.stable.sited.keeps q e hbefore hfile
    · rcases hl.found hlink with hfound | ⟨-, hfile, -⟩
      · exact hl.stable.sited.linkless rest t hfound
      · cases hfile
    · rcases hl.found hfound with hfound | ⟨-, -, f, hfound, -⟩
      · exact hl.stable.sited.named rest e hfound
      · exact hl.stable.sited.named rest f hfound
  tree := hl.tree_right
  areas kind e hfound := by
    rcases hl.found hfound with hfound | ⟨hrecord, -⟩
    · exact hl.stable.areas kind e hfound
    · exact absurd ((List.append_nil _).trans hrecord) (recordPlace_ne_area kind [])

/-- The disks that a stage finds. -/
theorem during (hs : s.Fresh) (h : Precede j.backend done kind) : s.During kind d d' d d' where
  left := hl.stable
  right := hl.right hs
  inside rest := by
    rw [hl.spared _ (recordPlace_ne_area kind rest), filter_lost fun _ _ => lost_own h]
  outside _ _ := ⟨rfl, rfl⟩

/-- What a stage looks for is the same on both disks, and so are the directories on the way. -/
theorem sought (h : Precede j.backend done kind) (hsource : sourceOf j kind = some (source, named))
    (hq : d.find? (s.area source ++ rest) = some .directory ∨ rest.getLast?.any named = true) :
    d.find? (s.area source ++ rest) = d'.find? (s.area source ++ rest) := by
  rw [hl.spared _ (recordPlace_ne_area source rest), filter_lost]
  exact fun e he => lost_source h hsource (hq.imp_left fun hdir => Option.some.inj (he.symm.trans hdir))

/-- After the discards of a stage. -/
theorem discard (hd : ∀ q, d''.find? q = (d'.find? q).filter fun e => !s.discards j kind q e) :
    s.Lacks j (done ++ [kind]) d d'' where
  stable := hl.stable
  vacant := hl.vacant
  outside := hl.outside
  spared q hq := by
    rw [hd, hl.spared q hq, Option.filter_filter]
    refine congrArg (fun p => (d.find? q).filter p) (funext fun e => ?_)
    rw [lost_append_singleton, Bool.not_or, Bool.and_comm]
  record := by
    obtain ⟨r, hleft, hright⟩ := hl.record
    refine ⟨r, hleft, ?_⟩
    rw [hd, hright, Option.filter_some, if_pos]
    rw [Bool.not_eq_true']
    refine Bool.eq_false_iff.mpr fun hdiscards => ?_
    obtain ⟨source, -, -, hprefix⟩ := area_of_discards hdiscards
    exact not_area_recordPlace source hprefix

/-- What other stages have written is the same on both disks. -/
theorem written (hkind : kind ≠ .unpack ∧ kind ≠ .intermediateConvert) (rest : Place) :
    d.find? (s.area kind ++ rest) = d'.find? (s.area kind ++ rest) := by
  rw [hl.spared _ (recordPlace_ne_area kind rest), filter_lost]
  intro e he
  refine Bool.eq_false_iff.mpr fun hlost => ?_
  obtain ⟨source, hsource, hprefix⟩ := area_of_lost hlost
  obtain rfl := eq_of_isPrefix_area hprefix (List.prefix_append _ rest)
  exact hsource.elim hkind.1 hkind.2

/-- Outside the directory of the target nothing is changed on the second disk either. -/
theorem outside' (hq : ∀ n rest, q ≠ s.target ++ n :: rest) : d'.find? q = s.before.find? q := by
  rw [hl.shared (hq recordName []) fun kind hprefix => ?_, hl.outside q hq]
  obtain ⟨rest, rfl⟩ := hprefix
  refine hq (areaOf kind) rest ?_
  rw [area_eq, List.append_assoc]
  rfl

/-- Where the disks differ, the second one has nothing, in a directory of intermediate files. -/
theorem differ (hq : q ≠ s.recordPlace) (hne : d.find? q ≠ d'.find? q) : d'.find? q = none ∧
    (s.area .unpack <+: q ∨ s.area .intermediateConvert <+: q) := by
  rw [hl.spared q hq] at hne ⊢
  cases hfound : d.find? q with
  | none =>
    rw [hfound] at hne
    exact absurd rfl hne
  | some e =>
    rw [hfound, Option.filter_some] at hne
    rw [Option.filter_some]
    cases hlost : s.lost j done q e with
    | false =>
      rw [hlost] at hne
      exact absurd rfl hne
    | true =>
      obtain ⟨source, rfl | rfl, hprefix⟩ := area_of_lost hlost
      · exact ⟨rfl, .inl hprefix⟩
      · exact ⟨rfl, .inr hprefix⟩

end

/-- When all stages have succeeded, nothing is left on the second disk of what is intermediate. -/
theorem cleared (hl : s.Lacks j (stageKindsOf j.backend) d d')
    (hkind : kind = .unpack ∨ kind = .intermediateConvert) (rest : Place) :
    d'.find? (s.area kind ++ rest) = none := by
  have hgone : ∀ other ∈ stageKindsOf j.backend,
      (∀ e, s.discards j other (s.area kind ++ rest) e = true) →
        d'.find? (s.area kind ++ rest) = none := by
    intro other hother hall
    rw [hl.spared _ (recordPlace_ne_area kind rest), Option.filter_eq_none_iff]
    intro e _
    have hlost : s.lost j (stageKindsOf j.backend) (s.area kind ++ rest) e = true :=
      List.any_eq_true.mpr ⟨other, hother, hall e⟩
    rw [hlost]
    decide
  have hprefix : (s.area kind).isPrefixOf (s.area kind ++ rest) = true :=
    List.isPrefixOf_iff_prefix.mpr (List.prefix_append _ _)
  rcases hkind with rfl | rfl
  · exact hgone .resources (by cases j.backend <;> decide) fun _ => hprefix
  by_cases hmem : StageKind.intermediateConvert ∈ stageKindsOf j.backend
  · refine hgone .convert (by cases j.backend <;> decide) fun e => ?_
    rw [discards_convert, not_direct_of_mem hmem]
    exact hprefix
  · rw [hl.spared _ (recordPlace_ne_area _ rest), hl.vacant _ hmem]
    rfl

/-- The disks that a stage leaves, before it discards anything. -/
theorem of_during (hl : s.Lacks j done d₀ d₀') (h : Precede j.backend done kind)
    (hd : s.During kind d₀ d₀' d d') : s.Lacks j done d d' where
  stable := hd.left
  vacant other hother rest := by
    rw [(hd.outside _ fun hprefix => ?_).1, hl.vacant other hother]
    obtain rfl := eq_of_isPrefix_area hprefix (List.prefix_append _ rest)
    exact hother h.mem_self
  outside q hq := by
    rw [(hd.outside q fun hprefix => ?_).1, hl.outside q hq]
    obtain ⟨rest, rfl⟩ := hprefix
    refine hq (areaOf kind) rest ?_
    rw [area_eq, List.append_assoc]
    rfl
  spared q hq := by
    by_cases hprefix : s.area kind <+: q
    · obtain ⟨rest, rfl⟩ := hprefix
      rw [← hd.inside rest, filter_lost fun _ _ => lost_own h]
    · obtain ⟨hleft, hright⟩ := hd.outside q hprefix
      rw [hleft, hright, hl.spared q hq]
  record := by
    obtain ⟨hleft, hright⟩ := hd.outside _ (not_area_recordPlace kind)
    rw [hleft, hright]
    exact hl.record

end Lacks

end Site

end Decompile
