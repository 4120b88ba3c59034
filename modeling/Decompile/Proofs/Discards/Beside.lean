import Decompile.Proofs.Act.Moments
import Decompile.Proofs.Conservation.Site
import Decompile.Proofs.Locality.Files
import Decompile.Proofs.Twins.Stage

/-!
# Two runs with disks and moments of their own

A job is run twice. Of the two worlds everything is the same but for the disks, and the moments of the
one run come later in the other.

- `World.veil`: a world without its disk, its moments and the changes of the disk.
- `Host.Quiet`: nothing happens at a host for a while.
- `Host.Repeats`: what happens between two moments at one host happens later at another one, which is
  quiet after it.
- `Host.followedBy`: a host that is another one from some moment on.
- `Beside`: the worlds of the two runs; `Beside.twins`: what is asked of their disks.
-/

namespace Decompile

/-- The entry is a change of the disk. -/
def Occurrence.isChange : Occurrence → Bool
  | .changed _ => true
  | _ => false

/-- The world without its disk, its moments and the changes of the disk. -/
def World.veil (w : World) : World :=
  { w with disk := .empty, clock := 0, journal := w.journal.filter fun o => !o.isChange }

/-- Of the two worlds everything is the same but for the disks and the moments. -/
def Veiled (u v : World) : Prop := u.veil = v.veil

variable {h k : Host} {u v w : World} {α ε : Type}

theorem World.veil_change (c : Change) (w : World) : ((change c).run w).2.veil = w.veil := by
  show ({ w with disk := w.disk.apply c, journal := w.journal ++ [.changed c] } : World).veil = w.veil
  unfold World.veil
  simp [Occurrence.isChange]

namespace Veiled

section

variable (huv : Veiled u v)
include huv

theorem registry : u.registry = v.registry := congrArg (fun w => w.registry) huv

theorem monitor : u.monitor = v.monitor := congrArg (fun w => w.monitor) huv

theorem cwd : u.cwd = v.cwd := congrArg (fun w => w.cwd) huv

theorem bus : u.bus = v.bus := congrArg (fun w => w.bus) huv

theorem journal : (u.journal.filter fun o => !o.isChange) = v.journal.filter fun o => !o.isChange :=
  congrArg (fun w => w.journal) huv

theorem calls : World.callsIn u.journal = World.callsIn v.journal := by
  have hcalls : ∀ os : List Occurrence,
      World.callsIn (os.filter fun o => !o.isChange) = World.callsIn os := by
    intro os
    unfold World.callsIn
    rw [List.filterMap_filter]
    refine List.filterMap_congr fun o _ => ?_
    cases o <;> rfl
  rw [← hcalls, huv.journal, hcalls]

/-- What listeners are told is no change of the disk. -/
theorem told (key : String) :
    World.messagesOn key u.journal = World.messagesOn key v.journal := by
  have htold : ∀ os : List Occurrence,
      World.messagesOn key (os.filter fun o => !o.isChange) = World.messagesOn key os := by
    intro os
    unfold World.messagesOn
    rw [List.filterMap_filter]
    refine List.filterMap_congr fun o _ => ?_
    cases o <;> rfl
  rw [← htold, huv.journal, htold]

end

theorem modifies (f : World → World) (hf : ∀ w, (f w).veil = f w.veil) :
    Act.Pairs Veiled Veiled (modify f) (modify f) := by
  intro u v huv
  refine ⟨rfl, ?_⟩
  show (f u).veil = (f v).veil
  rw [hf, hf, huv]

theorem note (o : Occurrence) : Act.Pairs Veiled Veiled (World.note o) (World.note o) := by
  intro u v huv
  have hadd : ∀ w : World, ({ w with journal := w.journal ++ [o] } : World).veil =
      { w.veil with journal := w.veil.journal ++ [o].filter fun o => !o.isChange } := by
    intro w
    unfold World.veil
    simp only [List.filter_append]
  refine ⟨rfl, ?_⟩
  show ({ u with journal := u.journal ++ [o] } : World).veil =
    ({ v with journal := v.journal ++ [o] } : World).veil
  rw [hadd, hadd, huv]

theorem publish (key : String) (m : BusMessage) :
    Act.Pairs Veiled Veiled (World.publish key m) (World.publish key m) :=
  (modifies (fun w => { w with bus := w.bus.publish key m }) fun _ => rfl).bind fun _ => note _

theorem tripped : Act.Pairs Veiled Veiled World.isTripped World.isTripped := by
  unfold World.isTripped
  refine .get_bind fun u v huv => ?_
  rw [huv.monitor]
  cases v.monitor with
  | none => exact ⟨rfl, huv⟩
  | some m => exact ⟨rfl, huv⟩

theorem cancelled (ticket : Nat) :
    Act.Pairs Veiled Veiled (World.isCancelled ticket) (World.isCancelled ticket) := by
  intro u v huv
  refine ⟨?_, huv⟩
  show u.registry.isCancelled ticket = v.registry.isCancelled ticket
  rw [huv.registry]

theorem release (key : String) (ticket : Nat) :
    Act.Pairs Veiled Veiled (Engine.release key ticket) (Engine.release key ticket) :=
  (modifies (fun w => { w with registry := w.registry.release key ticket }) fun _ => rfl).bind
    fun _ => note _

theorem sample (hceiling : h.memoryCeiling = k.memoryCeiling) (used : UInt64) :
    Act.Pairs Veiled Veiled (World.sample k used) (World.sample h used) := by
  unfold World.sample
  refine .get_bind fun u v huv => ?_
  rw [huv.monitor, hceiling]
  cases v.monitor with
  | none => exact ⟨rfl, huv⟩
  | some m =>
    have hwatch := modifies (fun w : World =>
      { w with monitor := some (m.observe (percentUsed used k.memoryCeiling)) }) fun _ => rfl
    refine ((publish _ _).bind fun _ => hwatch.bind fun _ => ?_) u v huv
    split
    · exact note _
    · exact .pure ()

theorem cancel (key : String) : Act.Pairs Veiled Veiled (World.cancel key) (World.cancel key) := by
  have hcancel : Act.Pairs Veiled Veiled
      (modify fun w : World => { w with registry := w.registry.cancel key })
      (modify fun w : World => { w with registry := w.registry.cancel key }) :=
    modifies _ fun _ => rfl
  unfold World.cancel
  refine .get_bind fun u v huv => ?_
  rw [huv.registry]
  split
  · exact ((note _).bind fun _ => hcancel) u v huv
  · exact hcancel u v huv

section

variable (hceiling : h.memoryCeiling = k.memoryCeiling)
include hceiling

theorem happen (x : Happening) :
    Act.Pairs Veiled Veiled (World.happen k x) (World.happen h x) := by
  refine (note _).bind fun _ => ?_
  cases x with
  | cancel key => exact cancel key
  | sample used => exact sample hceiling used

theorem happenAll : ∀ xs : List Happening,
    Act.Pairs Veiled Veiled (World.happenAll k xs) (World.happenAll h xs)
  | [] => .pure ()
  | x :: xs => by
    unfold World.happenAll
    exact (happen hceiling x).bind fun _ => happenAll xs

/-- A moment passes alike in which the same happens. -/
theorem pause (hsame : h.interlude v.clock = k.interlude u.clock) (huv : Veiled u v) :
    Veiled ((World.pause k).run u).2 ((World.pause h).run v).2 := by
  have hall := happenAll hceiling (k.interlude u.clock) { u with clock := u.clock + 1 }
    { v with clock := v.clock + 1 } huv
  unfold World.pause
  rw [Act.run_get_bind, Act.run_get_bind, hsame]
  exact hall.2

end

/-- Changes of the disks are not seen. -/
theorem change (c c' : Change) (huv : Veiled u v) :
    Veiled ((World.change c).run u).2 ((World.change c').run v).2 := by
  show ((World.change c).run u).2.veil = ((World.change c').run v).2.veil
  rw [World.veil_change, World.veil_change, huv]

end Veiled

/-! ## Hosts -/

/-- Between the two moments nothing happens, and no file operation fails. -/
def Host.Quiet (h : Host) (a b : Nat) : Prop :=
  ∀ n, a ≤ n → n < b → h.interlude n = [] ∧ h.fault (n + 1) = none

/-- From the moment `a'` on the second host does what the first one does from `a` on, up to the moment
`b`. After it, until `b'`, it is quiet. -/
structure Host.Repeats (k h : Host) (a b a' b' : Nat) : Prop where
  interlude : ∀ i, a + i < b → h.interlude (a' + i) = k.interlude (a + i)
  fault : ∀ i, a + i < b → h.fault (a' + i + 1) = k.fault (a + i + 1)
  time : ∀ i, a + i < b → h.time (a' + i + 1) = k.time (a + i + 1)
  idle : h.Quiet (a' + (b - a)) b'

instance (h : Host) (a b : Nat) : Decidable (h.Quiet a b) :=
  decidable_of_iff (∀ n < b, a ≤ n → h.interlude n = [] ∧ h.fault (n + 1) = none)
    ⟨fun hall n hfrom hto => hall n hto hfrom, fun hquiet n hto hfrom => hquiet n hfrom hto⟩

theorem Host.repeats_iff {a b a' b' : Nat} : k.Repeats h a b a' b' ↔
    (∀ i < b - a, h.interlude (a' + i) = k.interlude (a + i) ∧
      h.fault (a' + i + 1) = k.fault (a + i + 1) ∧ h.time (a' + i + 1) = k.time (a + i + 1)) ∧
    h.Quiet (a' + (b - a)) b' :=
  ⟨fun ⟨interlude, fault, time, idle⟩ => ⟨fun i hi =>
      ⟨interlude i (by omega), fault i (by omega), time i (by omega)⟩, idle⟩,
    fun ⟨hall, idle⟩ => ⟨fun i hi => (hall i (by omega)).1, fun i hi => (hall i (by omega)).2.1,
      fun i hi => (hall i (by omega)).2.2, idle⟩⟩

instance (k h : Host) (a b a' b' : Nat) : Decidable (k.Repeats h a b a' b') :=
  decidable_of_iff _ Host.repeats_iff.symm

/-- The host that is `k` until the moment `a`, and `h` from its moment `a'` on after that. -/
def Host.followedBy (k : Host) (a : Nat) (h : Host) (a' : Nat) : Host :=
  { k with
    interlude := fun n => if n < a then k.interlude n else h.interlude (a' + (n - a))
    fault := fun n => if n ≤ a then k.fault n else h.fault (a' + (n - a))
    time := fun n => if n ≤ a then k.time n else h.time (a' + (n - a)) }

/-- A host that is repeated is the same as one that is followed by the host that repeats it. -/
theorem Host.Repeats.coincides {a b a' b' : Nat} (hrepeats : k.Repeats h a b a' b') :
    k.Coincides (k.followedBy a h a') a b where
  settings := rfl
  catalog := rfl
  ceiling := rfl
  interlude n hfrom hto := by
    obtain ⟨i, rfl⟩ := Nat.exists_eq_add_of_le hfrom
    show (if a + i < a then _ else h.interlude (a' + (a + i - a))) = _
    rw [if_neg (by omega), Nat.add_sub_cancel_left, hrepeats.interlude i hto]
  fault n hfrom hto := by
    show (if n ≤ a then k.fault n else h.fault (a' + (n - a))) = _
    split
    · rfl
    · obtain ⟨i, rfl⟩ : ∃ i, n = a + i + 1 := ⟨n - a - 1, by omega⟩
      rw [show a' + (a + i + 1 - a) = a' + i + 1 by omega, hrepeats.fault i (by omega)]
  time n hfrom hto := by
    show (if n ≤ a then k.time n else h.time (a' + (n - a))) = _
    split
    · rfl
    · obtain ⟨i, rfl⟩ : ∃ i, n = a + i + 1 := ⟨n - a - 1, by omega⟩
      rw [show a' + (a + i + 1 - a) = a' + i + 1 by omega, hrepeats.time i (by omega)]

/-! ## The two runs -/

/-- The worlds are the same but for their disks, which go together; what the one lives through after
`a`, the other lives through after `a'`. -/
structure Beside (a a' : Nat) (cwd : Place) (F : Disk → Disk → Prop) (u v : World) : Prop where
  veiled : Veiled u v
  shift : u.clock + a' = v.clock + a
  begun : a < u.clock
  home : u.cwd = cwd
  disks : F u.disk v.disk

/-- The action leaves the disk alone and takes no time. -/
def Act.Timeless (x : Act α) : Prop :=
  ∀ w, (x.run w).2.disk = w.disk ∧ (x.run w).2.clock = w.clock ∧ (x.run w).2.cwd = w.cwd

theorem World.publish_timeless (key : String) (m : BusMessage) : (publish key m).Timeless :=
  fun _ => ⟨rfl, rfl, rfl⟩

theorem World.happen_timeless (x : Happening) : (happen h x).Timeless := fun w =>
  ⟨(happen_still x w).disk, happen_clock x w, (happen_still x w).cwd⟩

theorem Act.Reads.timeless {x : Act α} (hx : x.Reads) : x.Timeless := fun w => by
  rw [hx w]
  exact ⟨rfl, rfl, rfl⟩

namespace Beside

variable {a a' : Nat} {cwd : Place} {F G : Disk → Disk → Prop}

theorem mono (huv : Beside a a' cwd F u v) (hFG : F u.disk v.disk → G u.disk v.disk) :
    Beside a a' cwd G u v :=
  { huv with disks := hFG huv.disks }

theorem home' (huv : Beside a a' cwd F u v) : v.cwd = cwd := huv.veiled.cwd.symm.trans huv.home

/-- Actions that leave the disks alone and take no time. -/
theorem pairs {x y : Act α} (hxy : Act.Pairs Veiled Veiled x y) (hx : x.Timeless) (hy : y.Timeless) :
    Act.Pairs (Beside a a' cwd F) (Beside a a' cwd F) x y := by
  intro u v huv
  obtain ⟨hsame, hveiled⟩ := hxy u v huv.veiled
  obtain ⟨hdisk, hclock, hcwd⟩ := hx u
  obtain ⟨hdisk', hclock', -⟩ := hy v
  refine ⟨hsame, hveiled, ?_, ?_, hcwd.trans huv.home, ?_⟩
  · rw [hclock, hclock', huv.shift]
  · rw [hclock]
    exact huv.begun
  · rw [hdisk, hdisk']
    exact huv.disks

theorem note (o : Occurrence) :
    Act.Pairs (Beside a a' cwd F) (Beside a a' cwd F) (World.note o) (World.note o) :=
  pairs (Veiled.note o) (fun _ => ⟨rfl, rfl, rfl⟩) fun _ => ⟨rfl, rfl, rfl⟩

theorem publish (key : String) (m : BusMessage) :
    Act.Pairs (Beside a a' cwd F) (Beside a a' cwd F) (World.publish key m) (World.publish key m) :=
  pairs (Veiled.publish key m) (World.publish_timeless key m) (World.publish_timeless key m)

theorem release (key : String) (ticket : Nat) :
    Act.Pairs (Beside a a' cwd F) (Beside a a' cwd F) (Engine.release key ticket)
      (Engine.release key ticket) :=
  pairs (Veiled.release key ticket) (fun _ => ⟨rfl, rfl, rfl⟩) fun _ => ⟨rfl, rfl, rfl⟩

/-- A change of the one disk beside a change of the other. -/
theorem change {c c' : Change} (huv : Beside a a' cwd F u v)
    (hF : F (u.disk.apply c) (v.disk.apply c')) :
    Beside a a' cwd F ((World.change c).run u).2 ((World.change c').run v).2 :=
  ⟨huv.veiled.change c c', huv.shift, huv.begun, huv.home, hF⟩

section

variable (hceiling : h.memoryCeiling = k.memoryCeiling)
include hceiling

/-- A moment passes, which was passed before or is the first one. -/
theorem pause_from (hveiled : Veiled u v) (hshift : u.clock + a' = v.clock + a) (hbegun : a ≤ u.clock)
    (hhome : u.cwd = cwd) (hdisks : F u.disk v.disk) :
    Beside a a' cwd F ((World.pause (k.followedBy a h a')).run u).2 ((World.pause h).run v).2 := by
  have hmoment : a' + (u.clock - a) = v.clock := by omega
  have hsame : h.interlude v.clock = (k.followedBy a h a').interlude u.clock := by
    show _ = if u.clock < a then _ else h.interlude (a' + (u.clock - a))
    rw [if_neg (Nat.not_lt.mpr hbegun), hmoment]
  have hceiling' : h.memoryCeiling = (k.followedBy a h a').memoryCeiling := hceiling
  have hstill : Still u ((World.pause (k.followedBy a h a')).run u).2 := World.pause_still u
  have hstill' : Still v ((World.pause h).run v).2 := World.pause_still v
  have hpaused := Veiled.pause hceiling' hsame hveiled
  have hclock : ((World.pause (k.followedBy a h a')).run u).2.clock = u.clock + 1 := World.pause_clock u
  have hclock' : ((World.pause h).run v).2.clock = v.clock + 1 := World.pause_clock v
  generalize ((World.pause (k.followedBy a h a')).run u).2 = u' at hstill hpaused hclock ⊢
  generalize ((World.pause h).run v).2 = v' at hstill' hpaused hclock' ⊢
  refine ⟨hpaused, by omega, by omega, hstill.cwd.trans hhome, ?_⟩
  rw [hstill.disk, hstill'.disk]
  exact hdisks

theorem pause : Act.Pairs (Beside a a' cwd F) (Beside a a' cwd F)
    (World.pause (k.followedBy a h a')) (World.pause h) := fun _ _ huv =>
  ⟨Subsingleton.elim _ _,
    pause_from hceiling huv.veiled huv.shift (Nat.le_of_lt huv.begun) huv.home huv.disks⟩

/-- **What is asked of the disks of the two runs**, for the paths of a realm and the changes that `B`
admits. -/
theorem twins {P : Realm} {B : Disk → Change → Prop} (hsettings : h.settings = k.settings)
    (hcatalog : h.catalog = k.catalog)
    (hchange : ∀ c d d', F d d' → B d c → F (d.apply c) (d'.apply c))
    (hlook : ∀ p, P.look p → ∀ d d', F d d' → d.entryAt cwd true p = d'.entryAt cwd true p)
    (hmake : ∀ p, P.make p → ∀ d d', F d d' →
      d.planMakeDirectory cwd p = d'.planMakeDirectory cwd p ∧
        ∀ c, d.planMakeDirectory cwd p = .ok c → B d c)
    (hwrite : ∀ p, P.write p → ∀ d d' x, F d d' →
      d.planCreate cwd p x = d'.planCreate cwd p x ∧
        ∀ c, d.planCreate cwd p x = .ok c → B d c ∧ ∀ d more, B d (.append c.place more))
    (htake : ∀ p, P.take p → ∀ d d', F d d' →
      (∀ bytes, d.planReplace cwd p bytes = d'.planReplace cwd p bytes ∧
        ∀ c, d.planReplace cwd p bytes = .ok c → B d c) ∧
      d.planRemoveFile cwd p = d'.planRemoveFile cwd p ∧
        ∀ c, d.planRemoveFile cwd p = .ok c → B d c)
    (hmakeLook : ∀ p, P.make p → P.look p)
    (hupward : ∀ p q, P.make p → p.parent? = some q → P.make q)
    (hwriteUpward : ∀ p q, P.write p → p.parent? = some q → P.make q) :
    Twins (k.followedBy a h a') h (Beside a a' cwd F) P fun w => B w.disk where
  settings := hsettings
  catalog := hcatalog
  pause := pause hceiling
  happen x := pairs (Veiled.happen (k := k.followedBy a h a') hceiling x) (World.happen_timeless x)
    (World.happen_timeless x)
  fault u v huv := by
    obtain ⟨-, hshift, hbegun, -, -⟩ := huv
    show _ = if u.clock ≤ a then _ else h.fault (a' + (u.clock - a))
    rw [if_neg (by omega), show a' + (u.clock - a) = v.clock by omega]
  time u v huv := by
    obtain ⟨-, hshift, hbegun, -, -⟩ := huv
    show _ = if u.clock ≤ a then _ else h.time (a' + (u.clock - a))
    rw [if_neg (by omega), show a' + (u.clock - a) = v.clock by omega]
  note o _ := note o
  publish := publish
  watch _ :=
    pairs (Veiled.modifies _ fun _ => rfl) (fun _ => ⟨rfl, rfl, rfl⟩) fun _ => ⟨rfl, rfl, rfl⟩
  tripped := pairs Veiled.tripped World.isTripped_reads.timeless World.isTripped_reads.timeless
  cancelled ticket :=
    pairs (Veiled.cancelled ticket) (fun _ => ⟨rfl, rfl, rfl⟩) fun _ => ⟨rfl, rfl, rfl⟩
  change c u v huv hc := huv.change (hchange c _ _ huv.disks hc)
  looks p hp u v huv := by
    rw [huv.home, huv.home']
    exact hlook p hp _ _ huv.disks
  makes p hp u v huv := by
    rw [huv.home, huv.home']
    exact hmake p hp _ _ huv.disks
  writes p hp u v x huv := by
    rw [huv.home, huv.home']
    exact ⟨(hwrite p hp _ _ x huv.disks).1, fun c hc =>
      ⟨((hwrite p hp _ _ x huv.disks).2 c hc).1,
        fun w => ((hwrite p hp _ _ x huv.disks).2 c hc).2 w.disk⟩⟩
  takes p hp u v huv := by
    have htake := htake p hp _ _ huv.disks
    refine ⟨?_, ?_⟩
    · rw [huv.home, huv.home']
      exact htake.1
    · rw [huv.home, huv.home']
      exact htake.2
  make_look := hmakeLook
  upward := hupward
  write_upward := hwriteUpward

end

end Beside

end Decompile
