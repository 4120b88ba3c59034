import Mathlib.Data.List.Induction
import Mathlib.Data.List.Nodup
import Mathlib.Data.List.TakeWhile
import Decompile.Bus

/-!
# Delivery on the bus

Clients come and go and publish in any order. What a receiver gets depends on its own key and on
how long it stays, never on who else is there.

- `Bus.Step`, `Bus.Session`: what clients do, and a bus with what its receivers have taken so far.
- `Bus.Receiver`: a receiver as the steps alone show it, with the messages due to it and with
  whether the bus still counts it.
- `Bus.Agrees`: the table of the bus beside its receivers. Every step keeps it.
- `Bus.run_delivery`: each receiver gets what is due to it, and the bus counts whom it should.
-/

namespace Decompile.Bus

/-- What a client does. -/
inductive Step where
  | subscribe (key : String)
  | drop (id : Nat)
  | publish (key : String) (m : BusMessage)
  /-- A receiver takes the messages that wait for it. -/
  | take (id : Nat)

/-- The step is the receiver's leaving. -/
def Step.isDrop (id : Nat) : Step → Bool
  | drop i => i == id
  | _ => false

/-- The message that the step publishes on a key. -/
def Step.message? (key : String) : Step → Option BusMessage
  | publish k m => if k = key then some m else none
  | _ => none

/-- The messages published on a key, oldest first. -/
def published (key : String) (steps : List Step) : List BusMessage :=
  steps.filterMap (Step.message? key)

/-- A bus in use. -/
structure Session where
  bus : Bus
  /-- What each receiver has taken, oldest first. -/
  taken : Nat → List BusMessage
  /-- What still waited for each receiver when it left. -/
  missed : Nat → List BusMessage

namespace Session

/-- Nobody is there yet. -/
def start : Session := ⟨.empty, fun _ => [], fun _ => []⟩

/-- One step of a client. -/
def step (s : Session) : Step → Session
  | .subscribe key => { s with bus := (s.bus.subscribe key).2 }
  | .drop id =>
    { s with
      bus := s.bus.drop id
      missed := fun i => if i = id then s.missed i ++ s.bus.queued i else s.missed i }
  | .publish key m => { s with bus := s.bus.publish key m }
  | .take id =>
    { s with
      bus := (s.bus.drain id).2
      taken := fun i => if i = id then s.taken i ++ (s.bus.drain id).1 else s.taken i }

/-- All steps, one after the other. -/
def run (steps : List Step) : Session := steps.foldl step start

/-- Everything that the bus has sent to a receiver, oldest first. -/
def delivered (s : Session) (id : Nat) : List BusMessage :=
  s.taken id ++ s.bus.queued id ++ s.missed id

end Session

/-- A receiver, as the steps show it. -/
structure Receiver where
  id : Nat
  key : String
  /-- The steps after its subscription. -/
  later : List Step

/-- The receivers of a list of steps, when `n` others came before. -/
def receiversFrom (n : Nat) : List Step → List Receiver
  | [] => []
  | .subscribe key :: later => ⟨n, key, later⟩ :: receiversFrom (n + 1) later
  | _ :: later => receiversFrom n later

/-- The receivers of a list of steps, in the order in which they came. -/
def receivers (steps : List Step) : List Receiver := receiversFrom 0 steps

namespace Receiver

/-- The receiver has left. -/
def left (r : Receiver) : Bool := r.later.any (Step.isDrop r.id)

/-- The steps while the receiver is there. -/
def stay (r : Receiver) : List Step := r.later.takeWhile fun step => !step.isDrop r.id

/-- The receiver's leaving, and the steps after it. -/
def absence (r : Receiver) : List Step := r.later.dropWhile fun step => !step.isDrop r.id

/-- The messages published on the receiver's key while it was there. -/
def due (r : Receiver) : List BusMessage := published r.key r.stay

/-- Something was published on the receiver's key after it had left. -/
def forgotten (r : Receiver) : Bool := r.absence.any fun step => (step.message? r.key).isSome

/-- The receiver has left, and nothing was published on its key since. -/
def lingers (r : Receiver) : Bool := r.left && !r.forgotten

/-- The receiver, one step later. -/
def after (r : Receiver) (step : Step) : Receiver := { r with later := r.later ++ [step] }

/-- What the table shows of a receiver, its messages apart. -/
def row (r : Receiver) : Nat × String × Bool := (r.id, r.key, !r.left)

@[simp] theorem id_after (r : Receiver) (step : Step) : (r.after step).id = r.id := rfl

@[simp] theorem key_after (r : Receiver) (step : Step) : (r.after step).key = r.key := rfl

@[simp] theorem left_after (r : Receiver) (step : Step) :
    (r.after step).left = (r.left || step.isDrop r.id) := by
  simp [left, after]

theorem stay_of_left_eq_false {r : Receiver} (h : r.left = false) : r.stay = r.later := by
  refine List.takeWhile_eq_self_iff.mpr fun step hstep => ?_
  simpa using List.any_eq_false.mp h step hstep

theorem absence_of_left_eq_false {r : Receiver} (h : r.left = false) : r.absence = [] := by
  refine List.dropWhile_eq_nil_iff.mpr fun step hstep => ?_
  simpa using List.any_eq_false.mp h step hstep

theorem forgotten_of_left_eq_false {r : Receiver} (h : r.left = false) : r.forgotten = false := by
  rw [forgotten, absence_of_left_eq_false h, List.any_nil]

theorem stay_after_of_left {r : Receiver} (h : r.left = true) (step : Step) :
    (r.after step).stay = r.stay := by
  obtain ⟨gone, hmem, hgone⟩ := List.any_eq_true.mp h
  have hshort : r.stay.length ≠ r.later.length := by
    intro hlength
    have hwhole : r.stay = r.later := (List.takeWhile_prefix _).eq_of_length hlength
    simpa [hgone] using List.takeWhile_eq_self_iff.mp hwhole gone hmem
  simp only [stay, after, List.takeWhile_append]
  exact if_neg hshort

theorem absence_after_of_left {r : Receiver} (h : r.left = true) (step : Step) :
    (r.after step).absence = r.absence ++ [step] := by
  obtain ⟨gone, hmem, hgone⟩ := List.any_eq_true.mp h
  have hne : ¬r.absence.isEmpty = true := by
    rw [List.isEmpty_iff, absence, List.dropWhile_eq_nil_iff]
    exact fun hall => by simpa [hgone] using hall gone hmem
  simp only [absence, after, List.dropWhile_append]
  exact if_neg hne

theorem stay_after_of_left_eq_false {r : Receiver} (h : r.left = false) (step : Step) :
    (r.after step).stay = if step.isDrop r.id then r.later else r.later ++ [step] := by
  have hstay := stay_of_left_eq_false h
  rw [stay] at hstay
  cases hdrop : step.isDrop r.id <;> simp [stay, after, List.takeWhile_append, hstay, hdrop]

theorem absence_after_of_left_eq_false {r : Receiver} (h : r.left = false) (step : Step) :
    (r.after step).absence = if step.isDrop r.id then [step] else [] := by
  have habsence := absence_of_left_eq_false h
  rw [absence] at habsence
  cases hdrop : step.isDrop r.id <;> simp [absence, after, List.dropWhile_append, habsence, hdrop]

end Receiver

/-- Who leaves publishes nothing by it. -/
theorem Step.message?_of_isDrop {step : Step} {id : Nat} (h : step.isDrop id = true) (key : String) :
    step.message? key = none := by
  cases step with
  | drop => rfl
  | subscribe | publish | take => cases h

/-- The receiver that a step brings, if the bus gives it this number. -/
def Step.newcomer (id : Nat) : Step → List Receiver
  | subscribe key => [⟨id, key, []⟩]
  | _ => []

namespace Receiver

theorem due_after (r : Receiver) (step : Step) :
    (r.after step).due = r.due ++ if r.left then [] else (step.message? r.key).toList := by
  cases h : r.left with
  | true => rw [due, stay_after_of_left h, key_after, due, if_pos rfl, List.append_nil]
  | false =>
    rw [due, due, stay_after_of_left_eq_false h, stay_of_left_eq_false h]
    cases hdrop : step.isDrop r.id with
    | true => simp [Step.message?_of_isDrop hdrop]
    | false => cases hm : step.message? r.key <;> simp [published, hm]

theorem forgotten_after (r : Receiver) (step : Step) :
    (r.after step).forgotten = (r.forgotten || (r.left && (step.message? r.key).isSome)) := by
  cases h : r.left with
  | true => simp [forgotten, absence_after_of_left h]
  | false =>
    rw [forgotten, forgotten, absence_after_of_left_eq_false h, absence_of_left_eq_false h]
    cases hdrop : step.isDrop r.id with
    | true => simp [Step.message?_of_isDrop hdrop]
    | false => simp

end Receiver

theorem receiversFrom_concat (n : Nat) (steps : List Step) (step : Step) :
    receiversFrom n (steps ++ [step]) =
      (receiversFrom n steps).map (·.after step) ++
        step.newcomer (n + (receiversFrom n steps).length) := by
  induction steps generalizing n with
  | nil => cases step <;> rfl
  | cons first steps ih =>
    cases first with
    | subscribe key =>
      simp only [List.cons_append, receiversFrom, ih, List.map_cons, List.length_cons]
      rw [Nat.add_assoc, Nat.add_comm 1]
      rfl
    | drop | publish | take => exact ih n

theorem map_id_receiversFrom (n : Nat) (steps : List Step) :
    (receiversFrom n steps).map Receiver.id = List.range' n (receiversFrom n steps).length := by
  induction steps generalizing n with
  | nil => rfl
  | cons first steps ih =>
    cases first with
    | subscribe key => simp [receiversFrom, ih, List.range'_succ]
    | drop | publish | take => exact ih n

/-- Receivers are numbered as they come. -/
theorem map_id_receivers (steps : List Step) :
    (receivers steps).map Receiver.id = List.range (receivers steps).length := by
  rw [receivers, map_id_receiversFrom, List.range_eq_range']

theorem receivers_concat (steps : List Step) (step : Step) :
    receivers (steps ++ [step]) =
      (receivers steps).map (·.after step) ++ step.newcomer (receivers steps).length := by
  rw [receivers, receiversFrom_concat, Nat.zero_add, receivers]

/-! ## Messages that wait -/

theorem queued_eq_nil {b : Bus} {id : Nat} (h : ∀ s ∈ b.subscriptions, s.id = id → s.queue = []) :
    b.queued id = [] := by
  cases hfind : b.subscriptions.find? fun s => s.id == id with
  | none => rw [queued, hfind]; rfl
  | some s =>
    have hid : s.id = id := by simpa using List.find?_some hfind
    rw [queued, hfind]
    exact h s (List.mem_of_find?_eq_some hfind) hid

theorem queued_of_mem {b : Bus} (hids : (b.subscriptions.map Subscription.id).Nodup)
    {s : Subscription} (hs : s ∈ b.subscriptions) : b.queued s.id = s.queue := by
  cases hfind : b.subscriptions.find? fun t => t.id == s.id with
  | none => simpa using List.find?_eq_none.mp hfind s hs
  | some t =>
    have hid : t.id = s.id := by simpa using List.find?_some hfind
    have : t = s := List.inj_on_of_nodup_map hids (List.mem_of_find?_eq_some hfind) hs hid
    rw [queued, hfind, this]
    rfl

/-- A change of each listener that leaves its number alone. -/
theorem queued_map {b : Bus} {f : Subscription → Subscription} (hf : ∀ s, (f s).id = s.id)
    (id : Nat) :
    queued ⟨b.nextId, b.subscriptions.map f⟩ id =
      ((b.subscriptions.find? fun s => s.id == id).map fun s => (f s).queue).getD [] := by
  simp only [queued, List.find?_map, Function.comp_def, hf, Option.map_map]

theorem queued_subscribe {b : Bus} {id : Nat} (h : id ≠ b.nextId) (key : String) :
    (b.subscribe key).2.queued id = b.queued id := by
  have hnew : (b.nextId == id) = false := by simpa using Ne.symm h
  simp only [queued, subscribe, List.find?_append, List.find?_cons, hnew, List.find?_nil,
    Option.or_none]

theorem queued_drop (b : Bus) (id i : Nat) :
    (b.drop id).queued i = if i = id then [] else b.queued i := by
  rw [drop, queued_map fun s => by split <;> rfl, queued]
  cases hfind : b.subscriptions.find? fun s => s.id == i with
  | none => simp
  | some s =>
    have hid : s.id = i := by simpa using List.find?_some hfind
    by_cases h : i = id <;> simp [hid, h]

theorem fst_drain (b : Bus) (id : Nat) : (b.drain id).1 = b.queued id := rfl

theorem queued_drain (b : Bus) (id i : Nat) :
    (b.drain id).2.queued i = if i = id then [] else b.queued i := by
  rw [drain, queued_map fun s => by split <;> rfl, queued]
  cases hfind : b.subscriptions.find? fun s => s.id == i with
  | none => simp
  | some s =>
    have hid : s.id = i := by simpa using List.find?_some hfind
    by_cases h : i = id <;> simp [hid, h]

/-! ## The table -/

/-- What the table shows of a listener, its messages apart. -/
def row (s : Subscription) : Nat × String × Bool := (s.id, s.key, s.live)

/-- What a step makes of a row: it is struck out when its receiver left before the message. -/
def advance (step : Step) (row : Nat × String × Bool) : Option (Nat × String × Bool) :=
  if !row.2.2 && (step.message? row.2.1).isSome then none
  else some (row.1, row.2.1, row.2.2 && !step.isDrop row.1)

/-- The rows of the table that receivers should have. -/
def rowsOf (rs : List Receiver) : List (Nat × String × Bool) :=
  (rs.filter fun r => !r.forgotten).map Receiver.row

/-- A step that publishes nothing strikes nothing out. -/
theorem filterMap_advance {step : Step} (h : ∀ key, step.message? key = none)
    (rows : List (Nat × String × Bool)) :
    rows.filterMap (advance step) =
      rows.map fun row => (row.1, row.2.1, row.2.2 && !step.isDrop row.1) := by
  rw [← List.filterMap_eq_map]
  exact List.filterMap_congr fun row _ => by simp [advance, h]

theorem rows_step (s : Session) (step : Step) :
    (s.step step).bus.subscriptions.map row =
      (s.bus.subscriptions.map row).filterMap (advance step) ++
        (step.newcomer s.bus.nextId).map Receiver.row := by
  cases step with
  | subscribe key =>
    rw [filterMap_advance fun _ => rfl]
    simp [Session.step, Bus.subscribe, Step.newcomer, Step.isDrop, Receiver.row, Receiver.left, row]
  | drop id =>
    rw [filterMap_advance fun _ => rfl]
    simp only [Session.step, Bus.drop, Step.newcomer, List.map_nil, List.append_nil, List.map_map]
    refine List.map_congr_left fun e _ => ?_
    by_cases h : e.id = id
    · simp [row, Step.isDrop, h]
    · simp [row, Step.isDrop, h, Ne.symm h]
  | publish key m =>
    simp only [Session.step, Bus.publish, Step.newcomer, List.map_nil, List.append_nil,
      List.map_filterMap, List.filterMap_map]
    refine List.filterMap_congr fun e _ => ?_
    by_cases h : e.key = key
    · cases hlive : e.live <;> simp [receive, advance, row, Step.message?, Step.isDrop, h, hlive]
    · simp [receive, advance, row, Step.message?, Step.isDrop, h, Ne.symm h]
  | take id =>
    rw [filterMap_advance fun _ => rfl]
    simp only [Session.step, Bus.drain, Step.newcomer, List.map_nil, List.append_nil, List.map_map]
    refine List.map_congr_left fun e _ => ?_
    by_cases h : e.id = id <;> simp [row, Step.isDrop, h]

theorem rowsOf_step (rs : List Receiver) (step : Step) (n : Nat) :
    rowsOf (rs.map (·.after step) ++ step.newcomer n) =
      (rowsOf rs).filterMap (advance step) ++ (step.newcomer n).map Receiver.row := by
  have hnew : (step.newcomer n).filter (fun r => !r.forgotten) = step.newcomer n := by
    cases step <;> rfl
  simp only [rowsOf, List.filter_append, List.map_append, hnew, List.append_cancel_right_eq]
  induction rs with
  | nil => rfl
  | cons r rs ih =>
    cases hf : r.forgotten <;> cases hl : r.left <;>
      cases hm : step.message? r.key <;>
      simp [Receiver.forgotten_after, advance, Receiver.row, hf, hl, hm, ih]

/-- The table of a bus, beside the receivers that the steps show. -/
structure Tabled (b : Bus) (rs : List Receiver) : Prop where
  next : b.nextId = rs.length
  ids : rs.map Receiver.id = List.range rs.length
  rows : b.subscriptions.map row = rowsOf rs
  /-- Nothing waits for who has left. -/
  mute : ∀ e ∈ b.subscriptions, e.live = false → e.queue = []

namespace Tabled

variable {b : Bus} {rs : List Receiver}

theorem nodup (t : Tabled b rs) : (rs.map Receiver.id).Nodup := t.ids ▸ List.nodup_range

theorem nodup_subscriptions (t : Tabled b rs) : (b.subscriptions.map Subscription.id).Nodup := by
  have hids : b.subscriptions.map Subscription.id =
      (rs.filter fun r => !r.forgotten).map Receiver.id := by
    have hfst := congrArg (List.map Prod.fst) t.rows
    rw [rowsOf, List.map_map, List.map_map] at hfst
    exact hfst
  rw [hids]
  exact t.nodup.sublist (List.filter_sublist.map _)

/-- A listener in the table is one of the receivers. -/
theorem exists_receiver (t : Tabled b rs) {e : Subscription} (he : e ∈ b.subscriptions) :
    ∃ r ∈ rs, r.row = row e := by
  have hmem : row e ∈ rowsOf rs := t.rows ▸ List.mem_map_of_mem he
  obtain ⟨r, hr, hrow⟩ := List.mem_map.mp hmem
  exact ⟨r, (List.mem_filter.mp hr).1, hrow⟩

/-- A receiver that is there is in the table. -/
theorem exists_entry (t : Tabled b rs) {r : Receiver} (hr : r ∈ rs) (hleft : r.left = false) :
    ∃ e ∈ b.subscriptions, row e = (r.id, r.key, true) := by
  have hmem : r.row ∈ rowsOf rs :=
    List.mem_map_of_mem
      (List.mem_filter.mpr ⟨hr, by rw [Receiver.forgotten_of_left_eq_false hleft]; rfl⟩)
  rw [← t.rows] at hmem
  obtain ⟨e, he, hrow⟩ := List.mem_map.mp hmem
  exact ⟨e, he, by rw [hrow, Receiver.row, hleft]; rfl⟩

theorem queued_of_left (t : Tabled b rs) {r : Receiver} (hr : r ∈ rs) (hleft : r.left = true) :
    b.queued r.id = [] := by
  refine queued_eq_nil fun e he hid => t.mute e he ?_
  obtain ⟨r', hr', hrow⟩ := t.exists_receiver he
  obtain ⟨hid', -, hlive⟩ : r'.id = e.id ∧ r'.key = e.key ∧ (!r'.left) = e.live := by
    simpa [Receiver.row, row] using hrow
  have : r' = r := List.inj_on_of_nodup_map t.nodup hr' hr (hid'.trans hid)
  rw [← hlive, this, hleft]
  rfl

theorem queued_of_fresh (t : Tabled b rs) {id : Nat} (hid : rs.length ≤ id) : b.queued id = [] := by
  refine queued_eq_nil fun e he hid' => absurd hid ?_
  obtain ⟨r, hr, hrow⟩ := t.exists_receiver he
  have hrid : r.id = id := (congrArg Prod.fst hrow).trans hid'
  have hmem : id ∈ List.range rs.length := t.ids ▸ hrid ▸ List.mem_map_of_mem hr
  exact Nat.not_le.mpr (List.mem_range.mp hmem)

end Tabled

theorem Tabled.step {s : Session} {rs : List Receiver} (t : Tabled s.bus rs) (step : Step) :
    Tabled (s.step step).bus (rs.map (·.after step) ++ step.newcomer rs.length) where
  next := by
    cases step <;> simp [Session.step, Bus.subscribe, Bus.drop, Bus.publish, Bus.drain, Step.newcomer, t.next]
  ids := by
    have hmap : (rs.map (·.after step)).map Receiver.id = List.range rs.length := by
      rw [List.map_map, ← t.ids]; rfl
    rw [List.map_append, hmap]
    cases step <;> simp [Step.newcomer, List.range_succ]
  rows := by rw [rows_step, t.rows, t.next, rowsOf_step]
  mute := by
    intro e he hlive
    cases step with
    | subscribe key =>
      obtain he | rfl : e ∈ s.bus.subscriptions ∨ e = ⟨s.bus.nextId, key, true, []⟩ := by
        simpa [Session.step, Bus.subscribe] using he
      · exact t.mute e he hlive
      · rfl
    | drop id =>
      obtain ⟨old, hold, rfl⟩ := List.mem_map.mp he
      by_cases h : old.id = id
      · simp only [if_pos h]
      · simp only [if_neg h] at hlive ⊢
        exact t.mute old hold hlive
    | publish key m =>
      -- a message goes only to who is there
      obtain ⟨old, hold, hnew⟩ := List.mem_filterMap.mp he
      by_cases hkey : old.key = key
      · cases hold' : old.live <;> simp [receive, hkey, hold'] at hnew
        simp [← hnew] at hlive
      · obtain rfl : old = e := by simpa [receive, hkey] using hnew
        exact t.mute old hold hlive
    | take id =>
      obtain ⟨old, hold, rfl⟩ := List.mem_map.mp he
      by_cases h : old.id = id
      · simp only [if_pos h]
      · simp only [if_neg h] at hlive ⊢
        exact t.mute old hold hlive

/-! ## What is sent -/

/-- A message on a key goes to every listener of it that is there. -/
theorem Tabled.queued_publish {s : Session} {rs : List Receiver} (t : Tabled s.bus rs) {r : Receiver}
    (hr : r ∈ rs) (key : String) (m : BusMessage) :
    (s.bus.publish key m).queued r.id =
      s.bus.queued r.id ++ if r.left then [] else ((Step.publish key m).message? r.key).toList := by
  have t' := t.step (.publish key m)
  have hr' : r.after (.publish key m) ∈ rs.map (·.after (.publish key m)) ++ [] := by
    simpa using ⟨r, hr, rfl⟩
  cases hleft : r.left with
  | true =>
    have hafter := t'.queued_of_left hr' (by simp [hleft])
    rw [t.queued_of_left hr hleft]
    exact hafter
  | false =>
    obtain ⟨e, he, hrow⟩ := t.exists_entry hr hleft
    obtain ⟨hid, hkey, hlive⟩ : e.id = r.id ∧ e.key = r.key ∧ e.live = true := by
      simpa [row] using hrow
    let told : Subscription :=
      { e with queue := e.queue ++ ((Step.publish key m).message? r.key).toList }
    have htold : told ∈ (s.bus.publish key m).subscriptions := by
      refine List.mem_filterMap.mpr ⟨e, he, ?_⟩
      by_cases h : e.key = key
      · simp [receive, told, h, ← hkey, hlive, Step.message?]
      · simp [receive, told, h, ← hkey, Ne.symm h, Step.message?]
    rw [← hid, queued_of_mem t.nodup_subscriptions he]
    exact queued_of_mem t'.nodup_subscriptions htold

/-- A bus in use, beside the receivers that the steps show. -/
structure Agrees (s : Session) (rs : List Receiver) : Prop where
  tabled : Tabled s.bus rs
  /-- Each receiver was sent what is due to it. -/
  sent : ∀ r ∈ rs, s.delivered r.id = r.due
  /-- Who is there has missed nothing. -/
  missed : ∀ r ∈ rs, r.left = false → s.missed r.id = []
  /-- Nothing was sent under a number that is not given out yet. -/
  fresh : ∀ id, rs.length ≤ id → s.delivered id = []

namespace Agrees

variable {s : Session} {rs : List Receiver}

theorem start : Agrees .start [] where
  tabled := ⟨rfl, rfl, rfl, fun _ he => by cases he⟩
  sent _ hr := by cases hr
  missed _ hr := by cases hr
  fresh _ _ := rfl

theorem delivered_step (g : Agrees s rs) {r : Receiver} (hr : r ∈ rs) (step : Step) :
    (s.step step).delivered r.id =
      s.delivered r.id ++ if r.left then [] else (step.message? r.key).toList := by
  have hlt : r.id < rs.length := by
    have hmem : r.id ∈ List.range rs.length := g.tabled.ids ▸ List.mem_map_of_mem hr
    exact List.mem_range.mp hmem
  cases step with
  | subscribe key =>
    have hne : r.id ≠ s.bus.nextId := g.tabled.next ▸ Nat.ne_of_lt hlt
    simp [Session.step, Session.delivered, queued_subscribe hne, Step.message?]
  | drop id =>
    -- what waited is missed now: nobody who left has anything waiting
    have hnone : s.missed r.id = [] ∨ s.bus.queued r.id = [] := by
      cases hleft : r.left with
      | false => exact .inl (g.missed r hr hleft)
      | true => exact .inr (g.tabled.queued_of_left hr hleft)
    by_cases h : r.id = id
    · obtain hnone | hnone := hnone <;>
        simp [Session.step, Session.delivered, queued_drop, Step.message?, ← h, hnone]
    · simp [Session.step, Session.delivered, queued_drop, Step.message?, h]
  | publish key m =>
    -- there is no message after what a receiver missed, for it has left
    have hsent := g.tabled.queued_publish hr key m
    simp only [Session.step, Session.delivered, hsent]
    cases hleft : r.left with
    | true => simp
    | false => simp [g.missed r hr hleft]
  | take id =>
    by_cases h : r.id = id
    · simp [Session.step, Session.delivered, queued_drain, fst_drain, Step.message?, ← h]
    · simp [Session.step, Session.delivered, queued_drain, Step.message?, h]

theorem fresh_step (g : Agrees s rs) (step : Step) {id : Nat}
    (hid : (rs.map (·.after step) ++ step.newcomer rs.length).length ≤ id) :
    (s.step step).delivered id = [] := by
  have hbefore : rs.length ≤ id := by
    rw [List.length_append, List.length_map] at hid
    exact Nat.le_trans (Nat.le_add_right _ _) hid
  have hnone := g.fresh id hbefore
  have hqueued := (g.tabled.step step).queued_of_fresh hid
  simp only [Session.delivered, List.append_eq_nil_iff] at hnone ⊢
  obtain ⟨⟨htaken, hwaits⟩, hmissed⟩ := hnone
  refine ⟨⟨?_, hqueued⟩, ?_⟩
  · cases step with
    | take i =>
      simp only [Session.step, fst_drain, htaken, List.nil_append]
      split
      case isTrue h => exact h ▸ hwaits
      case isFalse => rfl
    | subscribe | drop | publish => exact htaken
  · cases step with
    | drop i => simp [Session.step, hmissed, hwaits]
    | subscribe | publish | take => exact hmissed

theorem step (g : Agrees s rs) (step : Step) :
    Agrees (s.step step) (rs.map (·.after step) ++ step.newcomer rs.length) where
  tabled := g.tabled.step step
  sent := by
    intro r hr
    obtain hr | hr := List.mem_append.mp hr
    · obtain ⟨old, hold, rfl⟩ := List.mem_map.mp hr
      rw [Receiver.id_after, g.delivered_step hold, g.sent old hold, Receiver.due_after]
    · -- who has just come was sent nothing
      cases step with
      | subscribe key =>
        obtain rfl := List.mem_singleton.mp hr
        have hqueued : (s.bus.subscribe key).2.queued rs.length = [] := by
          have hmem : (⟨s.bus.nextId, key, true, []⟩ : Subscription) ∈
              (s.bus.subscribe key).2.subscriptions := by simp [Bus.subscribe]
          have hnew := queued_of_mem (g.tabled.step (.subscribe key)).nodup_subscriptions hmem
          rwa [g.tabled.next] at hnew
        have hnone := g.fresh rs.length (Nat.le_refl _)
        simp only [Session.delivered, List.append_eq_nil_iff] at hnone
        simp [Session.delivered, Session.step, hqueued, hnone, Receiver.due, Receiver.stay, published]
      | drop | publish | take => cases hr
  missed := by
    intro r hr hleft
    obtain hr | hr := List.mem_append.mp hr
    · obtain ⟨old, hold, rfl⟩ := List.mem_map.mp hr
      obtain ⟨hbefore, hdrop⟩ : old.left = false ∧ step.isDrop old.id = false := by
        simpa using hleft
      have hmissed := g.missed old hold hbefore
      cases step with
      | drop id =>
        have hne : old.id ≠ id := fun h => by simp [Step.isDrop, h] at hdrop
        simpa [Session.step, hne] using hmissed
      | subscribe | publish | take => exact hmissed
    · cases step with
      | subscribe key =>
        obtain rfl := List.mem_singleton.mp hr
        have hnone := g.fresh rs.length (Nat.le_refl _)
        simp only [Session.delivered, List.append_eq_nil_iff] at hnone
        exact hnone.2
      | drop | publish | take => cases hr
  fresh _ hid := g.fresh_step step hid

/-- All steps keep the table and the receivers together. -/
theorem run (steps : List Step) : Agrees (Session.run steps) (receivers steps) := by
  induction steps using List.reverseRecOn with
  | nil => exact start
  | append_singleton steps last ih =>
    rw [Session.run, List.foldl_append, receivers_concat]
    exact ih.step last

end Agrees

/-! ## Who is counted -/

/-- The receivers of a key that are there. -/
def listening (key : String) (rs : List Receiver) : Nat :=
  rs.countP fun r => r.key == key && !r.left

/-- The receivers of a key that left after its last message. -/
def lingering (key : String) (rs : List Receiver) : Nat :=
  rs.countP fun r => r.key == key && r.lingers

theorem countP_rowsOf (rs : List Receiver) (key : String) :
    (rowsOf rs).countP (fun row => row.2.1 == key) = listening key rs + lingering key rs := by
  rw [rowsOf, List.countP_map, List.countP_filter]
  induction rs with
  | nil => rfl
  | cons r rs ih =>
    -- who is there is not forgotten, and who is not forgotten is there or lingers
    have hone : (if (r.key == key && !r.forgotten) = true then 1 else 0) =
        (if (r.key == key && !r.left) = true then 1 else 0) +
          if (r.key == key && r.lingers) = true then 1 else 0 := by
      cases hl : r.left with
      | false => simp [Receiver.lingers, Receiver.forgotten_of_left_eq_false hl, hl]
      | true => simp [Receiver.lingers, hl]
    rw [listening, lingering] at ih ⊢
    simp only [List.countP_cons, Function.comp_apply, Receiver.row] at ih ⊢
    omega

theorem Tabled.count_eq {b : Bus} {rs : List Receiver} (t : Tabled b rs) (key : String) :
    b.count key = listening key rs + lingering key rs := by
  rw [← countP_rowsOf, ← t.rows, List.countP_map, count, List.countP_eq_length_filter]
  rfl

/-- A message forgets everybody who left. -/
theorem lingering_concat_publish (steps : List Step) (key : String) (m : BusMessage) :
    lingering key (receivers (steps ++ [.publish key m])) = 0 := by
  refine List.countP_eq_zero.mpr fun r hr => ?_
  rw [receivers_concat] at hr
  obtain hr | hr := List.mem_append.mp hr
  · obtain ⟨old, -, rfl⟩ := List.mem_map.mp hr
    cases hk : old.key == key with
    | false => simp [hk]
    | true =>
      have hkey : key = old.key := (eq_of_beq hk).symm
      cases hl : old.left <;>
        simp [Receiver.lingers, Receiver.forgotten_after, Step.message?, Step.isDrop, hl, hkey]
  · cases hr

/-- What a bus does for the clients who took these steps. -/
structure Delivery (steps : List Step) : Prop where
  /-- The receivers have the numbers that the bus gave out, in order. -/
  numbers : (receivers steps).map Receiver.id = List.range (Session.run steps).bus.nextId
  /-- Each receiver was sent what was published on its key while it was there, and nothing else. -/
  sent : ∀ r ∈ receivers steps, (Session.run steps).delivered r.id = r.due
  /-- Who is there has what was published since it came: all of it is taken, or waits. -/
  stays : ∀ r ∈ receivers steps, r.left = false →
    (Session.run steps).taken r.id ++ (Session.run steps).bus.queued r.id = published r.key r.later
  /-- Nothing waits for who has left. -/
  leaves : ∀ r ∈ receivers steps, r.left = true → (Session.run steps).bus.queued r.id = []
  /-- A key counts who is there, and who left since the last message on it. -/
  counts : ∀ key, (Session.run steps).bus.count key =
    listening key (receivers steps) + lingering key (receivers steps)
  /-- Right after a message, its key counts who is there. -/
  prunes : ∀ before key m, steps = before ++ [.publish key m] →
    (Session.run steps).bus.count key = listening key (receivers steps)

/-- **Delivery on the bus.** Whatever clients do, and in whatever order: each receiver is sent the
messages on its key from its subscription until it leaves, each once and in order, and a key counts
its receivers up to those that left since its last message. -/
theorem run_delivery (steps : List Step) : Delivery steps := by
  have g := Agrees.run steps
  refine ⟨?_, g.sent, fun r hr hleft => ?_, fun r hr => g.tabled.queued_of_left hr,
    g.tabled.count_eq, ?_⟩
  · rw [g.tabled.next, g.tabled.ids]
  · have hsent := g.sent r hr
    rwa [Session.delivered, g.missed r hr hleft, List.append_nil,
      Receiver.due, Receiver.stay_of_left_eq_false hleft] at hsent
  · rintro before key m rfl
    rw [g.tabled.count_eq, lingering_concat_publish, Nat.add_zero]

end Decompile.Bus
