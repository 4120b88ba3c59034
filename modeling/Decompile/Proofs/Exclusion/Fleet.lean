import Decompile.Proofs.Cancellation.Run
import Mathlib.Logic.Function.Basic

/-!
# Many jobs at once

An engine runs its jobs at the same time. Each job goes its way in small steps: its key is claimed,
its record stored, it is put in line, it takes messages and does what has to be done about them,
action by action, and in the end its task is dropped, which gives the key back once more. A stage may
take any time, and a task may be dropped at any moment. Between two steps of one job others make
theirs, requests come, and jobs are asked to stop.

- `Stand`: how far a job has come.
- `Fleet`: the world with all jobs, by their tickets.
- `Event`: what a step is for those who watch.
- `Fleet.Step`, `Fleet.Run`: one step of one of the jobs, and any number of them.
-/

namespace Decompile

/-- How far a job has come since it claimed its key. -/
inductive Stand where
  /-- Its record is not stored yet. -/
  | claimed (job : Job) (record : JobRecord)
  /-- Its record could not be stored. -/
  | unsaved (job : Job)
  /-- Its record is stored, and it is not in line yet. -/
  | stored (job : Job) (record : JobRecord)
  /-- It waits to be run. -/
  | queued (a : Accepted)
  /-- It runs, and has some actions to do before it takes its next message. -/
  | working (task : Task) (todo : List Action)
  /-- It runs a stage. -/
  | staging (task : Task) (stage : Stage) (todo : List Action)
  /-- It does nothing more. -/
  | gone

/-- What a step is for those who watch. -/
inductive Event where
  /-- A new job claims a key. -/
  | claimed (ticket : Nat) (key : String)
  /-- A job writes the record of its key. -/
  | saved (ticket : Nat) (key : String)
  /-- A job begins a stage. -/
  | started (ticket : Nat) (key : String)
  /-- A job gives its key back, be it the first time or once more. -/
  | released (ticket : Nat) (key : String)
  /-- The job of a key is asked to stop. -/
  | cancelled (key : String)
  /-- Anything else. -/
  | other
  deriving DecidableEq, Repr

/-- The world, and the jobs by their tickets. -/
structure Fleet where
  world : World
  stand : Nat → Option Stand

namespace Fleet

/-- No job was ever taken on. -/
def new (disk : Disk) (cwd : Place) : Fleet := ⟨.new disk cwd, fun _ => none⟩

/-- The job of a ticket comes to stand elsewhere, and the world changes. -/
def move (f : Fleet) (ticket : Nat) (s : Stand) (w : World) : Fleet :=
  ⟨w, Function.update f.stand ticket (some s)⟩

@[simp] theorem move_world (f : Fleet) (ticket : Nat) (s : Stand) (w : World) :
    (f.move ticket s w).world = w := rfl

@[simp] theorem move_stand_self (f : Fleet) (ticket : Nat) (s : Stand) (w : World) :
    (f.move ticket s w).stand ticket = some s :=
  Function.update_self ..

theorem move_stand_of_ne (f : Fleet) {ticket t : Nat} (h : t ≠ ticket) (s : Stand) (w : World) :
    (f.move ticket s w).stand t = f.stand t :=
  Function.update_of_ne h ..

/-- Where a job stands after its record was stored or was not. -/
def standAfterSave (j : Job) (record : JobRecord) : Except PersistError Unit → Stand
  | .ok () => .stored j record
  | .error _ => .unsaved j

/-- What an action of a task is for those who watch. -/
def eventOf (t : Task) : Action → Event
  | .record _ => .saved t.ticket t.job.targetKey
  | .run _ => .started t.ticket t.job.targetKey
  | .release => .released t.ticket t.job.targetKey
  | .tell _ | .log _ => .other

/-- One step. -/
inductive Step (h : Host) (f : Fleet) : Event → Fleet → Prop where
  /-- A request that passes its checks claims its key. -/
  | claim {s : Submission} {job : Job} (plan : Job.plan s h.catalog.has = .ok job) {ticket : Nat}
    {w : World} (granted : (Engine.claim job.targetKey).settle.run f.world = (.ok ticket, w)) :
    Step h f (.claimed ticket job.targetKey)
      (f.move ticket (.claimed job (.new job (h.time w.clock))) w)
  /-- Its record is stored, or that fails. -/
  | save {ticket : Nat} {job : Job} {record : JobRecord}
    (stands : f.stand ticket = some (.claimed job record)) {r : Except PersistError Unit}
    {w : World} (run : (record.save h (.of h.settings.storage job.targetKey)).settle.run f.world =
      (r, w)) :
    Step h f (.saved ticket job.targetKey) (f.move ticket (standAfterSave job record r) w)
  /-- A job whose record could not be stored gives its key back. -/
  | giveUp {ticket : Nat} {job : Job} (stands : f.stand ticket = some (.unsaved job)) :
    Step h f (.released ticket job.targetKey)
      (f.move ticket .gone ((Engine.release job.targetKey ticket).run f.world).2)
  /-- A job gets in line. -/
  | enqueue {ticket : Nat} {job : Job} {record : JobRecord}
    (stands : f.stand ticket = some (.stored job record)) :
    Step h f .other (f.move ticket (.queued ⟨job, record, ticket⟩)
      { f.world with waiting := f.world.waiting ++ [⟨job, record, ticket⟩] })
  /-- The task of a job begins. -/
  | begin {ticket : Nat} {a : Accepted} (stands : f.stand ticket = some (.queued a))
    {before after : List Accepted} (waits : f.world.waiting = before ++ a :: after) :
    Step h f .other (f.move ticket (.working (.ofAccepted a) [])
      { f.world with waiting := before ++ after })
  /-- A task looks whether it has to stop, and takes a message. -/
  | take {ticket : Nat} {t : Task} (stands : f.stand ticket = some (.working t []))
    {m : Message} {rest : List Message} (queue : t.queue = m :: rest) {stop : Bool} {w : World}
    (poll : (pollCancelled h t.ticket).run f.world = (stop, w)) :
    Step h f .other (f.move ticket (.working (t.taken stop m rest).1
      ((t.taken stop m rest).2.flatMap (Effect.actions (t.taken stop m rest).1.job))) w)
  /-- A task does one of its actions. -/
  | act {ticket : Nat} {t : Task} {a : Action} {todo : List Action}
    (stands : f.stand ticket = some (.working t (a :: todo))) (short : ∀ s, a ≠ .run s)
    {u : Task} {w : World} (run : (t.perform h a).run f.world = (u, w)) :
    Step h f (eventOf t a) (f.move ticket (.working u todo) w)
  /-- A task begins a stage. -/
  | start {ticket : Nat} {t : Task} {s : Stage} {todo : List Action}
    (stands : f.stand ticket = some (.working t (.run s :: todo))) :
    Step h f (eventOf t (.run s)) (f.move ticket (.staging t s todo) f.world)
  /-- A stage comes to some result. -/
  | report {ticket : Nat} {t : Task} {s : Stage} {todo : List Action}
    (stands : f.stand ticket = some (.staging t s todo)) (r : StageResult) :
    Step h f .other (f.move ticket
      (.working { t with queue := t.queue ++ [.stageFinished s.ordinal r] } todo) f.world)
  /-- A task is dropped: when it is done, or at any moment if something in it breaks. -/
  | drop {ticket : Nat} {t : Task} {todo : List Action}
    (stands : f.stand ticket = some (.working t todo) ∨
      ∃ s, f.stand ticket = some (.staging t s todo)) :
    Step h f (.released ticket t.job.targetKey)
      (f.move ticket .gone ((Engine.release t.job.targetKey ticket).run f.world).2)
  /-- Somebody wants the job of a key to stop. -/
  | cancel (key : String) :
    Step h f (.cancelled key) ⟨((Engine.cancelJob key).run f.world).2, f.stand⟩
  /-- Time passes, files change, tools run, listeners come and go. -/
  | elsewhere {w : World} (registry : w.registry = f.world.registry)
    (waiting : w.waiting = f.world.waiting) : Step h f .other ⟨w, f.stand⟩

/-- Any number of steps, with their events, oldest first. -/
inductive Run (h : Host) (f : Fleet) : List Event → Fleet → Prop where
  | nil : Run h f [] f
  | snoc {es : List Event} {g : Fleet} (run : Run h f es g) {e : Event} {g' : Fleet}
    (step : Step h g e g') : Run h f (es ++ [e]) g'

end Fleet

end Decompile
