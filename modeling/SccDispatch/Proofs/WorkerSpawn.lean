import Mathlib.Logic.Relation
import SccDispatch.Proofs.Routine

namespace SccDispatch

/-- What a loader comes to. -/
def Loader.report {π : Type} (loader : Loader π) (last : Option π) : Except BindError π :=
  match loader.load last with
  | .ok r => r
  | .error cause => .error (.fault (.of "load" cause))

inductive SpawnedThread (π : Type)
  | loading
  | reporting (report : Except BindError π)
  | serving (provider : π)
  | gone

namespace SpawnedThread

variable {π : Type}

def sends : SpawnedThread π → Bool
  | loading | reporting _ => true
  | serving _ | gone => false

def after : Except BindError π → SpawnedThread π
  | .ok provider => serving provider
  | .error _ => gone

end SpawnedThread

/-- A worker's thread, the channel on which it reports, and what was heard on it. -/
structure WorkerSpawn (π : Type) where
  thread : SpawnedThread π := .loading
  ready : Option (Except BindError Unit) := none
  heard : Option (Except BindError Unit) := none

namespace WorkerSpawn

variable {π : Type}

def word (report : Except BindError π) : Except BindError Unit := report.map fun _ => ()

/-- A step of either thread, with a loader that comes to `report`. -/
inductive Step (report : Except BindError π) (h : WorkerSpawn π) : WorkerSpawn π → Prop
  | load (loading : h.thread = .loading) :
      h.Step report { h with thread := .reporting report }
  | accept {provider : π} (loaded : h.thread = .reporting (.ok provider))
      (awaited : h.heard = none) :
      h.Step report { h with thread := .serving provider, ready := some (.ok ()) }
  /-- Nobody listens any more. -/
  | desert {provider : π} (loaded : h.thread = .reporting (.ok provider))
      (given : h.heard.isSome) : h.Step report { h with thread := .gone }
  | decline {e : BindError} (failed : h.thread = .reporting (.error e)) :
      h.Step report { h with thread := .gone, ready := some (.error e) }
  | hear {r : Except BindError Unit} (waits : h.heard = none) (ready : h.ready = some r) :
      h.Step report { h with ready := none, heard := some r }
  /-- The channel was dropped with no word on it. -/
  | miss (waits : h.heard = none) (empty : h.ready = none) (dropped : h.thread.sends = false) :
      h.Step report { h with heard := some (.error .workerExited) }

abbrev Reaches (report : Except BindError π) : WorkerSpawn π → WorkerSpawn π → Prop :=
  Relation.ReflTransGen (Step report)

/-- What the thread that spawns comes to know. It sees a worker off that has failed. -/
def outcome (h : WorkerSpawn π) : Option (Except BindError Unit) :=
  match h.heard, h.thread with
  | some (.ok ()), _ => some (.ok ())
  | some (.error e), .gone => some (.error e)
  | _, _ => none

/-- What there is to hear is what the loader came to. -/
inductive ReportsLoader (report : Except BindError π) : WorkerSpawn π → Prop
  | loading : ReportsLoader report {}
  | reporting : ReportsLoader report { thread := .reporting report }
  | reported : ReportsLoader report { thread := .after report, ready := some (word report) }
  | heard : ReportsLoader report { thread := .after report, heard := some (word report) }

variable {report : Except BindError π} {h k : WorkerSpawn π}

/-- No step puts anything on the channel but what the loader came to. -/
theorem ReportsLoader.step (reports : h.ReportsLoader report) (s : h.Step report k) :
    k.ReportsLoader report := by
  cases reports with
  | loading =>
    cases s with
    | load loading => exact .reporting
    | accept loaded | desert loaded | decline loaded => cases loaded
    | hear waits ready => cases ready
    | miss waits empty dropped => cases dropped
  | reporting =>
    cases s with
    | load loading => cases loading
    | accept loaded awaited =>
      cases loaded
      exact .reported
    | desert loaded given => cases given
    | decline failed =>
      cases failed
      exact .reported
    | hear waits ready => cases ready
    | miss waits empty dropped => cases dropped
  | reported =>
    cases s with
    | load loaded | accept loaded | desert loaded | decline loaded => cases report <;> cases loaded
    | hear waits ready =>
      cases ready
      exact .heard
    | miss waits empty dropped => cases empty
  | heard =>
    cases s with
    | load loaded | accept loaded | desert loaded | decline loaded => cases report <;> cases loaded
    | hear waits ready | miss waits => cases waits

theorem ReportsLoader.reaches (reports : h.ReportsLoader report) (r : h.Reaches report k) :
    k.ReportsLoader report := by
  induction r with
  | refl => exact reports
  | tail _ s ih => exact ih.step s

/-- Nothing else is heard than what the loader came to. -/
theorem ReportsLoader.outcome_eq (reports : h.ReportsLoader report) {r : Except BindError Unit}
    (hr : h.outcome = some r) : r = word report := by
  cases reports with
  | loading | reporting | reported => cases hr
  | heard => cases report <;> exact (Option.some.inj hr).symm

/-- The two threads come to an end. -/
theorem ReportsLoader.exists_step (reports : h.ReportsLoader report) (open' : h.outcome = none) :
    ∃ k, h.Step report k := by
  cases reports with
  | loading => exact ⟨_, .load rfl⟩
  | reporting =>
    cases report with
    | ok provider => exact ⟨_, .accept rfl rfl⟩
    | error e => exact ⟨_, .decline rfl⟩
  | reported => exact ⟨_, .hear rfl rfl⟩
  | heard => cases report <;> cases open'

end WorkerSpawn

/-- The section in which a provider is loaded goes on with what the loader came to. -/
theorem Routine.install_eq {π : Type} (d : Dispatcher π) (name : String) (loader : Loader π)
    (window : Window) :
    Routine.install d name loader window =
      (.write .info ("Initializing source control provider " ++ name) <|
        .notice (.phase .loading) <|
          .writePath loader.path <|
            match loader.report d.lastRetired with
            | .ok provider =>
              .employ provider <|
                .notice (.line .info "Source control worker started" .worker) <|
                  .start name d.options.caller window
            | .error e =>
              match loader.load d.lastRetired with
              | .ok _ => .refuse name e
              | .error cause =>
                .notice (.line .error (Fault.of "load" cause).text .worker) (.refuse name e)) := by
  unfold Routine.install Loader.report
  rcases loader.load d.lastRetired with cause | e | provider <;> rfl

end SccDispatch
