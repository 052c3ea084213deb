import Mathlib.Logic.Function.Basic
import SccDispatch.Worker

namespace SccDispatch

/-- Where the worker's thread stands. -/
inductive Stage
  | idle
  | taken (job : Job)
  | ran (job : Job) (out : Output)
  | gone
  deriving DecidableEq, Repr

/-- Something that happened between the threads and the worker. -/
inductive Mark
  | accepted (caller : Nat) (job : Job)
  | refused (caller : Nat) (command : Command) (e : DispatchError)
  | closed
  | taken (job : Job)
  | ran (job : Job) (out : Output)
  | answered (job : Job) (out : Output)
  | returned (caller : Nat) (job : Job) (result : Except DispatchError Output)
  /-- A caller used the provider on its own thread. -/
  | visited (command : Command) (out : Output)
  | gone

inductive Move
  /-- A thread puts a command into the queue, and waits for its output from then on. -/
  | submit (caller : Nat) (command : Command)
  | collect (caller : Nat)
  /-- The worker takes a job, or runs the one it took, or answers the one it ran. -/
  | work
  | close
  | visit (command : Command)

structure SharedWorker (π : Type) where
  worker : Worker π
  stage : Stage := .idle
  awaited : Nat → Option Job := fun _ => none
  past : List Mark := []

@[simp]
def Stage.held : Stage → List Job
  | taken job | ran job _ => [job]
  | idle | gone => []

@[simp]
def Stage.finished : Stage → List Job
  | ran job _ => [job]
  | idle | taken _ | gone => []

namespace Mark

@[simp]
def accepted? : Mark → Option (Nat × Job)
  | accepted caller job => some (caller, job)
  | _ => none

@[simp]
def taken? : Mark → Option Job
  | taken job => some job
  | _ => none

@[simp]
def ran? : Mark → Option Job
  | ran job _ => some job
  | _ => none

@[simp]
def answered? : Mark → Option Job
  | answered job _ => some job
  | _ => none

@[simp]
def returned? : Mark → Option Job
  | returned _ job _ => some job
  | _ => none

end Mark

namespace SharedWorker

def acceptances (past : List Mark) : List (Nat × Job) := past.filterMap Mark.accepted?

def acceptedJobs (past : List Mark) : List Job := (acceptances past).map Prod.snd

def takenJobs (past : List Mark) : List Job := past.filterMap Mark.taken?

def ranJobs (past : List Mark) : List Job := past.filterMap Mark.ran?

def answeredJobs (past : List Mark) : List Job := past.filterMap Mark.answered?

def returnedJobs (past : List Mark) : List Job := past.filterMap Mark.returned?

def workMoves (past : List Mark) : Nat :=
  (takenJobs past).length + (ranJobs past).length + (answeredJobs past).length

theorem filterMap_concat {α β : Type} (f : α → Option β) (l : List α) (a : α) :
    (l ++ [a]).filterMap f = l.filterMap f ++ (f a).toList := by
  rw [List.filterMap_append]
  cases h : f a <;> simp [h]

section Past

variable (past : List Mark) (m : Mark)

@[simp]
theorem acceptances_concat : acceptances (past ++ [m]) = acceptances past ++ m.accepted?.toList :=
  filterMap_concat _ _ _

@[simp]
theorem acceptedJobs_concat :
    acceptedJobs (past ++ [m]) = acceptedJobs past ++ m.accepted?.toList.map Prod.snd := by
  simp only [acceptedJobs, acceptances_concat, List.map_append]

@[simp]
theorem takenJobs_concat : takenJobs (past ++ [m]) = takenJobs past ++ m.taken?.toList :=
  filterMap_concat _ _ _

@[simp]
theorem ranJobs_concat : ranJobs (past ++ [m]) = ranJobs past ++ m.ran?.toList :=
  filterMap_concat _ _ _

@[simp]
theorem answeredJobs_concat :
    answeredJobs (past ++ [m]) = answeredJobs past ++ m.answered?.toList :=
  filterMap_concat _ _ _

@[simp]
theorem returnedJobs_concat :
    returnedJobs (past ++ [m]) = returnedJobs past ++ m.returned?.toList :=
  filterMap_concat _ _ _

variable {past} {job : Job}

theorem mem_acceptances {i : Nat} : (i, job) ∈ acceptances past ↔ .accepted i job ∈ past := by
  refine List.mem_filterMap.trans ⟨?_, fun h => ⟨_, h, rfl⟩⟩
  rintro ⟨m, hm, he⟩
  cases m <;> cases he
  exact hm

theorem mem_acceptedJobs : job ∈ acceptedJobs past ↔ ∃ i, .accepted i job ∈ past := by
  simp only [acceptedJobs, List.mem_map, Prod.exists, mem_acceptances, exists_eq_right]

theorem mem_answeredJobs : job ∈ answeredJobs past ↔ ∃ out, .answered job out ∈ past := by
  refine List.mem_filterMap.trans ⟨?_, fun ⟨_, h⟩ => ⟨_, h, rfl⟩⟩
  rintro ⟨m, hm, he⟩
  cases m <;> cases he
  exact ⟨_, hm⟩

end Past

variable {π : Type}

def start (p : π) (shares : Bool) : SharedWorker π := { worker := { provider := p, shares } }

def mark (x : SharedWorker π) (m : Mark) : SharedWorker π := { x with past := x.past ++ [m] }

@[simp]
theorem mark_worker (x : SharedWorker π) (m : Mark) : (x.mark m).worker = x.worker := rfl

@[simp]
theorem mark_stage (x : SharedWorker π) (m : Mark) : (x.mark m).stage = x.stage := rfl

@[simp]
theorem mark_awaited (x : SharedWorker π) (m : Mark) : (x.mark m).awaited = x.awaited := rfl

@[simp]
theorem mark_past (x : SharedWorker π) (m : Mark) : (x.mark m).past = x.past ++ [m] := rfl

def submit (x : SharedWorker π) (caller : Nat) (command : Command) : SharedWorker π :=
  match x.worker.submit command with
  | .ok (ticket, worker) =>
    { x with
      worker
      awaited := Function.update x.awaited caller (some ⟨ticket, command⟩) }.mark
        (.accepted caller ⟨ticket, command⟩)
  | .error e => x.mark (.refused caller command e)

theorem submit_of_open {x : SharedWorker π} (h : x.worker.queue.closed = false) (caller : Nat)
    (command : Command) :
    x.submit caller command =
      { x with
        worker :=
          { x.worker with
            queue :=
              { x.worker.queue with
                pending := x.worker.queue.pending ++ [Job.mk x.worker.issued command] }
            issued := x.worker.issued + 1 }
        awaited := Function.update x.awaited caller (some ⟨x.worker.issued, command⟩) }.mark
          (.accepted caller ⟨x.worker.issued, command⟩) := by
  simp [submit, Worker.submit_of_open h]

theorem submit_of_closed {x : SharedWorker π} (h : x.worker.queue.closed = true) (caller : Nat)
    (command : Command) :
    x.submit caller command = x.mark (.refused caller command .notRunning) := by
  simp [submit, Worker.submit_of_closed h]

def collect (x : SharedWorker π) (caller : Nat) (job : Job) : SharedWorker π :=
  let (result, worker) := x.worker.result job.ticket job.command.name
  { x with worker, awaited := Function.update x.awaited caller none }.mark
    (.returned caller job result)

/-- Who waits for the job need not wait any longer: it was answered, or nobody is left to do so. -/
def settled (x : SharedWorker π) (job : Job) : Bool :=
  x.worker.answers.any (·.1 == job.ticket) || x.stage == .gone

theorem collect_of_mem {x : SharedWorker π} {job : Job} {out : Output}
    (h : (job.ticket, out) ∈ x.worker.answers) (caller : Nat) :
    ∃ found, (job.ticket, found) ∈ x.worker.answers ∧
      x.collect caller job =
        { x with
          worker :=
            { x.worker with answers := x.worker.answers.filter (·.1 != job.ticket) }
          awaited := Function.update x.awaited caller none }.mark
            (.returned caller job (.ok found)) := by
  obtain ⟨found, hm, he⟩ := Worker.result_of_mem h job.command.name
  exact ⟨found, hm, by simp [collect, he]⟩

def close (x : SharedWorker π) : SharedWorker π := { x with worker := x.worker.close }.mark .closed

def take (x : SharedWorker π) : SharedWorker π :=
  match x.worker.queue.pop with
  | .item job queue =>
    { x with worker := { x.worker with queue }, stage := .taken job }.mark (.taken job)
  | .finished => { x with worker := x.worker.ended, stage := .gone }.mark .gone
  | .waits => x

theorem take_of_cons {x : SharedWorker π} {job : Job} {rest : List Job}
    (h : x.worker.queue.pending = job :: rest) :
    x.take =
      { x with
        worker := { x.worker with queue := { x.worker.queue with pending := rest } }
        stage := .taken job }.mark (.taken job) := by
  simp [take, Queue.pop_of_cons h]

theorem take_of_closed {x : SharedWorker π} (h : x.worker.queue.pending = [])
    (hc : x.worker.queue.closed = true) :
    x.take = { x with worker := x.worker.ended, stage := .gone }.mark .gone := by
  simp [take, Queue.pop_of_closed h hc]

theorem take_of_open {x : SharedWorker π} (h : x.worker.queue.pending = [])
    (hc : x.worker.queue.closed = false) : x.take = x := by
  simp [take, Queue.pop_of_open h hc]

def answer (x : SharedWorker π) (job : Job) (out : Output) : SharedWorker π :=
  { x with
    worker := { x.worker with answers := x.worker.answers ++ [(job.ticket, out)] }
    stage := .idle }.mark (.answered job out)

variable [Provider π]

def perform (x : SharedWorker π) (job : Job) : SharedWorker π :=
  let (out, provider) := execute x.worker.provider .worker x.worker.shares job.command
  { x with
    worker := { x.worker with provider, handles := x.worker.handles.after out }
    stage := .ran job out }.mark (.ran job out)

def work (x : SharedWorker π) : SharedWorker π :=
  match x.stage with
  | .idle => x.take
  | .taken job => x.perform job
  | .ran job out => x.answer job out
  | .gone => x

def visit (x : SharedWorker π) (command : Command) : SharedWorker π :=
  let (out, provider) := execute x.worker.provider .caller false command
  { x with worker := { x.worker with provider } }.mark (.visited command out)

def step (x : SharedWorker π) : Move → SharedWorker π
  | .submit caller command =>
    match x.awaited caller with
    | none => x.submit caller command
    | some _ => x
  | .collect caller =>
    match x.awaited caller with
    | some job => if x.settled job then x.collect caller job else x
    | none => x
  | .work => x.work
  | .close => x.close
  | .visit command => x.visit command

def play (x : SharedWorker π) (schedule : List Move) : SharedWorker π := schedule.foldl step x

@[simp]
def providerNext (shares : Bool) (p : π) : Mark → π
  | .ran job _ => (execute p .worker shares job.command).2
  | .visited command _ => (execute p .caller false command).2
  | _ => p

def providerAfter (shares : Bool) (p : π) (past : List Mark) : π :=
  past.foldl (providerNext shares) p

@[simp]
theorem providerAfter_concat (shares : Bool) (p : π) (past : List Mark) (m : Mark) :
    providerAfter shares p (past ++ [m]) = providerNext shares (providerAfter shares p past) m := by
  simp [providerAfter]

theorem play_append (x : SharedWorker π) (a b : List Move) : x.play (a ++ b) = (x.play a).play b :=
  List.foldl_append

/-- A turn of the worker is its three moves on one job. -/
theorem play_turn {x : SharedWorker π} (hs : x.stage = .idle) {job : Job} {out : Output}
    {w : Worker π} (ht : x.worker.turn = .ran job out w) :
    x.play [.work, .work, .work] =
      { x with worker := w, past := x.past ++ [.taken job, .ran job out, .answered job out] } := by
  cases hp : x.worker.queue.pending with
  | nil => cases hc : x.worker.queue.closed <;> simp [Worker.turn, Queue.pop, hp, hc] at ht
  | cons first rest =>
    -- A turn takes, runs and answers at once, so what is left is to make the three moves.
    rw [Worker.turn_of_cons hp] at ht
    cases ht
    simp [play, step, work, hs, take_of_cons hp, perform, answer, mark]

/-- Undisturbed, three moves of the worker are one turn. -/
theorem play_turns {x : SharedWorker π} (hs : x.stage = .idle) {n : Nat}
    (hn : n ≤ x.worker.queue.pending.length) (j : Journal) :
    let y := x.play (List.replicate (3 * n) .work)
    y.worker = (x.worker.turns n j).1 ∧ y.stage = .idle ∧ y.awaited = x.awaited := by
  induction n generalizing x j with
  | zero => exact ⟨rfl, hs, rfl⟩
  | succ n ih =>
    cases hp : x.worker.queue.pending with
    | nil => simp [hp] at hn
    | cons job rest =>
      obtain ⟨out, w, ht, hw⟩ : ∃ out w, x.worker.turn = .ran job out w ∧ w.queue.pending = rest :=
        ⟨_, _, Worker.turn_of_cons hp, rfl⟩
      have hsplit : List.replicate (3 * (n + 1)) Move.work =
          [.work, .work, .work] ++ List.replicate (3 * n) .work := by
        rw [Nat.mul_succ, Nat.add_comm, ← List.replicate_append_replicate]
        rfl
      rw [hsplit, play_append, play_turn hs ht, Worker.turns_of_ran ht]
      refine ih ?_ ?_ _
      · exact hs
      · simpa [hp, hw] using hn

/-- Stopping a worker closes its queue and lets it leave. -/
theorem play_stop {x : SharedWorker π} (hs : x.stage = .idle) (j : Journal) :
    let y := x.play (.close :: List.replicate (3 * x.worker.queue.size) .work ++ [.work])
    y.worker = (x.worker.stop j).1 ∧ y.stage = .gone := by
  intro y
  obtain ⟨z, hz⟩ : ∃ z, x.close.play (List.replicate (3 * x.worker.queue.size) .work) = z :=
    ⟨_, rfl⟩
  have hw : z.worker = (x.worker.close.serve j).1 ∧ z.stage = .idle ∧ z.awaited = x.awaited := by
    rw [← hz]
    refine play_turns ?_ (Nat.le_refl _) j
    exact hs
  obtain ⟨hw, hi, -⟩ := hw
  have hq : z.worker.queue = { x.worker.queue.close with pending := [] } := by
    rw [hw, Worker.serve, Worker.queue_turns, Queue.size, List.drop_length]
    rfl
  have hy : y = { z with worker := z.worker.ended, stage := .gone }.mark .gone := by
    have he : y = z.step .work := by
      rw [← hz]
      exact play_append x _ _
    rw [he, step, work, hi]
    exact take_of_closed (by rw [hq]) (by rw [hq]; rfl)
  rw [hy]
  exact ⟨congrArg Worker.ended hw, rfl⟩

/-- Dispatching a command is submitting it, letting the worker run and collecting. -/
theorem play_dispatch {x : SharedWorker π} (hs : x.stage = .idle)
    (hc : x.worker.queue.closed = false) {i : Nat} (hi : x.awaited i = none) (j : Journal)
    (command : Command) :
    let y := x.play
      (.submit i command :: List.replicate (3 * (x.worker.queue.size + 1)) .work ++ [.collect i])
    y.worker = (x.worker.dispatch j command).2.1 ∧
      .returned i ⟨x.worker.issued, command⟩ (x.worker.dispatch j command).1 ∈ y.past := by
  intro y
  have hsub : x.step (.submit i command) = x.submit i command := by simp only [step, hi]
  have hopen := submit_of_open hc i command
  have hlen : (x.submit i command).worker.queue.size = x.worker.queue.size + 1 := by
    rw [hopen]
    simp [Queue.size]
  obtain ⟨z, hz⟩ : ∃ z, (x.submit i command).play
      (List.replicate (3 * (x.worker.queue.size + 1)) .work) = z := ⟨_, rfl⟩
  have hw : z.worker = ((x.submit i command).worker.serve (j.count .recordDispatched)).1 ∧
      z.stage = .idle ∧ z.awaited = (x.submit i command).awaited := by
    rw [← hz, ← hlen]
    refine play_turns ?_ (Nat.le_refl _) _
    rw [hopen]
    exact hs
  obtain ⟨hw, -, hz'⟩ := hw
  have hwait : z.awaited i = some ⟨x.worker.issued, command⟩ := by
    rw [hz', hopen]
    simp
  have hans : x.worker.issued ∈ z.worker.answers.map Prod.fst := by
    rw [hw]
    apply Worker.exists_answer_of_turns (Nat.le_refl _)
    rw [hopen]
    simp
  have hset : z.settled ⟨x.worker.issued, command⟩ = true := by
    obtain ⟨e, he, ht⟩ := List.mem_map.mp hans
    simp only [settled, Bool.or_eq_true, List.any_eq_true]
    exact .inl ⟨e, he, by simp [ht]⟩
  have hy : y = z.collect i ⟨x.worker.issued, command⟩ := by
    have he : y = z.step (.collect i) := by
      rw [← hz, ← hsub]
      exact play_append x _ _
    rw [he, step, hwait]
    simp only [hset, if_true]
  have hd : x.worker.dispatch j command =
      ((z.worker.result x.worker.issued command.name).1,
        (z.worker.result x.worker.issued command.name).2,
        ((x.submit i command).worker.serve (j.count .recordDispatched)).2) := by
    rw [hw, hopen]
    simp only [Worker.dispatch, Worker.enqueue, Worker.submit_of_open hc, mark_worker]
  rw [hy, hd]
  simp [collect]

end SharedWorker

end SccDispatch
