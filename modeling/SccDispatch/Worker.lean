import SccDispatch.Handles
import SccDispatch.Journal
import SccDispatch.Queue

namespace SccDispatch

/-- A submitted command; no two jobs of one worker have the same ticket. -/
structure Job where
  ticket : Nat
  command : Command
  deriving DecidableEq, Repr

structure Worker (π : Type) where
  provider : π
  handles : Handles := {}
  /-- The caller may have the provider for its own status queries. -/
  shares : Bool
  queue : Queue Job := .empty
  issued : Nat := 0
  answers : List (Nat × Output) := []

inductive DispatchError
  | notRunning
  | workerExited (name : String)
  deriving DecidableEq, Repr

def DispatchError.text : DispatchError → String
  | .notRunning => "Source control worker is not running"
  | .workerExited name => "Source control worker exited before completing " ++ name

/-- The handles to a provider when it has run a command: a handle may have been cloned. -/
def Handles.after (h : Handles) (out : Output) : Handles :=
  if out.concurrent then h.share .output else h

inductive Turn (π : Type)
  | ran (job : Job) (out : Output) (worker : Worker π)
  | finished
  | waits

namespace Worker

variable {π : Type}

/-- Puts a command into the queue, if it is still open. -/
def submit (w : Worker π) (command : Command) : Except DispatchError (Nat × Worker π) :=
  match w.queue.push ⟨w.issued, command⟩ with
  | .ok queue => .ok (w.issued, { w with queue, issued := w.issued + 1 })
  | .error _ => .error .notRunning

theorem submit_of_open {w : Worker π} (h : w.queue.closed = false) (command : Command) :
    w.submit command =
      .ok (w.issued,
        { w with
          queue := { w.queue with pending := w.queue.pending ++ [⟨w.issued, command⟩] }
          issued := w.issued + 1 }) := by
  simp [submit, Queue.push_of_open h]

theorem submit_of_closed {w : Worker π} (h : w.queue.closed = true) (command : Command) :
    w.submit command = .error .notRunning := by
  simp [submit, Queue.push_of_closed h]

def collect (w : Worker π) (ticket : Nat) : Option Output × Worker π :=
  ((w.answers.find? (·.1 == ticket)).map Prod.snd,
    { w with answers := w.answers.filter (·.1 != ticket) })

def close (w : Worker π) : Worker π := { w with queue := w.queue.close }

def drop (w : Worker π) (place : Holder) (on : Thread) : Worker π :=
  { w with handles := w.handles.drop place on }

/-- The worker's thread drops its own handle when it ends. -/
def ended (w : Worker π) : Worker π := w.drop .worker .worker

@[simp]
theorem provider_ended (w : Worker π) : w.ended.provider = w.provider := rfl

@[simp]
theorem queue_ended (w : Worker π) : w.ended.queue = w.queue := rfl

@[simp]
theorem issued_ended (w : Worker π) : w.ended.issued = w.issued := rfl

@[simp]
theorem answers_ended (w : Worker π) : w.ended.answers = w.answers := rfl

variable [Provider π]

def turn (w : Worker π) : Turn π :=
  match w.queue.pop with
  | .item job queue =>
    let (out, provider) := execute w.provider .worker w.shares job.command
    .ran job out
      { w with
        provider
        handles := w.handles.after out
        queue
        answers := w.answers ++ [(job.ticket, out)] }
  | .finished => .finished
  | .waits => .waits

theorem turn_of_cons {w : Worker π} {job : Job} {rest : List Job}
    (h : w.queue.pending = job :: rest) :
    w.turn =
      .ran job (execute w.provider .worker w.shares job.command).1
        { w with
          provider := (execute w.provider .worker w.shares job.command).2
          handles := w.handles.after (execute w.provider .worker w.shares job.command).1
          queue := { w.queue with pending := rest }
          answers :=
            w.answers ++ [(job.ticket, (execute w.provider .worker w.shares job.command).1)] } := by
  simp [turn, Queue.pop_of_cons h]

/-- At most `n` turns, each written down. -/
def turns : Nat → Worker π → Journal → Worker π × Journal
  | 0, w, j => (w, j)
  | n + 1, w, j =>
    match w.turn with
    | .ran job out next =>
      turns n next (j.account job.command.name (elapsed w.provider next.provider) out)
    | .finished | .waits => (w, j)

theorem turns_of_ran {w next : Worker π} {job : Job} {out : Output}
    (h : w.turn = .ran job out next) (n : Nat) (j : Journal) :
    w.turns (n + 1) j =
      next.turns n (j.account job.command.name (elapsed w.provider next.provider) out) := by
  rw [turns, h]

theorem turns_of_nil {w : Worker π} (h : w.queue.pending = []) (n : Nat) (j : Journal) :
    w.turns n j = (w, j) := by
  cases n with
  | zero => rfl
  | succ n => cases hc : w.queue.closed <;> simp [turns, turn, Queue.pop, h, hc]

theorem queue_turns (w : Worker π) (n : Nat) (j : Journal) :
    (w.turns n j).1.queue = { w.queue with pending := w.queue.pending.drop n } := by
  induction n generalizing w j with
  | zero => rfl
  | succ n ih =>
    cases hp : w.queue.pending with
    | nil =>
      rw [turns_of_nil hp, List.drop_nil, ← hp]
    | cons job rest =>
      rw [turns_of_ran (turn_of_cons hp), ih, List.drop_succ_cons]

/-- Enough turns leave an answer for each pending job. -/
theorem exists_answer_of_turns {w : Worker π} {n : Nat} (hn : w.queue.pending.length ≤ n)
    (j : Journal) {t : Nat} (ht : t ∈ w.queue.pending.map Job.ticket ∨ t ∈ w.answers.map Prod.fst) :
    t ∈ (w.turns n j).1.answers.map Prod.fst := by
  induction n generalizing w j with
  | zero =>
    have hp : w.queue.pending = [] := List.eq_nil_of_length_eq_zero (Nat.le_zero.mp hn)
    simpa [turns, hp] using ht
  | succ n ih =>
    cases hp : w.queue.pending with
    | nil => simpa [turns_of_nil hp, hp] using ht
    | cons job rest =>
      rw [turns_of_ran (turn_of_cons hp)]
      apply ih
      · simpa [hp] using hn
      · simp only [hp, List.map_cons, List.mem_cons] at ht
        simp only [List.map_append, List.mem_append, List.map_cons, List.map_nil,
          List.mem_singleton]
        rcases ht with (rfl | ht) | ht
        · exact .inr (.inr rfl)
        · exact .inl ht
        · exact .inr (.inl ht)

def serve (w : Worker π) (j : Journal) : Worker π × Journal := w.turns w.queue.size j

/-- Closes the queue and runs what is still in it; then the worker's thread ends. -/
def stop (w : Worker π) (j : Journal) : Worker π × Journal :=
  let (w, j) := w.close.serve j
  (w.ended, j.write .info "Source control worker stopped" .worker)

def enqueue (w : Worker π) (j : Journal) (command : Command) :
    Except DispatchError (Nat × Worker π) × Journal :=
  match w.submit command with
  | .ok r => (.ok r, j.count .recordDispatched)
  | .error e => (.error e, j.count .recordRejected)

/-- A command's output, once the worker has run it. -/
def result (w : Worker π) (ticket : Nat) (name : String) : Except DispatchError Output × Worker π :=
  match w.collect ticket with
  | (some out, w) => (.ok out, w)
  | (none, w) => (.error (.workerExited name), w)

omit [Provider π] in
theorem result_of_mem {w : Worker π} {ticket : Nat} {out : Output}
    (h : (ticket, out) ∈ w.answers) (name : String) :
    ∃ found, (ticket, found) ∈ w.answers ∧
      w.result ticket name =
        (.ok found, { w with answers := w.answers.filter (·.1 != ticket) }) := by
  cases hf : w.answers.find? (·.1 == ticket) with
  | none =>
    have := List.find?_eq_none.mp hf _ h
    simp at this
  | some entry =>
    obtain ⟨t, found⟩ := entry
    have ht : t = ticket := by simpa using List.find?_some hf
    subst ht
    exact ⟨found, List.mem_of_find?_eq_some hf, by simp [result, collect, hf]⟩

def dispatch (w : Worker π) (j : Journal) (command : Command) :
    Except DispatchError Output × Worker π × Journal :=
  match w.enqueue j command with
  | (.error e, j) => (.error e, w, j)
  | (.ok (ticket, w), j) =>
    let (w, j) := w.serve j
    let (r, w) := w.result ticket command.name
    (r, w, j)

def failed (j : Journal) (name : String) (e : DispatchError) : Journal :=
  j.write .error ("Could not run " ++ name ++ ": " ++ e.text)

def run (w : Worker π) (j : Journal) (command : Command) : Option Output × Worker π × Journal :=
  match w.dispatch j command with
  | (.ok out, w, j) => (some out, w, j)
  | (.error e, w, j) => (none, w, failed j command.name e)

end Worker

end SccDispatch
