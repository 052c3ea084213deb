import SccDispatch.Proofs.JobsInFlight

namespace SccDispatch

def Seen.leavesProject (s : Seen) (before : Option Project) : Option Project :=
  match s.call with
  | .openProject _ p _ _ => if s.fine then some p else before
  | .closeProject => none
  | _ => before

def lastOpened (seen : List Seen) : Option Project :=
  seen.foldl (fun o s => s.leavesProject o) none

@[simp]
theorem lastOpened_concat (seen : List Seen) (s : Seen) :
    lastOpened (seen ++ [s]) = s.leavesProject (lastOpened seen) := by simp [lastOpened]

/-- A project is opened only while none is open, and closed only while one is. -/
def Seen.Suits (s : Seen) (o : Option Project) : Prop :=
  match s.call with
  | .openProject .. => o = none
  | .closeProject => o.isSome = true
  | _ => True

theorem Command.Plain.seen {command : Command} (h : command.Plain) (on : Thread) (fine : Bool)
    (o : Option Project) :
    (⟨on, command.call, fine⟩ : Seen).leavesProject o = o ∧
      (⟨on, command.call, fine⟩ : Seen).Suits o := by
  cases command <;> first | exact absurd h id | exact ⟨rfl, trivial⟩

def Ran.seen (r : Ran) : Seen := ⟨r.on, r.command.call, r.out.succeeded⟩

/-- What a thread has to keep to. -/
inductive Hold
  | free
  /-- It has the lock of the open project; the provider has that one open. -/
  | held (o : Option Project)
  /-- It is about to let the provider go; is a project still open? -/
  | parting (isOpen : Bool)
  | stopped
  deriving DecidableEq

def lastCommands (isOpen : Bool) : List Command :=
  if isOpen then [.closeProject, .stop] else [.stop]

namespace Hold

def Sends : Hold → Command → Prop
  | free, command => command.Plain
  | held o, .openProject .. => o = none
  | held o, .closeProject => o.isSome = true
  | parting isOpen, command => command = if isOpen then .closeProject else .stop
  | _, _ => False

def after (h : Hold) (command : Command) (out : Output) : Hold :=
  match h with
  | free => free
  | held o => held ((⟨.worker, command.call, out.succeeded⟩ : Seen).leavesProject o)
  | parting isOpen => if isOpen then parting false else stopped
  | stopped => stopped

def Agrees : Hold → Option Project → Prop
  | held p, o => p = o
  | parting isOpen, o => o.isSome = isOpen
  | _, _ => True

def due : Hold → List Command
  | parting isOpen => lastCommands isOpen
  | _ => []

theorem Sends.not_start {h : Hold} {command : Command} (hs : h.Sends command) (window : Window)
    (caller : String) : command ≠ .start window caller := by
  rintro rfl
  cases h with
  | parting isOpen => cases isOpen <;> cases hs
  | _ => exact hs

theorem due_after {h : Hold} {isOpen : Bool} (hp : h = parting isOpen) {command : Command}
    (hs : h.Sends command) (out : Output) : command :: (h.after command out).due = h.due := by
  subst hp
  cases isOpen <;> cases hs <;> rfl

variable {h : Hold} {command : Command} {o : Option Project}

/-- What a thread may send suits the project that is open. -/
theorem Sends.suits (hs : h.Sends command) (ha : h.Agrees o) (on : Thread) (fine : Bool) :
    (⟨on, command.call, fine⟩ : Seen).Suits o := by
  cases h with
  | free => exact (Command.Plain.seen hs on fine o).2
  | held p =>
    cases ha
    cases command with
    | openProject => exact hs
    | closeProject => exact hs
    | _ => cases hs
  | parting isOpen =>
    cases isOpen with
    | true =>
      cases hs
      exact ha
    | false =>
      cases hs
      trivial
  | stopped => cases hs

theorem Agrees.after (ha : h.Agrees o) (hs : h.Sends command) (out : Output) :
    (h.after command out).Agrees
      ((⟨.worker, command.call, out.succeeded⟩ : Seen).leavesProject o) := by
  cases h with
  | free => trivial
  | held p =>
    cases ha
    rfl
  | parting isOpen =>
    cases isOpen with
    | true =>
      cases hs
      rfl
    | false => trivial
  | stopped => trivial

end Hold

/-- The routine sends only what it may, whatever comes of it. -/
def Routine.Keeps {π : Type} : {alone : Bool} → Routine π alone → Hold → Prop
  | _, .done _, .free => True
  | _, .done _, .stopped => True
  | _, .notice _ next, h => next.Keeps h
  | _, .ask command next, h =>
    h.Sends command ∧ ∀ out, (next (.ok out)).Keeps (h.after command out)
  | _, .query command next, .free => command.Plain ∧ ∀ out, (next out).Keeps .free
  | _, .select _ next, .free => next.Keeps .free
  | _, .lock next, .free => ∀ o, (next o).Keeps (.held o)
  | _, .unlock p next, .held o => p = o ∧ next.Keeps .free
  | _, .take next, .free => ∀ o, (next o).Keeps (.parting o.isSome)
  | _, .dismiss next, .stopped => next.Keeps .stopped
  | _, .retire _ next, .stopped => next.Keeps .stopped
  | _, _, _ => False

section Routines

variable {π : Type} {alone : Bool}

namespace Routine

variable {h : Hold}

theorem keeps_select {p : Project} {next : Routine π false} (hk : (select p next).Keeps h) :
    next.Keeps h := by
  cases h <;> first | exact hk | cases hk

theorem keeps_lock {next : Option Project → Routine π false} (hk : (lock next).Keeps h)
    (o : Option Project) : (next o).Keeps (.held o) := by
  cases h <;> first | exact hk o | cases hk

theorem keeps_unlock {p : Option Project} {next : Routine π false}
    (hk : (unlock p next).Keeps h) : next.Keeps .free := by
  cases h <;> first | exact hk.2 | cases hk

theorem not_keeps_employ {provider : π} {next : Routine π true} :
    ¬(employ provider next).Keeps h := by
  cases h <;> exact id

theorem not_keeps_seat {info : ProviderInfo} {window : Window} {concurrent : Bool}
    {next : Routine π true} : ¬(seat info window concurrent next).Keeps h := by
  cases h <;> exact id

end Routine

/-- A command may be run if it may be sent, and if what follows keeps to the hold after it. -/
theorem keeps_run {h : Hold} {command : Command} {next : Option Output → Routine π alone}
    (hs : h.Sends command) (hn : ∀ out, (next (some out)).Keeps (h.after command out)) :
    (Routine.run command next).Keeps h := ⟨hs, hn⟩

theorem keeps_stop : (Routine.stop : Routine π true).Keeps (.parting false) :=
  keeps_run rfl fun _ => trivial

/-- Letting go closes a project that is open and stops the provider, in this order. -/
theorem keeps_release : (Routine.release : Routine π true).Keeps .free := by
  have hr : (Routine.run .closeProject fun _ => .stop : Routine π true).Keeps (.parting true) :=
    keeps_run rfl fun _ => keeps_stop
  intro o
  cases o with
  | none => exact keeps_stop
  | some p => exact hr

theorem keeps_selectProject (window : Window) (initial : Project) :
    (Routine.selectProject window initial : Routine π false).Keeps .free := by
  refine keeps_run trivial fun out => ?_
  split <;> trivial

/-- A project is opened under its lock, when none is open. -/
theorem keeps_opening (window : Window) (p : Project) (comment : String) (flags : Int32) :
    (Routine.opening (.openProject window p comment flags) p : Routine π false).Keeps
      (.held none) := by
  refine keeps_run rfl fun out => ?_
  have ho : (Hold.held none).after (.openProject window p comment flags) out =
      .held (if out.succeeded then some p else none) := rfl
  rw [ho, Option.any_some]
  split <;> exact ⟨rfl, trivial⟩

theorem keeps_openProject (window : Window) (p : Project) (comment : String) (flags : Int32) :
    (Routine.openProject (.openProject window p comment flags) p : Routine π false).Keeps
      .free := by
  have ho := keeps_opening (π := π) window p comment flags
  intro o
  cases o with
  | none => exact ho
  | some q =>
    have hr : (Routine.run .closeProject fun _ =>
        .notice .closed (.opening (.openProject window p comment flags) p) :
        Routine π false).Keeps (.held (some q)) := keeps_run rfl fun _ => ho
    exact hr

theorem keeps_closeProject : (Routine.closeProject : Routine π false).Keeps .free := by
  intro o
  cases o with
  | none => exact ⟨rfl, trivial⟩
  | some p => exact ⟨rfl, fun _ => ⟨rfl, trivial⟩⟩

theorem keeps_settle (r : Request) (out : Option Output) :
    (Routine.settle r out : Routine π false).Keeps .free := by
  unfold Routine.settle
  split <;> trivial

theorem keeps_request (b : Binding π) (r : Request) : (Routine.request b r).Keeps .free := by
  have hp := plain_of_request r b.window
  unfold Routine.request
  split
  next => exact ⟨hp, fun out => keeps_settle r _⟩
  next => exact keeps_run hp fun out => keeps_settle r _

def Section.Bindless : Section π → Prop
  | .install .. => False
  | _ => True

/-- Every section keeps to what it has in hand. -/
theorem keeps_routine (d : Dispatcher π) {s : Section π} (hs : s.Bindless) :
    (s.routine d).Keeps .free := by
  cases s with
  | install => cases hs
  | release =>
    simp only [Section.routine]
    split
    next => trivial
    next => exact keeps_release
  | selectProject initial =>
    simp only [Section.routine]
    split
    next => trivial
    next => exact keeps_selectProject _ initial
  | openProject p =>
    simp only [Section.routine]
    split
    next => trivial
    next => exact keeps_openProject ..
  | closeProject =>
    simp only [Section.routine]
    split
    next => trivial
    next => exact keeps_closeProject
  | request r =>
    simp only [Section.routine]
    split
    next => trivial
    next => trivial
    next => exact keeps_request _ r

end Routines

def Rest.Stands {π : Type} {alone : Bool} (p : Post π) : Rest π alone → Hold → Prop
  | go r, h => r.Keeps h
  | await job next, h =>
    (job ∈ p.undone ∧ h.Sends job.command ∧
      ∀ out, (next (.ok out)).Keeps (h.after job.command out)) ∨
    ∃ out, (job.ticket, out) ∈ p.outs ∧ (next (.ok out)).Keeps h
  | query command next, h => h = .free ∧ command.Plain ∧ ∀ out, (next out).Keeps .free

namespace Rest

variable {π : Type} {alone : Bool} {p q : Post π} {r : Rest π alone} {h : Hold}

theorem stands_query {command : Command} {next : Output → Routine π false}
    (hk : (Routine.query command next).Keeps h) : (query command next).Stands p h := by
  cases h <;> first | exact ⟨rfl, hk⟩ | cases hk

/-- A thread stands as it did while its job and its output are there. -/
theorem Stands.mono (hr : r.Stands p h) (hu : ∀ job ∈ p.undone, job ∈ q.undone)
    (ho : ∀ o ∈ p.outs, o ∈ q.outs) : r.Stands q h := by
  cases r with
  | go r => exact hr
  | query command next => exact hr
  | await job next =>
    rcases hr with ⟨hm, hs, hn⟩ | ⟨out, hm, hn⟩
    · exact .inl ⟨hu job hm, hs, hn⟩
    · exact .inr ⟨out, ho _ hm, hn⟩

/-- The thread does not wait for the ticket that is dealt with. -/
theorem Stands.other {t : Nat} {todo : List Journal.Entry} (hr : r.Stands p h)
    (ha : ({ todo, rest := r } : Local π alone).awaits t = 0)
    (hu : ∀ job ∈ p.undone, job.ticket ≠ t → job ∈ q.undone)
    (ho : ∀ o ∈ p.outs, o.1 ≠ t → o ∈ q.outs) : r.Stands q h := by
  cases r with
  | go r => exact hr
  | query command next => exact hr
  | await job next =>
    have hne : job.ticket ≠ t := by
      rintro rfl
      simp at ha
    rcases hr with ⟨hm, hs, hn⟩ | ⟨out, hm, hn⟩
    · exact .inl ⟨hu job hm hne, hs, hn⟩
    · exact .inr ⟨out, ho _ hm hne, hn⟩

end Rest

namespace Post

variable {π : Type} {alone : Bool} {p q : Post π} {h : Hold} {job : Job}
  {next : Except DispatchError Output → Routine π alone}

/-- No ticket is both of a job that has been run and of one that has not. -/
theorem Sound.apart (hs : p.Sound) {t : Nat} {out : Output} (hu : t ∈ p.undone.map Job.ticket) :
    (t, out) ∉ p.outs := by
  intro ho
  obtain ⟨-, -, hd⟩ := List.nodup_append.mp hs.distinct
  exact hd t hu t (List.mem_map_of_mem ho) rfl

theorem Sound.job_unique (hs : p.Sound) {job' : Job} (hj : job ∈ p.undone)
    (hj' : job' ∈ p.undone) (ht : job'.ticket = job.ticket) : job' = job := by
  obtain ⟨hn, -, -⟩ := List.nodup_append.mp hs.distinct
  exact List.inj_on_of_nodup_map hn hj' hj ht

theorem Sound.out_unique (hs : p.Sound) {t : Nat} {o o' : Output} (ho : (t, o) ∈ p.outs)
    (ho' : (t, o') ∈ p.outs) : o = o' := by
  obtain ⟨-, hn, -⟩ := List.nodup_append.mp hs.distinct
  exact congrArg Prod.snd (List.inj_on_of_nodup_map hn ho ho' rfl)

/-- A thread whose command has been answered takes the output and goes on with it. -/
theorem Sound.collected (hs : p.Sound) (ha : job.ticket ∈ p.worker.answers.map Prod.fst)
    (hr : (Rest.await job next).Stands p h) (name : String) :
    (next (p.worker.result job.ticket name).1).Keeps h := by
  obtain ⟨⟨t, out⟩, hm, rfl⟩ := List.mem_map.mp ha
  obtain ⟨found, hf, hres⟩ := Worker.result_of_mem hm name
  have hin : (job.ticket, found) ∈ p.outs := List.mem_append_left _ hf
  rw [hres]
  rcases hr with ⟨hu, -, -⟩ | ⟨o, ho, hk⟩
  · exact absurd hin (hs.apart (List.mem_map_of_mem hu))
  · rwa [← hs.out_unique ho hin]

/-- The thread whose command is run has what it has to keep to change with it. -/
theorem Sound.stands_run (hs : p.Sound) {job' : Job} (hu : job ∈ p.undone)
    (ht : job'.ticket = job.ticket) (hr : (Rest.await job' next).Stands p h) {out : Output}
    (ho : (job.ticket, out) ∈ q.outs) :
    h.Sends job.command ∧ (Rest.await job' next).Stands q (h.after job.command out) := by
  rcases hr with ⟨hu', hsend, hk⟩ | ⟨o, ho', -⟩
  · cases hs.job_unique hu hu' ht
    exact ⟨hsend, .inr ⟨out, ho, hk out⟩⟩
  · exact absurd ho' (hs.apart (ht ▸ List.mem_map_of_mem hu))

/-- A worker runs the first job, or does nothing that a thread could see. -/
theorem Works.cases [Provider π] {es : List Journal.Entry} {ran : Option (Command × Output)}
    (h : p.Works q es ran) :
    (ran = none ∧ q.undone = p.undone ∧ q.outs = p.outs ∧
      q.worker.provider = p.worker.provider ∧ q.worker.queue.closed = p.worker.queue.closed) ∨
    ∃ job out, ran = some (job.command, out) ∧ p.undone = job :: q.undone ∧
      q.outs = p.outs ++ [(job.ticket, out)] ∧ q.worker.queue.closed = p.worker.queue.closed ∧
      execute p.worker.provider .worker p.worker.shares job.command =
        (out, q.worker.provider) := by
  cases h with
  | take idle first =>
    refine .inl ⟨rfl, ?_, ?_, rfl, rfl⟩ <;>
      simp [undone, outs, Duty.taken?, Duty.booked?, idle, first]
  | run taken ran =>
    refine .inr ⟨_, _, rfl, ?_, ?_, rfl, ran⟩ <;>
      simp [undone, outs, Duty.taken?, Duty.booked?, taken]
  | write owes =>
    refine .inl ⟨rfl, ?_, ?_, rfl, rfl⟩ <;> simp [undone, outs, Duty.taken?, Duty.booked?, owes]
  | answer done =>
    refine .inl ⟨rfl, ?_, ?_, rfl, rfl⟩ <;> simp [undone, outs, Duty.taken?, Duty.booked?, done]
  | leave idle drained closed =>
    refine .inl ⟨rfl, ?_, ?_, rfl, rfl⟩ <;> simp [undone, outs, Duty.taken?, Duty.booked?, idle]

end Post

end SccDispatch
