import SccDispatch.Proofs.JournalEntries
import SccDispatch.Proofs.Sections

namespace SccDispatch

/-- What is left of a section; a thread may need to have the lock of the binding alone for it. -/
inductive Routine (π : Type) : (alone : Bool) → Type
  | done {alone : Bool} (answer : Answer) : Routine π alone
  | notice {alone : Bool} (n : Journal.Notice) (next : Routine π alone) : Routine π alone
  /-- Dispatches a command and waits for its output. -/
  | ask {alone : Bool} (command : Command)
      (next : Except DispatchError Output → Routine π alone) : Routine π alone
  | query (command : Command) (next : Output → Routine π false) : Routine π false
  | select (p : Project) (next : Routine π false) : Routine π false
  | lock (next : Option Project → Routine π false) : Routine π false
  | unlock (project : Option Project) (next : Routine π false) : Routine π false
  | take (next : Option Project → Routine π true) : Routine π true
  /-- Gives a provider that was loaded to a new worker. -/
  | employ (provider : π) (next : Routine π true) : Routine π true
  | seat (info : ProviderInfo) (window : Window) (concurrent : Bool) (next : Routine π true) :
      Routine π true
  | dismiss (next : Routine π true) : Routine π true
  /-- Waits until that worker is gone; then the thread drops its own handle to the provider. -/
  | retire (own : Holder) (next : Routine π true) : Routine π true

namespace Routine

variable {π : Type} {alone : Bool}

def write (level : Level) (text : String) (next : Routine π alone) : Routine π alone :=
  .notice (.line level text .caller) next

def run (command : Command) (next : Option Output → Routine π alone) : Routine π alone :=
  .ask command fun
    | .ok out => next (some out)
    | .error e =>
      .write .error ("Could not run " ++ command.name ++ ": " ++ e.text) (next none)

def stop : Routine π true :=
  .run .stop fun _ =>
    .dismiss (.retire .binding (.notice .reset (.notice .summary (.done .released))))

def release : Routine π true :=
  .take fun project =>
    .write .info "Shutting down source control provider" <|
      .notice (.phase .unloading) <|
        if project.isSome then .run .closeProject fun _ => stop else stop

def refuse (name : String) (e : BindError) : Routine π true :=
  .write .error ("Failed to bind source control provider " ++ name ++ ": " ++ e.text) <|
    .notice .reset (.done (.bound false))

def abandon (name reason : String) : Routine π true :=
  .write .error ("Source control provider " ++ name ++ " failed to initialize: " ++ reason) <|
    .dismiss (.retire .output (.notice .reset (.done (.bound false))))

def attach (name : String) (info : ProviderInfo) (window : Window) (concurrent : Bool) :
    Routine π true :=
  .write .info
    ("Source control provider " ++ name ++ " ready (" ++ info.name ++ "; caps " ++
      info.capabilities.text ++ "; concurrent status queries: " ++ boolText concurrent ++ ")") <|
    .notice (.bound name) (.seat info window concurrent (.done (.bound true)))

def start (name caller : String) (window : Window) : Routine π true :=
  .ask (.start window caller) fun
    | .ok (.initialized info concurrent) =>
      if info.code.isOk then attach name info window concurrent
      else abandon name info.code.text
    | .ok out => abandon name out.resultCode.text
    | .error e => abandon name e.text

def writePath (path : Option String) (next : Routine π alone) : Routine π alone :=
  match path with
  | some path =>
    .notice (.line .info ("Loading source control provider module " ++ path) .worker) next
  | none => next

def install (d : Dispatcher π) (name : String) (loader : Loader π) (window : Window) :
    Routine π true :=
  .write .info ("Initializing source control provider " ++ name) <|
    .notice (.phase .loading) <|
      .writePath loader.path <|
        match loader.load d.lastRetired with
        | .ok (.ok provider) =>
          .employ provider <|
            .notice (.line .info "Source control worker started" .worker) <|
              start name d.options.caller window
        | .ok (.error e) => refuse name e
        | .error cause =>
          let f := Fault.of "load" cause
          .notice (.line .error f.text .worker) (refuse name (.fault f))

def selectProject (window : Window) (initial : Project) : Routine π false :=
  .run (.selectProject window initial true) fun out =>
    match out.bind Output.choice? with
    | some choice =>
      .write .info
        ("Selected project " ++ choice.project.name ++ " (new: " ++ boolText choice.isNew ++ ")") <|
        .select choice.project (.done (.chosen (some choice.project)))
    | none => .done (.chosen none)

def opening (command : Command) (p : Project) : Routine π false :=
  .run command fun out =>
    if out.any Output.succeeded then
      .write .info ("Opened source control project " ++ p.name) <|
        .notice (.opened p) (.unlock (some p) (.done (.opened true)))
    else .unlock none (.done (.opened false))

def openProject (command : Command) (p : Project) : Routine π false :=
  .lock fun project =>
    if project.isSome then .run .closeProject fun _ => .notice .closed (opening command p)
    else opening command p

def closeProject : Routine π false :=
  .lock fun project =>
    if project.isSome then
      .run .closeProject fun out =>
        .notice .closed (.unlock none (.done (.closed (out.any Output.succeeded))))
    else .unlock none (.done (.closed true))

def settle (r : Request) (out : Option Output) : Routine π false :=
  match r.warning? out with
  | some text => .write .warn text (.done (.replied (r.reply out)))
  | none => .done (.replied (r.reply out))

def request (b : Binding π) (r : Request) : Routine π false :=
  if r.isQuery && b.concurrent then .query (r.command b.window) fun out => settle r (some out)
  else .run (r.command b.window) (settle r)

end Routine

namespace Section

variable {π : Type}

/-- The thread needs to have the lock of the binding alone. -/
def alone : Section π → Bool
  | release | install .. => true
  | _ => false

def routine (d : Dispatcher π) : (s : Section π) → Routine π s.alone
  | .release =>
    match d.binding with
    | none => .done .released
    | some _ => .release
  | .install name loader window => .install d name loader window
  | .selectProject initial =>
    match d.binding with
    | none => .done (.chosen none)
    | some b => .selectProject b.window initial
  | .openProject p =>
    match d.binding with
    | none => .done (.opened false)
    | some b => .openProject (d.openCommand p b.window) p
  | .closeProject =>
    match d.binding with
    | none => .done (.closed false)
    | some _ => .closeProject
  | .request r =>
    match r.idle?, d.binding with
    | some reply, _ => .done (.replied reply)
    | none, none => .done (.replied (r.reply none))
    | none, some b => .request b r

end Section

/-- A dispatcher while one thread is in a section: the lock of the open project, and the worker that
the thread has. -/
structure SectionState (π : Type) where
  dispatcher : Dispatcher π
  locked : Bool := false
  hand : Option (Worker π) := none

def Dispatcher.post {π : Type} (d : Dispatcher π) (n : Journal.Notice) : Dispatcher π :=
  { d with journal := d.journal.post n }

/-- Binds a provider. One that is still bound is let go of as it is. -/
def Dispatcher.seat {π : Type} (d : Dispatcher π) (b : Binding π) : Dispatcher π :=
  { d with
    binding := some b
    journal := d.displaced d.journal
    retired := d.retired ++ (d.binding.map Binding.dropped).toList }

namespace SectionState

variable {π : Type}

def worker (x : SectionState π) (alone : Bool) : Option (Worker π) :=
  if alone then x.hand else x.dispatcher.binding.map Binding.worker

def withWorker (x : SectionState π) (alone : Bool) (w : Worker π) (j : Journal) : SectionState π :=
  if alone then { x with dispatcher := { x.dispatcher with journal := j }, hand := some w }
  else
    { x with
      dispatcher :=
        { x.dispatcher with
          binding := x.dispatcher.binding.map fun b => { b with worker := w }
          journal := j } }

end SectionState

variable {π : Type} [Provider π]

/-- Goes through a routine; there is no result if the thread would have to wait for ever. -/
def Routine.walk : {alone : Bool} → Routine π alone → SectionState π →
    Option (Answer × Dispatcher π)
  | _, .done answer, x =>
    match x.locked, x.hand with
    | false, none => some (answer, x.dispatcher)
    | _, _ => none
  | _, .notice n next, x => next.walk { x with dispatcher := x.dispatcher.post n }
  | alone, .ask command next, x =>
    match x.worker alone with
    | some w =>
      let (r, w, j) := w.dispatch x.dispatcher.journal command
      (next r).walk (x.withWorker alone w j)
    | none => none
  | _, .query command next, x =>
    match x.dispatcher.binding with
    | some b =>
      let (out, d) := x.dispatcher.queryDirectly b command
      (next out).walk { x with dispatcher := d }
    | none => none
  | _, .select p next, x =>
    next.walk { x with dispatcher := { x.dispatcher with selected := some p } }
  | _, .lock next, x =>
    match x.locked with
    | false =>
      (next x.dispatcher.project).walk
        { x with dispatcher := { x.dispatcher with project := none }, locked := true }
    | true => none
  | _, .unlock project next, x =>
    match x.locked with
    | true => next.walk { x with dispatcher := { x.dispatcher with project }, locked := false }
    | false => none
  | _, .take next, x =>
    match x.dispatcher.binding, x.hand with
    | some b, none =>
      (next x.dispatcher.project).walk
        { x with
          dispatcher := { x.dispatcher with binding := none, project := none, selected := none }
          hand := some b.withdrawn }
    | _, _ => none
  | _, .employ provider next, x =>
    match x.hand with
    | none => next.walk { x with hand := some (x.dispatcher.newWorker provider) }
    | some _ => none
  | _, .seat info window concurrent next, x =>
    match x.hand with
    | some worker =>
      if worker.queue.closed then none
      else
        next.walk
          { x with
            dispatcher := x.dispatcher.seat { worker := worker.kept, info, window, concurrent }
            hand := none }
    | none => none
  | _, .dismiss next, x =>
    match x.hand with
    | some w => next.walk { x with hand := some w.close }
    | none => none
  | _, .retire own next, x =>
    match x.hand with
    | some w =>
      if w.queue.closed then
        let (w, j) := w.serve x.dispatcher.journal
        next.walk
          { x with
            dispatcher :=
              { x.dispatcher with
                journal := j.write .info "Source control worker stopped" .worker
                retired := x.dispatcher.retired ++ [.of w.ended own] }
            hand := none }
      else none
    | none => none

def Dispatcher.pass (d : Dispatcher π) : Section π → Answer × Dispatcher π
  | .release => (.released, d.shutdown)
  | .install name loader window => (d.bind name loader window).map .bound id
  | .selectProject initial => (d.selectProject initial).map .chosen id
  | .openProject p => (d.openProject p).map .opened id
  | .closeProject => d.closeProject.map .closed id
  | .request r => (d.request r).map .replied id

section Walk

variable {d : Dispatcher π} {b : Binding π} {alone : Bool}

@[simp]
theorem walk_write (level : Level) (text : String) (next : Routine π alone) (x : SectionState π) :
    (next.write level text).walk x =
      next.walk { x with dispatcher := x.dispatcher.post (.line level text .caller) } := rfl

/-- An idle worker runs the command and answers. -/
theorem walk_ask {x : SectionState π} {w : Worker π} (hw : x.worker alone = some w) (hi : w.Idle)
    (command : Command) (next : Except DispatchError Output → Routine π alone) :
    (Routine.ask command next).walk x =
      (next (.ok (w.outputOf command))).walk
        (x.withWorker alone (w.ran command) (w.noted x.dispatcher.journal command)) := by
  rw [Routine.walk, hw]
  simp only [Worker.dispatch_of_idle hi]

/-- An idle worker runs the command, and the routine goes on with its output. -/
theorem walk_run {x : SectionState π} {w : Worker π} (hw : x.worker alone = some w) (hi : w.Idle)
    (command : Command) (next : Option Output → Routine π alone) :
    (Routine.run command next).walk x =
      (next (some (w.outputOf command))).walk
        (x.withWorker alone (w.ran command) (w.noted x.dispatcher.journal command)) :=
  walk_ask hw hi command _

theorem walk_run_of_bound {locked : Bool} (h : d.Idle) (hb : d.binding = some b)
    (command : Command) (next : Option Output → Routine π false) :
    (Routine.run command next).walk { dispatcher := d, locked } =
      (next (some (b.worker.outputOf command))).walk
        { dispatcher := d.ran b command, locked } := by
  have hw : ({ dispatcher := d, locked } : SectionState π).worker false = some b.worker := by
    simp [SectionState.worker, hb]
  rw [walk_run hw (h b hb)]
  simp [SectionState.withWorker, hb, Dispatcher.ran]

/-- An idle worker leaves as soon as its queue is closed. -/
theorem walk_dismiss {x : SectionState π} {w : Worker π} (hw : x.hand = some w) (hi : w.Idle)
    (own : Holder) (next : Routine π true) :
    (Routine.dismiss (.retire own next)).walk x =
      next.walk
        { x with
          dispatcher :=
            { x.dispatcher with
              journal :=
                x.dispatcher.journal.write .info "Source control worker stopped" .worker
              retired := x.dispatcher.retired ++ [.of w.ended own] }
          hand := none } := by
  have hq : w.close.queue.pending = [] := by simp [Worker.close, Queue.close, hi.queue, Queue.empty]
  have hs : w.close.serve x.dispatcher.journal = (w.close, x.dispatcher.journal) :=
    Worker.turns_of_nil hq _ _
  have hc : w.close.queue.closed = true := rfl
  simp only [Routine.walk, hw, hs, hc, if_true]
  rfl

/-- Stopping the provider of the worker that the thread has. -/
theorem walk_stop {x : SectionState π} {w : Worker π} (hl : x.locked = false) (hw : x.hand = some w)
    (hi : w.Idle) :
    (Routine.stop : Routine π true).walk x =
      some (.released,
        { x.dispatcher with
          journal :=
            ((w.noted x.dispatcher.journal .stop).write .info "Source control worker stopped"
              .worker).reset.summarize
          retired := x.dispatcher.retired ++ [.of (w.ran .stop).ended .binding] }) := by
  rw [Routine.stop, walk_run (show x.worker true = some w from hw) hi,
    walk_dismiss rfl (hi.ran .stop)]
  simp only [Routine.walk, SectionState.withWorker, if_true, hl]
  rfl

/-- Going through a release is a shutdown. -/
theorem walk_release (h : d.Idle) (hb : d.binding = some b) :
    (Routine.release : Routine π true).walk { dispatcher := d } = some (.released, d.shutdown) := by
  have hi := h b hb
  rw [Dispatcher.shutdown_of_bound h hb]
  simp only [Routine.release, Routine.walk, walk_write, hb, Dispatcher.parting]
  split
  next hp =>
    rw [walk_run (show SectionState.worker _ true = some b.withdrawn from rfl) hi.withdrawn,
      walk_stop rfl rfl (hi.withdrawn.ran .closeProject)]
    rfl
  next hp =>
    rw [walk_stop rfl rfl hi.withdrawn]
    rfl

theorem walk_refuse (name : String) (e : BindError) :
    (Routine.refuse name e : Routine π true).walk { dispatcher := d } =
      some ((d.refuse name e).map .bound id) := rfl

theorem walk_abandon {w : Worker π} (hi : w.Idle) (name reason : String) :
    (Routine.abandon name reason).walk { dispatcher := d, hand := some w } =
      some ((d.abandon name reason w d.journal).map .bound id) := by
  rw [Routine.abandon, walk_write, walk_dismiss rfl hi, Dispatcher.abandon, Worker.stop_of_idle hi]
  rfl

theorem walk_start (p : π) (name : String) (window : Window) :
    (Routine.start name d.options.caller window).walk
        { dispatcher := d.post (.line .info "Source control worker started" .worker)
          hand := some (d.newWorker p) } =
      some ((d.start name p window).map .bound id) := by
  have hi := Dispatcher.idle_newWorker (d := d) p
  rw [Routine.start, walk_ask (show SectionState.worker _ true = some (d.newWorker p) from rfl) hi,
    Dispatcher.start_eq]
  generalize (d.newWorker p).outputOf (.start window d.options.caller) = out
  have hr := hi.ran (.start window d.options.caller)
  cases out with
  | initialized info concurrent =>
    simp only [Output.started?]
    split
    next => rfl
    next => exact walk_abandon hr name info.code.text
  | _ => exact walk_abandon hr name _

theorem walk_writePath (path : Option String) (next : Routine π alone) (x : SectionState π) :
    (Routine.writePath path next).walk x =
      next.walk
        { x with
          dispatcher := { x.dispatcher with journal := x.dispatcher.journal.writePath path } } := by
  cases path <;> rfl

/-- Going through an install is a bind. -/
theorem walk_install (name : String) (loader : Loader π) (window : Window) :
    (Routine.install d name loader window).walk { dispatcher := d } =
      some ((d.bind name loader window).map .bound id) := by
  have hs := walk_start (d := d.loading name loader.path)
  rw [Routine.install, walk_write, Routine.walk, walk_writePath, Dispatcher.bind_eq]
  generalize loader.load d.lastRetired = r
  rcases r with cause | e | p
  · exact walk_refuse name _
  · exact walk_refuse name e
  · exact hs p name window

theorem walk_selectProject (h : d.Idle) (hb : d.binding = some b) (initial : Project) :
    (Routine.selectProject b.window initial).walk { dispatcher := d } =
      some ((d.selectProject initial).map .chosen id) := by
  rw [Routine.selectProject, walk_run_of_bound h hb, Dispatcher.selectProject_eq,
    Dispatcher.run_of_idle h hb]
  simp only [Option.bind_some]
  cases (b.worker.outputOf (.selectProject b.window initial true)).choice? <;> rfl

omit [Provider π] in
theorem with_project (hp : d.project = none) : { d with project := none } = d := by
  rw [← hp]

theorem walk_opening (h : d.Idle) (hb : d.binding = some b) (hp : d.project = none) (p : Project) :
    (Routine.opening (d.openCommand p b.window) p).walk { dispatcher := d, locked := true } =
      some ((d.opening p).map .opened id) := by
  have hn : (d.ran b (d.openCommand p b.window)).project = none := hp
  rw [Routine.opening, walk_run_of_bound h hb, Dispatcher.opening, Dispatcher.run_of_idle h hb]
  simp only [Option.any_some]
  split
  next => rfl
  next =>
    simp only [Routine.walk, with_project hn]
    rfl

theorem walk_openProject (h : d.Idle) (hb : d.binding = some b) (p : Project) :
    (Routine.openProject (d.openCommand p b.window) p).walk { dispatcher := d } =
      some ((d.openProject p).map .opened id) := by
  have hv := Dispatcher.idle_vacated h
  rw [Dispatcher.openProject_eq_opening d (by simp [Dispatcher.isBound, hb])]
  simp only [Routine.openProject, Routine.walk]
  unfold Dispatcher.vacated at hv ⊢
  cases hp : d.project with
  | none => exact with_project hp ▸ walk_opening h hb hp p
  | some old =>
    -- The project is taken from behind its lock before it is closed, and not afterwards.
    have hd : d.dropProject.2 = ({ d with project := none }.ran b .closeProject).post .closed := by
      rw [Dispatcher.dropProject, Dispatcher.run_of_idle h hb]
      rfl
    have hc : ({ d with project := none } : Dispatcher π).Idle := h
    simp only [hp, Option.isSome_some, if_true] at hv ⊢
    rw [walk_run_of_bound hc hb]
    rw [hd] at hv ⊢
    exact walk_opening hv rfl rfl p

theorem walk_closeProject (h : d.Idle) (hb : d.binding = some b) :
    (Routine.closeProject : Routine π false).walk { dispatcher := d } =
      some (d.closeProject.map .closed id) := by
  have hc : ({ d with project := none } : Dispatcher π).Idle := h
  rw [Dispatcher.closeProject_of_bound d (by simp [Dispatcher.isBound, hb])]
  simp only [Routine.closeProject, Routine.walk]
  split
  next hp =>
    rw [walk_run_of_bound hc hb, Dispatcher.dropProject, Dispatcher.run_of_idle h hb]
    rfl
  next hp =>
    have hn : d.project = none := by simpa using hp
    simp only [Routine.walk, with_project hn]
    rfl

theorem walk_settle (r : Request) (out : Option Output) :
    (Routine.settle r out : Routine π false).walk { dispatcher := d } =
      some ((d.settle r out).map .replied id) := by
  unfold Routine.settle Dispatcher.settle
  cases r.warning? out <;> rfl

theorem walk_request (h : d.Idle) (hb : d.binding = some b) {r : Request} (hr : r.idle? = none) :
    (Routine.request b r).walk { dispatcher := d } = some ((d.request r).map .replied id) := by
  unfold Routine.request
  split
  next hq =>
    rw [Dispatcher.request_of_direct h hr hb hq]
    simp only [Routine.walk, hb]
    exact walk_settle r _
  next hq =>
    rw [Dispatcher.request_of_queued h hr hb (Bool.eq_false_iff.mpr hq), walk_run_of_bound h hb]
    exact walk_settle r _

/-- A section that nobody disturbs does what the functions of the dispatcher do. -/
theorem walk_routine (h : d.Idle) (s : Section π) :
    (s.routine d).walk { dispatcher := d } = some (d.pass s) := by
  cases s with
  | release =>
    simp only [Section.routine]
    split
    next hb =>
      rw [Dispatcher.pass, Dispatcher.shutdown_of_unbound d hb]
      rfl
    next b hb => exact walk_release h hb
  | install name loader window => exact walk_install name loader window
  | selectProject initial =>
    simp only [Section.routine]
    split
    next hb =>
      simp only [Dispatcher.pass, Dispatcher.selectProject, Dispatcher.run, hb]
      rfl
    next b hb => exact walk_selectProject h hb initial
  | openProject p =>
    simp only [Section.routine]
    split
    next hb =>
      rw [Dispatcher.pass, Dispatcher.openProject_of_unbound d (by simp [Dispatcher.isBound, hb])]
      rfl
    next b hb => exact walk_openProject h hb p
  | closeProject =>
    simp only [Section.routine]
    split
    next hb =>
      rw [Dispatcher.pass, Dispatcher.closeProject_of_unbound d (by simp [Dispatcher.isBound, hb])]
      rfl
    next b hb => exact walk_closeProject h hb
  | request r =>
    simp only [Section.routine]
    split
    next hr =>
      rw [Dispatcher.pass, Dispatcher.request_of_noFiles h hr]
      rfl
    next hr hb =>
      rw [Dispatcher.pass, Dispatcher.request_of_unbound hr hb]
      rfl
    next b hr hb => exact walk_request h hb hr

end Walk

end SccDispatch
