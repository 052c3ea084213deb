import SccDispatch.Proofs.Operations

namespace SccDispatch

namespace Output

def started? : Output → Option (ProviderInfo × Bool)
  | initialized info concurrent => if info.code.isOk then some (info, concurrent) else none
  | _ => none

end Output

/-- Only a start gives the caller a handle. -/
theorem concurrent_execute {π : Type} [Provider π] (p : π) (on : Thread) (shares : Bool)
    {command : Command} (h : ∀ window caller, command ≠ .start window caller) :
    (execute p on shares command).1.concurrent = false := by
  have ha (call : Call) (name : String) (read : call.Answer → Output)
      (hr : ∀ a, (read a).concurrent = false) :
      (Output.ofOutcome name (ask p on call read).1).concurrent = false := by
    unfold ask
    cases (respond p on call).1 with
    | error cause => rfl
    | ok a => exact hr a
  cases command with
  | start window caller => exact absurd rfl (h window caller)
  | _ => exact ha _ _ _ fun a => rfl

namespace Worker

variable {π : Type}

/-- The queue is open and empty, and every output was collected. -/
structure Idle (w : Worker π) : Prop where
  queue : w.queue = .empty
  answers : w.answers = []

variable [Provider π] {w : Worker π}

def outputOf (w : Worker π) (command : Command) : Output :=
  (execute w.provider .worker w.shares command).1

def ran (w : Worker π) (command : Command) : Worker π :=
  { w with
    provider := (execute w.provider .worker w.shares command).2
    handles := w.handles.after (w.outputOf command)
    issued := w.issued + 1 }

def noted (w : Worker π) (j : Journal) (command : Command) : Journal :=
  (j.count .recordDispatched).account command.name
    (elapsed w.provider (w.ran command).provider) (w.outputOf command)

/-- Only a start clones a handle. -/
theorem handles_ran (w : Worker π) {command : Command}
    (h : ∀ window caller, command ≠ .start window caller) :
    (w.ran command).handles = w.handles := by
  have hc := concurrent_execute w.provider .worker w.shares h
  simp [Worker.ran, outputOf, Handles.after, hc]

theorem Idle.ran (h : w.Idle) (command : Command) : (w.ran command).Idle := ⟨h.queue, h.answers⟩

def given (w : Worker π) (command : Command) : Worker π :=
  { w with queue := { pending := [⟨w.issued, command⟩] }, issued := w.issued + 1 }

def served (w : Worker π) (command : Command) : Worker π :=
  { w.ran command with answers := [(w.issued, w.outputOf command)] }

omit [Provider π] in
theorem submit_of_idle (h : w.Idle) (command : Command) :
    w.submit command = .ok (w.issued, w.given command) := by
  have hq : w.queue.closed = false := by rw [h.queue]; rfl
  rw [submit_of_open hq, h.queue]
  rfl

theorem serve_given (h : w.Idle) (j : Journal) (command : Command) :
    (w.given command).serve j =
      (w.served command,
        j.account command.name (elapsed w.provider (w.ran command).provider)
          (w.outputOf command)) := by
  have ht : (w.given command).turn =
      .ran ⟨w.issued, command⟩ (w.outputOf command) (w.served command) := by
    rw [turn_of_cons rfl]
    simp only [given, served, Worker.ran, h.answers, h.queue]
    rfl
  exact turns_of_ran ht 0 j

theorem result_served (h : w.Idle) (command : Command) (name : String) :
    (w.served command).result w.issued name = (.ok (w.outputOf command), w.ran command) := by
  have ha := h.answers
  simp [result, collect, served, Worker.ran, ha]

/-- An idle worker runs a dispatched command at once, and its output is collected. -/
theorem dispatch_of_idle (h : w.Idle) (j : Journal) (command : Command) :
    w.dispatch j command = (.ok (w.outputOf command), w.ran command, w.noted j command) := by
  simp only [dispatch, enqueue, submit_of_idle h, serve_given h, result_served h]
  rfl

theorem run_of_idle (h : w.Idle) (j : Journal) (command : Command) :
    w.run j command = (some (w.outputOf command), w.ran command, w.noted j command) := by
  simp [run, dispatch_of_idle h]

/-- Stopping an idle worker runs nothing. -/
theorem stop_of_idle (h : w.Idle) (j : Journal) :
    w.stop j = (w.close.ended, j.write .info "Source control worker stopped" .worker) := by
  have hq : w.close.queue.pending = [] := by simp [close, Queue.close, h.queue, Queue.empty]
  simp [stop, serve, turns_of_nil hq]

end Worker

theorem Worker.Idle.kept {π : Type} {w : Worker π} (h : w.Idle) : w.kept.Idle :=
  ⟨h.queue, h.answers⟩

theorem Worker.Idle.withdrawn {π : Type} {b : Binding π} (h : b.worker.Idle) : b.withdrawn.Idle :=
  ⟨h.queue, h.answers⟩

namespace Dispatcher

variable {π : Type} {d : Dispatcher π} {b : Binding π}

def Idle (d : Dispatcher π) : Prop := ∀ b, d.binding = some b → b.worker.Idle

theorem idle_of_unbound (h : d.binding = none) : d.Idle := fun b hb => by simp [h] at hb

theorem idle_of_bound (h : d.binding = some b) (hi : b.worker.Idle) : d.Idle :=
  fun c hc => by
    obtain rfl : b = c := by simpa [h] using hc
    exact hi

theorem Idle.of_binding {e : Dispatcher π} (h : d.Idle) (he : e.binding = d.binding) : e.Idle :=
  fun b hb => h b (he ▸ hb)

variable [Provider π]

def ran (d : Dispatcher π) (b : Binding π) (command : Command) : Dispatcher π :=
  { d with
    binding := some { b with worker := b.worker.ran command }
    journal := b.worker.noted d.journal command }

theorem run_of_idle (h : d.Idle) (hb : d.binding = some b) (command : Window → Command) :
    d.run command =
      (some (b.worker.outputOf (command b.window)), d.ran b (command b.window)) := by
  simp [run, hb, Worker.run_of_idle (h b hb), ran]

theorem idle_ran (h : d.Idle) (hb : d.binding = some b) (command : Command) :
    (d.ran b command).Idle := idle_of_bound rfl ((h b hb).ran command)

theorem idle_run (h : d.Idle) (command : Window → Command) : (d.run command).2.Idle := by
  cases hb : d.binding with
  | none => simpa [run, hb] using h
  | some b =>
    rw [run_of_idle h hb]
    exact idle_ran h hb _

theorem serve_of_idle (h : d.Idle) : d.serve = d := by
  unfold serve
  split
  next => rfl
  next b hb =>
    have hp : b.worker.queue.pending = [] := by rw [(h b hb).queue]; rfl
    obtain ⟨options, binding, project, selected, journal, retired⟩ := d
    subst hb
    simp [Worker.serve, Worker.turns_of_nil hp]

omit [Provider π] in
theorem idle_settle (h : d.Idle) (r : Request) (out : Option Output) : (d.settle r out).2.Idle := by
  unfold settle
  split <;> exact h

theorem idle_queryDirectly (h : d.Idle) (hb : d.binding = some b) (command : Command) :
    (d.queryDirectly b command).2.Idle :=
  idle_of_bound rfl ⟨(h b hb).queue, (h b hb).answers⟩

/-- A request about no files is answered without a command. -/
theorem request_of_noFiles {r : Request} {reply : Reply} (h : d.Idle) (hr : r.idle? = some reply) :
    d.request r = (reply, d) := by
  simp [request, begin, hr, finish, serve_of_idle h]

theorem request_of_unbound {r : Request} (hr : r.idle? = none) (hb : d.binding = none) :
    d.request r = (r.reply none, d) := by
  simp [request, begin, hr, hb, finish, serve]

/-- A query on the calling thread, when the provider is bound for it. -/
theorem request_of_direct {r : Request} (h : d.Idle) (hr : r.idle? = none)
    (hb : d.binding = some b) (hq : (r.isQuery && b.concurrent) = true) :
    d.request r =
      (d.queryDirectly b (r.command b.window)).2.settle r
        (some (d.queryDirectly b (r.command b.window)).1) := by
  have hi := idle_settle (idle_queryDirectly h hb (r.command b.window)) r
    (some (d.queryDirectly b (r.command b.window)).1)
  simp [request, begin, hr, hb, hq, finish, serve_of_idle hi]

/-- Every other request goes through the queue. -/
theorem request_of_queued {r : Request} (h : d.Idle) (hr : r.idle? = none)
    (hb : d.binding = some b) (hq : (r.isQuery && b.concurrent) = false) :
    d.request r =
      (d.ran b (r.command b.window)).settle r
        (some (b.worker.outputOf (r.command b.window))) := by
  have hw := h b hb
  simp only [request, begin, hr, hb, hq, Worker.enqueue, Worker.submit_of_idle hw]
  simp [serve, Worker.serve_given hw, finish, takeResult, Worker.result_served hw, ran,
    Worker.noted]

theorem idle_request (h : d.Idle) (r : Request) : (d.request r).2.Idle := by
  cases hr : r.idle? with
  | some reply => rwa [request_of_noFiles h hr]
  | none =>
    cases hb : d.binding with
    | none => rwa [request_of_unbound hr hb]
    | some b =>
      cases hq : r.isQuery && b.concurrent with
      | true =>
        rw [request_of_direct h hr hb hq]
        exact idle_settle (idle_queryDirectly h hb _) _ _
      | false =>
        rw [request_of_queued h hr hb hq]
        exact idle_settle (idle_ran h hb _) _ _

def newWorker (d : Dispatcher π) (p : π) : Worker π :=
  { provider := p, shares := d.options.concurrentQueries }

omit [Provider π] in
theorem idle_newWorker (p : π) : (d.newWorker p).Idle := ⟨rfl, rfl⟩

def started (d : Dispatcher π) (p : π) (window : Window) : Journal :=
  (d.newWorker p).noted (d.journal.write .info "Source control worker started" .worker)
    (.start window d.options.caller)

theorem start_eq (name : String) (p : π) (window : Window) :
    d.start name p window =
      let out := (d.newWorker p).outputOf (.start window d.options.caller)
      let worker := (d.newWorker p).ran (.start window d.options.caller)
      match out.started? with
      | some (info, concurrent) =>
        d.attach name { worker := worker.kept, info, window, concurrent } (d.started p window)
      | none => d.abandon name out.resultCode.text worker (d.started p window) := by
  have hd := Worker.dispatch_of_idle (idle_newWorker (d := d) p)
    (d.journal.write .info "Source control worker started" .worker) (.start window d.options.caller)
  simp only [start]
  rw [← newWorker, hd]
  generalize (d.newWorker p).outputOf (.start window d.options.caller) = out
  cases out with
  | initialized info concurrent =>
    simp only [Output.started?]
    cases info.code.isOk <;> rfl
  | _ => rfl

theorem idle_start (h : d.Idle) (name : String) (p : π) (window : Window) :
    (d.start name p window).2.Idle := by
  rw [start_eq]
  simp only
  split
  next => exact idle_of_bound rfl ((idle_newWorker p).ran (.start window d.options.caller)).kept
  next => exact h

theorem idle_bind (h : d.Idle) (name : String) (loader : Loader π) (window : Window) :
    (d.bind name loader window).2.Idle := by
  have hl : (d.loading name loader.path).Idle := h
  rw [bind_eq]
  split
  next => exact idle_start hl _ _ _
  next => exact h
  next => exact h

/-- The worker and the journal when the open project, if there is one, was closed for good. -/
def parting (d : Dispatcher π) (b : Binding π) : Worker π × Journal :=
  let j := (d.journal.write .info "Shutting down source control provider").setPhase .unloading
  if d.project.isSome then (b.withdrawn.ran .closeProject, b.withdrawn.noted j .closeProject)
  else (b.withdrawn, j)

theorem idle_parting (h : d.Idle) (hb : d.binding = some b) : (d.parting b).1.Idle := by
  unfold parting
  split
  next => exact (h b hb).withdrawn.ran _
  next => exact (h b hb).withdrawn

/-- How a bound provider is let go of, all at once. -/
theorem shutdown_of_bound (h : d.Idle) (hb : d.binding = some b) :
    d.shutdown =
      { d with
        binding := none
        project := none
        selected := none
        journal :=
          (((d.parting b).1.noted (d.parting b).2 .stop).write .info
            "Source control worker stopped" .worker).reset.summarize
        retired := d.retired ++ [.of ((d.parting b).1.ran .stop).ended .binding] } := by
  have hp : (d.parting b).1.Idle := idle_parting h hb
  have hw := (h b hb).withdrawn
  unfold shutdown
  simp only [hb]
  unfold parting at hp ⊢
  split
  next hs =>
    simp only [hs, if_true] at hp
    simp only [Worker.run_of_idle hw, Worker.run_of_idle hp, Worker.stop_of_idle (hp.ran _)]
    rfl
  next hs =>
    simp only [Worker.run_of_idle hw, Worker.stop_of_idle (hw.ran _)]
    rfl

theorem idle_rebind (name : String) (loader : Loader π) (window : Window) :
    (d.rebind name loader window).2.Idle := idle_bind (idle_of_unbound d.binding_shutdown) _ _ _

theorem idle_selectProject (h : d.Idle) (initial : Project) :
    (d.selectProject initial).2.Idle := by
  have hr := idle_run h (.selectProject · initial true)
  rw [selectProject_eq]
  simp only
  split
  next => exact hr.of_binding rfl
  next => exact hr

theorem idle_dropProject (h : d.Idle) : d.dropProject.2.Idle :=
  (idle_run h fun _ => .closeProject).of_binding rfl

theorem idle_vacated (h : d.Idle) : d.vacated.Idle := by
  unfold vacated
  split
  next => exact idle_dropProject h
  next => exact h

theorem idle_openProject (h : d.Idle) (p : Project) : (d.openProject p).2.Idle := by
  have hr := idle_run (idle_vacated h) (d.vacated.openCommand p)
  cases hb : d.isBound with
  | false => rwa [openProject_of_unbound d hb]
  | true =>
    rw [openProject_of_bound d hb]
    simp only
    split
    next => exact hr.of_binding rfl
    next => exact hr

theorem idle_closeProject (h : d.Idle) : d.closeProject.2.Idle := by
  cases hb : d.isBound with
  | false => rwa [closeProject_of_unbound d hb]
  | true =>
    rw [closeProject_of_bound d hb]
    split
    next => exact idle_dropProject h
    next => exact h

/-- Calls made one at a time leave the worker idle. -/
theorem idle_perform (h : d.Idle) (op : Operation π) : (d.perform op).2.Idle := by
  cases op with
  | bind name loader window => exact idle_rebind name loader window
  | bindIndex registry load index window =>
    simp only [perform, rebindIndex]
    split
    next => exact idle_rebind _ _ _
    next => exact h
  | bindName registry load name window =>
    simp only [perform, rebindName]
    split
    next => exact idle_rebind _ _ _
    next => exact h
  | shutdown => exact idle_of_unbound d.binding_shutdown
  | selectProject initial => exact idle_selectProject h initial
  | openProject p => exact idle_openProject h p
  | closeProject => exact idle_closeProject h
  | request r => exact idle_request h r

end Dispatcher

end SccDispatch
