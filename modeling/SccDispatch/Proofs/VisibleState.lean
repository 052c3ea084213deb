import SccDispatch.Proofs.Operations

namespace SccDispatch

def SessionState.standing (s : SessionState) : SessionState := { s with faults := 0 }

namespace Journal

def standing (j : Journal) : SessionState := j.session.state.standing

variable (j : Journal)

@[simp]
theorem standing_write (level : Level) (text : String) (thread : Thread) :
    (j.write level text thread).standing = j.standing := rfl

@[simp]
theorem standing_count (f : Metrics → Metrics) : (j.count f).standing = j.standing := rfl

@[simp]
theorem standing_fault (f : Fault) (thread : Thread) : (j.fault f thread).standing = j.standing :=
  rfl

@[simp]
theorem standing_writePath (path : Option String) : (j.writePath path).standing = j.standing := by
  cases path <;> rfl

@[simp]
theorem standing_account (name : String) (elapsed : Duration) (out : Output) :
    (j.account name elapsed out).standing = j.standing := by
  cases out with
  | faulted f => rfl
  | _ => simp only [account]; split <;> rfl

@[simp]
theorem standing_summarize : j.summarize.standing = j.standing := rfl

@[simp]
theorem standing_setPhase (phase : Phase) :
    (j.setPhase phase).standing = { j.standing with phase } := rfl

@[simp]
theorem standing_bound (name : String) : (j.bound name).standing = j.standing.bound name := rfl

@[simp]
theorem standing_opened (p : Project) : (j.opened p).standing = j.standing.opened p := rfl

@[simp]
theorem standing_closed : j.closed.standing = j.standing.closed := rfl

@[simp]
theorem standing_reset : j.reset.standing = {} := rfl

end Journal

namespace Worker

variable {π : Type} [Provider π] (w : Worker π) (j : Journal)

@[simp]
theorem standing_turns (n : Nat) : (w.turns n j).2.standing = j.standing := by
  induction n generalizing w j with
  | zero => rfl
  | succ n ih =>
    unfold turns
    split
    next => rw [ih, Journal.standing_account]
    next => rfl
    next => rfl

@[simp]
theorem standing_serve : (w.serve j).2.standing = j.standing := standing_turns w j _

omit [Provider π] in
@[simp]
theorem standing_failed (name : String) (e : DispatchError) :
    (failed j name e).standing = j.standing := rfl

omit [Provider π] in
@[simp]
theorem standing_enqueue (command : Command) : (w.enqueue j command).2.standing = j.standing := by
  unfold enqueue
  split <;> rfl

@[simp]
theorem standing_dispatch (command : Command) :
    (w.dispatch j command).2.2.standing = j.standing := by
  have he := standing_enqueue w j command
  unfold dispatch
  split
  next h => rwa [h] at he
  next h => rw [h] at he; simpa using he

@[simp]
theorem standing_run (command : Command) : (w.run j command).2.2.standing = j.standing := by
  have hd := standing_dispatch w j command
  unfold run
  split
  next h => rwa [h] at hd
  next h => rw [h] at hd; simpa using hd

end Worker

structure View where
  bound : Bool := false
  project : Option Project := none
  selected : Option Project := none
  standing : SessionState := {}
  deriving DecidableEq, Repr

namespace View

def released (v : View) : View := if v.bound then {} else v

def rebound (v : View) (name : String) (success : Bool) : View :=
  if success then { v with bound := true, standing := v.standing.bound name }
  else { v with standing := {} }

/-- Where the session stood does not matter when a provider is bound. -/
theorem rebound_of_phase (v : View) (phase : Phase) (name : String) (success : Bool) :
    { v with standing := { v.standing with phase } }.rebound name success =
      v.rebound name success := by cases success <;> rfl

def dropped (v : View) : View :=
  if v.project.isSome then { v with project := none, standing := v.standing.closed } else v

def opened (v : View) (p : Project) (success : Bool) : View :=
  if success then { v with project := some p, standing := v.standing.opened p } else v

def chosen (v : View) (choice : Option Project) : View :=
  if choice.isSome then { v with selected := choice } else v

end View

namespace Dispatcher

variable {π : Type}

def view (d : Dispatcher π) : View := ⟨d.isBound, d.project, d.selected, d.journal.standing⟩

variable [Provider π] (d : Dispatcher π)

omit [Provider π] in
@[simp]
theorem view_write (level : Level) (text : String) : (d.write level text).view = d.view := rfl

@[simp]
theorem view_run (command : Window → Command) : (d.run command).2.view = d.view := by
  unfold run
  split
  next => rfl
  next b h => simp [view, isBound, h]

theorem view_shutdown : d.shutdown.view = d.view.released := by
  unfold shutdown
  split
  next h => simp [view, isBound, h, View.released]
  next b h => simp [view, isBound, h, View.released]

omit [Provider π] in
theorem view_refuse (name : String) (e : BindError) :
    (d.refuse name e).2.view = d.view.rebound name false := rfl

theorem view_abandon (name reason : String) (w : Worker π) (j : Journal) :
    (d.abandon name reason w j).2.view = d.view.rebound name false := rfl

omit [Provider π] in
@[simp]
theorem standing_displaced (j : Journal) : (d.displaced j).standing = j.standing := by
  unfold displaced
  split <;> simp

omit [Provider π] in
theorem view_attach (name : String) (b : Binding π) {j : Journal}
    (hj : j.standing = d.journal.standing) :
    (d.attach name b j).2.view = d.view.rebound name true := by
  simp [view, attach, isBound, View.rebound, hj]

theorem view_start (name : String) (p : π) (window : Window) :
    (d.start name p window).2.view = d.view.rebound name (d.start name p window).1 := by
  have hd := Worker.standing_dispatch
    ({ provider := p, shares := d.options.concurrentQueries } : Worker π)
    (d.journal.write .info "Source control worker started" .worker)
    (.start window d.options.caller)
  unfold start
  simp only
  split
  next h =>
    rw [h] at hd
    split
    next => exact d.view_attach name _ hd
    next => exact d.view_abandon ..
  next => exact d.view_abandon ..
  next => exact d.view_abandon ..

omit [Provider π] in
theorem view_loading (name : String) (path : Option String) :
    (d.loading name path).view =
      { d.view with standing := { d.view.standing with phase := .loading } } := by
  simp [view, isBound, loading]

theorem view_bind (name : String) (loader : Loader π) (window : Window) :
    (d.bind name loader window).2.view = d.view.rebound name (d.bind name loader window).1 := by
  rw [bind_eq]
  split
  next => rw [view_start, view_loading, View.rebound_of_phase]
  next =>
    rw [view_refuse, view_loading, View.rebound_of_phase]
    rfl
  next =>
    rw [view_refuse]
    exact View.rebound_of_phase d.view .loading name false

theorem view_rebind (name : String) (loader : Loader π) (window : Window) :
    (d.rebind name loader window).2.view =
      d.view.released.rebound name (d.rebind name loader window).1 := by
  rw [rebind, view_bind, view_shutdown]

theorem view_selectProject (initial : Project) :
    (d.selectProject initial).2.view = d.view.chosen (d.selectProject initial).1 := by
  have hr := d.view_run (.selectProject · initial true)
  rw [selectProject_eq, ← hr]
  simp only
  split
  next => rfl
  next => rfl

theorem view_dropProject (h : d.project.isSome) : d.dropProject.2.view = d.view.dropped := by
  have hr := d.view_run fun _ => .closeProject
  simp only [view, View.mk.injEq] at hr
  obtain ⟨hb, -, hs, hj⟩ := hr
  simp only [isBound] at hb
  simp only [dropProject, view, View.dropped, h, if_true, isBound, View.mk.injEq, true_and]
  exact ⟨hb, hs, by rw [Journal.standing_closed, hj]⟩

theorem view_vacated : d.vacated.view = d.view.dropped := by
  unfold vacated
  split
  next h => exact d.view_dropProject h
  next h => simp [View.dropped, view, h]

theorem view_openProject (p : Project) (h : d.isBound = true) :
    (d.openProject p).2.view = d.view.dropped.opened p (d.openProject p).1 := by
  have hr := d.vacated.view_run (d.vacated.openCommand p)
  rw [openProject_of_bound d h, ← view_vacated, ← hr]
  simp only
  split
  next => rfl
  next => rfl

theorem view_closeProject (h : d.isBound = true) : d.closeProject.2.view = d.view.dropped := by
  rw [closeProject_of_bound d h]
  split
  next h => exact d.view_dropProject h
  next h => simp [View.dropped, view, h]

omit [Provider π] in
theorem view_settle (r : Request) (out : Option Output) : (d.settle r out).2.view = d.view := by
  unfold settle
  split <;> rfl

theorem view_queryDirectly {b : Binding π} (h : d.binding = some b) (command : Command) :
    (d.queryDirectly b command).2.view = d.view := by
  unfold queryDirectly
  simp only [view, isBound, h, View.mk.injEq]
  split <;> simp

theorem view_begin (r : Request) : (d.begin r).2.view = d.view := by
  unfold begin
  split
  next => rfl
  next => rfl
  next b _ hb =>
    simp only
    split
    next => rw [view_settle, view_queryDirectly d hb]
    next =>
      have he := Worker.standing_enqueue b.worker d.journal (r.command b.window)
      split
      next h => rw [h] at he; simpa [view, isBound, hb] using he
      next h => rw [h] at he; rw [view_settle]; simpa [view, isBound, hb] using he

theorem view_serve : d.serve.view = d.view := by
  unfold serve
  split
  next => rfl
  next b h => simp [view, isBound, h]

omit [Provider π] in
theorem view_takeResult (ticket : Nat) (name : String) :
    (d.takeResult ticket name).2.view = d.view := by
  unfold takeResult
  split
  next => rfl
  next b h => split <;> simp [view, isBound, h]

omit [Provider π] in
theorem view_finish (r : Request) (begun : Begun) : (d.finish r begun).2.view = d.view := by
  cases begun with
  | answered reply => rfl
  | queued ticket => rw [finish, view_settle, view_takeResult]

/-- Requests change nothing that callers see. -/
theorem view_request (r : Request) : (d.request r).2.view = d.view := by
  rw [request, view_finish, view_serve, view_begin]

end Dispatcher

end SccDispatch
