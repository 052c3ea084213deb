import SccDispatch.Proofs.StateAgreement
import SccDispatch.Proofs.IdleWorker
import SccDispatch.Proofs.SessionLifecycle

namespace SccDispatch

theorem toList_emit (s : Session) (es : List Event) :
    (s.emit es).events.sent.toList = s.events.sent.toList ++ es := by
  induction es generalizing s with
  | nil => simp [Session.emit]
  | cons e es ih =>
    have he : (s.emit (e :: es)) = (s.emit [e]).emit es := rfl
    rw [he, ih]
    simp [Session.emit, Channel.send]

theorem toList_update (s : Session) (f : SessionState → SessionState) :
    (s.update f).2.events.sent.toList =
      s.events.sent.toList ++ SessionState.changes s.state (f s.state) := toList_emit _ _

theorem changes_eq (s t : SessionState) :
    SessionState.changes s t =
      (if s.phase = t.phase then [] else [.phaseChanged s.phase t.phase]) ++
        (if s.provider = t.provider then []
          else match t.provider with
            | some name => [.providerBound name]
            | none => []) ++
        if s.project = t.project then []
          else match t.project with
            | some p => [.projectOpened p.name]
            | none => [.projectClosed] := rfl

/-- Nothing is told of the count of faults. -/
theorem changes_standing (s t : SessionState) :
    SessionState.changes s.standing t.standing = SessionState.changes s t := rfl

namespace Journal

def events (j : Journal) : List Event := j.session.events.sent.toList

def faults (j : Journal) : UInt64 := j.session.state.faults

theorem events_fault (j : Journal) (f : Fault) (thread : Thread) :
    (j.fault f thread).events = j.events ++ [.faulted f.operation f.message] := by
  have hc : SessionState.changes j.session.state
      { j.session.state with faults := j.session.state.faults + 1 } = [] := by simp [changes_eq]
  simp [fault, Session.recordFault, events, toList_emit, toList_update, write, count, hc]

/-- The events tell where the session stands. -/
def EventsFollow (j : Journal) : Prop :=
  Lifecycle j.events j.standing.phase j.standing.project.isSome

variable {j k : Journal} {name : String}

theorem eventsFollow_of_session (h : j.EventsFollow) (hk : k.session = j.session) :
    k.EventsFollow := by
  unfold EventsFollow events standing at h ⊢
  rwa [hk]

/-- An update tells its change, so it is enough that the change is one of those in a life. -/
theorem eventsFollow_of_update (f : SessionState → SessionState) {s t : SessionState}
    (hs : j.standing = s) (ht : k.standing = t) (hk : k.session = (j.session.update f).2)
    (h : Lifecycle (j.events ++ SessionState.changes s t) t.phase t.project.isSome) :
    k.EventsFollow := by
  have hf : k.standing = (f j.session.state).standing := by
    unfold standing
    rw [hk]
    rfl
  have he : k.events = j.events ++ SessionState.changes s t := by
    rw [events, hk, toList_update, ← changes_standing, ← hf, ht, ← hs]
    rfl
  unfold EventsFollow
  rwa [he, ht]

theorem EventsFollow.fault (h : j.EventsFollow) (f : Fault) (thread : Thread) :
    (j.fault f thread).EventsFollow := by
  unfold EventsFollow at h ⊢
  rw [events_fault, standing_fault]
  exact h.faulted f.operation f.message

theorem EventsFollow.load (h : j.EventsFollow) (hs : j.standing = {}) :
    (j.setPhase .loading).EventsFollow := by
  refine eventsFollow_of_update (fun s => { s with phase := .loading }) hs
    (by rw [standing_setPhase, hs]) rfl ?_
  rw [EventsFollow, hs] at h
  exact h.load

theorem EventsFollow.fail (h : j.EventsFollow) (hs : j.standing = { phase := .loading }) :
    j.reset.EventsFollow := by
  refine eventsFollow_of_update (·.cleared) hs j.standing_reset rfl ?_
  rw [EventsFollow, hs] at h
  exact h.fail

theorem EventsFollow.bind (h : j.EventsFollow) (hs : j.standing = { phase := .loading })
    (name : String) : (j.bound name).EventsFollow := by
  refine eventsFollow_of_update (·.bound name) hs (by rw [standing_bound, hs]) rfl ?_
  rw [EventsFollow, hs] at h
  simpa [changes_eq, SessionState.bound] using h.bind name

theorem EventsFollow.openProject (h : j.EventsFollow) (hs : j.standing = View.ready name none)
    (p : Project) : (j.opened p).EventsFollow := by
  refine eventsFollow_of_update (·.opened p) hs (by rw [standing_opened, hs]) rfl ?_
  rw [EventsFollow, hs] at h
  simpa [changes_eq, SessionState.opened, View.ready] using h.openProject p.name

theorem EventsFollow.closeProject {p : Project} (h : j.EventsFollow)
    (hs : j.standing = View.ready name (some p)) : j.closed.EventsFollow := by
  refine eventsFollow_of_update (·.closed) hs (by rw [standing_closed, hs]) rfl ?_
  rw [EventsFollow, hs] at h
  simpa [changes_eq, SessionState.closed, View.ready] using h.closeProject

theorem EventsFollow.release {project : Option Project} (h : j.EventsFollow)
    (hs : j.standing = View.ready name project) : (j.setPhase .unloading).EventsFollow := by
  refine eventsFollow_of_update (fun s => { s with phase := .unloading }) hs
    (by rw [standing_setPhase, hs]) rfl ?_
  rw [EventsFollow, hs] at h
  cases project with
  | none =>
    simpa [changes_eq, View.ready] using h.release
  | some p =>
    simpa [changes_eq, View.ready] using h.releaseOpen

theorem EventsFollow.unload {project : Option Project} (h : j.EventsFollow)
    (hs : j.standing = { View.ready name project with phase := .unloading }) :
    j.reset.EventsFollow := by
  refine eventsFollow_of_update (·.cleared) hs j.standing_reset rfl ?_
  rw [EventsFollow, hs] at h
  cases project with
  | none =>
    simpa [changes_eq, View.ready] using h.unload
  | some p =>
    simpa [changes_eq, View.ready] using h.unloadOpen

theorem EventsFollow.write (h : j.EventsFollow) (level : Level) (text : String) (thread : Thread) :
    (j.write level text thread).EventsFollow := eventsFollow_of_session h rfl

theorem EventsFollow.writePath (h : j.EventsFollow) (path : Option String) :
    (j.writePath path).EventsFollow := by
  cases path <;> exact eventsFollow_of_session h rfl

theorem EventsFollow.count (h : j.EventsFollow) (f : Metrics → Metrics) :
    (j.count f).EventsFollow :=
  eventsFollow_of_session h rfl

theorem EventsFollow.account (h : j.EventsFollow) (name : String) (elapsed : Duration)
    (out : Output) : (j.account name elapsed out).EventsFollow := by
  cases out with
  | faulted f => exact (h.count _).fault f .worker
  | _ =>
    unfold Journal.account
    simp only
    split <;> exact eventsFollow_of_session h rfl

theorem EventsFollow.queried (h : j.EventsFollow) (out : Output) :
    (j.queried out).EventsFollow := by
  cases out with
  | faulted f => exact (h.count _).fault f .caller
  | _ => exact h.count _

theorem EventsFollow.summarize (h : j.EventsFollow) : j.summarize.EventsFollow :=
  eventsFollow_of_session h rfl

end Journal

theorem Worker.eventsFollow_noted {π : Type} [Provider π] {w : Worker π} {j : Journal}
    (h : j.EventsFollow) (command : Command) : (w.noted j command).EventsFollow :=
  (h.count _).account _ _ _

theorem Worker.standing_noted {π : Type} [Provider π] (w : Worker π) (j : Journal)
    (command : Command) : (w.noted j command).standing = j.standing := by simp [noted]

namespace Dispatcher

variable {π : Type} [Provider π] {d : Dispatcher π} {b : Binding π} {last : Option String}

/-- A command tells nothing but its fault. -/
theorem eventsFollow_run (h : d.journal.EventsFollow) (hi : d.Idle) (command : Window → Command) :
    (d.run command).2.journal.EventsFollow := by
  cases hb : d.binding with
  | none => simpa [run, hb] using h
  | some b =>
    rw [run_of_idle hi hb]
    exact Worker.eventsFollow_noted h _

theorem eventsFollow_selectProject (h : d.journal.EventsFollow) (hi : d.Idle) (initial : Project) :
    (d.selectProject initial).2.journal.EventsFollow := by
  have hr := eventsFollow_run h hi (.selectProject · initial true)
  rw [selectProject_eq]
  simp only
  split
  next => exact hr.write _ _ _
  next => exact hr

omit [Provider π] in
theorem eventsFollow_settle (h : d.journal.EventsFollow) (r : Request) (out : Option Output) :
    (d.settle r out).2.journal.EventsFollow := by
  unfold settle
  split
  next => exact h.write _ _ _
  next => exact h

theorem eventsFollow_request (h : d.journal.EventsFollow) (hi : d.Idle) (r : Request) :
    (d.request r).2.journal.EventsFollow := by
  cases hr : r.idle? with
  | some reply => rwa [request_of_noFiles hi hr]
  | none =>
    cases hb : d.binding with
    | none => rwa [request_of_unbound hr hb]
    | some b =>
      cases hq : r.isQuery && b.concurrent with
      | true =>
        rw [request_of_direct hi hr hb hq]
        refine eventsFollow_settle ?_ r _
        rw [queryDirectly_eq]
        exact h.queried _
      | false =>
        rw [request_of_queued hi hr hb hq]
        exact eventsFollow_settle (Worker.eventsFollow_noted h _) r _

omit [Provider π] in
/-- The session of a dispatcher that agrees with it. -/
theorem standing_of_sound (h : d.view.Sound last) (hb : d.isBound = true) :
    ∃ name, d.journal.standing = View.ready name d.project := by
  rcases h with h | ⟨name, -, -, hs⟩
  · have hn : d.isBound = false := congrArg View.bound h
    rw [hb] at hn
    cases hn
  · exact ⟨name, hs⟩

theorem eventsFollow_dropProject (h : d.journal.EventsFollow) (hi : d.Idle) (hs : d.view.Sound last)
    (hb : d.isBound = true) (hp : d.project.isSome = true) :
    d.dropProject.2.journal.EventsFollow := by
  obtain ⟨name, hr⟩ := standing_of_sound hs hb
  obtain ⟨p, hp⟩ := Option.isSome_iff_exists.mp hp
  have hv := congrArg View.standing (d.view_run fun _ => .closeProject)
  have hj : (d.run fun _ => .closeProject).2.journal.standing = View.ready name (some p) := by
    rw [← hp, ← hr]
    exact hv
  exact (eventsFollow_run h hi fun _ => .closeProject).closeProject hj

theorem eventsFollow_vacated (h : d.journal.EventsFollow) (hi : d.Idle) (hs : d.view.Sound last)
    (hb : d.isBound = true) : d.vacated.journal.EventsFollow := by
  unfold vacated
  split
  next hp => exact eventsFollow_dropProject h hi hs hb hp
  next => exact h

theorem eventsFollow_openProject (h : d.journal.EventsFollow) (hi : d.Idle) (hs : d.view.Sound last)
    (p : Project) : (d.openProject p).2.journal.EventsFollow := by
  cases hb : d.isBound with
  | false => rwa [openProject_of_unbound d hb]
  | true =>
    obtain ⟨hd, hbound, hp⟩ := View.sound_dropped hs
    rw [← view_vacated] at hd hbound hp
    obtain ⟨name, hr⟩ := standing_of_sound hd (hbound.trans hb)
    have hp : d.vacated.project = none := hp
    have hv := congrArg View.standing (d.vacated.view_run (d.vacated.openCommand p))
    have hj : (d.vacated.run (d.vacated.openCommand p)).2.journal.standing =
        View.ready name none := by
      rw [← hp, ← hr]
      exact hv
    have ht := eventsFollow_run (eventsFollow_vacated h hi hs hb) (idle_vacated hi)
      (d.vacated.openCommand p)
    rw [openProject_of_bound d hb]
    simp only
    split
    next => exact (ht.write .info _ .caller).openProject (show _ = View.ready name none from hj) p
    next => exact ht

theorem eventsFollow_closeProject (h : d.journal.EventsFollow) (hi : d.Idle)
    (hs : d.view.Sound last) : d.closeProject.2.journal.EventsFollow := by
  cases hb : d.isBound with
  | false => rwa [closeProject_of_unbound d hb]
  | true =>
    rw [closeProject_of_bound d hb]
    split
    next hp => exact eventsFollow_dropProject h hi hs hb hp
    next => exact h

/-- Letting the provider go ends one life, and the next may begin. -/
theorem eventsFollow_shutdown (h : d.journal.EventsFollow) (hi : d.Idle) (hs : d.view.Sound last) :
    d.shutdown.journal.EventsFollow := by
  cases hb : d.binding with
  | none => rwa [shutdown_of_unbound d hb]
  | some b =>
    obtain ⟨name, hr⟩ := standing_of_sound hs (by simp [isBound, hb])
    have hrel : ((d.journal.write .info "Shutting down source control provider").setPhase
        .unloading).EventsFollow := (h.write ..).release hr
    have hpart : (d.parting b).2.EventsFollow ∧
        (d.parting b).2.standing = { View.ready name d.project with phase := .unloading } := by
      unfold parting
      split
      next => exact ⟨Worker.eventsFollow_noted hrel _, by rw [Worker.standing_noted, ← hr]; rfl⟩
      next => exact ⟨hrel, by rw [← hr]; rfl⟩
    have hstop := (Worker.eventsFollow_noted (w := (d.parting b).1) hpart.1 .stop).write .info
      "Source control worker stopped" .worker
    have hj := (Worker.standing_noted (d.parting b).1 (d.parting b).2 .stop).trans hpart.2
    rw [shutdown_of_bound hi hb]
    exact (hstop.unload hj).summarize

omit [Provider π] in
theorem eventsFollow_displaced {j : Journal} (h : j.EventsFollow) :
    (d.displaced j).EventsFollow := by
  unfold displaced
  split
  next => exact h.write ..
  next => exact h

theorem eventsFollow_start (h : d.journal.EventsFollow)
    (hs : d.journal.standing = { phase := .loading }) (name : String) (p : π) (window : Window) :
    (d.start name p window).2.journal.EventsFollow := by
  have ht : (d.started p window).EventsFollow := Worker.eventsFollow_noted (h.write ..) _
  have hj : (d.started p window).standing = { phase := .loading } :=
    (Worker.standing_noted ..).trans hs
  rw [start_eq]
  simp only
  split
  next => exact eventsFollow_displaced ((ht.write ..).bind hj name)
  next =>
    have hw := (idle_newWorker (d := d) p).ran (.start window d.options.caller)
    simp only [abandon, Worker.stop_of_idle hw]
    exact ((ht.write ..).write ..).fail hj

/-- A bind begins a life, or fails and leaves the session as it was at the start. -/
theorem eventsFollow_bind (h : d.journal.EventsFollow) (hs : d.journal.standing = {})
    (name : String) (loader : Loader π) (window : Window) :
    (d.bind name loader window).2.journal.EventsFollow := by
  have hl : (d.loading name loader.path).journal.EventsFollow :=
    ((h.write ..).load hs).writePath loader.path
  have hj : (d.loading name loader.path).journal.standing = { phase := .loading } := by
    have hv := congrArg View.standing (d.view_loading name loader.path)
    simpa [view, hs] using hv
  rw [bind_eq]
  split
  next => exact eventsFollow_start hl hj _ _ _
  next => exact (hl.write ..).fail hj
  next => exact ((hl.write ..).write ..).fail hj

theorem eventsFollow_rebind (h : d.journal.EventsFollow) (hi : d.Idle) (hs : d.view.Sound last)
    (name : String) (loader : Loader π) (window : Window) :
    (d.rebind name loader window).2.journal.EventsFollow := by
  have hv := congrArg View.standing (d.view_shutdown.trans (View.sound_released hs))
  exact eventsFollow_bind (eventsFollow_shutdown h hi hs) hv name loader window

/-- Every call goes on with the life that the events tell. -/
theorem eventsFollow_perform (h : d.journal.EventsFollow) (hi : d.Idle) (hs : d.view.Sound last)
    (op : Operation π) : (d.perform op).2.journal.EventsFollow := by
  cases op with
  | bind name loader window => exact eventsFollow_rebind h hi hs name loader window
  | bindIndex registry load index window =>
    simp only [perform, rebindIndex]
    split
    next => exact eventsFollow_rebind h hi hs _ _ _
    next => exact h.write ..
  | bindName registry load name window =>
    simp only [perform, rebindName]
    split
    next => exact eventsFollow_rebind h hi hs _ _ _
    next => exact h.write ..
  | shutdown => exact eventsFollow_shutdown h hi hs
  | selectProject initial => exact eventsFollow_selectProject h hi initial
  | openProject p => exact eventsFollow_openProject h hi hs p
  | closeProject => exact eventsFollow_closeProject h hi hs
  | request r => exact eventsFollow_request h hi r

/-- Calls made one after another leave the worker idle. -/
theorem idle_performAll (h : d.Idle) (calls : List (Operation π)) :
    (d.performAll calls).2.Idle := by
  induction calls using List.reverseRecOn with
  | nil => exact h
  | append_singleton calls op ih =>
    rw [performAll_append]
    exact idle_perform ih op

/-- After any calls the events tell a life from its beginning. -/
theorem eventsFollow_performAll (options : Options) (calls : List (Operation π)) :
    (({ options } : Dispatcher π).performAll calls).2.journal.EventsFollow := by
  induction calls using List.reverseRecOn with
  | nil => exact .start
  | append_singleton calls op ih =>
    rw [performAll_append]
    exact eventsFollow_perform ih (idle_performAll (idle_of_unbound rfl) calls)
      (sound_performAll options calls) op

/-- However the calls went, each event of the session has come when it was due, and what an event
calls for has followed it. -/
theorem events_follow_life (options : Options) (calls : List (Operation π)) :
    let es := (({ options } : Dispatcher π).performAll calls).2.journal.events
    (∀ before e after, es = before ++ e :: after → e.Due before) ∧
      es.getLast? ≠ some (.phaseChanged .loading .ready) :=
  ⟨(eventsFollow_performAll options calls).due, (eventsFollow_performAll options calls).getLast?_ne⟩

end Dispatcher

end SccDispatch
