import SccDispatch.Proofs.Sessions
import SccDispatch.Proofs.EventHistory

namespace SccDispatch

namespace Metrics

/-- What was counted in two stretches of time. -/
instance : Add Metrics where
  add m n :=
    { dispatched := m.dispatched + n.dispatched
      completed := m.completed + n.completed
      faulted := m.faulted + n.faulted
      rejected := m.rejected + n.rejected
      providerErrors := m.providerErrors + n.providerErrors
      directQueries := m.directQueries + n.directQueries
      providerMicros := m.providerMicros + n.providerMicros }

variable (m n : Metrics)

theorem add_def :
    m + n =
      { dispatched := m.dispatched + n.dispatched
        completed := m.completed + n.completed
        faulted := m.faulted + n.faulted
        rejected := m.rejected + n.rejected
        providerErrors := m.providerErrors + n.providerErrors
        directQueries := m.directQueries + n.directQueries
        providerMicros := m.providerMicros + n.providerMicros } := rfl

theorem add_empty : m + {} = m := by simp [add_def]

def Counts (f : Metrics → Metrics) : Prop := ∀ m n : Metrics, f (m + n) = m + f n

theorem counts_recordDispatched : Counts recordDispatched := fun m n => by
  simp [add_def, recordDispatched, UInt64.add_assoc]

theorem counts_recordCompleted (elapsed : Duration) : Counts (·.recordCompleted elapsed) :=
  fun m n => by simp [add_def, recordCompleted, countCompleted, addTime, UInt64.add_assoc]

theorem counts_recordFault : Counts recordFault := fun m n => by
  simp [add_def, recordFault, UInt64.add_assoc]

theorem counts_recordProviderError : Counts recordProviderError := fun m n => by
  simp [add_def, recordProviderError, UInt64.add_assoc]

theorem counts_recordDirectQuery : Counts recordDirectQuery := fun m n => by
  simp [add_def, recordDirectQuery, UInt64.add_assoc]

end Metrics

namespace Journal

/-- What is in `j` is what was in `past`, and then what is in `k`. -/
structure Continues (past j k : Journal) : Prop where
  standing : j.standing = k.standing
  faults : j.faults = past.faults + k.faults
  metrics : j.metrics = past.metrics + k.metrics
  events : j.events = past.events ++ k.events

variable {past j k : Journal}

/-- A dispatcher that is where it began continues any past. -/
theorem continues_start (h : past.standing = {}) : Continues past past {} :=
  ⟨h, (UInt64.add_zero _).symm, (Metrics.add_empty _).symm, (List.append_nil _).symm⟩

theorem Continues.of_same (h : Continues past j k) {j' k' : Journal}
    (hj : j'.session = j.session) (hk : k'.session = k.session) (hm : j'.metrics = j.metrics)
    (hn : k'.metrics = k.metrics) : Continues past j' k' := by
  obtain ⟨hs, hf, hc, he⟩ := h
  refine ⟨?_, ?_, by rw [hm, hn, hc], ?_⟩
  · simpa only [Journal.standing, hj, hk] using hs
  · simpa only [Journal.faults, hj, hk] using hf
  · simpa only [Journal.events, hj, hk] using he

theorem Continues.write (h : Continues past j k) (level : Level) (text : String)
    (thread : Thread) : Continues past (j.write level text thread) (k.write level text thread) :=
  h.of_same rfl rfl rfl rfl

theorem Continues.writePath (h : Continues past j k) (path : Option String) :
    Continues past (j.writePath path) (k.writePath path) := by
  cases path <;> exact h.of_same rfl rfl rfl rfl

theorem Continues.summarize (h : Continues past j k) : Continues past j.summarize k.summarize :=
  h.of_same rfl rfl rfl rfl

theorem Continues.count (h : Continues past j k) {f : Metrics → Metrics} (hf : Metrics.Counts f) :
    Continues past (j.count f) (k.count f) :=
  ⟨h.standing, h.faults, (congrArg f h.metrics).trans (hf _ _), h.events⟩

/-- A change of the session that has nothing to do with its count of faults. -/
theorem Continues.update (h : Continues past j k) (f : SessionState → SessionState)
    (hf : ∀ s, (f s).standing = (f s.standing).standing) (hn : ∀ s, (f s).faults = s.faults) :
    Continues past { j with session := (j.session.update f).2 }
      { k with session := (k.session.update f).2 } := by
  have hs : (f j.session.state).standing = (f k.session.state).standing := by
    rw [hf, hf k.session.state]
    exact congrArg (fun s => (f s).standing) h.standing
  refine ⟨hs, ?_, h.metrics, ?_⟩
  · exact (hn _).trans (h.faults.trans (congrArg (_ + ·) (hn _).symm))
  · have hc : SessionState.changes j.session.state (f j.session.state) =
        SessionState.changes k.session.state (f k.session.state) := by
      rw [← changes_standing, hs, ← changes_standing k.session.state]
      exact congrArg (SessionState.changes · _) h.standing
    simp only [Journal.events, toList_update, hc, ← List.append_assoc]
    exact congrArg (· ++ _) h.events

theorem Continues.setPhase (h : Continues past j k) (phase : Phase) :
    Continues past (j.setPhase phase) (k.setPhase phase) :=
  h.update (fun s => { s with phase }) (fun _ => rfl) fun _ => rfl

theorem Continues.bound (h : Continues past j k) (name : String) :
    Continues past (j.bound name) (k.bound name) :=
  h.update (·.bound name) (fun _ => rfl) fun _ => rfl

theorem Continues.opened (h : Continues past j k) (p : Project) :
    Continues past (j.opened p) (k.opened p) :=
  h.update (·.opened p) (fun _ => rfl) fun _ => rfl

theorem Continues.closed (h : Continues past j k) : Continues past j.closed k.closed :=
  h.update (·.closed) (fun _ => rfl) fun _ => rfl

theorem Continues.reset (h : Continues past j k) : Continues past j.reset k.reset :=
  h.update (·.cleared) (fun _ => rfl) fun _ => rfl

theorem Continues.fault (h : Continues past j k) (f : Fault) (thread : Thread) :
    Continues past (j.fault f thread) (k.fault f thread) where
  standing := h.standing
  faults := (congrArg (· + 1) h.faults).trans (UInt64.add_assoc _ _ _)
  metrics := (congrArg Metrics.recordFault h.metrics).trans (Metrics.counts_recordFault _ _)
  events := by rw [events_fault, events_fault, h.events, List.append_assoc]

theorem Continues.account (h : Continues past j k) (name : String) (elapsed : Duration)
    (out : Output) :
    Continues past (j.account name elapsed out) (k.account name elapsed out) := by
  have hc := h.count (Metrics.counts_recordCompleted elapsed)
  cases out with
  | faulted f => exact hc.fault f .worker
  | _ =>
    unfold Journal.account
    simp only
    split
    next => exact (hc.count Metrics.counts_recordProviderError).write ..
    next => exact hc

theorem Continues.queried (h : Continues past j k) (out : Output) :
    Continues past (j.queried out) (k.queried out) := by
  have hc := h.count Metrics.counts_recordDirectQuery
  cases out with
  | faulted f => exact hc.fault f .caller
  | _ => exact hc

theorem Continues.noted {π : Type} [Provider π] (h : Continues past j k) (w : Worker π)
    (command : Command) : Continues past (w.noted j command) (w.noted k command) :=
  (h.count Metrics.counts_recordDispatched).account _ _ _

end Journal

section Loaders

variable {π : Type}

/-- The loader, as it is where `left` was the last provider to be let go of before. -/
def Loader.after (left : Option π) (l : Loader π) : Loader π :=
  { l with load := fun last => l.load (last.or left) }

/-- What was left behind may be fixed before or after the record is begun. -/
theorem Loader.after_recorded (left : Option (Recorded π)) (l : Loader π) :
    (l.after (left.map Recorded.provider)).recorded = l.recorded.after left := by
  simp only [Loader.recorded, Loader.after, Option.map_or]

theorem Operation.after_recorded (left : Option (Recorded π)) (op : Operation π) :
    (op.mapLoader (.after (left.map Recorded.provider))).recorded =
      op.recorded.mapLoader (.after left) := by
  cases op <;> simp only [Operation.recorded, Operation.mapLoader, Loader.after_recorded]

end Loaders

namespace Dispatcher

variable {π : Type} {past d e : Dispatcher π}

/-- `d` is where `e` is, with everything that was in `past` before that. -/
structure Continues (past d e : Dispatcher π) : Prop where
  options : d.options = e.options
  binding : d.binding = e.binding
  project : d.project = e.project
  selected : d.selected = e.selected
  journal : past.journal.Continues d.journal e.journal
  retired : d.retired = past.retired ++ e.retired

theorem Continues.isBound (h : Continues past d e) : d.isBound = e.isBound := by
  rw [Dispatcher.isBound, h.binding, Dispatcher.isBound]

theorem Continues.lastRetired (h : Continues past d e) :
    d.lastRetired = e.lastRetired.or past.lastRetired := by
  simp only [Dispatcher.lastRetired, h.retired, List.getLast?_append, Option.map_or]

theorem Continues.idle (h : Continues past d e) (hi : e.Idle) : d.Idle := hi.of_binding h.binding

theorem Continues.write (h : Continues past d e) (level : Level) (text : String) :
    Continues past (d.write level text) (e.write level text) :=
  ⟨h.options, h.binding, h.project, h.selected, h.journal.write _ _ _, h.retired⟩

variable [Provider π]

theorem Continues.ran (h : Continues past d e) (b : Binding π) (command : Command) :
    Continues past (d.ran b command) (e.ran b command) :=
  ⟨h.options, rfl, h.project, h.selected, h.journal.noted _ _, h.retired⟩

theorem Continues.run (h : Continues past d e) (hi : e.Idle) (command : Window → Command) :
    (d.run command).1 = (e.run command).1 ∧
      Continues past (d.run command).2 (e.run command).2 := by
  cases hb : e.binding with
  | none =>
    have hd := h.binding.trans hb
    simpa [Dispatcher.run, hb, hd] using h
  | some b =>
    rw [run_of_idle (h.idle hi) (h.binding.trans hb), run_of_idle hi hb]
    exact ⟨rfl, h.ran b _⟩

theorem Continues.selectProject (h : Continues past d e) (hi : e.Idle) (initial : Project) :
    (d.selectProject initial).1 = (e.selectProject initial).1 ∧
      Continues past (d.selectProject initial).2 (e.selectProject initial).2 := by
  obtain ⟨ho, hr⟩ := h.run hi (.selectProject · initial true)
  rw [selectProject_eq, selectProject_eq]
  simp only [ho]
  cases (e.run (.selectProject · initial true)).1.bind Output.choice? with
  | some choice =>
    exact ⟨rfl, hr.options, hr.binding, hr.project, rfl, hr.journal.write _ _ _, hr.retired⟩
  | none => exact ⟨rfl, hr⟩

theorem Continues.dropProject (h : Continues past d e) (hi : e.Idle) :
    d.dropProject.1 = e.dropProject.1 ∧ Continues past d.dropProject.2 e.dropProject.2 := by
  obtain ⟨ho, hr⟩ := h.run hi fun _ => .closeProject
  exact ⟨congrArg (·.any Output.succeeded) ho, hr.options, hr.binding, rfl, hr.selected,
    hr.journal.closed, hr.retired⟩

theorem Continues.vacated (h : Continues past d e) (hi : e.Idle) :
    Continues past d.vacated e.vacated := by
  unfold Dispatcher.vacated
  rw [h.project]
  split
  next => exact (h.dropProject hi).2
  next => exact h

theorem Continues.openProject (h : Continues past d e) (hi : e.Idle) (p : Project) :
    (d.openProject p).1 = (e.openProject p).1 ∧
      Continues past (d.openProject p).2 (e.openProject p).2 := by
  cases hb : e.isBound with
  | false =>
    rw [openProject_of_unbound d (h.isBound.trans hb), openProject_of_unbound e hb]
    exact ⟨rfl, h⟩
  | true =>
    have hv := h.vacated hi
    have hc : d.vacated.openCommand p = e.vacated.openCommand p := by
      unfold openCommand
      rw [hv.options]
    obtain ⟨ho, hr⟩ := hv.run (idle_vacated hi) (e.vacated.openCommand p)
    rw [openProject_of_bound d (h.isBound.trans hb), openProject_of_bound e hb, hc]
    simp only [ho]
    split
    next =>
      exact ⟨rfl, hr.options, hr.binding, rfl, hr.selected, (hr.journal.write _ _ _).opened p,
        hr.retired⟩
    next => exact ⟨rfl, hr⟩

theorem Continues.closeProject (h : Continues past d e) (hi : e.Idle) :
    d.closeProject.1 = e.closeProject.1 ∧ Continues past d.closeProject.2 e.closeProject.2 := by
  cases hb : e.isBound with
  | false =>
    rw [closeProject_of_unbound d (h.isBound.trans hb), closeProject_of_unbound e hb]
    exact ⟨rfl, h⟩
  | true =>
    rw [closeProject_of_bound d (h.isBound.trans hb), closeProject_of_bound e hb, h.project]
    split
    next => exact h.dropProject hi
    next => exact ⟨rfl, h⟩

omit [Provider π] in
theorem Continues.settle (h : Continues past d e) (r : Request) (out : Option Output) :
    (d.settle r out).1 = (e.settle r out).1 ∧
      Continues past (d.settle r out).2 (e.settle r out).2 := by
  unfold Dispatcher.settle
  split
  next => exact ⟨rfl, h.write _ _⟩
  next => exact ⟨rfl, h⟩

theorem Continues.request (h : Continues past d e) (hi : e.Idle) (r : Request) :
    (d.request r).1 = (e.request r).1 ∧ Continues past (d.request r).2 (e.request r).2 := by
  have hd := h.idle hi
  cases hr : r.idle? with
  | some reply =>
    rw [request_of_noFiles hd hr, request_of_noFiles hi hr]
    exact ⟨rfl, h⟩
  | none =>
    cases hb : e.binding with
    | none =>
      rw [request_of_unbound hr (h.binding.trans hb), request_of_unbound hr hb]
      exact ⟨rfl, h⟩
    | some b =>
      have hdb := h.binding.trans hb
      cases hq : r.isQuery && b.concurrent with
      | true =>
        rw [request_of_direct hd hr hdb hq, request_of_direct hi hr hb hq, queryDirectly_eq,
          queryDirectly_eq]
        refine Continues.settle ?_ r _
        exact ⟨h.options, rfl, h.project, h.selected, h.journal.queried _, h.retired⟩
      | false =>
        rw [request_of_queued hd hr hdb hq, request_of_queued hi hr hb hq]
        exact (h.ran b _).settle r _

theorem Continues.parting (h : Continues past d e) (b : Binding π) :
    (d.parting b).1 = (e.parting b).1 ∧
      past.journal.Continues (d.parting b).2 (e.parting b).2 := by
  have hj := (h.journal.write .info "Shutting down source control provider" .caller).setPhase
    .unloading
  unfold Dispatcher.parting
  rw [h.project]
  split
  next => exact ⟨rfl, hj.noted _ _⟩
  next => exact ⟨rfl, hj⟩

theorem Continues.shutdown (h : Continues past d e) (hi : e.Idle) :
    Continues past d.shutdown e.shutdown := by
  cases hb : e.binding with
  | none => rwa [shutdown_of_unbound d (h.binding.trans hb), shutdown_of_unbound e hb]
  | some b =>
    obtain ⟨hw, hj⟩ := h.parting b
    have hstop := ((hj.noted (e.parting b).1 .stop).write .info "Source control worker stopped"
      .worker).reset.summarize
    rw [shutdown_of_bound (h.idle hi) (h.binding.trans hb), shutdown_of_bound hi hb, hw]
    refine ⟨h.options, rfl, rfl, rfl, hstop, ?_⟩
    rw [h.retired, List.append_assoc]

omit [Provider π] in
theorem Continues.loading (h : Continues past d e) (name : String) (path : Option String) :
    Continues past (d.loading name path) (e.loading name path) :=
  ⟨h.options, h.binding, h.project, h.selected,
    ((h.journal.write _ _ _).setPhase .loading).writePath path, h.retired⟩

omit [Provider π] in
theorem Continues.refuse (h : Continues past d e) (name : String) (error : BindError) :
    (d.refuse name error).1 = (e.refuse name error).1 ∧
      Continues past (d.refuse name error).2 (e.refuse name error).2 :=
  ⟨rfl, h.options, h.binding, h.project, h.selected, (h.journal.write _ _ _).reset, h.retired⟩

omit [Provider π] in
theorem Continues.displaced (h : Continues past d e) {j k : Journal}
    (hj : past.journal.Continues j k) :
    past.journal.Continues (d.displaced j) (e.displaced k) := by
  unfold Dispatcher.displaced Dispatcher.isBound
  rw [h.binding]
  split
  next => exact hj.write _ _ _
  next => exact hj

theorem Continues.start (h : Continues past d e) (name : String) (p : π) (window : Window) :
    (d.start name p window).1 = (e.start name p window).1 ∧
      Continues past (d.start name p window).2 (e.start name p window).2 := by
  have hw : d.newWorker p = e.newWorker p := by rw [newWorker, h.options, newWorker]
  have hj : past.journal.Continues (d.started p window) (e.started p window) := by
    unfold started
    rw [hw, h.options]
    exact (h.journal.write _ _ _).noted _ _
  have hi := (idle_newWorker (d := e) p).ran (.start window e.options.caller)
  rw [start_eq, start_eq, hw, h.options]
  simp only
  split
  next =>
    refine ⟨rfl, h.options, rfl, h.project, h.selected,
      h.displaced ((hj.write _ _ _).bound name), ?_⟩
    simp only [attach, h.binding, h.retired, List.append_assoc]
  next =>
    simp only [abandon, Worker.stop_of_idle hi]
    refine ⟨trivial, h.options, h.binding, h.project, h.selected, ?_, ?_⟩
    · exact ((hj.write _ _ _).write _ _ _).reset
    · simp only [h.retired, List.append_assoc]

/-- A bind succeeds on both sides or on none, given what the last provider has left behind. -/
theorem Continues.bind (h : Continues past d e) (name : String) (loader : Loader π)
    (window : Window) :
    (d.bind name loader window).1 = (e.bind name (loader.after past.lastRetired) window).1 ∧
      Continues past (d.bind name loader window).2
        (e.bind name (loader.after past.lastRetired) window).2 := by
  have hl := h.loading name loader.path
  have he : (loader.after past.lastRetired).load e.lastRetired = loader.load d.lastRetired := by
    rw [h.lastRetired]
    rfl
  rw [bind_eq, bind_eq, he]
  split
  next => exact hl.start name _ window
  next => exact hl.refuse name _
  next cause _ =>
    have hf : Continues past ((d.loading name loader.path).loadFaulted (.of "load" cause))
        ((e.loading name loader.path).loadFaulted (.of "load" cause)) :=
      ⟨hl.options, hl.binding, hl.project, hl.selected, hl.journal.write _ _ _, hl.retired⟩
    exact hf.refuse name _

theorem Continues.rebind (h : Continues past d e) (hi : e.Idle) (name : String)
    (loader : Loader π) (window : Window) :
    (d.rebind name loader window).1 = (e.rebind name (loader.after past.lastRetired) window).1 ∧
      Continues past (d.rebind name loader window).2
        (e.rebind name (loader.after past.lastRetired) window).2 :=
  (h.shutdown hi).bind name loader window

/-- Every call is answered alike. -/
theorem Continues.perform (h : Continues past d e) (hi : e.Idle) (op : Operation π) :
    (d.perform op).1 = (e.perform (op.mapLoader (.after past.lastRetired))).1 ∧
      Continues past (d.perform op).2 (e.perform (op.mapLoader (.after past.lastRetired))).2 := by
  cases op with
  | bind name loader window =>
    exact (h.rebind hi name loader window).imp_left (congrArg Answer.bound)
  | bindIndex registry load index window =>
    simp only [Dispatcher.perform, Operation.mapLoader, rebindIndex]
    split
    next p _ =>
      exact (h.rebind hi p.name (load p) window).imp_left (congrArg Answer.bound)
    next => exact ⟨rfl, h.write _ _⟩
  | bindName registry load name window =>
    simp only [Dispatcher.perform, Operation.mapLoader, rebindName]
    split
    next p _ =>
      exact (h.rebind hi p.name (load p) window).imp_left (congrArg Answer.bound)
    next => exact ⟨rfl, h.write _ _⟩
  | shutdown => exact ⟨rfl, h.shutdown hi⟩
  | selectProject initial => exact (h.selectProject hi initial).imp_left (congrArg Answer.chosen)
  | openProject p => exact (h.openProject hi p).imp_left (congrArg Answer.opened)
  | closeProject => exact (h.closeProject hi).imp_left (congrArg Answer.closed)
  | request r => exact (h.request hi r).imp_left (congrArg Answer.replied)

/-- By induction any calls are. -/
theorem Continues.performAll (h : Continues past d e) (hi : e.Idle) (calls : List (Operation π)) :
    (d.performAll calls).1 =
        (e.performAll (calls.map (·.mapLoader (.after past.lastRetired)))).1 ∧
      Continues past (d.performAll calls).2
        (e.performAll (calls.map (·.mapLoader (.after past.lastRetired)))).2 := by
  induction calls generalizing d e with
  | nil => exact ⟨rfl, h⟩
  | cons op rest ih =>
    obtain ⟨ha, hn⟩ := h.perform hi op
    obtain ⟨has, hns⟩ := ih hn (idle_perform hi _)
    simp only [Dispatcher.performAll, List.map_cons]
    exact ⟨by rw [ha, has], hns⟩

/-- A dispatcher whose provider was let go of is where a new one is. -/
theorem continues_shutdown {last : Option String} (hs : d.view.Sound last) :
    Continues d.shutdown d.shutdown { options := d.options } := by
  have hv := d.view_shutdown.trans (View.sound_released hs)
  exact ⟨d.options_shutdown, d.binding_shutdown, congrArg View.project hv,
    congrArg View.selected hv, Journal.continues_start (congrArg View.standing hv),
    (List.append_nil _).symm⟩

/-- A call to bind a provider, and all that are made after it, go as they would on a new dispatcher:
they are answered alike, and leave everything as it would be then, but for what was counted, told
and let go of before, the provider that was bound last included. -/
theorem rebinding_starts_afresh (options : Options) (before : List (Operation π)) (name : String)
    (loader : Loader π) (window : Window) (after : List (Operation π)) :
    let past := (afterCalls options before).shutdown
    let calls := .bind name loader window :: after
    let fresh := calls.map (·.mapLoader (.after (past.lastRetired.map Recorded.provider)))
    let r := (afterCalls options before).performAll (calls.map Operation.recorded)
    let s := ({ options } : Dispatcher (Recorded π)).performAll (fresh.map Operation.recorded)
    r.1 = s.1 ∧ Continues past r.2 s.2 := by
  intro past calls fresh r s
  have hset : (afterCalls options before).options = options :=
    (orderly_afterCalls options before).settings
  have hs : Continues past past ({ options } : Dispatcher (Recorded π)) :=
    hset ▸ continues_shutdown (sound_performAll options (before.map Operation.recorded))
  have hf : fresh.map Operation.recorded =
      (calls.map Operation.recorded).map (·.mapLoader (.after past.lastRetired)) := by
    simp only [fresh, List.map_map]
    exact List.map_congr_left fun op _ => Operation.after_recorded past.lastRetired op
  have hr : r = past.performAll (calls.map Operation.recorded) := by
    have hp : past.shutdown = past := past.shutdown_of_unbound (binding_shutdown _)
    simp only [r, calls, List.map_cons, performAll, perform, Operation.recorded,
      Operation.mapLoader, rebind, hp]
    rfl
  have hs' : s = ({ options } : Dispatcher (Recorded π)).performAll
      ((calls.map Operation.recorded).map (·.mapLoader (.after past.lastRetired))) :=
    congrArg (performAll _) hf
  rw [hr, hs']
  exact hs.performAll (idle_of_unbound rfl) _

end Dispatcher

end SccDispatch
