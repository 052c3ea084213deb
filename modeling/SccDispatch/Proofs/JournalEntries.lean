import SccDispatch.Proofs.EventHistory

namespace SccDispatch

inductive Journal.Notice
  | line (level : Level) (text : String) (thread : Thread)
  | phase (phase : Phase)
  | bound (name : String)
  | opened (p : Project)
  | closed
  | reset
  | summary

inductive Journal.Entry
  | dispatched
  | rejected
  | completed
  | spent (elapsed : Duration)
  | providerError
  | directQuery
  | felt
  | told (f : Fault)
  | line (level : Level) (text : String) (thread : Thread)
  deriving DecidableEq

namespace Journal.Entry

def told? : Entry → Option Fault
  | told f => some f
  | _ => none

end Journal.Entry

def Fault.entries (f : Fault) (thread : Thread) : List Journal.Entry :=
  [.line .error f.text thread, .felt, .told f]

namespace Output

def remarks (name : String) : Output → List Journal.Entry
  | faulted f => f.entries .worker
  | out =>
    if out.resultCode.isError then
      [.providerError, .line .warn (name ++ " failed: " ++ out.resultCode.text) .worker]
    else []

def entries (name : String) (elapsed : Duration) (out : Output) : List Journal.Entry :=
  .completed :: .spent elapsed :: out.remarks name

def asides : Output → List Journal.Entry
  | faulted f => f.entries .caller
  | _ => []

end Output

namespace Journal

def post (j : Journal) : Notice → Journal
  | .line level text thread => j.write level text thread
  | .phase phase => j.setPhase phase
  | .bound name => j.bound name
  | .opened p => j.opened p
  | .closed => j.closed
  | .reset => j.reset
  | .summary => j.summarize

def enter (j : Journal) : Entry → Journal
  | .dispatched => j.count .recordDispatched
  | .rejected => j.count .recordRejected
  | .completed => j.count .countCompleted
  | .spent elapsed => j.count (·.addTime elapsed)
  | .providerError => j.count .recordProviderError
  | .directQuery => j.count .recordDirectQuery
  | .felt => j.count .recordFault
  | .told f => { j with session := (j.session.recordFault f).2 }
  | .line level text thread => j.write level text thread

def enterAll (j : Journal) (es : List Entry) : Journal := es.foldl enter j

/-- The account of a command is its entries, written one after another. -/
theorem account_eq (j : Journal) (name : String) (elapsed : Duration) (out : Output) :
    j.account name elapsed out = j.enterAll (out.entries name elapsed) := by
  cases out with
  | faulted f => rfl
  | _ =>
    simp only [account, Output.entries, Output.remarks]
    split <;> rfl

/-- What is written of a query on the calling thread, entry by entry. -/
theorem queried_eq (j : Journal) (out : Output) :
    j.queried out = (j.enter .directQuery).enterAll out.asides := by
  cases out <;> rfl

end Journal

def Worker.owed {π : Type} [Provider π] (w : Worker π) (command : Command) : List Journal.Entry :=
  (w.outputOf command).entries command.name (elapsed w.provider (w.ran command).provider)

def Event.fault? : Event → Option Fault
  | faulted operation message => some ⟨operation, message⟩
  | _ => none

def toldFaults (es : List Event) : List Fault := es.filterMap Event.fault?

theorem toldFaults_append (es fs : List Event) :
    toldFaults (es ++ fs) = toldFaults es ++ toldFaults fs := List.filterMap_append

/-- A change of the session tells no fault. -/
theorem toldFaults_changes (s t : SessionState) : toldFaults (SessionState.changes s t) = [] := by
  have phase : toldFaults (SessionState.phaseEvents s t) = [] := by
    unfold SessionState.phaseEvents
    split <;> rfl
  have provider : toldFaults (SessionState.providerEvents s t) = [] := by
    unfold SessionState.providerEvents
    split
    next => rfl
    next => split <;> rfl
  have project : toldFaults (SessionState.projectEvents s t) = [] := by
    unfold SessionState.projectEvents
    split
    next => rfl
    next => split <;> rfl
  simp only [SessionState.changes, toldFaults_append, phase, provider, project, List.append_nil]

namespace Journal

/-- The counters and the faults told are those of the entries. -/
structure Tallies (j : Journal) (es : List Entry) : Prop where
  dispatched : j.metrics.dispatched = .ofNat (es.count .dispatched)
  completed : j.metrics.completed = .ofNat (es.count .completed)
  faulted : j.metrics.faulted = .ofNat (es.count .felt)
  directQueries : j.metrics.directQueries = .ofNat (es.count .directQuery)
  faults : j.faults = .ofNat (es.filterMap Entry.told?).length
  told : toldFaults j.events = es.filterMap Entry.told?

variable {j k : Journal} {es : List Entry}

theorem tallies_start : ({} : Journal).Tallies [] := ⟨rfl, rfl, rfl, rfl, rfl, rfl⟩

theorem Tallies.of_same (h : j.Tallies es) (hm : k.metrics = j.metrics) (hf : k.faults = j.faults)
    (he : toldFaults k.events = toldFaults j.events) : k.Tallies es := by
  obtain ⟨hd, hc, hx, hq, hn, ht⟩ := h
  exact ⟨hm ▸ hd, hm ▸ hc, hm ▸ hx, hm ▸ hq, hf ▸ hn, he ▸ ht⟩

theorem Tallies.update (h : j.Tallies es) (f : SessionState → SessionState)
    (hf : ∀ s, (f s).faults = s.faults) :
    ({ j with session := (j.session.update f).2 } : Journal).Tallies es := by
  refine h.of_same rfl (hf _) ?_
  simp only [events, toList_update, toldFaults_append, toldFaults_changes, List.append_nil]

theorem Tallies.post (h : j.Tallies es) (n : Notice) : (j.post n).Tallies es := by
  cases n with
  | line level text thread => exact h.of_same rfl rfl rfl
  | phase phase => exact h.update (fun s => { s with phase }) fun _ => rfl
  | bound name => exact h.update (·.bound name) fun _ => rfl
  | opened p => exact h.update (·.opened p) fun _ => rfl
  | closed => exact h.update (·.closed) fun _ => rfl
  | reset => exact h.update (·.cleared) fun _ => rfl
  | summary => exact h.of_same rfl rfl rfl

theorem events_told (f : Fault) :
    (j.enter (.told f)).events = j.events ++ [.faulted f.operation f.message] :=
  events_fault j f .worker

/-- An entry counts for what it is. -/
theorem metrics_enter (j : Journal) (e : Entry) :
    (j.enter e).metrics.dispatched = j.metrics.dispatched + .ofNat ([e].count .dispatched) ∧
      (j.enter e).metrics.completed = j.metrics.completed + .ofNat ([e].count .completed) ∧
      (j.enter e).metrics.faulted = j.metrics.faulted + .ofNat ([e].count .felt) ∧
      (j.enter e).metrics.directQueries =
        j.metrics.directQueries + .ofNat ([e].count .directQuery) := by
  cases e <;>
    simp [enter, write, count, Metrics.recordDispatched, Metrics.recordRejected,
      Metrics.countCompleted, Metrics.addTime, Metrics.recordFault, Metrics.recordProviderError,
      Metrics.recordDirectQuery]

theorem faults_enter (j : Journal) (e : Entry) :
    (j.enter e).faults = j.faults + .ofNat ([e].filterMap Entry.told?).length ∧
      toldFaults (j.enter e).events = toldFaults j.events ++ [e].filterMap Entry.told? := by
  cases e with
  | told f =>
    refine ⟨rfl, ?_⟩
    rw [events_told, toldFaults_append]
    rfl
  | _ => exact ⟨(UInt64.add_zero _).symm, (List.append_nil _).symm⟩

/-- An entry counts in the journal what it stands for. -/
theorem Tallies.enter (h : j.Tallies es) (e : Entry) : (j.enter e).Tallies (es ++ [e]) := by
  obtain ⟨hd, hc, hx, hq⟩ := j.metrics_enter e
  obtain ⟨hn, ht⟩ := j.faults_enter e
  refine ⟨?_, ?_, ?_, ?_, ?_, ?_⟩
  · rw [hd, h.dispatched, List.count_append, UInt64.ofNat_add]
  · rw [hc, h.completed, List.count_append, UInt64.ofNat_add]
  · rw [hx, h.faulted, List.count_append, UInt64.ofNat_add]
  · rw [hq, h.directQueries, List.count_append, UInt64.ofNat_add]
  · rw [hn, h.faults, List.filterMap_append, List.length_append, UInt64.ofNat_add]
  · rw [ht, h.told, List.filterMap_append]

theorem Tallies.enterAll (h : j.Tallies es) (fs : List Entry) :
    (j.enterAll fs).Tallies (es ++ fs) := by
  induction fs generalizing j es with
  | nil => rwa [List.append_nil]
  | cons e fs ih =>
    have hr := ih (h.enter e)
    rwa [List.append_assoc] at hr

end Journal

end SccDispatch
