import SccDispatch.Proofs.IdleWorker
import SccDispatch.Proofs.VisibleState

namespace SccDispatch

/-- The output, unless its code is that of an unknown error. -/
def Output.maskFaults (o : Output) : Output :=
  if o.resultCode = .unknownError then .code .unknownError else o

theorem isOk_unknownError : ResultCode.unknownError.isOk = false := by decide

section Outputs

variable (o : Output)

/-- An output is kept unless its code is that of an unknown error. -/
theorem maskFaults_cases :
    o.maskFaults = o ∨ o.resultCode = .unknownError ∧ o.maskFaults = .code .unknownError := by
  unfold Output.maskFaults
  split
  next h => exact .inr ⟨h, rfl⟩
  next => exact .inl rfl

@[simp]
theorem succeeded_maskFaults : o.maskFaults.succeeded = o.succeeded := by
  rcases maskFaults_cases o with h | ⟨hc, h⟩
  · rw [h]
  · have hn : (Output.code .unknownError).succeeded = false := by decide
    rw [h, hn, Output.succeeded, hc, isOk_unknownError, Bool.and_false]

@[simp]
theorem choice?_maskFaults : o.maskFaults.choice? = o.choice? := by
  rcases maskFaults_cases o with h | ⟨hc, h⟩
  · rw [h]
  · cases o with
    | projectPath choice => simp_all [Output.choice?, Output.resultCode, isOk_unknownError]
    | _ => rw [h]; rfl

@[simp]
theorem started?_maskFaults : o.maskFaults.started? = o.started? := by
  rcases maskFaults_cases o with h | ⟨hc, h⟩
  · rw [h]
  · cases o with
    | initialized info concurrent =>
      simp_all [Output.started?, Output.resultCode, isOk_unknownError]
    | _ => rw [h]; rfl

theorem statusesOf_maskFaults (n : Nat) :
    statusesOf n (some o.maskFaults) = statusesOf n (some o) := by
  rcases maskFaults_cases o with h | ⟨hc, h⟩
  · rw [h]
  · cases o with
    | status reply => simp_all [statusesOf, Output.resultCode, isOk_unknownError]
    | _ => rw [h]; rfl

/-- A request is answered as if the provider had told an unknown error. -/
@[simp]
theorem reply_maskFaults (r : Request) : r.reply (some o.maskFaults) = r.reply (some o) := by
  cases r <;> simp [Request.reply, statusesOf_maskFaults]

end Outputs

section Outcomes

variable {out out' : Option Output} (h : out.map Output.maskFaults = out'.map Output.maskFaults)

include h

theorem choice?_of_maskFaults : out.bind Output.choice? = out'.bind Output.choice? := by
  have hb := congrArg (·.bind Output.choice?) h
  simpa [Option.bind_map, Function.comp_def] using hb

theorem any_succeeded_of_maskFaults : out.any Output.succeeded = out'.any Output.succeeded := by
  have masked : ∀ o : Option Output,
      (o.map Output.maskFaults).any Output.succeeded = o.any Output.succeeded := by
    intro o
    cases o <;> simp
  rw [← masked out, h, masked out']

theorem reply_of_maskFaults (r : Request) : r.reply out = r.reply out' := by
  have masked : ∀ o : Option Output, r.reply (o.map Output.maskFaults) = r.reply o := by
    intro o
    cases o <;> simp
  rw [← masked out, h, masked out']

end Outcomes

def Event.isFault : Event → Bool
  | .faulted .. => true
  | _ => false

def Channel.unfaulted (c : Channel Event) : Array Event := c.sent.filter (!·.isFault)

theorem unfaulted_send (c : Channel Event) (e : Event) :
    (c.send e).unfaulted = if e.isFault then c.unfaulted else c.unfaulted.push e := by
  cases h : e.isFault <;> simp [Channel.unfaulted, Channel.send, h]

theorem isFault_changes {old new : SessionState} {e : Event}
    (h : e ∈ SessionState.changes old new) : e.isFault = false := by
  simp only [SessionState.changes, SessionState.phaseEvents, SessionState.providerEvents,
    SessionState.projectEvents, List.mem_append] at h
  rcases h with (h | h) | h
  all_goals
    split at h
    next => simp at h
  · simp at h
    rw [h]
    rfl
  · split at h <;> simp at h
    rw [h]
    rfl
  · split at h <;> simp at h <;> rw [h] <;> rfl

namespace Session

/-- The session without the faults that were counted and told. -/
def maskFaults (s : Session) : Session where
  state := s.state.standing
  events := { s.events with sent := s.events.unfaulted }

theorem maskFaults_emit (s : Session) {es : List Event} (h : ∀ e ∈ es, e.isFault = false) :
    (s.emit es).maskFaults = s.maskFaults.emit es := by
  induction es generalizing s with
  | nil => rfl
  | cons e es ih =>
    have he : e.isFault = false := h e (by simp)
    have hs : (s.emit [e]).maskFaults = s.maskFaults.emit [e] := by
      simp only [maskFaults, emit, List.foldl_cons, List.foldl_nil, unfaulted_send, he]
      rfl
    have ht := ih (s.emit [e]) fun a ha => h a (List.mem_cons_of_mem _ ha)
    rw [hs] at ht
    exact ht

/-- An update that a fault has no part in is the same update without faults. -/
theorem maskFaults_update (s : Session) (f : SessionState → SessionState)
    (h : (f s.state).standing = f s.state.standing) :
    (s.update f).2.maskFaults = (s.maskFaults.update f).2 := by
  -- The events of a change do not depend on the faults counted.
  have hc : SessionState.changes s.state (f s.state) =
      SessionState.changes s.state.standing (f s.state.standing) := by
    rw [← h]
    rfl
  simp only [update]
  rw [maskFaults_emit _ fun e he => isFault_changes he, hc]
  simp only [maskFaults, h]

theorem maskFaults_recordFault (s : Session) (f : Fault) :
    (s.recordFault f).2.maskFaults = s.maskFaults := by
  have hc : SessionState.changes s.state { s.state with faults := s.state.faults + 1 } = [] := by
    simp [SessionState.changes, SessionState.phaseEvents, SessionState.providerEvents,
      SessionState.projectEvents]
  simp only [recordFault, update, hc, maskFaults, emit, List.foldl_cons, List.foldl_nil,
    unfaulted_send]
  rfl

end Session

def Metrics.maskFaults (m : Metrics) : Metrics := { m with faulted := 0, providerErrors := 0 }

def Journal.maskFaults (j : Journal) : Journal where
  session := j.session.maskFaults
  metrics := j.metrics.maskFaults

namespace Journal

variable (j : Journal)

@[simp]
theorem maskFaults_write (level : Level) (text : String) (thread : Thread) :
    (j.write level text thread).maskFaults = j.maskFaults := rfl

@[simp]
theorem maskFaults_writePath (path : Option String) :
    (j.writePath path).maskFaults = j.maskFaults := by
  cases path <;> rfl

@[simp]
theorem maskFaults_summarize : j.summarize.maskFaults = j.maskFaults := rfl

@[simp]
theorem maskFaults_dispatched :
    (j.count .recordDispatched).maskFaults = j.maskFaults.count .recordDispatched := rfl

@[simp]
theorem maskFaults_directQuery :
    (j.count .recordDirectQuery).maskFaults = j.maskFaults.count .recordDirectQuery := rfl

@[simp]
theorem maskFaults_fault (f : Fault) (thread : Thread) :
    (j.fault f thread).maskFaults = j.maskFaults := by
  have hs := Session.maskFaults_recordFault j.session f
  simp only [maskFaults, fault, count, write, hs]
  rfl

/-- Of a finished command only the count and the time are left. -/
@[simp]
theorem maskFaults_account (name : String) (elapsed : Duration) (o : Output) :
    (j.account name elapsed o).maskFaults = j.maskFaults.count (·.recordCompleted elapsed) := by
  cases o with
  | faulted f => simp only [account, maskFaults_fault]; rfl
  | _ => simp only [account]; split <;> rfl

@[simp]
theorem maskFaults_queried (o : Output) :
    (j.queried o).maskFaults = j.maskFaults.count .recordDirectQuery := by
  cases o with
  | faulted f => simp only [queried, maskFaults_fault, maskFaults_directQuery]
  | _ => rfl

@[simp]
theorem maskFaults_setPhase (phase : Phase) :
    (j.setPhase phase).maskFaults = j.maskFaults.setPhase phase := by
  have hs := Session.maskFaults_update j.session (fun st => { st with phase }) rfl
  simp only [maskFaults, setPhase, Session.setPhase, hs]

@[simp]
theorem maskFaults_bound (name : String) : (j.bound name).maskFaults = j.maskFaults.bound name := by
  have hs := Session.maskFaults_update j.session (·.bound name) rfl
  simp only [maskFaults, bound, Session.providerBound, hs]

@[simp]
theorem maskFaults_opened (p : Project) : (j.opened p).maskFaults = j.maskFaults.opened p := by
  have hs := Session.maskFaults_update j.session (·.opened p) rfl
  simp only [maskFaults, opened, Session.projectOpened, hs]

@[simp]
theorem maskFaults_closed : j.closed.maskFaults = j.maskFaults.closed := by
  have hs := Session.maskFaults_update j.session (·.closed) rfl
  simp only [maskFaults, closed, Session.projectClosed, hs]

@[simp]
theorem maskFaults_reset : j.reset.maskFaults = j.maskFaults.reset := by
  have hs := Session.maskFaults_update j.session (·.cleared) rfl
  simp only [maskFaults, reset, Session.reset, hs]

end Journal

end SccDispatch
