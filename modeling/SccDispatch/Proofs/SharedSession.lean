import Mathlib.Data.List.Chain
import Mathlib.Logic.Function.Basic
import Mathlib.Logic.Relation
import SccDispatch.Proofs.EventHistory

namespace SccDispatch

namespace Session

/-- What a thread may ask of a session. -/
inductive Deed
  | update (f : SessionState → SessionState)
  | setPhase (phase : Phase)
  | providerBound (name : String)
  | projectOpened (p : Project)
  | projectClosed
  | reset
  | recordFault (f : Fault)

namespace Deed

def perform (s : Session) : Deed → List Event × Session
  | update f => s.update f
  | setPhase phase => s.setPhase phase
  | providerBound name => s.providerBound name
  | projectOpened p => s.projectOpened p
  | projectClosed => s.projectClosed
  | reset => s.reset
  | recordFault f => s.recordFault f

def next (s : SessionState) : Deed → SessionState
  | update f => f s
  | setPhase phase => { s with phase }
  | providerBound name => s.bound name
  | projectOpened p => s.opened p
  | projectClosed => s.closed
  | reset => s.cleared
  | recordFault _ => { s with faults := s.faults + 1 }

def report : Deed → List Event
  | recordFault f => [.faulted f.operation f.message]
  | _ => []

def events (d : Deed) (s : SessionState) : List Event :=
  SessionState.changes s (d.next s) ++ d.report

/-- A deed is the change of the state, then the sending of the events. -/
theorem perform_eq (d : Deed) (s : Session) :
    d.perform s =
      (d.events s.state, { s with state := d.next s.state }.emit (d.events s.state)) := by
  cases d with
  | recordFault f => simp [perform, Session.recordFault, Session.update, events, report, emit, next]
  | update f => simp [perform, Session.update, events, report, next]
  | setPhase phase => simp [perform, Session.setPhase, Session.update, events, report, next]
  | providerBound name =>
    simp [perform, Session.providerBound, Session.update, events, report, next]
  | projectOpened p => simp [perform, Session.projectOpened, Session.update, events, report, next]
  | projectClosed => simp [perform, Session.projectClosed, Session.update, events, report, next]
  | reset => simp [perform, Session.reset, Session.update, events, report, next]

theorem phaseChanges_report (d : Deed) : phaseChanges d.report = [] := by cases d <;> rfl

end Deed

end Session

theorem phaseChanges_append (es fs : List Event) :
    phaseChanges (es ++ fs) = phaseChanges es ++ phaseChanges fs := List.filterMap_append

namespace SessionState

variable (s t : SessionState)

theorem phaseChanges_providerEvents : phaseChanges (providerEvents s t) = [] := by
  unfold providerEvents
  split
  next => rfl
  next => split <;> rfl

theorem phaseChanges_projectEvents : phaseChanges (projectEvents s t) = [] := by
  unfold projectEvents
  split
  next => rfl
  next => split <;> rfl

end SessionState

/-- A change of phase is told first, and all else tells none. -/
theorem Session.Deed.events_cases (d : Deed) (s : SessionState) :
    ((d.next s).phase = s.phase ∧ phaseChanges (d.events s) = []) ∨
      ∃ more, d.events s = .phaseChanged s.phase (d.next s).phase :: more ∧
        phaseChanges more = [] := by
  let more := SessionState.providerEvents s (d.next s) ++
    (SessionState.projectEvents s (d.next s) ++ d.report)
  have hmore : phaseChanges more = [] := by
    rw [phaseChanges_append, phaseChanges_append, SessionState.phaseChanges_providerEvents,
      SessionState.phaseChanges_projectEvents, d.phaseChanges_report]
    rfl
  have he : d.events s = SessionState.phaseEvents s (d.next s) ++ more := by
    simp only [events, SessionState.changes, List.append_assoc, more]
  rw [he, SessionState.phaseEvents]
  split
  next hp => exact .inl ⟨hp.symm, hmore⟩
  next => exact .inr ⟨more, rfl, hmore⟩

/-- A session among threads. -/
structure SharedSession where
  session : Session := {}
  owed : Nat → List Event := fun _ => []
  /-- The threads that changed the phase and have not told so, by the age of their changes. -/
  line : List Nat := []
  /-- All changes of phase, oldest first. -/
  made : List (Phase × Phase) := []
  /-- A change of phase was told while an older one was still to be told. -/
  overtaken : Bool := false

namespace SharedSession

def shift (x : SharedSession) (i : Nat) (d : Session.Deed) : SharedSession :=
  { x with
    session := { x.session with state := d.next x.session.state }
    owed := Function.update x.owed i (d.events x.session.state)
    line := x.line ++ (phaseChanges (d.events x.session.state)).map fun _ => i
    made := x.made ++ phaseChanges (d.events x.session.state) }

def send (x : SharedSession) (i : Nat) (e : Event) (es : List Event) : SharedSession :=
  { x with
    session := x.session.emit [e]
    owed := Function.update x.owed i es
    line := if e.change?.isSome then x.line.erase i else x.line
    overtaken := x.overtaken || (e.change?.isSome && x.line.head? != some i) }

/-- A thread that has nothing to send changes the state, or one that has sends the first event. -/
inductive Step (x : SharedSession) : SharedSession → Prop
  | shift {i : Nat} (d : Session.Deed) (free : x.owed i = []) : x.Step (x.shift i d)
  | send {i : Nat} {e : Event} {es : List Event} (owes : x.owed i = e :: es) :
      x.Step (x.send i e es)

abbrev Reaches : SharedSession → SharedSession → Prop := Relation.ReflTransGen Step

/-- The changes of phase that were put on the channel. -/
def told (x : SharedSession) : List (Phase × Phase) := phaseChanges x.session.events.sent.toList

def tellsNext (x : SharedSession) (i : Nat) : Option (Phase × Phase) :=
  (x.owed i).head?.bind Event.change?

def untold (x : SharedSession) : List (Phase × Phase) := x.line.filterMap x.tellsNext

/-- The changes go on from each other. -/
def Chained (changes : List (Phase × Phase)) : Prop := changes.IsChain fun a b => a.2 = b.1

/-- Each change of phase goes on from the one that was told before it, and when no thread has
anything to send, the session is in the phase that was told last. -/
structure Follows (x : SharedSession) : Prop where
  chained : Chained x.told
  current : (∀ i, x.owed i = []) →
    phaseAfter x.session.events.sent.toList = x.session.state.phase

/-- The changes of phase went on from each other when they were made. Each of them was told or is to
be told by a thread in the line, and in their order if no thread was overtaken. -/
structure Accounted (x : SharedSession) : Prop where
  chained : Chained x.made
  current : (x.made.getLast?.map Prod.snd).getD .unloaded = x.session.state.phase
  distinct : x.line.Nodup
  inLine : ∀ i ∈ x.line, ∃ p q es, x.owed i = .phaseChanged p q :: es ∧ phaseChanges es = []
  others : ∀ i ∉ x.line, phaseChanges (x.owed i) = []
  all : (x.told ++ x.untold).Perm x.made
  ordered : x.overtaken = false → x.told ++ x.untold = x.made

section Owed

variable {x : SharedSession} {i : Nat} {e : Event} {es : List Event}

/-- Sending tells the change of phase of the event, if it has one. -/
theorem told_send : (x.send i e es).told = x.told ++ e.change?.toList := by
  unfold told send
  rw [toList_emit, phaseChanges_concat]

theorem tellsNext_update {owed : Nat → List Event} {line : List Nat} (hi : i ∉ line) :
    (line.filterMap fun j => (Function.update owed i es j).head?.bind Event.change?) =
      line.filterMap fun j => (owed j).head?.bind Event.change? := by
  refine List.filterMap_congr fun j hj => ?_
  have hji : j ≠ i := fun he => hi (he ▸ hj)
  rw [Function.update_of_ne hji]

end Owed

namespace Accounted

variable {x : SharedSession} {i : Nat}

theorem start : Accounted {} where
  chained := .nil
  current := rfl
  distinct := List.nodup_nil
  inLine i hi := by cases hi
  others i _ := rfl
  all := .nil
  ordered _ := rfl

theorem notInLine (h : x.Accounted) (hi : phaseChanges (x.owed i) = []) : i ∉ x.line := by
  intro hm
  obtain ⟨p, q, es, he, -⟩ := h.inLine i hm
  rw [he] at hi
  cases hi

/-- The threads in the line are still to send what they were, as long as they do nothing. -/
theorem inLine_update (h : x.Accounted) (hi : i ∉ x.line) (es : List Event) :
    ∀ j ∈ x.line, ∃ p q more, Function.update x.owed i es j = .phaseChanged p q :: more ∧
      phaseChanges more = [] := by
  intro j hj
  have hji : j ≠ i := fun he => hi (he ▸ hj)
  rw [Function.update_of_ne hji]
  exact h.inLine j hj

theorem others_update (h : x.Accounted) {es : List Event} (hes : phaseChanges es = []) {j : Nat}
    (hj : j ≠ i → j ∉ x.line) : phaseChanges (Function.update x.owed i es j) = [] := by
  by_cases hji : j = i
  · rw [hji, Function.update_self, hes]
  · rw [Function.update_of_ne hji]
    exact h.others j (hj hji)

/-- A change that keeps the phase puts nobody into the line. -/
theorem shift_other (h : x.Accounted) (d : Session.Deed) (hi : i ∉ x.line)
    (hp : (d.next x.session.state).phase = x.session.state.phase)
    (hn : phaseChanges (d.events x.session.state) = []) : (x.shift i d).Accounted := by
  have hline : (x.shift i d).line = x.line := by simp [SharedSession.shift, hn]
  have hmade : (x.shift i d).made = x.made := by simp [SharedSession.shift, hn]
  have huntold : (x.shift i d).untold = x.untold := by
    rw [untold, hline]
    exact tellsNext_update hi
  refine ⟨?_, ?_, ?_, ?_, ?_, ?_, ?_⟩
  · rw [hmade]
    exact h.chained
  · rw [hmade]
    exact h.current.trans hp.symm
  · rw [hline]
    exact h.distinct
  · rw [hline]
    exact h.inLine_update hi _
  · rw [hline]
    exact fun j hj => h.others_update hn fun _ => hj
  · rw [hmade, huntold]
    exact h.all
  · rw [hmade, huntold]
    exact h.ordered

/-- Who changes the phase is the last of the line. -/
theorem shift_phase (h : x.Accounted) (d : Session.Deed) {more : List Event} (hi : i ∉ x.line)
    (he : d.events x.session.state =
      .phaseChanged x.session.state.phase (d.next x.session.state).phase :: more)
    (hmore : phaseChanges more = []) : (x.shift i d).Accounted := by
  have hn : phaseChanges (d.events x.session.state) =
      [(x.session.state.phase, (d.next x.session.state).phase)] := by
    rw [he]
    simpa [phaseChanges, Event.change?] using hmore
  have hline : (x.shift i d).line = x.line ++ [i] := by simp [SharedSession.shift, hn]
  have hmade : (x.shift i d).made =
      x.made ++ [(x.session.state.phase, (d.next x.session.state).phase)] := by
    simp [SharedSession.shift, hn]
  have hself : (x.shift i d).owed i =
      .phaseChanged x.session.state.phase (d.next x.session.state).phase :: more := by
    simp [SharedSession.shift, he]
  have huntold : (x.shift i d).untold =
      x.untold ++ [(x.session.state.phase, (d.next x.session.state).phase)] := by
    have hnext : (x.shift i d).tellsNext i =
        some (x.session.state.phase, (d.next x.session.state).phase) := by
      simp [tellsNext, hself, Event.change?]
    rw [untold, hline, List.filterMap_append, List.filterMap_cons_some hnext]
    exact congrArg (· ++ _) (tellsNext_update hi)
  refine ⟨?_, ?_, ?_, ?_, ?_, ?_, ?_⟩
  · rw [hmade]
    refine List.isChain_append.mpr ⟨h.chained, .singleton _, fun a ha b hb => ?_⟩
    have hc := h.current
    rw [ha] at hc
    cases hb
    exact hc
  · rw [hmade, List.getLast?_concat]
    rfl
  · rw [hline]
    refine List.nodup_append.mpr ⟨h.distinct, List.nodup_singleton i, fun a ha b hb hab => ?_⟩
    rw [hab, List.mem_singleton.mp hb] at ha
    exact hi ha
  · rw [hline]
    intro j hj
    rcases List.mem_append.mp hj with hj | hj
    · exact h.inLine_update hi _ j hj
    · rw [List.mem_singleton.mp hj]
      exact ⟨_, _, more, hself, hmore⟩
  · rw [hline]
    intro j hj
    rw [List.mem_append, not_or] at hj
    have hji : j ≠ i := fun hji => hj.2 (List.mem_singleton.mpr hji)
    show phaseChanges (Function.update x.owed i _ j) = []
    rw [Function.update_of_ne hji]
    exact h.others j hj.1
  · rw [hmade, huntold]
    have hall := h.all.append_right [(x.session.state.phase, (d.next x.session.state).phase)]
    rwa [List.append_assoc] at hall
  · intro ho
    rw [hmade, huntold, ← h.ordered ho, List.append_assoc]
    rfl

/-- A change that is made under the lock goes on from the last one made. -/
theorem shift (h : x.Accounted) (d : Session.Deed) (free : x.owed i = []) :
    (x.shift i d).Accounted := by
  have hi : i ∉ x.line := h.notInLine (by rw [free]; rfl)
  rcases d.events_cases x.session.state with ⟨hp, hn⟩ | ⟨more, he, hmore⟩
  · exact h.shift_other d hi hp hn
  · exact h.shift_phase d hi he hmore

/-- Sending what tells no change of phase changes nothing here. -/
theorem send_other (h : x.Accounted) {e : Event} {es : List Event} (owes : x.owed i = e :: es)
    (hi : i ∉ x.line) : (x.send i e es).Accounted := by
  have hes : e.change? = none ∧ phaseChanges es = [] := by
    have ho := h.others i hi
    rw [owes] at ho
    cases hc : e.change? with
    | none =>
      rw [phaseChanges, List.filterMap_cons_none hc] at ho
      exact ⟨rfl, ho⟩
    | some c =>
      rw [phaseChanges, List.filterMap_cons_some hc] at ho
      cases ho
  have hline : (x.send i e es).line = x.line := by simp [SharedSession.send, hes.1]
  have hover : (x.send i e es).overtaken = x.overtaken := by simp [SharedSession.send, hes.1]
  have htold : (x.send i e es).told = x.told := by simp [told_send, hes.1]
  have huntold : (x.send i e es).untold = x.untold := by
    rw [untold, hline]
    exact tellsNext_update hi
  refine ⟨h.chained, h.current, ?_, ?_, ?_, ?_, ?_⟩
  · rw [hline]
    exact h.distinct
  · rw [hline]
    exact h.inLine_update hi _
  · rw [hline]
    exact fun j hj => h.others_update hes.2 fun _ => hj
  · rw [htold, huntold]
    exact h.all
  · rw [hover, htold, huntold]
    exact h.ordered

/-- A thread tells the change of phase that it made, in its turn or not. -/
theorem send_phase (h : x.Accounted) {e : Event} {es : List Event} (owes : x.owed i = e :: es)
    (hi : i ∈ x.line) : (x.send i e es).Accounted := by
  obtain ⟨p, q, more, he, hmore⟩ := h.inLine i hi
  obtain ⟨rfl, rfl⟩ := List.cons.inj (owes.symm.trans he)
  obtain ⟨older, younger, hl⟩ := List.append_of_mem hi
  have hd : (older ++ i :: younger).Nodup := hl ▸ h.distinct
  obtain ⟨-, hyoung, hold⟩ := List.nodup_append.mp hd
  have hio : i ∉ older := fun hm => hold i hm i List.mem_cons_self rfl
  have hiy : i ∉ younger := (List.nodup_cons.mp hyoung).1
  have hline : (x.send i (.phaseChanged p q) es).line = older ++ younger := by
    show x.line.erase i = _
    rw [hl, List.erase_append_right _ hio, List.erase_cons_head]
  have hnot : i ∉ older ++ younger := by simp [hio, hiy]
  have hsub : ∀ j ∈ older ++ younger, j ∈ x.line := by
    intro j hj
    rw [hl]
    exact List.mem_append.mpr ((List.mem_append.mp hj).imp_right (List.mem_cons_of_mem i))
  have htold : (x.send i (.phaseChanged p q) es).told = x.told ++ [(p, q)] := told_send
  have huntold : (x.send i (.phaseChanged p q) es).untold =
      older.filterMap x.tellsNext ++ younger.filterMap x.tellsNext := by
    rw [untold, hline, ← List.filterMap_append]
    exact tellsNext_update hnot
  have hbefore : x.untold =
      older.filterMap x.tellsNext ++ (p, q) :: younger.filterMap x.tellsNext := by
    have hnext : x.tellsNext i = some (p, q) := by simp [tellsNext, owes, Event.change?]
    rw [untold, hl, List.filterMap_append, List.filterMap_cons_some hnext]
  refine ⟨h.chained, h.current, ?_, ?_, ?_, ?_, ?_⟩
  · rw [hline]
    exact (List.nodup_middle.mp hd).of_cons
  · rw [hline]
    intro j hj
    have hji : j ≠ i := fun hji => hnot (hji ▸ hj)
    show ∃ p' q' more, Function.update x.owed i es j = _ ∧ _
    rw [Function.update_of_ne hji]
    exact h.inLine j (hsub j hj)
  · rw [hline]
    refine fun j hj => h.others_update hmore fun hji hm => hj ?_
    rw [hl, List.mem_append, List.mem_cons] at hm
    rcases hm with hm | rfl | hm
    · exact List.mem_append_left _ hm
    · exact absurd rfl hji
    · exact List.mem_append_right _ hm
  · have hall := h.all
    rw [hbefore] at hall
    rw [htold, huntold, List.append_assoc, List.singleton_append]
    exact (List.perm_middle.symm.append_left x.told).trans hall
  · intro ho
    have hboth : x.overtaken = false ∧ x.line.head? = some i := by
      simpa [SharedSession.send, Event.change?] using ho
    -- In its turn the thread is the first of the line.
    have hnil : older = [] := by
      cases older with
      | nil => rfl
      | cons j older =>
        rw [hl] at hboth
        have hj : j = i := Option.some.inj hboth.2
        exact absurd (hj ▸ List.mem_cons_self) hio
    have hord := h.ordered hboth.1
    rw [hbefore, hnil] at hord
    rw [htold, huntold, hnil, List.append_assoc]
    exact hord

theorem step {y : SharedSession} (h : x.Accounted) (s : x.Step y) : y.Accounted := by
  cases s with
  | shift d free => exact h.shift d free
  | @send i e es owes =>
    by_cases hi : i ∈ x.line
    · exact h.send_phase owes hi
    · exact h.send_other owes hi

theorem reaches {y : SharedSession} (h : x.Accounted) (r : x.Reaches y) : y.Accounted := by
  induction r with
  | refl => exact h
  | tail _ s ih => exact ih.step s

/-- Nobody is in the line when nobody has anything to send. -/
theorem line_nil (h : x.Accounted) (quiet : ∀ i, x.owed i = []) : x.line = [] := by
  refine List.eq_nil_iff_forall_not_mem.mpr fun i hi => ?_
  exact h.notInLine (by rw [quiet i]; rfl) hi

/-- Changes that are told in their order can be followed. -/
theorem follows (h : x.Accounted) (ho : x.overtaken = false) : x.Follows := by
  have hall := h.ordered ho
  refine ⟨?_, fun quiet => ?_⟩
  · have hc := h.chained
    rw [← hall] at hc
    exact List.IsChain.left_of_append hc
  · rw [untold, h.line_nil quiet, List.filterMap_nil, List.append_nil] at hall
    rw [← h.current, ← hall]
    rfl

end Accounted

variable {x : SharedSession}

/-- However the threads are interleaved, the changes of phase go on from each other as they are
made, and each is told once. They are told in that order, and can be followed, if no thread is
overtaken between its change and its sending. -/
theorem follows_unless_overtaken (h : Reaches {} x) :
    Chained x.made ∧ (x.made.getLast?.map Prod.snd).getD .unloaded = x.session.state.phase ∧
      ((∀ i, x.owed i = []) → x.told.Perm x.made) ∧ (x.overtaken = false → x.Follows) := by
  have ha := Accounted.start.reaches h
  refine ⟨ha.chained, ha.current, fun quiet => ?_, ha.follows⟩
  have hall := ha.all
  rwa [untold, ha.line_nil quiet, List.filterMap_nil, List.append_nil] at hall

/-- One thread after the other changes the phase and tells so. -/
theorem follows_unless_overtaken_in_turn :
    ∃ x, Reaches {} x ∧ x.told = [(.unloaded, .loading), (.loading, .ready)] ∧ x.Follows := by
  have h := Relation.ReflTransGen.refl (r := Step) (a := ({} : SharedSession))
  have h := h.tail (.shift (i := 0) (.setPhase .loading) rfl)
  have h := h.tail (.send (i := 0) rfl)
  have h := h.tail (.shift (i := 1) (.providerBound "only") rfl)
  have h := h.tail (.send (i := 1) rfl)
  have h := h.tail (.send (i := 1) rfl)
  exact ⟨_, h, rfl, (follows_unless_overtaken h).2.2.2 rfl⟩

/-- Two threads have changed the phase, and the second was the first to tell so. -/
def crossed : SharedSession :=
  ((({} : SharedSession).shift 0 (.setPhase .loading)).shift 1 (.setPhase .ready)
    |>.send 1 (.phaseChanged .loading .ready) []).send 0 (.phaseChanged .unloaded .loading) []

/-- Then nobody has anything to send, and the phase that was told last is one that the session has
left. -/
theorem crossed_not_follows :
    Reaches {} crossed ∧ (∀ i, crossed.owed i = []) ∧ crossed.session.state.phase = .ready ∧
      crossed.told = [(.loading, .ready), (.unloaded, .loading)] ∧ ¬Chained crossed.told ∧
      phaseAfter crossed.session.events.sent.toList = .loading ∧ ¬crossed.Follows := by
  have h := Relation.ReflTransGen.refl (r := Step) (a := ({} : SharedSession))
  have h := h.tail (.shift (i := 0) (.setPhase .loading) rfl)
  have h := h.tail (.shift (i := 1) (.setPhase .ready) rfl)
  have h := h.tail (.send (i := 1) rfl)
  have h := h.tail (.send (i := 0) rfl)
  have quiet : ∀ i, crossed.owed i = [] := by
    rintro (_ | _ | i) <;> rfl
  have htold : crossed.told = [(.loading, .ready), (.unloaded, .loading)] := rfl
  have hc : ¬Chained crossed.told := by
    rw [htold, Chained]
    decide
  exact ⟨h, quiet, rfl, htold, hc, rfl, fun hf => hc hf.chained⟩

end SharedSession

end SccDispatch
