import SccDispatch.Proofs.SharedSession

namespace SccDispatch

structure Outline where
  phase : Phase
  project : Option String
  faults : UInt64
  deriving DecidableEq, Repr

namespace Outline

def apply (o : Outline) : Event → Outline
  | .phaseChanged _ phase => { o with phase }
  | .providerBound _ => o
  | .projectOpened name => { o with project := some name }
  | .projectClosed => { o with project := none }
  | .faulted .. => { o with faults := o.faults + 1 }

def applyAll (o : Outline) (es : List Event) : Outline := es.foldl apply o

theorem applyAll_append (o : Outline) (es fs : List Event) :
    o.applyAll (es ++ fs) = (o.applyAll es).applyAll fs := List.foldl_append

end Outline

namespace SessionState

def outline (s : SessionState) : Outline := ⟨s.phase, s.project.map Project.name, s.faults⟩

variable {s t : SessionState} {o : Outline}

theorem applyAll_phaseEvents (h : o.phase = s.phase) :
    o.applyAll (phaseEvents s t) = { o with phase := t.phase } := by
  unfold phaseEvents
  split
  next hp =>
    rw [← hp, ← h]
    rfl
  next => rfl

theorem applyAll_providerEvents : o.applyAll (providerEvents s t) = o := by
  unfold providerEvents
  split
  next => rfl
  next => split <;> rfl

/-- Two projects of one name are told apart, but an outline is the same for both. -/
theorem applyAll_projectEvents (h : o.project = s.project.map Project.name) :
    o.applyAll (projectEvents s t) = { o with project := t.project.map Project.name } := by
  unfold projectEvents
  split
  next hp =>
    rw [← hp, ← h]
    rfl
  next =>
    split
    next p hp =>
      rw [hp]
      rfl
    next hp =>
      rw [hp]
      rfl

/-- The events of a change bring the old outline to the new one, but for the faults. -/
theorem applyAll_changes (s t : SessionState) :
    s.outline.applyAll (changes s t) = { t.outline with faults := s.faults } := by
  rw [changes, Outline.applyAll_append, Outline.applyAll_append,
    applyAll_phaseEvents (s := s) rfl, applyAll_providerEvents, applyAll_projectEvents rfl]
  rfl

end SessionState

theorem mem_phaseChanges {es : List Event} {p q : Phase} :
    (p, q) ∈ phaseChanges es ↔ .phaseChanged p q ∈ es := by
  constructor
  · intro h
    obtain ⟨e, he, hc⟩ := List.mem_filterMap.mp h
    cases e <;> cases hc
    exact he
  · exact fun h => List.mem_filterMap.mpr ⟨_, h, rfl⟩

namespace Session

namespace Deed

/-- An update of its own choice changes the phase, the provider and the project at will, but not
the count of faults. -/
def KeepsCount : Deed → Prop
  | update f => ∀ s, (f s).faults = s.faults
  | _ => True

/-- What a deed tells is enough to follow it. -/
theorem applyAll_events {d : Deed} (h : d.KeepsCount) (s : SessionState) :
    s.outline.applyAll (d.events s) = (d.next s).outline := by
  rw [events, Outline.applyAll_append, SessionState.applyAll_changes]
  cases d with
  | update f =>
    have hf : s.faults = (f s).faults := (h s).symm
    simp only [next, report, hf]
    rfl
  | _ => rfl

/-- What a deed returns is what it sends. It tells of no phase but the one it found and the one it
left, and of nothing if nothing was changed. -/
structure Told (d : Deed) (s : Session) : Prop where
  sent : (d.perform s).2.events.sent.toList = s.events.sent.toList ++ (d.perform s).1
  phases : ∀ p q, .phaseChanged p q ∈ (d.perform s).1 →
    p = s.state.phase ∧ q = (d.perform s).2.state.phase
  silent : (∀ f, d ≠ .recordFault f) → (d.perform s).2.state.phase = s.state.phase →
    (d.perform s).2.state.provider = s.state.provider →
    (d.perform s).2.state.project = s.state.project → (d.perform s).1 = []

theorem state_perform (d : Deed) (s : Session) : (d.perform s).2.state = d.next s.state := by
  rw [perform_eq]
  rfl

/-- Each deed returns what it sends. -/
theorem told (d : Deed) (s : Session) : d.Told s where
  sent := by
    rw [perform_eq]
    exact toList_emit _ _
  phases p q h := by
    rw [state_perform]
    rw [perform_eq] at h
    have hm := mem_phaseChanges.mpr h
    rcases d.events_cases s.state with ⟨-, hnone⟩ | ⟨more, he, hmore⟩
    · rw [hnone] at hm
      cases hm
    · have hone : phaseChanges (d.events s.state) = [(s.state.phase, (d.next s.state).phase)] := by
        rw [he, ← hmore]
        rfl
      rw [hone, List.mem_singleton] at hm
      exact Prod.mk.inj hm
  silent hd hphase hprovider hproject := by
    rw [state_perform] at hphase hprovider hproject
    have hreport : d.report = [] := by
      cases d with
      | recordFault f => exact absurd rfl (hd f)
      | _ => rfl
    rw [perform_eq]
    simp only [events, hreport, List.append_nil]
    rw [changes_eq, hphase, hprovider, hproject]
    simp

end Deed

def performAll (s : Session) : List Deed → List (List Event) × Session
  | [] => ([], s)
  | d :: ds =>
    let (es, s) := d.perform s
    let (told, s) := s.performAll ds
    (es :: told, s)

theorem performAll_cons (s : Session) (d : Deed) (ds : List Deed) :
    s.performAll (d :: ds) =
      ((d.perform s).1 :: ((d.perform s).2.performAll ds).1, ((d.perform s).2.performAll ds).2) :=
  rfl

theorem getElem?_performAll (s : Session) (before after : List Deed) (d : Deed) :
    (s.performAll (before ++ d :: after)).1[before.length]? =
      some (d.perform (s.performAll before).2).1 := by
  induction before generalizing s with
  | nil => rfl
  | cons b before ih =>
    rw [List.cons_append, performAll_cons, List.length_cons, List.getElem?_cons_succ]
    exact ih _

/-- Deeds made one after another can be followed by what they return. -/
theorem applyAll_performAll (s : Session) {ds : List Deed} (h : ∀ d ∈ ds, d.KeepsCount) :
    s.state.outline.applyAll (s.performAll ds).1.flatten = (s.performAll ds).2.state.outline := by
  induction ds generalizing s with
  | nil => rfl
  | cons d ds ih =>
    have hd : s.state.outline.applyAll (d.perform s).1 = (d.perform s).2.state.outline := by
      rw [d.state_perform, d.perform_eq]
      exact Deed.applyAll_events (h d List.mem_cons_self) s.state
    rw [performAll_cons, List.flatten_cons, Outline.applyAll_append, hd]
    exact ih _ fun e he => h e (List.mem_cons_of_mem d he)

/-- What they return is what was sent meanwhile. -/
theorem sent_performAll (s : Session) (ds : List Deed) :
    (s.performAll ds).2.events.sent.toList =
      s.events.sent.toList ++ (s.performAll ds).1.flatten := by
  induction ds generalizing s with
  | nil => exact (List.append_nil _).symm
  | cons d ds ih =>
    rw [performAll_cons, ih, (d.told s).sent, List.flatten_cons, List.append_assoc]

/-- Whatever is asked of a session, its events tell how it stands: followed from where the session
stood at first they lead to its phase, its project's name and its count of faults. Each deed
returns just what was sent for it, in the order of the deeds. -/
theorem events_replay (s : Session) {ds : List Deed} (h : ∀ d ∈ ds, d.KeepsCount) :
    let told := (s.performAll ds).1
    let left := (s.performAll ds).2
    s.state.outline.applyAll told.flatten = left.state.outline ∧
      left.events.sent.toList = s.events.sent.toList ++ told.flatten ∧
      ∀ before d after, ds = before ++ d :: after →
        told[before.length]? = some (d.perform (s.performAll before).2).1 ∧
          d.Told (s.performAll before).2 := by
  intro told left
  refine ⟨applyAll_performAll s h, sent_performAll s ds, ?_⟩
  rintro before d after rfl
  exact ⟨getElem?_performAll s before after d, d.told _⟩

def engaged : Session where
  state :=
    { phase := .projectOpen, provider := some "Fake", project := some { name := "a" }, faults := 1 }

def exchanges : List Deed :=
  [.update fun s =>
      { s with phase := .ready, provider := some "Other", project := some { name := "b" } },
    .projectOpened { user := "u", name := "b" }, .recordFault ⟨"diff", "boom"⟩, .projectClosed]

theorem events_replay_exchanges :
    (∀ d ∈ exchanges, d.KeepsCount) ∧
      engaged.state.outline.applyAll (engaged.performAll exchanges).1.flatten =
        ⟨.ready, none, 2⟩ := by
  have h : ∀ d ∈ exchanges, d.KeepsCount := by
    intro d hd
    simp only [exchanges, List.mem_cons, List.not_mem_nil, or_false] at hd
    rcases hd with rfl | rfl | rfl | rfl
    · exact fun _ => rfl
    all_goals trivial
  exact ⟨h, (events_replay engaged h).1⟩

end Session

end SccDispatch
