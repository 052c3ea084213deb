import SccDispatch.Proofs.WorkerDelivery
import SccDispatch.Session

namespace SccDispatch

def Phase.successors : Phase → List Phase
  | unloaded => [loading]
  | loading => [ready, unloaded]
  | ready => [projectOpen, unloading]
  | projectOpen => [ready, unloading]
  | unloading => [unloaded]

namespace Event

def change? : Event → Option (Phase × Phase)
  | phaseChanged before after => some (before, after)
  | _ => none

def leavesOpen (before : Bool) : Event → Bool
  | projectOpened _ => true
  | projectClosed => false
  | _ => before

end Event

def phaseChanges (es : List Event) : List (Phase × Phase) := es.filterMap Event.change?

def phaseAfter (es : List Event) : Phase := ((phaseChanges es).getLast?.map Prod.snd).getD .unloaded

def openAfter (es : List Event) : Bool := es.foldl Event.leavesOpen false

section Concat

variable (es : List Event) (e : Event)

@[simp]
theorem phaseChanges_concat : phaseChanges (es ++ [e]) = phaseChanges es ++ e.change?.toList :=
  SharedWorker.filterMap_concat _ _ _

@[simp]
theorem phaseAfter_changed (p q : Phase) : phaseAfter (es ++ [.phaseChanged p q]) = q := by
  simp [phaseAfter, Event.change?]

theorem phaseAfter_of_unchanged (h : e.change? = none) :
    phaseAfter (es ++ [e]) = phaseAfter es := by
  simp [phaseAfter, h]

@[simp]
theorem openAfter_concat : openAfter (es ++ [e]) = e.leavesOpen (openAfter es) := by
  simp [openAfter]

end Concat

/-- The events of a session from its beginning, the phase it has come to, and whether a project is
open. -/
inductive Lifecycle : List Event → Phase → Bool → Prop
  | start : Lifecycle [] .unloaded false
  | faulted {es : List Event} {phase : Phase} {isOpen : Bool} (h : Lifecycle es phase isOpen)
      (operation message : String) : Lifecycle (es ++ [.faulted operation message]) phase isOpen
  | load {es : List Event} (h : Lifecycle es .unloaded false) :
      Lifecycle (es ++ [.phaseChanged .unloaded .loading]) .loading false
  | fail {es : List Event} (h : Lifecycle es .loading false) :
      Lifecycle (es ++ [.phaseChanged .loading .unloaded]) .unloaded false
  | bind {es : List Event} (h : Lifecycle es .loading false) (name : String) :
      Lifecycle (es ++ [.phaseChanged .loading .ready] ++ [.providerBound name]) .ready false
  | openProject {es : List Event} (h : Lifecycle es .ready false) (name : String) :
      Lifecycle (es ++ [.phaseChanged .ready .projectOpen] ++ [.projectOpened name])
        .projectOpen true
  | closeProject {es : List Event} (h : Lifecycle es .projectOpen true) :
      Lifecycle (es ++ [.phaseChanged .projectOpen .ready] ++ [.projectClosed]) .ready false
  | release {es : List Event} (h : Lifecycle es .ready false) :
      Lifecycle (es ++ [.phaseChanged .ready .unloading]) .unloading false
  | releaseOpen {es : List Event} (h : Lifecycle es .projectOpen true) :
      Lifecycle (es ++ [.phaseChanged .projectOpen .unloading]) .unloading true
  | unload {es : List Event} (h : Lifecycle es .unloading false) :
      Lifecycle (es ++ [.phaseChanged .unloading .unloaded]) .unloaded false
  | unloadOpen {es : List Event} (h : Lifecycle es .unloading true) :
      Lifecycle (es ++ [.phaseChanged .unloading .unloaded] ++ [.projectClosed]) .unloaded false

/-- What has come before an event. A provider that was bound is told at once, and then only. -/
def Event.Due (before : List Event) (e : Event) : Prop :=
  (before.getLast? = some (.phaseChanged .loading .ready) → ∃ name, e = .providerBound name) ∧
  match e with
  | .phaseChanged p q => p = phaseAfter before ∧ q ∈ p.successors
  | .providerBound _ => before.getLast? = some (.phaseChanged .loading .ready)
  | .projectOpened _ =>
    openAfter before = false ∧ before.getLast? = some (.phaseChanged .ready .projectOpen)
  | .projectClosed =>
    openAfter before = true ∧
      (before.getLast? = some (.phaseChanged .projectOpen .ready) ∨
        before.getLast? = some (.phaseChanged .unloading .unloaded) ∧
          [(.projectOpen, .unloading), (.unloading, .unloaded)] <:+ phaseChanges before)
  | .faulted .. => True

namespace Lifecycle

variable {es : List Event} {phase : Phase} {isOpen : Bool}

/-- The events of a life tell the phase it has come to. -/
theorem phaseAfter_eq (h : Lifecycle es phase isOpen) : phaseAfter es = phase := by
  induction h with
  | start => rfl
  | faulted h operation message ih => rw [phaseAfter_of_unchanged _ _ rfl, ih]
  | bind h name ih => rw [phaseAfter_of_unchanged _ _ rfl, phaseAfter_changed]
  | openProject h name ih => rw [phaseAfter_of_unchanged _ _ rfl, phaseAfter_changed]
  | closeProject h ih => rw [phaseAfter_of_unchanged _ _ rfl, phaseAfter_changed]
  | unloadOpen h ih => rw [phaseAfter_of_unchanged _ _ rfl, phaseAfter_changed]
  | _ => rw [phaseAfter_changed]

theorem openAfter_eq (h : Lifecycle es phase isOpen) : openAfter es = isOpen := by
  induction h with
  | start => rfl
  | _ => simp only [openAfter_concat, Event.leavesOpen, *]

/-- Nothing is missing after the last event. -/
theorem getLast?_ne (h : Lifecycle es phase isOpen) :
    es.getLast? ≠ some (.phaseChanged .loading .ready) := by
  cases h <;> simp

/-- A session that is unloading while a project is open was told so when it began to. -/
theorem getLast?_phaseChanges (h : Lifecycle es .unloading true) :
    (phaseChanges es).getLast? = some (.projectOpen, .unloading) := by
  generalize hp : Phase.unloading = p at h
  generalize ho : true = o at h
  induction h with
  | faulted h operation message ih => simpa [Event.change?] using ih hp ho
  | releaseOpen h ih => simp [Event.change?]
  | openProject h name ih => cases hp
  | _ => cases ho

/-- An event that tells a change of phase and nothing that has to follow another. -/
theorem due_changed (h : Lifecycle es phase isOpen) {q : Phase} (hq : q ∈ phase.successors) :
    (Event.phaseChanged phase q).Due es :=
  ⟨fun hl => absurd hl h.getLast?_ne, h.phaseAfter_eq.symm, hq⟩

/-- Each event of a life comes when it may. -/
theorem due (h : Lifecycle es phase isOpen) :
    ∀ before e after, es = before ++ e :: after → e.Due before := by
  induction h with
  | start => simp
  | faulted h operation message ih =>
    exact SharedWorker.forall_split_concat ih ⟨fun hl => absurd hl h.getLast?_ne, trivial⟩
  | load h ih => exact SharedWorker.forall_split_concat ih (h.due_changed (by decide))
  | fail h ih => exact SharedWorker.forall_split_concat ih (h.due_changed (by decide))
  | bind h name ih =>
    have hc := SharedWorker.forall_split_concat ih (h.due_changed (q := .ready) (by decide))
    refine SharedWorker.forall_split_concat hc ⟨fun _ => ⟨name, rfl⟩, ?_⟩
    exact List.getLast?_concat
  | openProject h name ih =>
    have hc := SharedWorker.forall_split_concat ih (h.due_changed (q := .projectOpen) (by decide))
    refine SharedWorker.forall_split_concat hc ⟨by simp, ?_, List.getLast?_concat⟩
    rw [openAfter_concat, h.openAfter_eq]
    rfl
  | closeProject h ih =>
    have hc := SharedWorker.forall_split_concat ih (h.due_changed (q := .ready) (by decide))
    refine SharedWorker.forall_split_concat hc ⟨by simp, ?_, .inl List.getLast?_concat⟩
    rw [openAfter_concat, h.openAfter_eq]
    rfl
  | release h ih => exact SharedWorker.forall_split_concat ih (h.due_changed (by decide))
  | releaseOpen h ih => exact SharedWorker.forall_split_concat ih (h.due_changed (by decide))
  | unload h ih => exact SharedWorker.forall_split_concat ih (h.due_changed (by decide))
  | unloadOpen h ih =>
    have hc := SharedWorker.forall_split_concat ih (h.due_changed (q := .unloaded) (by decide))
    obtain ⟨old, hl⟩ := List.getLast?_eq_some_iff.mp h.getLast?_phaseChanges
    refine SharedWorker.forall_split_concat hc ⟨by simp, ?_, .inr ⟨List.getLast?_concat, old, ?_⟩⟩
    · rw [openAfter_concat, h.openAfter_eq]
      rfl
    · rw [phaseChanges_concat, hl, List.append_assoc]
      rfl

end Lifecycle

end SccDispatch
