import SccDispatch.Proofs.ProviderTraces
import SccDispatch.Proofs.MaskedRuns

namespace SccDispatch

/-- A fault is told as an unknown error where there is something to tell it with. -/
def Call.maskFault (call : Call) (filling : Option Filling) (r : Except Cause call.Answer) :
    Except Cause call.Answer :=
  match r, filling.bind fun filling => call.unknown filling with
  | .error _, some a => .ok a
  | r, _ => r

/-- Whatever is told instead of a fault, the two answers are alike. -/
theorem alike_maskFault (call : Call) (a b : Option Filling) (r : Except Cause call.Answer) :
    call.Alike (call.maskFault a r) (call.maskFault b r) := by
  cases r with
  | ok _ => exact .inl rfl
  | error cause =>
    by_cases hc : call = .threadsafeQuery
    · subst hc
      left
      cases a <;> cases b <;> rfl
    · have hu (filling : Option Filling) :
          call.Unknown (call.maskFault filling (.error cause)) := by
        unfold Call.maskFault
        cases hf : filling.bind fun filling => call.unknown filling with
        | none => exact hc
        | some a =>
          obtain ⟨filling, -, ha⟩ := Option.bind_eq_some_iff.mp hf
          exact ⟨filling, ha⟩
      exact .inr ⟨hu a, hu b⟩

/-- A provider whose faults are told as unknown errors at the calls for which `instead` has a
filling; calls are counted from the first. -/
structure FaultMasked (π : Type) where
  inner : Traced π
  instead : Nat → Option Filling

namespace FaultMasked

variable {π : Type}

def seen (s : FaultMasked π) : List Seen := s.inner.seen

/-- The same provider when all faults stay. -/
def unmask (s : FaultMasked π) : FaultMasked π := { s with instead := fun _ => none }

variable [Provider π]

def respond (s : FaultMasked π) (on : Thread) (call : Call) :
    Except Cause call.Answer × FaultMasked π :=
  let (r, inner) := s.inner.respond on call
  (call.maskFault (s.instead s.seen.length) r, { s with inner })

instance : Provider (FaultMasked π) := ⟨respond, fun s => spent s.inner⟩

/-- Providers that differ in what is told of their faults answer alike. -/
theorem masksFaults_unmask : MasksFaults (unmask : FaultMasked π → FaultMasked π) where
  answer {p q} h on call := by
    have hp : p.inner = q.inner := (congrArg inner h :)
    change call.Alike (call.maskFault _ (p.inner.respond on call).1)
      (call.maskFault _ (q.inner.respond on call).1)
    rw [hp]
    exact alike_maskFault call _ _ _
  state {p q} h on call := by
    have hp : p.inner = q.inner := (congrArg inner h :)
    change unmask { p with inner := (p.inner.respond on call).2 } =
      unmask { q with inner := (q.inner.respond on call).2 }
    simp only [unmask, hp]
  time {p q} h := by
    have hp : p.inner = q.inner := (congrArg inner h :)
    change spent p.inner = spent q.inner
    rw [hp]

end FaultMasked

section Calls

variable {π : Type}

/-- Brings the provider in with a choice of what is told instead of its faults. -/
def Loader.faultMasked (instead : Nat → Option Filling) (l : Loader π) :
    Loader (FaultMasked π) where
  path := l.path
  load last :=
    (l.traced.load (last.map FaultMasked.inner)).map (Except.map fun inner => { inner, instead })

def Operation.faultMasked (op : Operation π) (instead : Nat → Option Filling) :
    Operation (FaultMasked π) := op.mapLoader (Loader.faultMasked instead)

/-- Loaders that differ in it bring in such providers. -/
theorem sameMasked_faultMasked (l : Loader π) (i k : Nat → Option Filling) :
    (l.faultMasked i).SameMasked FaultMasked.unmask (l.faultMasked k) where
  path := rfl
  load a b h := by
    have hp : a.map FaultMasked.inner = b.map FaultMasked.inner := by
      have hm := congrArg (Option.map FaultMasked.inner) h
      rw [Option.map_map, Option.map_map] at hm
      exact hm
    simp only [Loader.faultMasked, hp]
    rcases l.traced.load (b.map FaultMasked.inner) with _ | _ | _ <;> rfl

/-- Calls that differ in what is told instead are the same with faults masked. -/
theorem operation_sameMasked (op : Operation π) (i k : Nat → Option Filling) :
    (op.faultMasked i).SameMasked FaultMasked.unmask (op.faultMasked k) := by
  cases op with
  | bind name loader window => exact .bind name window (sameMasked_faultMasked loader i k)
  | bindIndex registry load index window =>
    exact .bindIndex registry index window fun p => sameMasked_faultMasked (load p) i k
  | bindName registry load name window =>
    exact .bindName registry name window fun p => sameMasked_faultMasked (load p) i k
  | shutdown => exact .shutdown
  | selectProject initial => exact .selectProject initial
  | openProject p => exact .openProject p
  | closeProject => exact .closeProject
  | request r => exact .request r

namespace Dispatcher

/-- Nothing that can be seen from outside differs, but for what is counted, told and written down
of faults and of negative codes. -/
structure Alike (d e : Dispatcher (FaultMasked π)) : Prop where
  isBound : d.isBound = e.isBound
  info : d.info? = e.info?
  concurrent : d.hasConcurrentQueries = e.hasConcurrentQueries
  project : d.project = e.project
  selected : d.selected = e.selected
  phase : d.journal.session.state.phase = e.journal.session.state.phase
  name : d.journal.session.state.provider = e.journal.session.state.provider
  opened : d.journal.session.state.project = e.journal.session.state.project
  seen : d.binding.map (·.worker.provider.seen) = e.binding.map (·.worker.provider.seen)
  seenBefore : d.retired.map (·.provider.seen) = e.retired.map (·.provider.seen)
  events : d.journal.session.events.unfaulted = e.journal.session.events.unfaulted
  metrics : d.journal.metrics.maskFaults = e.journal.metrics.maskFaults

/-- Dispatchers that are the same with faults masked look alike from outside. -/
theorem alike_of_maskFaults {d e : Dispatcher (FaultMasked π)}
    (h : d.maskFaults FaultMasked.unmask = e.maskFaults FaultMasked.unmask) : d.Alike e := by
  have hj := journal_sameMasked h
  have hs : d.journal.session.state.standing = e.journal.session.state.standing :=
    (congrArg (·.session.state) hj :)
  have hret := congrArg (List.map fun r => r.provider.seen) (congrArg retired h)
  simp only [maskFaults, List.map_map] at hret
  have hb : d.info? = e.info? ∧ d.hasConcurrentQueries = e.hasConcurrentQueries ∧
      d.binding.map (·.worker.provider.seen) = e.binding.map (·.worker.provider.seen) := by
    rcases bindings_of_sameMasked h with ⟨h1, h2⟩ | ⟨b, c, h1, h2, hb⟩
    · simp [info?, hasConcurrentQueries, h1, h2]
    · have hinfo := Binding.info_sameMasked hb
      have hcon := Binding.concurrent_sameMasked hb
      have hseen : b.worker.provider.seen = c.worker.provider.seen :=
        (congrArg (·.worker.provider.seen) hb :)
      simp [info?, hasConcurrentQueries, h1, h2, hinfo, hcon, hseen]
  exact
    { isBound := isBound_of_sameMasked h
      info := hb.1
      concurrent := hb.2.1
      project := project_sameMasked h
      selected := selected_sameMasked h
      phase := (congrArg SessionState.phase hs :)
      name := (congrArg SessionState.provider hs :)
      opened := (congrArg SessionState.project hs :)
      seen := hb.2.2
      seenBefore := hret
      events := (congrArg (·.session.events.sent) hj :)
      metrics := (congrArg Journal.metrics hj :) }

variable [Provider π]

/-- A run in which some faults are told as unknown errors goes like the run in which none is: every
call is answered alike, and providers receive the same calls. -/
theorem faults_are_unknown_errors (options : Options)
    (calls : List (Operation π × (Nat → Option Filling))) :
    let start : Dispatcher (FaultMasked π) := { options }
    let faulting := start.performAll (calls.map fun c => c.1.faultMasked fun _ => none)
    let faultMasked := start.performAll (calls.map fun c => c.1.faultMasked c.2)
    faulting.1 = faultMasked.1 ∧ faulting.2.Alike faultMasked.2 := by
  intro start faulting faultMasked
  have hi : start.Idle := idle_of_unbound rfl
  have ht : List.Forall₂ (Operation.SameMasked FaultMasked.unmask)
      (calls.map fun c => c.1.faultMasked fun _ => none)
      (calls.map fun c => c.1.faultMasked c.2) := by
    rw [List.forall₂_map_left_iff, List.forall₂_map_right_iff, List.forall₂_same]
    exact fun c _ => operation_sameMasked c.1 _ _
  obtain ⟨ha, hb⟩ := performAll_sameMasked FaultMasked.masksFaults_unmask rfl hi hi ht
  exact ⟨ha, alike_of_maskFaults hb⟩

end Dispatcher

end Calls

end SccDispatch
