import Mathlib.Data.List.Forall2
import SccDispatch.Proofs.FaultErasure

namespace SccDispatch

structure Filling where
  info : ProviderInfo := {}
  choice : ProjectChoice := {}
  masks : List Int32 := []

namespace Call

def unknown (filling : Filling) : (call : Call) → Option call.Answer
  | .start .. => some { filling.info with code := .unknownError }
  | .threadsafeQuery => none
  | .chooseProject .. => some { filling.choice with code := .unknownError }
  | .queryStatus .. => some { code := .unknownError, masks := filling.masks }
  | .stop | .openProject .. | .closeProject | .checkOut .. | .undoCheckOut .. | .checkIn ..
  | .add .. | .remove .. | .diff .. | .history .. | .properties .. => some .unknownError

def Unknown (call : Call) : Except Cause call.Answer → Prop
  | .error _ => call ≠ .threadsafeQuery
  | .ok a => ∃ filling, call.unknown filling = some a

/-- Nobody can tell the two answers apart. -/
def Alike (call : Call) (r r' : Except Cause call.Answer) : Prop :=
  r = r' ∨ call.Unknown r ∧ call.Unknown r'

end Call

variable {π : Type} [Provider π]

/-- Providers with one image under `f` answer alike and go on having one image. -/
structure MasksFaults (f : π → π) : Prop where
  answer : ∀ {p q}, f p = f q → ∀ (on : Thread) (call : Call),
    call.Alike (respond p on call).1 (respond q on call).1
  state : ∀ {p q}, f p = f q → ∀ (on : Thread) (call : Call),
    f (respond p on call).2 = f (respond q on call).2
  time : ∀ {p q}, f p = f q → spent p = spent q

section Commands

variable {f : π → π} (h : MasksFaults f) {p q : π} (hp : f p = f q)

include h hp

/-- An answer that stands for a fault is read as an unknown error. -/
theorem ask_sameMasked (on : Thread) (name : String) {call : Call} {read : call.Answer → Output}
    (hr : ∀ filling a, call.unknown filling = some a → (read a).resultCode = .unknownError) :
    (Output.ofOutcome name (ask p on call read).1).maskFaults =
        (Output.ofOutcome name (ask q on call read).1).maskFaults ∧
      f (ask p on call read).2 = f (ask q on call read).2 := by
  have hu : ∀ r : Except Cause call.Answer, call.Unknown r →
      (Output.ofOutcome name (r.map read)).maskFaults = .code .unknownError := by
    intro r hu
    cases r with
    | error cause => rfl
    | ok a =>
      obtain ⟨filling, ha⟩ := hu
      exact if_pos (hr filling a ha)
  refine ⟨?_, h.state hp on call⟩
  rcases h.answer hp on call with he | ⟨h1, h2⟩
  · simp only [ask, he]
  · simp only [ask]
    rw [hu _ h1, hu _ h2]

omit h hp in
/-- A start whose code is that of an unknown error comes to nothing more than a fault would. -/
theorem start_of_unknown {on : Thread} {window : Window} {caller : String}
    (hr : (Call.start window caller).Unknown (respond p on (.start window caller)).1)
    (name : String) (shares : Bool) :
    (Output.ofOutcome name (start p on shares window caller).1).maskFaults = .code .unknownError ∧
      (start p on shares window caller).2 = (respond p on (.start window caller)).2 := by
  unfold start
  split
  next he =>
    rw [he]
    exact ⟨rfl, rfl⟩
  next info p' he =>
    rw [he] at hr ⊢
    obtain ⟨filling, ha⟩ := hr
    cases ha
    rw [if_neg (by simp [isOk_unknownError])]
    exact ⟨rfl, rfl⟩

/-- Providers that answer alike start alike. -/
theorem start_sameMasked (on : Thread) (name : String) (shares : Bool) (window : Window)
    (caller : String) :
    (Output.ofOutcome name (start p on shares window caller).1).maskFaults =
        (Output.ofOutcome name (start q on shares window caller).1).maskFaults ∧
      f (start p on shares window caller).2 = f (start q on shares window caller).2 := by
  have hs := h.state hp on (.start window caller)
  -- An answer that stands for a fault ends the start before the second call.
  rcases h.answer hp on (.start window caller) with ha | ⟨h1, h2⟩
  · unfold start
    generalize respond p on (.start window caller) = r at hs ha ⊢
    generalize respond q on (.start window caller) = r' at hs ha ⊢
    obtain ⟨r, p'⟩ := r
    obtain ⟨r', q'⟩ := r'
    obtain rfl : r = r' := ha
    cases r with
    | error cause => exact ⟨rfl, hs⟩
    | ok info =>
      simp only
      split
      next => exact ask_sameMasked h hs on name (by rintro _ _ ⟨⟩)
      next => exact ⟨rfl, hs⟩
  · obtain ⟨b1, s1⟩ := start_of_unknown h1 name shares
    obtain ⟨b2, s2⟩ := start_of_unknown h2 name shares
    rw [b1, b2, s1, s2]
    exact ⟨rfl, hs⟩

/-- Providers that are the same once their faults are masked run commands alike. -/
theorem execute_sameMasked (on : Thread) (shares : Bool) (command : Command) :
    (execute p on shares command).1.maskFaults = (execute q on shares command).1.maskFaults ∧
      f (execute p on shares command).2 = f (execute q on shares command).2 := by
  cases command with
  | start window caller => exact start_sameMasked h hp on _ shares window caller
  | _ => exact ask_sameMasked h hp on _ (by rintro _ _ ⟨⟩; rfl)

end Commands

def Worker.maskFaults (f : π → π) (w : Worker π) : Worker π :=
  { w with provider := f w.provider, handles := {} }

namespace Worker

variable {f : π → π} (h : MasksFaults f) {w v : Worker π} (hw : w.maskFaults f = v.maskFaults f)

include h hw

/-- The workers' outputs are then the same as well. -/
theorem outputs_sameMasked (command : Command) :
    (w.outputOf command).maskFaults = (v.outputOf command).maskFaults ∧
      (w.ran command).maskFaults f = (v.ran command).maskFaults f := by
  have hs : w.shares = v.shares := (congrArg shares hw :)
  have hp : f w.provider = f v.provider := (congrArg provider hw :)
  obtain ⟨ho, he⟩ := execute_sameMasked h hp .worker w.shares command
  refine ⟨?_, ?_⟩
  · rw [outputOf, outputOf, ho, hs]
  · calc (w.ran command).maskFaults f
      _ = { w.maskFaults f with
            provider := f (execute w.provider .worker w.shares command).2
            issued := (w.maskFaults f).issued + 1 } := rfl
      _ = { v.maskFaults f with
            provider := f (execute v.provider .worker v.shares command).2
            issued := (v.maskFaults f).issued + 1 } := by rw [he, hs, hw]
      _ = (v.ran command).maskFaults f := rfl

/-- A command is written down alike, with the time it took. -/
theorem noted_sameMasked {j k : Journal} (hj : j.maskFaults = k.maskFaults) (command : Command) :
    (w.noted j command).maskFaults = (v.noted k command).maskFaults := by
  have hr := (outputs_sameMasked h hw command).2
  have ht : elapsed w.provider (w.ran command).provider =
      elapsed v.provider (v.ran command).provider := by
    rw [elapsed, elapsed, h.time (congrArg provider hw :), h.time (congrArg provider hr :)]
  simp only [noted, Journal.maskFaults_account, Journal.maskFaults_dispatched, hj, ht]

end Worker

def Binding.maskFaults (f : π → π) (b : Binding π) : Binding π :=
  { b with worker := b.worker.maskFaults f }

section Parts

variable {f : π → π} {b c : Binding π} (hb : b.maskFaults f = c.maskFaults f)

include hb

omit [Provider π] in
theorem Binding.worker_sameMasked : b.worker.maskFaults f = c.worker.maskFaults f :=
  (congrArg worker hb :)

omit [Provider π] in
theorem Binding.info_sameMasked : b.info = c.info := (congrArg info hb :)

omit [Provider π] in
theorem Binding.window_sameMasked : b.window = c.window := (congrArg window hb :)

omit [Provider π] in
theorem Binding.concurrent_sameMasked : b.concurrent = c.concurrent := (congrArg concurrent hb :)

end Parts

namespace Dispatcher

/-- The dispatcher with all its providers mapped, and nothing that a fault alone leaves behind. -/
def maskFaults (f : π → π) (d : Dispatcher π) : Dispatcher π :=
  { d with
    binding := d.binding.map (Binding.maskFaults f)
    journal := d.journal.maskFaults
    retired := d.retired.map fun r => ⟨f r.provider, {}⟩ }

section Images

variable (f : π → π) (d : Dispatcher π)

omit [Provider π] in
theorem maskFaults_refuse (name : String) (e : BindError) :
    (d.refuse name e).2.maskFaults f =
      { d.maskFaults f with journal := d.journal.maskFaults.reset } := by
  simp only [maskFaults, refuse, Journal.maskFaults_reset, Journal.maskFaults_write]

theorem maskFaults_abandon {w : Worker π} (hw : w.Idle) (name reason : String) (j : Journal) :
    (d.abandon name reason w j).2.maskFaults f =
      { d.maskFaults f with
        journal := j.maskFaults.reset
        retired := (d.maskFaults f).retired ++ [⟨f w.provider, {}⟩] } := by
  simp only [maskFaults, abandon, Worker.stop_of_idle hw, Journal.maskFaults_reset,
    Journal.maskFaults_write, List.map_append]
  rfl

omit [Provider π] in
theorem maskFaults_displaced (j : Journal) : (d.displaced j).maskFaults = j.maskFaults := by
  unfold displaced
  split
  next => exact j.maskFaults_write ..
  next => rfl

omit [Provider π] in
theorem maskFaults_attach (name : String) (b : Binding π) (j : Journal) :
    (d.attach name b j).2.maskFaults f =
      { d.maskFaults f with
        binding := some (b.maskFaults f)
        journal := j.maskFaults.bound name
        retired := (d.maskFaults f).retired ++
          ((d.maskFaults f).binding.map fun b => ⟨b.worker.provider, {}⟩).toList } := by
  simp only [maskFaults, attach, maskFaults_displaced, Journal.maskFaults_bound,
    Journal.maskFaults_write, List.map_append]
  cases d.binding <;> rfl

omit [Provider π] in
theorem maskFaults_loading (name : String) (path : Option String) :
    (d.loading name path).maskFaults f =
      { d.maskFaults f with journal := d.journal.maskFaults.setPhase .loading } := by
  simp only [maskFaults, loading, Journal.maskFaults_writePath, Journal.maskFaults_setPhase,
    Journal.maskFaults_write]

end Images

variable {f : π → π} {d e : Dispatcher π} (hd : d.maskFaults f = e.maskFaults f)

include hd

omit [Provider π] in
theorem options_sameMasked : d.options = e.options := (congrArg options hd :)

omit [Provider π] in
theorem project_sameMasked : d.project = e.project := (congrArg project hd :)

omit [Provider π] in
theorem selected_sameMasked : d.selected = e.selected := (congrArg selected hd :)

omit [Provider π] in
theorem journal_sameMasked : d.journal.maskFaults = e.journal.maskFaults := (congrArg journal hd :)

omit [Provider π] in
theorem bindings_of_sameMasked :
    d.binding = none ∧ e.binding = none ∨
      ∃ b c, d.binding = some b ∧ e.binding = some c ∧ b.maskFaults f = c.maskFaults f := by
  have hb : d.binding.map (Binding.maskFaults f) = e.binding.map (Binding.maskFaults f) :=
    (congrArg binding hd :)
  cases h1 : d.binding with
  | none =>
    cases h2 : e.binding with
    | none => exact .inl ⟨rfl, rfl⟩
    | some c => simp [h1, h2] at hb
  | some b =>
    cases h2 : e.binding with
    | none => simp [h1, h2] at hb
    | some c => exact .inr ⟨b, c, rfl, rfl, by simpa [h1, h2] using hb⟩

omit [Provider π] in
theorem isBound_of_sameMasked : d.isBound = e.isBound := by
  rcases bindings_of_sameMasked hd with ⟨h1, h2⟩ | ⟨b, c, h1, h2, -⟩
  · rw [isBound, isBound, h1, h2]
  · rw [isBound, isBound, h1, h2]
    rfl

variable (h : MasksFaults f)

include h

theorem ran_sameMasked {b c : Binding π} (hb : b.maskFaults f = c.maskFaults f)
    (command : Command) : (d.ran b command).maskFaults f = (e.ran c command).maskFaults f := by
  have hw := Binding.worker_sameMasked hb
  have hj := journal_sameMasked hd
  obtain ⟨-, hr⟩ := Worker.outputs_sameMasked h hw command
  have hx (x : Dispatcher π) (b : Binding π) : (x.ran b command).maskFaults f =
      { x.maskFaults f with
        binding := some { b.maskFaults f with worker := (b.worker.ran command).maskFaults f }
        journal := (b.worker.noted x.journal command).maskFaults } := rfl
  rw [hx, hx, hd, hb, hr, Worker.noted_sameMasked h hw hj]

variable (hi : d.Idle) (hi' : e.Idle)

include hi hi'

/-- Two dispatchers that are the same with faults masked run a command alike. -/
theorem run_sameMasked (command : Window → Command) :
    (d.run command).1.map Output.maskFaults = (e.run command).1.map Output.maskFaults ∧
      (d.run command).2.maskFaults f = (e.run command).2.maskFaults f := by
  rcases bindings_of_sameMasked hd with ⟨h1, h2⟩ | ⟨b, c, h1, h2, hb⟩
  · simp only [run, h1, h2]
    exact ⟨trivial, hd⟩
  · have hwin := Binding.window_sameMasked hb
    have hw := Binding.worker_sameMasked hb
    obtain ⟨ho, -⟩ := Worker.outputs_sameMasked h hw (command b.window)
    rw [run_of_idle hi h1, run_of_idle hi' h2, ← hwin]
    exact ⟨congrArg some ho, ran_sameMasked hd h hb _⟩

theorem selectProject_sameMasked (initial : Project) :
    (d.selectProject initial).1 = (e.selectProject initial).1 ∧
      (d.selectProject initial).2.maskFaults f = (e.selectProject initial).2.maskFaults f := by
  obtain ⟨ho, hr⟩ := run_sameMasked hd h hi hi' (.selectProject · initial true)
  have hc := choice?_of_maskFaults ho
  rw [selectProject_eq, selectProject_eq]
  simp only [hc]
  split
  next choice _ => exact ⟨rfl, congrArg (fun d => { d with selected := some choice.project }) hr⟩
  next => exact ⟨rfl, hr⟩

theorem dropProject_sameMasked :
    d.dropProject.1 = e.dropProject.1 ∧
      d.dropProject.2.maskFaults f = e.dropProject.2.maskFaults f := by
  obtain ⟨ho, hr⟩ := run_sameMasked hd h hi hi' fun _ => .closeProject
  have hs := any_succeeded_of_maskFaults ho
  have hb (x : Dispatcher π) :
      { x with project := none, journal := x.journal.closed }.maskFaults f =
        { x.maskFaults f with project := none, journal := (x.maskFaults f).journal.closed } := by
    simp only [maskFaults, Journal.maskFaults_closed]
  refine ⟨hs, ?_⟩
  simp only [dropProject]
  rw [hb, hb, hr]

theorem vacated_sameMasked : d.vacated.maskFaults f = e.vacated.maskFaults f := by
  have hp := project_sameMasked hd
  unfold vacated
  rw [← hp]
  split
  next => exact (dropProject_sameMasked hd h hi hi').2
  next => exact hd

theorem openProject_sameMasked (p : Project) :
    (d.openProject p).1 = (e.openProject p).1 ∧
      (d.openProject p).2.maskFaults f = (e.openProject p).2.maskFaults f := by
  have hbound := isBound_of_sameMasked hd
  cases hb : d.isBound with
  | false =>
    rw [openProject_of_unbound d hb, openProject_of_unbound e (hbound ▸ hb)]
    exact ⟨rfl, hd⟩
  | true =>
    have hv := vacated_sameMasked hd h hi hi'
    have hopt := options_sameMasked hv
    have hcmd : d.vacated.openCommand p = e.vacated.openCommand p := by
      unfold openCommand
      rw [hopt]
    obtain ⟨ho, hr⟩ :=
      run_sameMasked hv h (idle_vacated hi) (idle_vacated hi') (d.vacated.openCommand p)
    have hs := any_succeeded_of_maskFaults ho
    have he (x : Dispatcher π) : (x.entered p).maskFaults f =
        { x.maskFaults f with
          project := some p, journal := (x.maskFaults f).journal.opened p } := by
      simp only [maskFaults, entered, write, Journal.maskFaults_opened, Journal.maskFaults_write]
    rw [openProject_of_bound d hb, openProject_of_bound e (hbound ▸ hb), ← hcmd]
    simp only [hs]
    split
    next => exact ⟨rfl, by rw [he, he, hr]⟩
    next => exact ⟨rfl, hr⟩

theorem closeProject_sameMasked :
    d.closeProject.1 = e.closeProject.1 ∧
      d.closeProject.2.maskFaults f = e.closeProject.2.maskFaults f := by
  have hbound := isBound_of_sameMasked hd
  cases hb : d.isBound with
  | false =>
    rw [closeProject_of_unbound d hb, closeProject_of_unbound e (hbound ▸ hb)]
    exact ⟨rfl, hd⟩
  | true =>
    have hp := project_sameMasked hd
    rw [closeProject_of_bound d hb, closeProject_of_bound e (hbound ▸ hb), ← hp]
    split
    next => exact dropProject_sameMasked hd h hi hi'
    next => exact ⟨rfl, hd⟩

omit h hi hi' [Provider π] in
theorem settle_sameMasked (r : Request) {out out' : Option Output}
    (ho : out.map Output.maskFaults = out'.map Output.maskFaults) :
    (d.settle r out).1 = (e.settle r out').1 ∧
      (d.settle r out).2.maskFaults f = (e.settle r out').2.maskFaults f := by
  have hb (x : Dispatcher π) (o : Option Output) :
      (x.settle r o).1 = r.reply o ∧ (x.settle r o).2.maskFaults f = x.maskFaults f := by
    unfold settle
    split <;> exact ⟨rfl, rfl⟩
  have hr := reply_of_maskFaults ho r
  rw [(hb d out).1, (hb d out).2, (hb e out').1, (hb e out').2]
  exact ⟨hr, hd⟩

omit hi hi' in
theorem queryDirectly_sameMasked {b c : Binding π} (hb : b.maskFaults f = c.maskFaults f)
    (command : Command) :
    (d.queryDirectly b command).1.maskFaults = (e.queryDirectly c command).1.maskFaults ∧
      (d.queryDirectly b command).2.maskFaults f = (e.queryDirectly c command).2.maskFaults f := by
  have hw := Binding.worker_sameMasked hb
  have hp : f b.worker.provider = f c.worker.provider := (congrArg Worker.provider hw :)
  have hj := journal_sameMasked hd
  obtain ⟨ho, hs⟩ := execute_sameMasked h hp .caller false command
  have hq (x : Dispatcher π) (b : Binding π) : (x.queryDirectly b command).2.maskFaults f =
      { x.maskFaults f with
        binding := some
          { b.maskFaults f with
            worker :=
              { b.worker.maskFaults f with
                provider := f (execute b.worker.provider .caller false command).2 } }
        journal := x.journal.maskFaults.count .recordDirectQuery } := by
    rw [queryDirectly_eq]
    simp only [maskFaults, Journal.maskFaults_queried]
    rfl
  refine ⟨ho, ?_⟩
  rw [hq, hq, hd, hb, hw, hs, hj]

theorem request_sameMasked (r : Request) :
    (d.request r).1 = (e.request r).1 ∧
      (d.request r).2.maskFaults f = (e.request r).2.maskFaults f := by
  cases hr : r.idle? with
  | some reply =>
    rw [request_of_noFiles hi hr, request_of_noFiles hi' hr]
    exact ⟨rfl, hd⟩
  | none =>
    rcases bindings_of_sameMasked hd with ⟨h1, h2⟩ | ⟨b, c, h1, h2, hb⟩
    · rw [request_of_unbound hr h1, request_of_unbound hr h2]
      exact ⟨rfl, hd⟩
    · have hwin := Binding.window_sameMasked hb
      have hcon := Binding.concurrent_sameMasked hb
      have hw := Binding.worker_sameMasked hb
      cases hq : r.isQuery && b.concurrent with
      | true =>
        obtain ⟨ho, hs⟩ := queryDirectly_sameMasked hd h hb (r.command b.window)
        rw [request_of_direct hi hr h1 hq, request_of_direct hi' hr h2 (hcon ▸ hq), ← hwin]
        exact settle_sameMasked hs r (congrArg some ho)
      | false =>
        obtain ⟨ho, -⟩ := Worker.outputs_sameMasked h hw (r.command b.window)
        rw [request_of_queued hi hr h1 hq, request_of_queued hi' hr h2 (hcon ▸ hq), ← hwin]
        exact settle_sameMasked (ran_sameMasked hd h hb _) r (congrArg some ho)

theorem shutdown_sameMasked : d.shutdown.maskFaults f = e.shutdown.maskFaults f := by
  rcases bindings_of_sameMasked hd with ⟨h1, h2⟩ | ⟨b, c, h1, h2, hb⟩
  · rwa [shutdown_of_unbound d h1, shutdown_of_unbound e h2]
  · have hw := Binding.worker_sameMasked hb
    have hp := project_sameMasked hd
    have hj := journal_sameMasked hd
    have hpart : (d.parting b).1.maskFaults f = (e.parting c).1.maskFaults f ∧
        (d.parting b).2.maskFaults = (e.parting c).2.maskFaults := by
      unfold parting
      rw [← hp]
      split
      next =>
        refine ⟨(Worker.outputs_sameMasked h hw _).2, ?_⟩
        refine Worker.noted_sameMasked h hw ?_ _
        simp only [Journal.maskFaults_setPhase, Journal.maskFaults_write, hj]
      next =>
        refine ⟨hw, ?_⟩
        simp only [Journal.maskFaults_setPhase, Journal.maskFaults_write, hj]
    have hstop : f ((d.parting b).1.ran .stop).provider = f ((e.parting c).1.ran .stop).provider :=
      (congrArg Worker.provider (Worker.outputs_sameMasked h hpart.1 .stop).2 :)
    have hs {x : Dispatcher π} {b : Binding π} (hx : x.Idle) (hb : x.binding = some b) :
        x.shutdown.maskFaults f =
          { x.maskFaults f with
            binding := none
            project := none
            selected := none
            journal :=
              ((x.parting b).1.noted (x.parting b).2 .stop).maskFaults.reset
            retired :=
              (x.maskFaults f).retired ++ [⟨f ((x.parting b).1.ran .stop).provider, {}⟩] } := by
      rw [shutdown_of_bound hx hb]
      simp only [maskFaults, Journal.maskFaults_summarize, Journal.maskFaults_reset,
        Journal.maskFaults_write, List.map_append]
      rfl
    rw [hs hi h1, hs hi' h2, hd, hstop, Worker.noted_sameMasked h hpart.1 hpart.2]

omit hi hi' in
theorem start_sameMasked {p q : π} (hp : f p = f q) (name : String) (window : Window) :
    (d.start name p window).1 = (e.start name q window).1 ∧
      (d.start name p window).2.maskFaults f = (e.start name q window).2.maskFaults f := by
  have hopt := options_sameMasked hd
  have hj := journal_sameMasked hd
  have hw : (d.newWorker p).maskFaults f = (e.newWorker q).maskFaults f := by
    simp only [newWorker, Worker.maskFaults, hp, hopt]
  obtain ⟨ho, hr⟩ := Worker.outputs_sameMasked h hw (.start window d.options.caller)
  have hstart := congrArg Output.started? ho
  rw [started?_maskFaults, started?_maskFaults] at hstart
  have hjs : (d.started p window).maskFaults = (e.started q window).maskFaults := by
    rw [started, started, ← hopt]
    exact Worker.noted_sameMasked h hw
      (by rw [Journal.maskFaults_write, Journal.maskFaults_write, hj]) _
  have hb (info : ProviderInfo) (concurrent : Bool) :
      Binding.maskFaults f
          ⟨((d.newWorker p).ran (.start window d.options.caller)).kept, info, window, concurrent⟩ =
        Binding.maskFaults f
          ⟨((e.newWorker q).ran (.start window d.options.caller)).kept, info, window,
            concurrent⟩ :=
    congrArg (Binding.mk · info window concurrent) hr
  have hpr : f ((d.newWorker p).ran (.start window d.options.caller)).provider =
      f ((e.newWorker q).ran (.start window d.options.caller)).provider :=
    (congrArg Worker.provider hr :)
  rw [start_eq, start_eq, ← hopt]
  simp only [hstart]
  split
  next => exact ⟨rfl, by rw [maskFaults_attach, maskFaults_attach, hb, hd, hjs]⟩
  next =>
    refine ⟨rfl, ?_⟩
    rw [maskFaults_abandon f d ((idle_newWorker p).ran _),
      maskFaults_abandon f e ((idle_newWorker q).ran _), hd, hjs, hpr]

end Dispatcher

/-- Loaders that bring in providers with one image, when the last ones had one image. -/
structure Loader.SameMasked (f : π → π) (l m : Loader π) : Prop where
  path : l.path = m.path
  load : ∀ a b : Option π, a.map f = b.map f →
    (l.load a).map (Except.map f) = (m.load b).map (Except.map f)

namespace Dispatcher

variable {f : π → π} {d e : Dispatcher π} (hd : d.maskFaults f = e.maskFaults f) (h : MasksFaults f)

include hd h

theorem bind_sameMasked {l m : Loader π} (hl : l.SameMasked f m) (name : String) (window : Window) :
    (d.bind name l window).1 = (e.bind name m window).1 ∧
      (d.bind name l window).2.maskFaults f = (e.bind name m window).2.maskFaults f := by
  have hj := journal_sameMasked hd
  have hlast (x : Dispatcher π) : x.lastRetired.map f = (x.maskFaults f).lastRetired := by
    simp only [lastRetired, maskFaults, List.getLast?_map, Option.map_map]
    rfl
  have hload : (d.loading name l.path).maskFaults f = (e.loading name m.path).maskFaults f := by
    rw [maskFaults_loading, maskFaults_loading, hd, hj]
  have hjl := journal_sameMasked hload
  have hm := hl.load d.lastRetired e.lastRetired (by rw [hlast, hlast, hd])
  rw [bind_eq, bind_eq]
  generalize l.load d.lastRetired = r at hm
  generalize m.load e.lastRetired = r' at hm
  rcases r with cause | err | p <;> rcases r' with cause' | err' | q <;>
    simp only [Except.map, Except.ok.injEq, Except.error.injEq, reduceCtorEq] at hm
  · subst hm
    have hf (x : Dispatcher π) (fault : Fault) :
        (x.loadFaulted fault).maskFaults f = x.maskFaults f := rfl
    have hjf (x : Dispatcher π) (fault : Fault) :
        (x.loadFaulted fault).journal.maskFaults = x.journal.maskFaults := rfl
    exact ⟨rfl, by rw [maskFaults_refuse, maskFaults_refuse, hf, hf, hjf, hjf, hload, hjl]⟩
  · subst hm
    exact ⟨rfl, by rw [maskFaults_refuse, maskFaults_refuse, hload, hjl]⟩
  · exact start_sameMasked hload h hm name window

variable (hi : d.Idle) (hi' : e.Idle)

include hi hi'

theorem rebind_sameMasked {l m : Loader π} (hl : l.SameMasked f m) (name : String)
    (window : Window) :
    (d.rebind name l window).1 = (e.rebind name m window).1 ∧
      (d.rebind name l window).2.maskFaults f = (e.rebind name m window).2.maskFaults f :=
  bind_sameMasked (shutdown_sameMasked hd h hi hi') h hl name window

end Dispatcher

/-- The same call, but for loaders that are the same once faults are masked. -/
inductive Operation.SameMasked (f : π → π) : Operation π → Operation π → Prop
  | bind {l m : Loader π} (name : String) (window : Window) (hl : l.SameMasked f m) :
    SameMasked f (.bind name l window) (.bind name m window)
  | bindIndex {l m : Installed → Loader π} (registry : Registry) (index : Nat) (window : Window)
    (hl : ∀ p, (l p).SameMasked f (m p)) :
    SameMasked f (.bindIndex registry l index window) (.bindIndex registry m index window)
  | bindName {l m : Installed → Loader π} (registry : Registry) (name : String) (window : Window)
    (hl : ∀ p, (l p).SameMasked f (m p)) :
    SameMasked f (.bindName registry l name window) (.bindName registry m name window)
  | shutdown : SameMasked f .shutdown .shutdown
  | selectProject (initial : Project) :
      SameMasked f (.selectProject initial) (.selectProject initial)
  | openProject (p : Project) : SameMasked f (.openProject p) (.openProject p)
  | closeProject : SameMasked f .closeProject .closeProject
  | request (r : Request) : SameMasked f (.request r) (.request r)

namespace Dispatcher

variable {f : π → π} (h : MasksFaults f) {d e : Dispatcher π}

include h

theorem perform_sameMasked (hd : d.maskFaults f = e.maskFaults f) (hi : d.Idle) (hi' : e.Idle)
    {op op' : Operation π} (ho : op.SameMasked f op') :
    (d.perform op).1 = (e.perform op').1 ∧
      (d.perform op).2.maskFaults f = (e.perform op').2.maskFaults f := by
  cases ho with
  | bind name window hl =>
    exact (rebind_sameMasked hd h hi hi' hl name window).imp_left (congrArg Answer.bound)
  | bindIndex registry index window hl =>
    simp only [perform, rebindIndex]
    split
    next p _ =>
      exact (rebind_sameMasked hd h hi hi' (hl p) p.name window).imp_left (congrArg Answer.bound)
    next => exact ⟨rfl, hd⟩
  | bindName registry name window hl =>
    simp only [perform, rebindName]
    split
    next p _ =>
      exact (rebind_sameMasked hd h hi hi' (hl p) p.name window).imp_left (congrArg Answer.bound)
    next => exact ⟨rfl, hd⟩
  | shutdown => exact ⟨rfl, shutdown_sameMasked hd h hi hi'⟩
  | selectProject initial =>
    exact (selectProject_sameMasked hd h hi hi' initial).imp_left (congrArg Answer.chosen)
  | openProject p => exact (openProject_sameMasked hd h hi hi' p).imp_left (congrArg Answer.opened)
  | closeProject => exact (closeProject_sameMasked hd h hi hi').imp_left (congrArg Answer.closed)
  | request r => exact (request_sameMasked hd h hi hi' r).imp_left (congrArg Answer.replied)

theorem performAll_sameMasked (hd : d.maskFaults f = e.maskFaults f) (hi : d.Idle) (hi' : e.Idle)
    {ops ops' : List (Operation π)} (ho : List.Forall₂ (Operation.SameMasked f) ops ops') :
    (d.performAll ops).1 = (e.performAll ops').1 ∧
      (d.performAll ops).2.maskFaults f = (e.performAll ops').2.maskFaults f := by
  induction ho generalizing d e with
  | nil => exact ⟨rfl, hd⟩
  | cons h1 _ ih =>
    obtain ⟨ha, hn⟩ := perform_sameMasked h hd hi hi' h1
    obtain ⟨has, hns⟩ := ih hn (idle_perform hi _) (idle_perform hi' _)
    simp only [performAll]
    exact ⟨by rw [ha, has], hns⟩

end Dispatcher

end SccDispatch
