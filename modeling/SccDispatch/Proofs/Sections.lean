import Mathlib.Data.List.Induction
import Mathlib.Logic.Function.Basic
import SccDispatch.Proofs.VisibleState
import SccDispatch.Proofs.ProviderTraces
import SccDispatch.Rehearsal.Scripted

namespace SccDispatch

/-- What a thread does while it has the lock of the binding. -/
inductive Section (π : Type)
  | release
  | install (name : String) (loader : Loader π) (window : Window)
  | selectProject (initial : Project)
  | openProject (p : Project)
  | closeProject
  | request (r : Request)

/-- The sections of a call, in order; nothing is locked for a provider that is not known. -/
def Operation.sections {π : Type} : Operation π → List (Section π)
  | bind name loader window => [.release, .install name loader window]
  | bindIndex registry load index window =>
    match registry.get? index with
    | some p => [.release, .install p.name (load p) window]
    | none => []
  | bindName registry load name window =>
    match registry.find? name with
    | some p => [.release, .install p.name (load p) window]
    | none => []
  | shutdown => [.release]
  | selectProject initial => [.selectProject initial]
  | openProject p => [.openProject p]
  | closeProject => [.closeProject]
  | request r => [.request r]

namespace Dispatcher

variable {π : Type} [Provider π]

def enter (d : Dispatcher (Traced π)) : Section π → Dispatcher (Traced π)
  | .release => d.shutdown
  | .install name loader window => (d.bind name loader.traced window).2
  | .selectProject initial => (d.selectProject initial).2
  | .openProject p => (d.openProject p).2
  | .closeProject => d.closeProject.2
  | .request r => (d.request r).2

/-- A section lets go of the provider that is bound. -/
def Discards (d : Dispatcher (Traced π)) : Section π → Prop
  | .release => d.isBound = true
  | .install name loader window =>
    d.isBound = true ∧ (d.bind name loader.traced window).1 = true
  | _ => False

end Dispatcher

/-- A dispatcher among threads. -/
structure SectionSystem (π : Type) where
  dispatcher : Dispatcher (Traced π)
  /-- What is left of the call that a thread is making. -/
  due : Nat → List (Section π) := fun _ => []

inductive Act (π : Type)
  | call (thread : Nat) (op : Operation π)
  | advance (thread : Nat)

namespace SectionSystem

variable {π : Type} [Provider π]

def call (x : SectionSystem π) (i : Nat) (op : Operation π) : SectionSystem π :=
  match x.due i with
  | [] => { x with due := Function.update x.due i op.sections }
  | _ :: _ => x

def advance (x : SectionSystem π) (i : Nat) : SectionSystem π :=
  match x.due i with
  | [] => x
  | s :: rest => { dispatcher := x.dispatcher.enter s, due := Function.update x.due i rest }

def step (x : SectionSystem π) : Act π → SectionSystem π
  | .call i op => x.call i op
  | .advance i => x.advance i

def play (x : SectionSystem π) (schedule : List (Act π)) : SectionSystem π := schedule.foldl step x

end SectionSystem

/-- The last call is the only one to stop the provider, and no project is open before it. -/
def EndsWithStop (seen : List Seen) : Prop :=
  ∃ before last, seen = before ++ [last] ∧ last.call = .stop ∧ leftOpen before = false ∧
    ∀ s ∈ before, s.call ≠ .stop

/-- A provider that was bound is let go of in good order, and its projects are forgotten. -/
structure TornDown {π : Type} (b : Binding (Traced π)) (d : Dispatcher (Traced π)) : Prop where
  ended : ∃ last, d.retired.getLast? = some last ∧
    b.worker.provider.seen <+: last.provider.seen ∧ EndsWithStop last.provider.seen
  project : d.project = none
  selected : d.selected = none

def Command.Plain : Command → Prop
  | start .. | stop | openProject .. | closeProject => False
  | _ => True

theorem call_of_plain {command : Command} (h : command.Plain) :
    command.call ≠ .stop ∧ ∀ on fine o, Seen.leaves ⟨on, command.call, fine⟩ o = o := by
  cases command <;> first | exact absurd h id | exact ⟨by rintro ⟨⟩, fun _ _ _ => rfl⟩

theorem plain_of_request (r : Request) (window : Window) : (r.command window).Plain := by
  cases r <;> trivial

/-- The provider has not been stopped, and a project that is open on it is on record. -/
structure Fits (seen : List Seen) (project : Option Project) : Prop where
  running : ∀ s ∈ seen, s.call ≠ .stop
  recorded : leftOpen seen = true → project.isSome = true

theorem Fits.concat {seen : List Seen} {p q : Option Project} (h : Fits seen p) {s : Seen}
    (hs : s.call ≠ .stop) (ho : s.leaves (leftOpen seen) = true → q.isSome = true) :
    Fits (seen ++ [s]) q where
  running a ha := by
    rcases List.mem_append.mp ha with ha | ha
    · exact h.running a ha
    · rw [List.mem_singleton.mp ha]
      exact hs
  recorded hl := ho (by simpa using hl)

namespace Dispatcher

variable {π : Type} {d e : Dispatcher (Traced π)} {b : Binding (Traced π)}

/-- What every section keeps. -/
structure Consistent (d : Dispatcher (Traced π)) : Prop where
  idle : d.Idle
  fits : ∀ b, d.binding = some b → Fits b.worker.provider.seen d.project

theorem consistent_of_unbound (h : d.binding = none) : d.Consistent :=
  ⟨idle_of_unbound h, fun b hb => by simp [h] at hb⟩

theorem consistent_of_bound (hb : d.binding = some b) (hi : b.worker.Idle)
    (hf : Fits b.worker.provider.seen d.project) : d.Consistent :=
  ⟨idle_of_bound hb hi, fun c hc => by
    obtain rfl : b = c := by simpa [hb] using hc
    exact hf⟩

theorem Consistent.of_same (h : d.Consistent) (hb : e.binding = d.binding)
    (hp : e.project = d.project) : e.Consistent :=
  ⟨h.idle.of_binding hb, fun b he => hp ▸ h.fits b (hb ▸ he)⟩

variable [Provider π]

theorem fits_ran_plain {p : Option Project} (h : Fits b.worker.provider.seen p) {command : Command}
    (hc : command.Plain) : Fits (b.worker.ran command).provider.seen p := by
  obtain ⟨hs, hl⟩ := call_of_plain hc
  have he := execute_traced b.worker.provider .worker b.worker.shares command
    (by rintro w c rfl; exact hc)
  exact he ▸ h.concat hs (by rw [hl]; exact h.recorded)

/-- A command that touches no project keeps the dispatcher consistent. -/
theorem consistent_run (h : d.Consistent) (command : Window → Command)
    (hc : ∀ w, (command w).Plain) : (d.run command).2.Consistent := by
  cases hb : d.binding with
  | none => simpa [run, hb] using h
  | some b =>
    rw [run_of_idle h.idle hb]
    exact consistent_of_bound rfl ((h.idle b hb).ran _) (fits_ran_plain (h.fits b hb) (hc b.window))

theorem consistent_selectProject (h : d.Consistent) (initial : Project) :
    (d.selectProject initial).2.Consistent := by
  have hr := consistent_run h (.selectProject · initial true) fun _ => trivial
  rw [selectProject_eq]
  simp only
  split
  next => exact hr.of_same rfl rfl
  next => exact hr

omit [Provider π] in
theorem consistent_settle (h : d.Consistent) (r : Request) (out : Option Output) :
    (d.settle r out).2.Consistent := by
  unfold settle
  split <;> exact h.of_same rfl rfl

theorem consistent_queryDirectly (h : d.Consistent) (hb : d.binding = some b) {command : Command}
    (hc : command.Plain) : (d.queryDirectly b command).2.Consistent := by
  obtain ⟨hs, hl⟩ := call_of_plain hc
  have he := execute_traced b.worker.provider .caller false command
    (by rintro w c rfl; exact hc)
  have hf := h.fits b hb
  refine consistent_of_bound rfl ⟨(h.idle b hb).queue, (h.idle b hb).answers⟩ ?_
  exact he ▸ hf.concat hs (by rw [hl]; exact hf.recorded)

theorem consistent_request (h : d.Consistent) (r : Request) : (d.request r).2.Consistent := by
  cases hr : r.idle? with
  | some reply => rwa [request_of_noFiles h.idle hr]
  | none =>
    cases hb : d.binding with
    | none => rwa [request_of_unbound hr hb]
    | some b =>
      have hc := plain_of_request r b.window
      cases hq : r.isQuery && b.concurrent with
      | true =>
        rw [request_of_direct h.idle hr hb hq]
        exact consistent_settle (consistent_queryDirectly h hb hc) r _
      | false =>
        rw [request_of_queued h.idle hr hb hq]
        refine consistent_settle ?_ r _
        exact consistent_of_bound rfl ((h.idle b hb).ran _) (fits_ran_plain (h.fits b hb) hc)

theorem seen_ran (w : Worker (Traced π)) (command : Command)
    (hc : ∀ window caller, command ≠ .start window caller) :
    (w.ran command).provider.seen =
      w.provider.seen ++ [⟨.worker, command.call, (w.outputOf command).succeeded⟩] :=
  execute_traced w.provider .worker w.shares command hc

/-- When the open project was closed, none is open on the provider either. -/
theorem consistent_dropProject (h : d.Consistent) : d.dropProject.2.Consistent := by
  cases hb : d.binding with
  | none => exact consistent_of_unbound (by simp [dropProject, run, hb])
  | some b =>
    have hf : Fits (b.worker.ran .closeProject).provider.seen none := by
      rw [seen_ran b.worker .closeProject (by rintro _ _ ⟨⟩)]
      exact (h.fits b hb).concat (by rintro ⟨⟩) (by rintro ⟨⟩)
    rw [dropProject, run_of_idle h.idle hb]
    exact consistent_of_bound rfl ((h.idle b hb).ran _) hf

theorem consistent_vacated (h : d.Consistent) :
    d.vacated.Consistent ∧ d.vacated.project = none := by
  unfold vacated
  split
  next => exact ⟨consistent_dropProject h, rfl⟩
  next hp => exact ⟨h, by simpa using hp⟩

theorem consistent_openProject (h : d.Consistent) (p : Project) :
    (d.openProject p).2.Consistent := by
  cases hbound : d.isBound with
  | false => rwa [openProject_of_unbound d hbound]
  | true =>
    obtain ⟨hv, hp⟩ := consistent_vacated h
    rw [openProject_of_bound d hbound]
    generalize d.vacated = e at hv hp ⊢
    cases hb : e.binding with
    | none => simpa [run, hb] using hv
    | some b =>
      have hf := hv.fits b hb
      have hi := (hv.idle b hb).ran (e.openCommand p b.window)
      have hs : (b.worker.ran (e.openCommand p b.window)).provider.seen = _ :=
        seen_ran b.worker _ (by rintro _ _ ⟨⟩)
      rw [run_of_idle hv.idle hb]
      simp only [Option.any_some]
      split
      next =>
        refine consistent_of_bound rfl hi ?_
        exact hs ▸ hf.concat (by rintro ⟨⟩) fun _ => rfl
      next hn =>
        refine consistent_of_bound rfl hi ?_
        refine hs ▸ hf.concat (by rintro ⟨⟩) fun hl => ?_
        have hl : (leftOpen b.worker.provider.seen ||
          (b.worker.outputOf (e.openCommand p b.window)).succeeded) = true := hl
        rw [Bool.eq_false_iff.mpr hn, Bool.or_false] at hl
        exact hf.recorded hl

theorem consistent_closeProject (h : d.Consistent) : d.closeProject.2.Consistent := by
  cases hbound : d.isBound with
  | false => rwa [closeProject_of_unbound d hbound]
  | true =>
    rw [closeProject_of_bound d hbound]
    split
    next => exact consistent_dropProject h
    next => exact h

omit [Provider π] in
theorem seen_of_load {loader : Loader π} {last : Option (Traced π)} {t : Traced π}
    (h : loader.traced.load last = .ok (.ok t)) : t.seen = [] := by
  simp only [Loader.traced] at h
  generalize loader.load (last.map Traced.provider) = r at h
  rcases r with _ | _ | p <;> cases h
  rfl

/-- A provider that was started has not been asked to open a project. -/
theorem fits_newWorker {t : Traced π} (ht : t.seen = []) (window : Window)
    (project : Option Project) :
    Fits ((d.newWorker t).ran (.start window d.options.caller)).provider.seen project := by
  have hn : Fits ([] : List Seen) project := ⟨by simp, by rintro ⟨⟩⟩
  obtain ⟨fine, he⟩ := execute_start_traced t .worker d.options.concurrentQueries window
    d.options.caller
  have he : ((d.newWorker t).ran (.start window d.options.caller)).provider.seen = _ := he
  have h1 : Fits [⟨.worker, .start window d.options.caller, fine⟩] project :=
    hn.concat (by rintro ⟨⟩) (by rintro ⟨⟩)
  rw [he, ht]
  cases fine with
  | false => exact h1
  | true => exact h1.concat (by rintro ⟨⟩) (by rintro ⟨⟩)

theorem consistent_bind (h : d.Consistent) (name : String) (loader : Loader π) (window : Window) :
    (d.bind name loader.traced window).2.Consistent := by
  rw [bind_eq]
  split
  next t ht =>
    rw [start_eq]
    simp only
    split
    next =>
      have hf := fits_newWorker (d := d.loading name loader.path) (seen_of_load ht) window d.project
      exact consistent_of_bound rfl ((idle_newWorker t).ran _).kept hf
    next => exact h.of_same rfl rfl
  next => exact h.of_same rfl rfl
  next => exact h.of_same rfl rfl

theorem consistent_enter (h : d.Consistent) (s : Section π) : (d.enter s).Consistent := by
  cases s with
  | release => exact consistent_of_unbound d.binding_shutdown
  | install name loader window => exact consistent_bind h name loader window
  | selectProject initial => exact consistent_selectProject h initial
  | openProject p => exact consistent_openProject h p
  | closeProject => exact consistent_closeProject h
  | request r => exact consistent_request h r

/-- Before it is stopped, a provider has its project closed. -/
theorem fits_parting (h : d.Consistent) (hb : d.binding = some b) :
    (∀ s ∈ (d.parting b).1.provider.seen, s.call ≠ .stop) ∧
      leftOpen (d.parting b).1.provider.seen = false ∧
      b.worker.provider.seen <+: (d.parting b).1.provider.seen := by
  have hf := h.fits b hb
  unfold parting
  split
  next =>
    have hs := seen_ran b.worker .closeProject (by rintro _ _ ⟨⟩)
    have hc : Fits (b.worker.ran .closeProject).provider.seen none := by
      rw [hs]
      exact hf.concat (by rintro ⟨⟩) (by rintro ⟨⟩)
    exact ⟨hc.running, Bool.eq_false_iff.mpr fun hl => by simpa using hc.recorded hl,
      hs ▸ List.prefix_append _ _⟩
  next hp =>
    exact ⟨hf.running, Bool.eq_false_iff.mpr fun hl => hp (hf.recorded hl), List.prefix_rfl⟩

/-- A shutdown tears the bound provider down. -/
theorem tornDown_shutdown (h : d.Consistent) (hb : d.binding = some b) : TornDown b d.shutdown := by
  obtain ⟨hrun, hleft, hpre⟩ := fits_parting h hb
  have hs := seen_ran (d.parting b).1 .stop (by rintro _ _ ⟨⟩)
  rw [shutdown_of_bound h.idle hb]
  refine ⟨⟨_, List.getLast?_concat, ?_, ?_⟩, rfl, rfl⟩
  · exact hs ▸ hpre.trans (List.prefix_append _ _)
  · exact ⟨_, _, hs, rfl, hleft, hrun⟩

/-- A provider that is replaced is let go of as it is. -/
theorem retired_bind {name : String} {loader : Loader (Traced π)} {window : Window}
    (hb : d.binding = some b) (hs : (d.bind name loader window).1 = true) :
    (d.bind name loader window).2.retired.getLast? =
      some b.dropped := by
  rcases hload : loader.load d.lastRetired with cause | err | t
  · simp [bind_eq, hload, refuse] at hs
  · simp [bind_eq, hload, refuse] at hs
  · have he : d.bind name loader window = (d.loading name loader.path).start name t window := by
      rw [bind_eq, hload]
    rw [he, start_eq] at hs ⊢
    simp only at hs ⊢
    split at hs
    next hstart =>
      simp only [attach, loading, hb]
      exact List.getLast?_concat
    next => cases hs

/-- A bind alone does not tear down the provider that it replaces. -/
theorem not_tornDown_bind {name : String} {loader : Loader (Traced π)} {window : Window}
    (h : d.Consistent) (hb : d.binding = some b) (hs : (d.bind name loader window).1 = true) :
    ¬TornDown b (d.bind name loader window).2 := by
  rintro ⟨⟨last, hl, -, before, stop, he, hc, -⟩, -⟩
  rw [retired_bind hb hs] at hl
  obtain rfl := Option.some.inj hl
  have hm : stop ∈ b.worker.provider.seen := by
    have he : b.worker.provider.seen = before ++ [stop] := he
    simp [he]
  exact (h.fits b hb).running stop hm hc

end Dispatcher

namespace SectionSystem

variable {π : Type} [Provider π] {x : SectionSystem π}

def start (options : Options) : SectionSystem π := { dispatcher := { options } }

theorem play_concat (schedule : List (Act π)) (a : Act π) :
    x.play (schedule ++ [a]) = (x.play schedule).step a := by simp [play]

/-- Sections of different threads do not disturb each other in this. -/
theorem consistent_step (h : x.dispatcher.Consistent) (a : Act π) :
    (x.step a).dispatcher.Consistent := by
  cases a with
  | call i op =>
    simp only [step, call]
    split <;> exact h
  | advance i =>
    simp only [step, advance]
    split
    next => exact h
    next s rest _ => exact Dispatcher.consistent_enter h s

theorem consistent_play (options : Options) (schedule : List (Act π)) :
    ((start options).play schedule).dispatcher.Consistent := by
  induction schedule using List.reverseRecOn with
  | nil => exact Dispatcher.consistent_of_unbound rfl
  | append_singleton schedule a ih =>
    rw [play_concat]
    exact consistent_step ih a

def Ends (x : SectionSystem π) : Prop := ∀ i, ∃ op : Operation π, x.due i <:+ op.sections

/-- What is left of a call stays the end of one. -/
theorem ends_step (h : x.Ends) (a : Act π) : (x.step a).Ends := by
  intro k
  cases a with
  | call i op =>
    simp only [step, call]
    split
    next =>
      by_cases hk : k = i
      · subst hk
        exact ⟨op, by simp⟩
      · simpa [hk] using h k
    next => exact h k
  | advance i =>
    simp only [step, advance]
    split
    next => exact h k
    next s rest hd =>
      by_cases hk : k = i
      · subst hk
        obtain ⟨op, ho⟩ := h k
        refine ⟨op, ?_⟩
        rw [hd] at ho
        simpa using (List.suffix_cons s rest).trans ho
      · simpa [hk] using h k

theorem ends_play (options : Options) (schedule : List (Act π)) :
    ((start options).play schedule).Ends := by
  induction schedule using List.reverseRecOn with
  | nil => exact fun i => ⟨.shutdown, List.nil_suffix⟩
  | append_singleton schedule a ih =>
    rw [play_concat]
    exact ends_step ih a

omit [Provider π] in
theorem sections_cases (op : Operation π) :
    (∃ s, op.sections <+: [s] ∧ ∀ name loader window, s ≠ .install name loader window) ∨
      ∃ name loader window, op.sections = [.release, .install name loader window] := by
  cases op with
  | bind name loader window => exact .inr ⟨name, loader, window, rfl⟩
  | bindIndex registry load index window =>
    simp only [Operation.sections]
    split
    next p _ => exact .inr ⟨p.name, load p, window, rfl⟩
    next => exact .inl ⟨.release, List.nil_prefix, by rintro _ _ _ ⟨⟩⟩
  | bindName registry load name window =>
    simp only [Operation.sections]
    split
    next p _ => exact .inr ⟨p.name, load p, window, rfl⟩
    next => exact .inl ⟨.release, List.nil_prefix, by rintro _ _ _ ⟨⟩⟩
  | _ => exact .inl ⟨_, List.prefix_rfl, by rintro _ _ _ ⟨⟩⟩

omit [Provider π] in
/-- A call does not begin with the installation of a provider. -/
theorem head_sections {op : Operation π} {name : String} {loader : Loader π} {window : Window}
    {rest : List (Section π)} : op.sections ≠ .install name loader window :: rest := by
  intro h
  rcases sections_cases op with ⟨s, hs, hn⟩ | ⟨n, l, w, hs⟩
  · rw [h] at hs
    exact hn _ _ _ (List.cons_prefix_cons.mp hs).1.symm
  · rw [hs] at h
    cases h

omit [Provider π] in
/-- What comes before that is to let the provider go that is bound. -/
theorem before_install {op : Operation π} {s : Section π} {name : String} {loader : Loader π}
    {window : Window} {rest : List (Section π)}
    (h : s :: .install name loader window :: rest <:+ op.sections) : s = .release := by
  rcases sections_cases op with ⟨t, ht, -⟩ | ⟨n, l, w, hs⟩
  · have hl := Nat.le_trans h.length_le ht.length_le
    simp at hl
  · rw [hs] at h
    have hl := h.length_le
    simp only [List.length_cons, List.length_nil] at hl
    have he := h.eq_of_length (by simp only [List.length_cons, List.length_nil]; omega)
    cases he
    rfl

end SectionSystem

/-- Only the installation of a provider binds one. -/
theorem Dispatcher.enter_of_unbound {π : Type} [Provider π] {d : Dispatcher (Traced π)}
    (h : d.isBound = false) {s : Section π} (hs : (d.enter s).isBound = true) :
    ∃ name loader window, s = .install name loader window ∧
      (d.bind name loader.traced window).1 = true := by
  have hv : (d.enter s).view.bound = true := hs
  have hd : d.view.bound = false := h
  cases s with
  | install name loader window =>
    refine ⟨name, loader, window, rfl, ?_⟩
    rw [enter, view_bind] at hv
    cases hb : (d.bind name loader.traced window).1 with
    | true => rfl
    | false => simp [hb, View.rebound, hd] at hv
  | release => simp [enter, view_shutdown, View.released, hd] at hv
  | selectProject initial =>
    rw [enter, view_selectProject, View.chosen] at hv
    split at hv <;> simp [hd] at hv
  | openProject p => simp [enter, openProject_of_unbound d h, hd] at hv
  | closeProject => simp [enter, closeProject_of_unbound d h, hd] at hv
  | request r => simp [enter, view_request, hd] at hv

namespace SectionSystem

variable {π : Type} [Provider π]

/-- While a thread was waiting for its next section, another thread has installed a provider. -/
def Overtaken (x : SectionSystem π) (schedule : List (Act π)) (i : Nat) : Prop :=
  ∃ before after j, schedule = before ++ .advance j :: after ∧ j ≠ i ∧
    (x.play before).due i = (x.play schedule).due i ∧
    ∃ name loader window rest, (x.play before).due j = .install name loader window :: rest ∧
      ((x.play before).dispatcher.bind name loader.traced window).1 = true

/-- A thread that was overtaken stays so until it goes on. -/
theorem Overtaken.concat {x : SectionSystem π} {schedule : List (Act π)} {i : Nat}
    (h : x.Overtaken schedule i) {a : Act π}
    (ha : ((x.play schedule).step a).due i = (x.play schedule).due i) :
    x.Overtaken (schedule ++ [a]) i := by
  obtain ⟨before, after, j, rfl, hj, hd, hi⟩ := h
  refine ⟨before, after ++ [a], j, by simp, hj, ?_, hi⟩
  rw [play_concat, ha, hd]

omit [Provider π] in
@[simp]
theorem dispatcher_call (x : SectionSystem π) (j : Nat) (op : Operation π) :
    (x.call j op).dispatcher = x.dispatcher := by
  unfold call
  split <;> rfl

omit [Provider π] in
theorem due_call {x : SectionSystem π} {i j : Nat} {op : Operation π} {name : String}
    {loader : Loader π} {window : Window} {rest : List (Section π)}
    (h : (x.call j op).due i = .install name loader window :: rest) :
    (x.call j op).due i = x.due i := by
  unfold call at h ⊢
  split at h
  next =>
    by_cases hij : i = j
    · subst hij
      exact absurd (by simpa using h) head_sections
    · simp [hij]
  next => rfl

/-- A thread that comes to install a provider and finds one bound was overtaken. -/
theorem overtaken (options : Options) (schedule : List (Act π)) {i : Nat} {name : String}
    {loader : Loader π} {window : Window} {rest : List (Section π)}
    (hd : ((start options).play schedule).due i = .install name loader window :: rest)
    (hb : ((start options).play schedule).dispatcher.isBound = true) :
    (start options).Overtaken schedule i := by
  induction schedule using List.reverseRecOn with
  | nil => cases hd
  | append_singleton schedule a ih =>
    rw [play_concat] at hd hb
    cases a with
    | call j op =>
      have hsame := due_call hd
      exact (ih (hsame ▸ hd) (by simpa [step] using hb)).concat hsame
    | advance j =>
      cases hj : ((start options).play schedule).due j with
      | nil =>
        have hsame : ((start options).play schedule).step (.advance j) =
            (start options).play schedule := by simp only [step, advance, hj]
        rw [hsame] at hd hb
        exact (ih hd hb).concat (by rw [hsame])
      | cons s more =>
        have hstep : ((start options).play schedule).step (.advance j) =
            ⟨((start options).play schedule).dispatcher.enter s,
              Function.update ((start options).play schedule).due j more⟩ := by
          simp only [step, advance, hj]
        rw [hstep] at hd hb
        by_cases hij : i = j
        · subst hij
          -- The thread's own section before this one was to release, and left nothing bound.
          obtain ⟨op, ho⟩ := ends_play options schedule i
          rw [hj] at ho
          have hmore : more = .install name loader window :: rest := by simpa using hd
          obtain rfl : s = .release := before_install (hmore ▸ ho)
          simp [Dispatcher.isBound, Dispatcher.enter, Dispatcher.binding_shutdown] at hb
        · have hdue : ((start options).play schedule).due i =
              .install name loader window :: rest := by simpa [hij] using hd
          cases hx : ((start options).play schedule).dispatcher.isBound with
          | true =>
            refine (ih hdue hx).concat ?_
            rw [hstep]
            simp [hij]
          | false =>
            -- Nothing was bound before, so this is the section that overtakes.
            obtain ⟨n, l, w, rfl, hok⟩ := Dispatcher.enter_of_unbound hx hb
            refine ⟨schedule, [], j, rfl, fun h => hij h.symm, ?_, n, l, w, more, hj, hok⟩
            rw [play_concat, hstep]
            simp [hij]

/-- On whatever schedule, a section that lets go of a bound provider does so in good order if and
only if it is not one that installs another; and that happens only to a thread that was overtaken
between the two sections of its call. -/
theorem tornDown_iff (options : Options) (schedule : List (Act π)) {i : Nat} {s : Section π}
    {rest : List (Section π)} {b : Binding (Traced π)}
    (hd : ((start options).play schedule).due i = s :: rest)
    (hb : ((start options).play schedule).dispatcher.binding = some b)
    (hs : ((start options).play schedule).dispatcher.Discards s) :
    (TornDown b (((start options).play schedule).dispatcher.enter s) ↔ s = .release) ∧
      (s = .release ∨ (start options).Overtaken schedule i) := by
  have hm := consistent_play options schedule
  cases s with
  | release => exact ⟨⟨fun _ => rfl, fun _ => Dispatcher.tornDown_shutdown hm hb⟩, .inl rfl⟩
  | install name loader window =>
    obtain ⟨hbound, hok⟩ := hs
    refine ⟨⟨fun ht => ?_, by rintro ⟨⟩⟩, .inr (overtaken options schedule hd hbound)⟩
    exact absurd ht (Dispatcher.not_tornDown_bind hm hb hok)
  | selectProject initial => exact hs.elim
  | openProject p => exact hs.elim
  | closeProject => exact hs.elim
  | request r => exact hs.elim

section Race

open Rehearsal

def willing : Loader Scripted := { load := fun _ => .ok (.ok {}) }

def plain : List (Act Scripted) :=
  [.call 0 (.bind "only" willing .none), .advance 0, .advance 0, .call 0 .shutdown]

theorem tornDown_iff_plain :
    ∃ b s rest, ((start {}).play plain).due 0 = s :: rest ∧
      ((start {}).play plain).dispatcher.binding = some b ∧
      ((start {}).play plain).dispatcher.Discards s ∧
      (TornDown b (((start {}).play plain).dispatcher.enter s) ↔ s = .release) := by
  have hd : ((start {}).play plain).due 0 = [.release] := rfl
  have hs : ((start {}).play plain).dispatcher.Discards .release := rfl
  exact ⟨_, .release, [], hd, rfl, hs, (tornDown_iff {} plain hd rfl hs).1⟩

/-- Two threads bind providers at once. One has its own bound, and a project open on it, when the
other comes to its second section. -/
def race : List (Act Scripted) :=
  [.call 0 (.bind "first" willing .none), .call 1 (.bind "second" willing .none), .advance 0,
    .advance 1, .advance 0, .call 0 (.openProject { name := "project" }), .advance 0]

/-- Then the provider that was bound is let go of with the project open, and the project stays on
record. -/
theorem race_not_tornDown :
    ∃ b s rest, ((start {}).play race).due 1 = s :: rest ∧
      ((start {}).play race).dispatcher.binding = some b ∧
      ((start {}).play race).dispatcher.Discards s ∧
      leftOpen b.worker.provider.seen = true ∧
      ¬TornDown b (((start {}).play race).dispatcher.enter s) := by
  refine ⟨_, .install "second" willing .none, [], rfl, rfl, ⟨rfl, rfl⟩, rfl, fun h => ?_⟩
  have hp : (((start {}).play race).dispatcher.enter
    (.install "second" willing .none)).project = none := h.project
  cases hp

end Race

end SectionSystem

end SccDispatch
