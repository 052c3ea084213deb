import SccDispatch.Proofs.ProviderRecords

namespace SccDispatch

theorem Note.Ordinary.mono {note : Note} {shared more : Bool} (h : note.Ordinary shared)
    (hs : shared = true → more = true) : note.Ordinary more := by
  rcases note with ⟨on, call, answer⟩ | _ | _ | _
  · cases on with
    | worker => exact h
    | caller => exact ⟨hs h.1, h.2⟩
  all_goals exact h

def Command.Midway : Command → Prop
  | start .. | stop => False
  | _ => True

theorem ordinary_of_midway {command : Command} (h : command.Midway)
    (answer : Except Cause command.call.Answer) (shared : Bool) :
    (Note.heard .worker command.call answer).Ordinary shared := by
  cases command with
  | start window caller => exact h.elim
  | stop => exact h.elim
  | _ => exact ⟨by rintro _ _ ⟨⟩, by rintro ⟨⟩, by rintro ⟨⟩⟩

theorem midway_of_request (r : Request) (window : Window) : (r.command window).Midway := by
  cases r <;> trivial

namespace Dispatcher

variable {π : Type}

/-- The provider that was bound still is, and between then and now it has heard what it hears in
use. -/
structure Served (shared : Bool) (d : Dispatcher (Recorded π)) (b : Binding (Recorded π))
    (e : Dispatcher (Recorded π)) (c : Binding (Recorded π)) : Prop where
  binding : e.binding = some c
  idle : c.worker.Idle
  concurrent : c.concurrent = b.concurrent
  handles : c.worker.handles = b.worker.handles
  options : e.options = d.options
  retired : e.retired = d.retired
  notes : ∃ more, c.worker.provider.notes = b.worker.provider.notes ++ more ∧
    ∀ note ∈ more, note.Ordinary shared
  project : d.project.isSome = openOn b.worker.provider.notes →
    e.project.isSome = openOn c.worker.provider.notes

namespace Served

variable {shared : Bool} {d e f : Dispatcher (Recorded π)} {b c a : Binding (Recorded π)}

theorem refl (h : d.Idle) (hb : d.binding = some b) : Served shared d b d b where
  binding := hb
  idle := h b hb
  concurrent := rfl
  handles := rfl
  options := rfl
  retired := rfl
  notes := ⟨[], by simp, by simp⟩
  project := id

theorem trans (h : Served shared d b e c) (k : Served shared e c f a) : Served shared d b f a := by
  obtain ⟨m, hm, ho⟩ := h.notes
  obtain ⟨n, hn, hp⟩ := k.notes
  refine ⟨k.binding, k.idle, k.concurrent.trans h.concurrent, k.handles.trans h.handles,
    k.options.trans h.options, k.retired.trans h.retired, ⟨m ++ n, ?_, ?_⟩,
    fun hd => k.project (h.project hd)⟩
  · rw [hn, hm, List.append_assoc]
  · intro note hmem
    rcases List.mem_append.mp hmem with hmem | hmem
    · exact ho note hmem
    · exact hp note hmem

theorem mono {more : Bool} (h : Served shared d b e c) (hs : shared = true → more = true) :
    Served more d b e c := by
  obtain ⟨m, hm, ho⟩ := h.notes
  exact { h with notes := ⟨m, hm, fun note hmem => (ho note hmem).mono hs⟩ }

theorem of_same (h : Served shared d b e c) (hb : f.binding = e.binding)
    (hp : f.project = e.project) (ho : f.options = e.options) (hr : f.retired = e.retired) :
    Served shared d b f c :=
  { h with
    binding := hb.trans h.binding
    options := ho.trans h.options
    retired := hr.trans h.retired
    project := fun hd => hp ▸ h.project hd }

end Served

variable [Provider π] {shared : Bool} {d e : Dispatcher (Recorded π)} {b c : Binding (Recorded π)}

/-- A command that neither starts nor stops the provider adds one note to its record. -/
theorem served_ran (h : d.Idle) (hb : d.binding = some b) {command : Command}
    (hc : command.Midway)
    (he : e.binding = (d.ran b command).binding ∧ e.options = d.options ∧ e.retired = d.retired)
    (project : ∀ fine, (b.worker.outputOf command).succeeded = fine →
      e.project.isSome = (⟨.worker, command.call, fine⟩ : Seen).leaves d.project.isSome) :
    Served shared d b e { b with worker := b.worker.ran command } := by
  have hns : ∀ window caller, command ≠ .start window caller := by
    rintro window caller rfl
    exact hc
  obtain ⟨answer, hn, hs⟩ := execute_recorded b.worker.provider .worker b.worker.shares command hns
  have hn : (b.worker.ran command).provider.notes = _ := hn
  obtain ⟨binding, options, retired⟩ := he
  refine ⟨binding, (h b hb).ran command, rfl, b.worker.handles_ran hns, options, retired,
    ⟨_, hn, ?_⟩, fun hd => ?_⟩
  · intro note hmem
    rw [List.mem_singleton.mp hmem]
    exact ordinary_of_midway hc answer _
  · rw [project _ hs, hn, openOn_heard, hd]

theorem served_plain (h : d.Idle) (hb : d.binding = some b) {command : Command}
    (hc : command.Plain) (hm : command.Midway) :
    Served shared d b (d.ran b command) { b with worker := b.worker.ran command } :=
  served_ran h hb hm ⟨rfl, rfl, rfl⟩ fun fine _ => ((call_of_plain hc).2 _ fine _).symm

theorem served_selectProject (h : d.Idle) (hb : d.binding = some b) (initial : Project) :
    ∃ c, Served shared d b (d.selectProject initial).2 c := by
  have hr : Served shared d b (d.ran b (.selectProject b.window initial true)) _ :=
    served_plain h hb trivial trivial
  rw [selectProject_eq, run_of_idle h hb]
  simp only
  split
  next => exact ⟨_, hr.of_same rfl rfl rfl rfl⟩
  next => exact ⟨_, hr⟩

theorem served_dropProject (h : d.Idle) (hb : d.binding = some b) :
    ∃ c, Served shared d b d.dropProject.2 c := by
  unfold dropProject
  rw [run_of_idle h hb]
  have hc : Command.closeProject.Midway := trivial
  exact ⟨_, served_ran h hb hc ⟨rfl, rfl, rfl⟩ fun _ _ => rfl⟩

theorem served_vacated (h : d.Idle) (hb : d.binding = some b) :
    ∃ c, Served shared d b d.vacated c := by
  unfold vacated
  split
  next => exact served_dropProject h hb
  next => exact ⟨b, .refl h hb⟩

/-- Opening a project leaves one on record if there was one, or if the provider did open it. -/
theorem served_opening (h : d.Idle) (hb : d.binding = some b) (p : Project) :
    ∃ c, Served shared d b (d.opening p).2 c := by
  unfold opening
  rw [run_of_idle h hb]
  have hc : (d.openCommand p b.window).Midway := trivial
  simp only [Option.any_some]
  refine ⟨{ b with worker := b.worker.ran (d.openCommand p b.window) }, ?_⟩
  split
  next hs =>
    refine served_ran h hb hc ⟨rfl, rfl, rfl⟩ ?_
    rintro fine rfl
    rw [hs]
    exact (Bool.or_true _).symm
  next hs =>
    refine served_ran h hb hc ⟨rfl, rfl, rfl⟩ ?_
    rintro fine rfl
    rw [Bool.eq_false_iff.mpr hs]
    exact (Bool.or_false _).symm

theorem served_openProject (h : d.Idle) (hb : d.binding = some b) (p : Project) :
    ∃ c, Served shared d b (d.openProject p).2 c := by
  obtain ⟨c, hv⟩ := served_vacated h hb
  obtain ⟨a, ho⟩ := served_opening (idle_vacated h) hv.binding p
  rw [openProject_eq_opening d (Option.isSome_iff_exists.mpr ⟨b, hb⟩)]
  exact ⟨a, hv.trans ho⟩

theorem served_closeProject (h : d.Idle) (hb : d.binding = some b) :
    ∃ c, Served shared d b d.closeProject.2 c := by
  rw [closeProject_of_bound d (Option.isSome_iff_exists.mpr ⟨b, hb⟩)]
  split
  next => exact served_dropProject h hb
  next => exact ⟨b, .refl h hb⟩

omit [Provider π] in
/-- Answering a request adds nothing to the record. -/
theorem Served.settle (h : Served shared d b e c) (r : Request) (out : Option Output) :
    Served shared d b (e.settle r out).2 c := by
  unfold Dispatcher.settle
  split
  next => exact h.of_same rfl rfl rfl rfl
  next => exact h

/-- Without a provider a request changes nothing. -/
theorem request_of_nothing (h : d.Idle) (hb : d.binding = none) (r : Request) :
    ∃ reply, d.request r = (reply, d) := by
  cases hr : r.idle? with
  | some reply => exact ⟨reply, request_of_noFiles h hr⟩
  | none => exact ⟨r.reply none, request_of_unbound hr hb⟩

/-- A query of the calling thread is heard on that thread. -/
theorem served_queryDirectly (h : d.Idle) (hb : d.binding = some b) (files : List String) :
    ∃ c, Served true d b (d.queryDirectly b (.queryStatus files)).2 c := by
  obtain ⟨answer, hn, -⟩ := execute_recorded b.worker.provider .caller false (.queryStatus files)
    (by rintro _ _ ⟨⟩)
  refine ⟨_, rfl, ⟨(h b hb).queue, (h b hb).answers⟩, rfl, rfl, rfl, rfl, ⟨_, hn, ?_⟩,
    fun hd => ?_⟩
  · intro note hmem
    rw [List.mem_singleton.mp hmem]
    exact ⟨rfl, files, rfl⟩
  · have ho := congrArg openOn hn
    rw [openOn_heard] at ho
    exact hd.trans ho.symm

/-- Only a status query is made on the calling thread, and only if that is allowed. -/
theorem served_request (h : d.Idle) (hb : d.binding = some b) (r : Request) :
    ∃ c, Served (r.isQuery && b.concurrent) d b (d.request r).2 c := by
  cases hr : r.idle? with
  | some reply =>
    rw [request_of_noFiles h hr]
    exact ⟨b, .refl h hb⟩
  | none =>
    cases hq : r.isQuery && b.concurrent with
    | false =>
      have hp := plain_of_request r b.window
      rw [request_of_queued h hr hb hq]
      exact ⟨_, (served_plain h hb hp (midway_of_request r b.window)).settle r _⟩
    | true =>
      obtain ⟨files, hc⟩ : ∃ files, r.command b.window = .queryStatus files := by
        cases r <;> first | exact ⟨_, rfl⟩ | simp [Request.isQuery] at hq
      obtain ⟨c, hs⟩ := served_queryDirectly h hb files
      rw [request_of_direct h hr hb hq, hc]
      exact ⟨c, hs.settle r _⟩

end Dispatcher

end SccDispatch
