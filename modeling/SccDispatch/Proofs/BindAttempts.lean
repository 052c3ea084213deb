import SccDispatch.Proofs.ProviderRecords

namespace SccDispatch

variable {π : Type} [Provider π]

/-- The ways out of an attempt: success, and the dispatcher after it. -/
inductive Attempt (loader : Loader π) (window : Window) (d : Dispatcher (Recorded π)) :
    Bool → Dispatcher (Recorded π) → Prop
  | unloaded {e : Dispatcher (Recorded π)}
      (load : ∀ p, loader.load (d.lastRetired.map Recorded.provider) ≠ .ok (.ok p))
      (binding : e.binding = d.binding) (project : e.project = d.project)
      (options : e.options = d.options) (retired : e.retired = d.retired) :
      Attempt loader window d false e
  | failed {e : Dispatcher (Recorded π)} {p : π} {out : Output} {r : Retired (Recorded π)}
      (load : loader.load (d.lastRetired.map Recorded.provider) = .ok (.ok p))
      (startup : Startup p d.options.concurrentQueries window d.options.caller out
        r.provider.notes)
      (failure : out.started? = none)
      (handles :
        r.handles = ((Handles.after {} out).drop .worker .worker).drop .output .caller)
      (binding : e.binding = d.binding) (project : e.project = d.project)
      (options : e.options = d.options) (retired : e.retired = d.retired ++ [r]) :
      Attempt loader window d false e
  | done {e : Dispatcher (Recorded π)} {p : π} {out : Output} {b : Binding (Recorded π)}
      (load : loader.load (d.lastRetired.map Recorded.provider) = .ok (.ok p))
      (startup : Startup p d.options.concurrentQueries window d.options.caller out
        b.worker.provider.notes)
      (started : out.started? = some (b.info, b.concurrent)) (idle : b.worker.Idle)
      (handles : b.worker.handles = (Handles.after {} out).move .output .binding)
      (binding : e.binding = some b) (project : e.project = d.project)
      (options : e.options = d.options)
      (retired : e.retired =
        d.retired ++ (d.binding.map Binding.dropped).toList) :
      Attempt loader window d true e

namespace Dispatcher

theorem retired_abandon {d : Dispatcher π} {w : Worker π} (hi : w.Idle) (name reason : String)
    (j : Journal) :
    (d.abandon name reason w j).2.retired = d.retired ++ [Retired.of w.ended .output] := by
  simp only [abandon, Worker.stop_of_idle hi]
  rfl

variable (d : Dispatcher (Recorded π)) (name : String) (loader : Loader π) (window : Window)

/-- A loaded provider is bound, or let go of again. -/
theorem attempt_start {t : Recorded π} (hl : loader.recorded.load d.lastRetired = .ok (.ok t)) :
    Attempt loader window d ((d.loading name loader.path).start name t window).1
      ((d.loading name loader.path).start name t window).2 := by
  obtain ⟨load, ht⟩ := load_recorded hl
  have startup := startup_of_new ht d.options.concurrentQueries window d.options.caller
  have idle := (idle_newWorker (d := d) t).ran (.start window d.options.caller)
  rw [start_eq]
  simp only
  split
  next info concurrent hs => exact .done load startup hs idle.kept rfl rfl rfl rfl rfl
  next hs =>
    have hr := retired_abandon (d := d.loading name loader.path) idle
    exact .failed load startup hs rfl rfl rfl rfl (hr ..)

/-- Every bind of recorded providers is such an attempt, whatever the loader does. -/
theorem attempt_bind :
    Attempt loader window d (d.bind name loader.recorded window).1
      (d.bind name loader.recorded window).2 := by
  have hn : (∀ t, loader.recorded.load d.lastRetired ≠ .ok (.ok t)) →
      ∀ p, loader.load (d.lastRetired.map Recorded.provider) ≠ .ok (.ok p) := by
    intro h p hp
    exact h { provider := p } (by simp only [Loader.recorded, hp, Except.map])
  rw [bind_eq]
  split
  next t hl => exact d.attempt_start name loader window hl
  next e hl => exact .unloaded (hn (by simp [hl])) rfl rfl rfl rfl
  next cause hl => exact .unloaded (hn (by simp [hl])) rfl rfl rfl rfl

end Dispatcher

/-- Every start that succeeded was followed by a stop. -/
def Settled (notes : List Note) : Prop :=
  ∀ before on window caller info after,
    notes = before ++ .heard on (.start window caller) (.ok info) :: after →
      info.code.isOk = true → ∃ on answer, .heard on .stop answer ∈ after

/-- Where no start succeeded nothing has to be stopped. -/
theorem settled_of_forall {notes : List Note}
    (h : ∀ on window caller info, .heard on (.start window caller) (.ok info) ∈ notes →
      info.code.isOk = false) : Settled notes := by
  intro before on window caller info after he hc
  have hm : .heard on (.start window caller) (.ok info) ∈ notes := by simp [he]
  rw [h on window caller info hm] at hc
  cases hc

section

variable {p : π} {shares : Bool} {window : Window} {caller : String} {out : Output}
  {notes : List Note}

/-- A provider that is not in use after it was started was left running by the query. -/
theorem Startup.settled_iff (h : Startup p shares window caller out notes)
    (hf : out.started? = none) :
    Settled notes ↔ ∀ info q, respond p .worker (.start window caller) = (.ok info, q) →
      info.code.isOk = true →
        ∃ threadsafe, (respond q .worker .threadsafeQuery).1 = .ok threadsafe := by
  cases h with
  | faulted start =>
    refine ⟨fun _ info q hs => by simp [start] at hs, fun _ => settled_of_forall ?_⟩
    simp
  | refused start code =>
    constructor
    · intro _ info q hs hc
      obtain ⟨rfl, rfl⟩ : _ = info ∧ _ = q := by simpa [start] using hs
      simp [code] at hc
    · intro _
      refine settled_of_forall ?_
      intro on w c info hm
      cases List.mem_singleton.mp hm
      exact code
  | lost start code query =>
    constructor
    · intro hs
      obtain ⟨on, answer, hm⟩ := hs [] .worker window caller _ _ rfl code
      simp at hm
    · intro ha
      obtain ⟨threadsafe, ht⟩ := ha _ _ start code
      simp [query] at ht
  | ready start code query => simp [Output.started?, code] at hf

/-- A start that came to an end was followed by an answer about status queries. -/
theorem Startup.answered {told : ProviderInfo} {concurrent : Bool}
    (h : Startup p shares window caller out notes) (hs : out.started? = some (told, concurrent))
    {info : ProviderInfo} {q : π}
    (hr : respond p .worker (.start window caller) = (.ok info, q)) :
    ∃ threadsafe, (respond q .worker .threadsafeQuery).1 = .ok threadsafe := by
  obtain ⟨info', threadsafe, q', start, -, query, -⟩ := h.of_started hs
  obtain ⟨rfl, rfl⟩ : info' = info ∧ q' = q := by simpa [start] using hr
  exact ⟨threadsafe, query⟩

end

namespace Dispatcher

theorem options_shutdown (d : Dispatcher π) : d.shutdown.options = d.options := by
  unfold shutdown
  split <;> rfl

/-- If no provider is bound in the end, none of those let go of meanwhile was left running. -/
def FailsCleanly (d : Dispatcher (Recorded π)) (name : String) (loader : Loader π)
    (window : Window) : Prop :=
  (d.rebind name loader.recorded window).1 = false →
    ∀ r ∈ (d.rebind name loader.recorded window).2.retired.drop d.shutdown.retired.length,
      Settled r.provider.notes

/-- An attempt to bind a provider fails cleanly if and only if the provider, once it has been
started, answers the query that follows. -/
theorem failsCleanly_iff (d : Dispatcher (Recorded π)) (name : String) (loader : Loader π)
    (window : Window) :
    d.FailsCleanly name loader window ↔
      ∀ p info q, loader.load (d.shutdown.lastRetired.map Recorded.provider) = .ok (.ok p) →
        respond p .worker (.start window d.options.caller) = (.ok info, q) →
          info.code.isOk = true →
            ∃ threadsafe, (respond q .worker .threadsafeQuery).1 = .ok threadsafe := by
  have ha := d.shutdown.attempt_bind name loader window
  unfold FailsCleanly rebind
  rw [← d.options_shutdown]
  generalize d.shutdown.bind name loader.recorded window = r at ha ⊢
  obtain ⟨success, e⟩ := r
  cases ha with
  | unloaded load binding project options retired =>
    constructor
    · intro _ p info q hl
      exact absurd hl (load p)
    · intro _ _ r hr
      have hd : e.retired.drop d.shutdown.retired.length = [] := by
        rw [show e.retired = d.shutdown.retired from retired, List.drop_length]
      exact absurd (hd ▸ hr) List.not_mem_nil
  | @failed _ p out r load startup failure handles binding project options retired =>
    have hd : e.retired.drop d.shutdown.retired.length = [r] := by
      rw [show e.retired = d.shutdown.retired ++ [r] from retired, List.drop_left]
    have hs := startup.settled_iff failure
    simp only [hd, List.mem_singleton, forall_eq, forall_const, hs]
    constructor
    · intro h p' info q hl
      obtain rfl : p = p' := by simpa [load] using hl
      exact h info q
    · intro h info q
      exact h p info q load
  | @done _ p out b load startup started idle handles binding project options retired =>
    refine ⟨fun _ p' info q hl hr hc => ?_, fun _ h => by cases h⟩
    obtain rfl : p = p' := by simpa [load] using hl
    exact startup.answered started hr

end Dispatcher

section Interrupted

open Rehearsal

/-- Brings in a provider that starts and then faults when it is asked about status queries. -/
def faultsWhenAsked : Loader Scripted where
  load _ := .ok (.ok {
    script := ⟨[(.extendedCapability, [{ ending := .error (.message "no") }])]⟩ })

/-- The provider was started, it is not bound, and it was never stopped. -/
theorem faultsWhenAsked_not_failsCleanly :
    ¬({} : Dispatcher (Recorded Scripted)).FailsCleanly "only" faultsWhenAsked .none := by
  intro h
  have hr := h rfl _ (List.mem_singleton_self _)
  obtain ⟨on, answer, hm⟩ := hr [] .worker .none "Decoda" _ _ rfl rfl
  simp at hm

end Interrupted

end SccDispatch
