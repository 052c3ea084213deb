import SccDispatch.Proofs.BindAttempts
import SccDispatch.Proofs.BoundProviders

namespace SccDispatch

theorem openOn_prelude (window : Window) (caller : String) (info : ProviderInfo)
    (threadsafe : Bool) (notes : List Note) :
    openOn (prelude window caller info threadsafe ++ notes) = openOn notes := rfl

/-- The record of a provider in use; other threads may query it if `shared`. -/
inductive InUse (options : Options) : (shared : Bool) → List Note → Prop
  | intro {window : Window} {info : ProviderInfo} {threadsafe : Bool} {middle : List Note}
      (code : info.code.isOk = true)
      (ordinary : ∀ note ∈ middle, note.Ordinary (options.concurrentQueries && threadsafe)) :
      InUse options (options.concurrentQueries && threadsafe)
        (prelude window options.caller info threadsafe ++ middle)

/-- How a session ends, if a project is open and if none is. -/
inductive Closing : (wasOpen : Bool) → List Note → Prop
  | opened (answer last : Except Cause ResultCode) :
      Closing true [.heard .worker .closeProject answer, .heard .worker .stop last]
  | vacant (last : Except Cause ResultCode) : Closing false [.heard .worker .stop last]

/-- The record of a whole session. -/
inductive Bracketed (options : Options) : List Note → Prop
  | intro {window : Window} {info : ProviderInfo} {threadsafe : Bool} {middle last : List Note}
      (code : info.code.isOk = true)
      (ordinary : ∀ note ∈ middle, note.Ordinary (options.concurrentQueries && threadsafe))
      (closing : Closing (openOn middle) last) :
      Bracketed options (prelude window options.caller info threadsafe ++ middle ++ last)

namespace Handles

/-- The worker's own handle, and one more in that place if the provider was shared. -/
def beside (place : Holder) (shared : Bool) : Handles :=
  { held := if shared then [place, .worker] else [.worker] }

/-- A thread dropped the last handle. -/
def gone (on : Thread) : Handles := { held := [], releasedBy := some on }

/-- The handle of a worker just spawned, and the one in the output of a start that offers it. -/
theorem after_new (out : Output) : after {} out = .beside .output out.concurrent := by
  unfold after beside
  cases out.concurrent <;> rfl

/-- The handle in the output becomes that of the binding. -/
theorem move_beside (shared : Bool) :
    (beside .output shared).move .output .binding = .beside .binding shared := by
  cases shared <;> rfl

/-- The handle of a binding is dropped while the worker still has its own. -/
theorem drop_withdrawn (shared : Bool) :
    (((beside .binding shared).drop .binding .caller).drop .worker .worker).drop .binding .caller =
      .gone .worker := by
  cases shared <;> rfl

/-- The handle in an output is dropped when the worker has ended. -/
theorem drop_abandoned (shared : Bool) :
    ((beside .output shared).drop .worker .worker).drop .output .caller =
      .gone (if shared then .caller else .worker) := by
  cases shared <;> rfl

end Handles

variable {π : Type}

/-- How a provider came to be let go of. -/
inductive Parted (options : Options) (r : Retired (Recorded π)) [Provider π] : Prop
  | stopped (handles : r.handles = .gone .worker) (session : Bracketed options r.provider.notes)
  | abandoned {p : π} {window : Window} {out : Output}
      (startup : Startup p options.concurrentQueries window options.caller out r.provider.notes)
      (failure : out.started? = none)
      (handles : r.handles = .gone (if out.concurrent then .caller else .worker))

/-- Ordinary calls keep a provider in use. -/
theorem InUse.extend {options : Options} {shared : Bool} {notes more : List Note}
    (h : InUse options shared notes) (hm : ∀ note ∈ more, note.Ordinary shared) :
    InUse options shared (notes ++ more) := by
  cases h with
  | intro code ordinary =>
    rw [List.append_assoc]
    refine .intro code fun note hn => ?_
    rcases List.mem_append.mp hn with hn | hn
    · exact ordinary note hn
    · exact hm note hn

/-- The last calls complete its session. -/
theorem InUse.close {options : Options} {shared : Bool} {notes last : List Note}
    (h : InUse options shared notes) (hc : Closing (openOn notes) last) :
    Bracketed options (notes ++ last) := by
  cases h with
  | intro code ordinary =>
    rw [openOn_prelude] at hc
    exact .intro code ordinary hc

variable [Provider π] {p : π} {options : Options} {window : Window} {out : Output}
  {notes : List Note}

/-- A provider that was started is in use. -/
theorem Startup.inUse {told : ProviderInfo} {concurrent : Bool}
    (h : Startup p options.concurrentQueries window options.caller out notes)
    (hs : out.started? = some (told, concurrent)) :
    InUse options concurrent notes ∧ openOn notes = false := by
  obtain ⟨info, threadsafe, q, -, code, -, rfl, rfl⟩ := h.of_started hs
  have ho : ∀ note ∈ ([] : List Note),
      note.Ordinary (options.concurrentQueries && threadsafe) := by simp
  exact ⟨.intro code ho, rfl⟩

namespace Dispatcher

inductive Outcome (d : Dispatcher (Recorded π)) : Answer → Dispatcher (Recorded π) → Prop
  | aside {answer : Answer} {e : Dispatcher (Recorded π)} (failure : answer ≠ .bound true)
      (binding : e.binding = d.binding) (project : e.project = d.project)
      (options : e.options = d.options) (retired : e.retired = d.retired) : Outcome d answer e
  | served {answer : Answer} {e : Dispatcher (Recorded π)} {b c : Binding (Recorded π)}
      (failure : answer ≠ .bound true) (bound : d.binding = some b)
      (served : Served b.concurrent d b e c) : Outcome d answer e
  | released : Outcome d .released d.shutdown
  | rebound {success : Bool} {e : Dispatcher (Recorded π)} {loader : Loader π} {window : Window}
      (attempt : Attempt loader window d.shutdown success e) : Outcome d (.bound success) e

variable {d e : Dispatcher (Recorded π)}

/-- What a call does to the bound provider, one case for each way. -/
theorem outcome_perform (h : d.Idle) (op : Operation π) :
    Outcome d (d.perform op.recorded).1 (d.perform op.recorded).2 := by
  cases op with
  | bind name loader window => exact .rebound (d.shutdown.attempt_bind name loader window)
  | bindIndex registry load index window =>
    simp only [Operation.recorded, Operation.mapLoader, perform, rebindIndex]
    split
    next p _ => exact .rebound (d.shutdown.attempt_bind p.name (load p) window)
    next => exact .aside (by rintro ⟨⟩) rfl rfl rfl rfl
  | bindName registry load name window =>
    simp only [Operation.recorded, Operation.mapLoader, perform, rebindName]
    split
    next p _ => exact .rebound (d.shutdown.attempt_bind p.name (load p) window)
    next => exact .aside (by rintro ⟨⟩) rfl rfl rfl rfl
  | shutdown => exact .released
  | selectProject initial =>
    cases hb : d.binding with
    | none =>
      simp only [Operation.recorded, Operation.mapLoader, perform,
        selectProject_of_unbound d (by simp [isBound, hb])]
      exact .aside (by rintro ⟨⟩) rfl rfl rfl rfl
    | some b =>
      obtain ⟨c, hs⟩ := served_selectProject h hb initial
      exact .served (by rintro ⟨⟩) hb hs
  | openProject p =>
    cases hb : d.binding with
    | none =>
      simp only [Operation.recorded, Operation.mapLoader, perform,
        openProject_of_unbound d (by simp [isBound, hb])]
      exact .aside (by rintro ⟨⟩) rfl rfl rfl rfl
    | some b =>
      obtain ⟨c, hs⟩ := served_openProject h hb p
      exact .served (by rintro ⟨⟩) hb hs
  | closeProject =>
    cases hb : d.binding with
    | none =>
      simp only [Operation.recorded, Operation.mapLoader, perform,
        closeProject_of_unbound d (by simp [isBound, hb])]
      exact .aside (by rintro ⟨⟩) rfl rfl rfl rfl
    | some b =>
      obtain ⟨c, hs⟩ := served_closeProject h hb
      exact .served (by rintro ⟨⟩) hb hs
  | request r =>
    cases hb : d.binding with
    | none =>
      obtain ⟨reply, he⟩ := request_of_nothing h hb r
      simp only [Operation.recorded, Operation.mapLoader, perform, he]
      exact .aside (by rintro ⟨⟩) rfl rfl rfl rfl
    | some b =>
      obtain ⟨c, hs⟩ := served_request h hb r
      exact .served (by rintro ⟨⟩) hb (hs.mono (by simp))

structure Orderly (options : Options) (d : Dispatcher (Recorded π)) : Prop where
  idle : d.Idle
  settings : d.options = options
  inUse : ∀ b, d.binding = some b → InUse options b.concurrent b.worker.provider.notes ∧
    d.project.isSome = openOn b.worker.provider.notes ∧
    b.worker.handles = .beside .binding b.concurrent
  project : d.binding = none → d.project = none
  parted : ∀ r ∈ d.retired, Parted options r

/-- The last calls, as they go on record. -/
theorem notes_parting (d : Dispatcher (Recorded π)) (b : Binding (Recorded π)) :
    ∃ last, Closing d.project.isSome last ∧
      ((d.parting b).1.ran .stop).provider.notes = b.worker.provider.notes ++ last := by
  have hs : ∀ w : Worker (Recorded π), ∃ last,
      (w.ran .stop).provider.notes = w.provider.notes ++ [.heard .worker .stop last] := by
    intro w
    obtain ⟨last, hn, -⟩ := execute_recorded w.provider .worker w.shares .stop (by rintro _ _ ⟨⟩)
    exact ⟨last, hn⟩
  obtain ⟨last, hl⟩ := hs (d.parting b).1
  cases hp : d.project.isSome with
  | false =>
    refine ⟨_, .vacant last, ?_⟩
    rw [hl]
    simp [parting, hp]
  | true =>
    obtain ⟨answer, hn, -⟩ := execute_recorded b.worker.provider .worker b.worker.shares
      .closeProject (by rintro _ _ ⟨⟩)
    have hn : (b.withdrawn.ran .closeProject).provider.notes = _ := hn
    have hw : (d.parting b).1 = b.withdrawn.ran .closeProject := by simp [parting, hp]
    refine ⟨_, .opened answer last, ?_⟩
    rw [hl, hw, hn, List.append_assoc]
    rfl

/-- Stopping a provider clones no handle, so its worker has the last one. -/
theorem handles_parting (d : Dispatcher (Recorded π)) {b : Binding (Recorded π)}
    (h : b.worker.handles = .beside .binding b.concurrent) :
    (Retired.of ((d.parting b).1.ran .stop).ended .binding).handles = .gone .worker := by
  have hp : ((d.parting b).1.ran .stop).handles = b.worker.handles.drop .binding .caller := by
    rw [Worker.handles_ran _ (by rintro _ _ ⟨⟩)]
    unfold parting
    split
    next => exact Worker.handles_ran _ (by rintro _ _ ⟨⟩)
    next => rfl
  simp only [Retired.of, Worker.ended, Worker.drop, hp, h, Handles.drop_withdrawn]

/-- A provider in use has a whole session once it was let go of. -/
theorem bracketed_parting {b : Binding (Recorded π)} (h : Orderly options d)
    (hb : d.binding = some b) :
    Bracketed options ((d.parting b).1.ran .stop).provider.notes ∧
      b.worker.provider.notes <+: ((d.parting b).1.ran .stop).provider.notes := by
  obtain ⟨hu, hp, -⟩ := h.inUse b hb
  obtain ⟨last, hc, hn⟩ := d.notes_parting b
  rw [hn]
  exact ⟨hu.close (hp ▸ hc), List.prefix_append _ _⟩

theorem orderly_of_unbound (hb : d.binding = none) (hs : d.options = options)
    (hp : d.project = none) (hr : ∀ r ∈ d.retired, Parted options r) : Orderly options d where
  idle := idle_of_unbound hb
  settings := hs
  inUse b hc := by simp [hb] at hc
  project _ := hp
  parted := hr

theorem orderly_shutdown (h : Orderly options d) : Orderly options d.shutdown := by
  cases hb : d.binding with
  | none => rwa [shutdown_of_unbound d hb]
  | some b =>
    have hs := bracketed_parting h hb
    rw [shutdown_of_bound h.idle hb]
    refine orderly_of_unbound rfl h.settings rfl fun r hr => ?_
    rcases List.mem_append.mp hr with hr | hr
    · exact h.parted r hr
    · cases List.mem_singleton.mp hr
      exact .stopped (d.handles_parting (h.inUse b hb).2.2) hs.1

/-- A bind keeps things in order, whether it succeeds or not. -/
theorem orderly_attempt {loader : Loader π} {window : Window} {success : Bool}
    (h : Orderly options d) (hb : d.binding = none) (ha : Attempt loader window d success e) :
    Orderly options e := by
  have hset := h.settings
  cases ha with
  | unloaded load binding project same retired =>
    exact orderly_of_unbound (binding.trans hb) (same.trans hset) (project.trans (h.project hb))
      (retired ▸ h.parted)
  | failed load startup failure handles binding project same retired =>
    refine orderly_of_unbound (binding.trans hb) (same.trans hset) (project.trans (h.project hb))
      fun r hr => ?_
    rw [retired] at hr
    rcases List.mem_append.mp hr with hr | hr
    · exact h.parted r hr
    · cases List.mem_singleton.mp hr
      rw [Handles.after_new, Handles.drop_abandoned] at handles
      exact .abandoned (hset ▸ startup) failure handles
  | @done _ p out b load startup started idle handles binding project same retired =>
    obtain ⟨hu, ho⟩ := (hset ▸ startup).inUse started
    have hp : e.project = none := project.trans (h.project hb)
    refine ⟨idle_of_bound binding idle, same.trans hset, fun c hc => ?_, fun _ => hp, ?_⟩
    · obtain rfl : b = c := by simpa [binding] using hc
      rw [Handles.after_new, Handles.move_beside, concurrent_of_started started] at handles
      exact ⟨hu, by rw [hp, ho]; rfl, handles⟩
    · rw [retired, hb]
      simpa using h.parted

theorem orderly_served {b c : Binding (Recorded π)} (h : Orderly options d)
    (hb : d.binding = some b) (hs : Served b.concurrent d b e c) : Orderly options e := by
  obtain ⟨hu, hp, hh⟩ := h.inUse b hb
  obtain ⟨more, hn, ho⟩ := hs.notes
  refine ⟨idle_of_bound hs.binding hs.idle, hs.options.trans h.settings, fun a ha => ?_,
    fun hnone => ?_, hs.retired ▸ h.parted⟩
  · obtain rfl : c = a := by simpa [hs.binding] using ha
    refine ⟨?_, hs.project hp, ?_⟩
    · rw [hs.concurrent, hn]
      exact hu.extend ho
    · rw [hs.handles, hs.concurrent, hh]
  · simp [hs.binding] at hnone

/-- A call keeps things in order, whatever has come of it. -/
theorem orderly_outcome {answer : Answer} (h : Orderly options d) (ht : Outcome d answer e) :
    Orderly options e := by
  cases ht with
  | aside failure binding project same retired =>
    exact ⟨h.idle.of_binding binding, same.trans h.settings,
      fun b hb => project ▸ h.inUse b (binding ▸ hb),
      fun hb => project.trans (h.project (binding ▸ hb)), retired ▸ h.parted⟩
  | served failure bound served => exact orderly_served h bound served
  | released => exact orderly_shutdown h
  | rebound attempt => exact orderly_attempt (orderly_shutdown h) d.binding_shutdown attempt

def afterCalls (options : Options) (calls : List (Operation π)) : Dispatcher (Recorded π) :=
  (({ options } : Dispatcher (Recorded π)).performAll (calls.map Operation.recorded)).2

theorem afterCalls_concat (options : Options) (calls : List (Operation π)) (op : Operation π) :
    afterCalls options (calls ++ [op]) = ((afterCalls options calls).perform op.recorded).2 := by
  simp only [afterCalls, List.map_append, performAll_append]
  rfl

/-- By induction things are in order after any calls. -/
theorem orderly_afterCalls (options : Options) (calls : List (Operation π)) :
    Orderly options (afterCalls options calls) := by
  induction calls using List.reverseRecOn with
  | nil => exact orderly_of_unbound rfl rfl rfl (by simp [afterCalls, performAll])
  | append_singleton calls op ih =>
    rw [afterCalls_concat]
    exact orderly_outcome ih (outcome_perform ih.idle op)

/-- The provider that was bound when `n` had been let go of, and its record then: it is bound still,
or it is the next one to have been let go of, with a whole session. -/
inductive Follows (options : Options) (n : Nat) (notes : List Note)
    (d : Dispatcher (Recorded π)) : Prop
  | bound {b : Binding (Recorded π)} (binding : d.binding = some b)
      (place : d.retired.length = n) (grown : notes <+: b.worker.provider.notes)
  | parted {r : Retired (Recorded π)} (place : d.retired[n]? = some r)
      (grown : notes <+: r.provider.notes) (session : Bracketed options r.provider.notes)

variable {n : Nat}

theorem getElem?_of_isPrefix {α : Type} {l m : List α} {a : α} (h : l <+: m)
    (ha : l[n]? = some a) : m[n]? = some a := by
  obtain ⟨hn, rfl⟩ := List.getElem?_eq_some_iff.mp ha
  exact List.prefix_iff_getElem?.mp h n hn

theorem retired_shutdown (h : d.Idle) : d.retired <+: d.shutdown.retired := by
  cases hb : d.binding with
  | none => simp [shutdown_of_unbound d hb]
  | some b =>
    rw [shutdown_of_bound h hb]
    exact List.prefix_append _ _

theorem retired_attempt {loader : Loader π} {window : Window} {success : Bool}
    (h : Attempt loader window d success e) : d.retired <+: e.retired := by
  cases h with
  | unloaded load binding project same retired => exact retired ▸ List.prefix_rfl
  | failed load startup failure handles binding project same retired =>
    rw [retired]
    exact List.prefix_append _ _
  | done load startup started idle handles binding project same retired =>
    rw [retired]
    exact List.prefix_append _ _

/-- A provider that is followed to the end has a whole session. -/
theorem parted_of_shutdown (ho : Orderly options d) (h : Follows options n notes d) :
    ∃ r, d.shutdown.retired[n]? = some r ∧ notes <+: r.provider.notes ∧
      Bracketed options r.provider.notes := by
  cases h with
  | @bound b binding place grown =>
    obtain ⟨hs, hp⟩ := bracketed_parting ho binding
    refine ⟨.of ((d.parting b).1.ran .stop).ended .binding, ?_, grown.trans hp, hs⟩
    rw [shutdown_of_bound ho.idle binding, ← place]
    exact List.getElem?_concat_length
  | @parted r place grown session =>
    exact ⟨r, getElem?_of_isPrefix (retired_shutdown ho.idle) place, grown, session⟩

theorem follows_outcome {answer : Answer} (ho : Orderly options d) (h : Follows options n notes d)
    (ht : Outcome d answer e) : Follows options n notes e := by
  obtain ⟨r, hr, hg, hs⟩ := parted_of_shutdown ho h
  cases ht with
  | released => exact .parted hr hg hs
  | rebound attempt => exact .parted (getElem?_of_isPrefix (retired_attempt attempt) hr) hg hs
  | aside failure binding project same retired =>
    cases h with
    | bound hb place grown => exact .bound (binding.trans hb) (retired ▸ place) grown
    | parted place grown session => exact .parted (retired ▸ place) grown session
  | @served _ _ b c failure hb served =>
    cases h with
    | @bound a binding place grown =>
      obtain rfl : a = b := by simpa [binding] using hb
      obtain ⟨more, hn, -⟩ := served.notes
      exact .bound served.binding (served.retired ▸ place)
        (grown.trans (hn ▸ List.prefix_append _ _))
    | parted place grown session => exact .parted (served.retired ▸ place) grown session

theorem follows_afterCalls {calls : List (Operation π)}
    (h : Follows options n notes (afterCalls options calls)) (more : List (Operation π)) :
    Follows options n notes (afterCalls options (calls ++ more)) := by
  induction more using List.reverseRecOn with
  | nil => rwa [List.append_nil]
  | append_singleton more op ih =>
    have ho := orderly_afterCalls options (calls ++ more)
    rw [← List.append_assoc, afterCalls_concat]
    exact follows_outcome ho ih (outcome_perform ho.idle op)

theorem bound_of_outcome (h : Outcome d (.bound true) e) : ∃ b, e.binding = some b := by
  cases h with
  | aside failure => exact absurd rfl failure
  | served failure => exact absurd rfl failure
  | rebound attempt =>
    cases attempt with
    | done load startup started idle handles binding => exact ⟨_, binding⟩

/-- While a provider is bound, the dispatcher knows whether a project is open on it. Every provider
that was bound by one of the calls is let go of as the next one, with a whole session on record
that begins with the record it had when it was bound. -/
theorem sessions_bracketed (options : Options) (calls : List (Operation π)) :
    (∀ b, (afterCalls options calls).binding = some b →
      (afterCalls options calls).project.isSome = openOn b.worker.provider.notes) ∧
    ∀ before op after, calls = before ++ op :: after →
      ((afterCalls options before).perform op.recorded).1 = .bound true →
        ∃ b r, (afterCalls options (before ++ [op])).binding = some b ∧
          (afterCalls options calls).shutdown.retired[(afterCalls options
            (before ++ [op])).retired.length]? = some r ∧
          b.worker.provider.notes <+: r.provider.notes ∧
          Bracketed options r.provider.notes := by
  have ho := orderly_afterCalls options calls
  refine ⟨fun b hb => (ho.inUse b hb).2.1, ?_⟩
  rintro before op after rfl ha
  have ht := outcome_perform (orderly_afterCalls options before).idle op
  rw [ha, ← afterCalls_concat] at ht
  obtain ⟨b, hb⟩ := bound_of_outcome ht
  have hf := follows_afterCalls (.bound hb rfl List.prefix_rfl) after
  rw [List.append_assoc, List.singleton_append] at hf
  obtain ⟨r, hr, hg, hs⟩ := parted_of_shutdown ho hf
  exact ⟨b, r, hb, hr, hg, hs⟩

end Dispatcher

/-- The provider refused to be started, and what it told then has the caller query it directly. -/
def Offered (options : Options) (notes : List Note) : Prop :=
  options.concurrentQueries = true ∧ ∃ window info,
    notes = [.heard .worker (.start window options.caller) (.ok info)] ∧
      info.code.isOk = false ∧ info.threadsafeQuery = true

/-- A provider that was started did not refuse. -/
theorem Bracketed.not_offered (h : Bracketed options notes) : ¬Offered options notes := by
  rintro ⟨-, w, i, he, -⟩
  cases h with
  | intro code ordinary closing => simp [prelude] at he

/-- The output of a start that came to nothing holds a handle if it was offered all the same. -/
theorem Startup.concurrent_iff
    (h : Startup p options.concurrentQueries window options.caller out notes)
    (hf : out.started? = none) : out.concurrent = true ↔ Offered options notes := by
  cases h with
  | faulted start => simp [Output.concurrent, Offered]
  | @refused info q start code =>
    simp only [Output.concurrent, Bool.and_eq_true, Offered]
    constructor
    · rintro ⟨hc, ht⟩
      exact ⟨hc, window, info, rfl, code, ht⟩
    · rintro ⟨hc, w, i, he, -, ht⟩
      cases he
      exact ⟨hc, ht⟩
  | lost start code query => simp [Output.concurrent, Offered]
  | ready start code query => simp [Output.started?, code] at hf

namespace Dispatcher

/-- No handle is left to a provider that is no longer bound. Its worker dropped the last one, unless
the provider refused to be started and the caller was offered to query it: then the caller did. -/
theorem released_on_worker_iff (options : Options) (calls : List (Operation π))
    {r : Retired (Recorded π)} (hr : r ∈ (afterCalls options calls).shutdown.retired) :
    r.handles.held = [] ∧ (r.thread? = some .worker ↔ ¬Offered options r.provider.notes) ∧
      (r.thread? = some .caller ↔ Offered options r.provider.notes) := by
  have ho := orderly_shutdown (orderly_afterCalls options calls)
  cases ho.parted r hr with
  | stopped handles session =>
    simp [Retired.thread?, handles, Handles.gone, session.not_offered]
  | @abandoned _ _ out startup failure handles =>
    rw [← startup.concurrent_iff failure]
    cases hc : out.concurrent <;> simp [Retired.thread?, handles, hc, Handles.gone]

section Refused

open Rehearsal SectionSystem

theorem released_on_worker_iff_willing :
    ∃ r ∈ (afterCalls {} [.bind "willing" willing .none]).shutdown.retired,
      r.handles.held = [] ∧ (r.thread? = some .worker ↔ ¬Offered {} r.provider.notes) ∧
        (r.thread? = some .caller ↔ Offered {} r.provider.notes) :=
  ⟨_, List.mem_singleton_self _,
    released_on_worker_iff {} [.bind "willing" willing .none] (List.mem_singleton_self _)⟩

def refusing : Loader Scripted where
  load _ := .ok (.ok {
    info := { threadsafeQuery := true }
    script := ⟨[(.start, [{ ending := .ok (-1) }])]⟩ })

theorem refusing_not_released_on_worker :
    ¬∀ r ∈ (afterCalls {} [.bind "refusing" refusing .none]).shutdown.retired,
      r.thread? = some .worker := by
  intro h
  cases h _ (List.mem_singleton_self _)

end Refused

end Dispatcher

end SccDispatch
