import SccDispatch.Proofs.StateAgreement
import SccDispatch.Proofs.ThreadSystem

namespace SccDispatch

/-- The answer when no provider is bound. -/
def Request.refusal : Request → Reply
  | fileStatus _ => .status .error
  | fileStatuses files => .statuses (files.map fun _ => .error)
  | r => .done r.files.isEmpty

theorem Request.refusal_eq (r : Request) : r.refusal = r.idle?.getD (r.reply none) := by
  cases r with
  | fileStatus file => rfl
  | fileStatuses files =>
    cases files with
    | nil => rfl
    | cons file files =>
      simp [refusal, idle?, Request.files, reply, statusesOf, List.replicate_succ]
  | diff file => rfl
  | properties file => rfl
  | _ files => cases files <;> rfl

namespace Operation

variable {π : Type}

def refusal : Operation π → Answer
  | bind .. | bindIndex .. | bindName .. => .bound false
  | shutdown => .released
  | selectProject _ => .chosen none
  | openProject _ => .opened false
  | closeProject => .closed false
  | request r => .replied r.refusal

def warnings (calls : List (Operation π)) : List LogLine :=
  (calls.filterMap unknown?).map fun e => { level := .warn, text := e.text }

theorem warnings_cons (op : Operation π) (calls : List (Operation π)) :
    warnings (op :: calls) = warnings [op] ++ warnings calls := by
  rw [← List.singleton_append]
  simp only [warnings, List.filterMap_append, List.map_append]

end Operation

namespace Dispatcher

variable {π : Type}

def logged (d : Dispatcher π) (lines : List LogLine) : Dispatcher π :=
  { d with journal := { d.journal with log := d.journal.log ++ lines } }

variable (d : Dispatcher π)

theorem logged_nil : d.logged [] = d := by simp [logged]

theorem logged_append (a b : List LogLine) : d.logged (a ++ b) = (d.logged a).logged b := by
  have joined : d.journal.log ++ (a ++ b) = d.journal.log ++ a ++ b :=
    Array.ext' (by simp only [Array.toList_appendList, List.append_assoc])
  simp only [logged, joined]

/-- A call that names a provider that is not known leaves a warning before anything else. -/
theorem accept_eq (op : Operation π) : d.accept op = d.logged (Operation.warnings [op]) := by
  unfold accept Operation.warnings
  cases h : op.unknown? with
  | none => simp [h, logged_nil]
  | some e => simp [h, logged, write, Journal.write]

variable [Provider π] {d}

/-- Without a provider a request is refused and nothing changes. -/
theorem request_of_none (h : d.binding = none) (r : Request) : d.request r = (r.refusal, d) := by
  rw [Request.refusal_eq]
  cases hr : r.idle? with
  | some reply => exact request_of_noFiles (idle_of_unbound h) hr
  | none => exact request_of_unbound hr h

/-- One call to a dispatcher with no provider bound. -/
theorem perform_of_unbound (h : d.binding = none) {op : Operation π} (hn : op.provider? = none) :
    d.perform op = (op.refusal, d.logged (Operation.warnings [op])) := by
  have hb : d.isBound = false := by simp [isBound, h]
  rw [← accept_eq]
  cases op with
  | bind name loader window => cases hn
  | bindIndex registry load index window =>
    have hg : registry.get? index = none := Option.map_eq_none_iff.mp hn
    simp only [perform, rebindIndex, accept, Operation.unknown?, hg]
    rfl
  | bindName registry load name window =>
    have hg : registry.find? name = none := Option.map_eq_none_iff.mp hn
    simp only [perform, rebindName, accept, Operation.unknown?, hg]
    rfl
  | shutdown =>
    rw [perform, shutdown_of_unbound d h]
    rfl
  | selectProject initial =>
    rw [perform, selectProject_of_unbound d hb]
    rfl
  | openProject p =>
    rw [perform, openProject_of_unbound d hb]
    rfl
  | closeProject =>
    rw [perform, closeProject_of_unbound d hb]
    rfl
  | request r =>
    rw [perform, request_of_none h r]
    rfl

/-- The calls are refused one after another. -/
theorem performAll_of_unbound (h : d.binding = none) {calls : List (Operation π)}
    (hn : ∀ op ∈ calls, op.provider? = none) :
    d.performAll calls =
      (calls.map Operation.refusal, d.logged (Operation.warnings calls)) := by
  induction calls generalizing d with
  | nil => exact congrArg (Prod.mk []) d.logged_nil.symm
  | cons op rest ih =>
    have first := perform_of_unbound h (hn op List.mem_cons_self)
    have others := ih (d := d.logged (Operation.warnings [op])) h
      fun o ho => hn o (List.mem_cons_of_mem op ho)
    rw [Operation.warnings_cons op rest, logged_append, List.map_cons]
    simp only [performAll, first, others]

/-- A provider is let go of for good, and one that could not be bound is not kept. While none is
bound, every call that names no known provider is refused in its own way. Nothing but the log is
touched, and none of the providers that were ever let go of is called. -/
theorem inert_while_unbound (d : Dispatcher π) :
    (d.binding = none → ∀ calls : List (Operation π), (∀ op ∈ calls, op.provider? = none) →
      d.performAll calls =
        (calls.map Operation.refusal, d.logged (Operation.warnings calls))) ∧
      (d.shutdown.binding = none ∧ d.shutdown.shutdown = d.shutdown) ∧
        ∀ name loader window, (d.rebind name loader window).1 = false →
          (d.rebind name loader window).2.binding = none := by
  refine ⟨fun h calls hn => performAll_of_unbound h hn, ⟨d.binding_shutdown, ?_⟩, ?_⟩
  · exact d.shutdown.shutdown_of_unbound d.binding_shutdown
  · intro name loader window failed
    rw [rebind_fst, isBound] at failed
    exact Option.isNone_iff_eq_none.mp (Option.isSome_eq_false_iff.mp failed)

open Rehearsal

/-- The warning about a position without a provider is all that the calls leave. -/
theorem inert_while_unbound_stopped :
    let d := (({} : Dispatcher Scripted).performAll
      [.bind "stopped" { load := fun _ => .ok (.ok {}) } .none, .shutdown]).2
    let calls : List (Operation Scripted) :=
      [.openProject {}, .bindIndex {} (fun _ => { load := fun _ => .ok (.ok {}) }) 3 .none,
        .shutdown, .request (.fileStatuses ["a", "b"]), .request (.checkOut [] "")]
    d.binding = none ∧ (∀ op ∈ calls, op.provider? = none) ∧ d.retired.length = 1 ∧
      d.performAll calls =
        ([.opened false, .bound false, .released, .replied (.statuses [.error, .error]),
          .replied (.done true)], d.logged (Operation.warnings calls)) := by
  intro d calls
  have unbound : d.binding = none := rfl
  have unknown : ∀ op ∈ calls, op.provider? = none := by
    simp [calls, Operation.provider?, Registry.name?, Registry.get?]
  exact ⟨unbound, unknown, by decide +kernel, (inert_while_unbound d).1 unbound calls unknown⟩

end Dispatcher

end SccDispatch
