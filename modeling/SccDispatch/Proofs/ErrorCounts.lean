import SccDispatch.Proofs.JournalBalance
import SccDispatch.Proofs.SequentialRuns

namespace SccDispatch

/-- The provider has answered, with a negative code. -/
def Ran.negative (r : Ran) : Bool := !r.out.isFault && r.out.resultCode.isError

/-- A command owes an error if it was the worker that ran it. -/
theorem count_providerError (r : Ran) :
    r.entries.count .providerError = if r.on == .worker && r.negative then 1 else 0 := by
  obtain ⟨alone, on, command, out⟩ := r
  cases on with
  | caller => cases out <;> rfl
  | worker =>
    cases out with
    | faulted f => rfl
    | _ =>
      simp only [entries_worker, Output.remarks, Ran.negative, Output.isFault, Output.fault?]
      split
      next h => simp [h]
      next h => simp [h]

namespace Journal

/-- How many commands were counted as errors. -/
def errors (j : Journal) : UInt64 := j.metrics.providerErrors

variable (j : Journal)

theorem errors_post (n : Notice) : (j.post n).errors = j.errors := by
  cases n <;> rfl

theorem errors_enter (e : Entry) :
    (j.enter e).errors = j.errors + .ofNat ([e].count .providerError) := by
  cases e <;>
    simp [errors, enter, write, count, Metrics.recordDispatched, Metrics.recordRejected,
      Metrics.countCompleted, Metrics.addTime, Metrics.recordFault, Metrics.recordProviderError,
      Metrics.recordDirectQuery]

theorem errors_enterAll (es : List Entry) :
    (j.enterAll es).errors = j.errors + .ofNat (es.count .providerError) := by
  induction es generalizing j with
  | nil => exact (UInt64.add_zero _).symm
  | cons e es ih =>
    rw [← List.singleton_append, List.count_append, UInt64.ofNat_add, ← UInt64.add_assoc,
      ← errors_enter]
    exact ih (j.enter e)

end Journal

namespace ThreadSystem

variable {π : Type} {x y z : ThreadSystem π}

def errors (x : ThreadSystem π) : UInt64 := x.dispatcher.journal.errors

/-- Between two states the count has grown by one for each command that was run and answered with a
negative code. -/
def CountsErrors (x y : ThreadSystem π) : Prop :=
  ∃ more, y.past = x.past ++ more ∧ y.errors = x.errors + .ofNat (more.countP Ran.negative)

/-- More was written and more was run; what was written tells how many errors were counted. -/
structure Grown (x y : ThreadSystem π) (es : List Journal.Entry) (more : List Ran) : Prop where
  written : y.written = x.written ++ es
  past : y.past = x.past ++ more
  errors : y.errors = x.errors + .ofNat (es.count .providerError)

theorem Grown.still (hw : y.written = x.written) (hp : y.past = x.past)
    (he : y.errors = x.errors) : x.Grown y [] [] :=
  ⟨by rw [hw, List.append_nil], by rw [hp, List.append_nil], he.trans (UInt64.add_zero _).symm⟩

theorem Grown.trans {es fs : List Journal.Entry} {more others : List Ran}
    (h : x.Grown y es more) (k : y.Grown z fs others) : x.Grown z (es ++ fs) (more ++ others) := by
  refine ⟨?_, ?_, ?_⟩
  · rw [k.written, h.written, List.append_assoc]
  · rw [k.past, h.past, List.append_assoc]
  · rw [k.errors, h.errors, List.count_append, UInt64.ofNat_add, UInt64.add_assoc]

theorem errors_accept (d : Dispatcher π) (op : Operation π) :
    (d.accept op).journal.errors = d.journal.errors := by
  unfold Dispatcher.accept
  split <;> rfl

theorem errors_displaced (d : Dispatcher π) (j : Journal) : (d.displaced j).errors = j.errors := by
  unfold Dispatcher.displaced
  split <;> rfl

variable [Provider π] {A : Operation π → Prop}

/-- Moves of the threads let the account of errors grow rightly. -/
theorem Move.grown {i : Nat} {alone : Bool} {l : Local π alone} {put : Local π alone → Inside π}
    (m : x.Move i l put y) : ∃ es more, x.Grown y es more := by
  cases m with
  | @write _ _ _ e => exact ⟨[e], [], rfl, rfl, Journal.errors_enter _ e⟩
  | @visit _ command _ _ out =>
    exact ⟨[], [⟨false, .caller, command, out⟩], rfl, rfl, (UInt64.add_zero _).symm⟩
  | notice => exact ⟨[], [], .still rfl rfl (Journal.errors_post ..)⟩
  | seat => exact ⟨[], [], .still rfl rfl (errors_displaced ..)⟩
  | submit | collect => cases alone <;> exact ⟨[], [], .still rfl rfl rfl⟩
  | refused | ask | select | lock | unlock | take | employ | dismiss | retire =>
    exact ⟨[], [], .still rfl rfl rfl⟩

theorem Step.grown (s : x.Step A y) : ∃ es more, x.Grown y es more := by
  cases s with
  | @work alone p q es ran post works =>
    refine ⟨es, (ran.map fun r => ⟨alone, .worker, r.1, r.2⟩).toList, ?_⟩
    cases alone <;> exact ⟨rfl, rfl, Journal.errors_enterAll _ es⟩
  | call => exact ⟨[], [], .still rfl rfl (errors_accept ..)⟩
  | enter | leave => exact ⟨[], [], .still rfl rfl rfl⟩
  | move here moves => exact moves.grown

theorem Reaches.grown (r : x.Reaches A y) : ∃ es more, x.Grown y es more := by
  induction r with
  | refl => exact ⟨[], [], .still rfl rfl rfl⟩
  | tail r s ih =>
    obtain ⟨es, more, h⟩ := ih
    obtain ⟨fs, others, k⟩ := s.grown
    exact ⟨_, _, h.trans k⟩

/-- A negative code came from a worker or from a query on a calling thread. -/
theorem countP_negative (past : List Ran) :
    past.countP Ran.negative =
      past.countP (fun r => r.on == .worker && r.negative) +
        past.countP (fun r => r.on == .caller && r.negative) := by
  induction past with
  | nil => rfl
  | cons r past ih =>
    simp only [List.countP_cons, ih]
    cases r.on <;> cases r.negative <;> simp <;> omega

theorem ofNat_eq_zero_iff (n : Nat) : UInt64.ofNat n = 0 ↔ 2 ^ 64 ∣ n := by
  rw [← UInt64.toNat_inj, UInt64.toNat_ofNat']
  exact Nat.dvd_iff_mod_eq_zero.symm

/-- While all is quiet the count of errors has grown by one for each command that the worker has run
and the provider has answered with a negative code. Commands that threads have run themselves are
missed. The counter has 64 bits, so it is right exactly if the number of errors among those leaves
it as it is. -/
theorem errors_of_worker {options : Options}
    (h : ({ dispatcher := { options } } : ThreadSystem π).Reaches A x) (quiet : x.inside.Quiet)
    (r : x.Reaches A y) (quiet' : y.inside.Quiet) :
    ∃ more, y.past = x.past ++ more ∧
      y.errors =
        x.errors + .ofNat (more.countP fun r => r.on == .worker && r.negative) ∧
      (x.CountsErrors y ↔ 2 ^ 64 ∣ more.countP fun r => r.on == .caller && r.negative) := by
  obtain ⟨es, more, grown⟩ := Reaches.grown r
  have tracked := (JobsTracked.start options).reaches h
  have balanced := (BalancedDebts.start options).reaches (JobsTracked.start options) h
  have before := written_of_quiet tracked balanced quiet (e := .providerError) trivial
  have after := written_of_quiet (tracked.reaches r) (balanced.reaches tracked r) quiet'
    (e := .providerError) trivial
  rw [grown.written, grown.past, List.count_append, List.flatMap_append, List.count_append,
    before] at after
  have counted : es.count .providerError =
      more.countP fun r => r.on == .worker && r.negative :=
    (Nat.add_left_cancel after).trans (count_entries more count_providerError)
  have errors := grown.errors
  rw [counted] at errors
  refine ⟨more, grown.past, errors, ?_⟩
  have same : x.CountsErrors y ↔ y.errors = x.errors + .ofNat (more.countP Ran.negative) := by
    constructor
    · rintro ⟨others, hp, he⟩
      rwa [List.append_cancel_left (hp.symm.trans grown.past)] at he
    · exact fun he => ⟨more, grown.past, he⟩
  rw [same, errors, countP_negative, UInt64.ofNat_add, ← UInt64.add_assoc, ← ofNat_eq_zero_iff]
  exact UInt64.left_eq_add

section Direct

open Rehearsal Dispatcher

/-- Brings in a provider that may be queried on any thread, and that answers with a negative
code. -/
def unready : Loader Scripted where
  load _ := .ok (.ok {
    threadsafe := true
    script := ⟨[(.queryInfo, [{ ending := .ok (-5) }])]⟩ })

def boundDispatcher : Dispatcher Scripted :=
  (({} : Dispatcher Scripted).perform (.bind "unready" unready .none)).2

/-- A thread queries that provider, and nothing is counted as an error. -/
theorem reaches_unready (past : List Ran) (written : List Journal.Entry) :
    ∃ (y : ThreadSystem Scripted) (r : Ran),
      ({ dispatcher := boundDispatcher, past, written } : ThreadSystem Scripted).Reaches
          (fun _ => True) y ∧
        y.inside.Quiet ∧ y.past = past ++ [r] ∧ r.on = .caller ∧ r.negative = true ∧
        y.errors = boundDispatcher.journal.errors := by
  have here : ∀ l : Local Scripted false,
      Inside.At 0 l (.shared [(0, l)]) fun m => .shared [(0, m)] :=
    fun l => @Inside.At.shared _ 0 [] [] l
  have h := Relation.ReflTransGen.refl (r := Step fun _ : Operation Scripted => True)
    (a := ({ dispatcher := boundDispatcher, past, written } : ThreadSystem Scripted))
  have h := h.tail
    (@Step.call _ _ _ _ 0 (.request (.fileStatus "a")) trivial rfl List.not_mem_nil)
  have h := h.tail (.enter (i := 0) rfl (.shared List.not_mem_nil))
  have h := h.tail (.move (here _) .ask)
  have h := h.tail (.move (here _) .write)
  have h := h.tail (.move (here _) (.visit rfl rfl))
  have h := h.tail (.move (here _) .notice)
  have h := h.tail (.leave rfl (@Inside.Leaves.shared _ 0 _ [] []))
  refine ⟨_, ⟨false, .caller, .queryStatus ["a"], .status ⟨⟨-5⟩, [0]⟩⟩, h, .free, ?_, rfl,
    by decide +kernel, rfl⟩
  exact congrArg (· ++ [_]) (List.append_nil past)

/-- A thread binds that provider and then queries it. -/
theorem query_unready :
    ∃ (x y : ThreadSystem Scripted) (r : Ran),
      ({ dispatcher := {} } : ThreadSystem Scripted).Reaches (fun _ => True) x ∧ x.inside.Quiet ∧
        x.Reaches (fun _ => True) y ∧ y.inside.Quiet ∧ y.past = x.past ++ [r] ∧
        r.on = .caller ∧ r.negative = true ∧ y.errors = x.errors := by
  have begun : ({ dispatcher := {} } : ThreadSystem Scripted).Resting :=
    ⟨rfl, rfl, rfl, rfl, idle_of_unbound rfl⟩
  obtain ⟨x, hx, rested, hd, hdue⟩ := @reaches_perform _ _ _ (fun _ => True) 0 begun rfl
    (.bind "unready" unready .none) trivial
  obtain ⟨d, duty, hand, locked, inside, due, past, written⟩ := x
  obtain ⟨rfl, rfl, rfl, rfl, -⟩ := rested
  obtain rfl : d = boundDispatcher := hd
  obtain rfl : due = fun _ => [] := hdue
  obtain ⟨y, r, hy, quiet, hp, on, negative, he⟩ := reaches_unready past written
  exact ⟨_, y, r, hx, .free, hy, quiet, hp, on, negative, he⟩

theorem errors_of_worker_unready :
    ∃ (x y : ThreadSystem Scripted) (more : List Ran),
      ({ dispatcher := {} } : ThreadSystem Scripted).Reaches (fun _ => True) x ∧ x.inside.Quiet ∧
        x.Reaches (fun _ => True) y ∧ y.inside.Quiet ∧ y.past = x.past ++ more ∧
        y.errors = x.errors + .ofNat (more.countP fun r => r.on == .worker && r.negative) ∧
        (x.CountsErrors y ↔ 2 ^ 64 ∣ more.countP fun r => r.on == .caller && r.negative) := by
  obtain ⟨x, y, -, hx, quiet, hy, quiet', -⟩ := query_unready
  obtain ⟨more, counted⟩ := errors_of_worker hx quiet hy quiet'
  exact ⟨x, y, more, hx, quiet, hy, quiet', counted⟩

/-- An error that is answered to a thread itself is not counted. -/
theorem query_not_counted :
    ∃ x y : ThreadSystem Scripted,
      ({ dispatcher := {} } : ThreadSystem Scripted).Reaches (fun _ => True) x ∧ x.inside.Quiet ∧
        x.Reaches (fun _ => True) y ∧ y.inside.Quiet ∧ ¬x.CountsErrors y := by
  obtain ⟨x, y, r, hx, quiet, hy, quiet', hp, -, negative, he⟩ := query_unready
  refine ⟨x, y, hx, quiet, hy, quiet', ?_⟩
  rintro ⟨more, hp', counted⟩
  obtain rfl : [r] = more := List.append_cancel_left (hp.symm.trans hp')
  rw [he, List.countP_singleton, negative, if_pos rfl] at counted
  exact absurd (UInt64.left_eq_add.mp counted) (by decide)

end Direct

end ThreadSystem

end SccDispatch
