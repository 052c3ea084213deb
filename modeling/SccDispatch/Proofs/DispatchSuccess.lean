import SccDispatch.Proofs.JournalBalance
import SccDispatch.Proofs.RoutineResources
import SccDispatch.Proofs.WorkerSpawn

namespace SccDispatch

theorem rejected_post (j : Journal) (n : Journal.Notice) :
    (j.post n).metrics.rejected = j.metrics.rejected := by
  cases n <;> rfl

theorem rejected_enter (j : Journal) {e : Journal.Entry} (he : e ≠ .rejected) :
    (j.enter e).metrics.rejected = j.metrics.rejected := by
  cases e with
  | rejected => exact absurd rfl he
  | _ => rfl

/-- Only the entry of a refusal counts one. -/
theorem rejected_enterAll (j : Journal) {es : List Journal.Entry} (he : .rejected ∉ es) :
    (j.enterAll es).metrics.rejected = j.metrics.rejected := by
  induction es generalizing j with
  | nil => rfl
  | cons e es ih =>
    obtain ⟨hne, hes⟩ := List.ne_and_not_mem_of_not_mem_cons he
    exact (ih (j.enter e) hes).trans (rejected_enter j hne.symm)

theorem Output.rejected_notMem_entries (out : Output) (name : String) (elapsed : Duration) :
    .rejected ∉ out.entries name elapsed := by
  cases out with
  | faulted f => simp [entries, remarks, Fault.entries]
  | _ =>
    simp only [entries, remarks]
    split <;> simp

theorem Output.rejected_notMem_asides (out : Output) : .rejected ∉ out.asides := by
  cases out <;> simp [asides, Fault.entries]

/-- A worker writes no refusals. -/
theorem Post.Works.rejected {π : Type} [Provider π] {p q : Post π} {es : List Journal.Entry}
    {ran : Option (Command × Output)} (h : p.Works q es ran) (hp : .rejected ∉ p.duty.todo) :
    .rejected ∉ q.duty.todo ∧ .rejected ∉ es := by
  cases h with
  | @run job out _ taken ran =>
    exact ⟨out.rejected_notMem_entries job.command.name _, List.not_mem_nil⟩
  | write owes =>
    rw [owes] at hp
    obtain ⟨hne, hes⟩ := List.ne_and_not_mem_of_not_mem_cons hp
    exact ⟨hes, by simpa using hne⟩
  | take | answer => exact ⟨List.not_mem_nil, List.not_mem_nil⟩
  | leave => exact ⟨List.not_mem_nil, by simp⟩

namespace ThreadSystem

variable {π : Type}

/-- No command was counted as refused, and none will be by what is owed. -/
structure Unrefused (x : ThreadSystem π) : Prop where
  threads : x.inside.Every fun _ _ l => .rejected ∉ l.todo
  workers : ∀ {alone p}, x.post alone = some p → .rejected ∉ p.duty.todo
  count : x.dispatcher.journal.metrics.rejected = 0

namespace Unrefused

variable {x y : ThreadSystem π} {i : Nat} {alone : Bool} {p q : Post π} {l m : Local π alone}
  {put : Local π alone → Inside π}

theorem start (options : Options) : ({ dispatcher := { options } } : ThreadSystem π).Unrefused where
  threads v hv := by cases hv
  workers {alone p} hp := by cases alone <;> cases hp
  count := rfl

theorem moved (h : x.Unrefused) (here : Inside.At i l x.inside put) (hy : y.inside = put m)
    (hm : .rejected ∉ m.todo) (hp : ∀ b q, y.post b = some q → .rejected ∉ q.duty.todo)
    (hc : y.dispatcher.journal.metrics.rejected = x.dispatcher.journal.metrics.rejected) :
    y.Unrefused where
  threads := hy ▸ here.every_put h.threads hm
  workers hq := hp _ _ hq
  count := hc.trans h.count

/-- The workers stay as they are. -/
theorem still (h : x.Unrefused) (here : Inside.At i l x.inside put) (hy : y.inside = put m)
    (hm : .rejected ∉ m.todo) (hp : ∀ b, y.post b = x.post b)
    (hc : y.dispatcher.journal.metrics.rejected = x.dispatcher.journal.metrics.rejected) :
    y.Unrefused :=
  h.moved here hy hm (fun b _ hq => h.workers (hp b ▸ hq)) hc

theorem workers_withPost (h : x.Unrefused) (hp : x.post alone = some p)
    (hq : .rejected ∉ q.duty.todo) (b : Bool) (r : Post π)
    (hr : (x.withPost alone q).post b = some r) : .rejected ∉ r.duty.todo := by
  by_cases hb : b = alone
  · subst hb
    cases (post_withPost hp q).symm.trans hr
    exact hq
  · rw [Bool.eq_not_of_ne hb, JobsTracked.post_withPost_not] at hr
    exact h.workers hr

/-- The worker to which the thread dispatches is at what it was at. -/
theorem turn (h : x.Unrefused) (here : Inside.At i l x.inside put) (hp : x.post alone = some p)
    (hd : q.duty = p.duty) (hm : .rejected ∉ m.todo) :
    ((x.withPost alone q).withInside (put m)).Unrefused := by
  refine h.moved here rfl hm ?_ ?_
  · exact h.workers_withPost hp (hd ▸ h.workers hp)
  · cases alone <;> rfl

/-- The thread that has the lock alone finds its workers with nothing to write. -/
theorem of_alone (h : x.Unrefused) {l m : Local π true} {put : Local π true → Inside π}
    (here : Inside.At i l x.inside put) (hy : y.inside = put m) (hm : .rejected ∉ m.todo)
    (hp : ∀ b q, y.post b = some q → q.duty.todo = [] ∨ ∃ c p, x.post c = some p ∧ q.duty = p.duty)
    (hc : y.dispatcher.journal.metrics.rejected = x.dispatcher.journal.metrics.rejected) :
    y.Unrefused := by
  refine h.moved here hy hm (fun b q hq => ?_) hc
  rcases hp b q hq with hn | ⟨c, p, hx, hd⟩
  · rw [hn]
    exact List.not_mem_nil
  · rw [hd]
    exact h.workers hx

variable [Provider π] {A : Operation π → Prop}

/-- Moves write no refusals: a command is dispatched to a worker whose queue is open. -/
theorem move (h : x.Unrefused) (ht : x.JobsTracked) (hf : x.ResourcesFit)
    (here : Inside.At i l x.inside put) (m : x.Move i l put y) : y.Unrefused := by
  cases m with
  | write =>
    obtain ⟨hne, hes⟩ := List.ne_and_not_mem_of_not_mem_cons (here.every h.threads)
    exact h.still here rfl hes (fun _ => rfl) (rejected_enter _ hne.symm)
  | notice => exact h.still here rfl List.not_mem_nil (fun _ => rfl) (rejected_post ..)
  | submit post accepted => exact h.turn here post rfl (by simp)
  | refused post refused =>
    obtain ⟨out, ho⟩ := hf.returns ht (.refused here post refused)
    cases ho
  | collect post settled => exact h.turn here post rfl List.not_mem_nil
  | ask => exact h.still here rfl (by simp) (fun _ => rfl) rfl
  | @visit _ command next b out provider bound ran =>
    have hp : x.post false = some { worker := b.worker, duty := x.duty } := by
      rw [post, bound]
      rfl
    have ht := h.turn (q := ⟨{ b.worker with provider }, x.duty⟩)
      (m := { todo := out.asides, rest := .go (next out) }) here hp rfl out.rejected_notMem_asides
    exact ⟨ht.threads, ht.workers, ht.count⟩
  | select | lock | unlock => exact h.still here rfl List.not_mem_nil (fun _ => rfl) rfl
  | take bound empty =>
    refine h.of_alone here rfl List.not_mem_nil ?_ rfl
    rintro (_ | _) q ⟨⟩
    have hp := congrArg
      (Option.map fun b => ({ worker := b.worker, duty := x.duty } : Post π)) bound
    exact .inr ⟨false, _, hp, rfl⟩
  | employ empty =>
    refine h.of_alone here rfl List.not_mem_nil ?_ rfl
    rintro (_ | _) q hq
    · exact .inr ⟨false, q, hq, rfl⟩
    · cases hq
      exact .inl rfl
  | seat has =>
    refine h.of_alone here rfl List.not_mem_nil ?_ ?_
    · rintro (_ | _) q ⟨⟩
      exact .inr ⟨true, _, has, rfl⟩
    · show (Dispatcher.displaced _ _).metrics.rejected = _
      unfold Dispatcher.displaced
      split <;> rfl
  | dismiss has =>
    refine h.of_alone here rfl List.not_mem_nil ?_ rfl
    rintro (_ | _) q hq
    · exact .inr ⟨false, q, hq, rfl⟩
    · cases hq
      exact .inr ⟨true, _, has, rfl⟩
  | retire has gone =>
    refine h.of_alone here rfl List.not_mem_nil ?_ rfl
    rintro (_ | _) q hq
    · exact .inr ⟨false, q, hq, rfl⟩
    · cases hq

theorem step (h : x.Unrefused) (ht : x.JobsTracked) (hf : x.ResourcesFit) (s : x.Step A y) :
    y.Unrefused := by
  cases s with
  | call may finished outside =>
    refine ⟨h.threads, fun hp => h.workers ((post_of_same ?_ ?_ ?_ _).symm.trans hp), ?_⟩
    · exact binding_accept ..
    · rfl
    · rfl
    · refine Eq.trans ?_ h.count
      show (x.dispatcher.accept _).journal.metrics.rejected = _
      unfold Dispatcher.accept
      split <;> rfl
  | enter due admitted => exact ⟨admitted.every h.threads List.not_mem_nil, h.workers, h.count⟩
  | leave empty left => exact ⟨left.every h.threads, h.workers, h.count⟩
  | @work alone p q es ran post works =>
    obtain ⟨hq, hes⟩ := works.rejected (h.workers post)
    refine ⟨?_, fun hr => h.workers_withPost post hq _ _ hr, ?_⟩
    · cases alone <;> exact h.threads
    · refine Eq.trans ?_ ((rejected_enterAll x.dispatcher.journal hes).trans h.count)
      cases alone <;> rfl
  | move here moves => exact h.move ht hf here moves

end Unrefused

/-- Each command that a thread dispatches is accepted, and its output comes back. -/
structure DispatchesSucceed (x : ThreadSystem π) : Prop where
  accepted : ∀ {i alone put command} {next : Except DispatchError Output → Routine π alone},
    Inside.At i { rest := .go (.ask command next) } x.inside put →
      ∃ p ticket worker, x.post alone = some p ∧ p.duty ≠ .gone ∧
        p.worker.submit command = .ok (ticket, worker)
  awaited : ∀ {i alone todo put job} {next : Except DispatchError Output → Routine π alone},
    Inside.At i { todo, rest := .await job next } x.inside put →
      ∃ p, x.post alone = some p ∧ p.duty ≠ .gone ∧ job.ticket ∈ p.flight
  returned : ∀ r, x.Returns r → ∃ out, r = .ok out
  rejected : x.dispatcher.journal.metrics.rejected = 0

/-- The worker of a thread that has one that takes its commands is there. -/
theorem ResourcesFit.staffed {x : ThreadSystem π} (h : x.ResourcesFit) (ht : x.JobsTracked)
    {i : Nat} {alone : Bool} (hs : (x.resources i).Staffed alone) :
    ∃ p, x.post alone = some p ∧ p.duty ≠ .gone ∧ p.worker.queue.closed = false := by
  obtain ⟨p, hp, hc⟩ := h.post hs
  refine ⟨p, hp, fun hg => ?_, hc⟩
  cases hc.symm.trans ((ht.sound hp).gone hg).2

/-- Where the threads have what they reach for, a command is taken and its output awaited. -/
theorem ResourcesFit.dispatchesSucceed {x : ThreadSystem π} (h : x.ResourcesFit)
    (ht : x.JobsTracked) (hu : x.Unrefused) : x.DispatchesSucceed where
  accepted here := by
    obtain ⟨hs, -⟩ := here.every h.fits
    obtain ⟨p, hp, hd, hc⟩ := h.staffed ht hs
    exact ⟨p, _, _, hp, hd, Worker.submit_of_open hc _⟩
  awaited here := by
    obtain ⟨hs, -⟩ := here.every h.fits
    obtain ⟨p, hp, hd, -⟩ := h.staffed ht hs
    exact ⟨p, hp, hd, ht.mem_flight here (if_pos rfl) hp⟩
  returned _ hr := h.returns ht hr
  rejected := hu.count

variable [Provider π] {x y : ThreadSystem π} {A : Operation π → Prop}

/-- No run has commands refused. -/
theorem Unrefused.reaches (h : x.Unrefused) (ht : x.JobsTracked) (hf : x.ResourcesFit)
    (r : x.Reaches A y) : y.Unrefused := by
  induction r with
  | refl => exact h
  | tail r s ih => exact ih.step (ht.reaches r) (hf.reaches ht r) s

/-- However the calls of any number of threads are interleaved, whatever provider is bound or fails
to be, every command is accepted and its output comes back; and a worker that is spawned is heard
from, with nothing but what its loader came to. -/
theorem dispatches_succeed {options : Options}
    (h : ({ dispatcher := { options } } : ThreadSystem π).Reaches A x) :
    x.DispatchesSucceed ∧ ∀ (loader : Loader π) (last : Option π) (spawn : WorkerSpawn π) r,
      ({} : WorkerSpawn π).Reaches (loader.report last) spawn → spawn.outcome = some r →
        r = WorkerSpawn.word (loader.report last) ∧
          (r = .error .workerExited → loader.load last = .ok (.error .workerExited)) := by
  have ht := JobsTracked.start (π := π) options
  have hf := ResourcesFit.start (π := π) options
  have hu := (Unrefused.start options).reaches ht hf h
  refine ⟨(hf.reaches ht h).dispatchesSucceed (ht.reaches h) hu,
    fun loader last spawn r hr ho => ?_⟩
  have hw := (WorkerSpawn.ReportsLoader.loading.reaches hr).outcome_eq ho
  refine ⟨hw, fun he => ?_⟩
  rw [he] at hw
  unfold Loader.report at hw
  rcases hl : loader.load last with cause | e | provider <;> rw [hl] at hw <;> cases hw
  rfl

section Bound

open Rehearsal

/-- A thread is about to start the provider that it has loaded. -/
theorem dispatches_succeed_starting :
    ∃ x : ThreadSystem Scripted,
      ({ dispatcher := { options := {} } } : ThreadSystem Scripted).Reaches (fun _ => True) x ∧
        x.inside.isAlone = true ∧ x.hand.isSome = true ∧ x.DispatchesSucceed := by
  have h := Relation.ReflTransGen.refl (r := Step fun _ : Operation Scripted => True)
    (a := ({ dispatcher := { options := {} } } : ThreadSystem Scripted))
  have h := h.tail
    (@Step.call _ _ _ _ 0 (.bind "only" SectionSystem.willing .none) trivial rfl List.not_mem_nil)
  have h := h.tail (.enter (i := 0) rfl .alone)
  have h := h.tail (.leave (i := 0) rfl .alone)
  have h := h.tail (.enter (i := 0) rfl .alone)
  have h := h.tail (.move .alone .notice)
  have h := h.tail (.move .alone .notice)
  have h := h.tail (.move .alone (.employ rfl))
  have h := h.tail (.move .alone .notice)
  exact ⟨_, h, rfl, rfl, (dispatches_succeed h).1⟩

/-- A loader may itself say that the worker exited, and that is passed on. -/
theorem exit_reported :
    ∃ (loader : Loader Scripted) (spawn : WorkerSpawn Scripted),
      ({} : WorkerSpawn Scripted).Reaches (loader.report none) spawn ∧
        spawn.outcome = some (.error .workerExited) := by
  have h := Relation.ReflTransGen.single
    (@WorkerSpawn.Step.load Scripted (.error .workerExited) {} rfl)
  have h := h.tail (.decline rfl)
  have h := h.tail (.hear rfl rfl)
  exact ⟨{ load := fun _ => .ok (.error .workerExited) }, _, h, rfl⟩

end Bound

end ThreadSystem

end SccDispatch
