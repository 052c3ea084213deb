import SccDispatch.Proofs.SharedQueue

namespace SccDispatch.SharedQueue

variable {α : Type}

/-- The thread has changed the queue and has not woken anybody since. -/
def Place.Owes : Place α → Prop
  | leaves r => r.wakeup?.isSome
  | wakes _ => True
  | away | calls _ | looks _ | stays | parked => False

/-- The thread is to take an item. -/
def Place.Takes : Place α → Prop
  | calls .pop | looks .pop | stays | parked => True
  | calls _ | looks _ | away | leaves _ | wakes _ => False

theorem Reply.not_takes_after (r : Reply α) : ¬ r.after.Takes := by cases r <;> exact id

theorem Reply.owes_after {r : Reply α} (h : (Place.leaves r).Owes) : r.after.Owes := by
  cases r with
  | accepted | closed => trivial
  | refused | item | finished => cases h

theorem Place.takes_woken {p : Place α} : p.woken.Takes ↔ p.Takes := by cases p <;> exact Iff.rfl

theorem Place.woken_ne_parked (p : Place α) : p.woken ≠ .parked := by cases p <;> rintro ⟨⟩

theorem Reply.after_ne_parked (r : Reply α) : r.after ≠ .parked := by cases r <;> rintro ⟨⟩

/-- Who finds an open and empty queue changes it for others to know, or has to wait. -/
theorem Answered.owes {next : Queue α} {c : Call α} {r : Reply α} (h : Answered .empty c r next) :
    (Place.leaves r).Owes := by
  cases h with
  | accepted | closed => rfl
  | refused closed => cases closed
  | item first => cases first
  | finished drained closed => cases closed

/-- Only thread `c` takes items, and while it is parked there is nothing for it, or somebody is to
wake it. -/
structure WakeOwed (c : Nat) (x : SharedQueue α) : Prop where
  only : ∀ i, (x.place i).Takes → i = c
  wakeOwed : x.place c = .parked → x.queue = .empty ∨ ∃ i, (x.place i).Owes

theorem wakeOwed_start (c : Nat) : WakeOwed c ({} : SharedQueue α) where
  only _ h := h.elim
  wakeOwed h := by cases h

section Step

variable {may : Nat → Call α → Prop} {c i : Nat} {x y : SharedQueue α}

theorem takes_update {place : Nat → Place α} {p : Place α} (h : ∀ j, (place j).Takes → j = c)
    (hp : p.Takes → i = c) : ∀ j, (Function.update place i p j).Takes → j = c :=
  (Function.forall_update_iff place fun j p => p.Takes → j = c).mpr ⟨hp, fun j _ => h j⟩

theorem awake_update {place : Nat → Place α} {p : Place α} (h : ∀ j, place j ≠ .parked)
    (hp : p ≠ .parked) : ∀ j, Function.update place i p j ≠ .parked :=
  (Function.forall_update_iff place fun _ p => p ≠ Place.parked).mpr ⟨hp, fun j _ => h j⟩

/-- A thread that moves keeps the consumer attended if it does not forget whom to wake. -/
theorem WakeOwed.moved (h : WakeOwed c x) {p : Place α} (holder : Option Nat)
    (takes : p.Takes → i = c) (parks : p = .parked → x.queue = .empty)
    (owes : (x.place i).Owes → p.Owes) : WakeOwed c { x.move i p with holder } where
  only := takes_update h.only takes
  wakeOwed hc := by
    by_cases hi : c = i
    · subst hi
      exact .inl (parks (by simpa [move] using hc))
    · have hc : x.place c = .parked := by simpa [move, hi] using hc
      refine (h.wakeOwed hc).imp id ?_
      rintro ⟨j, hj⟩
      by_cases hji : j = i
      · subst hji
        exact ⟨j, by simpa [move] using owes hj⟩
      · exact ⟨j, by simpa [move, hji] using hj⟩

/-- A thread that has the lock changes the queue. -/
theorem WakeOwed.answer (h : WakeOwed c x) {call : Call α} {r : Reply α}
    (looks : x.place i = .looks call) (answered : Answered x.queue call r y.queue)
    (hy : y.place = Function.update x.place i (.leaves r)) : WakeOwed c y where
  only := hy ▸ takes_update h.only False.elim
  wakeOwed hc := by
    have hi : c ≠ i := by
      rintro rfl
      simp [hy] at hc
    have hc : x.place c = .parked := by simpa [hy, hi] using hc
    rcases h.wakeOwed hc with empty | ⟨j, hj⟩
    · rw [empty] at answered
      exact .inr ⟨i, by simpa [hy] using answered.owes⟩
    · have hji : j ≠ i := by
        rintro rfl
        rw [looks] at hj
        exact hj
      exact .inr ⟨j, by simpa [hy, hji] using hj⟩

/-- The thread that takes is not parked. -/
theorem wakeOwed_of_awake (only : ∀ j, (y.place j).Takes → j = c) (awake : y.place c ≠ .parked) :
    WakeOwed c y := ⟨only, fun hc => absurd hc awake⟩

/-- Each step does: who changes the queue has somebody to wake afterwards. -/
theorem WakeOwed.step (only : ∀ i, may i .pop → i = c) (exclusive : Exclusive x)
    (h : WakeOwed c x) (s : x.Step may y) : WakeOwed c y := by
  cases s with
  | @call i call allowed away =>
    refine h.moved x.holder (fun ht => ?_) (by rintro ⟨⟩) (by rw [away]; exact id)
    cases call with
    | pop => exact only i allowed
    | push | close => exact ht.elim
  | @enter i call calls free =>
    refine h.moved _ (fun ht => h.only i ?_) (by rintro ⟨⟩) (by rw [calls]; exact id)
    rw [calls]
    cases call <;> exact ht
  | answer looks answered => exact h.answer looks (answered_of_eq answered) rfl
  | @stay i call looks waits =>
    obtain ⟨rfl, -⟩ := answer?_eq_none_iff.mp waits
    refine h.moved x.holder (fun _ => h.only i ?_) (by rintro ⟨⟩)
      (by rw [looks]; exact id)
    rw [looks]
    trivial
  | @park i stays =>
    refine h.moved _ (fun _ => h.only i ?_) (fun _ => exclusive.empty i stays)
      (by rw [stays]; exact id)
    rw [stays]
    trivial
  | @leave i r leaves =>
    refine h.moved _ (fun ht => absurd ht r.not_takes_after)
      (fun hp => absurd hp r.after_ne_parked) ?_
    rw [leaves]
    exact Reply.owes_after
  | @wake i j wakes parked =>
    -- Nobody but the thread that takes can be parked, so it is the one that is woken.
    have hj : j = c := h.only j (by rw [parked]; trivial)
    subst hj
    refine wakeOwed_of_awake (takes_update (takes_update h.only ?_) fun _ => rfl) ?_
    · exact False.elim
    · simp [move]
  | @idle i wakes nobody =>
    refine wakeOwed_of_awake (takes_update h.only False.elim) ?_
    exact awake_update nobody (by rintro ⟨⟩) c
  | @wakeAll i wakes =>
    refine wakeOwed_of_awake (takes_update (fun j hj => h.only j (Place.takes_woken.mp hj))
      False.elim) ?_
    exact awake_update (fun j => (x.place j).woken_ne_parked) (by rintro ⟨⟩) c
  | @stray i parked =>
    have hi : i = c := h.only i (by rw [parked]; trivial)
    subst hi
    exact wakeOwed_of_awake (takes_update h.only fun _ => rfl) (by simp [move])

/-- So a parked consumer has nothing to take, or is about to be woken. -/
theorem wakeOwed_reaches (only : ∀ i, may i .pop → i = c) (h : Reaches may {} x) :
    WakeOwed c x := by
  induction h with
  | refl => exact wakeOwed_start c
  | tail r s ih => exact ih.step only (reaches_kept r).1 s

/-- If only one thread takes items, it is never parked while the queue has an item or is closed and
nobody is to wake anybody. -/
theorem never_left_parked (only : ∀ i, may i .pop → i = c) (h : Reaches may {} x) :
    ¬ (x.place c = .parked ∧ (∀ i, ¬ (x.place i).Owes) ∧
      (x.queue.pending ≠ [] ∨ x.queue.closed = true)) := by
  rintro ⟨parked, settled, something⟩
  rcases (wakeOwed_reaches only h).wakeOwed parked with empty | ⟨i, owes⟩
  · rw [empty] at something
    exact something.elim (· rfl) Bool.false_ne_true
  · exact settled i owes

end Step

/-- Thread 0 takes items and is parked when thread 1 has pushed one and not woken it yet. -/
theorem never_left_parked_pushed :
    let may : Nat → Call Nat → Prop := fun i call => call = .pop → i = 0
    (∀ i, may i .pop → i = 0) ∧ ∃ x : SharedQueue Nat, Reaches may {} x ∧
      x.place 0 = .parked ∧ x.queue.pending = [7] ∧ ¬ ∀ i, ¬ (x.place i).Owes := by
  intro may
  have only : ∀ i, may i .pop → i = 0 := fun i h => h rfl
  have called : Reaches may {} _ := .single (.call (i := 0) (c := .pop) (fun _ => rfl) rfl)
  have entered := called.tail (.enter (i := 0) (c := .pop) rfl rfl)
  have stayed := entered.tail (.stay (i := 0) (c := .pop) rfl rfl)
  have parked := stayed.tail (.park (i := 0) rfl)
  have pushed := parked.trans
    (reaches_made (i := 1) (c := .push 7) (r := .accepted) (by rintro ⟨⟩) rfl rfl rfl)
  refine ⟨only, _, pushed, rfl, rfl, fun settled => ?_⟩
  exact never_left_parked only pushed ⟨rfl, settled, .inl (by rintro ⟨⟩)⟩

end SccDispatch.SharedQueue
