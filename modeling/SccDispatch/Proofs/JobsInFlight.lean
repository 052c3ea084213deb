import Mathlib.Algebra.Order.BigOperators.Group.List
import Mathlib.Algebra.Order.Group.Nat
import SccDispatch.Proofs.ThreadSystem

namespace SccDispatch

namespace Duty

def taken? : Duty → Option Job
  | taken job => some job
  | _ => none

def booked? : Duty → Option (Nat × Output)
  | books job out _ => some (job.ticket, out)
  | _ => none

def todo : Duty → List Journal.Entry
  | books _ _ todo => todo
  | _ => []

end Duty

namespace Post

variable {π : Type}

def undone (p : Post π) : List Job := p.duty.taken?.toList ++ p.worker.queue.pending

def outs (p : Post π) : List (Nat × Output) := p.worker.answers ++ p.duty.booked?.toList

def flight (p : Post π) : List Nat := p.undone.map Job.ticket ++ p.outs.map Prod.fst

structure Sound (p : Post π) : Prop where
  distinct : p.flight.Nodup
  issued : ∀ t ∈ p.flight, t < p.worker.issued
  gone : p.duty = .gone → p.worker.queue.pending = [] ∧ p.worker.queue.closed = true

variable {p q : Post π}

theorem Sound.of_perm (h : p.Sound) (hf : q.flight.Perm p.flight)
    (hi : q.worker.issued = p.worker.issued)
    (hg : q.duty = .gone → q.worker.queue.pending = [] ∧ q.worker.queue.closed = true) :
    q.Sound :=
  ⟨hf.nodup_iff.mpr h.distinct, fun t ht => hi ▸ h.issued t (hf.subset ht), hg⟩

theorem Sound.of_handles (h : p.Sound) (handles : Handles) :
    ({ p with worker := { p.worker with handles } } : Post π).Sound :=
  ⟨h.distinct, h.issued, h.gone⟩

/-- A worker by itself only brings a job from one place to the next. -/
theorem Works.flight [Provider π] {es : List Journal.Entry} {ran : Option (Command × Output)}
    (h : p.Works q es ran) : q.flight.Perm p.flight := by
  cases h with
  | take idle first => simp [Post.flight, undone, outs, Duty.taken?, Duty.booked?, idle, first]
  | @run job out _ taken ran =>
    simp only [Post.flight, undone, outs, Duty.taken?, Duty.booked?, taken]
    simp only [Option.toList_none, Option.toList_some, List.nil_append, List.append_nil,
      List.cons_append, List.map_cons, List.map_append, List.map_nil]
    rw [← List.append_assoc]
    exact List.perm_append_singleton _ _
  | write owes => simp [Post.flight, undone, outs, Duty.taken?, Duty.booked?, owes]
  | answer done => simp [Post.flight, undone, outs, Duty.taken?, Duty.booked?, done]
  | leave idle drained closed =>
    simp [Post.flight, undone, outs, Duty.taken?, Duty.booked?, idle]

/-- A worker keeps its account of jobs as it goes on. -/
theorem Sound.works [Provider π] (h : p.Sound) {es : List Journal.Entry}
    {ran : Option (Command × Output)} (works : p.Works q es ran) : q.Sound := by
  refine h.of_perm works.flight ?_ ?_
  · cases works <;> rfl
  · cases works with
    | leave idle drained closed => exact fun _ => ⟨drained, closed⟩
    | write owes => rintro ⟨⟩
    | take | run | answer => rintro ⟨⟩

/-- A command that is submitted gets a ticket that nobody has. -/
theorem flight_submit {command : Command} {ticket : Nat} {worker : Worker π}
    (accepted : p.worker.submit command = .ok (ticket, worker)) :
    p.worker.queue.closed = false ∧ ticket = p.worker.issued ∧
      ({ p with worker } : Post π).undone = p.undone ++ [⟨ticket, command⟩] ∧
      ({ p with worker } : Post π).outs = p.outs ∧ worker.issued = p.worker.issued + 1 := by
  cases hc : p.worker.queue.closed with
  | true => simp [Worker.submit_of_closed hc] at accepted
  | false =>
    rw [Worker.submit_of_open hc] at accepted
    cases accepted
    exact ⟨rfl, rfl, (List.append_assoc ..).symm, rfl, rfl⟩

theorem submit_kept {command : Command} {ticket : Nat} {worker : Worker π}
    (accepted : p.worker.submit command = .ok (ticket, worker)) :
    worker.provider = p.worker.provider ∧ worker.queue.closed = p.worker.queue.closed := by
  cases hc : p.worker.queue.closed with
  | true => simp [Worker.submit_of_closed hc] at accepted
  | false =>
    rw [Worker.submit_of_open hc] at accepted
    cases accepted
    exact ⟨rfl, hc⟩

theorem result_snd (w : Worker π) (ticket : Nat) (name : String) :
    (w.result ticket name).2 = { w with answers := w.answers.filter (·.1 != ticket) } := by
  unfold Worker.result Worker.collect
  cases (w.answers.find? (·.1 == ticket)).map Prod.snd <;> rfl

/-- The post once the output of the job with that ticket is taken. -/
def paid (p : Post π) (ticket : Nat) : Post π :=
  { p with worker := { p.worker with answers := p.worker.answers.filter (·.1 != ticket) } }

/-- No ticket is in two places, so the one that is taken is gone. -/
theorem flight_paid (h : p.flight.Nodup) {ticket : Nat}
    (ht : ticket ∈ p.worker.answers.map Prod.fst) :
    (p.paid ticket).flight = p.flight.filter (· != ticket) := by
  obtain ⟨-, houts, hu⟩ := List.nodup_append.mp h
  have hu : ∀ a ∈ p.undone.map Job.ticket, (a != ticket) = true := by
    intro a ha
    have hmem : ticket ∈ p.outs.map Prod.fst := by
      rw [outs, List.map_append]
      exact List.mem_append_left _ ht
    simpa using hu a ha ticket hmem
  rw [outs, List.map_append] at houts
  obtain ⟨-, -, hb⟩ := List.nodup_append.mp houts
  have hb : ∀ a ∈ p.duty.booked?.toList.map Prod.fst, (a != ticket) = true := by
    intro a ha
    simpa using (hb ticket ht a ha).symm
  simp only [flight, outs, List.map_append, List.filter_append, List.filter_eq_self.mpr hu,
    List.filter_eq_self.mpr hb]
  simp only [paid, undone, List.filter_map]
  rfl

theorem Sound.paid (h : p.Sound) {ticket : Nat} (ht : ticket ∈ p.worker.answers.map Prod.fst) :
    (p.paid ticket).Sound := by
  have hf := flight_paid h.distinct ht
  refine ⟨?_, ?_, h.gone⟩
  · rw [hf]
    exact h.distinct.filter _
  · rw [hf]
    exact fun t hmem => h.issued t (List.mem_filter.mp hmem).1

theorem mem_outs_paid {ticket : Nat} {o : Nat × Output} (ho : o ∈ p.outs) (hne : o.1 ≠ ticket) :
    o ∈ (p.paid ticket).outs := by
  rcases List.mem_append.mp ho with ho | ho
  · exact List.mem_append_left _ (List.mem_filter.mpr ⟨ho, by simpa using hne⟩)
  · exact List.mem_append_right _ ho

theorem count_paid (h : p.flight.Nodup) {ticket : Nat}
    (ht : ticket ∈ p.worker.answers.map Prod.fst) (t : Nat) :
    (p.paid ticket).flight.count t + (if ticket = t then 1 else 0) = p.flight.count t := by
  rw [flight_paid h ht]
  by_cases he : ticket = t
  · subst he
    have hmem : ticket ∈ p.flight := by
      simp only [flight, outs, List.map_append, List.mem_append]
      exact .inr (.inl ht)
    rw [List.count_eq_one_of_mem h hmem, if_pos rfl]
    simp [List.count_eq_zero]
  · rw [if_neg he, List.count_filter (by simpa using Ne.symm he), Nat.add_zero]

end Post

namespace Inside

variable {π M : Type} [AddCommMonoid M]

/-- The sum of what stands against the threads that have the lock. -/
def total (f : {alone : Bool} → Local π alone → M) : Inside π → M
  | shared visitors => (visitors.map fun v => f v.2).sum
  | alone _ l => f l

variable {f : {alone : Bool} → Local π alone → M} {alone : Bool} {i : Nat} {l : Local π alone}
  {x y : Inside π} {put : Local π alone → Inside π}

theorem At.total (h : At i l x put) (m : Local π alone) :
    (put m).total f + f l = x.total f + f m := by
  cases h with
  | shared =>
    simp only [Inside.total, List.map_append, List.map_cons, List.sum_append, List.sum_cons]
    ac_rfl
  | alone => exact add_comm ..

theorem At.isAlone (h : At i l x put) : x.isAlone = alone := by
  cases h <;> rfl

theorem At.isAlone_put (h : At i l x put) (m : Local π alone) : (put m).isAlone = alone :=
  (h.put m).isAlone

theorem Admits.total {r : Routine π alone} (h : Admits i r x y) :
    x.total f + f { rest := .go r : Local π alone } = y.total f := by
  cases h with
  | shared => simp [Inside.total]
  | alone => simp [Inside.total]

theorem Leaves.total {answer : Answer} (h : Leaves i answer x y)
    (hf : ∀ b, f { rest := .go (.done answer) : Local π b } = 0) : y.total f = x.total f := by
  cases h with
  | shared => simp [Inside.total, hf]
  | alone => simp [Inside.total, hf]

theorem Admits.isAlone {r : Routine π alone} (h : Admits i r x y) :
    x.isAlone = false ∧ (y.isAlone = false ∨ x = .shared []) := by
  cases h with
  | shared => exact ⟨rfl, .inl rfl⟩
  | alone => exact ⟨rfl, .inr rfl⟩

theorem Leaves.isAlone {answer : Answer} (h : Leaves i answer x y) :
    y.isAlone = false ∧ (x.isAlone = false ∨ y = .shared []) := by
  cases h with
  | shared => exact ⟨rfl, .inl rfl⟩
  | alone => exact ⟨rfl, .inr rfl⟩

end Inside

def Local.awaits {π : Type} {alone : Bool} (t : Nat) (l : Local π alone) : Nat :=
  match l.rest with
  | .await job _ => if job.ticket = t then 1 else 0
  | _ => 0

def Inside.waiting {π : Type} (x : Inside π) (t : Nat) : Nat := x.total (Local.awaits t)

section Waiting

variable {π : Type} {alone : Bool} {i t : Nat} {x : Inside π}

@[simp]
theorem awaits_go (todo : List Journal.Entry) (r : Routine π alone) :
    ({ todo, rest := .go r } : Local π alone).awaits t = 0 := rfl

@[simp]
theorem awaits_await (todo : List Journal.Entry) (job : Job)
    (next : Except DispatchError Output → Routine π alone) :
    ({ todo, rest := .await job next } : Local π alone).awaits t =
      if job.ticket = t then 1 else 0 := rfl

theorem Inside.At.waiting {l : Local π alone} {put : Local π alone → Inside π}
    (h : Inside.At i l x put) (m : Local π alone) (t : Nat) :
    (put m).waiting t + l.awaits t = x.waiting t + m.awaits t := h.total m

/-- Nobody but the thread itself waits while it has the lock alone. -/
theorem Inside.At.waiting_alone {l : Local π true} {put : Local π true → Inside π}
    (h : Inside.At i l x put) (t : Nat) : x.waiting t = l.awaits t := by
  cases h
  rfl

/-- Somebody waits who makes for the number of those that do. -/
theorem Inside.exists_awaiter (h : 0 < x.waiting t) :
    ∃ i, ∃ alone, ∃ todo, ∃ job : Job, ∃ next : Except DispatchError Output → Routine π alone,
      ∃ put, Inside.At i { todo, rest := .await job next } x put ∧ job.ticket = t := by
  have await : ∀ {alone} (l : Local π alone), 0 < l.awaits t →
      ∃ todo job next, l = { todo, rest := .await job next } ∧ job.ticket = t := by
    intro alone l hl
    obtain ⟨todo, rest⟩ := l
    cases rest with
    | await job next =>
      refine ⟨todo, job, next, rfl, ?_⟩
      by_contra hne
      simp [hne] at hl
    | go r => cases hl
    | query command next => cases hl
  cases x with
  | shared visitors =>
    obtain ⟨n, hn, hpos⟩ := List.sum_pos_iff_exists_pos_nat.mp h
    obtain ⟨⟨i, l⟩, hv, rfl⟩ := List.mem_map.mp hn
    obtain ⟨todo, job, next, rfl, ht⟩ := await l hpos
    obtain ⟨before, after, rfl⟩ := List.append_of_mem hv
    exact ⟨i, false, todo, job, next, _, .shared, ht⟩
  | alone i l =>
    obtain ⟨todo, job, next, rfl, ht⟩ := await l h
    exact ⟨i, true, todo, job, next, _, .alone, ht⟩

theorem Inside.every_of_waiting (h : x.waiting t = 0) :
    x.Every fun _ _ l => l.awaits t = 0 := by
  cases x with
  | shared visitors =>
    have hs : (visitors.map fun v => v.2.awaits t).sum = 0 := h
    intro v hv
    by_contra hne
    have hm := List.mem_map_of_mem (f := fun v => v.2.awaits t) hv
    have hpos := List.sum_pos_iff_exists_pos_nat.mpr ⟨_, hm, Nat.pos_of_ne_zero hne⟩
    omega
  | alone i l => exact h

/-- When no more than one waits, nobody else does. -/
theorem Inside.At.others_wait_not {l : Local π alone} {put : Local π alone → Inside π}
    (h : Inside.At i l x put) (distinct : x.ids.Nodup) (hw : x.waiting t ≤ l.awaits t) :
    x.Every fun j _ k => j ≠ i → k.awaits t = 0 := by
  let done : Local π alone := { rest := .go (.done .released) }
  have ht := h.waiting done t
  have hz : (put done).waiting t = 0 := by
    rw [awaits_go] at ht
    omega
  have hd : (put done).ids.Nodup := by rwa [h.ids_put]
  rw [← h.put_self]
  exact (h.put done).every_others hd (Inside.every_of_waiting hz) (fun _ _ hk _ => hk)
    fun hn => absurd rfl hn

end Waiting

namespace ThreadSystem

variable {π : Type}

theorem post_of_same {x y : ThreadSystem π} (hb : y.dispatcher.binding = x.dispatcher.binding)
    (hd : y.duty = x.duty) (hh : y.hand = x.hand) (alone : Bool) :
    y.post alone = x.post alone := by
  cases alone with
  | false => simp only [post, hb, hd]
  | true => exact hh

def flight (x : ThreadSystem π) (alone : Bool) : List Nat := (x.post alone).elim [] Post.flight

theorem flight_of_post {x : ThreadSystem π} {alone : Bool} {p : Post π}
    (h : x.post alone = some p) : x.flight alone = p.flight := by
  rw [flight, h]
  rfl

theorem flight_of_none {x : ThreadSystem π} {alone : Bool} (h : x.post alone = none) :
    x.flight alone = [] := by
  rw [flight, h]
  rfl

/-- The jobs in flight are those that somebody waits for, and nobody is left with a worker. -/
structure JobsTracked (x : ThreadSystem π) : Prop where
  sound : ∀ {alone p}, x.post alone = some p → p.Sound
  awaited : ∀ alone t, (x.flight alone).count t =
    if x.inside.isAlone = alone then x.inside.waiting t else 0
  hand : x.inside.isAlone = false → x.hand = none

namespace JobsTracked

variable {x y : ThreadSystem π} {alone : Bool} {i : Nat} {p q : Post π}

theorem of_idle {d : Dispatcher π} (h : d.Idle) :
    ({ dispatcher := d } : ThreadSystem π).JobsTracked := by
  have hp : ∀ alone p, ({ dispatcher := d } : ThreadSystem π).post alone = some p →
      p.Sound ∧ p.flight = [] := by
    rintro (_ | _) p hp
    · obtain ⟨b, hb, rfl⟩ := Option.map_eq_some_iff.mp hp
      have hf : ({ worker := b.worker } : Post π).flight = [] := by
        simp [Post.flight, Post.undone, Post.outs, Duty.taken?, Duty.booked?, (h b hb).queue,
          (h b hb).answers, Queue.empty]
      refine ⟨⟨?_, ?_, by rintro ⟨⟩⟩, hf⟩
      · rw [hf]
        exact List.nodup_nil
      · rw [hf]
        exact List.forall_mem_nil _
    · cases hp
  refine ⟨fun hq => (hp _ _ hq).1, fun alone t => ?_, fun _ => rfl⟩
  cases hq : ({ dispatcher := d } : ThreadSystem π).post alone with
  | none => cases alone <;> rw [flight_of_none hq] <;> rfl
  | some p => cases alone <;> rw [flight_of_post hq, (hp _ _ hq).2] <;> rfl

theorem start (options : Options) : ({ dispatcher := { options } } : ThreadSystem π).JobsTracked :=
  of_idle (Dispatcher.idle_of_unbound rfl)

theorem of_same (h : x.JobsTracked) (hp : ∀ alone, y.post alone = x.post alone)
    (ha : y.inside.isAlone = x.inside.isAlone)
    (hw : ∀ t, y.inside.waiting t = x.inside.waiting t) : y.JobsTracked where
  sound hpost := h.sound (hp _ ▸ hpost)
  awaited alone t := by
    rw [ha, hw, ← h.awaited, flight, flight, hp]
  hand hin := (hp true).trans (h.hand (ha ▸ hin))

/-- While nobody waits and no thread has a worker, the lock can go from hand to hand. -/
theorem of_quiet (h : x.JobsTracked) (hp : ∀ alone, y.post alone = x.post alone)
    (hx : x.hand = none) (hw : ∀ t, x.inside.waiting t = 0) (hw' : ∀ t, y.inside.waiting t = 0) :
    y.JobsTracked where
  sound hpost := h.sound (hp _ ▸ hpost)
  awaited alone t := by
    have hn := h.awaited alone t
    rw [hw, ite_self] at hn
    rw [hw', ite_self, flight, hp]
    exact hn
  hand _ := (hp true).trans hx

/-- Only one worker has gone on, and what is in flight to it is still what is awaited. -/
theorem of_turn (h : x.JobsTracked) (alone : Bool) (hq : q.Sound) (ha : y.post alone = some q)
    (hb : y.post (!alone) = x.post (!alone)) (hin : y.inside.isAlone = x.inside.isAlone)
    (hw : ∀ t, q.flight.count t = if y.inside.isAlone = alone then y.inside.waiting t else 0)
    (hn : x.inside.isAlone ≠ alone → y.inside = x.inside)
    (hh : x.inside.isAlone = false → alone = false) : y.JobsTracked where
  sound {b r} hr := by
    by_cases hba : b = alone
    · subst hba
      rw [ha] at hr
      cases hr
      exact hq
    · have hb' : b = !alone := Bool.eq_not_of_ne hba
      subst hb'
      exact h.sound (hb ▸ hr)
  awaited b t := by
    by_cases hba : b = alone
    · subst hba
      rw [flight_of_post ha]
      exact hw t
    · have hb' : b = !alone := Bool.eq_not_of_ne hba
      subst hb'
      rw [flight, hb, ← flight, h.awaited, hin]
      by_cases hx : x.inside.isAlone = alone
      · simp [hx]
      · rw [hn hx]
  hand hy := by
    have hx := hin ▸ hy
    have hf := hh hx
    subst hf
    exact hb.trans (h.hand hx)

/-- Nothing is in flight to a worker when nobody waits. -/
theorem flight_nil (h : x.JobsTracked) (hp : x.post alone = some p)
    (hw : x.inside.isAlone = alone → ∀ t, x.inside.waiting t = 0) : p.flight = [] := by
  apply List.eq_nil_iff_forall_not_mem.mpr
  intro t ht
  have hc := h.awaited alone t
  rw [flight_of_post hp] at hc
  have hpos := List.count_pos_iff.mpr ht
  split at hc
  next ha => rw [hw ha t] at hc; omega
  next => omega

/-- A job that somebody waits for is in flight. -/
theorem mem_flight (h : x.JobsTracked) {l : Local π alone} {put : Local π alone → Inside π}
    {t : Nat} (here : Inside.At i l x.inside put) (hl : l.awaits t = 1)
    (hp : x.post alone = some p) :
    t ∈ p.flight := by
  have hc := h.awaited alone t
  have hw := here.waiting { rest := .go (.done .released) } t
  rw [flight_of_post hp, if_pos here.isAlone] at hc
  rw [awaits_go] at hw
  apply List.count_pos_iff.mp
  omega

theorem waiting_post (h : x.JobsTracked) (hp : x.post alone = some p) (t : Nat) :
    p.flight.count t = if x.inside.isAlone = alone then x.inside.waiting t else 0 := by
  rw [← h.awaited, flight_of_post hp]

theorem isAlone_of_hand (h : x.JobsTracked) (hp : x.post alone = some p)
    (hin : x.inside.isAlone = false) : alone = false := by
  cases alone with
  | false => rfl
  | true => cases (h.hand hin).symm.trans hp

theorem post_withPost_not (x : ThreadSystem π) (alone : Bool) (p : Post π) :
    (x.withPost alone p).post (!alone) = x.post (!alone) := by
  cases alone <;> rfl

/-- A worker goes on by itself. -/
theorem work [Provider π] (h : x.JobsTracked) {es : List Journal.Entry}
    {ran : Option (Command × Output)} {rs : List Ran} (hp : x.post alone = some p)
    (works : p.Works q es ran) : ((x.withPost alone q).record es rs).JobsTracked := by
  have ha := post_withPost hp q
  have hb := post_withPost_not x alone q
  have hi : (x.withPost alone q).inside = x.inside := by cases alone <;> rfl
  refine h.of_turn alone ((h.sound hp).works works) ?_ ?_ (congrArg _ hi) ?_
    (fun _ => hi) (h.isAlone_of_hand hp)
  · cases alone <;> exact ha
  · cases alone <;> exact hb
  · intro t
    rw [works.flight.count_eq, h.waiting_post hp]
    exact congrArg (fun y : Inside π => if y.isAlone = alone then y.waiting t else 0) hi.symm

/-- A thread changes the worker to which it dispatches, and its own standing. -/
theorem turn (h : x.JobsTracked) {l m : Local π alone} {put : Local π alone → Inside π}
    (here : Inside.At i l x.inside put) (hp : x.post alone = some p) (hq : q.Sound)
    (hw : ∀ t, q.flight.count t + l.awaits t = p.flight.count t + m.awaits t) :
    ((x.withPost alone q).withInside (put m)).JobsTracked := by
  have hx := here.isAlone
  have hy := here.isAlone_put m
  refine h.of_turn alone hq ?_ ?_ (hy.trans hx.symm) ?_ (absurd hx) (hx.symm.trans ·)
  · have ha := post_withPost hp q
    cases alone <;> exact ha
  · have hb := post_withPost_not x alone q
    cases alone <;> exact hb
  · intro t
    have hc := h.waiting_post hp t
    have ht := here.waiting m t
    have := hw t
    rw [if_pos hx] at hc
    show q.flight.count t = if (put m).isAlone = alone then (put m).waiting t else 0
    rw [if_pos hy]
    omega

/-- A thread that dispatches comes to wait for the job it has submitted. -/
theorem submit (h : x.JobsTracked) {command : Command} {put : Local π alone → Inside π}
    {next : Except DispatchError Output → Routine π alone} {ticket : Nat} {worker : Worker π}
    (here : Inside.At i { rest := .go (.ask command next) } x.inside put)
    (hp : x.post alone = some p) (accepted : p.worker.submit command = .ok (ticket, worker)) :
    ((x.withPost alone { p with worker }).withInside
      (put { todo := [.dispatched], rest := .await ⟨ticket, command⟩ next })).JobsTracked := by
  obtain ⟨hopen, rfl, hu, ho, hi⟩ := Post.flight_submit accepted
  have hs := h.sound hp
  have hperm : ({ p with worker } : Post π).flight.Perm (p.worker.issued :: p.flight) := by
    rw [Post.flight, Post.flight, hu, ho, List.map_append, List.append_assoc]
    exact List.perm_middle
  have hnew : p.worker.issued ∉ p.flight := fun ht => Nat.lt_irrefl _ (hs.issued _ ht)
  refine h.turn here hp ⟨?_, ?_, ?_⟩ ?_
  · exact hperm.nodup_iff.mpr (List.nodup_cons.mpr ⟨hnew, hs.distinct⟩)
  · intro t ht
    show t < worker.issued
    rw [hi]
    rcases List.mem_cons.mp (hperm.subset ht) with rfl | ht
    · exact Nat.lt_succ_self _
    · exact Nat.lt_succ_of_lt (hs.issued t ht)
  · intro hg
    rw [(hs.gone hg).2] at hopen
    cases hopen
  · intro t
    rw [hperm.count_eq, List.count_cons]
    simp

/-- A result that may be taken is there. -/
theorem settled (h : x.JobsTracked) {job : Job} {put : Local π alone → Inside π}
    {next : Except DispatchError Output → Routine π alone}
    (here : Inside.At i { rest := .await job next } x.inside put) (hp : x.post alone = some p)
    (settled : job.ticket ∈ p.worker.answers.map Prod.fst ∨ p.duty = .gone) :
    job.ticket ∈ p.worker.answers.map Prod.fst := by
  rcases settled with ha | hg
  · exact ha
  · have hf := h.mem_flight here (if_pos rfl) hp
    have hn := ((h.sound hp).gone hg).1
    simpa [Post.flight, Post.undone, Post.outs, Duty.taken?, Duty.booked?, hg, hn] using hf

/-- A thread that takes its output waits for nothing. -/
theorem collect (h : x.JobsTracked) {job : Job} {put : Local π alone → Inside π}
    {next : Except DispatchError Output → Routine π alone} {r : Routine π alone} {name : String}
    (here : Inside.At i { rest := .await job next } x.inside put) (hp : x.post alone = some p)
    (ready : job.ticket ∈ p.worker.answers.map Prod.fst ∨ p.duty = .gone) :
    ((x.withPost alone { p with worker := (p.worker.result job.ticket name).2 }).withInside
      (put { rest := .go r })).JobsTracked := by
  have hs := h.sound hp
  have ht := h.settled here hp ready
  rw [Post.result_snd]
  refine h.turn (q := p.paid job.ticket) here hp (hs.paid ht) fun t => ?_
  have hc := Post.count_paid hs.distinct ht t
  rw [awaits_await, awaits_go]
  omega

/-- A thread only changes its own standing. -/
theorem moved (h : x.JobsTracked) {l m : Local π alone} {put : Local π alone → Inside π}
    (here : Inside.At i l x.inside put) (hy : y.inside = put m)
    (hp : ∀ alone, y.post alone = x.post alone) (hw : ∀ t, l.awaits t = m.awaits t) :
    y.JobsTracked := by
  refine h.of_same hp ?_ fun t => ?_
  · rw [hy, here.isAlone_put, here.isAlone]
  · have ht := here.waiting m t
    have := hw t
    rw [hy]
    omega

/-- Nothing is in flight when a thread goes on that has the lock alone. -/
theorem quiet (h : x.JobsTracked) {l : Local π true} {put : Local π true → Inside π}
    (here : Inside.At i l x.inside put) (hl : ∀ t, l.awaits t = 0) {b : Bool}
    (hp : x.post b = some p) : p.Sound ∧ p.flight = [] :=
  ⟨h.sound hp, h.flight_nil hp fun _ t => (here.waiting_alone t).trans (hl t)⟩

/-- The thread that has the lock alone goes on, and no worker has anything to do. -/
theorem of_alone {m l : Local π true} {put : Local π true → Inside π}
    (here : Inside.At i l x.inside put) (hy : y.inside = put m) (hm : ∀ t, m.awaits t = 0)
    (hp : ∀ b p, y.post b = some p → p.Sound ∧ p.flight = []) : y.JobsTracked := by
  have hw : ∀ t, y.inside.waiting t = 0 := fun t => by
    rw [hy, (here.put m).waiting_alone, hm]
  refine ⟨fun hq => (hp _ _ hq).1, fun b t => ?_, fun hn => ?_⟩
  · rw [hw, ite_self]
    cases hq : y.post b with
    | none => rw [flight_of_none hq, List.count_nil]
    | some q => rw [flight_of_post hq, (hp b q hq).2, List.count_nil]
  · rw [hy, here.isAlone_put] at hn
    cases hn

/-- One thread waits for each job in flight. -/
theorem waiting_one (h : x.JobsTracked) (hp : x.post alone = some p) {t : Nat} (ht : t ∈ p.flight) :
    x.inside.isAlone = alone ∧ x.inside.waiting t = 1 := by
  have hc := h.waiting_post hp t
  rw [List.count_eq_one_of_mem (h.sound hp).distinct ht] at hc
  split at hc
  next ha => exact ⟨ha, hc.symm⟩
  next => cases hc

/-- Every job that is not run yet has exactly one thread that waits for it. -/
theorem awaiter (h : x.JobsTracked) (hp : x.post alone = some p) {job : Job} (hu : job ∈ p.undone) :
    x.inside.waiting job.ticket = 1 ∧
      ∃ i, ∃ todo, ∃ job' : Job, ∃ next : Except DispatchError Output → Routine π alone, ∃ put,
        Inside.At i { todo, rest := .await job' next } x.inside put ∧
          job'.ticket = job.ticket := by
  obtain ⟨ha, hw⟩ := h.waiting_one hp (List.mem_append_left _ (List.mem_map_of_mem hu))
  obtain ⟨i, b, todo, job', next, put, here, ht⟩ :=
    Inside.exists_awaiter (Nat.lt_of_lt_of_eq Nat.one_pos hw.symm)
  cases here.isAlone.symm.trans ha
  exact ⟨hw, i, todo, job', next, put, here, ht⟩

end JobsTracked

theorem binding_accept (d : Dispatcher π) (op : Operation π) :
    (d.accept op).binding = d.binding := by
  unfold Dispatcher.accept
  split <;> rfl

/-- Moves keep account of the jobs in flight. -/
theorem JobsTracked.move [Provider π] {x y : ThreadSystem π} {i : Nat} {alone : Bool}
    {l : Local π alone} {put : Local π alone → Inside π} (h : x.JobsTracked)
    (here : Inside.At i l x.inside put) (m : x.Move i l put y) : y.JobsTracked := by
  cases m with
  | submit post accepted => exact h.submit here post accepted
  | collect post settled => exact h.collect here post settled
  | @visit _ _ next b out provider bound ran =>
    have hp : x.post false = some { worker := b.worker, duty := x.duty } := by
      rw [post, bound]
      rfl
    have hs := h.sound hp
    have ht := h.turn (q := ⟨{ b.worker with provider }, x.duty⟩)
      (m := { todo := out.asides, rest := .go (next out) }) here hp
      ⟨hs.distinct, hs.issued, hs.gone⟩ fun _ => rfl
    exact ht.of_same (by rintro (_ | _) <;> rfl) rfl fun _ => rfl
  | take bound empty =>
    have hq := h.quiet (b := false) here (fun _ => rfl) (by rw [post, bound]; rfl)
    refine JobsTracked.of_alone here rfl (fun _ => rfl) ?_
    rintro (_ | _) p ⟨⟩
    exact ⟨hq.1.of_handles _, hq.2⟩
  | employ empty =>
    refine JobsTracked.of_alone here rfl (fun _ => rfl) ?_
    rintro (_ | _) p hp
    · exact h.quiet (b := false) here (fun _ => rfl) hp
    · cases hp
      exact ⟨⟨List.nodup_nil, by rintro t ⟨⟩, by rintro ⟨⟩⟩, rfl⟩
  | seat has =>
    have hq := h.quiet (b := true) here (fun _ => rfl) has
    refine JobsTracked.of_alone here rfl (fun _ => rfl) ?_
    rintro (_ | _) p ⟨⟩
    exact ⟨hq.1.of_handles _, hq.2⟩
  | dismiss has =>
    obtain ⟨hs, hf⟩ := h.quiet (b := true) here (fun _ => rfl) has
    refine JobsTracked.of_alone here rfl (fun _ => rfl) ?_
    rintro (_ | _) q hq
    · exact h.quiet (b := false) here (fun _ => rfl) hq
    · cases hq
      exact ⟨⟨hs.distinct, hs.issued, fun hg => ⟨(hs.gone hg).1, rfl⟩⟩, hf⟩
  | retire has gone =>
    refine JobsTracked.of_alone here rfl (fun _ => rfl) ?_
    rintro (_ | _) p hp
    · exact h.quiet (b := false) here (fun _ => rfl) hp
    · cases hp
  | write | notice | refused | ask | select | lock | unlock =>
    exact h.moved here rfl (post_of_same rfl rfl rfl) fun _ => rfl

theorem JobsTracked.step [Provider π] {x y : ThreadSystem π} {A : Operation π → Prop}
    (h : x.JobsTracked) (s : x.Step A y) : y.JobsTracked := by
  cases s with
  | call may finished outside =>
    exact h.of_same (post_of_same (binding_accept ..) rfl rfl) rfl fun _ => rfl
  | @enter _ _ _ inside _ admitted =>
    have hw : ∀ t, x.inside.waiting t = inside.waiting t := fun t =>
      admitted.total (f := Local.awaits t)
    obtain ⟨hx, hy | hx'⟩ := admitted.isAlone
    · exact h.of_same (post_of_same rfl rfl rfl) (hy.trans hx.symm) fun t => (hw t).symm
    · have hz : ∀ t, x.inside.waiting t = 0 := fun t => by rw [hx']; rfl
      exact h.of_quiet (post_of_same rfl rfl rfl) (h.hand hx) hz fun t => (hw t).symm.trans (hz t)
  | @leave _ _ inside empty left =>
    have hw : ∀ t, inside.waiting t = x.inside.waiting t := fun t =>
      left.total (f := Local.awaits t) fun _ => rfl
    obtain ⟨hy, hx | hy'⟩ := left.isAlone
    · exact h.of_same (post_of_same rfl rfl rfl) (hy.trans hx.symm) hw
    · have hz : ∀ t, inside.waiting t = 0 := fun t => by rw [hy']; rfl
      exact h.of_quiet (post_of_same rfl rfl rfl) empty (fun t => (hw t).symm.trans (hz t)) hz
  | work post works => exact h.work post works
  | move here moves => exact h.move here moves

theorem JobsTracked.reaches [Provider π] {x y : ThreadSystem π} {A : Operation π → Prop}
    (h : x.JobsTracked) (r : x.Reaches A y) : y.JobsTracked := by
  induction r with
  | refl => exact h
  | tail _ s ih => exact ih.step s

end ThreadSystem

end SccDispatch
