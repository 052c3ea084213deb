import SccDispatch.Proofs.BlockingSystem

namespace SccDispatch

namespace ThreadSystem.Move

variable {π : Type} [Provider π] {x y : ThreadSystem π} {i : Nat} {alone : Bool} {l : Local π alone}
  {put : Local π alone → Inside π}

theorem locked (h : x.Move i l put y) (side : Bool) :
    y.locked = none ∨ y.locked = x.locked ∨ l.lock? side = some .project := by
  cases h with
  | lock => exact .inr (.inr rfl)
  | unlock => exact .inl rfl
  | @submit alone | @collect alone => cases alone <;> exact .inr (.inl rfl)
  | _ => exact .inr (.inl rfl)

/-- One thread among others leaves what is bound. -/
theorem bound {l : Local π false} {put : Local π false → Inside π} (h : x.Move i l put y) :
    y.dispatcher.isBound = x.dispatcher.isBound := by
  cases h with
  | submit | collect | visit => exact Option.isSome_map
  | _ => rfl

omit [Provider π] in
theorem post_withPost {p q r : Post π} (hp : x.post alone = some p) {c : Bool}
    (hr : x.post c = some r) (hd : q.duty = p.duty) :
    ∃ s, (x.withPost alone q).post c = some s ∧ s.duty = r.duty ∧ (c ≠ alone → s = r) ∧
      (c = alone → s = q) := by
  by_cases hc : c = alone
  · subst hc
    cases hp.symm.trans hr
    exact ⟨q, ThreadSystem.post_withPost hp q, hd, fun hn => absurd rfl hn, fun _ => rfl⟩
  · have hc' := Bool.eq_not_of_ne hc
    subst hc'
    exact ⟨r, (JobsTracked.post_withPost_not x alone q).trans hr, rfl, fun _ => rfl,
      fun he => absurd he hc⟩

/-- A worker is at what it was at. Its queue is as it was, or the thread is about to wake it. -/
theorem posts (h : x.Move i l put y) (turns : l.turns = false) (side : Bool)
    (report : Option (Except BindError π)) {c : Bool} {p : Post π} (hp : x.post c = some p) :
    p.duty = .gone ∨
      ∃ q, y.post c = some q ∧ q.duty = p.duty ∧
        (q.worker.queue = p.worker.queue ∨ l.after side report = .wakes (c != side)) := by
  cases h with
  | @submit alone _ _ _ p' ticket worker post accepted =>
    obtain ⟨q, hq, hd, hne, -⟩ := post_withPost (q := { p' with worker }) post hp rfl
    refine .inr ⟨q, ?_, hd, ?_⟩
    · cases alone <;> exact hq
    · by_cases hc : c = alone
      · subst hc
        exact .inr rfl
      · exact .inl (by rw [hne hc])
  | @collect alone _ job _ p' post settled =>
    obtain ⟨q, hq, hd, hne, he⟩ :=
      post_withPost (q := { p' with worker := (p'.worker.result job.ticket job.command.name).2 })
        post hp rfl
    refine .inr ⟨q, ?_, hd, .inl ?_⟩
    · cases alone <;> exact hq
    · by_cases hc : c = alone
      · subst hc
        cases post.symm.trans hp
        rw [he rfl, Post.result_snd]
      · rw [hne hc]
  | @visit _ command next b out provider bound ran =>
    have post : x.post false = some { worker := b.worker, duty := x.duty } := by
      rw [ThreadSystem.post, bound]
      rfl
    obtain ⟨q, hq, hd, hne, he⟩ :=
      post_withPost (q := { worker := { b.worker with provider }, duty := x.duty }) post hp rfl
    refine .inr ⟨q, hq, hd, .inl ?_⟩
    by_cases hc : c = false
    · subst hc
      cases post.symm.trans hp
      rw [he rfl]
    · rw [hne hc]
  | take bound empty => cases turns
  | seat has => cases turns
  | employ empty =>
    cases c with
    | true => cases empty.symm.trans hp
    | false => exact .inr ⟨p, hp, rfl, .inl rfl⟩
  | dismiss has =>
    cases c with
    | true =>
      cases has.symm.trans hp
      exact .inr ⟨_, rfl, rfl, .inr rfl⟩
    | false => exact .inr ⟨p, hp, rfl, .inl rfl⟩
  | retire has gone =>
    cases c with
    | true =>
      cases has.symm.trans hp
      exact .inl gone
    | false => exact .inr ⟨p, hp, rfl, .inl rfl⟩
  | _ => exact .inr ⟨p, hp, rfl, .inl rfl⟩

/-- The worker goes from the binding into the thread's hand, or from there to the binding. -/
theorem turned (h : x.Move i l put y) (turns : l.turns = true) {c : Bool} {p : Post π}
    (hp : x.post c = some p) :
    l.seats = true ∧ c = false ∨
      ∃ q, y.post (!c) = some q ∧ q.duty = p.duty ∧ q.worker.queue = p.worker.queue := by
  cases h with
  | take bound empty =>
    cases c with
    | true => cases empty.symm.trans hp
    | false =>
      rw [ThreadSystem.post, bound] at hp
      cases hp
      exact .inr ⟨_, rfl, rfl, rfl⟩
  | seat has =>
    cases c with
    | false => exact .inl ⟨rfl, rfl⟩
    | true =>
      cases has.symm.trans hp
      exact .inr ⟨_, rfl, rfl, rfl⟩
  | _ => cases turns

end ThreadSystem.Move

namespace BlockingSystem

variable {π : Type}

structure Quiet (t : BlockingSystem π) (b : Bool) (p : Post π) : Prop where
  drained : p.worker.queue.pending = []
  opened : p.worker.queue.closed = false
  kept : b = t.side → t.ousted = none

/-- A worker that is parked has nothing to do, or a thread is about to wake it. -/
structure Rests (t : BlockingSystem π) (b : Bool) (p : Post π) : Prop where
  idle : p.duty = .idle
  stays : b = t.side → t.ousted ≠ some true
  quiet : t.Quiet b p ∨ ∃ i, t.activity i = .wakes b

def Placed (t : BlockingSystem π) (i : Nat) : Activity π → Prop
  | .visits .. => ∀ l : Local π false, t.threads.inside.spot i ≠ some ⟨false, l⟩
  | .waits => t.threads.inside.spot i = none ∧ t.threads.due i ≠ []
  | .looks | .looking => t.threads.inside.spot i = none
  | .spawns report h => h.ReportsLoader report
  | _ => True

structure Sound (t : BlockingSystem π) : Prop where
  tracked : t.threads.JobsTracked
  resourcesFit : t.threads.ResourcesFit
  wanted : ∀ {ℓ a}, t.held ℓ = some a → t.want a = some ℓ
  apart : t.held .project ≠ none → t.threads.locked = none
  parked : ∀ b, t.parked b = true → ∃ p, t.station b = some p ∧ t.Rests b p
  placed : ∀ i, t.Placed i (t.activity i)
  ousting : t.ousted ≠ none →
    ∃ i, ∃ l : Local π true, t.threads.inside.spot i = some ⟨true, l⟩ ∧ l.seats = true

variable {t u : BlockingSystem π} {i : Nat} {alone b : Bool} {p q : Post π} {k : Lock}

/-- A worker that is awake and not seen off wants the lock of what it does next. -/
theorem want_worker_iff :
    t.want (.worker b) = some k ↔
      t.parked b = false ∧ (b = t.side → t.ousted ≠ some true) ∧
        ∃ p, t.station b = some p ∧ p.lock? b = some k := by
  simp only [want]
  split
  next h =>
    refine iff_of_false (by simp) ?_
    rintro ⟨ha, hs, -⟩
    rcases h with hp | ⟨hb, ho⟩
    · rw [ha] at hp
      cases hp
    · exact hs hb ho
  next h =>
    rw [not_or, not_and] at h
    rw [Option.bind_eq_some_iff]
    exact ⟨fun hp => ⟨by simpa using h.1, h.2, hp⟩, fun hp => hp.2.2⟩

theorem want_caller (he : u.activity i = t.activity i)
    (hs : u.threads.inside.spot i = t.threads.inside.spot i)
    (hl : ∀ s, t.threads.inside.spot i = some s → u.lock? s.2 = t.lock? s.2) :
    u.want (.caller i) = t.want (.caller i) := by
  simp only [want, he, hs]
  cases hc : t.threads.inside.spot i with
  | none => rfl
  | some s =>
    rw [Option.bind_some, Option.bind_some, hl s hc]

theorem lock?_eq (hb : u.threads.dispatcher.isBound = t.threads.dispatcher.isBound)
    (ho : u.ousted = none ↔ t.ousted = none) (hs : u.side = t.side) (l : Local π alone) :
    u.lock? l = t.lock? l := by
  unfold lock?
  rw [hb, hs]
  exact if_congr (by rw [ho]) rfl rfl

theorem lock?_false (l : Local π false) : t.lock? l = l.lock? t.side := by
  refine if_neg ?_
  rintro ⟨hs, -⟩
  obtain ⟨todo, rest⟩ := l
  cases todo with
  | cons e todo => cases hs
  | nil =>
    cases rest with
    | go r => cases r <;> cases hs
    | await job next => cases hs
    | query command next => cases hs

theorem Sound.want_steady {l : Local π alone} {put : Local π alone → Inside π} (h : t.Sound)
    (steady : t.activity i = .steady) (here : Inside.At i l t.threads.inside put) :
    t.want (.caller i) = t.lock? l := by
  simp only [want, steady, here.spot h.resourcesFit.distinct, Option.bind_some]

theorem want_outside (steady : t.activity i = .steady) (outside : t.threads.inside.Outside i) :
    t.want (.caller i) = none := by
  simp only [want, steady, Inside.spot_eq_none_iff.mpr outside, Option.bind_none]

theorem turns_false (l : Local π false) : l.turns = false := by
  obtain ⟨todo, rest⟩ := l
  cases todo with
  | cons e todo => rfl
  | nil =>
    cases rest with
    | go r => cases r <;> rfl
    | await job next => rfl
    | query command next => rfl

theorem freed_none : t.freed none = t.held := by
  funext k
  exact if_neg (by simp)

theorem of_freed {ℓ : Option Lock} {a : Agent} (h : t.freed ℓ k = some a) :
    ℓ ≠ some k ∧ t.held k = some a := by
  unfold freed at h
  split at h
  next => cases h
  next hn => exact ⟨hn, h⟩

/-- A worker that there was is at what it was at. If it had nothing to do, it has nothing to do
still, or thread `i` is about to wake it. -/
def Keeps (t : BlockingSystem π) (i : Nat) (u : BlockingSystem π) (b : Bool) (p : Post π) : Prop :=
  p.duty = .gone ∨ ∃ q, u.station b = some q ∧ q.duty = p.duty ∧
    (b = u.side → u.ousted ≠ some true) ∧ (t.Quiet b p → u.Quiet b q ∨ u.activity i = .wakes b)

/-- What a step of a calling thread keeps. -/
structure CallerPasses (t : BlockingSystem π) (i : Nat) (u : BlockingSystem π) : Prop where
  held : u.held = t.freed (t.want (.caller i))
  locked : u.threads.locked = none ∨ u.threads.locked = t.threads.locked ∨
    t.want (.caller i) = some .project
  activity : ∀ j, j ≠ i → u.activity j = t.activity j
  spot : ∀ j, j ≠ i → u.threads.inside.spot j = t.threads.inside.spot j
  lock : ∀ j, j ≠ i → ∀ s, t.threads.inside.spot j = some s → u.lock? s.2 = t.lock? s.2
  due : ∀ j, j ≠ i → u.threads.due j = t.threads.due j
  parked : ∀ b, u.parked b = true → t.parked b = true ∧ t.activity i ≠ .wakes b
  stations : ∀ b p, t.station b = some p → (b = t.side → t.ousted ≠ some true) → t.Keeps i u b p

/-- A step of a calling thread keeps the system sound if the thread itself stands soundly after it.
-/
theorem Sound.of_passes (h : t.Sound) (s : t.CallerPasses i u) (tracked : u.threads.JobsTracked)
    (resourcesFit : u.threads.ResourcesFit) (placed : u.Placed i (u.activity i))
    (ousting : u.ousted ≠ none →
      ∃ i, ∃ l : Local π true, u.threads.inside.spot i = some ⟨true, l⟩ ∧ l.seats = true) :
    u.Sound where
  tracked := tracked
  resourcesFit := resourcesFit
  wanted {k a} hk := by
    rw [s.held] at hk
    obtain ⟨hn, ha⟩ := of_freed hk
    have hw := h.wanted ha
    cases a with
    | caller j =>
      have hj : j ≠ i := by
        rintro rfl
        exact hn hw
      rw [want_caller (s.activity j hj) (s.spot j hj) (s.lock j hj)]
      exact hw
    | worker b =>
      obtain ⟨hp, hs, p, hpost, hl⟩ := want_worker_iff.mp hw
      rcases s.stations b p hpost hs with hg | ⟨q, hq, hd, hs', -⟩
      · rw [Post.lock?, hg] at hl
        cases hl
      · refine want_worker_iff.mpr ⟨?_, hs', q, hq, ?_⟩
        · by_contra hu
          rw [Bool.not_eq_false] at hu
          cases hp.symm.trans (s.parked b hu).1
        · rw [Post.lock?, hd]
          exact hl
  apart hp := by
    rcases s.locked with hl | hl | hl
    · exact hl
    · rw [hl]
      refine h.apart fun hn => hp ?_
      rw [s.held, freed, hn, ite_self]
    · refine absurd ?_ hp
      rw [s.held, hl]
      exact if_pos rfl
  parked b hb := by
    obtain ⟨ht, hr⟩ := s.parked b hb
    obtain ⟨p, hp, rests⟩ := h.parked b ht
    rcases s.stations b p hp rests.stays with hg | ⟨q, hq, hd, hs, hquiet⟩
    · cases rests.idle.symm.trans hg
    · refine ⟨q, hq, hd.trans rests.idle, hs, ?_⟩
      rcases rests.quiet with quiet | ⟨j, hj⟩
      · exact (hquiet quiet).imp_right fun he => ⟨i, he⟩
      · have hji : j ≠ i := by
          rintro rfl
          exact hr hj
        exact .inr ⟨j, (s.activity j hji).trans hj⟩
  placed j := by
    by_cases hj : j = i
    · exact hj ▸ placed
    · rw [s.activity j hj]
      have hp := h.placed j
      cases he : t.activity j with
      | waits =>
        rw [he] at hp
        exact ⟨(s.spot j hj).trans hp.1, fun hn => hp.2 ((s.due j hj).symm.trans hn)⟩
      | looks | looking =>
        rw [he] at hp
        exact (s.spot j hj).trans hp
      | visits first rest =>
        rw [he] at hp
        exact fun l hl => hp l ((s.spot j hj).symm.trans hl)
      | spawns report spawn =>
        rw [he] at hp
        exact hp
      | steady | wakes => trivial
  ousting := ousting

/-- A thread turns to something else, and that is all. -/
theorem Sound.withActivity (h : t.Sound) {e : Activity π} (idle : t.want (.caller i) = none)
    (wakes : ∀ b, t.activity i = .wakes b → t.parked b = false) (placed : t.Placed i e) :
    (t.withActivity i e).Sound := by
  have hi : (t.withActivity i e).activity i = e := Function.update_self ..
  refine h.of_passes (i := i) ?_ h.tracked h.resourcesFit ?_ h.ousting
  · refine ⟨?_, .inr (.inl rfl), fun j hj => Function.update_of_ne hj .., fun _ _ => rfl,
      fun _ _ _ _ => rfl, fun _ _ => rfl, fun b hb => ⟨hb, fun he => ?_⟩,
      fun b p hp hs => .inr ⟨p, hp, rfl, hs, fun quiet => .inl ⟨quiet.1, quiet.2, quiet.3⟩⟩⟩
    · rw [idle, freed_none]
      rfl
    · cases (wakes b he).symm.trans hb
  · rw [hi]
    exact placed

/-- What a step of a worker keeps. -/
structure WorkerPasses (t : BlockingSystem π) (b : Bool) (u : BlockingSystem π) : Prop where
  held : u.held = t.freed (t.want (.worker b))
  activity : u.activity = t.activity
  side : u.side = t.side
  inside : u.threads.inside = t.threads.inside
  due : u.threads.due = t.threads.due
  locked : u.threads.locked = t.threads.locked
  bound : u.threads.dispatcher.isBound = t.threads.dispatcher.isBound
  ousted : u.ousted = none ↔ t.ousted = none
  others : ∀ c, c ≠ b → u.station c = t.station c ∧ u.parked c = t.parked c ∧
    (c = t.side → u.ousted = t.ousted)

/-- A step of a worker keeps the system sound if the worker parks only when there is nothing to do.
-/
theorem Sound.of_works (h : t.Sound) (s : t.WorkerPasses b u) (tracked : u.threads.JobsTracked)
    (resourcesFit : u.threads.ResourcesFit)
    (parked : u.parked b = true → ∃ p, u.station b = some p ∧ u.Rests b p) : u.Sound where
  tracked := tracked
  resourcesFit := resourcesFit
  wanted {k a} hk := by
    rw [s.held] at hk
    obtain ⟨hn, ha⟩ := of_freed hk
    have hw := h.wanted ha
    cases a with
    | caller j =>
      rw [want_caller (congrFun s.activity j) (by rw [s.inside])
        fun _ _ => lock?_eq s.bound s.ousted s.side _]
      exact hw
    | worker c =>
      have hc : c ≠ b := by
        rintro rfl
        exact hn hw
      obtain ⟨hst, hp, ho⟩ := s.others c hc
      obtain ⟨ha, hs, hl⟩ := want_worker_iff.mp hw
      refine want_worker_iff.mpr ⟨hp.trans ha, fun he => ?_, hst ▸ hl⟩
      rw [s.side] at he
      rw [ho he]
      exact hs he
  apart hp := by
    rw [s.locked]
    refine h.apart fun hn => hp ?_
    rw [s.held, freed, hn, ite_self]
  parked c hc := by
    by_cases hb : c = b
    · subst hb
      exact parked hc
    · obtain ⟨hst, hp, ho⟩ := s.others c hb
      obtain ⟨p, hpost, rests⟩ := h.parked c (hp ▸ hc)
      refine ⟨p, hst.trans hpost, rests.idle, fun he => ?_, rests.quiet.imp (fun quiet => ?_) ?_⟩
      · rw [s.side] at he
        rw [ho he]
        exact rests.stays he
      · refine ⟨quiet.drained, quiet.opened, fun he => ?_⟩
        rw [s.side] at he
        rw [ho he]
        exact quiet.kept he
      · rw [s.activity]
        exact id
  placed j := by
    have hp := h.placed j
    rw [s.activity]
    cases he : t.activity j with
    | waits | looks | looking | visits =>
      rw [he] at hp
      simpa only [Placed, s.inside, s.due] using hp
    | spawns report spawn =>
      rw [he] at hp
      exact hp
    | steady | wakes => trivial
  ousting ho := by
    rw [s.inside]
    exact h.ousting fun hn => ho (s.ousted.mpr hn)

/-- A worker wakes up. -/
theorem Sound.awake (h : t.Sound) (b : Bool) :
    ({ t with parked := Function.update t.parked b false } : BlockingSystem π).Sound := by
  have hp : ∀ c, Function.update t.parked b false c = true → t.parked c = true ∧ c ≠ b := by
    intro c hc
    by_cases hcb : c = b
    · subst hcb
      rw [Function.update_self] at hc
      cases hc
    · rw [Function.update_of_ne hcb] at hc
      exact ⟨hc, hcb⟩
  refine ⟨h.tracked, h.resourcesFit, fun {k a} hk => ?_, h.apart, fun c hc => ?_,
    h.placed, h.ousting⟩
  · have hw := h.wanted hk
    cases a with
    | caller j => exact hw
    | worker c =>
      obtain ⟨ha, hs, hl⟩ := want_worker_iff.mp hw
      refine want_worker_iff.mpr ⟨?_, hs, hl⟩
      by_contra hc
      rw [Bool.not_eq_false] at hc
      cases ha.symm.trans (hp c hc).1
  · obtain ⟨p, hpost, rests⟩ := h.parked c (hp c hc).1
    exact ⟨p, hpost, rests.idle, rests.stays, rests.quiet.imp_left fun q => ⟨q.1, q.2, q.3⟩⟩

/-- Someone takes a lock that is free. -/
theorem Sound.grab (h : t.Sound) {a : Agent} {ℓ : Lock} (wants : t.want a = some ℓ)
    (unlocked : ℓ = .project → t.threads.locked = none) :
    ({ t with held := Function.update t.held ℓ (some a) } : BlockingSystem π).Sound := by
  refine ⟨h.tracked, h.resourcesFit, fun {k c} hk => ?_, fun hp => ?_, fun c hc => ?_, h.placed,
    h.ousting⟩
  · show t.want c = some k
    by_cases hkl : k = ℓ
    · subst hkl
      have hk : Function.update t.held k (some a) k = some c := hk
      rw [Function.update_self] at hk
      cases hk
      exact wants
    · have hk : Function.update t.held ℓ (some a) k = some c := hk
      rw [Function.update_of_ne hkl] at hk
      exact h.wanted hk
  · by_cases hl : ℓ = .project
    · exact unlocked hl
    · have hp : Function.update t.held ℓ (some a) .project ≠ none := hp
      rw [Function.update_of_ne (Ne.symm hl)] at hp
      exact h.apart hp
  · obtain ⟨p, hpost, rests⟩ := h.parked c hc
    exact ⟨p, hpost, rests.idle, rests.stays, rests.quiet.imp_left fun q => ⟨q.1, q.2, q.3⟩⟩

/-- Nobody who stands at a place where a worker is seated is done, or among others. -/
theorem Sound.ousted_none (h : t.Sound) {l : Local π alone} {put : Local π alone → Inside π}
    (here : Inside.At i l t.threads.inside put) (hl : l.seats = false) : t.ousted = none := by
  by_contra ho
  obtain ⟨j, m, hs, hm⟩ := h.ousting ho
  obtain ⟨_, there⟩ := Inside.at_of_spot hs
  have hi := here.spot h.resourcesFit.distinct
  by_cases hij : i = j
  · subst hij
    cases hi.symm.trans hs
    cases hl.symm.trans hm
  · cases hi.symm.trans (there.spot_of_ne hij)

/-- While the lock of the binding is shared no worker is being replaced. -/
theorem Sound.ousted_none_of_shared (h : t.Sound) (hx : t.threads.inside.isAlone = false) :
    t.ousted = none := by
  by_contra ho
  obtain ⟨j, m, hs, hm⟩ := h.ousting ho
  obtain ⟨_, there⟩ := Inside.at_of_spot hs
  cases hx.symm.trans there.isAlone

theorem station_eq (hp : ∀ c, u.threads.post c = t.threads.post c) (hs : u.side = t.side)
    (b : Bool) : u.station b = t.station b := by
  rw [station, station, hs, hp]

theorem keeps_of_same (hp : ∀ c, u.threads.post c = t.threads.post c) (hs : u.side = t.side)
    (ho : u.ousted = t.ousted) (b : Bool) (p : Post π) (h : t.station b = some p)
    (stays : b = t.side → t.ousted ≠ some true) : t.Keeps i u b p := by
  refine .inr ⟨p, (station_eq hp hs b).trans h, rfl, ?_, fun quiet => .inl ⟨quiet.1, quiet.2, ?_⟩⟩
  · rw [hs, ho]
    exact stays
  · rw [hs, ho]
    exact quiet.3

theorem Sound.start (options : Options) :
    ({ threads := { dispatcher := { options } } } : BlockingSystem π).Sound where
  tracked := .start options
  resourcesFit := .start options
  wanted hk := by cases hk
  apart _ := rfl
  parked b hb := by cases hb
  placed _ := trivial
  ousting ho := absurd rfl ho

theorem placed_after (l : Local π alone) (side : Bool) (report : Option (Except BindError π))
    (visits : alone = true → ∀ m : Local π false, t.threads.inside.spot i ≠ some ⟨false, m⟩) :
    t.Placed i (l.after side report) := by
  obtain ⟨todo, rest⟩ := l
  cases todo with
  | cons e todo => trivial
  | nil =>
    cases rest with
    | await job next => trivial
    | query command next => trivial
    | go r =>
      cases r with
      | notice n next =>
        cases alone with
        | false => trivial
        | true =>
          cases n with
          | phase phase =>
            cases phase <;> cases report <;>
              first | trivial | exact visits rfl | exact WorkerSpawn.ReportsLoader.loading
          | _ => trivial
      | _ => trivial

/-- A thread closes the queue of the worker that it is about to replace. -/
theorem Sound.oust (h : t.Sound) {l : Local π true} {put : Local π true → Inside π}
    (steady : t.activity i = .steady) (here : Inside.At i l t.threads.inside put)
    (seats : l.seats = true) (bound : t.threads.dispatcher.isBound = true)
    (fresh : t.ousted = none) :
    ({ t.withActivity i (.wakes t.side) with
      held := t.freed (some (.queue t.side))
      ousted := some false } : BlockingSystem π).Sound := by
  have he : (t.withActivity i (.wakes t.side)).activity i = .wakes t.side := Function.update_self ..
  have hw : t.want (.caller i) = some (.queue t.side) :=
    (h.want_steady steady here).trans (if_pos ⟨seats, bound, fresh⟩)
  refine h.of_passes (i := i) ?_ h.tracked h.resourcesFit ?_ fun _ => ?_
  · refine ⟨?_, .inr (.inl rfl), fun j hj => Function.update_of_ne hj .., fun _ _ => rfl,
      fun j hj s hs => ?_, fun _ _ => rfl, fun b hb => ⟨hb, by rw [steady]; rintro ⟨⟩⟩,
      fun b p hp stays => .inr ⟨p, hp, rfl, ?_, fun quiet => ?_⟩⟩
    · rw [hw]
    · cases (here.spot_of_ne hj).symm.trans hs
    · rintro - ⟨⟩
    · by_cases hb : b = t.side
      · refine .inr ?_
        show (t.withActivity i (.wakes t.side)).activity i = _
        rw [he, hb]
      · exact .inl ⟨quiet.drained, quiet.opened, fun hb' => absurd hb' hb⟩
  · show Placed _ i ((t.withActivity i (.wakes t.side)).activity i)
    rw [he]
    trivial
  · exact ⟨i, l, here.spot h.resourcesFit.distinct, seats⟩

theorem station_withPost (post : t.station b = some p) (c : Bool) :
    (t.threads.withPost (b != t.side) q).post (c != t.side) =
      if c = b then some q else t.station c := by
  by_cases hc : c = b
  · rw [if_pos hc, hc]
    exact ThreadSystem.post_withPost post q
  · rw [if_neg hc]
    have hn : (c != t.side) = !(b != t.side) := by
      cases b <;> cases c <;> cases t.side <;> first | rfl | exact absurd rfl hc
    rw [station, hn]
    exact ThreadSystem.JobsTracked.post_withPost_not ..

theorem want_worker (awake : t.parked b = false) (stays : b = t.side → t.ousted ≠ some true)
    (post : t.station b = some p) : t.want (.worker b) = p.lock? b := by
  have hn : ¬(t.parked b = true ∨ b = t.side ∧ t.ousted = some true) := by
    rintro (hp | ⟨hb, ho⟩)
    · cases awake.symm.trans hp
    · exact stays hb ho
  simp only [want, if_neg hn, post, Option.bind_some]

/-- A worker parks with its queue empty and open. -/
theorem Sound.park (h : t.Sound) (awake : t.parked b = false) (post : t.station b = some p)
    (idle : p.duty = .idle) (drained : p.worker.queue.pending = [])
    (opened : p.worker.queue.closed = false) (stays : b = t.side → t.ousted = none) :
    ({ t with
      parked := Function.update t.parked b true
      held := t.freed (some (.queue b)) } : BlockingSystem π).Sound := by
  have hs : b = t.side → t.ousted ≠ some true := fun hb => by rw [stays hb]; rintro ⟨⟩
  refine h.of_works (b := b) ?_ h.tracked h.resourcesFit fun _ => ?_
  · refine ⟨?_, rfl, rfl, rfl, rfl, rfl, rfl, Iff.rfl,
      fun c hc => ⟨rfl, Function.update_of_ne hc .., fun _ => rfl⟩⟩
    rw [want_worker awake hs post, Post.lock?, idle]
  · exact ⟨p, post, idle, hs, .inl ⟨drained, opened, stays⟩⟩

/-- The worker that is replaced leaves once it finds its queue closed. -/
theorem Sound.quit (h : t.Sound) (awake : t.parked t.side = false)
    (post : t.station t.side = some p) (idle : p.duty = .idle) (closed : t.ousted = some false) :
    ({ t with ousted := some true, held := t.freed (some (.queue t.side)) } :
      BlockingSystem π).Sound := by
  have hs : t.ousted ≠ some true := by rw [closed]; rintro ⟨⟩
  refine h.of_works (b := t.side) ?_ h.tracked h.resourcesFit fun hp => ?_
  · refine ⟨?_, rfl, rfl, rfl, rfl, rfl, rfl, ?_,
      fun c hc => ⟨rfl, rfl, fun hn => absurd hn hc⟩⟩
    · rw [want_worker awake (fun _ => hs) post, Post.lock?, idle]
    · rw [closed]
      exact iff_of_false (by rintro ⟨⟩) (by rintro ⟨⟩)
  · cases awake.symm.trans hp

variable [Provider π] {passing : Bool} {A : Operation π → Prop}

theorem Sound.enter (h : t.Sound) {s : Section π} {sections : List (Section π)} {inside : Inside π}
    {report : Option (Except BindError π)} (waits : t.activity i = .waits)
    (due : t.threads.due i = s :: sections)
    (admitted : Inside.Admits i (s.routine t.threads.dispatcher) t.threads.inside inside) :
    ({ t.withActivity i .steady with
      threads := { t.threads with due := Function.update t.threads.due i sections, inside }
      report } : BlockingSystem π).Sound := by
  have step : t.threads.Step (fun _ => True)
      { t.threads with due := Function.update t.threads.due i sections, inside } :=
    .enter due admitted
  have ho := h.ousted_none_of_shared admitted.isAlone.1
  refine h.of_passes (i := i) ?_ (h.tracked.step step) (h.resourcesFit.step h.tracked step) ?_
    fun hn => absurd ho hn
  · refine ⟨?_, .inr (.inl rfl), fun j hj => Function.update_of_ne hj ..,
      fun j hj => admitted.spot hj, fun _ _ _ _ => lock?_eq rfl Iff.rfl rfl _,
      fun j hj => Function.update_of_ne hj ..,
      fun b hb => ⟨hb, by rw [waits]; rintro ⟨⟩⟩,
      keeps_of_same (ThreadSystem.post_of_same rfl rfl rfl) rfl rfl⟩
    have hw : t.want (.caller i) = none := by simp only [want, waits]
    rw [hw, freed_none]
    rfl
  · have he : (t.withActivity i .steady).activity i = .steady := Function.update_self ..
    show Placed _ i ((t.withActivity i .steady).activity i)
    rw [he]
    trivial

theorem Sound.leave (h : t.Sound) {answer : Answer} {inside : Inside π}
    (steady : t.activity i = .steady) (empty : t.threads.hand = none)
    (left : Inside.Leaves i answer t.threads.inside inside) :
    ({ t with threads := t.threads.withInside inside } : BlockingSystem π).Sound := by
  have step : t.threads.Step (fun _ => True) (t.threads.withInside inside) := .leave empty left
  obtain ⟨alone, put, here⟩ := left.exists_at
  have ho := h.ousted_none here rfl
  refine h.of_passes (i := i) ?_ (h.tracked.step step) (h.resourcesFit.step h.tracked step) ?_
    fun hn => absurd ho hn
  · refine ⟨?_, .inr (.inl rfl), fun _ _ => rfl, fun j hj => left.spot hj,
      fun _ _ _ _ => lock?_eq rfl Iff.rfl rfl _, fun _ _ => rfl,
      fun b hb => ⟨hb, by rw [steady]; rintro ⟨⟩⟩,
      keeps_of_same (ThreadSystem.post_of_same rfl rfl rfl) rfl rfl⟩
    have hl : t.lock? ({ rest := .go (.done answer) } : Local π alone) = none :=
      if_neg (by rintro ⟨⟨⟩, -⟩)
    rw [h.want_steady steady here, hl, freed_none]
  · show Placed _ i (t.activity i)
    rw [steady]
    trivial

theorem Sound.call (h : t.Sound) {op : Operation π} (steady : t.activity i = .steady)
    (finished : t.threads.due i = []) (outside : t.threads.inside.Outside i) :
    ({ t with
      threads :=
        { t.threads with
          dispatcher := t.threads.dispatcher.accept op
          due := Function.update t.threads.due i op.sections } } : BlockingSystem π).Sound := by
  have hb := ThreadSystem.binding_accept t.threads.dispatcher op
  have step : t.threads.Step (fun _ => True)
      { t.threads with
        dispatcher := t.threads.dispatcher.accept op
        due := Function.update t.threads.due i op.sections } := .call trivial finished outside
  refine h.of_passes (i := i) ?_ (h.tracked.step step) (h.resourcesFit.step h.tracked step) ?_
    h.ousting
  · refine ⟨?_, .inr (.inl rfl), fun _ _ => rfl, fun _ _ => rfl,
      fun _ _ _ _ => lock?_eq ?_ ?_ ?_ _, fun j hj => Function.update_of_ne hj ..,
      fun b hb => ⟨hb, by rw [steady]; rintro ⟨⟩⟩,
      keeps_of_same (ThreadSystem.post_of_same hb rfl rfl) rfl rfl⟩
    · rw [want_outside steady outside, freed_none]
    · exact congrArg Option.isSome hb
    · exact Iff.rfl
    · rfl
  · show Placed _ i (t.activity i)
    rw [steady]
    trivial

/-- A thread's move keeps the workers: those that it does not turn stay on their sides, and the one
that is replaced has gone. -/
theorem keeps_of_move {l : Local π alone} {put : Local π alone → Inside π}
    (replaced : l.seats = true → t.threads.dispatcher.isBound = true → t.ousted = some true)
    (move : t.threads.Move i l put u.threads) (side : u.side = (t.side != l.turns))
    (ousted : u.ousted = none) (activity : u.activity i = l.after t.side t.report)
    (post : t.station b = some p) (stays : b = t.side → t.ousted ≠ some true) :
    t.Keeps i u b p := by
  cases ht : l.turns with
  | false =>
    rw [ht, Bool.bne_false] at side
    rcases move.posts ht t.side t.report post with hg | ⟨q, hq, hd, hquiet⟩
    · exact .inl hg
    · refine .inr ⟨q, ?_, hd, fun _ hn => ?_, fun quiet => ?_⟩
      · rw [station, side]
        exact hq
      · cases ousted.symm.trans hn
      · rcases hquiet with hqueue | hrings
        · exact .inl ⟨hqueue ▸ quiet.drained, hqueue ▸ quiet.opened, fun _ => ousted⟩
        · rw [activity, hrings]
          exact .inr (congrArg Activity.wakes (by cases b <;> cases t.side <;> rfl))
  | true =>
    rw [ht] at side
    rcases move.turned ht post with ⟨hs, hb⟩ | ⟨q, hq, hd, hqueue⟩
    · have hb : b = t.side := by simpa using hb
      refine absurd (replaced hs ?_) (stays hb)
      have hp : t.threads.post (b != t.side) = some p := post
      rw [hb, bne_self_eq_false] at hp
      obtain ⟨c, hc, -⟩ := Option.map_eq_some_iff.mp hp
      rw [Dispatcher.isBound, hc]
      rfl
    · refine .inr ⟨q, ?_, hd, fun _ hn => ?_, fun quiet => ?_⟩
      · rw [station, side, ← hq]
        exact congrArg u.threads.post (by cases b <;> cases t.side <;> rfl)
      · cases ousted.symm.trans hn
      · exact .inl ⟨hqueue ▸ quiet.drained, hqueue ▸ quiet.opened, fun _ => ousted⟩

/-- A move of the threads stays sound with the lock given back and the next one not taken yet. -/
theorem Sound.act (h : t.Sound) {l : Local π alone} {put : Local π alone → Inside π}
    {y : ThreadSystem π} (steady : t.activity i = .steady)
    (here : Inside.At i l t.threads.inside put)
    (replaced : l.seats = true → t.threads.dispatcher.isBound = true → t.ousted = some true)
    (move : t.threads.Move i l put y) :
    ({ t.withActivity i (l.after t.side t.report) with
      threads := y
      held := t.freed (l.lock? t.side)
      side := t.side != l.turns
      ousted := if l.seats then none else t.ousted } : BlockingSystem π).Sound := by
  have step : t.threads.Step (fun _ => True) y := .move here move
  obtain ⟨m, hm⟩ := move.inside
  have hl : t.lock? l = l.lock? t.side := by
    refine if_neg ?_
    rintro ⟨hs, hb, ho⟩
    cases (replaced hs hb).symm.trans ho
  have hw : t.want (.caller i) = l.lock? t.side := (h.want_steady steady here).trans hl
  have ho : (if l.seats then none else t.ousted) = none := by
    cases hs : l.seats with
    | true => rfl
    | false => simpa using h.ousted_none here hs
  have he : (t.withActivity i (l.after t.side t.report)).activity i = l.after t.side t.report :=
    Function.update_self ..
  refine h.of_passes (i := i) ?_ (h.tracked.step step) (h.resourcesFit.step h.tracked step) ?_
    fun hn => absurd ho hn
  · refine ⟨?_, ?_, fun j hj => Function.update_of_ne hj .., fun j hj => ?_, fun j hj s hs => ?_,
      fun j _ => ?_, fun b hb => ⟨hb, by rw [steady]; rintro ⟨⟩⟩, fun b p hp stays => ?_⟩
    · rw [hw]
    · rw [hw]
      exact move.locked t.side
    · show y.inside.spot j = _
      rw [hm, here.spot_put hj]
    · -- Only a thread that shares the lock has others beside it.
      cases alone with
      | true => cases (here.spot_of_ne hj).symm.trans hs
      | false =>
        obtain ⟨c, k⟩ := s
        obtain ⟨_, there⟩ := Inside.at_of_spot hs
        cases there.isAlone.symm.trans here.isAlone
        rw [lock?_false, lock?_false]
        show k.lock? (t.side != l.turns) = k.lock? t.side
        rw [turns_false, Bool.bne_false]
    · exact congrFun move.due j
    · exact keeps_of_move replaced move rfl ho he hp stays
  · show Placed _ i ((t.withActivity i (l.after t.side t.report)).activity i)
    rw [he]
    refine placed_after l _ _ fun ha k hk => ?_
    subst ha
    have hk : y.inside.spot i = some ⟨false, k⟩ := hk
    obtain ⟨_, there⟩ := Inside.at_of_spot hk
    rw [hm] at there
    cases (here.isAlone_put m).symm.trans there.isAlone

theorem Sound.work (h : t.Sound) {es : List Journal.Entry} {ran : Option (Command × Output)}
    {rs : List Ran} (awake : t.parked b = false) (stays : b = t.side → t.ousted ≠ some true)
    (post : t.station b = some p) (works : p.Works q es ran) :
    ({ t with
      threads := (t.threads.withPost (b != t.side) q).record es rs
      held := t.freed (p.lock? b) } : BlockingSystem π).Sound := by
  refine h.of_works (b := b) ?_ (h.tracked.work post works) (h.resourcesFit.work post works) ?_
  · refine ⟨?_, rfl, rfl, ThreadSystem.ResourcesFit.inside_withPost .., ?_,
      ThreadSystem.ResourcesFit.locked_withPost .., ?_, Iff.rfl, fun c hc =>
      ⟨?_, rfl, fun _ => rfl⟩⟩
    · rw [want_worker awake stays post]
    · cases b != t.side <;> rfl
    · cases b != t.side
      · exact Option.isSome_map
      · rfl
    · have hs := station_withPost (q := q) post c
      rw [if_neg hc] at hs
      exact hs
  · intro hp
    cases awake.symm.trans hp

/-- Going on keeps the system sound, whoever goes on. -/
theorem Sound.go (h : t.Sound) (goes : t.Go passing u) : u.Sound := by
  have rests : ∀ {i e}, t.activity i = e → (∀ b, e ≠ .wakes b) →
      ∀ b, t.activity i = .wakes b → t.parked b = false :=
    fun he hn b hb => absurd (he.symm.trans hb) (hn b)
  cases goes with
  | arrive steady due outside =>
    refine h.withActivity (want_outside steady outside) (rests steady (by rintro _ ⟨⟩)) ⟨?_, ?_⟩
    · exact Inside.spot_eq_none_iff.mpr outside
    · rw [due]
      rintro ⟨⟩
  | enter waits due admitted => exact h.enter waits due admitted
  | @see i looks shared =>
    have hp := h.placed i
    rw [looks] at hp
    exact h.withActivity (by simp only [want, looks]) (rests looks (by rintro _ ⟨⟩)) hp
  | away looking =>
    exact h.withActivity (by simp only [want, looking]) (rests looking (by rintro _ ⟨⟩)) trivial
  | grab wants free unlocked => exact h.grab wants unlocked
  | @visit i first rest visits has =>
    have he : (t.withActivity i (.next rest)).activity i = .next rest := Function.update_self ..
    refine h.of_passes (i := i) ?_ h.tracked h.resourcesFit ?_ h.ousting
    · refine ⟨?_, .inr (.inl rfl), fun j hj => Function.update_of_ne hj .., fun _ _ => rfl,
        fun _ _ _ _ => rfl, fun _ _ => rfl, fun b hb => ⟨hb, by rw [visits]; rintro ⟨⟩⟩,
        fun b p hp hs => .inr ⟨p, hp, rfl, hs, fun quiet => .inl ⟨quiet.1, quiet.2, quiet.3⟩⟩⟩
      have hw : t.want (.caller i) = some first := by simp only [want, visits]
      rw [hw]
    · show Placed _ i ((t.withActivity i (.next rest)).activity i)
      rw [he]
      cases rest with
      | nil => trivial
      | cons next rest =>
        have hp := h.placed i
        rw [visits] at hp
        exact hp
  | act steady here has replaced move => exact h.act steady here replaced move
  | oust steady here seats bound fresh has => exact h.oust steady here seats bound fresh
  | @wake i b wakes =>
    refine (h.awake b).withActivity ?_ (fun c hc => ?_) trivial
    · show t.want (.caller i) = none
      simp only [want, wakes]
    · cases wakes.symm.trans hc
      exact Function.update_self ..
  | @spawn i report spawn k spawns step =>
    have hp := h.placed i
    rw [spawns] at hp
    refine h.withActivity (by simp only [want, spawns]) (rests spawns (by rintro _ ⟨⟩)) ?_
    exact WorkerSpawn.ReportsLoader.step hp step
  | spawned spawns outcome =>
    exact h.withActivity (by simp only [want, spawns]) (rests spawns (by rintro _ ⟨⟩)) trivial
  | leave steady empty left => exact h.leave steady empty left
  | work awake stays post has works => exact h.work awake stays post works
  | park awake post idle drained opened stays has =>
    exact h.park awake post idle drained opened stays
  | quit awake post idle drained closed has => exact h.quit awake post idle closed

/-- Every step keeps the system sound, beginnings and stray awakenings among them. -/
theorem Sound.step (h : t.Sound) (s : t.Step A passing u) : u.Sound := by
  cases s with
  | go goes => exact h.go goes
  | begin begins =>
    have rests : ∀ {i}, t.activity i = .steady →
        ∀ b, t.activity i = .wakes b → t.parked b = false :=
      fun he b hb => by cases he.symm.trans hb
    cases begins with
    | call may steady finished outside => exact h.call steady finished outside
    | peek mutex steady finished outside =>
      refine h.withActivity (want_outside steady outside) (rests steady) fun l hl => ?_
      cases (Inside.spot_eq_none_iff.mpr outside).symm.trans hl
    | look steady finished outside =>
      exact h.withActivity (want_outside steady outside) (rests steady)
        (Inside.spot_eq_none_iff.mpr outside)
    | stray => exact h.awake _

/-- Whatever the threads do, the system stays sound. -/
theorem Sound.reaches (h : t.Sound) (r : t.Reaches A passing u) : u.Sound := by
  induction r with
  | refl => exact h
  | tail _ s ih => exact ih.step s

end BlockingSystem

end SccDispatch
