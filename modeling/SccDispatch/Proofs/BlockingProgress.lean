import SccDispatch.Proofs.Sections
import SccDispatch.Proofs.BlockingInvariants

namespace SccDispatch

theorem Journal.Entry.lock?_ne_project (e : Journal.Entry) : e.lock? ≠ some .project := by
  cases e <;> rintro ⟨⟩

theorem Post.lock?_ne_project {π : Type} (b : Bool) (p : Post π) : p.lock? b ≠ some .project := by
  unfold Post.lock?
  split
  next => rintro ⟨⟩
  next e _ _ => exact e.lock?_ne_project
  next => rintro ⟨⟩

theorem Inside.At.leaves {π : Type} {alone : Bool} {i : Nat} {answer : Answer} {x : Inside π}
    {put : Local π alone → Inside π} (h : At i { rest := .go (.done answer) } x put) :
    ∃ y, Inside.Leaves i answer x y := by
  cases h with
  | shared => exact ⟨_, .shared⟩
  | alone => exact ⟨_, .alone⟩

theorem Inside.outside_iff {π : Type} {x : Inside π} {i : Nat} : x.Outside i ↔ i ∉ x.ids := by
  cases x with
  | shared visitors => exact Iff.rfl
  | alone j l => simp [Outside, ids]

theorem Inside.eq_empty {π : Type} {x : Inside π} (h : ∀ i, x.spot i = none) : x = .shared [] := by
  cases x with
  | shared visitors =>
    cases visitors with
    | nil => rfl
    | cons v visitors =>
      have hv := h v.1
      simp [Inside.spot] at hv
  | alone i l =>
    have hi := h i
    simp [Inside.spot] at hi

/-- Only a thread that has the lock alone seats a worker. -/
theorem Local.alone_of_seats {π : Type} {alone : Bool} {l : Local π alone} (h : l.seats = true) :
    alone = true := by
  obtain ⟨todo, rest⟩ := l
  cases todo with
  | cons e todo => cases h
  | nil =>
    cases rest with
    | go r => cases r <;> first | rfl | cases h
    | await job next => cases h
    | query command next => cases h

theorem Local.lock?_of_seats {π : Type} {alone : Bool} {l : Local π alone} (h : l.seats = true)
    (side : Bool) : l.lock? side = none := by
  obtain ⟨todo, rest⟩ := l
  cases todo with
  | cons e todo => cases h
  | nil =>
    cases rest with
    | go r => cases r <;> first | rfl | cases h
    | await job next => cases h
    | query command next => cases h

/-- Only a thread that does not have the lock of the open project takes it. -/
theorem Local.unlocked_of_lock? {π : Type} {alone : Bool} {l : Local π alone} {side : Bool}
    (h : l.lock? side = some .project) {g : Resources} (fits : l.rest.Fits g) :
    g.locked = false := by
  obtain ⟨todo, rest⟩ := l
  cases todo with
  | cons e todo => exact absurd h e.lock?_ne_project
  | nil =>
    cases rest with
    | go r =>
      cases r with
      | lock next => exact fits.1
      | notice n next => cases n <;> cases h
      | _ => cases h
    | await job next => cases h
    | query command next => cases h

namespace BlockingSystem

variable {π : Type} [Provider π] {passing : Bool} {A : Operation π → Prop} {t : BlockingSystem π}
  {i : Nat} {alone b : Bool} {p : Post π} {l : Local π alone} {put : Local π alone → Inside π}

/-- A thread that has the lock for its next move can make it. -/
theorem Sound.exists_move (h : t.Sound) (here : Inside.At i l t.threads.inside put) {ℓ : Lock}
    (hl : l.lock? t.side = some ℓ) (unlocked : ℓ = .project → t.threads.locked = none) :
    ∃ y, t.threads.Move i l put y := by
  have fits := here.every h.resourcesFit.fits
  obtain ⟨todo, rest⟩ := l
  cases todo with
  | cons e todo => exact ⟨_, .write⟩
  | nil =>
    cases rest with
    | await job next => cases hl
    | query command next => cases hl
    | go r =>
      cases r with
      | notice n next => exact ⟨_, .notice⟩
      | ask command next =>
        obtain ⟨p, hp, ho⟩ := h.resourcesFit.post fits.1
        exact ⟨_, .submit hp (Worker.submit_of_open ho command)⟩
      | select p next => exact ⟨_, .select⟩
      | lock next =>
        cases hl
        exact ⟨_, .lock (unlocked rfl)⟩
      | dismiss next =>
        obtain ⟨p, hp, -⟩ := Option.map_eq_some_iff.mp fits.1
        exact ⟨_, .dismiss hp⟩
      | _ => cases hl

/-- A thread that has a lock for a moment can go on. -/
theorem Sound.caller_goes (h : t.Sound) {ℓ : Lock} (has : t.held ℓ = some (.caller i)) :
    ∃ u, t.Go passing u := by
  have hw := h.wanted has
  cases he : t.activity i with
  | visits first rest =>
    simp only [want, he, Option.some.injEq] at hw
    subst hw
    exact ⟨_, .visit he has⟩
  | steady =>
    simp only [want, he, Option.bind_eq_some_iff] at hw
    obtain ⟨⟨alone, l⟩, hs, hl⟩ := hw
    obtain ⟨put, here⟩ := Inside.at_of_spot hs
    unfold lock? at hl
    split at hl
    next hc =>
      obtain ⟨seats, bound, fresh⟩ := hc
      cases hl
      cases Local.alone_of_seats seats
      exact ⟨_, .oust he here seats bound fresh has⟩
    next =>
      have unlocked : ℓ = .project → t.threads.locked = none := fun hp =>
        h.apart fun hn => by cases hn.symm.trans (hp ▸ has)
      obtain ⟨y, move⟩ := h.exists_move here hl unlocked
      refine ⟨_, .act he here (fun k hk => ?_) (fun seats => ?_) move⟩
      · cases hl.symm.trans hk
        exact has
      · cases (Local.lock?_of_seats seats t.side).symm.trans hl
  | _ => simp [want, he] at hw

theorem Sound.worker_goes (h : t.Sound) {ℓ : Lock} (has : t.held ℓ = some (.worker b)) :
    ∃ u, t.Go passing u := by
  obtain ⟨awake, stays, p, post, hl⟩ := want_worker_iff.mp (h.wanted has)
  have all : ∀ k, p.lock? b = some k → t.held k = some (.worker b) := fun k hk => by
    cases hl.symm.trans hk
    exact has
  cases hd : p.duty with
  | idle =>
    simp only [Post.lock?, hd, Option.some.injEq] at hl
    subst hl
    cases hp : p.worker.queue.pending with
    | cons job pending => exact ⟨_, .work awake stays post all (.take hd hp)⟩
    | nil =>
      cases hc : p.worker.queue.closed with
      | true => exact ⟨_, .work awake stays post all (.leave hd hp hc)⟩
      | false =>
        by_cases ho : b = t.side → t.ousted = none
        · exact ⟨_, .park awake post hd hp hc ho has⟩
        · obtain ⟨hb, hn⟩ := Classical.not_imp.mp ho
          subst hb
          cases hs : t.ousted with
          | none => exact absurd hs hn
          | some gone =>
            cases gone with
            | true => exact absurd hs (stays rfl)
            | false => exact ⟨_, .quit awake post hd hp hs has⟩
  | taken job => simp [Post.lock?, hd] at hl
  | books job out todo =>
    cases todo with
    | nil => simp [Post.lock?, hd] at hl
    | cons e todo => exact ⟨_, .work awake stays post all (.write hd)⟩
  | gone => simp [Post.lock?, hd] at hl

omit [Provider π] in
theorem station_post (c : Bool) : t.station (c != t.side) = t.threads.post c := by
  unfold station
  congr 1
  cases c <;> cases t.side <;> rfl

section Free

variable (free : ∀ ℓ, t.held ℓ = none)

include free

/-- A worker that is awake goes on. -/
theorem Sound.awake_goes (awake : t.parked b = false)
    (stays : b = t.side → t.ousted ≠ some true) (post : t.station b = some p)
    (present : p.duty ≠ .gone) : ∃ u, t.Go passing u := by
  cases hl : p.lock? b with
  | some ℓ =>
    refine ⟨_, .grab (a := .worker b) ((want_worker awake stays post).trans hl) (free ℓ) ?_⟩
    rintro rfl
    exact absurd hl (p.lock?_ne_project b)
  | none =>
    have has : ∀ k, p.lock? b = some k → t.held k = some (.worker b) := fun k hk => by
      cases hl.symm.trans hk
    cases hd : p.duty with
    | idle => simp [Post.lock?, hd] at hl
    | taken job => exact ⟨_, .work awake stays post has (.run hd rfl)⟩
    | books job out todo =>
      cases todo with
      | nil => exact ⟨_, .work awake stays post has (.answer hd)⟩
      | cons e todo => exact ⟨_, .work awake stays post has (.write hd)⟩
    | gone => exact absurd hd present

variable (h : t.Sound) (silent : ∀ j b, t.activity j ≠ .wakes b)

include h silent

/-- A worker that has something to do goes on. -/
theorem Sound.busy_goes (stays : b = t.side → t.ousted ≠ some true)
    (post : t.station b = some p) (present : p.duty ≠ .gone)
    (busy : p.duty = .idle → ¬ t.Quiet b p) : ∃ u, t.Go passing u := by
  cases hp : t.parked b with
  | false => exact Sound.awake_goes free hp stays post present
  | true =>
    obtain ⟨q, hq, rests⟩ := h.parked b hp
    cases post.symm.trans hq
    rcases rests.quiet with quiet | ⟨j, hj⟩
    · exact absurd quiet (busy rests.idle)
    · exact absurd hj (silent j b)

/-- The worker goes on for which a thread waits, unless the output is there. -/
theorem Sound.awaited_goes {todo : List Journal.Entry} {job : Job}
    {next : Except DispatchError Output → Routine π alone}
    (here : Inside.At i { todo, rest := .await job next } t.threads.inside put)
    (post : t.threads.post alone = some p)
    (missing : job.ticket ∉ p.worker.answers.map Prod.fst) : ∃ u, t.Go passing u := by
  have hf := h.tracked.mem_flight here (if_pos rfl) post
  have pending : p.duty.taken? = none → p.duty.booked? = none → p.worker.queue.pending ≠ [] := by
    intro ht hb hp
    refine missing ?_
    simpa [Post.flight, Post.undone, Post.outs, ht, hb, hp] using hf
  refine Sound.busy_goes free h silent (b := alone != t.side) ?_
    ((station_post alone).trans post) (fun hg => ?_) fun hd quiet => ?_
  · intro hb
    cases alone with
    | false =>
      rw [h.ousted_none_of_shared here.isAlone]
      rintro ⟨⟩
    | true => cases hs : t.side <;> rw [hs] at hb <;> cases hb
  · refine pending ?_ ?_ ((h.tracked.sound post).gone hg).1 <;> rw [hg] <;> rfl
  · refine pending ?_ ?_ quiet.drained <;> rw [hd] <;> rfl

/-- A worker that is to be seen off goes. -/
theorem Sound.dismissed_goes
    (post : t.threads.post b = some p) (present : p.duty ≠ .gone)
    (stays : b = false → t.ousted ≠ some true)
    (closed : p.worker.queue.closed = true ∨ b = false ∧ t.ousted ≠ none) :
    ∃ u, t.Go passing u := by
  refine Sound.busy_goes free h silent (b := b != t.side) (fun hb => stays ?_)
    ((station_post b).trans post) present fun _ quiet => ?_
  · cases b <;> cases hs : t.side <;> rw [hs] at hb <;> first | rfl | cases hb
  · rcases closed with hc | ⟨rfl, ho⟩
    · cases hc.symm.trans quiet.opened
    · exact ho (quiet.kept (by cases t.side <;> rfl))

/-- A provider is bound, unless the worker of the one before has yet to see that it goes. -/
theorem Sound.seat_goes {info : ProviderInfo} {window : Window} {concurrent : Bool}
    {next : Routine π true} {put : Local π true → Inside π} (steady : t.activity i = .steady)
    (here : Inside.At i { rest := .go (.seat info window concurrent next) } t.threads.inside put)
    (unheld : t.lock? { rest := .go (.seat info window concurrent next) } = none) :
    ∃ u, t.Go passing u := by
  obtain ⟨p, hp, -⟩ := Option.map_eq_some_iff.mp (here.every h.resourcesFit.fits).1
  have gone : t.ousted = some true ∨ t.threads.dispatcher.isBound = false → ∃ u, t.Go passing u :=
    fun ho => ⟨_, .act steady here (by rintro ℓ ⟨⟩)
      (fun _ hb => ho.resolve_right fun hn => by cases hn.symm.trans hb) (.seat hp)⟩
  cases hb : t.threads.dispatcher.binding with
  | none => exact gone (.inr (by rw [Dispatcher.isBound, hb]; rfl))
  | some c =>
    have bound : t.threads.dispatcher.isBound = true := by rw [Dispatcher.isBound, hb]; rfl
    cases ho : t.ousted with
    | none =>
      unfold lock? at unheld
      rw [if_pos ⟨rfl, bound, ho⟩] at unheld
      cases unheld
    | some done =>
      cases done with
      | true => exact gone (.inl ho)
      | false =>
        have post : t.threads.post false = some { worker := c.worker, duty := t.threads.duty } := by
          rw [ThreadSystem.post, hb]
          rfl
        refine Sound.dismissed_goes free h silent post (fun hg => ?_)
          (fun _ => by rw [ho]; rintro ⟨⟩) (.inr ⟨rfl, by rw [ho]; rintro ⟨⟩⟩)
        cases (h.resourcesFit.opened c hb).symm.trans ((h.tracked.sound post).gone hg).2

/-- A thread that has the lock of the binding goes on, or the worker does that it waits for. -/
theorem Sound.inside_goes (steady : t.activity i = .steady)
    (here : Inside.At i l t.threads.inside put)
    (unlocked : l.lock? t.side = some .project → t.threads.locked = none) :
    ∃ u, t.Go passing u := by
  have fits := here.every h.resourcesFit.fits
  have hw := h.want_steady steady here
  cases hl : t.lock? l with
  | some ℓ =>
    refine ⟨_, .grab (a := .caller i) (hw.trans hl) (free ℓ) fun hp => unlocked ?_⟩
    subst hp
    unfold lock? at hl
    split at hl
    next => cases hl
    next => exact hl
  | none =>
    have hn : l.lock? t.side = none := by
      unfold lock? at hl
      split at hl
      next => cases hl
      next => exact hl
    have has : ∀ ℓ, l.lock? t.side = some ℓ → t.held ℓ = some (.caller i) := fun ℓ hk => by
      cases hn.symm.trans hk
    have act : l.seats = false → ∀ {y}, t.threads.Move i l put y → ∃ u, t.Go passing u :=
      fun hs _ move => ⟨_, .act steady here has (fun seats => by cases hs.symm.trans seats) move⟩
    obtain ⟨todo, rest⟩ := l
    cases todo with
    | cons e todo => exact act rfl .write
    | nil =>
      cases rest with
      | await job next =>
        obtain ⟨p, hp, -⟩ := h.resourcesFit.post fits.1
        by_cases hm : job.ticket ∈ p.worker.answers.map Prod.fst
        · exact act rfl (.collect hp (.inl hm))
        · exact Sound.awaited_goes free h silent here hp hm
      | query command next =>
        obtain ⟨shared, bound, -⟩ := fits
        subst shared
        obtain ⟨b, hb⟩ := Option.isSome_iff_exists.mp bound
        obtain ⟨out, provider, hr⟩ : ∃ out provider,
            execute b.worker.provider .caller false command = (out, provider) := ⟨_, _, rfl⟩
        exact act rfl (.visit hb hr)
      | go r =>
        cases r with
        | done answer =>
          obtain ⟨y, left⟩ := here.leaves
          exact ⟨_, .leave steady (Option.map_eq_none_iff.mp fits.1) left⟩
        | notice n next => exact act rfl .notice
        | ask command next => cases hn
        | query command next => exact act rfl .ask
        | select p next => cases hn
        | lock next => cases hn
        | unlock project next =>
          exact act rfl (.unlock (by simpa [ThreadSystem.resources] using fits.1))
        | take next =>
          obtain ⟨b, hb⟩ := Option.isSome_iff_exists.mp fits.1.1
          exact act rfl (.take hb (Option.map_eq_none_iff.mp fits.1.2))
        | employ provider next => exact act rfl (.employ (Option.map_eq_none_iff.mp fits.1))
        | seat info window concurrent next => exact Sound.seat_goes free h silent steady here hl
        | dismiss next => cases hn
        | retire thread next =>
          obtain ⟨p, hp, hc⟩ := Option.map_eq_some_iff.mp fits.1
          by_cases hg : p.duty = .gone
          · exact act rfl (.retire hp hg)
          · exact Sound.dismissed_goes free h silent (b := true) hp hg
              (by rintro ⟨⟩) (.inl (by simpa using hc))

omit h silent in
/-- A visit that is due takes place, unless it is to the open project while that is locked. -/
theorem visits_goes {first : Lock} {rest : List Lock} (visits : t.activity i = .visits first rest)
    (unlocked : first = .project → t.threads.locked = none) : ∃ u, t.Go passing u := by
  have wants : t.want (.caller i) = some first := by simp only [want, visits]
  exact ⟨_, .grab wants (free first) unlocked⟩

/-- A thread in a section goes on unless another one has the open project locked. -/
theorem Sound.section_goes (trusted : ∀ j report spawn, t.activity j ≠ .spawns report spawn)
    {s : (alone : Bool) × Local π alone} (spot : t.threads.inside.spot i = some s)
    (first : ∀ k, t.threads.locked = some k → k = i) : ∃ u, t.Go passing u := by
  obtain ⟨alone, l⟩ := s
  obtain ⟨put, here⟩ := Inside.at_of_spot spot
  have placed := h.placed i
  cases hi : t.activity i with
  | steady =>
    refine Sound.inside_goes free h silent hi here fun hl => ?_
    have mine := Local.unlocked_of_lock? hl (here.every h.resourcesFit.fits)
    cases hk : t.threads.locked with
    | none => rfl
    | some k =>
      rw [first k hk] at hk
      simp [ThreadSystem.resources, hk] at mine
  | visits k rest =>
    rw [hi] at placed
    refine visits_goes free hi fun _ => h.resourcesFit.unlocked ?_
    rw [here.isAlone]
    cases alone with
    | true => rfl
    | false => exact absurd spot (placed l)
  | wakes b => exact absurd hi (silent i b)
  | spawns report spawn => exact absurd hi (trusted i report spawn)
  | waits =>
    rw [hi] at placed
    cases placed.1.symm.trans spot
  | looks | looking =>
    rw [hi] at placed
    cases placed.symm.trans spot

end Free

/-- Somebody gets the lock of the binding when nobody has it. -/
theorem Sound.entrance_goes (h : t.Sound) (empty : t.threads.inside = .shared [])
    (unseen : ∀ j, t.activity j ≠ .looking)
    (waits : t.activity i = .waits ∨ t.activity i = .looks) : ∃ u, t.Go passing u := by
  by_cases writers : t.WriterWaits
  · obtain ⟨j, s, sections, hj, due, alone⟩ := writers
    obtain ⟨put, admitted, -, -⟩ := Inside.exists_at j (s.routine t.threads.dispatcher)
    rw [← empty] at admitted
    exact ⟨_, .enter hj due admitted (fun _ => unseen) fun hs => by cases alone.symm.trans hs⟩
  · have pass : t.MayPass passing := .inr writers
    rcases waits with hi | hi
    · have placed := h.placed i
      rw [hi] at placed
      obtain ⟨s, sections, due⟩ := List.exists_cons_of_ne_nil placed.2
      obtain ⟨put, admitted, -, -⟩ := Inside.exists_at i (s.routine t.threads.dispatcher)
      rw [← empty] at admitted
      exact ⟨_, .enter hi due admitted (fun _ => unseen) fun _ => pass⟩
    · exact ⟨_, .see hi (by rw [empty]; rfl) pass⟩

/-- A thread in a call goes on, or one gets the lock of the binding, when no thread is in a
section. -/
theorem Sound.outside_goes (h : t.Sound) (free : ∀ ℓ, t.held ℓ = none)
    (silent : ∀ j b, t.activity j ≠ .wakes b)
    (trusted : ∀ j report spawn, t.activity j ≠ .spawns report spawn)
    (unseen : ∀ j, t.activity j ≠ .looking) (unlocked : t.threads.locked = none)
    (outside : ∀ j, t.threads.inside.spot j = none) (busy : t.Busy i) : ∃ u, t.Go passing u := by
  have empty := Inside.eq_empty outside
  cases hi : t.activity i with
  | steady =>
    rcases busy with hd | hn | he
    · obtain ⟨s, sections, due⟩ := List.exists_cons_of_ne_nil hd
      exact ⟨_, .arrive hi due (Inside.spot_eq_none_iff.mp (outside i))⟩
    · exact absurd (Inside.spot_eq_none_iff.mp (outside i)) hn
    · exact absurd hi he
  | visits first rest => exact visits_goes free hi fun _ => unlocked
  | wakes b => exact absurd hi (silent i b)
  | spawns report spawn => exact absurd hi (trusted i report spawn)
  | waits => exact h.entrance_goes empty unseen (.inl hi)
  | looks => exact h.entrance_goes empty unseen (.inr hi)
  | looking => exact absurd hi (unseen i)

/-- Where a thread is in a call, someone goes on. -/
theorem Sound.exists_go (h : t.Sound) (busy : t.Busy i) : ∃ u, t.Go passing u := by
  by_cases holding : ∃ ℓ a, t.held ℓ = some a
  · obtain ⟨ℓ, a, has⟩ := holding
    cases a with
    | caller j => exact h.caller_goes has
    | worker b => exact h.worker_goes has
  have free : ∀ ℓ, t.held ℓ = none := fun ℓ =>
    Option.eq_none_iff_forall_ne_some.mpr fun a ha => holding ⟨ℓ, a, ha⟩
  by_cases ringing : ∃ j b, t.activity j = .wakes b
  · obtain ⟨j, b, hj⟩ := ringing
    exact ⟨_, .wake hj⟩
  have silent : ∀ j b, t.activity j ≠ .wakes b := fun j b hj => ringing ⟨j, b, hj⟩
  by_cases hiring : ∃ j report spawn, t.activity j = .spawns report spawn
  · obtain ⟨j, report, spawn, hj⟩ := hiring
    have reports := h.placed j
    rw [hj] at reports
    cases ho : spawn.outcome with
    | some r => exact ⟨_, .spawned hj ho⟩
    | none =>
      obtain ⟨k, step⟩ := WorkerSpawn.ReportsLoader.exists_step reports ho
      exact ⟨_, .spawn hj step⟩
  have trusted : ∀ j report spawn, t.activity j ≠ .spawns report spawn :=
    fun j report spawn hj => hiring ⟨j, report, spawn, hj⟩
  by_cases looking : ∃ j, t.activity j = .looking
  · obtain ⟨j, hj⟩ := looking
    exact ⟨_, .away hj⟩
  have unseen : ∀ j, t.activity j ≠ .looking := fun j hj => looking ⟨j, hj⟩
  cases hl : t.threads.locked with
  | some k =>
    obtain ⟨-, hk⟩ := h.resourcesFit.holder k hl
    cases hs : t.threads.inside.spot k with
    | none => exact absurd hk (Inside.outside_iff.mp (Inside.spot_eq_none_iff.mp hs))
    | some s =>
      refine Sound.section_goes free h silent trusted hs fun j hj => ?_
      cases hl.symm.trans hj
      rfl
  | none =>
    by_cases inside : ∃ j s, t.threads.inside.spot j = some s
    · obtain ⟨j, s, hs⟩ := inside
      exact Sound.section_goes free h silent trusted hs fun k hk => by cases hl.symm.trans hk
    · have outside : ∀ j, t.threads.inside.spot j = none := fun j =>
        Option.eq_none_iff_forall_ne_some.mpr fun s hs => inside ⟨j, s, hs⟩
      exact h.outside_goes free silent trusted unseen hl outside busy

/-- However the calls of any number of threads are interleaved, whatever the provider does and
whether or not readers pass writers that wait: as long as a thread is in a call, someone goes on. -/
theorem never_stuck {options : Options}
    (h : ({ threads := { dispatcher := { options } } } : BlockingSystem π).Reaches A passing t)
    (busy : t.Busy i) : ∃ u, t.Go passing u :=
  ((Sound.start options).reaches h).exists_go busy

section Queued

open Rehearsal

/-- A thread waits for the lock of the binding behind one that needs to have it alone. -/
theorem never_stuck_queued :
    ∃ t : BlockingSystem Scripted,
      ({ threads := { dispatcher := { options := {} } } } : BlockingSystem Scripted).Reaches
          (fun _ => True) false t ∧
        t.WriterWaits ∧ t.activity 1 = .waits ∧ ∃ u, t.Go false u := by
  have h := Relation.ReflTransGen.refl (r := Step (fun _ : Operation Scripted => True) false)
    (a := ({ threads := { dispatcher := { options := {} } } } : BlockingSystem Scripted))
  have h := h.tail (.begin (@Begin.call _ _ _ 0 (.bind "only" SectionSystem.willing .none)
    trivial rfl rfl List.not_mem_nil))
  have h := h.tail (.begin (@Begin.call _ _ _ 1 .closeProject trivial rfl rfl List.not_mem_nil))
  have h := h.tail (.go (.arrive (i := 0) rfl rfl List.not_mem_nil))
  have h := h.tail (.go (.arrive (i := 1) rfl rfl List.not_mem_nil))
  have busy := never_stuck (i := 1) h (.inr (.inr (by rintro ⟨⟩)))
  exact ⟨_, h, ⟨0, .release, _, rfl, rfl, rfl⟩, rfl, busy⟩

end Queued

end BlockingSystem

end SccDispatch
