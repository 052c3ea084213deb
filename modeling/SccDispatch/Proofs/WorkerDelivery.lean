import Mathlib.Data.List.Nodup
import SccDispatch.Proofs.SharedWorker

namespace SccDispatch

namespace SharedWorker

variable {π : Type} [Provider π]

/-- What has happened before a mark is made. -/
def Due (p : π) (shares : Bool) (before : List Mark) : Mark → Prop
  | .accepted _ _ => .closed ∉ before
  | .refused _ _ e => .closed ∈ before ∧ e = .notRunning
  | .taken job =>
    answeredJobs before = takenJobs before ∧ takenJobs before ++ [job] <+: acceptedJobs before
  | .ran job out =>
    takenJobs before = ranJobs before ++ [job] ∧
      out = (execute (providerAfter shares p before) .worker shares job.command).1
  | .answered job out => ranJobs before = answeredJobs before ++ [job] ∧ .ran job out ∈ before
  | .returned caller job result =>
    .accepted caller job ∈ before ∧ job ∉ returnedJobs before ∧
      ∃ out, .answered job out ∈ before ∧ result = .ok out
  | .gone => .closed ∈ before ∧ answeredJobs before = acceptedJobs before
  | .closed | .visited _ _ => True

/-- The past, the job in the worker's hands and the queue make one line of jobs. -/
structure JobsInOrder (p : π) (shares : Bool) (x : SharedWorker π) : Prop where
  accepted : acceptedJobs x.past = answeredJobs x.past ++ (x.stage.held ++ x.worker.queue.pending)
  taken : takenJobs x.past = answeredJobs x.past ++ x.stage.held
  ran : ranJobs x.past = answeredJobs x.past ++ x.stage.finished
  tickets : (acceptedJobs x.past).map Job.ticket = List.range x.worker.issued
  closed : .closed ∈ x.past ↔ x.worker.queue.closed = true
  drained : x.stage = .gone → x.worker.queue.closed = true ∧ x.worker.queue.pending = []
  provider : x.worker.provider = providerAfter shares p x.past
  shares : x.worker.shares = shares
  marked : ∀ job out, x.stage = .ran job out → .ran job out ∈ x.past

/-- Outputs are kept for the threads that wait for them. -/
structure Kept (x : SharedWorker π) : Prop where
  answers : ∀ t out, (t, out) ∈ x.worker.answers →
    ∃ job : Job, job.ticket = t ∧ .answered job out ∈ x.past
  awaited : ∀ i job, x.awaited i = some job →
    .accepted i job ∈ x.past ∧ job ∉ returnedJobs x.past ∧
      ∀ out, .answered job out ∈ x.past → (job.ticket, out) ∈ x.worker.answers
  calls : ∀ i job, .accepted i job ∈ x.past →
    x.awaited i = some job ∨ ∃ r, .returned i job r ∈ x.past
  returned : ∀ job ∈ returnedJobs x.past, job ∈ acceptedJobs x.past

theorem forall_split_concat {α : Type} {P : List α → α → Prop} {past : List α} {m : α}
    (h : ∀ before a after, past = before ++ a :: after → P before a) (hm : P past m) :
    ∀ before a after, past ++ [m] = before ++ a :: after → P before a := by
  intro before a after he
  rcases List.eq_nil_or_concat after with rfl | ⟨rest, b, rfl⟩
  · obtain ⟨rfl, h'⟩ := List.append_inj' he rfl
    cases h'
    exact hm
  · have he' : past ++ [m] = (before ++ a :: rest) ++ [b] := by simpa using he
    exact h before a rest (List.append_inj' he' rfl).1

section Invariant

variable {p : π} {shares : Bool} {x : SharedWorker π}

theorem jobsInOrder_start (p : π) (shares : Bool) : JobsInOrder p shares (start p shares) where
  accepted := rfl
  taken := rfl
  ran := rfl
  tickets := rfl
  closed := by simp [start, Queue.empty]
  drained h := by cases h
  provider := rfl
  shares := rfl
  marked _ _ h := by cases h

omit [Provider π] in
theorem kept_start (p : π) (shares : Bool) : Kept (start p shares) where
  answers _ _ h := by simp [start] at h
  awaited _ _ h := by cases h
  calls _ _ h := by simp [start] at h
  returned _ h := by simp [start, returnedJobs] at h

/-- A mark that tells nothing of the worker's jobs leaves the line as it is. -/
theorem JobsInOrder.concat {y : SharedWorker π} {m : Mark} (h : JobsInOrder p shares x)
    (hp : y.past = x.past ++ [m]) (hs : y.stage = x.stage)
    (hq : y.worker.queue.pending = x.worker.queue.pending)
    (hi : y.worker.issued = x.worker.issued) (hsh : y.worker.shares = x.worker.shares)
    (hma : m.accepted? = none) (hmt : m.taken? = none) (hmr : m.ran? = none)
    (hmd : m.answered? = none) (hc : .closed ∈ x.past ++ [m] ↔ y.worker.queue.closed = true)
    (hpr : y.worker.provider = providerNext shares x.worker.provider m) :
    JobsInOrder p shares y where
  accepted := by
    simpa only [hp, hs, hq, acceptedJobs_concat, answeredJobs_concat, hma, hmd, Option.toList_none,
      List.map_nil, List.append_nil] using h.accepted
  taken := by
    simpa only [hp, hs, takenJobs_concat, answeredJobs_concat, hmt, hmd, Option.toList_none,
      List.append_nil] using h.taken
  ran := by
    simpa only [hp, hs, ranJobs_concat, answeredJobs_concat, hmr, hmd, Option.toList_none,
      List.append_nil] using h.ran
  tickets := by
    simpa only [hp, hi, acceptedJobs_concat, hma, Option.toList_none, List.map_nil,
      List.append_nil] using h.tickets
  closed := by rw [hp, hc]
  drained hg := by
    obtain ⟨hxc, hxq⟩ := h.drained (hs ▸ hg)
    exact ⟨hc.mp (List.mem_append_left _ (h.closed.mpr hxc)), hq.trans hxq⟩
  provider := by rw [hpr, hp, h.provider, providerAfter_concat]
  shares := hsh.trans h.shares
  marked job out hr := by
    rw [hp]
    exact List.mem_append_left _ (h.marked job out (hs ▸ hr))

omit [Provider π] in
/-- So does one that tells nothing of callers and outputs. -/
theorem Kept.concat {y : SharedWorker π} {m : Mark} (h : Kept x) (hp : y.past = x.past ++ [m])
    (ha : y.worker.answers = x.worker.answers) (hw : y.awaited = x.awaited)
    (hma : m.accepted? = none) (hmd : m.answered? = none) (hmr : m.returned? = none) : Kept y := by
  have hacc : ∀ i job, .accepted i job ∈ y.past ↔ .accepted i job ∈ x.past := by
    intro i job
    rw [← mem_acceptances, ← mem_acceptances, hp, acceptances_concat, hma, Option.toList_none,
      List.append_nil]
  have hans : ∀ job out, .answered job out ∈ y.past ↔ .answered job out ∈ x.past := by
    intro job out
    have hne : Mark.answered job out ≠ m := by rintro rfl; simp at hmd
    simp [hp, hne]
  have hret : returnedJobs y.past = returnedJobs x.past := by
    rw [hp, returnedJobs_concat, hmr, Option.toList_none, List.append_nil]
  refine ⟨?_, ?_, ?_, ?_⟩
  · intro t out ht
    obtain ⟨job, hj, hm⟩ := h.answers t out (ha ▸ ht)
    exact ⟨job, hj, (hans job out).mpr hm⟩
  · intro i job hi
    obtain ⟨h1, h2, h3⟩ := h.awaited i job (hw ▸ hi)
    exact ⟨(hacc i job).mpr h1, hret ▸ h2, fun out ho => ha ▸ h3 out ((hans job out).mp ho)⟩
  · intro i job hi
    rcases h.calls i job ((hacc i job).mp hi) with h1 | ⟨r, h1⟩
    · exact .inl (hw ▸ h1)
    · exact .inr ⟨r, hp ▸ List.mem_append_left _ h1⟩
  · intro job hj
    obtain ⟨i, hi⟩ := mem_acceptedJobs.mp (h.returned job (hret ▸ hj))
    exact mem_acceptedJobs.mpr ⟨i, (hacc i job).mpr hi⟩

theorem JobsInOrder.close (h : JobsInOrder p shares x) : JobsInOrder p shares x.close :=
  h.concat rfl rfl rfl rfl rfl rfl rfl rfl rfl
  (by simp [SharedWorker.close, Worker.close, Queue.close]) rfl

theorem JobsInOrder.visit (h : JobsInOrder p shares x) (command : Command) :
    JobsInOrder p shares (x.visit command) :=
  h.concat rfl rfl rfl rfl rfl rfl rfl rfl rfl (by simpa [SharedWorker.visit] using h.closed) rfl

/-- A job that is accepted stands last in the line. -/
theorem JobsInOrder.submit (h : JobsInOrder p shares x) (i : Nat) (command : Command) :
    JobsInOrder p shares (x.submit i command) := by
  cases hc : x.worker.queue.closed with
  | true =>
    rw [submit_of_closed hc]
    exact h.concat rfl rfl rfl rfl rfl rfl rfl rfl rfl (by simpa using h.closed) rfl
  | false =>
    rw [submit_of_open hc]
    exact
      { accepted := by simp [h.accepted]
        taken := by simpa using h.taken
        ran := by simpa using h.ran
        tickets := by simpa [List.range_succ] using h.tickets
        closed := by simpa using h.closed
        drained := fun hg => absurd (h.drained hg).1 (by simp [hc])
        provider := by simpa using h.provider
        shares := h.shares
        marked := fun job out hr => by simpa using h.marked job out hr }

theorem JobsInOrder.collect (h : JobsInOrder p shares x) {job : Job} {out : Output}
    (hm : (job.ticket, out) ∈ x.worker.answers) (i : Nat) :
    JobsInOrder p shares (x.collect i job) := by
  obtain ⟨found, -, he⟩ := collect_of_mem hm i
  rw [he]
  exact h.concat rfl rfl rfl rfl rfl rfl rfl rfl rfl (by simpa using h.closed) rfl

/-- The worker takes the first job that is waiting. -/
theorem JobsInOrder.take (h : JobsInOrder p shares x) (hs : x.stage = .idle) :
    JobsInOrder p shares x.take := by
  have hl := h.accepted
  have ht := h.taken
  have hr := h.ran
  simp only [hs, Stage.held, Stage.finished, List.append_nil, List.nil_append] at hl ht hr
  cases hp : x.worker.queue.pending with
  | cons job rest =>
    rw [take_of_cons hp]
    exact
      { accepted := by simp [hl, hp]
        taken := by simp [ht]
        ran := by simp [hr]
        tickets := by simpa using h.tickets
        closed := by simpa using h.closed
        drained := by simp
        provider := by simpa using h.provider
        shares := h.shares
        marked := by simp }
  | nil =>
    cases hc : x.worker.queue.closed with
    | true =>
      rw [take_of_closed hp hc]
      exact
        { accepted := by simp [hl, hp]
          taken := by simp [ht]
          ran := by simp [hr]
          tickets := by simpa using h.tickets
          closed := by simpa using h.closed
          drained := fun _ => ⟨hc, hp⟩
          provider := by simpa using h.provider
          shares := h.shares
          marked := by simp }
    | false =>
      rw [take_of_open hp hc]
      exact h

theorem JobsInOrder.perform (h : JobsInOrder p shares x) {job : Job} (hs : x.stage = .taken job) :
    JobsInOrder p shares (x.perform job) := by
  have hl := h.accepted
  have ht := h.taken
  have hr := h.ran
  simp only [hs, Stage.held, Stage.finished, List.append_nil] at hl ht hr
  exact
    { accepted := by simp [SharedWorker.perform, hl]
      taken := by simp [SharedWorker.perform, ht]
      ran := by simp [SharedWorker.perform, hr]
      tickets := by simpa [SharedWorker.perform] using h.tickets
      closed := by simpa [SharedWorker.perform] using h.closed
      drained := by simp [SharedWorker.perform]
      provider := by simp [SharedWorker.perform, h.provider, h.shares]
      shares := h.shares
      marked := by simp [SharedWorker.perform] }

theorem JobsInOrder.answer (h : JobsInOrder p shares x) {job : Job} {out : Output}
    (hs : x.stage = .ran job out) : JobsInOrder p shares (x.answer job out) := by
  have hl := h.accepted
  have ht := h.taken
  have hr := h.ran
  simp only [hs, Stage.held, Stage.finished] at hl ht hr
  exact
    { accepted := by simp [SharedWorker.answer, hl]
      taken := by simp [SharedWorker.answer, ht]
      ran := by simp [SharedWorker.answer, hr]
      tickets := by simpa [SharedWorker.answer] using h.tickets
      closed := by simpa [SharedWorker.answer] using h.closed
      drained := by simp [SharedWorker.answer]
      provider := by simpa [SharedWorker.answer] using h.provider
      shares := h.shares
      marked := by simp [SharedWorker.answer] }

/-- Whatever the worker does keeps the jobs in order. -/
theorem JobsInOrder.work (h : JobsInOrder p shares x) : JobsInOrder p shares x.work := by
  unfold SharedWorker.work
  split
  next hs => exact h.take hs
  next hs => exact h.perform hs
  next hs => exact h.answer hs
  next => exact h

/-- Jobs with one ticket are one job of one caller. -/
theorem JobsInOrder.acceptance_unique (h : JobsInOrder p shares x) {i j : Nat} {a b : Job}
    (ha : .accepted i a ∈ x.past) (hb : .accepted j b ∈ x.past) (ht : a.ticket = b.ticket) :
    i = j ∧ a = b := by
  have hn : ((acceptances x.past).map fun e => e.2.ticket).Nodup := by
    have he := h.tickets
    rw [acceptedJobs, List.map_map] at he
    exact he ▸ List.nodup_range
  have he := List.inj_on_of_nodup_map hn (mem_acceptances.mpr ha) (mem_acceptances.mpr hb) ht
  exact Prod.mk.inj he

theorem JobsInOrder.ticket_lt (h : JobsInOrder p shares x) {job : Job}
    (hj : job ∈ acceptedJobs x.past) : job.ticket < x.worker.issued := by
  have hm : job.ticket ∈ (acceptedJobs x.past).map Job.ticket := List.mem_map_of_mem hj
  rw [h.tickets] at hm
  exact List.mem_range.mp hm

theorem JobsInOrder.answered_accepted (h : JobsInOrder p shares x) {job : Job} {out : Output}
    (ha : .answered job out ∈ x.past) : job ∈ acceptedJobs x.past := by
  rw [h.accepted]
  exact List.mem_append_left _ (mem_answeredJobs.mpr ⟨out, ha⟩)

/-- A thread that need not wait any longer finds the output it waits for. -/
theorem exists_answer (hl : JobsInOrder p shares x) (hk : Kept x) {i : Nat} {job : Job}
    (hi : x.awaited i = some job) (hs : x.settled job = true) :
    ∃ out, (job.ticket, out) ∈ x.worker.answers := by
  unfold settled at hs
  rcases Bool.or_eq_true_iff.mp hs with ha | hg
  · obtain ⟨⟨t, out⟩, hm, ht⟩ := List.any_eq_true.mp ha
    have : t = job.ticket := by simpa using ht
    exact ⟨out, this ▸ hm⟩
  · -- the worker has left, so its queue is drained and every job is answered
    have hg : x.stage = .gone := by simpa using hg
    have he := hl.accepted
    simp only [hg, Stage.held, (hl.drained hg).2, List.append_nil] at he
    obtain ⟨hacc, -, hkept⟩ := hk.awaited i job hi
    have hj : job ∈ answeredJobs x.past := he ▸ mem_acceptedJobs.mpr ⟨i, hacc⟩
    obtain ⟨out, ho⟩ := mem_answeredJobs.mp hj
    exact ⟨out, hkept out ho⟩

theorem Kept.submit (hl : JobsInOrder p shares x) (h : Kept x) {i : Nat} (hi : x.awaited i = none)
    (command : Command) : Kept (x.submit i command) := by
  cases hc : x.worker.queue.closed with
  | true =>
    rw [submit_of_closed hc]
    exact h.concat rfl rfl rfl rfl rfl rfl
  | false =>
    -- no output and no return bears the new ticket yet
    have hnew : ⟨x.worker.issued, command⟩ ∉ acceptedJobs x.past :=
      fun hj => absurd (hl.ticket_lt hj) (Nat.lt_irrefl _)
    rw [submit_of_open hc]
    refine ⟨fun t out ht => by simpa using h.answers t out ht, ?_, ?_, ?_⟩
    · intro j job hj
      by_cases hij : j = i
      · subst hij
        obtain rfl : ⟨x.worker.issued, command⟩ = job := by simpa using hj
        refine ⟨by simp, fun hr => hnew (h.returned _ (by simpa using hr)), ?_⟩
        intro out ho
        have ho : .answered ⟨x.worker.issued, command⟩ out ∈ x.past := by simpa using ho
        exact absurd (hl.answered_accepted ho) hnew
      · have hj : x.awaited j = some job := by simpa [hij] using hj
        obtain ⟨ha, hr, hk⟩ := h.awaited j job hj
        exact ⟨by simp [ha], by simpa using hr, by simpa using hk⟩
    · intro j job hj
      have hj : .accepted j job ∈ x.past ∨ j = i ∧ job = ⟨x.worker.issued, command⟩ := by
        simpa using hj
      rcases hj with hj | ⟨rfl, rfl⟩
      · rcases h.calls j job hj with hw | ⟨r, hr⟩
        · have hij : j ≠ i := by rintro rfl; simp [hi] at hw
          exact .inl (by simpa [hij] using hw)
        · exact .inr ⟨r, by simp [hr]⟩
      · exact .inl (by simp)
    · intro job hj
      have hj := h.returned job (by simpa using hj)
      simp [hj]

theorem Kept.collect (hl : JobsInOrder p shares x) (h : Kept x) {i : Nat} {job : Job}
    (hi : x.awaited i = some job) {out : Output} (hm : (job.ticket, out) ∈ x.worker.answers) :
    Kept (x.collect i job) := by
  obtain ⟨found, -, he⟩ := collect_of_mem hm i
  obtain ⟨hacc, -, -⟩ := h.awaited i job hi
  rw [he]
  refine ⟨?_, ?_, ?_, ?_⟩
  · intro t out ht
    have ht : (t, out) ∈ x.worker.answers := (List.mem_filter.mp ht).1
    simpa using h.answers t out ht
  · intro j other hj
    have hij : j ≠ i := by rintro rfl; simp at hj
    have hj : x.awaited j = some other := by simpa [hij] using hj
    obtain ⟨ha, hr, hk⟩ := h.awaited j other hj
    have hne : other.ticket ≠ job.ticket :=
      fun ht => hij (hl.acceptance_unique ha hacc ht).1
    refine ⟨by simpa using ha, ?_, ?_⟩
    · have : other ≠ job := fun e => hne (congrArg Job.ticket e)
      simpa [this] using hr
    · intro o ho
      have ho := hk o (by simpa using ho)
      simpa [hne] using ho
  · intro j other hj
    by_cases hij : j = i
    · subst hij
      rcases h.calls j other (by simpa using hj) with hw | ⟨r, hr⟩
      · obtain rfl : job = other := Option.some.inj (hi.symm.trans hw)
        exact .inr ⟨.ok found, by simp⟩
      · exact .inr ⟨r, by simp [hr]⟩
    · rcases h.calls j other (by simpa using hj) with hw | ⟨r, hr⟩
      · exact .inl (by simpa [hij] using hw)
      · exact .inr ⟨r, by simp [hr]⟩
  · intro other ho
    have ho : other ∈ returnedJobs x.past ∨ other = job := by simpa using ho
    rcases ho with ho | rfl
    · simpa using h.returned other ho
    · simpa using mem_acceptedJobs.mpr ⟨i, hacc⟩

omit [Provider π] in
theorem Kept.take (h : Kept x) : Kept x.take := by
  cases hp : x.worker.queue.pending with
  | cons job rest =>
    rw [take_of_cons hp]
    exact h.concat rfl rfl rfl rfl rfl rfl
  | nil =>
    cases hc : x.worker.queue.closed with
    | true =>
      rw [take_of_closed hp hc]
      exact h.concat rfl rfl rfl rfl rfl rfl
    | false =>
      rw [take_of_open hp hc]
      exact h

omit [Provider π] in
theorem Kept.answer (h : Kept x) (job : Job) (out : Output) : Kept (x.answer job out) := by
  unfold SharedWorker.answer
  refine ⟨?_, ?_, ?_, ?_⟩
  · intro t o ht
    have ht : (t, o) ∈ x.worker.answers ∨ t = job.ticket ∧ o = out := by simpa using ht
    rcases ht with ht | ⟨rfl, rfl⟩
    · obtain ⟨a, hat, ha⟩ := h.answers t o ht
      exact ⟨a, hat, by simp [ha]⟩
    · exact ⟨job, rfl, by simp⟩
  · intro i a hi
    obtain ⟨ha, hr, hk⟩ := h.awaited i a hi
    refine ⟨by simpa using ha, by simpa using hr, fun o ho => ?_⟩
    have ho : .answered a o ∈ x.past ∨ a = job ∧ o = out := by simpa using ho
    rcases ho with ho | ⟨rfl, rfl⟩
    · simp [hk o ho]
    · simp
  · intro i a hi
    simpa using h.calls i a (by simpa using hi)
  · intro a ha
    simpa using h.returned a (by simpa using ha)

theorem Kept.work (h : Kept x) : Kept x.work := by
  unfold SharedWorker.work
  split
  next => exact h.take
  next => exact h.concat rfl rfl rfl rfl rfl rfl
  next => exact h.answer _ _
  next => exact h

/-- What a move can come to; a thread that gets its result finds an output there. -/
theorem step_cases {P : SharedWorker π → Prop} (hl : JobsInOrder p shares x) (hk : Kept x)
    (mv : Move) (stays : P x) (submit : ∀ i command, x.awaited i = none → P (x.submit i command))
    (collect : ∀ i job out, x.awaited i = some job → (job.ticket, out) ∈ x.worker.answers →
      P (x.collect i job))
    (work : P x.work) (close : P x.close) (visit : ∀ command, P (x.visit command)) :
    P (x.step mv) := by
  cases mv with
  | submit i command =>
    cases hi : x.awaited i with
    | none => simpa only [step, hi] using submit i command hi
    | some _ => simpa only [step, hi] using stays
  | collect i =>
    cases hi : x.awaited i with
    | none => simpa only [step, hi] using stays
    | some job =>
      by_cases hs : x.settled job = true
      · obtain ⟨out, hm⟩ := exists_answer hl hk hi hs
        simpa only [step, hi, if_pos hs] using collect i job out hi hm
      · simpa only [step, hi, if_neg hs] using stays
  | work => exact work
  | close => exact close
  | visit command => exact visit command

theorem jobsInOrder_step (hl : JobsInOrder p shares x) (hk : Kept x) (mv : Move) :
    JobsInOrder p shares (x.step mv) := by
  apply step_cases hl hk mv
  · exact hl
  · exact fun i command _ => hl.submit i command
  · exact fun i job out _ hm => hl.collect hm i
  · exact hl.work
  · exact hl.close
  · exact hl.visit

theorem kept_step (hl : JobsInOrder p shares x) (hk : Kept x) (mv : Move) : Kept (x.step mv) := by
  apply step_cases hl hk mv
  · exact hk
  · exact fun i command hi => hk.submit hl hi command
  · exact fun i job out hi hm => hk.collect hl hi hm
  · exact hk.work
  · exact hk.concat rfl rfl rfl rfl rfl rfl
  · exact fun command => hk.concat rfl rfl rfl rfl rfl rfl

/-- A move adds at most one mark, and that one is due. -/
def AddsDue (p : π) (shares : Bool) (x y : SharedWorker π) : Prop :=
  y.past = x.past ∨ ∃ m, y.past = x.past ++ [m] ∧ Due p shares x.past m

theorem addsDue_submit (hl : JobsInOrder p shares x) (i : Nat) (command : Command) :
    AddsDue p shares x (x.submit i command) := by
  cases hc : x.worker.queue.closed with
  | true =>
    rw [submit_of_closed hc]
    exact .inr ⟨_, rfl, hl.closed.mpr hc, rfl⟩
  | false =>
    rw [submit_of_open hc]
    have hn : Mark.closed ∉ x.past := fun hm => by simp [hl.closed.mp hm] at hc
    exact .inr ⟨_, rfl, hn⟩

theorem addsDue_collect (hl : JobsInOrder p shares x) (hk : Kept x) {i : Nat} {job : Job}
    (hi : x.awaited i = some job) {out : Output} (hm : (job.ticket, out) ∈ x.worker.answers) :
    AddsDue p shares x (x.collect i job) := by
  obtain ⟨found, hf, he⟩ := collect_of_mem hm i
  obtain ⟨hacc, hret, -⟩ := hk.awaited i job hi
  obtain ⟨other, ht, hans⟩ := hk.answers _ found hf
  obtain ⟨j, hj⟩ := mem_acceptedJobs.mp (hl.answered_accepted hans)
  obtain ⟨-, rfl⟩ := hl.acceptance_unique hj hacc ht
  rw [he]
  exact .inr ⟨_, rfl, hacc, hret, found, hans, rfl⟩

theorem addsDue_take (hl : JobsInOrder p shares x) (hs : x.stage = .idle) :
    AddsDue p shares x x.take := by
  have ha := hl.accepted
  have ht := hl.taken
  simp only [hs, Stage.held, List.append_nil, List.nil_append] at ha ht
  cases hp : x.worker.queue.pending with
  | cons job rest =>
    rw [take_of_cons hp]
    refine .inr ⟨_, rfl, ht.symm, rest, ?_⟩
    rw [ha, ht, hp, List.append_assoc, List.singleton_append]
  | nil =>
    cases hc : x.worker.queue.closed with
    | true =>
      rw [take_of_closed hp hc]
      exact .inr ⟨_, rfl, hl.closed.mpr hc, by rw [ha, hp, List.append_nil]⟩
    | false =>
      rw [take_of_open hp hc]
      exact .inl rfl

theorem addsDue_work (hl : JobsInOrder p shares x) : AddsDue p shares x x.work := by
  have ht := hl.taken
  have hr := hl.ran
  unfold SharedWorker.work
  split
  next hs => exact addsDue_take hl hs
  next job hs =>
    simp only [hs, Stage.held, Stage.finished, List.append_nil] at ht hr
    refine .inr ⟨.ran job (execute x.worker.provider .worker x.worker.shares job.command).1, rfl,
      hr ▸ ht, ?_⟩
    rw [hl.provider, hl.shares]
  next job out hs =>
    simp only [hs, Stage.finished] at hr
    exact .inr ⟨_, rfl, hr, hl.marked job out hs⟩
  next => exact .inl rfl

/-- Every move adds only what is due. -/
theorem addsDue_step (hl : JobsInOrder p shares x) (hk : Kept x) (mv : Move) :
    AddsDue p shares x (x.step mv) := by
  apply step_cases hl hk mv
  · exact .inl rfl
  · exact fun i command _ => addsDue_submit hl i command
  · exact fun i job out hi hm => addsDue_collect hl hk hi hm
  · exact addsDue_work hl
  · exact .inr ⟨_, rfl, trivial⟩
  · exact fun command => .inr ⟨_, rfl, trivial⟩

/-- The moves of the worker are counted by the jobs it is done with and the one in its hands. -/
theorem JobsInOrder.workMoves_eq (h : JobsInOrder p shares x) :
    workMoves x.past =
      3 * (answeredJobs x.past).length + (x.stage.held.length + x.stage.finished.length) := by
  unfold workMoves
  rw [h.taken, h.ran, List.length_append, List.length_append]
  omega

/-- The worker is done with a job after three moves for it and for each job before it. -/
theorem JobsInOrder.answered_of_workMoves (h : JobsInOrder p shares x) {job : Job}
    (hj : job ∈ acceptedJobs x.past) (hw : 3 * (job.ticket + 1) ≤ workMoves x.past) :
    job ∈ answeredJobs x.past := by
  have hs : x.stage.held.length + x.stage.finished.length ≤ 2 := by cases x.stage <;> simp
  rw [h.workMoves_eq] at hw
  obtain ⟨k, hk, he⟩ := List.mem_iff_getElem.mp hj
  have ht : job.ticket = k := by
    have hg : ((acceptedJobs x.past).map Job.ticket)[k]? = some job.ticket := by simp [hk, he]
    rw [h.tickets] at hg
    obtain ⟨hb, hv⟩ := List.getElem?_eq_some_iff.mp hg
    simpa using hv.symm
  have hb : k < (answeredJobs x.past).length := by omega
  have hx : (answeredJobs x.past)[k] = job := by
    rw [← he]
    simp only [h.accepted, List.getElem_append_left hb]
  exact hx ▸ List.getElem_mem hb

/-- Jobs are run in the order in which they were accepted. -/
theorem JobsInOrder.ran_prefix (h : JobsInOrder p shares x) :
    ranJobs x.past <+: acceptedJobs x.past := by
  have hf : x.stage.finished <+: x.stage.held := by cases x.stage <;> simp
  rw [h.ran, h.accepted]
  exact (List.prefix_append_right_inj _).mpr (hf.trans (List.prefix_append _ _))

/-- A worker that is gone has run and answered all of them. -/
theorem JobsInOrder.all_done (h : JobsInOrder p shares x) (hs : x.stage = .gone) :
    ranJobs x.past = acceptedJobs x.past ∧ answeredJobs x.past = acceptedJobs x.past := by
  have ha := h.accepted
  have hr := h.ran
  simp only [hs, (h.drained hs).2, Stage.held, Stage.finished, List.append_nil] at ha hr
  exact ⟨hr.trans ha.symm, ha.symm⟩

/-- As long as an accepted job is not answered, the worker has something to do. -/
theorem JobsInOrder.work_moves (h : JobsInOrder p shares x) {job : Job}
    (hj : job ∈ acceptedJobs x.past) (hn : job ∉ answeredJobs x.past) :
    workMoves x.work.past = workMoves x.past + 1 := by
  have ha := h.accepted
  unfold SharedWorker.work
  cases hs : x.stage with
  | idle =>
    cases hp : x.worker.queue.pending with
    | nil =>
      simp only [hs, hp, Stage.held, List.append_nil] at ha
      exact absurd (ha ▸ hj) hn
    | cons first rest =>
      simp only [take_of_cons hp, workMoves]
      simp
      omega
  | taken first => simp [SharedWorker.perform, workMoves]; omega
  | ran first out => simp [SharedWorker.answer, workMoves]; omega
  | gone =>
    simp only [hs, (h.drained hs).2, Stage.held, List.append_nil] at ha
    exact absurd (ha ▸ hj) hn

/-- A thread whose job is answered gets that answer. -/
theorem collect_of_answered (hl : JobsInOrder p shares x) (hk : Kept x) {i : Nat} {job : Job}
    (hi : x.awaited i = some job) (hj : job ∈ answeredJobs x.past) :
    ∃ out, .answered job out ∈ x.past ∧
      (x.step (.collect i)).past = x.past ++ [.returned i job (.ok out)] := by
  obtain ⟨out, ho⟩ := mem_answeredJobs.mp hj
  have hm := (hk.awaited i job hi).2.2 out ho
  have hs : x.settled job = true := by
    unfold settled
    rw [List.any_eq_true.mpr ⟨_, hm, by simp⟩, Bool.true_or]
  have he : x.step (.collect i) = x.collect i job := by simp [step, hi, hs]
  obtain ⟨found, -, hc⟩ := collect_of_mem hm i
  rcases addsDue_collect hl hk hi hm with hd | ⟨m, hd, hdue⟩
  · simp [hc] at hd
  · obtain rfl : .returned i job (.ok found) = m := by simpa [hc] using hd
    obtain ⟨-, -, o, ha, ho⟩ := hdue
    cases ho
    exact ⟨found, ha, he ▸ hd⟩

/-- By induction all three hold after any schedule. -/
theorem play_invariant {schedule : List Move} (hl : JobsInOrder p shares x) (hk : Kept x)
    (hd : ∀ before m after, x.past = before ++ m :: after → Due p shares before m) :
    JobsInOrder p shares (x.play schedule) ∧ Kept (x.play schedule) ∧
      ∀ before m after, (x.play schedule).past = before ++ m :: after → Due p shares before m := by
  induction schedule generalizing x with
  | nil => exact ⟨hl, hk, hd⟩
  | cons mv rest ih =>
    -- A move adds at the end of the past, so every other mark has the same marks before it.
    apply ih (jobsInOrder_step hl hk mv) (kept_step hl hk mv)
    rcases addsDue_step hl hk mv with he | ⟨m, he, hm⟩
    · rw [he]
      exact hd
    · rw [he]
      exact forall_split_concat hd hm

end Invariant

/-- Whatever the schedule: what has happened is due; the commands run are the first of those that
were accepted, in their order, and all of them when the worker has left; once the queue is closed
every command is refused; and a call whose command was accepted has returned its output, or can do
so now, or the worker can make one of the moves that are missing until then. -/
theorem play_fifo_exactly_once (p : π) (shares : Bool) (schedule : List Move) :
    let x := (start p shares).play schedule
    (∀ before m after, x.past = before ++ m :: after → Due p shares before m) ∧
    (ranJobs x.past <+: acceptedJobs x.past ∧ (acceptedJobs x.past).Nodup) ∧
    (x.stage = .gone →
      ranJobs x.past = acceptedJobs x.past ∧ answeredJobs x.past = acceptedJobs x.past) ∧
    (∀ i command, .closed ∈ x.past → x.awaited i = none →
      (x.step (.submit i command)).past = x.past ++ [.refused i command .notRunning]) ∧
    ∀ i job, .accepted i job ∈ x.past →
      (∃ out, .returned i job (.ok out) ∈ x.past) ∨
      x.awaited i = some job ∧
        ((∃ out, .answered job out ∈ x.past ∧
            (x.step (.collect i)).past = x.past ++ [.returned i job (.ok out)]) ∨
          workMoves x.past < 3 * (job.ticket + 1) ∧
            workMoves (x.step .work).past = workMoves x.past + 1) := by
  intro x
  have hnone : ∀ before m after, (start p shares).past = before ++ m :: after →
      Due p shares before m := by
    intro before m after h
    simp [start] at h
  have hx : JobsInOrder p shares x ∧ Kept x ∧ _ :=
    play_invariant (jobsInOrder_start p shares) (kept_start p shares) hnone
  obtain ⟨hl, hk, hd⟩ := hx
  refine ⟨hd, ⟨hl.ran_prefix, ?_⟩, hl.all_done, ?_, ?_⟩
  · have hn : ((acceptedJobs x.past).map Job.ticket).Nodup := hl.tickets ▸ List.nodup_range
    exact hn.of_map _
  · intro i command hc hi
    have hq : x.worker.queue.closed = true := hl.closed.mp hc
    simp only [step, hi, submit_of_closed hq, mark_past]
  · intro i job hi
    have hj : job ∈ acceptedJobs x.past := mem_acceptedJobs.mpr ⟨i, hi⟩
    rcases hk.calls i job hi with hw | ⟨r, hr⟩
    · refine .inr ⟨hw, ?_⟩
      by_cases ha : job ∈ answeredJobs x.past
      · exact .inl (collect_of_answered hl hk hw ha)
      · have hlt : ¬3 * (job.ticket + 1) ≤ workMoves x.past :=
          fun h => ha (hl.answered_of_workMoves hj h)
        exact .inr ⟨by omega, hl.work_moves hj ha⟩
    · obtain ⟨before, after, he⟩ := List.append_of_mem hr
      obtain ⟨-, -, out, -, ho⟩ := hd before _ after he
      exact .inl ⟨out, ho ▸ hr⟩

end SharedWorker

end SccDispatch
