import SccDispatch.Proofs.StateAgreement
import SccDispatch.Proofs.ProjectAlternation
import SccDispatch.Proofs.SequentialRuns

namespace SccDispatch

def Call.isOpen : Call → Bool
  | .openProject .. => true
  | _ => false

def Seen.opened? (s : Seen) : Option Project :=
  match s.call with
  | .openProject _ p _ _ => if s.fine then some p else none
  | _ => none

/-- The provider has opened `p`, and no other project since, and it was not asked to close it. -/
def Unclosed (seen : List Seen) (p : Project) : Prop :=
  ∃ before s after, seen = before ++ s :: after ∧ s.opened? = some p ∧
    ∀ t ∈ after, t.opened? = none ∧ t.call ≠ .closeProject

section Unclosed

variable {seen : List Seen} {s : Seen} {p : Project} {o : Option Project}

theorem Seen.leavesProject_eq (s : Seen) (o : Option Project) :
    s.leavesProject o = if s.call = .closeProject then none else s.opened?.or o := by
  obtain ⟨on, call, fine⟩ := s
  cases call with
  | openProject => cases fine <;> rfl
  | _ => rfl

theorem Seen.opened?_of_close (h : s.call = .closeProject) : s.opened? = none := by
  rw [opened?, h]

theorem Seen.opened?_of_not_isOpen (h : s.call.isOpen = false) : s.opened? = none := by
  obtain ⟨on, call, fine⟩ := s
  cases call <;> first | rfl | cases h

theorem Seen.Suits.closes (h : s.Suits o) (hc : s.call = .closeProject) : o.isSome = true := by
  rwa [Seen.Suits, hc] at h

theorem Seen.Suits.opens (h : s.Suits o) (hc : s.call.isOpen = true) : o = none := by
  obtain ⟨on, call, fine⟩ := s
  cases call <;> first | exact h | cases hc

/-- What one more call leaves open. -/
theorem unclosed_concat : Unclosed (seen ++ [s]) p ↔
    s.opened? = some p ∨ s.opened? = none ∧ s.call ≠ .closeProject ∧ Unclosed seen p := by
  constructor
  · rintro ⟨before, t, after, he, ht, ha⟩
    rcases List.eq_nil_or_concat after with rfl | ⟨rest, u, rfl⟩
    · cases (List.append_inj' he rfl).2
      exact .inl ht
    · have he' : seen ++ [s] = (before ++ t :: rest) ++ [u] := by simpa using he
      obtain ⟨hseen, hu⟩ := List.append_inj' he' rfl
      cases hu
      obtain ⟨hn, hc⟩ := ha s (by simp)
      exact .inr ⟨hn, hc, before, t, rest, hseen, ht, fun v hv => ha v (by simp [hv])⟩
  · rintro (hs | ⟨hn, hc, before, t, after, rfl, ht, ha⟩)
    · exact ⟨seen, s, [], rfl, hs, List.forall_mem_nil _⟩
    · refine ⟨before, t, after ++ [s], by simp, ht, fun v hv => ?_⟩
      rcases List.mem_append.mp hv with hv | hv
      · exact ha v hv
      · rw [List.mem_singleton.mp hv]
        exact ⟨hn, hc⟩

/-- The record tells which project is open. -/
theorem lastOpened_eq_some_iff : lastOpened seen = some p ↔ Unclosed seen p := by
  induction seen using List.reverseRecOn with
  | nil => simp [lastOpened, Unclosed]
  | append_singleton seen s ih =>
    rw [lastOpened_concat, Seen.leavesProject_eq, unclosed_concat, ← ih]
    split
    next hc => simp [hc, Seen.opened?_of_close hc]
    next hc => cases s.opened? <;> simp [hc]

theorem isSome_lastOpened_iff : (lastOpened seen).isSome = true ↔ ∃ p, Unclosed seen p := by
  simp only [Option.isSome_iff_exists, lastOpened_eq_some_iff]

theorem Alternates.left {after : List Seen} (h : Alternates (seen ++ after)) : Alternates seen :=
  fun before s rest he => h before s (rest ++ after) (by simp [he])

/-- As long as no other is to be opened, a project is closed once or it is still open. -/
theorem count_close {before between : List Seen} (hs : s.opened? = some p)
    (ha : Alternates (before ++ s :: between)) (hn : ∀ t ∈ between, t.call.isOpen = false) :
    between.countP (·.call == .closeProject) +
      (if (lastOpened (before ++ s :: between)).isSome then 1 else 0) = 1 := by
  induction between using List.reverseRecOn with
  | nil =>
    have hc : s.call ≠ .closeProject := fun hc => by simp [Seen.opened?_of_close hc] at hs
    simp [Seen.leavesProject_eq, hc, hs]
  | append_singleton between t ih =>
    have hsplit : before ++ s :: (between ++ [t]) = (before ++ s :: between) ++ [t] := by simp
    rw [hsplit] at ha ⊢
    have ih := ih ha.left fun u hu => hn u (by simp [hu])
    have hto := Seen.opened?_of_not_isOpen (hn t (by simp))
    rw [lastOpened_concat, Seen.leavesProject_eq, hto, Option.none_or, List.countP_append,
      List.countP_singleton]
    by_cases hc : t.call = .closeProject
    · have hsome := (ha _ t [] rfl).closes hc
      rw [hsome, if_pos rfl] at ih
      simp only [hc, beq_self_eq_true, if_true, Option.isSome_none, Bool.false_eq_true, if_false]
      omega
    · simpa [hc] using ih

/-- Calls that open and close nothing. -/
theorem alternates_of_plain (h : ∀ s ∈ seen, ∀ o, s.leavesProject o = o ∧ s.Suits o) :
    lastOpened seen = none ∧ Alternates seen := by
  induction seen using List.reverseRecOn with
  | nil => exact ⟨rfl, by simp [Alternates]⟩
  | append_singleton seen s ih =>
    obtain ⟨hn, ha⟩ := ih fun t ht => h t (by simp [ht])
    obtain ⟨hs, hsuits⟩ := h s (by simp) none
    rw [lastOpened_concat, hn]
    exact ⟨hs, ha.concat (hn ▸ hsuits)⟩

end Unclosed

namespace Dispatcher

variable {π : Type} [Provider π] {d : Dispatcher (Traced π)} {b : Binding (Traced π)}

/-- A provider that was started has not been asked to open a project, or to close one. -/
theorem alternates_newWorker {t : Traced π} (ht : t.seen = []) (window : Window) :
    let seen := ((d.newWorker t).ran (.start window d.options.caller)).provider.seen
    lastOpened seen = none ∧ Alternates seen := by
  obtain ⟨fine, he⟩ := execute_start_traced t .worker d.options.concurrentQueries window
    d.options.caller
  have he : ((d.newWorker t).ran (.start window d.options.caller)).provider.seen = _ := he
  refine alternates_of_plain fun s hs => ?_
  rw [he, ht, List.nil_append] at hs
  rcases List.mem_cons.mp hs with rfl | hs
  · exact fun _ => ⟨rfl, trivial⟩
  · cases fine with
    | false => cases hs
    | true =>
      rw [List.mem_singleton.mp hs]
      exact fun _ => ⟨rfl, trivial⟩

/-- A bind opens no project. -/
theorem alternates_bind (hn : d.binding = none) {name : String} {loader : Loader π}
    {window : Window} (hb : (d.bind name loader.traced window).2.binding = some b) :
    (lastOpened b.worker.provider.seen = none ∧ Alternates b.worker.provider.seen) ∧
      (d.bind name loader.traced window).2.project = d.project := by
  rw [bind_eq] at hb ⊢
  split at hb
  next t ht =>
    have ha := alternates_newWorker (d := d.loading name loader.path) (seen_of_load ht) window
    rw [start_eq] at hb ⊢
    simp only at hb ⊢
    split at hb
    next info concurrent hstart =>
      cases hb
      exact ⟨ha, rfl⟩
    next => cases hn.symm.trans hb
  next => cases hn.symm.trans hb
  next => cases hn.symm.trans hb

theorem project_shutdown (h : d.isBound = false → d.project = none) :
    d.shutdown.project = none := by
  unfold shutdown
  split
  next hb => exact h (by simp [isBound, hb])
  next => rfl

end Dispatcher

namespace ThreadSystem

variable {π : Type}

/-- The provider that is bound or that a thread is about to let go, or else the one that was let go
of last. -/
def provider? (x : ThreadSystem π) : Option π :=
  (x.hand.map fun p => p.worker.provider).or x.dispatcher.provider?

/-- The commands that were run last, `leaving`, are those of the thread that lets the provider go.
Before them a project was open or not, as `isOpen` says. -/
structure Parts (x : ThreadSystem (Traced π)) (start : List Seen) (used leaving : List Ran)
    (isOpen : Bool) : Prop where
  past : x.past = used ++ leaving
  shared : ∀ r ∈ used, r.alone = false
  alone : ∀ r ∈ leaving, r.alone = true
  unclosed : isOpen = true ↔ ∃ p, Unclosed (start ++ used.map Ran.seen) p
  sent : leaving.map Ran.command <+: lastCommands isOpen
  bound : x.dispatcher.isBound = true → leaving = []
  gone : x.dispatcher.isBound = false → x.hand = none →
    leaving.map Ran.command = lastCommands isOpen

/-- The projects of the provider were opened and closed in turn. What it had received when it was
bound is `start`. -/
structure InTurn (x : ThreadSystem (Traced π)) (start : List Seen) (provider : Traced π) :
    Prop where
  seen : provider.seen = start ++ x.past.map Ran.seen
  /-- Before the next call that is to open one, a project that was opened is closed once. -/
  once : ∀ before s between t after, provider.seen = before ++ s :: between ++ t :: after →
    s.opened?.isSome = true → t.call.isOpen = true → (∀ u ∈ between, u.call.isOpen = false) →
      between.countP (·.call == .closeProject) = 1
  closes : ∀ before s after, provider.seen = before ++ s :: after → s.call = .closeProject →
    ∃ p, Unclosed before p
  parts : ∃ used leaving isOpen, x.Parts start used leaving isOpen
  recorded : x.dispatcher.isBound = true → x.locked = none →
    ∀ p, x.dispatcher.project = some p ↔ Unclosed provider.seen p

variable {x y : ThreadSystem (Traced π)} {start : List Seen}

/-- Calls that suit what is open before them come in turn. -/
theorem inTurn_of_alternates {provider : Traced π}
    (seen : provider.seen = start ++ x.past.map Ran.seen) (ha : Alternates provider.seen)
    (parts : ∃ used leaving isOpen, x.Parts start used leaving isOpen)
    (recorded : x.dispatcher.isBound = true → x.locked = none →
      x.dispatcher.project = lastOpened provider.seen) : x.InTurn start provider := by
  refine ⟨seen, ?_, ?_, parts, ?_⟩
  · intro before s between t after he hs ht hb
    obtain ⟨p, hs⟩ := Option.isSome_iff_exists.mp hs
    have hc := count_close hs (he ▸ ha).left hb
    have hn := (ha _ t after he).opens ht
    rw [hn] at hc
    simpa using hc
  · intro before s after he hs
    exact isSome_lastOpened_iff.mp ((ha _ s after he).closes hs)
  · intro hb hl p
    rw [recorded hb hl]
    exact lastOpened_eq_some_iff

/-- A bound provider has its projects opened and closed in turn. -/
theorem Serving.inTurn {p : Post (Traced π)} (h : x.Serving start p) :
    x.provider? = some p.worker.provider ∧ x.InTurn start p.worker.provider := by
  obtain ⟨b, hb, rfl⟩ := Option.map_eq_some_iff.mp h.post
  have parts : x.Parts start x.past [] (lastOpened (start ++ x.past.map Ran.seen)).isSome :=
    ⟨(List.append_nil _).symm, h.shared, List.forall_mem_nil _, isSome_lastOpened_iff,
      List.nil_prefix, fun _ => rfl, fun hn => by simp [Dispatcher.isBound, hb] at hn⟩
  exact ⟨by simp [provider?, Dispatcher.provider?, h.hand, hb],
    inTurn_of_alternates h.seen h.alternates ⟨_, _, _, parts⟩ fun _ hl => h.project hl⟩

theorem Leaving.inTurn {used leaving : List Ran} {p : Post (Traced π)} {g : Hold}
    (h : x.Leaving start used leaving p g) :
    x.provider? = some p.worker.provider ∧ x.InTurn start p.worker.provider := by
  have hn : x.dispatcher.isBound ≠ true := by simp [Dispatcher.isBound, h.unbound]
  obtain ⟨hpast, hshared, halone, hsent⟩ := h.parted
  have parts : x.Parts start used leaving (lastOpened (start ++ used.map Ran.seen)).isSome :=
    ⟨hpast, hshared, halone, isSome_lastOpened_iff, ⟨_, hsent⟩, fun hb => absurd hb hn,
      fun _ he => absurd (h.hand.symm.trans he) (Option.some_ne_none p)⟩
  exact ⟨by simp [provider?, h.hand],
    inTurn_of_alternates h.seen h.alternates ⟨_, _, _, parts⟩ fun hb => absurd hb hn⟩

/-- A provider that was let go of has had its projects opened and closed in turn, the last one
too. -/
theorem Left.inTurn {used leaving : List Ran} {provider : Traced π}
    (h : x.Left start used leaving provider) :
    x.provider? = some provider ∧ x.InTurn start provider := by
  have hn : x.dispatcher.isBound ≠ true := by simp [Dispatcher.isBound, h.unbound]
  obtain ⟨hpast, hshared, halone, hsent⟩ := h.parted
  rw [show Hold.stopped.due = [] from rfl, List.append_nil] at hsent
  have parts : x.Parts start used leaving (lastOpened (start ++ used.map Ran.seen)).isSome :=
    ⟨hpast, hshared, halone, isSome_lastOpened_iff, hsent ▸ List.prefix_rfl,
      fun hb => absurd hb hn, fun _ _ => hsent⟩
  exact ⟨by simp [provider?, Dispatcher.provider?, h.hand, h.unbound, h.last],
    inTurn_of_alternates h.seen h.alternates ⟨_, _, _, parts⟩ fun hb => absurd hb hn⟩

/-- Wherever the life of the binding stands, there is a provider, and its projects were opened and
closed in turn. -/
theorem BindingStage.inTurn (h : x.BindingStage start) :
    ∃ provider, x.provider? = some provider ∧ x.InTurn start provider := by
  cases h with
  | serving h => exact ⟨_, h.inTurn⟩
  | leaving h => exact ⟨_, h.inTurn⟩
  | left h => exact ⟨_, h.inTurn⟩

/-- Nobody has done anything yet. -/
theorem serving_start {d : Dispatcher (Traced π)} {b : Binding (Traced π)} (hi : d.Idle)
    (hb : d.binding = some b) (hp : d.project = none)
    (ha : lastOpened b.worker.provider.seen = none ∧ Alternates b.worker.provider.seen) :
    ({ dispatcher := d } : ThreadSystem (Traced π)).Serving b.worker.provider.seen
      { worker := b.worker } where
  post := by rw [post, hb]; rfl
  hand := rfl
  opened := by rw [(hi b hb).queue]; rfl
  seen := (List.append_nil _).symm
  alternates := ha.2
  shared := List.forall_mem_nil _
  project _ := hp.trans ha.1.symm
  holder := by rintro i ⟨⟩
  stands := by rintro v ⟨⟩

theorem settled_start {d : Dispatcher (Traced π)} (hi : d.Idle) :
    ({ dispatcher := d } : ThreadSystem (Traced π)).Settled :=
  ⟨JobsTracked.of_idle hi, List.nodup_nil, fun _ => List.forall_mem_nil _⟩

variable [Provider π]

def boundAfter (options : Options) (calls : List (Operation (Traced π))) (name : String)
    (loader : Loader π) (window : Window) : Dispatcher (Traced π) :=
  ((({ options } : Dispatcher (Traced π)).performAll calls).2.rebind name loader.traced window).2

theorem idle_boundAfter (options : Options) (calls : List (Operation (Traced π))) (name : String)
    (loader : Loader π) (window : Window) : (boundAfter options calls name loader window).Idle :=
  Dispatcher.idle_rebind _ _ _

/-- By induction the binding is at some stage in every run. -/
theorem BindingStage.reaches (h : x.BindingStage start) (hx : x.Settled)
    (r : x.Reaches Operation.Bindless y) : y.BindingStage start ∧ y.Settled := by
  induction r with
  | refl => exact ⟨h, hx⟩
  | tail _ s ih => exact ⟨ih.1.step ih.2 s, ih.2.step s⟩

/-- However the calls of any number of threads are interleaved once a provider is bound, and
whatever it answers, its projects are opened and closed in turn. -/
theorem projects_in_turn (options : Options) (calls : List (Operation (Traced π))) (name : String)
    (loader : Loader π) (window : Window) {b : Binding (Traced π)}
    (bound : (boundAfter options calls name loader window).binding = some b)
    (h : ({ dispatcher := boundAfter options calls name loader window } :
      ThreadSystem (Traced π)).Reaches Operation.Bindless x) :
    ∃ provider, x.provider? = some provider ∧ x.InTurn b.worker.provider.seen provider := by
  have hc := (Dispatcher.agrees_of_sound (Dispatcher.sound_performAll options calls)).cleared
  have hn := Dispatcher.project_shutdown fun hb => (hc hb).1
  obtain ⟨ha, hp⟩ := Dispatcher.alternates_bind (Dispatcher.binding_shutdown _) bound
  have hi := idle_boundAfter options calls name loader window
  have hs := serving_start hi bound (hp.trans hn) ha
  exact ((BindingStage.serving hs).reaches (settled_start hi) h).1.inTurn

section Opened

open Rehearsal

/-- One thread opens a project, and then another lets the provider go. -/
theorem projects_in_turn_opened :
    ∃ (b : Binding (Traced Scripted)) (x : ThreadSystem (Traced Scripted))
      (provider : Traced Scripted),
      (boundAfter {} [] "only" SectionSystem.willing .none).binding = some b ∧
      ({ dispatcher := boundAfter {} [] "only" SectionSystem.willing .none } :
        ThreadSystem (Traced Scripted)).Reaches Operation.Bindless x ∧
      provider.seen.map Seen.call =
        [.start .none "Decoda", .threadsafeQuery,
          .openProject .none { name := "project" } "" createMissing, .closeProject, .stop] ∧
      x.provider? = some provider ∧ x.InTurn b.worker.provider.seen provider := by
  have rested : ({ dispatcher := boundAfter {} [] "only" SectionSystem.willing .none } :
      ThreadSystem (Traced Scripted)).Resting := ⟨rfl, rfl, rfl, rfl, idle_boundAfter _ _ _ _ _⟩
  have opens : (Operation.openProject { name := "project" } :
      Operation (Traced Scripted)).Bindless := List.forall_mem_singleton.mpr trivial
  have stops : (Operation.shutdown : Operation (Traced Scripted)).Bindless :=
    List.forall_mem_singleton.mpr trivial
  obtain ⟨b, bound⟩ : ∃ b, (boundAfter {} [] "only" SectionSystem.willing .none).binding = some b :=
    Option.isSome_iff_exists.mp rfl
  obtain ⟨y, hy, rested, hyd, hdue⟩ := reaches_perform (i := 0) rested rfl opens
  obtain ⟨z, hz, rested, hzd, -⟩ := reaches_perform (i := 1) rested (by rw [hdue]) stops
  obtain ⟨provider, hp, h⟩ := projects_in_turn {} [] "only" SectionSystem.willing .none bound
    (hy.trans hz)
  refine ⟨b, z, provider, bound, hy.trans hz, ?_, hp, h⟩
  rw [provider?, rested.hand, hzd, hyd] at hp
  cases hp
  rfl

end Opened

end ThreadSystem

end SccDispatch
