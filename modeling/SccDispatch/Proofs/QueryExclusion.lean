import SccDispatch.Proofs.SharedDispatcher

namespace SccDispatch

variable {π : Type}

structure Watched (inside : Nat → Option (Position π)) (b : Binding (Recorded π)) : Prop where
  disciplined : Disciplined b.worker.provider.notes
  running : Running b.worker.provider.notes
  parting : .parting ∈ b.worker.provider.notes ↔ ∃ i, inside i = some .letGo
  busy : ∀ i, querying i b.worker.provider.notes = true ↔ ∃ r, inside i = some (.query r)
  direct : ∀ i r, inside i = some (.query r) →
    r.idle? = none ∧ (r.isQuery && b.concurrent) = true

/-- A thread that has the lock alone is the only one inside. -/
def Alone (inside : Nat → Option (Position π)) : Prop :=
  ∀ i t j s, inside i = some t → t.alone = true → inside j = some s → j = i

section Inside

variable {inside : Nat → Option (Position π)} {i : Nat} {v : Option (Position π)} {t : Position π}

/-- Where a thread is found when thread `i` has come to `v`. -/
theorem update_cases {j : Nat} {w : Option (Position π)} (h : Function.update inside i v j = w) :
    j = i ∧ v = w ∨ j ≠ i ∧ inside j = w := by
  by_cases hj : j = i
  · subst hj
    exact .inl ⟨rfl, by rwa [Function.update_self] at h⟩
  · exact .inr ⟨hj, by rwa [Function.update_of_ne hj] at h⟩

theorem update_of_steady (hi : ∀ s ∈ inside i, s.steady = true) (hv : ∀ s ∈ v, s.steady = true)
    (ht : t.steady = false) (j : Nat) :
    Function.update inside i v j = some t ↔ inside j = some t := by
  constructor
  · intro h
    rcases update_cases h with ⟨-, h⟩ | ⟨-, h⟩
    · simp [hv t h] at ht
    · exact h
  · intro h
    have hj : j ≠ i := by
      rintro rfl
      simp [hi t h] at ht
    rwa [Function.update_of_ne hj]

theorem not_letGo_update (hn : ¬∃ j, inside j = some .letGo) (hv : v ≠ some .letGo) :
    ¬∃ j, Function.update inside i v j = some .letGo := by
  rintro ⟨j, h⟩
  rcases update_cases h with ⟨-, h⟩ | ⟨-, h⟩
  · exact hv h
  · exact hn ⟨j, h⟩

theorem steady_first (s : Section π) : s.first.steady = true := by cases s <;> rfl

/-- A thread that is neither querying nor letting the provider go may move on. -/
theorem Watched.update {b : Binding (Recorded π)} (h : Watched inside b)
    (hi : ∀ s ∈ inside i, s.steady = true) (hv : ∀ s ∈ v, s.steady = true) :
    Watched (Function.update inside i v) b where
  disciplined := h.disciplined
  running := h.running
  parting := h.parting.trans (exists_congr fun j => (update_of_steady hi hv rfl j).symm)
  busy j := (h.busy j).trans (exists_congr fun _ => (update_of_steady hi hv rfl j).symm)
  direct j _ hj := h.direct j _ ((update_of_steady hi hv rfl j).mp hj)

/-- A thread that has the lock alone stays alone. -/
theorem Alone.update (h : Alone inside)
    (hv : ∀ s, v = some s → ∃ t, inside i = some t ∧ t.alone = s.alone) :
    Alone (Function.update inside i v) := by
  have hu : ∀ j s, Function.update inside i v j = some s →
      ∃ t, inside j = some t ∧ t.alone = s.alone := by
    intro j s hj
    rcases update_cases hj with ⟨rfl, hs⟩ | ⟨-, hs⟩
    · exact hv s hs
    · exact ⟨s, hs, rfl⟩
  intro j s k u hj hs hk
  obtain ⟨s', hj', ha⟩ := hu j s hj
  obtain ⟨u', hk', -⟩ := hu k u hk
  exact h j s' k u' hj' (ha.trans hs) hk'

theorem Alone.only (h : Alone inside) (hi : inside i = some t) (ht : t.alone = true) {j : Nat}
    {s : Position π} (hj : Function.update inside i v j = some s) : v = some s := by
  rcases update_cases hj with ⟨-, hj⟩ | ⟨hne, hj⟩
  · exact hj
  · exact absurd (h i t j s hi ht hj) hne

theorem alone_enter (ha : ∀ j s, inside j = some s → t.alone = false ∧ s.alone = false) :
    Alone (Function.update inside i (some t)) := by
  intro j s k u hj hs hk
  rcases update_cases hj with ⟨rfl, ht⟩ | ⟨-, hj⟩
  · cases ht
    rcases update_cases hk with ⟨hk, -⟩ | ⟨-, hk⟩
    · exact hk
    · simp [(ha k u hk).1] at hs
  · simp [(ha j s hj).2] at hs

end Inside

section Bound

variable {inside : Nat → Option (Position π)} {i : Nat} {r : Request}
  {d e : Dispatcher (Recorded π)} {b c : Binding (Recorded π)}

/-- A call without a query of its own keeps the watch. -/
theorem Watched.served [Provider π] (h : Watched inside b)
    (hp : .parting ∉ b.worker.provider.notes) (hs : Dispatcher.Served false d b e c) :
    Watched inside c := by
  obtain ⟨more, hn, ho⟩ := hs.notes
  refine ⟨?_, ?_, ?_, ?_, ?_⟩
  · exact hn ▸ h.disciplined.append hp ho (by rintro ⟨⟩)
  · exact hn ▸ h.running.append more
  · exact (iff_of_false (hn ▸ not_parting_append ho hp) hp).trans h.parting
  · intro j
    rw [hn, querying_append ho]
    exact h.busy j
  · exact hs.concurrent ▸ h.direct

theorem Watched.quiet (h : Watched inside b) (ha : Alone inside) {t : Position π}
    (hi : inside i = some t) (ht : t.alone = true) (j : Nat) :
    querying j b.worker.provider.notes = false := by
  refine Bool.eq_false_iff.mpr fun hq => ?_
  obtain ⟨r, hj⟩ := (h.busy j).mp hq
  obtain rfl := ha i t j _ hi ht hj
  rw [hi] at hj
  cases hj
  cases ht

/-- When a thread has the lock alone nobody is querying, so the provider may be let go of. -/
theorem Watched.release (h : Watched inside b) (ha : Alone inside)
    (hi : inside i = some .release) :
    Watched (Function.update inside i (some .letGo)) (b.note .parting) := by
  have hq := h.quiet ha hi rfl
  have hn : (b.note .parting).worker.provider.notes = b.worker.provider.notes ++ [.parting] := rfl
  have hne : ∀ j r, Function.update inside i (some .letGo) j ≠ some (.query r) := by
    -- Thread `i` is the only one inside.
    intro j r hj
    cases ha.only hi rfl hj
  refine ⟨h.disciplined.concat hq, h.running.append _, ?_, ?_, ?_⟩
  · exact ⟨fun _ => ⟨i, Function.update_self ..⟩, fun _ => by simp [hn]⟩
  · intro j
    rw [hn, querying_concat]
    exact ⟨fun hj => by simp [Note.leavesQuerying, hq j] at hj, fun ⟨r, hj⟩ => absurd hj (hne j r)⟩
  · exact fun j r hj => absurd hj (hne j r)

theorem Watched.not_parting (h : Watched inside b) (ha : Alone inside) {t : Position π}
    (hi : inside i = some t) (ht : t.alone = false) : .parting ∉ b.worker.provider.notes := by
  intro hp
  obtain ⟨j, hj⟩ := h.parting.mp hp
  obtain rfl := ha j _ i t hj rfl hi
  rw [hi] at hj
  cases hj
  cases ht

/-- A provider that was just started has not been queried. -/
theorem watched_new {t t' : Position π} (ha : Alone inside) (hi : inside i = some t)
    (ht : t.alone = true) (hc : t'.steady = true) (hd : Disciplined b.worker.provider.notes)
    (hr : Running b.worker.provider.notes) (hp : .parting ∉ b.worker.provider.notes)
    (hq : ∀ j, querying j b.worker.provider.notes = false) :
    Watched (Function.update inside i (some t')) b := by
  have hn : ∀ j s, Function.update inside i (some t') j = some s → s.steady = true := by
    intro j s hj
    cases ha.only hi ht hj
    exact hc
  refine ⟨hd, hr, ⟨fun hm => absurd hm hp, ?_⟩, fun j => ⟨fun hj => ?_, ?_⟩, fun j r hj => ?_⟩
  · rintro ⟨j, hj⟩
    cases hn j _ hj
  · simp [hq j] at hj
  · rintro ⟨r, hj⟩
    cases hn j _ hj
  · cases hn j _ hj

/-- A thread that shares the lock comes to another position, and of the threads that query the
provider none but this one has come or gone. -/
theorem Watched.turn {v : Option (Position π)} (h : Watched inside b)
    (hp : .parting ∉ b.worker.provider.notes) (hv : v ≠ some .letGo)
    (hb : c.concurrent = b.concurrent) (hd : Disciplined c.worker.provider.notes)
    (hr : Running c.worker.provider.notes) (hp' : .parting ∉ c.worker.provider.notes)
    (ho : ∀ j, j ≠ i → querying j c.worker.provider.notes = querying j b.worker.provider.notes)
    (hi : querying i c.worker.provider.notes = true ↔ ∃ r, v = some (.query r))
    (hq : ∀ r, v = some (.query r) → r.idle? = none ∧ (r.isQuery && b.concurrent) = true) :
    Watched (Function.update inside i v) c := by
  refine ⟨hd, hr, iff_of_false hp' (not_letGo_update (mt h.parting.mpr hp) hv), ?_, ?_⟩
  · intro j
    by_cases hj : j = i
    · subst hj
      rw [Function.update_self]
      exact hi
    · rw [Function.update_of_ne hj, ho j hj]
      exact h.busy j
  · intro j r hj
    rw [hb]
    rcases update_cases hj with ⟨-, hj⟩ | ⟨-, hj⟩
    · exact hq r hj
    · exact h.direct j r hj

/-- A thread that shares the lock may begin a query. -/
theorem Watched.begin (h : Watched inside b) (ha : Alone inside)
    (hi : inside i = some (.request r))
    (hd : r.idle? = none ∧ (r.isQuery && b.concurrent) = true) :
    Watched (Function.update inside i (some (.query r))) (b.note (.began i)) := by
  have hn : (b.note (.began i)).worker.provider.notes = b.worker.provider.notes ++ [.began i] := rfl
  have hp := h.not_parting ha hi rfl
  have hf : querying i b.worker.provider.notes = false := by
    refine Bool.eq_false_iff.mpr fun hq => ?_
    obtain ⟨r', hr⟩ := (h.busy i).mp hq
    rw [hi] at hr
    cases hr
  refine h.turn hp (by simp) rfl (h.disciplined.concat ⟨h.running, hp, hf⟩) (h.running.append _)
    ?_ ?_ ?_ ?_
  · simpa [hn] using hp
  · intro j hj
    simp [hn, Note.leavesQuerying, hj]
  · simp [hn, Note.leavesQuerying]
  · rintro r' ⟨⟩
    exact hd

theorem Watched.finish [Provider π] (h : Watched inside b) (ha : Alone inside)
    (hi : inside i = some (.query r)) (hs : Dispatcher.Served true d b e c) :
    Watched (Function.update inside i (some (.done false))) (c.note (.ended i)) := by
  have hn : (c.note (.ended i)).worker.provider.notes = c.worker.provider.notes ++ [.ended i] := rfl
  obtain ⟨more, hm, ho⟩ := hs.notes
  have hp := h.not_parting ha hi rfl
  have hq := (h.busy i).mpr ⟨r, hi⟩
  have hd : Disciplined c.worker.provider.notes :=
    hm ▸ h.disciplined.append hp ho fun _ => ⟨i, hq⟩
  have hp' : .parting ∉ c.worker.provider.notes := hm ▸ not_parting_append ho hp
  have hsame : ∀ j, querying j c.worker.provider.notes = querying j b.worker.provider.notes :=
    fun j => hm ▸ querying_append ho j
  refine h.turn hp (by simp) hs.concurrent (hd.concat ⟨hp', (hsame i).trans hq⟩) ?_ ?_ ?_ ?_ ?_
  · rw [hn, hm]
    exact (h.running.append _).append _
  · simpa [hn] using hp'
  · intro j hj
    simp [hn, hsame, Note.leavesQuerying, hj]
  · simp [hn, Note.leavesQuerying]
  · rintro r' ⟨⟩

end Bound

namespace SharedDispatcher

def LetGo (r : Retired (Recorded π)) : Prop :=
  Disciplined r.provider.notes ∧ ∀ i, querying i r.provider.notes = false

structure Sound (x : SharedDispatcher π) : Prop where
  idle : x.dispatcher.Idle
  alone : Alone x.inside
  bound : ∀ b, x.dispatcher.binding = some b → Watched x.inside b
  retired : ∀ r ∈ x.dispatcher.retired, LetGo r

section Steps

variable {x : SharedDispatcher π} {i : Nat} {t t' : Position π} {e : Dispatcher (Recorded π)}
  {c : Binding (Recorded π)}

def moved (x : SharedDispatcher π) (i : Nat) (t : Position π) (e : Dispatcher (Recorded π)) :
    SharedDispatcher π :=
  { x with dispatcher := e, inside := Function.update x.inside i (some t) }

theorem sound_unbound (h : x.Sound) (here : x.inside i = some t) (ht : t'.alone = t.alone)
    (hb : e.binding = none) (hr : ∀ r ∈ e.retired, LetGo r) : (x.moved i t' e).Sound where
  idle := Dispatcher.idle_of_unbound hb
  alone := h.alone.update (by rintro s ⟨⟩; exact ⟨t, here, ht.symm⟩)
  bound b hc := by
    have hc : e.binding = some b := hc
    simp [hb] at hc
  retired := hr

theorem sound_bound (h : x.Sound) (here : x.inside i = some t) (ht : t'.alone = t.alone)
    (hb : e.binding = some c) (hi : c.worker.Idle)
    (hw : Watched (Function.update x.inside i (some t')) c) (hr : ∀ r ∈ e.retired, LetGo r) :
    (x.moved i t' e).Sound where
  idle := Dispatcher.idle_of_bound hb hi
  alone := h.alone.update (by rintro s ⟨⟩; exact ⟨t, here, ht.symm⟩)
  bound a ha := by
    obtain rfl : c = a := Option.some.inj (hb.symm.trans ha)
    exact hw
  retired := hr

theorem sound_same (h : x.Sound) (here : x.inside i = some t) (ht : t'.alone = t.alone)
    (hc : t.steady = true) (hc' : t'.steady = true) (hb : e.binding = x.dispatcher.binding)
    (hr : ∀ r ∈ e.retired, LetGo r) : (x.moved i t' e).Sound where
  idle := h.idle.of_binding hb
  alone := h.alone.update (by rintro s ⟨⟩; exact ⟨t, here, ht.symm⟩)
  bound b he := (h.bound b (hb.symm.trans he)).update (by simpa [here] using hc)
    (by simpa using hc')
  retired := hr

variable [Provider π]

theorem sound_served (h : x.Sound) (here : x.inside i = some t) (ha : t.alone = false)
    (ha' : t'.alone = false) (hc : t.steady = true) (hc' : t'.steady = true)
    (hn : x.dispatcher.binding = none → e = x.dispatcher)
    (hs : ∀ b, x.dispatcher.binding = some b → ∃ c, Dispatcher.Served false x.dispatcher b e c) :
    (x.moved i t' e).Sound := by
  have ht : t'.alone = t.alone := ha'.trans ha.symm
  cases hb : x.dispatcher.binding with
  | none => exact sound_unbound h here ht (hn hb ▸ hb) (hn hb ▸ h.retired)
  | some b =>
    obtain ⟨c, hs⟩ := hs b hb
    have hp := (h.bound b hb).not_parting h.alone here ha
    have hw := ((h.bound b hb).served hp hs).update (i := i) (v := some t')
      (by simpa [here] using hc) (by simpa using hc')
    exact sound_bound h here ht hs.binding hs.idle hw (hs.retired ▸ h.retired)

omit [Provider π] in
/-- The first thing a shutdown does is to mark that the provider is about to go. -/
theorem sound_release (h : x.Sound) (here : x.inside i = some .release) :
    (x.moved i .letGo (x.dispatcher.note .parting)).Sound := by
  cases hb : x.dispatcher.binding with
  | none => exact sound_unbound h here rfl (Dispatcher.note_of_unbound hb _) h.retired
  | some b =>
    have hw := (h.bound b hb).release h.alone here
    exact sound_bound h here rfl (Dispatcher.note_of_bound hb _) (Binding.idle_note (h.idle b hb) _)
      hw h.retired

theorem sound_letGo (h : x.Sound) (here : x.inside i = some .letGo) :
    (x.moved i (.done true) x.dispatcher.shutdown).Sound := by
  refine sound_unbound h here rfl x.dispatcher.binding_shutdown ?_
  cases hb : x.dispatcher.binding with
  | none =>
    rw [Dispatcher.shutdown_of_unbound _ hb]
    exact h.retired
  | some b =>
    -- The thread is alone inside, so nobody queries the provider while it hears its last calls.
    have hw := h.bound b hb
    obtain ⟨last, hc, hn⟩ := x.dispatcher.notes_parting b
    obtain ⟨hd, hq⟩ := hw.disciplined.close (hw.parting.mpr ⟨i, here⟩)
      (hw.quiet h.alone here rfl) hc
    rw [Dispatcher.shutdown_of_bound h.idle hb]
    intro r hr
    rcases List.mem_append.mp hr with hr | hr
    · exact h.retired r hr
    · cases List.mem_singleton.mp hr
      exact ⟨hn ▸ hd, hn ▸ hq⟩

/-- A bind lets the one go that is bound, and brings in another. -/
theorem sound_install (h : x.Sound) {name : String} {loader : Loader π} {window : Window}
    (here : x.inside i = some (.install name loader window)) :
    (x.moved i (.done true) (x.dispatcher.bind name loader.recorded window).2).Sound := by
  have ha := x.dispatcher.attempt_bind name loader window
  generalize x.dispatcher.bind name loader.recorded window = r at ha ⊢
  obtain ⟨success, e⟩ := r
  cases ha with
  | unloaded load binding project options retired =>
    exact sound_same h here rfl rfl rfl binding (retired ▸ h.retired)
  | failed load startup failure handles binding project options retired =>
    obtain ⟨hd, hq, -⟩ := startup.disciplined
    refine sound_same h here rfl rfl rfl binding ?_
    intro r hr
    rw [retired] at hr
    rcases List.mem_append.mp hr with hr | hr
    · exact h.retired r hr
    · cases List.mem_singleton.mp hr
      exact ⟨hd, hq⟩
  | done load startup started idle handles binding project options retired =>
    obtain ⟨hd, hq, hp⟩ := startup.disciplined
    have hrun := startup.running started
    refine sound_bound h here rfl binding idle (watched_new h.alone here rfl rfl hd hrun hp hq) ?_
    intro r hr
    rw [retired] at hr
    rcases List.mem_append.mp hr with hr | hr
    · exact h.retired r hr
    · -- A provider that is replaced is let go of without a word, but not while it is queried.
      cases hb : x.dispatcher.binding with
      | none => simp [hb] at hr
      | some old =>
        obtain rfl : r = old.dropped := by simpa [hb] using hr
        have ho := h.bound old hb
        exact ⟨ho.disciplined, ho.quiet h.alone here rfl⟩

theorem sound_request (h : x.Sound) {r : Request} (here : x.inside i = some (.request r)) :
    (x.moved i (x.dispatcher.stride i (.request r)).2
      (x.dispatcher.stride i (.request r)).1).Sound := by
  simp only [Dispatcher.stride]
  split
  next hq =>
    obtain ⟨b, hb, hd⟩ := Dispatcher.bound_of_queries hq
    have hw := (h.bound b hb).begin h.alone here hd
    exact sound_bound h here rfl (Dispatcher.note_of_bound hb _) (Binding.idle_note (h.idle b hb) _)
      hw h.retired
  next hq =>
    refine sound_served h here rfl rfl rfl rfl ?_ ?_
    · intro hb
      obtain ⟨reply, he⟩ := Dispatcher.request_of_nothing h.idle hb r
      rw [he]
    · exact fun b hb =>
        Dispatcher.served_of_not_queries h.idle hb (Bool.eq_false_iff.mpr hq)

theorem sound_query (h : x.Sound) {r : Request} (here : x.inside i = some (.query r)) :
    (x.moved i (.done false) ((x.dispatcher.request r).2.note (.ended i))).Sound := by
  cases hb : x.dispatcher.binding with
  | none =>
    obtain ⟨reply, he⟩ := Dispatcher.request_of_nothing h.idle hb r
    rw [he]
    exact sound_unbound h here rfl (Dispatcher.note_of_unbound hb _) h.retired
  | some b =>
    have hw := h.bound b hb
    obtain ⟨c, hs⟩ := Dispatcher.served_request h.idle hb r
    rw [(hw.direct i r here).2] at hs
    exact sound_bound h here rfl (Dispatcher.note_of_bound hs.binding _)
      (Binding.idle_note hs.idle _) (hw.finish h.alone here hs) (hs.retired ▸ h.retired)

theorem sound_openProject (h : x.Sound) {p : Project} (here : x.inside i = some (.openProject p)) :
    (x.moved i (x.dispatcher.stride i (.openProject p)).2
      (x.dispatcher.stride i (.openProject p)).1).Sound := by
  simp only [Dispatcher.stride]
  split
  next hd =>
    refine sound_served h here rfl rfl rfl rfl ?_ ?_
    · exact fun hb => by simp [Dispatcher.isBound, hb] at hd
    · exact fun b hb => Dispatcher.served_vacated h.idle hb
  next => exact sound_same h here rfl rfl rfl rfl h.retired

/-- Whatever a thread does next keeps the system sound. -/
theorem sound_stride (h : x.Sound) (here : x.inside i = some t) : (x.stride i t).Sound := by
  cases t with
  | release => exact sound_release h here
  | letGo => exact sound_letGo h here
  | install name loader window => exact sound_install h here
  | selectProject initial =>
    refine sound_served h here rfl rfl rfl rfl ?_ ?_
    · exact fun hb => by simp [Dispatcher.stride, Dispatcher.selectProject, Dispatcher.run, hb]
    · exact fun b hb => Dispatcher.served_selectProject h.idle hb initial
  | openProject p => exact sound_openProject h here
  | openNext p =>
    refine sound_served h here rfl rfl rfl rfl ?_ ?_
    · exact fun hb => by simp [Dispatcher.stride, Dispatcher.opening, Dispatcher.run, hb]
    · exact fun b hb => Dispatcher.served_opening h.idle hb p
  | closeProject =>
    refine sound_served h here rfl rfl rfl rfl ?_ ?_
    · exact fun hb => by simp [Dispatcher.stride, Dispatcher.closeProject, hb]
    · exact fun b hb => Dispatcher.served_closeProject h.idle hb
  | request r => exact sound_request h here
  | query r => exact sound_query h here
  | done alone => exact sound_same h here rfl rfl rfl rfl h.retired

theorem sound_step {y : SharedDispatcher π} (h : x.Sound) (hs : x.Step y) : y.Sound := by
  cases hs with
  | call op finished outside => exact ⟨h.idle, h.alone, h.bound, h.retired⟩
  | @enter i s rest due outside admitted =>
    refine ⟨h.idle, alone_enter admitted, fun b hb => (h.bound b hb).update ?_ ?_, h.retired⟩
    · simp [outside]
    · simpa using steady_first s
  | stride here turn => exact sound_stride h here
  | @leave i alone here =>
    have ha : Alone (x.leave i).inside := h.alone.update (by rintro s ⟨⟩)
    refine ⟨h.idle, ha, fun b hb => (h.bound b hb).update ?_ ?_, h.retired⟩
    · simp [here, Position.steady]
    · simp

/-- By induction every state that can be reached is sound. -/
theorem sound_reached {options : Options} (h : Reached options x) : x.Sound := by
  induction h with
  | start =>
    refine ⟨Dispatcher.idle_of_unbound rfl, ?_, ?_, ?_⟩
    · rintro i t j s ⟨⟩
    · rintro b ⟨⟩
    · simp
  | next h step ih => exact sound_step ih step

/-- Whatever the threads do, a query by a calling thread begins after the provider was started and
ends before the dispatcher begins to let the provider go. -/
theorem queries_end_before_parting {options : Options} (h : Reached options x) :
    (∀ b, x.dispatcher.binding = some b → Disciplined b.worker.provider.notes) ∧
      ∀ r ∈ x.dispatcher.retired,
        Disciplined r.provider.notes ∧ ∀ i, querying i r.provider.notes = false := by
  have hs := sound_reached h
  exact ⟨fun b hb => (hs.bound b hb).disciplined, hs.retired⟩

end Steps

section Overlap

open Rehearsal

def sharing : Loader Scripted := { load := fun _ => .ok (.ok { threadsafe := true }) }

def inquiry : Request := .fileStatus "file"

/-- Two threads may query a provider at once. -/
theorem queries_end_before_parting_overlap :
    ∃ (x : SharedDispatcher Scripted) (b : Binding (Recorded Scripted)), Reached {} x ∧
      x.dispatcher.binding = some b ∧ querying 1 b.worker.provider.notes = true ∧
      querying 2 b.worker.provider.notes = true ∧ Disciplined b.worker.provider.notes := by
  have h : Reached {} ({ dispatcher := {} } : SharedDispatcher Scripted) := .start
  -- Thread 0 binds the provider.
  have h := h.next (.call (i := 0) (.bind "sharing" sharing .none) rfl rfl)
  have h := h.next (.enter (i := 0) rfl rfl (by rintro j s ⟨⟩))
  have h := h.next (.stride (i := 0) (t := .release) rfl (by rintro ⟨⟩))
  have h := h.next (.stride (i := 0) (t := .letGo) rfl (by rintro ⟨⟩))
  have h := h.next (.leave (i := 0) rfl)
  have h := h.next (.enter (i := 0) rfl rfl (by
    intro j s hj
    by_cases h0 : j = 0 <;> simp [h0, leave, stride, enter, call] at hj))
  have h := h.next (.stride (i := 0) (t := .install "sharing" sharing .none) rfl (by rintro ⟨⟩))
  have h := h.next (.leave (i := 0) rfl)
  -- Thread 1 begins a query, and thread 2 begins another.
  have h := h.next (.call (i := 1) (.request inquiry) rfl rfl)
  have h := h.next (.enter (i := 1) rfl rfl (by
    intro j s hj
    by_cases h0 : j = 0 <;> simp [h0, leave, stride, enter, call] at hj))
  have h := h.next (.stride (i := 1) (t := .request inquiry) rfl (by rintro ⟨⟩))
  have h := h.next (.call (i := 2) (.request inquiry) rfl rfl)
  have h := h.next (.enter (i := 2) rfl rfl (by
    intro j s hj
    by_cases h1 : j = 1
    · subst h1
      cases hj
      exact ⟨rfl, rfl⟩
    · by_cases h0 : j = 0 <;> simp [h0, h1, leave, stride, enter, call] at hj))
  have h := h.next (.stride (i := 2) (t := .request inquiry) rfl (by rintro ⟨⟩))
  exact ⟨_, _, h, rfl, rfl, rfl, (queries_end_before_parting h).1 _ rfl⟩

end Overlap

end SharedDispatcher

end SccDispatch
