import Mathlib.Data.List.Forall2
import Mathlib.Logic.Relation
import SccDispatch.Proofs.BindAttempts
import SccDispatch.Proofs.EventHistory

namespace SccDispatch

variable {π : Type} [Provider π]

/-- What becomes of a provider by being called. -/
def Descends : π → π → Prop := Relation.ReflTransGen fun p q => ∃ on call, q = (respond p on call).2

theorem Descends.refl (p : π) : Descends p p := Relation.ReflTransGen.refl

theorem Descends.trans {p q r : π} (h : Descends p q) (k : Descends q r) : Descends p r :=
  Relation.ReflTransGen.trans h k

theorem descends_respond (p : π) (on : Thread) (call : Call) : Descends p (respond p on call).2 :=
  Relation.ReflTransGen.single ⟨on, call, rfl⟩

theorem descends_execute (p : π) (on : Thread) (shares : Bool) (command : Command) :
    Descends p (execute p on shares command).2 := by
  cases command with
  | start window caller =>
    have first := descends_respond p on (.start window caller)
    simp only [execute, perform, start]
    generalize respond p on (.start window caller) = r at first
    obtain ⟨answer, q⟩ := r
    cases answer with
    | error cause => exact first
    | ok info =>
      simp only
      split
      next => exact first.trans (descends_respond q on .threadsafeQuery)
      next => exact first
  | _ => exact descends_respond ..

theorem descends_ran (w : Worker π) (command : Command) :
    Descends w.provider (w.ran command).provider :=
  descends_execute w.provider .worker w.shares command

/-- What a property that calls preserve says of a provider it says of what becomes of it. -/
theorem Descends.keeps {P : π → Prop} (hP : ∀ p on call, P p → P (SccDispatch.respond p on call).2)
    {p q : π} (h : Descends p q) (hp : P p) : P q := by
  induction h with
  | refl => exact hp
  | tail _ step ih =>
    obtain ⟨on, call, rfl⟩ := step
    exact hP _ on call ih

def Loader.Brings {π : Type} (P : π → Prop) (l : Loader π) : Prop :=
  ∀ last p, l.load last = .ok (.ok p) → P p

def Operation.Brings {π : Type} (P : π → Prop) : Operation π → Prop
  | .bind _ loader _ => loader.Brings P
  | .bindIndex _ load _ _ | .bindName _ load _ _ => ∀ installed, (load installed).Brings P
  | _ => True

namespace Dispatcher

/-- All providers, in the order in which they were let go of; the bound one is the last. -/
def allProviders {π : Type} (d : Dispatcher π) : List π :=
  d.retired.map Retired.provider ++ (d.binding.map fun b => b.worker.provider).toList

/-- The providers kept their places, and those that came after them descend from providers that are
so. -/
def Lineage (P : π → Prop) (d e : Dispatcher π) : Prop :=
  ∃ origins, (∀ p ∈ origins, P p) ∧ List.Forall₂ Descends (d.allProviders ++ origins) e.allProviders

variable {P : π → Prop} {d e f : Dispatcher π} {b c : Binding π}

theorem forall₂_descends_refl (ps : List π) : List.Forall₂ Descends ps ps :=
  List.forall₂_same.mpr fun p _ => .refl p

theorem forall₂_descends_trans {ps qs rs : List π} (h : List.Forall₂ Descends ps qs)
    (k : List.Forall₂ Descends qs rs) : List.Forall₂ Descends ps rs := by
  induction h generalizing rs with
  | nil => exact k
  | cons first _ ih =>
    cases k with
    | cons next rest => exact .cons (first.trans next) (ih rest)

theorem Lineage.of_kept (h : List.Forall₂ Descends d.allProviders e.allProviders) : Lineage P d e :=
  ⟨[], by simp, by rwa [List.append_nil]⟩

theorem Lineage.of_same (hb : e.binding = d.binding) (hr : e.retired = d.retired) :
    Lineage P d e := by
  have same : e.allProviders = d.allProviders := by rw [allProviders, hb, hr, allProviders]
  exact .of_kept (same ▸ forall₂_descends_refl _)

theorem Lineage.trans (h : Lineage P d e) (k : Lineage P e f) : Lineage P d f := by
  obtain ⟨ps, hps, first⟩ := h
  obtain ⟨qs, hqs, next⟩ := k
  refine ⟨ps ++ qs, fun p hp => (List.mem_append.mp hp).elim (hps p) (hqs p), ?_⟩
  rw [← List.append_assoc]
  exact forall₂_descends_trans (List.rel_append first (forall₂_descends_refl qs)) next

theorem Lineage.of_bound (hb : d.binding = some b) (he : e.binding = some c)
    (hr : e.retired = d.retired) (h : Descends b.worker.provider c.worker.provider) :
    Lineage P d e := by
  refine .of_kept ?_
  simp only [allProviders, hb, he, hr]
  exact List.rel_append (forall₂_descends_refl _) (.cons h .nil)

theorem lineage_ran (hb : d.binding = some b) (command : Command) :
    Lineage P d (d.ran b command) :=
  .of_bound hb rfl rfl (descends_ran b.worker command)

theorem lineage_run (h : d.Idle) (command : Window → Command) : Lineage P d (d.run command).2 := by
  cases hb : d.binding with
  | none => exact .of_same (by simp [run, hb]) (by simp [run, hb])
  | some b =>
    rw [run_of_idle h hb]
    exact lineage_ran hb _

theorem lineage_selectProject (h : d.Idle) (initial : Project) :
    Lineage P d (d.selectProject initial).2 := by
  have ran := lineage_run (P := P) h (.selectProject · initial true)
  rw [selectProject_eq]
  simp only
  split
  next => exact ran.trans (.of_same rfl rfl)
  next => exact ran

theorem lineage_dropProject (h : d.Idle) : Lineage P d d.dropProject.2 :=
  (lineage_run h fun _ => .closeProject).trans (.of_same rfl rfl)

theorem lineage_vacated (h : d.Idle) : Lineage P d d.vacated := by
  unfold vacated
  split
  next => exact lineage_dropProject h
  next => exact .of_same rfl rfl

theorem lineage_openProject (h : d.Idle) (p : Project) : Lineage P d (d.openProject p).2 := by
  cases hb : d.isBound with
  | false =>
    rw [openProject_of_unbound d hb]
    exact .of_same rfl rfl
  | true =>
    have ran := (lineage_vacated (P := P) h).trans
      (lineage_run (idle_vacated h) (d.vacated.openCommand p))
    rw [openProject_of_bound d hb]
    simp only
    split
    next => exact ran.trans (.of_same rfl rfl)
    next => exact ran

theorem lineage_closeProject (h : d.Idle) : Lineage P d d.closeProject.2 := by
  cases hb : d.isBound with
  | false =>
    rw [closeProject_of_unbound d hb]
    exact .of_same rfl rfl
  | true =>
    rw [closeProject_of_bound d hb]
    split
    next => exact lineage_dropProject h
    next => exact .of_same rfl rfl

theorem Lineage.settle (h : Lineage P d e) (r : Request) (out : Option Output) :
    Lineage P d (e.settle r out).2 := by
  unfold Dispatcher.settle
  split
  next => exact h.trans (.of_same rfl rfl)
  next => exact h

theorem lineage_queryDirectly (hb : d.binding = some b) (command : Command) :
    Lineage P d (d.queryDirectly b command).2 := by
  rw [queryDirectly_eq]
  refine .of_bound hb rfl rfl ?_
  exact descends_execute b.worker.provider .caller false command

theorem lineage_request (h : d.Idle) (r : Request) : Lineage P d (d.request r).2 := by
  cases hr : r.idle? with
  | some reply =>
    rw [request_of_noFiles h hr]
    exact .of_same rfl rfl
  | none =>
    cases hb : d.binding with
    | none =>
      rw [request_of_unbound hr hb]
      exact .of_same rfl rfl
    | some b =>
      cases hq : r.isQuery && b.concurrent with
      | true =>
        rw [request_of_direct h hr hb hq]
        exact (lineage_queryDirectly hb _).settle r _
      | false =>
        rw [request_of_queued h hr hb hq]
        exact (lineage_ran hb _).settle r _

theorem lineage_shutdown (h : d.Idle) : Lineage P d d.shutdown := by
  cases hb : d.binding with
  | none =>
    rw [shutdown_of_unbound d hb]
    exact .of_same rfl rfl
  | some b =>
    have parting : Descends b.worker.provider (d.parting b).1.provider := by
      unfold Dispatcher.parting
      split
      next => exact descends_ran b.worker .closeProject
      next => exact .refl _
    have stopped := parting.trans (descends_ran (d.parting b).1 .stop)
    refine .of_kept ?_
    rw [shutdown_of_bound h hb]
    simp only [allProviders, hb, List.map_append, Option.map_none, Option.toList_none,
      List.append_nil]
    exact List.rel_append (forall₂_descends_refl _) (.cons stopped .nil)

/-- A provider that is new takes the last place. -/
theorem Lineage.of_new (hd : d.binding = none) {p q : π} (hp : P p) (hq : Descends p q)
    (he : e.allProviders = d.retired.map Retired.provider ++ [q]) : Lineage P d e := by
  have alone : d.allProviders = d.retired.map Retired.provider := by simp [allProviders, hd]
  refine ⟨[p], by simpa using hp, ?_⟩
  rw [alone, he]
  exact List.rel_append (forall₂_descends_refl _) (.cons hq .nil)

theorem lineage_start (hd : d.binding = none) (name : String) {p : π} (hp : P p)
    (window : Window) : Lineage P d (d.start name p window).2 := by
  have started := descends_ran (d.newWorker p) (.start window d.options.caller)
  rw [start_eq]
  simp only
  split
  next => exact .of_new hd hp started (by simp [attach, allProviders, hd])
  next =>
    -- It did not start, and is let go of at once: it comes last among those.
    have idle := (idle_newWorker (d := d) p).ran (.start window d.options.caller)
    refine .of_new hd hp started ?_
    rw [allProviders, retired_abandon idle]
    simp [abandon, hd, Retired.of]

theorem lineage_bind (hd : d.binding = none) (name : String) {loader : Loader π}
    (hl : loader.Brings P) (window : Window) : Lineage P d (d.bind name loader window).2 := by
  rw [bind_eq]
  split
  next p load => exact lineage_start (d := d.loading name loader.path) hd name (hl _ p load) window
  next => exact .of_same rfl rfl
  next => exact .of_same rfl rfl

theorem lineage_rebind (h : d.Idle) (name : String) {loader : Loader π} (hl : loader.Brings P)
    (window : Window) : Lineage P d (d.rebind name loader window).2 :=
  (lineage_shutdown h).trans (lineage_bind d.binding_shutdown name hl window)

/-- One call lets the providers keep their places. -/
theorem lineage_perform (h : d.Idle) {op : Operation π} (brings : op.Brings P) :
    Lineage P d (d.perform op).2 := by
  cases op with
  | bind name loader window => exact lineage_rebind h name brings window
  | bindIndex registry load index window =>
    simp only [perform, rebindIndex]
    split
    next p _ => exact lineage_rebind h p.name (brings p) window
    next => exact .of_same rfl rfl
  | bindName registry load name window =>
    simp only [perform, rebindName]
    split
    next p _ => exact lineage_rebind h p.name (brings p) window
    next => exact .of_same rfl rfl
  | shutdown => exact lineage_shutdown h
  | selectProject initial => exact lineage_selectProject h initial
  | openProject p => exact lineage_openProject h p
  | closeProject => exact lineage_closeProject h
  | request r => exact lineage_request h r

theorem lineage_performAll (h : d.Idle) {calls : List (Operation π)}
    (brings : ∀ op ∈ calls, op.Brings P) : Lineage P d (d.performAll calls).2 := by
  induction calls generalizing d with
  | nil => exact .of_same rfl rfl
  | cons op rest ih =>
    exact (lineage_perform h (brings op List.mem_cons_self)).trans
      (ih (idle_perform h op) fun op hop => brings op (List.mem_cons_of_mem _ hop))

theorem allProviders_of_retired {π : Type} {d : Dispatcher π} {n : Nat} {r : Retired π}
    (h : d.retired[n]? = some r) : d.allProviders[n]? = some r.provider := by
  obtain ⟨hn, rfl⟩ := List.getElem?_eq_some_iff.mp h
  rw [allProviders, List.getElem?_append_left (by rwa [List.length_map]), List.getElem?_map, h,
    Option.map_some]

/-- What calls preserve, and loaders see to, holds of all providers. -/
theorem Lineage.keeps (hP : ∀ p on call, P p → P (respond p on call).2) (h : Lineage P d e)
    (hd : ∀ p ∈ d.allProviders, P p) : ∀ q ∈ e.allProviders, P q := by
  obtain ⟨origins, ho, descends⟩ := h
  have all : ∀ p ∈ d.allProviders ++ origins, P p := fun p hp =>
    (List.mem_append.mp hp).elim (hd p) (ho p)
  generalize d.allProviders ++ origins = ps, e.allProviders = qs at descends all ⊢
  induction descends with
  | nil => simp
  | cons first _ ih =>
    rw [List.forall_mem_cons] at all ⊢
    exact ⟨first.keeps hP all.1, ih all.2⟩

/-- A provider is found again in its place. -/
theorem Lineage.exists_descends {n : Nat} {p : π} (h : Lineage P d e)
    (hp : d.allProviders[n]? = some p) : ∃ q, e.allProviders[n]? = some q ∧ Descends p q := by
  obtain ⟨origins, -, descends⟩ := h
  obtain ⟨hn, rfl⟩ := List.getElem?_eq_some_iff.mp hp
  have place : n < (d.allProviders ++ origins).length := by
    rw [List.length_append]
    omega
  have place' : n < e.allProviders.length := descends.length_eq ▸ place
  have there := descends.get place place'
  rw [List.get_eq_getElem, List.get_eq_getElem, List.getElem_append_left hn] at there
  exact ⟨e.allProviders[n], List.getElem?_eq_getElem place', there⟩

end Dispatcher

end SccDispatch
