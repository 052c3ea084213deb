import Mathlib.Data.List.Induction
import SccDispatch.Proofs.VisibleState
import SccDispatch.Proofs.Operations

namespace SccDispatch

namespace View

variable {π : Type}

def next (v : View) (op : Operation π) : Answer → View
  | .bound success =>
    match op.provider? with
    | some name => v.released.rebound name success
    | none => v
  | .released => v.released
  | .chosen choice => v.chosen choice
  | .opened success =>
    match v.bound, op with
    | true, .openProject p => v.dropped.opened p success
    | _, _ => v
  | .closed _ => if v.bound then v.dropped else v
  | .replied _ => v

def ready (name : String) (project : Option Project) : SessionState :=
  { phase := if project.isSome then .projectOpen else .ready
    provider := some name
    project }

/-- Nothing is bound and nothing is left over, or the provider bound last is and the session
tells so. -/
def Sound (v : View) (last : Option String) : Prop :=
  v = {} ∨ ∃ name, last = some name ∧ v.bound = true ∧ v.standing = ready name v.project

/-- A sound view is the one of the start once the provider was let go of. -/
theorem sound_released {v : View} {last : Option String} (h : v.Sound last) : v.released = {} := by
  rcases h with rfl | ⟨name, -, hb, -⟩
  · rfl
  · simp [released, hb]

theorem sound_dropped {v : View} {last : Option String} (h : v.Sound last) :
    v.dropped.Sound last ∧ v.dropped.bound = v.bound ∧ v.dropped.project = none := by
  rcases h with rfl | ⟨name, rfl, hb, hs⟩
  · exact ⟨.inl rfl, rfl, rfl⟩
  · cases hp : v.project with
    | none =>
      refine ⟨.inr ⟨name, rfl, ?_⟩, ?_⟩
      all_goals simp [dropped, hp, hb, hs]
    | some p =>
      refine ⟨.inr ⟨name, rfl, ?_⟩, ?_⟩
      all_goals simp [dropped, hp, hb, hs, ready, SessionState.closed]

theorem sound_opened {v : View} {last : Option String} (h : v.Sound last) (hb : v.bound = true)
    (p : Project) (success : Bool) : (v.opened p success).Sound last := by
  cases success with
  | false => exact h
  | true =>
    rcases h with rfl | ⟨name, rfl, -, hs⟩
    · cases hb
    · exact .inr ⟨name, rfl, hb, by simp [opened, hs, ready, SessionState.opened]⟩

theorem sound_chosen {v : View} {last : Option String} (h : v.Sound last)
    (choice : Option Project) (hc : v.bound = false → choice = none) :
    (v.chosen choice).Sound last := by
  rcases h with rfl | ⟨name, rfl, hb, hs⟩
  · simp [hc rfl, chosen, Sound]
  · refine .inr ⟨name, rfl, ?_⟩
    cases choice <;> exact ⟨hb, hs⟩

/-- A bind leaves a sound view, with the name that was bound. -/
theorem sound_rebound {v : View} {last : Option String} (h : v.Sound last) (name : String)
    (success : Bool) :
    (v.released.rebound name success).Sound (if success then some name else last) := by
  rw [sound_released h]
  cases success with
  | false => exact .inl rfl
  | true => exact .inr ⟨name, rfl, rfl, rfl⟩

theorem sound_next {v : View} {last : Option String} (h : v.Sound last) (op : Operation π)
    (a : Answer) (hc : ∀ p, a = .chosen (some p) → v.bound = true) :
    (v.next op a).Sound ((op.boundName? a).or last) := by
  -- By the answer: what a call does to the view depends on little else.
  cases a with
  | bound success =>
    simp only [next, Operation.boundName?]
    cases hp : op.provider? with
    | none => cases success <;> exact h
    | some name =>
      have := sound_rebound h name success
      cases success <;> exact this
  | released => exact .inl (sound_released h)
  | chosen choice =>
    refine sound_chosen h choice fun hb => ?_
    cases choice with
    | none => rfl
    | some p => exact absurd (hc p rfl) (by simp [hb])
  | opened success =>
    simp only [next]
    split
    next p hb =>
      obtain ⟨hd, he, -⟩ := sound_dropped h
      exact sound_opened hd (he.trans hb) _ success
    next => exact h
  | closed success =>
    simp only [next]
    split
    next => exact (sound_dropped h).1
    next => exact h
  | replied reply => exact h

end View

namespace Dispatcher

variable {π : Type} [Provider π] (d : Dispatcher π)

/-- Each function does to the view what its answer says. -/
theorem view_perform (op : Operation π) :
    (d.perform op).2.view = d.view.next op (d.perform op).1 := by
  cases op with
  | bind name loader window => exact d.view_rebind name loader window
  | bindIndex registry load index window =>
    cases h : registry.get? index with
    | none => simp [perform, rebindIndex, View.next, Operation.provider?, Registry.name?, h]
    | some p =>
      simp only [perform, rebindIndex, View.next, Operation.provider?, Registry.name?, h]
      exact d.view_rebind p.name (load p) window
  | bindName registry load name window =>
    cases h : registry.find? name with
    | none => simp [perform, rebindName, View.next, Operation.provider?, h]
    | some p =>
      simp only [perform, rebindName, View.next, Operation.provider?, h]
      exact d.view_rebind p.name (load p) window
  | shutdown => exact d.view_shutdown
  | selectProject initial => exact d.view_selectProject initial
  | openProject p =>
    cases hb : d.isBound with
    | true => simpa [perform, View.next, view, hb] using d.view_openProject p hb
    | false => simp [perform, View.next, view, hb, d.openProject_of_unbound hb]
  | closeProject =>
    cases hb : d.isBound with
    | true => simpa [perform, View.next, view, hb] using d.view_closeProject hb
    | false => simp [perform, View.next, view, hb, d.closeProject_of_unbound hb]
  | request r => exact d.view_request r

theorem sound_perform {last : Option String} (h : d.view.Sound last) (op : Operation π) :
    (d.perform op).2.view.Sound ((op.boundName? (d.perform op).1).or last) := by
  rw [view_perform]
  refine View.sound_next h op _ fun p hp => ?_
  cases hb : d.isBound with
  | true => exact hb
  | false =>
    cases op with
    | selectProject initial => simp [perform, d.selectProject_of_unbound hb] at hp
    | _ => cases hp

theorem sound_performAll (options : Options) (calls : List (Operation π)) :
    let r := ({ options } : Dispatcher π).performAll calls
    r.2.view.Sound (Operation.boundNames calls r.1).getLast? := by
  induction calls using List.reverseRecOn with
  | nil => exact .inl rfl
  | append_singleton calls op ih =>
    have h := sound_perform _ ih op
    simp only [performAll_append, performAll]
    rw [Operation.getLast?_boundNames_concat (length_performAll _ calls).symm]
    exact h

/-- What the session, the binding and the projects tell; `last` is the name under which a provider
was bound last. -/
structure Agrees (d : Dispatcher π) (last : Option String) : Prop where
  settled : d.journal.session.state.phase ∈ [.unloaded, .ready, .projectOpen]
  unloaded : d.journal.session.state.phase = .unloaded ↔ d.isBound = false
  unnamed : d.journal.session.state.provider = none ↔ d.isBound = false
  opened : d.journal.session.state.phase = .projectOpen ↔ d.project.isSome
  project : d.journal.session.state.project = d.project
  cleared : d.isBound = false → d.project = none ∧ d.selected = none
  named : d.isBound = true → d.journal.session.state.provider = last

omit [Provider π] in
/-- In a sound view session, binding and projects agree. -/
theorem agrees_of_sound {d : Dispatcher π} {last : Option String} (h : d.view.Sound last) :
    d.Agrees last := by
  rcases h with h | ⟨name, rfl, hb, hs⟩
  · have hb : d.isBound = false := congrArg View.bound h
    have hp : d.project = none := congrArg View.project h
    have hc : d.selected = none := congrArg View.selected h
    have hs : d.journal.session.state.standing = {} := congrArg View.standing h
    have phase : d.journal.session.state.phase = .unloaded := congrArg SessionState.phase hs
    have provider : d.journal.session.state.provider = none := congrArg SessionState.provider hs
    have project : d.journal.session.state.project = none := congrArg SessionState.project hs
    constructor <;> simp [hb, hp, hc, phase, provider, project]
  · have hb : d.isBound = true := hb
    have hs : d.journal.session.state.standing = View.ready name d.project := hs
    have phase : d.journal.session.state.phase =
      if d.project.isSome then .projectOpen else .ready := congrArg SessionState.phase hs
    have provider : d.journal.session.state.provider = some name :=
      congrArg SessionState.provider hs
    have project : d.journal.session.state.project = d.project :=
      congrArg SessionState.project hs
    cases hp : d.project <;> constructor <;> simp [hb, hp, phase, provider, project]

theorem rebind_fst (name : String) (loader : Loader π) (window : Window) :
    (d.rebind name loader window).1 = (d.rebind name loader window).2.isBound := by
  have h := congrArg View.bound (d.view_rebind name loader window)
  have hr : d.view.released.bound = false := by
    unfold View.released
    split
    next => rfl
    next h => exact Bool.eq_false_iff.mpr h
  refine Eq.trans ?_ h.symm
  cases (d.rebind name loader window).1 <;> simp [View.rebound, hr]

/-- However the calls went, the session agrees with the dispatcher after the last of them; and if
that was to bind a provider, it was answered by whether one is bound. -/
theorem performAll_agrees (options : Options) (calls : List (Operation π)) :
    let r := ({ options } : Dispatcher π).performAll calls
    r.2.Agrees (Operation.boundNames calls r.1).getLast? ∧
      ∀ before name loader window, calls = before ++ [.bind name loader window] →
        r.1.getLast? = some (.bound r.2.isBound) := by
  intro r
  refine ⟨agrees_of_sound (sound_performAll options calls), ?_⟩
  rintro before name loader window rfl
  simp only [r, performAll_append, performAll, perform]
  rw [List.getLast?_concat]
  exact congrArg (some ∘ Answer.bound) (rebind_fst _ name loader window)

end Dispatcher

end SccDispatch
