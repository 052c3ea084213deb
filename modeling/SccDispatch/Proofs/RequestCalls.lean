import SccDispatch.Proofs.EventHistory
import SccDispatch.Proofs.ProgramRuns

namespace SccDispatch

/-- The call that a request means to the provider, and all that is handed over with it. -/
inductive Request.Means (window : Window) : Request → Call → Prop
  | checkOut (files : List String) (comment : String) :
      Means window (.checkOut files comment) (.checkOut window files comment)
  | checkIn (files : List String) (comment : String) :
      Means window (.checkIn files comment false) (.checkIn window files comment 0)
  | checkInKeep (files : List String) (comment : String) :
      Means window (.checkIn files comment true) (.checkIn window files comment keepCheckedOut)
  | undoCheckOut (files : List String) :
      Means window (.undoCheckOut files) (.undoCheckOut window files)
  | add (files : List String) (comment : String) :
      Means window (.add files comment) (.add window files comment)
  | remove (files : List String) (comment : String) :
      Means window (.remove files comment) (.remove window files comment)
  | history (files : List String) : Means window (.history files) (.history window files)
  | diff (file : String) : Means window (.diff file) (.diff window file)
  | properties (file : String) : Means window (.properties file) (.properties window file)

/-- A request that asks for no status means the call of its command. -/
theorem Request.means_call {r : Request} (h : r.isQuery = false) (window : Window) :
    r.Means window (r.command window).call := by
  cases r with
  | checkIn files comment keep =>
    cases keep with
    | false => exact .checkIn files comment
    | true => exact .checkInKeep files comment
  | fileStatus | fileStatuses => cases h
  | _ => constructor

variable {π : Type}

namespace Operation

def window? : Operation π → Option Window
  | bind _ _ window | bindIndex _ _ _ window | bindName _ _ _ window => some window
  | _ => none

def boundWindow? (op : Operation π) : Answer → Option Window
  | .bound true => op.window?
  | _ => none

/-- The windows that providers were bound with, oldest first. -/
def boundWindows (calls : List (Operation π)) (answers : List Answer) : List Window :=
  (calls.zip answers).filterMap fun c => c.1.boundWindow? c.2

end Operation

namespace Dispatcher

def window? (d : Dispatcher π) : Option Window := d.binding.map Binding.window

variable [Provider π] {d : Dispatcher π} {b : Binding π}

theorem window?_run (command : Window → Command) : (d.run command).2.window? = d.window? := by
  unfold run
  split
  next => rfl
  next b h => simp [window?, h]

omit [Provider π] in
theorem window?_settle (r : Request) (out : Option Output) :
    (d.settle r out).2.window? = d.window? := by
  unfold settle
  split <;> rfl

theorem window?_selectProject (initial : Project) :
    (d.selectProject initial).2.window? = d.window? := by
  have hr := window?_run (d := d) (.selectProject · initial true)
  rw [selectProject_eq, ← hr]
  simp only
  split <;> rfl

theorem window?_dropProject : d.dropProject.2.window? = d.window? :=
  window?_run fun _ => .closeProject

theorem window?_vacated : d.vacated.window? = d.window? := by
  unfold vacated
  split
  next => exact window?_dropProject
  next => rfl

theorem window?_openProject (p : Project) : (d.openProject p).2.window? = d.window? := by
  cases hb : d.isBound with
  | false => rw [openProject_of_unbound d hb]
  | true =>
    have hr := (window?_run (d.vacated.openCommand p)).trans (window?_vacated (d := d))
    rw [openProject_of_bound d hb, ← hr]
    simp only
    split <;> rfl

theorem window?_closeProject : d.closeProject.2.window? = d.window? := by
  cases hb : d.isBound with
  | false => rw [closeProject_of_unbound d hb]
  | true =>
    rw [closeProject_of_bound d hb]
    split
    next => exact window?_dropProject
    next => rfl

/-- A request keeps the window of the binding. -/
theorem window?_request (h : d.Idle) (r : Request) : (d.request r).2.window? = d.window? := by
  cases hr : r.idle? with
  | some reply => rw [request_of_noFiles h hr]
  | none =>
    cases hb : d.binding with
    | none => rw [request_of_unbound hr hb]
    | some b =>
      have bound : d.window? = some b.window := by simp [window?, hb]
      cases hq : r.isQuery && b.concurrent with
      | true => rw [request_of_direct h hr hb hq, window?_settle, bound]; rfl
      | false => rw [request_of_queued h hr hb hq, window?_settle, bound]; rfl

/-- A provider is bound with the window that it was to be bound with, or none is bound. -/
theorem window?_rebind (name : String) (loader : Loader π) (window : Window) :
    (d.rebind name loader window).2.window? =
      if (d.rebind name loader window).1 then some window else none := by
  have hb := d.rebind_fst name loader window
  cases hs : (d.rebind name loader window).1 with
  | false =>
    have unbound : (d.rebind name loader window).2.binding = none := by
      simpa [hs, isBound] using hb
    simp [window?, unbound]
  | true =>
    obtain ⟨b, bound⟩ := Option.isSome_iff_exists.mp (hb.symm.trans hs)
    simp [window?, bound, d.shutdown.window_of_bind name loader window hs bound]

/-- The window is that of the call if the call has bound a provider; it stays as long as the
provider is bound. -/
theorem window?_perform (h : d.Idle) (op : Operation π) {window : Window}
    (hw : (d.perform op).2.window? = some window) :
    (op.boundWindow? (d.perform op).1).or d.window? = some window := by
  have rebound : ∀ name loader w, (d.rebind name loader w).2.window? = some window →
      (d.rebind name loader w).1 = true ∧ w = window := by
    intro name loader w hr
    rw [window?_rebind] at hr
    split at hr
    next hs => exact ⟨hs, Option.some.inj hr⟩
    next => cases hr
  cases op with
  | bind name loader w =>
    obtain ⟨hs, rfl⟩ := rebound name loader w hw
    simp [perform, hs, Operation.boundWindow?, Operation.window?]
  | bindIndex registry load index w =>
    simp only [perform, rebindIndex] at hw ⊢
    split at hw
    next p hp =>
      obtain ⟨hs, rfl⟩ := rebound p.name (load p) w hw
      simp [hs, Operation.boundWindow?, Operation.window?]
    next => exact hw
  | bindName registry load name w =>
    simp only [perform, rebindName] at hw ⊢
    split at hw
    next p hp =>
      obtain ⟨hs, rfl⟩ := rebound p.name (load p) w hw
      simp [hs, Operation.boundWindow?, Operation.window?]
    next => exact hw
  | shutdown => simp [perform, window?, binding_shutdown] at hw
  | selectProject initial => exact (window?_selectProject (d := d) initial) ▸ hw
  | openProject p => exact (window?_openProject (d := d) p) ▸ hw
  | closeProject => exact window?_closeProject (d := d) ▸ hw
  | request r => exact window?_request h r ▸ hw

/-- The bound provider was bound by the last call that bound one, with that call's window. -/
theorem getLast?_boundWindows (options : Options) (calls : List (Operation π)) {window : Window}
    (hw : (({ options } : Dispatcher π).performAll calls).2.window? = some window) :
    (Operation.boundWindows calls
      (({ options } : Dispatcher π).performAll calls).1).getLast? = some window := by
  induction calls using List.reverseRecOn generalizing window with
  | nil => cases hw
  | append_singleton calls op ih =>
    have idle := idle_performAll (idle_of_unbound rfl : ({ options } : Dispatcher π).Idle) calls
    have length := ({ options } : Dispatcher π).length_performAll calls
    rw [performAll_append] at hw ⊢
    have last := window?_perform idle op hw
    have latest := Operation.getLast?_filterMap_zip_concat length.symm
      (fun c => c.1.boundWindow? c.2) op
      ((({ options } : Dispatcher π).performAll calls).2.perform op).1
    refine latest.trans ?_
    cases ha : op.boundWindow? ((({ options } : Dispatcher π).performAll calls).2.perform op).1 with
    | some w => simpa [ha] using last
    | none =>
      rw [ha, Option.none_or] at last
      exact ih last

/-- A request about no files is met at once and leaves everything as it is. Any other becomes one
call of the bound provider, with all that the caller gave and the window of the call that bound the
provider, and it is answered by whether the provider did what it was asked. -/
theorem requests_passed_on (options : Options) (calls : List (Operation (Recorded π))) :
    let run := ({ options } : Dispatcher (Recorded π)).performAll calls
    ∀ b, run.2.binding = some b → ∀ r : Request, r.isQuery = false →
      (Operation.boundWindows calls run.1).getLast? = some b.window ∧
        (r.files = [] → run.2.request r = (.done true, run.2)) ∧
        (r.files ≠ [] → ∃ call answer c, r.Means b.window call ∧
          Heard run.2 b [.heard .worker call answer] (run.2.request r).2 c ∧
          (run.2.request r).1 = .done (call.fine answer)) ∧
        (run.2.request r).2.view = run.2.view := by
  intro run b hb r hq
  have idle : run.2.Idle := idle_performAll (idle_of_unbound rfl) calls
  have window : run.2.window? = some b.window := by simp [window?, hb]
  refine ⟨getLast?_boundWindows options calls window, fun hf => ?_, fun hf => ?_,
    run.2.view_request r⟩
  · exact request_of_noFiles idle (by simp [Request.idle?, hf, hq])
  · obtain ⟨c, answer, heard, reply⟩ := heard_request idle hb hq hf
    exact ⟨_, answer, c, Request.means_call hq b.window, heard, reply⟩

open Rehearsal

def checksNothingIn : Loader (Recorded Scripted) where
  load _ := .ok (.ok ⟨{ script := ⟨[(.checkIn, [{ ending := .ok (-1) }])]⟩ }, []⟩)

theorem requests_passed_on_checkIn :
    let calls := [.bind "only" checksNothingIn .none, .bind "only" checksNothingIn ⟨7⟩]
    let d := (({} : Dispatcher (Recorded Scripted)).performAll calls).2
    let r := Request.checkIn ["a", "b"] "done" true
    ∃ b c answer, d.binding = some b ∧ r.isQuery = false ∧ r.files ≠ [] ∧
      Heard d b [.heard .worker (.checkIn ⟨7⟩ ["a", "b"] "done" keepCheckedOut) answer]
        (d.request r).2 c ∧ (d.request r).1 = .done false := by
  intro calls d r
  obtain ⟨-, -, passed, -⟩ := requests_passed_on {} calls _ rfl r rfl
  obtain ⟨call, answer, c, means, heard, -⟩ := passed (List.cons_ne_nil "a" ["b"])
  have means : Request.Means ⟨7⟩ (.checkIn ["a", "b"] "done" true) call := means
  cases means
  exact ⟨_, c, answer, rfl, rfl, List.cons_ne_nil "a" ["b"], heard, by decide +kernel⟩

end Dispatcher

end SccDispatch
