import SccDispatch.Dispatcher

namespace SccDispatch

/-- A call with its arguments. -/
inductive Operation (π : Type)
  | bind (name : String) (loader : Loader π) (window : Window)
  | bindIndex (registry : Registry) (load : Installed → Loader π) (index : Nat) (window : Window)
  | bindName (registry : Registry) (load : Installed → Loader π) (name : String) (window : Window)
  | shutdown
  | selectProject (initial : Project)
  | openProject (p : Project)
  | closeProject
  | request (r : Request)

inductive Answer
  | bound (success : Bool)
  | released
  | chosen (choice : Option Project)
  | opened (success : Bool)
  | closed (success : Bool)
  | replied (reply : Reply)
  deriving DecidableEq, Repr

def Output.choice? : Output → Option ProjectChoice
  | .projectPath choice => if choice.code.isOk then some choice else none
  | _ => none

def Journal.queried (j : Journal) : Output → Journal
  | .faulted f => (j.count .recordDirectQuery).fault f .caller
  | _ => j.count .recordDirectQuery

namespace Operation

variable {π : Type}

def mapLoader {ρ : Type} (g : Loader π → Loader ρ) : Operation π → Operation ρ
  | bind name loader window => .bind name (g loader) window
  | bindIndex registry load index window => .bindIndex registry (fun p => g (load p)) index window
  | bindName registry load name window => .bindName registry (fun p => g (load p)) name window
  | shutdown => .shutdown
  | selectProject initial => .selectProject initial
  | openProject p => .openProject p
  | closeProject => .closeProject
  | request r => .request r

def provider? : Operation π → Option String
  | bind name _ _ => some name
  | bindIndex registry _ index _ => registry.name? index
  | bindName registry _ name _ => (registry.find? name).map Installed.name
  | _ => none

def boundName? (op : Operation π) : Answer → Option String
  | .bound true => op.provider?
  | _ => none

/-- The names of the providers that were bound, oldest first. -/
def boundNames (calls : List (Operation π)) (answers : List Answer) : List String :=
  (calls.zip answers).filterMap fun c => c.1.boundName? c.2

/-- What the last answered call tells comes before what the others tell. -/
theorem getLast?_filterMap_zip_concat {α : Type} {calls : List (Operation π)}
    {answers : List Answer} (h : calls.length = answers.length)
    (f : Operation π × Answer → Option α) (op : Operation π) (a : Answer) :
    (((calls ++ [op]).zip (answers ++ [a])).filterMap f).getLast? =
      (f (op, a)).or ((calls.zip answers).filterMap f).getLast? := by
  rw [List.zip_append h, List.filterMap_append]
  cases ha : f (op, a) <;> simp [ha]

theorem getLast?_boundNames_concat {calls : List (Operation π)} {answers : List Answer}
    (h : calls.length = answers.length) (op : Operation π) (a : Answer) :
    (boundNames (calls ++ [op]) (answers ++ [a])).getLast? =
      (op.boundName? a).or (boundNames calls answers).getLast? :=
  getLast?_filterMap_zip_concat h _ op a

end Operation

namespace Dispatcher

variable {π : Type} [Provider π]

def perform (d : Dispatcher π) : Operation π → Answer × Dispatcher π
  | .bind name loader window => (d.rebind name loader window).map .bound id
  | .bindIndex registry load index window =>
    (d.rebindIndex registry load index window).map .bound id
  | .bindName registry load name window => (d.rebindName registry load name window).map .bound id
  | .shutdown => (.released, d.shutdown)
  | .selectProject initial => (d.selectProject initial).map .chosen id
  | .openProject p => (d.openProject p).map .opened id
  | .closeProject => d.closeProject.map .closed id
  | .request r => (d.request r).map .replied id

def performAll (d : Dispatcher π) : List (Operation π) → List Answer × Dispatcher π
  | [] => ([], d)
  | op :: rest =>
    let (a, d) := d.perform op
    let (as, d) := d.performAll rest
    (a :: as, d)

variable (d : Dispatcher π)

theorem performAll_append (a b : List (Operation π)) :
    d.performAll (a ++ b) =
      ((d.performAll a).1 ++ ((d.performAll a).2.performAll b).1,
        ((d.performAll a).2.performAll b).2) := by
  induction a generalizing d with
  | nil => rfl
  | cons op rest ih => simp only [List.cons_append, performAll, ih]

theorem length_performAll (calls : List (Operation π)) :
    (d.performAll calls).1.length = calls.length := by
  induction calls generalizing d with
  | nil => rfl
  | cons op rest ih => simp [performAll, ih]

def loading (name : String) (path : Option String) : Dispatcher π :=
  { d with
    journal :=
      ((d.journal.write .info ("Initializing source control provider " ++ name)).setPhase
        .loading).writePath path }

def loadFaulted (f : Fault) : Dispatcher π :=
  { d with journal := d.journal.write .error f.text .worker }

theorem bind_eq (name : String) (loader : Loader π) (window : Window) :
    d.bind name loader window =
      match loader.load d.lastRetired with
      | .ok (.ok provider) => (d.loading name loader.path).start name provider window
      | .ok (.error e) => (d.loading name loader.path).refuse name e
      | .error cause =>
        ((d.loading name loader.path).loadFaulted (.of "load" cause)).refuse name
          (.fault (.of "load" cause)) := rfl

def choosing (choice : ProjectChoice) : Dispatcher π :=
  { d with selected := some choice.project }.write .info
    ("Selected project " ++ choice.project.name ++ " (new: " ++ boolText choice.isNew ++ ")")

theorem selectProject_eq (initial : Project) :
    d.selectProject initial =
      let (out, e) := d.run (.selectProject · initial true)
      match out.bind Output.choice? with
      | some choice => (some choice.project, e.choosing choice)
      | none => (none, e) := by
  unfold selectProject
  generalize d.run (.selectProject · initial true) = r
  obtain ⟨out, e⟩ := r
  rcases out with _ | out
  · rfl
  · cases out with
    | projectPath choice =>
      simp only [Option.bind_some, Output.choice?]
      cases choice.code.isOk <;> rfl
    | _ => rfl

theorem selectProject_of_unbound (h : d.isBound = false) (initial : Project) :
    d.selectProject initial = (none, d) := by
  have hb : d.binding = none := by simpa [isBound] using h
  simp [selectProject, run, hb]

def vacated : Dispatcher π := if d.project.isSome then d.dropProject.2 else d

def openCommand (p : Project) (window : Window) : Command :=
  .openProject window p "" (if d.options.createMissing then SccDispatch.createMissing else 0)

def entered (p : Project) : Dispatcher π :=
  let d := d.write .info ("Opened source control project " ++ p.name)
  { d with project := some p, journal := d.journal.opened p }

theorem openProject_of_bound (h : d.isBound = true) (p : Project) :
    d.openProject p =
      let (out, e) := d.vacated.run (d.vacated.openCommand p)
      if out.any Output.succeeded then (true, e.entered p) else (false, e) := by
  obtain ⟨b, hb⟩ := Option.isSome_iff_exists.mp h
  simp only [openProject, hb]
  rfl

def opening (p : Project) : Bool × Dispatcher π :=
  let (out, e) := d.run (d.openCommand p)
  if out.any Output.succeeded then (true, e.entered p) else (false, e)

theorem openProject_eq_opening (h : d.isBound = true) (p : Project) :
    d.openProject p = d.vacated.opening p := openProject_of_bound d h p

theorem openProject_of_unbound (h : d.isBound = false) (p : Project) :
    d.openProject p = (false, d) := by
  have hb : d.binding = none := by simpa [isBound] using h
  simp [openProject, hb]

theorem closeProject_of_bound (h : d.isBound = true) :
    d.closeProject = if d.project.isSome then d.dropProject else (true, d) := by
  obtain ⟨b, hb⟩ := Option.isSome_iff_exists.mp h
  simp only [closeProject, hb]

theorem closeProject_of_unbound (h : d.isBound = false) : d.closeProject = (false, d) := by
  have hb : d.binding = none := by simpa [isBound] using h
  simp [closeProject, hb]

theorem queryDirectly_eq (b : Binding π) (command : Command) :
    d.queryDirectly b command =
      let r := execute b.worker.provider .caller false command
      (r.1,
        { d with
          binding := some { b with worker := { b.worker with provider := r.2 } }
          journal := d.journal.queried r.1 }) := rfl

theorem shutdown_of_unbound (h : d.binding = none) : d.shutdown = d := by simp [shutdown, h]

theorem binding_shutdown : d.shutdown.binding = none := by
  unfold shutdown
  split
  next h => exact h
  next => rfl

end Dispatcher

end SccDispatch
