import SccDispatch.Guard

namespace SccDispatch.Guard

variable {α : Type}

namespace Body

/-- How a body ends when its calls are made. -/
def ending : Body α → Except Cause α
  | ends ending => ending
  | calls _ _ next => next.ending

def made : Body α → List (String × Body α)
  | ends _ => []
  | calls operation inner next => inner.made ++ (operation, inner) :: next.made

def results (body : Body α) : List (Except Fault α) :=
  body.made.map fun c => contained c.1 c.2.ending

theorem results_ends (ending : Except Cause α) : (ends ending).results = [] := rfl

/-- Inner calls complete before the call that makes them. -/
theorem results_calls (operation : String) (inner next : Body α) :
    (calls operation inner next).results =
      inner.results ++ [contained operation inner.ending] ++ next.results := by
  simp [results, made]

end Body

@[simp]
theorem contained_ok (operation : String) (a : α) : contained operation (.ok a) = .ok a := rfl

@[simp]
theorem contained_error (operation : String) (cause : Cause) :
    contained (α := α) operation (.error cause) = .error (.of operation cause) := rfl

def faults (results : List (Except Fault α)) : List Fault :=
  results.filterMap fun
    | .ok _ => none
    | .error f => some f

theorem faults_append (rs ss : List (Except Fault α)) :
    faults (rs ++ ss) = faults rs ++ faults ss := List.filterMap_append

namespace Thread

def tell (t : Thread) (fs : List Fault) : Thread := { t with reported := t.reported ++ fs }

@[simp]
theorem active_tell (t : Thread) (fs : List Fault) : (t.tell fs).active = t.active := rfl

@[simp]
theorem reported_tell (t : Thread) (fs : List Fault) :
    (t.tell fs).reported = t.reported ++ fs := rfl

theorem active_enter (t : Thread) : t.enter.active = some t.depth := rfl

end Thread

def Exit.within (region : Nat) : Except Cause α → Exit α
  | .ok a => .value a
  | .error (.hardware trap) => .jump region trap
  | .error cause => .gaveUp cause

/-- A region takes the exit of its own body, and the thread is back where it was. -/
theorem settle_within (operation : String) (ending : Except Cause α) (outer : Thread) {t : Thread}
    {fs : List Fault} (ht : t.reported = outer.reported ++ fs) :
    settle operation outer (.within outer.depth ending) t =
      (.result (contained operation ending),
        outer.tell (fs ++ faults [contained operation ending])) := by
  have hl : t.leave outer = outer.tell fs := by simp [Thread.leave, Thread.tell, ht]
  have hr (f : Fault) : (t.leave outer).report f = outer.tell (fs ++ [f]) := by
    simp [hl, Thread.report, Thread.tell]
  rcases ending with (text | _ | trap) | a
  · exact congrArg (Prod.mk _) (hr _)
  · exact congrArg (Prod.mk _) (hr _)
  · simp only [Exit.within, settle, if_pos]
    exact congrArg (Prod.mk _) (hr _)
  · simp only [Exit.within, settle, hl]
    simp [faults]

/-- In a region a body ends as its last part does, whatever happened in the calls before. The thread
may have lost its region, but only with a jump that the region takes. -/
theorem run_within (body : Body α) {t : Thread} {region : Nat} (ht : t.active = some region) :
    (body.run t).1 = .within region body.ending ∧ (body.run t).2.1 = body.results ∧
      (body.run t).2.2.reported = t.reported ++ faults body.results := by
  induction body generalizing t region with
  | ends ending =>
    rcases ending with (text | _ | trap) | a
    · exact ⟨rfl, rfl, (List.append_nil _).symm⟩
    · exact ⟨rfl, rfl, (List.append_nil _).symm⟩
    · simp [Body.run, Thread.raise, ht, Exit.within, Body.ending, Body.results_ends, faults]
    · exact ⟨rfl, rfl, (List.append_nil _).symm⟩
  | calls operation inner next ihi ihn =>
    obtain ⟨hexit, hdone, hreported⟩ := ihi t.active_enter
    have hs := settle_within operation inner.ending t hreported
    rw [← hexit] at hs
    obtain ⟨he, hd, hr⟩ := ihn (t := t.tell (faults inner.results ++
      faults [contained operation inner.ending])) ht
    simp only [Body.run, hs]
    refine ⟨he, ?_, ?_⟩
    · rw [hdone, hd, Body.results_calls, List.append_cons]
    · rw [hr, Body.results_calls, Thread.reported_tell, faults_append, faults_append,
        List.append_assoc]

/-- A guarded call results in what its body ends with, and so does every call inside it. -/
theorem guarded_eq (operation : String) (body : Body α) (t : Thread) :
    guarded operation body t =
      (.result (contained operation body.ending), body.results,
        t.tell (faults body.results ++ faults [contained operation body.ending])) := by
  obtain ⟨hexit, hdone, hreported⟩ := run_within body t.active_enter
  have hs := settle_within operation body.ending t hreported
  rw [← hexit] at hs
  simp only [guarded, hs, hdone]

def Thread.after (t : Thread) (calls : List (String × Body α)) : Thread :=
  calls.foldl (fun t c => (guarded c.1 c.2 t).2.2) t

/-- Guarded calls leave the active region as it was. -/
theorem active_after (t : Thread) (calls : List (String × Body α)) :
    (t.after calls).active = t.active := by
  induction calls generalizing t with
  | nil => rfl
  | cons c calls ih =>
    have hc : (guarded c.1 c.2 t).2.2.active = t.active := by rw [guarded_eq, Thread.active_tell]
    exact (ih _).trans hc

/-- A result comes out of the region only if the body ends with it. -/
theorem contained_eq_ok_iff {operation : String} {ending : Except Cause α} {v : α} :
    contained operation ending = .ok v ↔ ending = .ok v := by
  cases ending <;> simp

theorem contained_eq_error_iff {operation : String} {ending : Except Cause α} {f : Fault} :
    contained operation ending = .error f ↔
      ∃ cause, ending = .error cause ∧ f = ⟨operation, cause.text⟩ := by
  cases ending <;> simp [Fault.of, eq_comm]

/-- A guarded call returns the value of its own body or a fault of its own, and likewise each call
inside it, none of which changes how the call around it ends. The thread is left in the region it
was in, so that a call made later results in what it does on a fresh thread. -/
theorem faults_contained {β : Type} (operation : String) (body : Body α) (t : Thread) :
    (∀ v, (guarded operation body t).1 = .result (.ok v) ↔ body.ending = .ok v) ∧
      (∀ f, (guarded operation body t).1 = .result (.error f) ↔
        ∃ cause, body.ending = .error cause ∧ f = ⟨operation, cause.text⟩) ∧
      (guarded operation body t).2.1 = body.made.map (fun c => contained c.1 c.2.ending) ∧
      (∀ other inner, (guarded operation (.calls other inner body) t).1 =
        (guarded operation body t).1) ∧
      (guarded operation body t).2.2.active = t.active ∧
      ∀ earlier : List (String × Body β),
        (t.after earlier).active = t.active ∧
          (guarded operation body (t.after earlier)).1 = (guarded operation body {}).1 ∧
          (guarded operation body (t.after earlier)).2.1 = (guarded operation body {}).2.1 := by
  simp only [guarded_eq, Ended.result.injEq]
  refine ⟨fun v => contained_eq_ok_iff, fun f => contained_eq_error_iff, rfl, fun _ _ => rfl, rfl,
    fun earlier => ⟨active_after t earlier, trivial, trivial⟩⟩

end SccDispatch.Guard
