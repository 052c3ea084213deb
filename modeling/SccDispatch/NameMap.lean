namespace SccDispatch

/-- Entries in order of their first insertion; no name stands twice. -/
structure NameMap where
  entries : List (String × String)
  nodup : (entries.map Prod.fst).Nodup
  deriving DecidableEq

namespace NameMap

def empty : NameMap := ⟨[], List.nodup_nil⟩

instance : Inhabited NameMap := ⟨empty⟩

/-- Gives `name` the path `path`, in its old place if it has one, else at the end. -/
def put (name path : String) : List (String × String) → List (String × String)
  | [] => [(name, path)]
  | e :: rest => if e.1 = name then (name, path) :: rest else e :: put name path rest

theorem mem_names_put {name path x : String} {es : List (String × String)} :
    x ∈ (put name path es).map Prod.fst ↔ x = name ∨ x ∈ es.map Prod.fst := by
  induction es with
  | nil => simp [put]
  | cons e rest ih =>
    by_cases h : e.1 = name
    · simp [put, h]
    · simp only [put, h, if_false, List.map_cons, List.mem_cons, ih]
      exact or_left_comm

theorem nodup_names_put {name path : String} {es : List (String × String)}
    (h : (es.map Prod.fst).Nodup) : ((put name path es).map Prod.fst).Nodup := by
  induction es with
  | nil => simp [put]
  | cons e rest ih =>
    rw [List.map_cons, List.nodup_cons] at h
    by_cases hn : e.1 = name
    · rw [put, if_pos hn, List.map_cons, List.nodup_cons]
      exact ⟨hn ▸ h.1, h.2⟩
    · simp only [put, hn, if_false, List.map_cons, List.nodup_cons]
      exact ⟨fun hm => (mem_names_put.1 hm).elim hn h.1, ih h.2⟩

def insert (m : NameMap) (name path : String) : NameMap :=
  ⟨put name path m.entries, nodup_names_put m.nodup⟩

/-- A name that comes again keeps its place and takes the later path. -/
def ofList (es : List (String × String)) : NameMap :=
  es.foldl (fun m e => m.insert e.1 e.2) empty

def isEmpty (m : NameMap) : Bool := m.entries.isEmpty

end NameMap

end SccDispatch
