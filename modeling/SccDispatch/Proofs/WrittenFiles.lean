import SccDispatch.Files.Store

namespace SccDispatch

def withEntry (name : String) (e : Entry) (es : List (String × Entry)) : List (String × Entry) :=
  (name, e) :: es.filter fun x => x.1 != name

theorem find?_withEntry_self (name : String) (e : Entry) (es : List (String × Entry)) :
    (withEntry name e es).find? (fun x => x.1 == name) = some (name, e) := by
  simp [withEntry]

theorem find?_withEntry_of_ne {name other : String} (e : Entry) (es : List (String × Entry))
    (h : other ≠ name) :
    (withEntry name e es).find? (fun x => x.1 == other) = es.find? fun x => x.1 == other := by
  rw [withEntry, List.find?_cons_of_neg (by simpa using Ne.symm h)]
  induction es with
  | nil => rfl
  | cons x es ih =>
    by_cases hx : x.1 = name
    · have hother : ¬(x.1 == other) = true := by simpa [hx] using Ne.symm h
      rw [List.filter_cons_of_neg (by simpa using hx), ih]
      simp only [List.find?_cons, Bool.not_eq_true] at hother ⊢
      rw [hother]
    · rw [List.filter_cons_of_pos (by simpa using hx), List.find?_cons, List.find?_cons, ih]

/-- Changing the entries of one name does not change which entry is found. -/
theorem find?_map_entry (g : Entry → Entry) (name other : String) (es : List (String × Entry)) :
    (es.map fun x => if x.1 == name then (x.1, g x.2) else x).find? (fun x => x.1 == other) =
      (es.find? fun x => x.1 == other).map fun x => if x.1 == name then (x.1, g x.2) else x := by
  rw [List.find?_map]
  congr 2
  funext x
  simp only [Function.comp_apply]
  split <;> rfl

namespace Entry

theorem find?_cons (e : Entry) (name : String) (names : List String) :
    e.find? (name :: names) =
      (e.entries.find? fun x => x.1 == name) >>= fun x => x.2.find? names := by
  rw [find?]
  split
  next h => rw [h, Option.bind_eq_bind, Option.bind_some]
  next h => rw [h, Option.bind_eq_bind, Option.bind_none]

theorem find?_file {content : List UInt8} {names : List String} {e : Entry}
    (h : (file content).find? names = some e) : names = [] := by
  cases names with
  | nil => rfl
  | cons name names => simp [find?_cons, entries] at h

theorem find?_append (e : Entry) (as bs : List String) :
    e.find? (as ++ bs) = e.find? as >>= fun x => x.find? bs := by
  induction as generalizing e with
  | nil => rfl
  | cons a as ih => simp [find?_cons, ih, Option.bind_assoc]

/-- The way to a directory leads through directories. -/
theorem isDirectory_of_append {e : Entry} {as bs : List String}
    (h : (e.find? (as ++ bs)).any isDirectory = true) :
    (e.find? as).any isDirectory = true := by
  rw [find?_append] at h
  cases has : e.find? as with
  | none =>
    rw [has] at h
    exact h
  | some x =>
    rw [has, Option.bind_eq_bind, Option.bind_some] at h
    cases x with
    | directory es => rfl
    | file content =>
      cases hbs : (file content).find? bs with
      | none =>
        rw [hbs] at h
        exact h
      | some y =>
        obtain rfl := find?_file hbs
        exact h

theorem find?_change_cons (f : List (String × Entry) → List (String × Entry)) (e : Entry)
    (step part : String) (way parts : List String) :
    (e.change f (step :: way)).find? (part :: parts) =
      (e.entries.find? fun x => x.1 == part) >>= fun x =>
        (if part = step then x.2.change f way else x.2).find? parts := by
  cases e with
  | file content => rfl
  | directory es =>
    have hmap := find?_map_entry (fun y => y.change f way) step part es
    rw [change, find?_cons, entries, hmap, entries]
    cases hx : es.find? fun x => x.1 == part with
    | none => rfl
    | some x =>
      have hname : x.1 = part := by simpa using List.find?_some hx
      simp only [Option.map_some, Option.bind_eq_bind, Option.bind_some, beq_iff_eq, hname]
      split <;> rfl

/-- What is put into a directory is found there. -/
theorem find?_change_self {e new d : Entry} {name : String} {way : List String}
    (hfind : e.find? way = some d) (hd : d.isDirectory = true) :
    (e.change (withEntry name new) way).find? (way ++ [name]) = some new := by
  induction way generalizing e with
  | nil =>
    cases e with
    | file content =>
      cases hfind
      exact absurd hd Bool.false_ne_true
    | directory es =>
      rw [change, List.nil_append, find?_cons, entries, find?_withEntry_self]
      rfl
  | cons step way ih =>
    rw [find?_cons, Option.bind_eq_bind, Option.bind_eq_some_iff] at hfind
    obtain ⟨x, hx, hfind⟩ := hfind
    rw [List.cons_append, find?_change_cons, hx, Option.bind_eq_bind, Option.bind_some, if_pos rfl]
    exact ih hfind

/-- Directories stay where they are when something is put into the one around them, in the place of
no directory. -/
theorem isDirectory_withEntry {e new : Entry} {name : String} {place : List String}
    (hnew : (e.find? [name]).any isDirectory = false)
    (h : (e.find? place).any isDirectory = true) :
    ((e.change (withEntry name new) []).find? place).any isDirectory = true := by
  cases e with
  | file content => exact h
  | directory es =>
    cases place with
    | nil => rfl
    | cons part parts =>
      by_cases hpart : part = name
      · subst hpart
        have hdir : ((directory es).find? [part]).any isDirectory = true := isDirectory_of_append h
        rw [hnew] at hdir
        exact absurd hdir Bool.false_ne_true
      · rw [find?_cons, entries] at h
        rwa [change, find?_cons, entries, find?_withEntry_of_ne _ _ hpart]

theorem isDirectory_change {e new : Entry} {name : String} {way place : List String}
    (hnew : (e.find? (way ++ [name])).any isDirectory = false)
    (h : (e.find? place).any isDirectory = true) :
    ((e.change (withEntry name new) way).find? place).any isDirectory = true := by
  induction way generalizing e place with
  | nil => exact isDirectory_withEntry hnew h
  | cons step way ih =>
    cases place with
    | nil =>
      cases e with
      | file content => exact h
      | directory es => rfl
    | cons part parts =>
      rw [find?_cons] at h
      rw [List.cons_append, find?_cons] at hnew
      rw [find?_change_cons]
      cases hx : e.entries.find? fun x => x.1 == part with
      | none =>
        rw [hx] at h
        exact h
      | some x =>
        rw [hx] at h
        rw [Option.bind_eq_bind, Option.bind_some] at h ⊢
        by_cases hpart : part = step
        · subst hpart
          rw [hx] at hnew
          rw [if_pos rfl]
          exact ih hnew h
        · rwa [if_neg hpart]

end Entry

namespace Route

theorem names_ne_nil {done : List Char} (cs : List Char) (h : done ≠ []) : names done cs ≠ [] := by
  induction cs generalizing done with
  | nil => simp [names, h]
  | cons c cs ih =>
    unfold names
    split
    · simp [h]
    · exact ih (List.cons_ne_nil _ _)

/-- A path that ends with a name leads somewhere. -/
theorem parts_ne_nil {path : String} {r : Route} (h : ofText? path = some r)
    (hname : r.ending = .name) : r.parts ≠ [] := by
  unfold ofText? at h
  split at h
  next => cases h
  next hpath =>
    have hne : path.toList ≠ [] := by
      intro hnil
      rw [String.toList_eq_nil_iff] at hnil
      subst hnil
      exact hpath rfl
    cases h
    dsimp only at hname ⊢
    split
    next => exact List.cons_ne_nil _ _
    next hslash =>
      obtain ⟨c, cs, hcs⟩ := List.exists_cons_of_ne_nil hne
      rw [hcs] at hname hslash ⊢
      have hc : c ≠ '/' := by simpa using hslash
      have hnames : names [] (c :: cs) ≠ [] := by
        rw [names, if_neg (by simpa using hc)]
        exact names_ne_nil cs (List.cons_ne_nil _ _)
      intro hdots
      have hdot := List.filter_eq_nil_iff.1 hdots _ (List.getLast_mem hnames)
      rw [List.getLast?_eq_some_getLast hnames, if_pos (by simpa using hdot)] at hname
      cases hname

end Route

namespace FileTree

variable {t : FileTree} {content : List UInt8}

theorem put_append (t : FileTree) (way : List String) (name : String) (e : Entry) :
    t.put (way ++ [name]) e = ⟨t.root.change (withEntry name e) way⟩ := by
  rw [put, List.getLast?_concat, List.dropLast_concat]
  rfl

theorem isOutside_of_isAround {place : List String} (hne : place ≠ [])
    (h : isAround place = true) : isOutside place = true := by
  obtain ⟨part, parts, rfl⟩ := List.exists_cons_of_ne_nil hne
  simp only [isAround, List.all_cons, Bool.and_eq_true] at h
  simpa [isOutside] using h.1

theorem isOutside_append {way : List String} (name : String) (hne : way ≠ []) :
    isOutside (way ++ [name]) = isOutside way := by
  obtain ⟨part, parts, rfl⟩ := List.exists_cons_of_ne_nil hne
  rfl

/-- Places that are not outside are found from the working directory on. -/
theorem find?_eq (t : FileTree) {place : List String} (h : isOutside place = false) :
    t.find? place = t.root.find? place := by
  unfold find?
  split
  next hempty =>
    rw [List.isEmpty_iff.1 hempty]
    rfl
  next hempty =>
    rw [if_neg]
    intro haround
    rw [isOutside_of_isAround (by simpa using hempty) haround] at h
    cases h

/-- Directories stay where they are if nothing is put in their place. -/
theorem isDirectoryAt_put {way place : List String} {name : String} {e : Entry}
    (hinside : isOutside (way ++ [name]) = false)
    (hplace : t.isDirectoryAt (way ++ [name]) = false) (h : t.isDirectoryAt place = true) :
    (t.put (way ++ [name]) e).isDirectoryAt place = true := by
  rw [isDirectoryAt, find?_eq t hinside] at hplace
  unfold isDirectoryAt find? at h ⊢
  rw [put_append]
  split at h
  next hempty =>
    rw [if_pos hempty]
    have hroot : (t.root.find? []).any Entry.isDirectory = true := h
    exact Entry.isDirectory_change hplace hroot
  next hempty =>
    rw [if_neg hempty]
    split at h
    next haround => rw [if_pos haround]; rfl
    next haround =>
      rw [if_neg haround]
      exact Entry.isDirectory_change hplace h

/-- A way is gone as before when no directory on it is lost. -/
theorem goto?_mono {t' : FileTree} {place q : List String} {parts : List String}
    (hkeep : ∀ p, t.isDirectoryAt p = true → t'.isDirectoryAt p = true)
    (h : t.goto? place parts = some q) : t'.goto? place parts = some q := by
  induction parts generalizing place with
  | nil => exact h
  | cons part parts ih =>
    rw [goto?] at h ⊢
    split at h
    next hdir =>
      rw [Option.bind_eq_bind, Option.bind_eq_some_iff] at h
      obtain ⟨p, hp, h⟩ := h
      rw [if_pos (hkeep _ hdir), hp]
      exact ih h
    next => cases h

/-- The last step of a way is made from a directory. -/
theorem exists_last {place q : List String} {parts : List String} (hne : parts ≠ [])
    (h : t.goto? place parts = some q) :
    ∃ p part, t.isDirectoryAt p = true ∧ next? p part = some q := by
  induction parts generalizing place with
  | nil => exact absurd rfl hne
  | cons part parts ih =>
    rw [goto?] at h
    split at h
    next hdir =>
      rw [Option.bind_eq_bind, Option.bind_eq_some_iff] at h
      obtain ⟨p, hp, h⟩ := h
      cases parts with
      | nil =>
        cases h
        exact ⟨place, part, hdir, hp⟩
      | cons next parts => exact ih (List.cons_ne_nil _ _) h
    next => cases h

theorem isDirectoryAt_dropLast {place : List String} (haround : isAround place = false)
    (h : t.isDirectoryAt place = true) : t.isDirectoryAt place.dropLast = true := by
  have hne : place ≠ [] := by
    rintro rfl
    cases haround
  have hroot : t.find? place = t.root.find? place := by
    rw [find?, if_neg (by simpa using hne), haround, if_neg Bool.false_ne_true]
  rw [isDirectoryAt, hroot, ← List.dropLast_concat_getLast hne] at h
  unfold isDirectoryAt find?
  split
  next hempty =>
    rw [List.isEmpty_iff.1 hempty] at h
    have hroot : (t.root.find? []).any Entry.isDirectory = true := Entry.isDirectory_of_append h
    exact hroot
  next =>
    split
    next => rfl
    next => exact Entry.isDirectory_of_append h

/-- A place inside that is no directory has a name in one. -/
theorem exists_name {place q : List String} {parts : List String} (hne : parts ≠ [])
    (h : t.goto? place parts = some q) (hinside : isOutside q = false)
    (hplace : t.isDirectoryAt q = false) :
    ∃ way name, q = way ++ [name] ∧ t.isDirectoryAt way = true ∧ isOutside way = false := by
  obtain ⟨p, part, hdir, hnext⟩ := exists_last hne h
  unfold next? at hnext
  split at hnext
  next hup =>
    have hpart : part = Route.up := by simpa using hup
    subst hpart
    cases hnext
    by_cases haround : isAround p = true
    · rw [if_pos haround] at hinside
      have hup : isAround (p ++ [Route.up]) = true := by simpa [isAround] using haround
      rw [isOutside_of_isAround (by simp) hup] at hinside
      cases hinside
    · rw [if_neg haround, isDirectoryAt_dropLast (by simpa using haround) hdir] at hplace
      cases hplace
  next =>
    split at hnext
    next => cases hnext
    next =>
      cases hnext
      refine ⟨p, part, rfl, hdir, ?_⟩
      by_cases hp : p = []
      · subst hp
        rfl
      · rwa [isOutside_append part hp] at hinside

/-- What was put at a place is found there. -/
theorem find?_put {way : List String} {name : String} (e : Entry)
    (hdir : t.isDirectoryAt way = true) (hway : isOutside way = false)
    (hinside : isOutside (way ++ [name]) = false) :
    (t.put (way ++ [name]) e).find? (way ++ [name]) = some e := by
  rw [isDirectoryAt, find?_eq t hway, Option.any_eq_true] at hdir
  obtain ⟨d, hfind, hd⟩ := hdir
  rw [find?_eq _ hinside, put_append]
  exact Entry.find?_change_self hfind hd

/-- What is written to a path is read from it. -/
theorem read_writeFile {t' : FileTree} {path : String}
    (h : t.writeFile path content = (true, t')) : t'.read path = .content content := by
  unfold writeFile at h
  split at h
  next place hroute =>
    split at h
    next => cases h
    next hfree =>
      cases h
      simp only [Bool.or_eq_true, not_or, Bool.not_eq_true] at hfree
      obtain ⟨hinside, hplace⟩ := hfree
      simp only [route?, Option.bind_eq_bind, Option.bind_eq_some_iff, Option.pure_def,
        Option.some.injEq, Prod.mk.injEq] at hroute
      obtain ⟨r, hr, q, hgoto, rfl, hname⟩ := hroute
      obtain ⟨way, name, rfl, hway, hwayInside⟩ :=
        exists_name (Route.parts_ne_nil hr hname) hgoto hinside hplace
      have hgoto' := goto?_mono (fun p => isDirectoryAt_put (e := .file content) hinside hplace)
        hgoto
      have hroute' : (t.put (way ++ [name]) (.file content)).route? path =
          some (way ++ [name], .name) := by
        rw [route?, hr, Option.bind_eq_bind, Option.bind_some, hgoto', ← hname]
        rfl
      have hat : (t.put (way ++ [name]) (.file content)).at? path = some (.file content) := by
        rw [at?, hroute']
        simp [find?_put _ hway hwayInside hinside]
      rw [read, hat]
  next => cases h

end FileTree

end SccDispatch
