import SccDispatch.Proofs.SavedConfiguration

namespace SccDispatch

open Yaml

namespace Yaml

def IsText (d : Document) (n : Node) : Prop := ∃ s, d.text? n = some s

/-- The entries leave the key out, or have it once with a node that means the value. -/
inductive Gives {α : Type} (d : Document) (es : List (Node × Node)) (key : String)
    (Means : Node → α → Prop) : Option α → Prop
  | absent (missing : ∀ e ∈ es, d.text? e.1 ≠ some key) : Gives d es key Means none
  | once {before after : List (Node × Node)} {k n : Node} {a : α}
      (split : es = before ++ (k, n) :: after) (named : d.text? k = some key)
      (alone : ∀ e ∈ before ++ after, d.text? e.1 ≠ some key) (means : Means n a) :
      Gives d es key Means (some a)

def fieldsOf (d : Document) (es : List (Node × Node)) : List Field :=
  es.map fun e => ((d.text? e.1).getD "", e.2)

variable {d : Document} {es before after : List (Node × Node)} {key : String}

/-- Entries with texts for keys are fields. -/
theorem fields?_of_texts {n : Node} {props : Properties}
    (hn : d.follow? n = some (.mapping props es)) (hk : ∀ e ∈ es, IsText d e.1) :
    d.fields? n = some (fieldsOf d es) := by
  simp only [Document.fields?, hn]
  clear hn
  induction es with
  | nil => rfl
  | cons e es ih =>
    obtain ⟨s, hs⟩ := hk e List.mem_cons_self
    have hrest := ih fun e he => hk e (List.mem_cons_of_mem _ he)
    have hcons : fieldsOf d (e :: es) = (s, e.2) :: fieldsOf d es := by simp [fieldsOf, hs]
    rw [List.mapM_cons, hrest, hs, hcons]
    rfl

theorem filter_fieldsOf_eq_nil (hk : ∀ e ∈ es, IsText d e.1)
    (h : ∀ e ∈ es, d.text? e.1 ≠ some key) : (fieldsOf d es).filter (·.1 == key) = [] := by
  refine List.filter_eq_nil_iff.mpr fun f hf => ?_
  obtain ⟨e, he, rfl⟩ := List.mem_map.mp hf
  obtain ⟨s, hs⟩ := hk e he
  have hne := h e he
  rw [hs] at hne ⊢
  simpa using hne

theorem filter_fieldsOf_eq_singleton {k n : Node} (hk : ∀ e ∈ before ++ after, IsText d e.1)
    (hn : d.text? k = some key) (h : ∀ e ∈ before ++ after, d.text? e.1 ≠ some key) :
    (fieldsOf d (before ++ (k, n) :: after)).filter (·.1 == key) = [(key, n)] := by
  have hpart : ∀ es, (∀ e ∈ es, e ∈ before ++ after) →
      (fieldsOf d es).filter (·.1 == key) = [] := fun es hes =>
    filter_fieldsOf_eq_nil (fun e he => hk e (hes e he)) fun e he => h e (hes e he)
  have hb := hpart before fun e he => List.mem_append_left _ he
  have ha := hpart after fun e he => List.mem_append_right _ he
  have hsplit : fieldsOf d (before ++ (k, n) :: after) =
      fieldsOf d before ++ (key, n) :: fieldsOf d after := by simp [fieldsOf, hn]
  rw [hsplit, List.filter_append, hb, List.filter_cons_of_pos (by simp), ha]
  rfl

/-- A key is read as what the entries give for it, or as the default. -/
theorem fieldOr?_of_gives {α β : Type} {Means : Node → α → Prop} {given : Option α}
    (h : Gives d es key Means given) (hk : ∀ e ∈ es, IsText d e.1) {read : Node → Option β}
    {value : α → β} (hread : ∀ n a, Means n a → read n = some (value a)) (default : β) :
    fieldOr? (fieldsOf d es) key default read = some (given.elim default value) := by
  cases h with
  | absent missing =>
    rw [fieldOr?, filter_fieldsOf_eq_nil hk missing]
    rfl
  | @once before after k n a split named alone means =>
    subst split
    have hrest : ∀ e ∈ before ++ after, IsText d e.1 := fun e he =>
      hk e (by simpa using (List.mem_append.mp he).imp_right .inr)
    rw [fieldOr?, filter_fieldsOf_eq_singleton hrest named alone]
    exact hread n a means

/-- A key that is left out takes its default, and one that is given its value. -/
theorem fieldOr?_of_reads {α : Type} {read : Node → Option α} {given : Option α}
    (h : Gives d es key (read · = some ·) given) (hk : ∀ e ∈ es, IsText d e.1) (default : α) :
    fieldOr? (fieldsOf d es) key default read = some (given.getD default) := by
  have hid : ∀ n a, read n = some a → read n = some (id a) := fun _ _ h => h
  rw [fieldOr?_of_gives h hk hid]
  cases given <;> rfl

end Yaml

structure Project.Given where
  user : Option String := none
  name : Option String := none
  localPath : Option String := none
  auxPath : Option String := none

namespace Project.Given

/-- The project, with the defaults for what is not given. -/
def completed (g : Project.Given) : Project where
  user := g.user.getD ({} : Project).user
  name := g.name.getD ({} : Project).name
  localPath := g.localPath.getD ({} : Project).localPath
  auxPath := g.auxPath.getD ({} : Project).auxPath

/-- A node gives just this of a project, with `Key` for all its keys. -/
inductive StatedBy (d : Document) (Key : Node → Prop) (g : Project.Given) (n : Node) : Prop
  | mapping {props : Properties} {es : List (Node × Node)}
      (node : d.follow? n = some (.mapping props es)) (keys : ∀ e ∈ es, Key e.1)
      (user : Gives d es "User" (d.text? · = some ·) g.user)
      (name : Gives d es "Project Name" (d.text? · = some ·) g.name)
      (localPath : Gives d es "Local Path" (d.text? · = some ·) g.localPath)
      (auxPath : Gives d es "Aux Project Path" (d.text? · = some ·) g.auxPath)

end Project.Given

theorem Project.Given.ofNode?_of_statedBy {d : Document} {n : Node} {g : Project.Given}
    (h : g.StatedBy d (IsText d) n) : Project.ofNode? d n = some g.completed := by
  obtain ⟨node, keys, user, name, localPath, auxPath⟩ := h
  rw [Project.ofNode?, fields?_of_texts node keys, Option.bind_eq_bind, Option.bind_some,
    Project.ofFields?, fieldOr?_of_reads user keys, fieldOr?_of_reads name keys,
    fieldOr?_of_reads localPath keys, fieldOr?_of_reads auxPath keys]
  rfl

/-- What is given of settings. -/
structure Settings.Given where
  provider : Option String := none
  caller : Option String := none
  createMissing : Option Bool := none
  concurrentQueries : Option Bool := none
  logDirectory : Option String := none
  debug : Option Bool := none
  project : Option Project.Given := none
  extraProviders : Option NameMap := none

namespace Settings.Given

def completed (g : Settings.Given) : Settings where
  provider := g.provider.getD ({} : Settings).provider
  caller := g.caller.getD ({} : Settings).caller
  createMissing := g.createMissing.getD ({} : Settings).createMissing
  concurrentQueries := g.concurrentQueries.getD ({} : Settings).concurrentQueries
  logDirectory := g.logDirectory.getD ({} : Settings).logDirectory
  debug := g.debug.getD ({} : Settings).debug
  project := g.project.elim ({} : Settings).project Project.Given.completed
  extraProviders := g.extraProviders.getD ({} : Settings).extraProviders

/-- A node gives just this of settings, with `Key` for all its keys and those of its project. -/
inductive StatedBy (d : Document) (Key : Node → Prop) (g : Settings.Given) (n : Node) : Prop
  | mapping {props : Properties} {es : List (Node × Node)}
      (node : d.follow? n = some (.mapping props es)) (keys : ∀ e ∈ es, Key e.1)
      (provider : Gives d es "Provider" (d.text? · = some ·) g.provider)
      (caller : Gives d es "Caller Name" (d.text? · = some ·) g.caller)
      (createMissing : Gives d es "Create Missing Projects" (d.flag? · = some ·) g.createMissing)
      (concurrentQueries :
        Gives d es "Concurrent Status Queries" (d.flag? · = some ·) g.concurrentQueries)
      (logDirectory : Gives d es "Log Directory" (d.text? · = some ·) g.logDirectory)
      (debug : Gives d es "Debug Mode" (d.flag? · = some ·) g.debug)
      (project : Gives d es "Project" (fun n p => p.StatedBy d Key n) g.project)
      (extraProviders : Gives d es "Extra Providers" (d.nameMap? · = some ·) g.extraProviders)

/-- A document gives just this of settings, under the key where they belong. -/
inductive StatedIn (d : Document) (Key : Node → Prop) (g : Settings.Given) : Prop
  | mapping {props : Properties} {es : List (Node × Node)}
      (node : d.follow? d.root = some (.mapping props es)) (keys : ∀ e ∈ es, Key e.1)
      (settings : Gives d es "Source_Control" (fun n g => g.StatedBy d Key n) (some g))

variable {d : Document} {g : Settings.Given}

/-- Settings that are given in part are read with defaults for the rest. -/
theorem ofFields?_of_statedBy {n : Node} (h : g.StatedBy d (IsText d) n) :
    d.fields? n >>= Settings.ofFields? d = some g.completed := by
  obtain ⟨node, keys, provider, caller, createMissing, concurrentQueries, logDirectory, debug,
    project, extraProviders⟩ := h
  rw [fields?_of_texts node keys, Option.bind_eq_bind, Option.bind_some, Settings.ofFields?,
    fieldOr?_of_reads provider keys, fieldOr?_of_reads caller keys,
    fieldOr?_of_reads createMissing keys, fieldOr?_of_reads concurrentQueries keys,
    fieldOr?_of_reads logDirectory keys, fieldOr?_of_reads debug keys,
    fieldOr?_of_gives project keys fun _ _ => Project.Given.ofNode?_of_statedBy,
    fieldOr?_of_reads extraProviders keys]
  rfl

theorem ofNode?_of_statedIn (h : g.StatedIn d (IsText d)) :
    Settings.ofNode? d d.root = some g.completed := by
  obtain ⟨node, keys, settings⟩ := h
  have hmeans : ∀ n (g : Settings.Given), g.StatedBy d (IsText d) n →
      (d.fields? n >>= Settings.ofFields? d).map some = some (some g.completed) := by
    intro n g hg
    rw [ofFields?_of_statedBy hg]
    rfl
  have hread := fieldOr?_of_gives settings keys hmeans none
  rw [Settings.ofNode?, fields?_of_texts node keys]
  change (fieldOr? _ _ _ _ >>= fun settings => settings) = _
  rw [hread]
  rfl

/-- Settings that a document gives in part are read, with the defaults for all that it leaves out.
Any other document that gives the same of them is read as the same settings. -/
theorem read_completed {text : String} (hd : Document.read? text = some d)
    (hg : g.StatedIn d (IsText d)) :
    Settings.ofText? text = some g.completed ∧
      ∀ other d', Document.read? other = some d' → g.StatedIn d' (IsText d') →
        Settings.ofText? other = Settings.ofText? text := by
  have hread : ∀ t e, Document.read? t = some e → g.StatedIn e (IsText e) →
      Settings.ofText? t = some g.completed := by
    intro t e he hs
    rw [Settings.ofText?, he]
    exact ofNode?_of_statedIn hs
  refine ⟨hread text d hd hg, fun other d' hd' hg' => ?_⟩
  rw [hread text d hd hg, hread other d' hd' hg']

def partFields : List Field :=
  [("Debug Mode", flagNode true),
    ("Future", .mapping {} (keyed [("Provider", textNode "b")])),
    ("Project", .mapping {} (keyed [("Since", textNode "2020"), ("Local Path", textNode "here")])),
    ("Provider", textNode "P4")]

def partEntries : List (List Char) :=
  [flagEntry step "Debug Mode" true,
    mappingEntry step "Future" [textEntry (step + step) "Provider" "b"],
    mappingEntry step "Project"
      [textEntry (step + step) "Since" "2020", textEntry (step + step) "Local Path" "here"],
    textEntry step "Provider" "P4"]

theorem writes_part : List.Forall₂ (WritesEntry step) partEntries partFields :=
  .cons (writesEntry_flag _ _ _) <|
  .cons (writesEntry_mapping _ (.cons (writesEntry_text _ _ _) .nil)) <|
  .cons (writesEntry_mapping _
    (.cons (writesEntry_text _ _ _) (.cons (writesEntry_text _ _ _) .nil))) <|
  .cons (writesEntry_text _ _ _) .nil

def partText : String := String.ofList (mappingEntry 0 "Source_Control" partEntries)

def partDocument : Document :=
  ⟨.mapping {} (keyed [("Source_Control", .mapping {} (keyed partFields))])⟩

def partGiven : Settings.Given where
  provider := some "P4"
  debug := some true
  project := some { localPath := some "here" }

theorem isText_keyed (d : Document) (fs : List Field) : ∀ e ∈ keyed fs, IsText d e.1 := by
  intro e he
  obtain ⟨f, -, rfl⟩ := List.mem_map.mp he
  exact ⟨f.1, rfl⟩

theorem statedIn_part : partGiven.StatedIn partDocument (IsText partDocument) :=
  have project : ({ localPath := some "here" } : Project.Given).StatedBy partDocument
      (IsText partDocument)
      (.mapping {} (keyed [("Since", textNode "2020"), ("Local Path", textNode "here")])) :=
    .mapping rfl (isText_keyed _ _) (.absent (by decide)) (.absent (by decide))
      (.once (show _ = [_] ++ (_, _) :: [] from rfl) rfl (by decide) rfl) (.absent (by decide))
  .mapping rfl (isText_keyed _ _) <|
    .once (show _ = [] ++ (_, _) :: [] from rfl) rfl (by decide) <|
    .mapping rfl (isText_keyed _ _)
      (.once (show _ = [_, _, _] ++ (_, _) :: [] from rfl) rfl (by decide) rfl)
      (.absent (by decide)) (.absent (by decide)) (.absent (by decide)) (.absent (by decide))
      (.once (show _ = [] ++ (_, _) :: _ from rfl) rfl (by decide) rfl)
      (.once (show _ = [_, _] ++ (_, _) :: _ from rfl) rfl (by decide) project)
      (.absent (by decide))

theorem read_completed_partly :
    Document.read? partText = some partDocument ∧
      partGiven.StatedIn partDocument (IsText partDocument) ∧
      Settings.ofText? partText =
        some { provider := "P4", debug := true, project := { localPath := "here" } } := by
  have hd : Document.read? partText = some partDocument := read?_mappingEntry _ writes_part
  exact ⟨hd, statedIn_part, (read_completed hd statedIn_part).1⟩

def listedText : String := "Source_Control:\n  ? []\n  : x\n"

def listedDocument : Document where
  root := .mapping {}
    [(.scalar {} .plain "Source_Control",
      .mapping {} [(.sequence {} [], .scalar {} .plain "x")])]

theorem read?_listedText : Document.read? listedText = some listedDocument := by
  have ht : tokens? listedText = some
      [.blockMappingStart, .key, .scalar .plain "Source_Control", .value,
        .blockMappingStart, .key, .flowSequenceStart, .flowSequenceEnd, .value, .scalar .plain "x",
        .blockEnd, .blockEnd] := by decide +kernel
  rw [Document.read?, ht]
  rfl

/-- A key in brackets means nothing here, and still it keeps the settings from being read. -/
theorem not_completed_of_listed_key :
    Document.read? listedText = some listedDocument ∧
      ({} : Settings.Given).StatedIn listedDocument (fun _ => True) ∧
      Settings.ofText? listedText = none := by
  refine ⟨read?_listedText, ?_, ?_⟩
  · exact .mapping rfl (fun _ _ => trivial) <|
      .once (show _ = [] ++ (_, _) :: [] from rfl) rfl (by decide) <|
      .mapping rfl (fun _ _ => trivial) (.absent (by decide)) (.absent (by decide))
        (.absent (by decide)) (.absent (by decide)) (.absent (by decide)) (.absent (by decide))
        (.absent (by decide)) (.absent (by decide))
  · rw [Settings.ofText?, read?_listedText]
    rfl

end Settings.Given

end SccDispatch
