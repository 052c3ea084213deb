import SccDispatch.Config.Store
import SccDispatch.Proofs.TextBytes
import SccDispatch.Proofs.WrittenFiles
import SccDispatch.Proofs.Yaml.Nodes

namespace SccDispatch

open Yaml

namespace NameMap

theorem put_of_not_mem {name path : String} {es : List (String × String)}
    (h : name ∉ es.map Prod.fst) : put name path es = es ++ [(name, path)] := by
  induction es with
  | nil => rfl
  | cons e es ih =>
    simp only [List.map_cons, List.mem_cons, not_or] at h
    rw [put, if_neg (Ne.symm h.1), ih h.2, List.cons_append]

theorem entries_foldl_insert (m : NameMap) (es : List (String × String))
    (h : ((m.entries ++ es).map Prod.fst).Nodup) :
    (es.foldl (fun m e => m.insert e.1 e.2) m).entries = m.entries ++ es := by
  induction es generalizing m with
  | nil => simp
  | cons e es ih =>
    have hmem : e.1 ∉ m.entries.map Prod.fst := by
      rw [List.map_append, List.nodup_append] at h
      intro he
      exact h.2.2 _ he _ (by simp) rfl
    have hinsert : (m.insert e.1 e.2).entries = m.entries ++ [e] := put_of_not_mem hmem
    rw [List.foldl_cons, ih _ (by rw [hinsert]; simpa using h), hinsert]
    simp

theorem ext_entries {m m' : NameMap} (h : m.entries = m'.entries) : m = m' := by
  cases m
  cases m'
  subst h
  rfl

/-- Names that stand once keep their order. -/
theorem ofList_entries (m : NameMap) : ofList m.entries = m :=
  ext_entries (entries_foldl_insert empty m.entries (by simpa [empty] using m.nodup))

end NameMap

def textNode (s : String) : Node := .scalar {} (styleOf s) s

def flagNode (b : Bool) : Node := .scalar {} .plain (if b then "true" else "false")

@[simp] theorem text?_textNode (d : Document) (s : String) : d.text? (textNode s) = some s := rfl

@[simp] theorem flag?_flagNode (d : Document) (b : Bool) : d.flag? (flagNode b) = some b := by
  cases b <;> rfl

def Project.fields (p : Project) : List Field :=
  [("User", textNode p.user), ("Project Name", textNode p.name),
   ("Local Path", textNode p.localPath), ("Aux Project Path", textNode p.auxPath)]

def NameMap.fields (m : NameMap) : List Field := m.entries.map fun e => (e.1, textNode e.2)

def Settings.fields (s : Settings) : List Field :=
  [("Provider", textNode s.provider), ("Caller Name", textNode s.caller),
   ("Create Missing Projects", flagNode s.createMissing),
   ("Concurrent Status Queries", flagNode s.concurrentQueries),
   ("Log Directory", textNode s.logDirectory), ("Debug Mode", flagNode s.debug),
   ("Project", .mapping {} (keyed s.project.fields)),
   ("Extra Providers", .mapping {} (keyed s.extraProviders.fields))]

theorem Project.writes (column : Nat) (p : Project) :
    List.Forall₂ (WritesEntry column) (p.entries column) p.fields :=
  .cons (writesEntry_text column "User" p.user) <|
  .cons (writesEntry_text column "Project Name" p.name) <|
  .cons (writesEntry_text column "Local Path" p.localPath) <|
  .cons (writesEntry_text column "Aux Project Path" p.auxPath) .nil

theorem NameMap.writes (column : Nat) (m : NameMap) :
    List.Forall₂ (WritesEntry column) (m.written column) m.fields := by
  unfold NameMap.written NameMap.fields
  generalize m.entries = es
  induction es with
  | nil => exact .nil
  | cons e es ih => exact .cons (writesEntry_text column e.1 e.2) ih

/-- Each key of the settings is written as an entry. -/
theorem Settings.writes (column : Nat) (s : Settings) :
    List.Forall₂ (WritesEntry column) (s.entries column) s.fields :=
  .cons (writesEntry_text column "Provider" s.provider) <|
  .cons (writesEntry_text column "Caller Name" s.caller) <|
  .cons (writesEntry_flag column "Create Missing Projects" s.createMissing) <|
  .cons (writesEntry_flag column "Concurrent Status Queries" s.concurrentQueries) <|
  .cons (writesEntry_text column "Log Directory" s.logDirectory) <|
  .cons (writesEntry_flag column "Debug Mode" s.debug) <|
  .cons (writesEntry_mapping "Project" (s.project.writes (column + step))) <|
  .cons (writesEntry_mapping "Extra Providers" (s.extraProviders.writes (column + step))) .nil

theorem Project.ofFields?_fields (d : Document) (p : Project) :
    Project.ofFields? d p.fields = some p := by
  simp [Project.ofFields?, Project.fields, fieldOr?]

theorem Project.ofNode?_fields (d : Document) (p : Project) :
    Project.ofNode? d (.mapping {} (keyed p.fields)) = some p := by
  rw [Project.ofNode?, Document.fields?_keyed, Option.bind_eq_bind, Option.bind_some,
    Project.ofFields?_fields]

theorem nameMap?_fields (d : Document) (m : NameMap) :
    d.nameMap? (.mapping {} (keyed m.fields)) = some m := by
  have htexts : ∀ es : List (String × String),
      (es.map fun e => (e.1, textNode e.2)).mapM
        (fun f => (d.text? f.2).map fun text => (f.1, text)) = some es := by
    intro es
    induction es with
    | nil => rfl
    | cons e es ih => simp [ih]
  simp [Document.nameMap?, Document.fields?_keyed, NameMap.fields, htexts, NameMap.ofList_entries]

/-- Settings are read from their own fields. -/
theorem Settings.ofFields?_fields (d : Document) (s : Settings) :
    Settings.ofFields? d s.fields = some s := by
  simp [Settings.ofFields?, Settings.fields, fieldOr?, Project.ofNode?_fields, nameMap?_fields]

/-- A text of one mapping under one key is read as that mapping under that key. -/
theorem read?_mappingEntry (key : String) {es : List (List Char)} {fs : List Field}
    (h : List.Forall₂ (WritesEntry step) es fs) :
    Document.read? (String.ofList (mappingEntry 0 key es)) =
      some ⟨.mapping {} (keyed [(key, .mapping {} (keyed fs))])⟩ := by
  have hentry : WritesEntry 0 (mappingEntry 0 key es) (key, .mapping {} (keyed fs)) :=
    writesEntry_mapping key (by rwa [Nat.zero_add])
  have hread := read?_ofList (.cons hentry .nil) (List.cons_ne_nil _ _)
  rwa [List.flatten_cons, List.flatten_nil, List.append_nil] at hread

/-- Settings are read back from their text. -/
theorem Settings.ofText?_toText (s : Settings) : Settings.ofText? s.toText = some s := by
  rw [Settings.ofText?, Settings.toText, read?_mappingEntry _ (s.writes step)]
  simp [Settings.ofNode?, Document.fields?_keyed, fieldOr?, Settings.ofFields?_fields]

theorem Project.ofText?_toText (p : Project) : Project.ofText? p.toText = some p := by
  rw [Project.ofText?, Project.toText, read?_ofList (p.writes 0) (List.cons_ne_nil _ _)]
  exact Project.ofNode?_fields ⟨.mapping {} (keyed p.fields)⟩ p

theorem manifestOfText?_manifestText (m : NameMap) : manifestOfText? (manifestText m) = some m := by
  rw [manifestOfText?, manifestText, read?_mappingEntry _ (m.writes step)]
  simp [Document.fields?_keyed, fieldOr?, nameMap?_fields]

namespace ConfigDirectory

theorem settingsOf_bytes (path : String) (s : Settings) :
    (settingsOf path (.content (Text.bytes s.toText))).1 = .ok s := by
  rw [settingsOf_content (Text.decode?_bytes s.toText) s.ofText?_toText]

/-- The file is written, and nothing else is changed. -/
theorem run_save (d : ConfigDirectory) (s : Settings) (t : FileTree) :
    (d.save s : StateM FileTree _).run t =
      (if (t.writeFile d.file (Text.bytes s.toText)).1 then
        (.ok (), [{ level := .info, text := "Saved source control config to " ++ d.file }])
      else (.error (.unwritable d.file), []), (t.writeFile d.file (Text.bytes s.toText)).2) := by
  have hrun : (d.save s : StateM FileTree _).run t =
      (if (t.writeFile d.file (Text.bytes s.toText)).1 then
        (pure (.ok (), [{ level := .info, text := "Saved source control config to " ++ d.file }]))
      else pure (.error (.unwritable d.file), []) : StateM FileTree _)
        (t.writeFile d.file (Text.bytes s.toText)).2 := rfl
  rw [hrun]
  split <;> rfl

theorem run_load (d : ConfigDirectory) (t : FileTree) :
    (d.load : StateM FileTree _).run t = (settingsOf d.file (t.read d.file), t) := rfl

/-- What was saved is loaded. -/
theorem load_save {d : ConfigDirectory} {s : Settings} {t : FileTree}
    (h : ((d.save s : StateM FileTree _).run t).1.1 = .ok ()) :
    ((d.load : StateM FileTree _).run ((d.save s : StateM FileTree _).run t).2).1.1 = .ok s := by
  rw [run_save] at h ⊢
  split at h
  next hwrite =>
    have hread : (t.writeFile d.file (Text.bytes s.toText)).2.read d.file =
        .content (Text.bytes s.toText) := FileTree.read_writeFile (Prod.ext hwrite rfl)
    rw [run_load, hread, settingsOf_bytes]
  next => cases h

end ConfigDirectory

/-- What is configured survives being written and read, whatever the texts in it. -/
theorem configuration_kept (s : Settings) (m : NameMap) (p : Project) :
    Settings.ofText? s.toText = some s ∧ manifestOfText? (manifestText m) = some m ∧
      Project.ofText? p.toText = some p ∧
      ∀ (d : ConfigDirectory) (t : FileTree),
        ((d.save s : StateM FileTree _).run t).1.1 = .ok () →
          ((d.load : StateM FileTree _).run ((d.save s : StateM FileTree _).run t).2).1.1 =
            .ok s :=
  ⟨s.ofText?_toText, manifestOfText?_manifestText m, p.ofText?_toText,
    fun _ _ h => ConfigDirectory.load_save h⟩

/-- Settings with texts that are written plainly, in quotes, with escapes and as blocks, and a key
that needs its mark. -/
def Settings.varied : Settings where
  provider := "null"
  caller := " a'b\x00"
  logDirectory := "\n first\nsecond \n\n"
  project := { user := "", name := "- é", localPath := "C: # \\", auxPath := "true" }
  extraProviders := .ofList [("z\n", "~"), ("", "\t"), ("a", "0x1F")]

theorem configuration_kept_here :
    (((⟨""⟩ : ConfigDirectory).save .varied : StateM FileTree _).run {}).1.1 = .ok () ∧
      ((ConfigDirectory.load ⟨""⟩ : StateM FileTree _).run
        (((⟨""⟩ : ConfigDirectory).save .varied : StateM FileTree _).run {}).2).1.1 =
          .ok .varied := by
  have hsaved : (((⟨""⟩ : ConfigDirectory).save .varied : StateM FileTree _).run {}).1.1 = .ok () :=
    rfl
  exact ⟨hsaved, (configuration_kept .varied .empty {}).2.2.2 ⟨""⟩ {} hsaved⟩

end SccDispatch
