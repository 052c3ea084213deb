import SccDispatch.Proofs.ProgramRuns

namespace SccDispatch

/-- Names are compared in lower case. -/
theorem sameName_iff {a b : String} : sameName a b = true ↔ foldName a = foldName b := beq_iff_eq

theorem sameName_self (a : String) : sameName a a = true := sameName_iff.mpr rfl

namespace Registry

/-- No two entries have the same name. -/
def Distinct (r : Registry) : Prop :=
  r.entries.Pairwise fun p q => sameName p.name q.name = false

variable {r : Registry} {p : Installed} {ps : List Installed} {m : NameMap} {n : String}

theorem distinct_empty : empty.Distinct := .nil

theorem hasName_iff : r.hasName n = true ↔ ∃ p ∈ r.entries, sameName p.name n = true :=
  List.any_eq_true

theorem hasName_eq_false_iff :
    r.hasName n = false ↔ ∀ p ∈ r.entries, sameName p.name n = false := by simp [hasName]

theorem hasName_iff_find? : r.hasName n = true ↔ ∃ p, r.find? n = some p := by
  rw [hasName_iff, ← Option.isSome_iff_exists]
  exact List.find?_isSome.symm

theorem sameName_of_find? (h : r.find? n = some p) : sameName p.name n = true := by
  simpa using List.find?_some h

theorem hasName_of_prefix {t : Registry} (h : r.entries <+: t.entries) (hn : r.hasName n = true) :
    t.hasName n = true := by
  obtain ⟨p, hp, hs⟩ := hasName_iff.mp hn
  exact hasName_iff.mpr ⟨p, h.subset hp, hs⟩

/-- Where names differ, an entry is the first of its name. -/
theorem Distinct.find?_name (h : r.Distinct) (hp : p ∈ r.entries) : r.find? p.name = some p := by
  obtain ⟨before, after, he⟩ := List.append_of_mem hp
  unfold Distinct at h
  rw [he] at h
  have hother : ∀ q ∈ before, sameName q.name p.name = false := fun q hq =>
    (List.pairwise_append.mp h).2.2 q hq p List.mem_cons_self
  have hnone : before.find? (fun q => sameName q.name p.name) = none :=
    List.find?_eq_none.mpr fun q hq => by simp [hother q hq]
  rw [find?, he, List.find?_append, hnone, Option.none_or, List.find?_cons, sameName_self]

theorem add_of_taken (h : r.hasName p.name = true) : r.add p = r := if_pos h

theorem entries_add_of_free (h : r.hasName p.name = false) :
    (r.add p).entries = r.entries ++ [p] := by
  rw [add, h]
  rfl

theorem prefix_add (r : Registry) (p : Installed) : r.entries <+: (r.add p).entries := by
  cases h : r.hasName p.name with
  | true => simp only [add_of_taken h, List.prefix_rfl]
  | false =>
    rw [entries_add_of_free h]
    exact List.prefix_append _ _

theorem hasName_add (r : Registry) (p : Installed) : (r.add p).hasName p.name = true := by
  cases h : r.hasName p.name with
  | true => rwa [add_of_taken h]
  | false =>
    refine hasName_iff.mpr ⟨p, ?_, sameName_self p.name⟩
    rw [entries_add_of_free h]
    exact List.mem_append_right _ List.mem_cons_self

/-- Adding a provider keeps the names apart. -/
theorem Distinct.add (h : r.Distinct) (p : Installed) : (r.add p).Distinct := by
  cases hp : r.hasName p.name with
  | true => rwa [add_of_taken hp]
  | false =>
    unfold Distinct
    rw [entries_add_of_free hp]
    refine List.pairwise_append.mpr ⟨h, List.pairwise_singleton _ _, ?_⟩
    intro q hq p' hp'
    rw [List.mem_singleton.mp hp']
    exact hasName_eq_false_iff.mp hp q hq

theorem find?_add (r : Registry) (p : Installed) (n : String) :
    (r.add p).find? n = (r.find? n).or ([p].find? fun p => sameName p.name n) := by
  cases hp : r.hasName p.name with
  | true =>
    rw [add_of_taken hp, List.find?_singleton]
    split
    next hs =>
      -- The entry that stands in the way of `p` has the name `n` as well.
      obtain ⟨q, hq, hqs⟩ := hasName_iff.mp hp
      have hqn : sameName q.name n = true :=
        sameName_iff.mpr ((sameName_iff.mp hqs).trans (sameName_iff.mp hs))
      obtain ⟨f, hf⟩ := hasName_iff_find?.mp (hasName_iff.mpr ⟨q, hq, hqn⟩)
      rw [hf, Option.some_or]
    next => rw [Option.or_none]
  | false =>
    rw [find?, entries_add_of_free hp, List.find?_append]
    rfl

section

variable {α : Type} {f : Registry → α → Registry}

theorem prefix_foldl (hf : ∀ r a, r.entries <+: (f r a).entries) (r : Registry) (as : List α) :
    r.entries <+: (as.foldl f r).entries := by
  induction as generalizing r with
  | nil => exact List.prefix_refl _
  | cons a as ih => exact (hf r a).trans (ih (f r a))

theorem Distinct.foldl (hf : ∀ r a, r.Distinct → (f r a).Distinct) (h : r.Distinct)
    (as : List α) : (as.foldl f r).Distinct := by
  induction as generalizing r with
  | nil => exact h
  | cons a as ih => exact ih (hf r a h)

theorem hasName_foldl (hf : ∀ r a, r.entries <+: (f r a).entries) (r : Registry) {as : List α}
    {a : α} (ha : a ∈ as) (hn : ∀ r, (f r a).hasName n = true) :
    (as.foldl f r).hasName n = true := by
  obtain ⟨before, after, rfl⟩ := List.append_of_mem ha
  rw [List.foldl_append, List.foldl_cons]
  exact hasName_of_prefix (prefix_foldl hf _ after) (hn _)

end

theorem foldl_add_of_taken (h : ∀ p ∈ ps, r.hasName p.name = true) : ps.foldl add r = r := by
  induction ps with
  | nil => rfl
  | cons p ps ih =>
    rw [List.foldl_cons, add_of_taken (h p List.mem_cons_self)]
    exact ih fun q hq => h q (List.mem_cons_of_mem p hq)

theorem find?_foldl_add (r : Registry) (ps : List Installed) (n : String) :
    (ps.foldl add r).find? n = (r.find? n).or (ps.find? fun p => sameName p.name n) := by
  induction ps generalizing r with
  | nil => exact (Option.or_none).symm
  | cons p ps ih =>
    rw [List.foldl_cons, ih, find?_add, Option.or_assoc, ← List.find?_append]
    rfl

theorem merge_eq (r : Registry) (m : NameMap) : r.merge m = (ofMap m).entries.foldl add r :=
  List.foldl_map.symm

theorem mem_ofMap {e : String × String} (h : e ∈ m.entries) :
    (⟨e.1, e.2⟩ : Installed) ∈ (ofMap m).entries := List.mem_map_of_mem h

/-- What was there keeps its position. -/
theorem prefix_merge (r : Registry) (m : NameMap) : r.entries <+: (r.merge m).entries := by
  rw [merge_eq]
  exact prefix_foldl prefix_add r _

/-- Merging a map does so too, by induction over its entries. -/
theorem Distinct.merge (h : r.Distinct) (m : NameMap) : (r.merge m).Distinct := by
  rw [merge_eq]
  exact h.foldl (fun _ p h => h.add p) _

/-- Every name of the map is there afterwards. -/
theorem hasName_merge (r : Registry) {e : String × String} (h : e ∈ m.entries) :
    (r.merge m).hasName e.1 = true := by
  rw [merge_eq]
  exact hasName_foldl prefix_add r (mem_ofMap h) fun r => hasName_add r ⟨e.1, e.2⟩

/-- A map brings nothing if its names are there already, so merging again changes nothing. -/
theorem merge_of_taken (h : ∀ e ∈ m.entries, r.hasName e.1 = true) : r.merge m = r := by
  rw [merge_eq]
  refine foldl_add_of_taken fun p hp => ?_
  obtain ⟨e, he, rfl⟩ := List.mem_map.mp hp
  exact h e he

/-- A position stands for the same provider after more were added. -/
theorem get?_of_prefix {t : Registry} (h : r.entries <+: t.entries) {i : Nat}
    (hp : r.get? i = some p) : t.get? i = some p := Dispatcher.getElem?_of_isPrefix h hp

/-- Whatever maps are merged into a registry of distinct names: its names stay distinct, an entry
stays as and where it is, every name of those maps is found, and merging one again changes nothing.
An entry is found by its name, so it is the same to bind by place or by name. -/
theorem names_apart (h : r.Distinct) (ms : List NameMap) :
    let left := ms.foldl merge r
    left.Distinct ∧
      (∀ before after, ms = before ++ after → ∀ i p, (before.foldl merge r).get? i = some p →
        left.get? i = some p) ∧
      (∀ m ∈ ms, left.merge m = left ∧
        ∀ e ∈ m.entries, ∃ p, left.find? e.1 = some p ∧ sameName p.name e.1 = true) ∧
      ∀ i < left.size, ∃ p, left.get? i = some p ∧ left.name? i = some p.name ∧
        left.find? p.name = some p ∧
        ∀ {π : Type} [Provider π] (d : Dispatcher π) (load : Installed → Loader π)
          (window : Window),
          d.rebindIndex left load i window = d.rebindName left load p.name window := by
  intro left
  have hleft : left.Distinct := h.foldl (fun _ m h => h.merge m) ms
  refine ⟨hleft, ?_, ?_, ?_⟩
  · rintro before after rfl i p hp
    have happ : left = after.foldl merge (before.foldl merge r) := List.foldl_append
    rw [happ]
    exact get?_of_prefix (prefix_foldl prefix_merge _ after) hp
  · intro m hm
    have hnamed : ∀ e ∈ m.entries, left.hasName e.1 = true := fun e he =>
      hasName_foldl prefix_merge r hm fun r => hasName_merge r he
    refine ⟨merge_of_taken hnamed, fun e he => ?_⟩
    obtain ⟨p, hp⟩ := hasName_iff_find?.mp (hnamed e he)
    exact ⟨p, hp, sameName_of_find? hp⟩
  · intro i hi
    obtain ⟨p, hp⟩ : ∃ p, left.get? i = some p := ⟨_, List.getElem?_eq_getElem hi⟩
    have hfind : left.find? p.name = some p := hleft.find?_name (List.mem_of_getElem? hp)
    refine ⟨p, hp, by rw [name?, hp]; rfl, hfind, fun d load window => ?_⟩
    rw [Dispatcher.rebindIndex, Dispatcher.rebindName, hp, hfind]

end Registry

def spellings : List NameMap :=
  [.ofList [("Fake", "/a"), ("FAKE", "/b"), ("Git", "/g")],
    .ofList [("fake", "/c"), ("git", "/d")]]

theorem names_apart_spellings :
    (⟨[⟨"Perforce", "/p"⟩]⟩ : Registry).Distinct ∧
      (spellings.foldl Registry.merge ⟨[⟨"Perforce", "/p"⟩]⟩).Distinct ∧
      spellings.foldl Registry.merge ⟨[⟨"Perforce", "/p"⟩]⟩ =
        ⟨[⟨"Perforce", "/p"⟩, ⟨"Fake", "/a"⟩, ⟨"Git", "/g"⟩]⟩ := by
  have h : (⟨[⟨"Perforce", "/p"⟩]⟩ : Registry).Distinct := List.pairwise_singleton _ _
  exact ⟨h, (Registry.names_apart h spellings).1, by decide +kernel⟩

def NameMap.named? (m : NameMap) (name : String) : Option Installed :=
  (m.entries.find? fun e => sameName e.1 name).map fun e => ⟨e.1, e.2⟩

/-- A name is found among what was there, or else in the map. -/
theorem Registry.find?_merge (r : Registry) (m : NameMap) (n : String) :
    (r.merge m).find? n = (r.find? n).or (m.named? n) := by
  rw [merge_eq, find?_foldl_add, ofMap, List.find?_map]
  rfl

namespace CommandLine

def manifestMap (manifest : Option String) (t : FileTree) : NameMap :=
  match manifest with
  | none => .empty
  | some path => (manifestOf path (t.read path)).1

/-- The registry holds what the manifest lists. -/
theorem registry_discover (manifest : Option String) (t : FileTree) :
    ((discover manifest : StateM FileTree _).run t).1.1 =
      Registry.empty.merge (manifestMap manifest t) := by
  cases manifest <;> rfl

/-- What a name means: the first entry of that name in the manifest, or else in the settings. -/
def meant (m : NameMap) (settings : Settings) (name : String) : Option Installed :=
  (m.named? name).or (settings.extraProviders.named? name)

variable {π : Type} [Provider π] {m : NameMap} {settings : Settings} {n : String}

theorem find?_registry (m : NameMap) (settings : Settings) (n : String) :
    (settings.registry (Registry.empty.merge m)).find? n = meant m settings n := by
  rw [Settings.registry, Registry.find?_merge, Registry.find?_merge]
  rfl

/-- A chosen name means its first entry in the manifest, or else in the settings. -/
theorem chosen?_eq (h : n ≠ "") :
    { settings with provider := n }.chosen? (Registry.empty.merge m) = meant m settings n := by
  have hf := find?_registry m { settings with provider := n } n
  rw [Settings.chosen?, if_neg (by simpa using h), hf]
  rfl

theorem choose_eq {asked : Option String} (h : n ≠ "") (hn : wanted settings asked = n)
    (file : String) :
    choose settings (Registry.empty.merge m) file asked =
      (meant m settings n).elim (.error (.notFound n)) .ok := by
  rw [choose, hn, if_neg (by simpa using h), find?_registry]
  cases meant m settings n <;> rfl

/-- What was asked for is done with the provider that the name means. -/
theorem perform_eq {a : Arguments} {r : Request} (h : n ≠ "")
    (hn : wanted settings a.provider = n) (hr : a.task = .request r)
    (load : StateM FileTree (Installed → Loader π)) (manifest : Option String) (file : String)
    (t : FileTree) :
    ((perform settings file load manifest a).run t).1.1 =
      (meant (manifestMap manifest t) settings n).elim (.failed (SessionError.notFound n).text)
        fun p => session settings (load.run t).1 p r := by
  rw [perform_request hr, hn, if_neg h, providerFor, hn, registry_discover, find?_registry]
  cases meant (manifestMap manifest t) settings n <;> rfl

/-- A name means the same provider when it is looked up among all providers, when the settings
choose it, when the command line asks for it, and so in a whole run. An installed provider keeps its
place and its name, whatever the settings add. -/
theorem resolved_alike (m : NameMap) (settings : Settings) (h : n ≠ "") :
    let installed := Registry.empty.merge m
    (settings.registry installed).find? n = meant m settings n ∧
      { settings with provider := n }.chosen? installed = meant m settings n ∧
      (∀ file, choose settings installed file (some n) =
        (meant m settings n).elim (.error (.notFound n)) .ok) ∧
      (∀ (load : StateM FileTree (Installed → Loader π)) (manifest : Option String)
        (file : String) (t : FileTree) (a : Arguments) (r : Request),
        manifestMap manifest t = m → a.task = .request r → wanted settings a.provider = n →
        ((perform settings file load manifest a).run t).1.1 =
          (meant m settings n).elim (.failed (SessionError.notFound n).text)
            fun p => session settings (load.run t).1 p r) ∧
      ∀ i p, installed.get? i = some p →
        (settings.registry installed).get? i = some p ∧
          (settings.registry installed).find? p.name = some p := by
  intro installed
  have hfirst := Registry.distinct_empty.merge m
  have hall : (settings.registry installed).Distinct := hfirst.merge settings.extraProviders
  refine ⟨find?_registry m settings n, chosen?_eq h, choose_eq h rfl, ?_, ?_⟩
  · rintro load manifest file t a r rfl hr hn
    exact perform_eq h hn hr load manifest file t
  · intro i p hp
    have hget : (settings.registry installed).get? i = some p :=
      Registry.get?_of_prefix (Registry.prefix_merge installed _) hp
    exact ⟨hget, hall.find?_name (List.mem_of_getElem? hget)⟩

section Spelt

open Rehearsal SectionSystem

def manifestLines : String := "Providers:\n  Fake: /a\n  FAKE: /b\n"

def manifestFiles : FileTree where
  root := .directory [("m", .file (Text.bytes manifestLines))]

def choosing : Settings where
  extraProviders := .ofList [("fake", "/c"), ("Git", "/g")]

def spelling : Arguments := ⟨"", some "fAkE", false, .request (.fileStatus "1")⟩

theorem resolved_alike_spelt :
    "fAkE" ≠ "" ∧ manifestMap (some "m") manifestFiles = .ofList [("Fake", "/a"), ("FAKE", "/b")] ∧
      spelling.task = .request (.fileStatus "1") ∧ wanted choosing spelling.provider = "fAkE" ∧
      ((perform choosing "" (pure fun _ => willing) (some "m") spelling : StateM FileTree _).run
        manifestFiles).1.1 =
          session choosing (fun _ => willing) ⟨"Fake", "/a"⟩ (.fileStatus "1") := by
  have hn : "fAkE" ≠ "" := by decide
  have hread : manifestFiles.read "m" = .content (Text.bytes manifestLines) := rfl
  have hm : manifestMap (some "m") manifestFiles = .ofList [("Fake", "/a"), ("FAKE", "/b")] := by
    rw [manifestMap, hread]
    decide +kernel
  have hmeant : meant (.ofList [("Fake", "/a"), ("FAKE", "/b")]) choosing "fAkE" =
      some ⟨"Fake", "/a"⟩ := by decide +kernel
  obtain ⟨-, -, -, hrun, -⟩ := resolved_alike (π := Scripted) _ choosing hn
  have hended := hrun (pure fun _ => willing) (some "m") "" manifestFiles spelling _ hm rfl rfl
  rw [hmeant] at hended
  exact ⟨hn, hm, rfl, rfl, hended⟩

end Spelt

end CommandLine

end SccDispatch
