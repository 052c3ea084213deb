import Mathlib.Data.List.Forall2
import SccDispatch.Yaml.Fields
import SccDispatch.Proofs.Yaml.Entries

namespace SccDispatch.Yaml

/-- The tokens make the node, wherever a value may stand. -/
structure MakesNode (ts : List Token) (n : Node) : Prop where
  starts : ∀ t ∈ ts.head?, t ∉ [Token.key, .value, .blockEnd]
  nonempty : ts ≠ []
  read : ∀ (hs : Handles) (fuel : Nat) (setting : Setting) (rest : List Token)
    (anchors : List (String × Nat)), setting ≠ .flow → 3 * ts.length < fuel →
    node? hs fuel setting ⟨ts ++ rest, anchors⟩ = some (n, ⟨rest, anchors⟩)

/-- The tokens make the entries of a block mapping that ends after them. -/
def MakesEntries (ts : List Token) (es : List (Node × Node)) : Prop :=
  ∀ (hs : Handles) (fuel : Nat) (rest : List Token) (anchors : List (String × Nat)),
    3 * ts.length < fuel →
    blockEntries? hs fuel ⟨ts ++ .blockEnd :: rest, anchors⟩ = some (es, ⟨rest, anchors⟩)

theorem makesNode_scalar (style : Style) (s : String) :
    MakesNode [.scalar style s] (.scalar {} style s) := by
  refine ⟨by simp, by simp, fun hs fuel setting rest anchors _ hfuel => ?_⟩
  obtain ⟨fuel, rfl⟩ := Nat.exists_eq_add_of_lt (Nat.zero_lt_of_lt hfuel)
  rw [Nat.zero_add, node?]
  simp [properties?, propertyTokens, Unread.skip]

theorem makesNode_empty : MakesNode [.flowMappingStart, .flowMappingEnd] (.mapping {} []) := by
  refine ⟨by simp, by simp, fun hs fuel setting rest anchors _ hfuel => ?_⟩
  obtain ⟨fuel, rfl⟩ := Nat.exists_eq_add_of_lt (show 1 < fuel by simp at hfuel; omega)
  rw [show 1 + fuel + 1 = fuel + 1 + 1 by omega, node?]
  simp [properties?, propertyTokens, Unread.skip, flowEntries?, Unread.ahead]

theorem makesNode_mapping {ts : List Token} {es : List (Node × Node)} (h : MakesEntries ts es) :
    MakesNode (.blockMappingStart :: ts ++ [.blockEnd]) (.mapping {} es) := by
  refine ⟨by simp, by simp, fun hs fuel setting rest anchors hsetting hfuel => ?_⟩
  obtain ⟨fuel, rfl⟩ := Nat.exists_eq_add_of_lt (Nat.zero_lt_of_lt hfuel)
  have hread := h hs fuel rest anchors (by simp at hfuel; omega)
  rw [Nat.zero_add, node?]
  simp [properties?, propertyTokens, Unread.skip, hsetting, hread]

theorem makesEntries_nil : MakesEntries [] [] := by
  intro hs fuel rest anchors hfuel
  obtain ⟨fuel, rfl⟩ := Nat.exists_eq_add_of_lt (Nat.zero_lt_of_lt hfuel)
  rw [Nat.zero_add, blockEntries?]
  simp [Unread.ahead, Unread.expect?, Unread.skip]

theorem MakesNode.part? {ts : List Token} {n : Node} (h : MakesNode ts n) (hs : Handles)
    (fuel : Nat) (rest : List Token) (anchors : List (String × Nat))
    (hfuel : 3 * ts.length + 1 < fuel) :
    part? hs fuel .afterKey [.key, .value, .blockEnd] ⟨ts ++ rest, anchors⟩ =
      some (n, ⟨rest, anchors⟩) := by
  obtain ⟨fuel, rfl⟩ := Nat.exists_eq_add_of_lt (Nat.zero_lt_of_lt hfuel)
  obtain ⟨t, ts, rfl⟩ := List.exists_cons_of_ne_nil h.nonempty
  have hread := h.read hs fuel .afterKey rest anchors (by decide) (by omega)
  have hahead : (⟨t :: ts ++ rest, anchors⟩ : Unread).ahead [.key, .value, .blockEnd] = false := by
    have hstarts := h.starts t rfl
    simpa [Unread.ahead] using hstarts
  rw [Nat.zero_add, Yaml.part?, hahead, if_neg (by decide), hread]

theorem makesEntries_cons {ts us : List Token} {v : Node} {es : List (Node × Node)}
    {style : Style} {key : String} (hv : MakesNode ts v) (h : MakesEntries us es) :
    MakesEntries (.key :: .scalar style key :: .value :: ts ++ us)
      ((.scalar {} style key, v) :: es) := by
  intro hs fuel rest anchors hfuel
  obtain ⟨fuel, rfl⟩ := Nat.exists_eq_add_of_lt (Nat.zero_lt_of_lt hfuel)
  simp only [List.length_cons, List.length_append] at hfuel
  have hkey := (makesNode_scalar style key).part? hs fuel
    (.value :: (ts ++ (us ++ .blockEnd :: rest))) anchors (by simp; omega)
  have hvalue := hv.part? hs fuel (us ++ .blockEnd :: rest) anchors (by omega)
  have hrest := h hs fuel rest anchors (by omega)
  have hahead : ∀ ts : List Token, (⟨.key :: ts, anchors⟩ : Unread).ahead [.key] = true ∧
      (⟨.value :: ts, anchors⟩ : Unread).ahead [.value] = true :=
    fun _ => ⟨rfl, rfl⟩
  rw [List.singleton_append] at hkey
  rw [Nat.zero_add, blockEntries?, List.append_assoc, List.cons_append, List.cons_append,
    List.cons_append, if_pos (hahead _).1]
  simp only [Unread.skip, List.drop_one, List.tail_cons, hkey, Option.bind_eq_bind,
    Option.bind_some, if_pos (hahead _).2, hvalue, hrest]
  rfl

def Printable (cs : List Char) : Prop := ∀ c ∈ cs, isPrintable c = true

theorem printable_nil : Printable [] := List.forall_mem_nil _

theorem printable_cons {c : Char} {cs : List Char} :
    Printable (c :: cs) ↔ isPrintable c = true ∧ Printable cs := List.forall_mem_cons

theorem printable_append {as bs : List Char} :
    Printable (as ++ bs) ↔ Printable as ∧ Printable bs := List.forall_mem_append

theorem printable_spaces (n : Nat) : Printable (spaces n) := by
  intro c hc
  rw [List.eq_of_mem_replicate hc]
  decide

theorem printable_singleBody (indent : Nat) (fresh : Bool) {cs : List Char} (h : Printable cs) :
    Printable (singleBody indent fresh cs) := by
  induction cs generalizing fresh with
  | nil =>
    unfold singleBody
    split
    · exact printable_spaces _
    · exact printable_nil
  | cons c cs ih =>
    obtain ⟨hc, hcs⟩ := printable_cons.1 h
    have hquoted : Printable (if c == '\'' then [c, c] else [c]) := by
      split <;> simp [printable_cons, printable_nil, hc]
    unfold singleBody
    split
    · exact printable_cons.2 ⟨hc, ih _ hcs⟩
    · refine printable_append.2 ⟨printable_append.2 ⟨?_, hquoted⟩, ih _ hcs⟩
      split
      · exact printable_spaces _
      · exact printable_nil

theorem printable_literalBody (indent : Nat) (fresh : Bool) {cs : List Char} (h : Printable cs) :
    Printable (literalBody indent fresh cs) := by
  induction cs generalizing fresh with
  | nil =>
    unfold literalBody
    split
    · exact printable_nil
    · exact printable_cons.2 ⟨by decide, printable_nil⟩
  | cons c cs ih =>
    obtain ⟨hc, hcs⟩ := printable_cons.1 h
    unfold literalBody
    split
    · exact printable_cons.2 ⟨hc, ih _ hcs⟩
    · refine printable_append.2 ⟨?_, printable_cons.2 ⟨hc, ih _ hcs⟩⟩
      split
      · exact printable_spaces _
      · exact printable_nil

theorem printable_hints (cs : List Char) : Printable (depthHint cs ++ chompHint cs) := by
  have hmarks : Printable ['2'] ∧ Printable ['-'] ∧ Printable ['+'] := by
    refine ⟨?_, ?_, ?_⟩ <;> exact printable_cons.2 ⟨by decide, printable_nil⟩
  refine printable_append.2 ⟨?_, ?_⟩
  · unfold depthHint
    split
    · exact hmarks.1
    · exact printable_nil
  · unfold chompHint
    split
    · exact hmarks.2.1
    · split
      · exact hmarks.2.1
      · split
        · exact hmarks.2.2
        · exact printable_nil

/-- What is written can be read as a stream. -/
theorem printable_written (indent : Nat) (s : String) : Printable (written indent s) := by
  have hfeed : Printable ['\n'] := printable_cons.2 ⟨by decide, printable_nil⟩
  have hsuits := suits_form s
  unfold written
  cases hf : Form.of s with
  | plain =>
    rw [hf] at hsuits
    obtain ⟨-, hs⟩ := hsuits
    exact printable_append.2 ⟨fun c hc => (hs.chars c hc).1, hfeed⟩
  | single =>
    rw [hf] at hsuits
    cases hsuits with
    | single hchars =>
      have hquote : isPrintable '\'' = true := by decide
      have hbody := printable_singleBody indent false
        fun c hc => (hchars c hc).1
      refine printable_append.2 ⟨printable_append.2 ⟨printable_cons.2 ⟨hquote, hbody⟩, ?_⟩, hfeed⟩
      exact printable_cons.2 ⟨hquote, printable_nil⟩
  | double =>
    have hquote : isPrintable '"' = true := by decide
    have hbody : Printable (s.toList.flatMap doubleChar) := by
      intro c hc
      obtain ⟨x, -, hx⟩ := List.mem_flatMap.1 hc
      exact (of_mem_doubleChar hx).1
    refine printable_append.2 ⟨printable_append.2 ⟨printable_cons.2 ⟨hquote, hbody⟩, ?_⟩, hfeed⟩
    exact printable_cons.2 ⟨hquote, printable_nil⟩
  | literal =>
    rw [hf] at hsuits
    cases hsuits with
    | literal hne hchars =>
      have hbar : isPrintable '|' = true := by decide
      have hbody := printable_literalBody indent true hchars
      obtain ⟨hdepth, hchomp⟩ := printable_append.1 (printable_hints s.toList)
      refine printable_append.2 ⟨?_, printable_cons.2 ⟨by decide, hbody⟩⟩
      exact printable_append.2 ⟨printable_cons.2 ⟨hbar, hdepth⟩, hchomp⟩

theorem printable_entry {column : Nat} {key : String} {value : List Char} (h : Printable value) :
    Printable (entry column key value) := by
  have hcolon : Printable (':' :: value) := printable_cons.2 ⟨by decide, h⟩
  have hmark : Printable ['?', ' '] :=
    printable_cons.2 ⟨by decide, printable_cons.2 ⟨by decide, printable_nil⟩⟩
  have hkey := printable_written (column + step) key
  have hspaces := printable_spaces column
  unfold entry
  split
  · have hwritten : Printable (writtenKey (column + step) key) :=
      fun c hc => hkey c (List.dropLast_subset _ hc)
    exact printable_append.2 ⟨printable_append.2 ⟨hspaces, hwritten⟩, hcolon⟩
  · refine printable_append.2 ⟨?_, hcolon⟩
    have hstart := printable_append.2 ⟨printable_append.2 ⟨hspaces, hmark⟩, hkey⟩
    exact printable_append.2 ⟨hstart, hspaces⟩

/-- The text is an entry of a mapping at the column, with this key and value. -/
structure WritesEntry (column : Nat) (text : List Char) (f : Field) : Prop where
  printable : Printable text
  reads : ∃ ts, Scan.ReadsEntries column text (.key :: .scalar (styleOf f.1) f.1 :: .value :: ts) ∧
    MakesNode ts f.2

def keyed (fs : List Field) : List (Node × Node) :=
  fs.map fun f => (.scalar {} (styleOf f.1) f.1, f.2)

theorem printable_flatten {column : Nat} {es : List (List Char)} {fs : List Field}
    (h : List.Forall₂ (WritesEntry column) es fs) : Printable es.flatten := by
  induction h with
  | nil => exact printable_nil
  | cons he hes ih => exact printable_append.2 ⟨he.printable, ih⟩

/-- Entries that are written become tokens that make the same entries. -/
theorem exists_tokens {column : Nat} {es : List (List Char)} {fs : List Field}
    (h : List.Forall₂ (WritesEntry column) es fs) (hne : es ≠ []) :
    ∃ ts, Scan.ReadsEntries column es.flatten ts ∧ MakesEntries ts (keyed fs) := by
  induction h with
  | nil => exact absurd rfl hne
  | @cons e f es fs he hes ih =>
    obtain ⟨ts, hread, hnode⟩ := he.reads
    cases hes with
    | nil =>
      refine ⟨_, by simpa using hread, ?_⟩
      simpa [keyed] using makesEntries_cons hnode makesEntries_nil
    | cons he' hes' =>
      obtain ⟨us, hread', hnode'⟩ := ih (by simp)
      exact ⟨_, hread.append hread', by simpa [keyed] using makesEntries_cons hnode hnode'⟩

theorem writesEntry_text (column : Nat) (key value : String) :
    WritesEntry column (textEntry column key value) (key, .scalar {} (styleOf value) value) where
  printable := printable_entry (printable_cons.2 ⟨by decide, printable_written _ _⟩)
  reads := ⟨_, Scan.readsEntries_entry (.inl rfl) (Scan.readsValue_scalar column value),
    makesNode_scalar _ _⟩

theorem writesEntry_flag (column : Nat) (key : String) (value : Bool) :
    WritesEntry column (flagEntry column key value)
      (key, .scalar {} .plain (if value then "true" else "false")) where
  printable := by
    refine printable_entry (List.all_eq_true.1 ?_)
    cases value <;> decide
  reads := ⟨_, Scan.readsEntries_entry (.inl rfl) (Scan.readsValue_flag column value),
    makesNode_scalar _ _⟩

/-- Entries one step further in make a value. -/
theorem writesEntry_mapping {column : Nat} {es : List (List Char)} {fs : List Field}
    (key : String) (h : List.Forall₂ (WritesEntry (column + step)) es fs) :
    WritesEntry column (mappingEntry column key es) (key, .mapping {} (keyed fs)) := by
  cases es with
  | nil =>
    cases h
    exact ⟨printable_entry (List.all_eq_true.1 (by decide)), _,
      Scan.readsEntries_entry (.inl rfl) (Scan.readsValue_empty column), makesNode_empty⟩
  | cons e es =>
    obtain ⟨ts, hread, hentries⟩ := exists_tokens h (by simp)
    exact ⟨printable_entry (printable_cons.2 ⟨by decide, printable_flatten h⟩), _,
      Scan.readsEntries_entry (.inr rfl) (Scan.readsValue_mapping hread),
      makesNode_mapping hentries⟩

/-- A text of entries in the first column is read as their mapping. -/
theorem read?_ofList {es : List (List Char)} {fs : List Field}
    (h : List.Forall₂ (WritesEntry 0) es fs) (hne : es ≠ []) :
    Document.read? (String.ofList es.flatten) = some ⟨.mapping {} (keyed fs)⟩ := by
  obtain ⟨ts, hread, hentries⟩ := exists_tokens h hne
  have hnode := (makesNode_mapping hentries).read standardHandles
    (3 * (Token.blockMappingStart :: ts ++ [Token.blockEnd]).length + 3) .block [] [] (by decide)
    (by omega)
  rw [List.append_nil] at hnode
  rw [Document.read?, tokens?_ofList hread (printable_flatten h), Option.bind_eq_bind,
    Option.bind_some]
  simp only [List.cons_append] at hnode ⊢
  rw [document?, if_neg (by simp [isDirective]), rootNode?, hnode]
  rfl

namespace Document

/-- The fields of a mapping written from fields are these. -/
theorem fields?_keyed (d : Document) (fs : List Field) :
    d.fields? (.mapping {} (keyed fs)) = some fs := by
  simp only [fields?, follow?]
  induction fs with
  | nil => rfl
  | cons f fs ih =>
    simp only [keyed, List.map_cons, List.mapM_cons] at ih ⊢
    rw [ih]
    rfl

end Document

end SccDispatch.Yaml
