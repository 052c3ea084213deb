import SccDispatch.Yaml.Tokens
import SccDispatch.Proofs.Yaml.QuotedText
import SccDispatch.Proofs.Yaml.BlockText

namespace SccDispatch.Yaml

theorem printable_of_not_needsEscape {cs : List Char} (h : needsEscape cs = false) :
    (∀ c ∈ cs, isPrintable c = true) ∧ hasNeighbours (· == ' ') endsLine cs = false := by
  simp only [needsEscape, Bool.or_eq_false_iff, List.any_eq_false] at h
  exact ⟨fun c hc => by simpa using h.1 c hc, h.2⟩

/-- What a text has to be like to be written without quotes. -/
structure SuitsPlain (cs : List Char) : Prop where
  chars : ∀ c ∈ cs, isPrintable c = true ∧ endsLine c = false
  starts : startsWith (· == ' ') cs = false
  ends : endsWith (· == ' ') cs = false
  outer : hasOuterMark cs = false
  inner : hasInnerMark cs = false

theorem SuitsPlain.of {cs : List Char} (h : suitsPlain cs = true) : SuitsPlain cs := by
  simp only [suitsPlain, Bool.not_eq_true', Bool.or_eq_false_iff, List.any_eq_false,
    Bool.not_eq_true] at h
  obtain ⟨⟨⟨⟨⟨hstarts, hends⟩, hlines⟩, hescape⟩, houter⟩, hinner⟩ := h
  have hchars := (printable_of_not_needsEscape hescape).1
  exact ⟨fun c hc => ⟨hchars c hc, hlines c hc⟩, hstarts, hends, houter, hinner⟩

/-- What a text has to be like for its form. -/
inductive Suits (s : String) : Form → Prop
  | plain : s.toList ≠ [] → SuitsPlain s.toList → Suits s .plain
  | single : (∀ c ∈ s.toList, isPrintable c = true ∧ c ≠ '\n') →
      hasNeighbours (· == ' ') endsLine s.toList = false →
      hasNeighbours endsLine (· == ' ') s.toList = false → Suits s .single
  | double : Suits s .double
  | literal : s.toList ≠ [] → (∀ c ∈ s.toList, isPrintable c = true) → '\n' ∈ s.toList →
      Suits s .literal

/-- The form chosen for a text can hold it. -/
theorem suits_form (s : String) : Suits s (Form.of s) := by
  unfold Form.of
  simp only []
  split
  next hfeed =>
    have hmem : '\n' ∈ s.toList := by simpa using hfeed
    split
    next h =>
      simp only [suitsLiteral, Bool.not_eq_true', Bool.or_eq_false_iff] at h
      exact .literal (List.ne_nil_of_mem hmem) (printable_of_not_needsEscape h.1).1 hmem
    next => exact .double
  next hfeed =>
    split
    next h =>
      simp only [Bool.and_eq_true, Bool.not_eq_true'] at h
      refine .plain ?_ (.of h.2)
      intro hnil
      rw [String.toList_eq_nil_iff] at hnil
      subst hnil
      exact absurd h.1 (by decide)
    next =>
      split
      next h =>
        simp only [suitsSingle, Bool.not_eq_true', Bool.or_eq_false_iff] at h
        obtain ⟨hchars, hbefore⟩ := printable_of_not_needsEscape h.1
        refine .single (fun c hc => ⟨hchars c hc, ?_⟩) hbefore h.2
        rintro rfl
        exact hfeed (by simpa using hc)
      next => exact .double

/-- Text without quotes does not begin like a mark between documents, whatever ends it. -/
theorem not_markAhead {q : Point} {d e : Char} {cs tail : List Char} (hne : cs ≠ [])
    (h : cs.take 3 ≠ [d, d, d]) (he : e ≠ d) :
    markAhead d (q.locate (cs ++ e :: tail)) = false := by
  obtain ⟨x, xs, rfl⟩ := List.exists_cons_of_ne_nil hne
  cases xs with
  | nil => cases tail <;> simp [markAhead, he]
  | cons y ys =>
    cases ys with
    | nil => simp [markAhead, he]
    | cons z zs =>
      simp only [List.take_succ_cons, List.take_zero, ne_eq, List.cons.injEq, and_true] at h
      simp only [List.cons_append, Point.locate_cons, markAhead, Point.spot_char,
        Bool.and_eq_false_iff, beq_eq_false_iff_ne]
      by_cases hx : x = d
      · by_cases hy : y = d
        · exact .inl (.inr fun hz => h ⟨hx, hy, hz⟩)
        · exact .inl (.inl (.inr hy))
      · exact .inl (.inl (.inl (.inr hx)))

/-- A text that suits plain writing begins a plain scalar. -/
theorem token?_plain {u : Scan} {q : Point} {c e : Char} {cs tail : List Char}
    (hu : u.inFlow = false) (hs : SuitsPlain (c :: cs)) (he : e = ':' ∨ e = '\n') :
    u.token? (q.spot c) ((q.next c).locate (cs ++ e :: tail)) = u.plainWord? (q.spot c) := by
  have houter := hs.outer
  simp only [hasOuterMark, Bool.or_eq_false_iff] at houter
  obtain ⟨⟨⟨hmark, hgap⟩, hdash⟩, hdot⟩ := houter
  have hmarks : ∀ d, (c :: cs).take 3 ≠ [d, d, d] → e ≠ d →
      markAhead d (q.spot c :: (q.next c).locate (cs ++ e :: tail)) = false := by
    intro d htake hne
    have hnot : markAhead d (q.locate (c :: cs ++ e :: tail)) = false :=
      not_markAhead (List.cons_ne_nil c cs) htake hne
    simpa using hnot
  have hdash := hmarks '-' (by simpa using hdash) (by obtain rfl | rfl := he <;> decide)
  have hdot := hmarks '.' (by simpa using hdot) (by obtain rfl | rfl := he <;> decide)
  have hblank : isBlank c = false := by
    refine not_isBlank (hs.chars c List.mem_cons_self).1 ?_
    rintro rfl
    simpa [startsWith] using hs.starts
  have hahead : ∀ d, (d = '?' ∨ d = ':' ∨ d = '-') →
      (c == d && gapAhead ((q.next c).locate (cs ++ e :: tail))) = false := by
    intro d hd
    by_cases hc : c = d
    · subst hc
      have hnext : gapNext cs = false := by
        obtain rfl | rfl | rfl := hd <;> simpa using hgap
      rw [not_gapAhead hnext, Bool.and_false]
    · simp [hc]
  simp only [String.reduceToList, List.contains_eq_mem, List.mem_cons, List.not_mem_nil, or_false,
    Bool.decide_or, Bool.or_eq_false_iff, decide_eq_false_iff_not] at hmark
  have hplain : u.plainAhead (q.spot c) ((q.next c).locate (cs ++ e :: tail)) = true := by
    cases hm : Scan.isMark c with
    | false => simp [Scan.plainAhead, hblank, hm]
    | true =>
      have hsoft : c = '?' ∨ c = ':' ∨ c = '-' := by
        simp only [Scan.isMark, String.reduceToList, List.contains_eq_mem, List.mem_cons,
          List.not_mem_nil, or_false, Bool.decide_or, Bool.or_eq_true, decide_eq_true_eq] at hm
        grind
      have hgap := hahead c hsoft
      simp only [beq_self_eq_true, Bool.true_and] at hgap
      obtain rfl | rfl | rfl := hsoft <;> simp [Scan.plainAhead, hu, hgap]
  unfold Scan.token?
  simp [hmark, hdash, hdot, hu, hahead, hplain]

theorem markAhead_spot {q : Point} {c d : Char} {rest : List Spot} (h : d ≠ c) :
    markAhead c (q.spot d :: rest) = false := by
  unfold markAhead
  split
  next heq =>
    simp only [List.cons.injEq] at heq
    simp [← heq.1, h]
  next => rfl

theorem token?_single {u : Scan} {q : Point} {rest : List Spot} :
    u.token? (q.spot '\'') rest = u.word? (q.spot '\'')
      ((single? [] .empty rest).map fun (t, rest) => (.scalar .quoted t, rest)) := by
  simp [Scan.token?, markAhead_spot]

theorem token?_double {u : Scan} {q : Point} {rest : List Spot} :
    u.token? (q.spot '"') rest = u.word? (q.spot '"')
      ((double? .text [] .empty rest).map fun (t, rest) => (.scalar .quoted t, rest)) := by
  simp [Scan.token?, markAhead_spot]

theorem token?_literal {u : Scan} {q : Point} {rest : List Spot} (hu : u.inFlow = false) :
    u.token? (q.spot '|') rest = u.blockWord? .literal rest := by
  simp [Scan.token?, markAhead_spot, hu]

/-- The character stands before a gap, so that it marks a key, a value or an entry. -/
theorem token?_colon {u : Scan} {q r : Point} {d : Char} {rest : List Char} (hu : u.inFlow = false)
    (hd : isBlank d = true ∨ isBreak d = true) :
    u.token? (q.spot ':') (r.locate (d :: rest)) =
      u.value? (q.spot ':') (r.locate (d :: rest)) := by
  simp [Scan.token?, markAhead_spot, hu, hd]

theorem token?_question {u : Scan} {q r : Point} {rest : List Char} (hu : u.inFlow = false) :
    u.token? (q.spot '?') (r.locate (' ' :: rest)) =
      u.blockMark? (q.spot '?') .blockMappingStart .key (r.locate (' ' :: rest)) true := by
  simp [Scan.token?, markAhead_spot, hu, isBlank]

theorem token?_openBrace {u : Scan} {q : Point} {rest : List Spot} :
    u.token? (q.spot '\x7b') rest = u.openFlow? (q.spot '\x7b') .flowMappingStart rest := by
  simp [Scan.token?, markAhead_spot]

theorem token?_closeBrace {u : Scan} {q : Point} {rest : List Spot} :
    u.token? (q.spot '\x7d') rest = u.closeFlow? .flowMappingEnd rest := by
  simp [Scan.token?, markAhead_spot]

theorem beginKey?_rest {u v : Scan} {x : Spot} (h : u.beginKey? x = some v) : v.rest = u.rest := by
  unfold Scan.beginKey? Scan.noKey? at h
  split at h
  · split at h
    · split at h
      · simp at h
      · simp only [Option.map_some, Option.some.injEq] at h
        rw [← h]
    · simp only [Option.map_some, Option.some.injEq] at h
      rw [← h]
  · simp only [Option.some.injEq] at h
    rw [h]

theorem SuitsPlain.beginsToken {c : Char} {cs : List Char} (h : SuitsPlain (c :: cs)) :
    beginsToken c = true := by
  obtain ⟨hp, hl⟩ := h.chars c List.mem_cons_self
  have hs : c ≠ ' ' := by
    rintro rfl
    simpa [startsWith] using h.starts
  refine beginsToken_iff.2 ⟨not_isBlank hp hs, not_isBreak hl, ?_, ?_⟩
  · rintro rfl
    simpa [hasOuterMark] using h.outer
  · rintro rfl
    revert hp
    decide

def styleOf (s : String) : Style :=
  match Form.of s with
  | .plain => .plain
  | .single | .double => .quoted
  | .literal => .literal

theorem written_eq {s : String} (indent : Nat) (h : Form.of s ≠ .literal) :
    written indent s = writtenKey indent s ++ ['\n'] := by
  unfold writtenKey written
  cases hf : Form.of s with
  | literal => exact absurd hf h
  | plain => rw [List.dropLast_concat]
  | single => rw [List.dropLast_concat]
  | double => rw [List.dropLast_concat]

theorem writtenKey_plain {s : String} {indent : Nat} (h : Form.of s = .plain) :
    writtenKey indent s = s.toList := by
  simp [writtenKey, written, h]

theorem writtenKey_single {s : String} {indent : Nat} (h : Form.of s = .single) :
    writtenKey indent s = '\'' :: (singleBody indent false s.toList ++ ['\'']) := by
  simp only [writtenKey, written, h, List.dropLast_concat]
  rfl

theorem writtenKey_double {s : String} {indent : Nat} (h : Form.of s = .double) :
    writtenKey indent s = '"' :: (s.toList.flatMap doubleChar ++ ['"']) := by
  simp only [writtenKey, written, h, List.dropLast_concat]
  rfl

theorem word?_eq {u : Scan} {x : Spot} {t : Token} {rest : List Spot} :
    u.word? x (some (t, rest)) =
      (u.beginKey? x).map fun v => { v.push t with rest, keyAllowed := false } := by
  unfold Scan.word?
  cases u.beginKey? x <;> rfl

/-- The text on one line, up to a colon or the line's end, becomes the token. If it has no quotes it
goes on to where plain text would end. -/
def ReadsWord (c : Char) (cs : List Char) (t : Token) : Prop :=
  ∀ (u : Scan) (q : Point) (e : Char) (tail : List Char) (ended : Bool) (rest : List Spot),
    u.inFlow = false → u.rest = q.locate (c :: cs ++ e :: tail) → (e = ':' ∨ e = '\n') →
    (∀ i ∈ u.indents.head?, i ≤ q.column) →
    (∀ place done, place.inFlow = false → (∀ i ∈ u.indents.head?, i < place.indent) →
      plain? place done .empty ((q.after (c :: cs)).locate (e :: tail)) =
        some ⟨String.ofList done.reverse, ended, rest⟩) →
    ∃ keyAllowed rest', (keyAllowed = ended ∧ rest' = rest ∨
        keyAllowed = false ∧ rest' = (q.after (c :: cs)).locate (e :: tail)) ∧
      u.token? (q.spot c) ((q.next c).locate (cs ++ e :: tail)) =
        (u.beginKey? (q.spot c)).map fun v => { v.push t with rest := rest', keyAllowed }

/-- A plain text ends before the colon or the line's end. -/
theorem readsWord_plain {c : Char} {cs : List Char} (hs : SuitsPlain (c :: cs)) :
    ReadsWord c cs (.scalar .plain (String.ofList (c :: cs))) := by
  intro u q e tail ended rest hu hrest he hcolumn hplain
  refine ⟨ended, rest, .inl ⟨rfl, rfl⟩, ?_⟩
  have hread : ∀ place : PlainPlace, place.inFlow = false →
      place.indent = (u.indents.head?.map (· + 1)).getD 0 →
      plain? place [] .empty (q.locate (c :: cs ++ e :: tail)) =
        some ⟨String.ofList (c :: cs), ended, rest⟩ := by
    intro place hflow hplace
    have hi : place.indent ≤ q.column + 1 ∧ ∀ i ∈ u.indents.head?, i < place.indent := by
      rw [hplace]
      cases hind : u.indents with
      | nil => simp
      | cons i is => simpa [hind] using hcolumn
    rw [← Gap.ofSpaces_zero, plain?_append hflow hs.chars hs.inner hs.ends (by simp) (by simp) hi.1,
      hplain place _ hflow hi.2]
    simp [spaces]
  rw [token?_plain hu hs he]
  unfold Scan.plainWord?
  cases hb : u.beginKey? (q.spot c) with
  | none => rfl
  | some v =>
    simp only [Option.bind_eq_bind, Option.bind_some, beginKey?_rest hb, hrest, Option.map_some]
    rw [hread _ hu (by cases u.indents <;> rfl)]
    rfl

theorem readsWord_single {s : String} {indent : Nat} (hindent : indent ≠ 0)
    (hf : Form.of s = .single) :
    ReadsWord '\'' (singleBody indent false s.toList ++ ['\'']) (.scalar .quoted s) := by
  intro u q e tail ended rest hu hrest he hcolumn hplain
  have hsuits := suits_form s
  rw [hf] at hsuits
  cases hsuits with
  | single hchars hbefore hbehind =>
    have hquote : e ≠ '\'' := by
      obtain rfl | rfl := he <;> decide
    have hcol : (q.next '\'').column ≠ 0 := by
      rw [Point.column_next q rfl]
      omega
    have hread := single?_body (p := q.next '\'') false [] [] s.toList tail hindent
      ⟨by simp [Pending], hchars, hbefore, hbehind⟩ (fun _ => hcol) hquote
    simp only [List.reverse_nil, List.nil_append, String.ofList_toList] at hread
    refine ⟨false, _, .inr ⟨rfl, rfl⟩, ?_⟩
    rw [token?_single, List.append_assoc, List.singleton_append,
      show Gap.empty = { chars := [] } from rfl, hread, Option.map_some, word?_eq]
    rfl

theorem readsWord_double (s : String) :
    ReadsWord '"' (s.toList.flatMap doubleChar ++ ['"']) (.scalar .quoted s) := by
  intro u q e tail ended rest hu hrest he hcolumn hplain
  have hcol : (q.next '"').column ≠ 0 := by
    rw [Point.column_next q rfl]
    omega
  have hread := double?_body (p := q.next '"') (n := 0) [] s.toList (e :: tail) hcol
  simp only [List.reverse_nil, List.nil_append, spaces, List.replicate_zero,
    String.ofList_toList, Gap.ofSpaces_zero] at hread
  refine ⟨false, _, .inr ⟨rfl, rfl⟩, ?_⟩
  rw [token?_double, List.append_assoc, List.singleton_append, hread, Option.map_some, word?_eq]
  rfl

/-- Scalars of all forms but literal blocks are words. -/
theorem readsWord_writtenKey {s : String} (indent : Nat) (hform : Form.of s ≠ .literal)
    (hindent : indent ≠ 0) :
    ∃ c cs, writtenKey indent s = c :: cs ∧ beginsToken c = true ∧
      ReadsWord c cs (.scalar (styleOf s) s) := by
  cases hf : Form.of s with
  | literal => exact absurd hf hform
  | plain =>
    have hsuits := suits_form s
    rw [hf] at hsuits
    obtain ⟨hne, hs⟩ := hsuits
    obtain ⟨c, cs, hcs⟩ := List.exists_cons_of_ne_nil hne
    rw [hcs] at hs
    have hread := readsWord_plain hs
    rw [← hcs, String.ofList_toList] at hread
    refine ⟨c, cs, by rw [writtenKey_plain hf, hcs], hs.beginsToken, ?_⟩
    simpa [styleOf, hf] using hread
  | single =>
    have hread := readsWord_single hindent hf
    exact ⟨_, _, writtenKey_single hf, by decide, by simpa [styleOf, hf] using hread⟩
  | double =>
    have hread := readsWord_double s
    exact ⟨_, _, writtenKey_double hf, by decide, by simpa [styleOf, hf] using hread⟩

theorem length_bytes (s : String) : (Text.bytes s).length = Point.size s.toList := by
  unfold Text.bytes
  induction s.toList with
  | nil => rfl
  | cons c cs ih =>
    rw [List.flatMap_cons, List.length_append, String.length_utf8EncodeChar, ih, Point.size_cons]

theorem size_hexDigits (count n : Nat) : Point.size (hexDigits count n) = count := by
  have hdigit : ∀ d < 16, (Nat.digitChar d).toUpper.utf8Size = 1 := by decide
  induction count generalizing n with
  | zero => rfl
  | succ count ih => simp [hexDigits, ih, hdigit (n % 16) (Nat.mod_lt n (by decide))]

theorem size_doubleChar (c : Char) : Point.size (doubleChar c) ≤ 4 * c.utf8Size := by
  have hsize := c.utf8Size_pos
  unfold doubleChar
  split
  next =>
    obtain ⟨cs, hcs, he⟩ := exists_escaped c
    have hslash : ('\\').utf8Size = 1 := by decide
    rw [hcs, Point.size_cons, hslash]
    cases he with
    | letter l he hb hp hl hone =>
      rw [Point.size_cons, Point.size_nil, hone]
      omega
    | number mark count he hmem hc hcount =>
      have hmark : mark.utf8Size = 1 := by
        revert hmem
        simp only [List.mem_cons, List.not_mem_nil, or_false]
        rintro (rfl | rfl | rfl) <;> decide
      rw [Point.size_cons, size_hexDigits, hmark]
      omega
  next =>
    simp only [Point.size_cons, Point.size_nil]
    omega

theorem size_flatMap_doubleChar (cs : List Char) :
    Point.size (cs.flatMap doubleChar) ≤ 4 * Point.size cs := by
  induction cs with
  | nil => exact Nat.le_refl _
  | cons c cs ih =>
    have hc := size_doubleChar c
    rw [List.flatMap_cons, Point.size_append, Point.size_cons]
    omega

theorem singleBody_line (indent : Nat) {cs : List Char} (h : ∀ c ∈ cs, isBreak c = false) :
    (∀ c ∈ singleBody indent false cs, isBreak c = false) ∧
      Point.size (singleBody indent false cs) ≤ 2 * Point.size cs := by
  induction cs with
  | nil => simp [singleBody]
  | cons c cs ih =>
    have hc := h c List.mem_cons_self
    obtain ⟨hbreaks, hsize⟩ := ih fun x hx => h x (List.mem_cons_of_mem _ hx)
    have hbody : singleBody indent false (c :: cs) =
        (if c == '\'' then [c, c] else [c]) ++ singleBody indent false cs := by
      simp [singleBody, hc]
    rw [hbody]
    constructor
    · intro x hx
      rcases List.mem_append.1 hx with hx | hx
      · have : x = c := by
          split at hx <;> simpa using hx
        rw [this, hc]
      · exact hbreaks x hx
    · rw [Point.size_append, Point.size_cons]
      split <;> simp <;> omega

structure SimpleKey (s : String) : Prop where
  chars : ∀ c ∈ s.toList, endsLine c = false
  size : Point.size s.toList ≤ 128

theorem isSimpleKey_iff {s : String} : isSimpleKey s = true ↔ SimpleKey s := by
  rw [isSimpleKey, length_bytes]
  simp only [Bool.and_eq_true, Bool.not_eq_true', List.any_eq_false, decide_eq_true_eq]
  exact ⟨fun h => ⟨by simpa using h.1, h.2⟩, fun h => ⟨by simpa using h.chars, h.size⟩⟩

namespace SimpleKey

variable {s : String}

/-- A key on one line is not written as a block. -/
theorem not_literal (h : SimpleKey s) : Form.of s ≠ .literal := by
  intro hf
  have hsuits := suits_form s
  rw [hf] at hsuits
  cases hsuits with
  | literal _ _ hmem => simpa [endsLine] using h.chars _ hmem

/-- The written key stays on its line and does not grow beyond what a key may take. -/
theorem writtenKey (h : SimpleKey s) (indent : Nat) :
    (∀ c ∈ Yaml.writtenKey indent s, isBreak c = false) ∧
      Point.size (Yaml.writtenKey indent s) ≤ 1024 := by
  have hbreaks : ∀ c ∈ s.toList, isBreak c = false := fun c hc => not_isBreak (h.chars c hc)
  have hsize := h.size
  cases hf : Form.of s with
  | literal => exact absurd hf h.not_literal
  | plain =>
    rw [writtenKey_plain hf]
    exact ⟨hbreaks, by omega⟩
  | single =>
    obtain ⟨hline, hbody⟩ := singleBody_line indent hbreaks
    have hquote : isBreak '\'' = false := by decide
    have hone : ('\'').utf8Size = 1 := by decide
    rw [writtenKey_single hf]
    refine ⟨by simpa [hquote, or_imp, forall_and] using hline, ?_⟩
    simp only [Point.size_cons, Point.size_append, Point.size_nil, hone]
    omega
  | double =>
    have hquote : isBreak '"' = false := by decide
    have hone : ('"').utf8Size = 1 := by decide
    have hbody := size_flatMap_doubleChar s.toList
    have hline : ∀ c ∈ s.toList.flatMap doubleChar, isBreak c = false := by
      intro c hc
      obtain ⟨x, -, hx⟩ := List.mem_flatMap.1 hc
      exact not_isBreak (of_mem_doubleChar hx).2
    rw [writtenKey_double hf]
    refine ⟨by simpa [hquote, or_imp, forall_and] using hline, ?_⟩
    simp only [Point.size_cons, Point.size_append, Point.size_nil, hone]
    omega

end SimpleKey

end SccDispatch.Yaml
