import Mathlib.Data.List.TakeWhile
import SccDispatch.Proofs.Yaml.Values

namespace SccDispatch.Yaml

namespace Scan

/-- The tokens before an entry at the column: its mapping is open already or begins with it. -/
def openedTokens (column : Nat) (tokens : List Token) (indents : List Nat) : List Token :=
  if indents.head? = some column then tokens else .blockMappingStart :: tokens

def openedColumns (column : Nat) (indents : List Nat) : List Nat :=
  if indents.head? = some column then indents else column :: indents

theorem head?_openedColumns (column : Nat) (indents : List Nat) :
    (openedColumns column indents).head? = some column := by
  unfold openedColumns
  split
  · assumption
  · rfl

theorem openedColumns_eq (column : Nat) (indents : List Nat) :
    ∃ rest, openedColumns column indents = column :: rest := by
  unfold openedColumns
  split
  next h =>
    obtain ⟨rest, hrest⟩ := List.head?_eq_some_iff.1 h
    exact ⟨rest, hrest⟩
  next => exact ⟨indents, rfl⟩

@[simp] theorem openedTokens_openedColumns (column : Nat) (tokens : List Token)
    (indents : List Nat) : openedTokens column tokens (openedColumns column indents) = tokens :=
  if_pos (head?_openedColumns column indents)

@[simp] theorem openedColumns_openedColumns (column : Nat) (indents : List Nat) :
    openedColumns column (openedColumns column indents) = openedColumns column indents :=
  if_pos (head?_openedColumns column indents)

theorem isDeeper_iff {s : Scan} {column : Nat} (h : ∀ i ∈ s.indents.head?, i ≤ column) :
    s.isDeeper column = true ↔ s.indents.head? ≠ some column := by
  unfold isDeeper
  cases hi : s.indents with
  | nil => simp
  | cons i is =>
    have := h i (by simp [hi])
    simp only [List.head?_cons, ne_eq, Option.some.injEq, decide_eq_true_eq]
    omega

/-- Opening puts the start of the mapping behind the newest tokens. -/
theorem openBlock_eq {s : Scan} {column : Nat} (newer : List Token) {older : List Token}
    (hflow : s.inFlow = false)
    (h : ∀ i ∈ s.indents.head?, i ≤ column) (htokens : s.tokens = newer ++ older) :
    s.openBlock column older.length .blockMappingStart =
      { s with tokens := newer ++ openedTokens column older s.indents
               indents := openedColumns column s.indents } := by
  have hdeep := isDeeper_iff h
  unfold openBlock openedTokens openedColumns
  by_cases hc : s.indents.head? = some column
  · have hnot : s.isDeeper column = false := by
      rw [Bool.eq_false_iff, ne_eq, hdeep]
      exact not_not_intro hc
    simp [hnot, hc, ← htokens]
  · simp [hdeep.2 hc, hc, hflow, insert, htokens]

theorem Stands.head_le {s : Scan} {column : Nat} {p : Point} {tail : List Char}
    {tokens : List Token} {indents : List Nat} (h : Stands s column p tail tokens indents) :
    ∀ i ∈ indents.head?, i ≤ column := by
  intro i hi
  rw [← h.deep] at hi
  have := List.head?_dropWhile_not (column < ·) s.indents
  rw [hi] at this
  simpa using this

/-- A colon that a key stands before puts the tokens of the key and its mapping before it. -/
theorem value?_key {s : Scan} {x : Spot} {rest : List Spot} {column : Nat} {t : Token}
    {tokens : List Token} {k : KeyStart} (hflow : s.outerKeys = []) (hkey : s.key = some k)
    (htokens : s.tokens = t :: tokens) (hbefore : k.before = tokens.length)
    (hk : k.column = column) (h : ∀ i ∈ s.indents.head?, i ≤ column) :
    s.value? x rest =
      some (between rest (.value :: t :: .key :: openedTokens column tokens s.indents)
        (openedColumns column s.indents) false) := by
  have hinsert : (s.insert k.before [.key]).tokens = [t, .key] ++ tokens := by
    simp [insert, htokens, hbefore]
  have hopen := openBlock_eq (s := s.insert k.before [.key]) [t, .key]
    (by simp [inFlow, insert, hflow]) (by simpa [insert] using h) hinsert
  unfold value?
  rw [hkey]
  simp only [hk, hbefore] at hopen ⊢
  rw [hopen]
  simp [between, push, insert, hflow]

/-- A colon that no key stands before has been the mark of a value. -/
theorem value?_mark {x : Spot} {rest rest' : List Spot} {column : Nat} {tokens : List Token}
    {indents : List Nat} (hx : x.column = column) (h : ∀ i ∈ indents.head?, i ≤ column) :
    (between rest tokens indents true).value? x rest' =
      some (between rest' (.value :: openedTokens column tokens indents)
        (openedColumns column indents) true) := by
  have hopen := openBlock_eq (s := between rest tokens indents true) [] rfl h rfl
  change some { ((between rest tokens indents true).openBlock x.column tokens.length
    .blockMappingStart).push .value with rest := rest', keyAllowed := true } = _
  rw [hx, hopen]
  rfl

theorem blockMark?_key {x : Spot} {rest rest' : List Spot} {column : Nat} {tokens : List Token}
    {indents : List Nat} (hx : x.column = column) (h : ∀ i ∈ indents.head?, i ≤ column) :
    (between rest tokens indents true).blockMark? x .blockMappingStart .key rest' true =
      some (between rest' (.key :: openedTokens column tokens indents)
        (openedColumns column indents) true) := by
  have hopen := openBlock_eq (s := between rest tokens indents true) [] rfl h rfl
  rw [blockMark?, if_neg (by simp [between]), hx, between_tokens, hopen]
  rfl

def keyAt (rest : List Spot) (tokens : List Token) (indents : List Nat) (k : KeyStart) : Scan :=
  { rest, tokens, indents, key := some k, keyAllowed := false }

/-- A key is ended by its colon if that comes on the same line, and not too far. -/
theorem goes_colon {r : Point} {column : Nat} {d : Char} (rest : List Char) {t : Token}
    {tokens : List Token} {indents : List Nat} {k : KeyStart}
    (hhead : ∀ i ∈ indents.head?, i ≤ column) (hbefore : k.before = tokens.length)
    (hk : k.column = column) (hline : r.line = k.line) (hcolumn : column ≤ r.column)
    (hoffset : r.offset ≤ k.offset + 1024) (hd : isBlank d = true ∨ isBreak d = true) :
    Goes (keyAt (r.locate (':' :: d :: rest)) (t :: tokens) indents k)
      (between ((r.next ':').locate (d :: rest))
        (.value :: t :: .key :: openedTokens column tokens indents) (openedColumns column indents)
        false) := by
  have htoken : (keyAt (r.locate (':' :: d :: rest)) (t :: tokens) indents k).toToken =
      keyAt (r.locate (':' :: d :: rest)) (t :: tokens) indents k := by
    have hskip := skip_of_token (q := r) (c := ':') (d :: rest) false false (by decide)
    unfold toToken
    simp only [keyAt, inFlow, List.isEmpty_nil, Bool.not_true, hskip]
  have hlasts : KeyStart.lasts k (r.spot ':') = true := by
    have hsame : ¬k.line < r.line := by omega
    have hnear : ¬k.offset + 1024 < r.offset := by omega
    change (!(decide (k.line < r.line) || decide (k.offset + 1024 < r.offset))) = true
    simp [hsame, hnear]
  have hdrop : (keyAt (r.locate (':' :: d :: rest)) (t :: tokens) indents k).dropOutlived?
      (r.spot ':') = some (keyAt (r.locate (':' :: d :: rest)) (t :: tokens) indents k) := by
    simp [dropOutlived?, keyAt, outlived?, hlasts]
  have hclosed : (keyAt (r.locate (':' :: d :: rest)) (t :: tokens) indents k).closeBlocks
      (fun i => r.column < i) = keyAt (r.locate (':' :: d :: rest)) (t :: tokens) indents k := by
    rw [closeBlocks, if_neg (by simp [inFlow, keyAt])]
    cases indents with
    | nil => rfl
    | cons i is =>
      have hi : ¬r.column < i := by
        have := hhead i rfl
        omega
      simp [keyAt, hi]
  refine goes_of_token (by rw [htoken, keyAt, Point.locate_cons]) (by rw [htoken, hdrop])
    (by rw [Point.spot_column, hclosed, token?_colon rfl hd,
          value?_key rfl rfl rfl hbefore hk hhead]; rfl) ?_
  simp [between]

/-- A key without a mark is known as one when its colon is met. -/
theorem goes_simple_key {s : Scan} {column : Nat} {p : Point} {key : String} {d : Char}
    {rest : List Char} {tokens : List Token} {indents : List Nat} (hsimple : SimpleKey key)
    (hd : isBlank d = true ∨ isBreak d = true)
    (h : Stands s column p (spaces column ++ (writtenKey (column + step) key ++ ':' :: d :: rest))
      tokens indents) :
    column ≤ (p.after (spaces column ++ (writtenKey (column + step) key ++ [':']))).column ∧
      Goes s (between ((p.after (spaces column ++ (writtenKey (column + step) key ++ [':']))).locate
          (d :: rest))
        (.value :: .scalar (styleOf key) key :: .key :: openedTokens column tokens indents)
        (openedColumns column indents) false) := by
  obtain ⟨c, cs, hcs, hc, hword⟩ := readsWord_writtenKey (column + step)
    hsimple.not_literal (by simp [step])
  obtain ⟨hline, hsize⟩ := hsimple.writtenKey (column + step)
  rw [hcs] at h hline hsize ⊢
  have hhead := h.head_le
  have hq : (p.after (spaces column)).column = column := by
    rw [Point.after_spaces_column, h.start, Nat.zero_add]
  have hr := (p.after (spaces column)).after_of_no_break hline
  obtain ⟨keyAllowed, rest', hrest', hread⟩ := hword
    (between ((p.after (spaces column)).locate (c :: cs ++ ':' :: d :: rest)) tokens indents true)
    (p.after (spaces column)) ':' (d :: rest) false _ rfl rfl (.inl rfl)
    (by simpa [hq] using hhead) (fun place done _ _ => plain?_colon hd)
  obtain ⟨rfl, rfl⟩ : keyAllowed = false ∧
      rest' = ((p.after (spaces column)).after (c :: cs)).locate (':' :: d :: rest) := by
    rcases hrest' with h | h <;> exact h
  have hkey : ∃ k : KeyStart, k.before = tokens.length ∧ k.line = (p.after (spaces column)).line ∧
      k.column = column ∧ k.offset = (p.after (spaces column)).offset ∧
      (between ((p.after (spaces column)).locate (c :: cs ++ ':' :: d :: rest)) tokens indents
        true).beginKey? ((p.after (spaces column)).spot c) =
      some { rest := (p.after (spaces column)).locate (c :: cs ++ ':' :: d :: rest), tokens,
             indents, key := some k } :=
    ⟨_, rfl, rfl, hq, rfl, rfl⟩
  obtain ⟨k, hbefore, hkline, hkcolumn, hkoffset, hbegin⟩ := hkey
  rw [hbegin, Option.map_some] at hread
  have hcolon := goes_colon (r := (p.after (spaces column)).after (c :: cs))
    (t := .scalar (styleOf key) key) rest hhead hbefore hkcolumn (by rw [hr, hkline])
    (by simp [hr, hq]) (by rw [hr, hkoffset]; exact Nat.add_le_add_left hsize _) hd
  refine ⟨?_, (h.enter hc hread (by simp)).trans ?_⟩
  · simp only [Point.after_append, hr, Point.after_cons, Point.after_nil]
    rw [Point.column_next _ (by decide), hq]
    simp only
    omega
  · simpa [push, keyAt] using hcolon

/-- A key with a mark begins a mapping at once. -/
theorem goes_marked_key {s : Scan} {column : Nat} {p : Point} {key : String} {d : Char}
    {rest : List Char} {tokens : List Token} {indents : List Nat}
    (hd : isBlank d = true ∨ isBreak d = true)
    (h : Stands s column p (spaces column ++ '?' :: ' ' :: (written (column + step) key ++
      (spaces column ++ ':' :: d :: rest))) tokens indents) :
    column ≤ (p.after (spaces column ++ '?' :: ' ' :: (written (column + step) key ++
        (spaces column ++ [':'])))).column ∧
      Goes s (between ((p.after (spaces column ++ '?' :: ' ' :: (written (column + step) key ++
          (spaces column ++ [':'])))).locate (d :: rest))
        (.value :: .scalar (styleOf key) key :: .key :: openedTokens column tokens indents)
        (openedColumns column indents) true) := by
  have hq : (p.after (spaces column)).column = column := by
    rw [Point.after_spaces_column, h.start, Nat.zero_add]
  have hmark := h.enter (by decide) (by rw [token?_question rfl, blockMark?_key hq h.head_le])
    (by simp)
  obtain ⟨rest', hindents⟩ := openedColumns_eq column indents
  obtain ⟨s', hgoes, hstands⟩ := readsValue_scalar column key ((p.after (spaces column)).next '?')
    true (.key :: openedTokens column tokens indents) rest' (spaces column ++ ':' :: d :: rest)
    (by rw [Point.column_next _ rfl, hq]; exact Nat.le_succ _)
    (.inr ⟨column, ':', d :: rest, Nat.le_refl _, rfl, by decide⟩)
  rw [← hindents] at hgoes hstands
  have hr := (Point.after_spaces_column (((p.after (spaces column)).next '?').after
    (' ' :: written (column + step) key)) column)
  rw [hstands.start, Nat.zero_add] at hr
  have hcolon := hstands.enter (by decide)
    (by rw [token?_colon rfl hd, value?_mark hr hstands.head_le]) (by simp)
  refine ⟨?_, hmark.trans (hgoes.trans ?_)⟩
  · simp only [Point.after_append, Point.after_cons, Point.after_nil] at hr ⊢
    rw [Point.column_next _ rfl, hr]
    exact Nat.le_succ _
  · simpa using hcolon

/-- What an entry has before its value, whether or not its key needs a mark, becomes the tokens of
the key. -/
theorem exists_key (column : Nat) (key : String) :
    ∃ c cs, beginsToken c = true ∧
      (∀ value, entry column key value = spaces column ++ c :: cs ++ value) ∧
      ∀ (s : Scan) (p : Point) (d : Char) (rest : List Char) (tokens : List Token)
        (indents : List Nat), isBlank d = true ∨ isBreak d = true →
        Stands s column p (spaces column ++ c :: cs ++ d :: rest) tokens indents →
        column ≤ (p.after (spaces column ++ c :: cs)).column ∧
          ∃ keyAllowed, Goes s (between ((p.after (spaces column ++ c :: cs)).locate (d :: rest))
            (.value :: .scalar (styleOf key) key :: .key :: openedTokens column tokens indents)
            (openedColumns column indents) keyAllowed) := by
  by_cases hkey : isSimpleKey key = true
  · have hsimple := isSimpleKey_iff.1 hkey
    obtain ⟨c, cs, hcs, hc, -⟩ := readsWord_writtenKey (column + step)
      hsimple.not_literal (by simp [step])
    refine ⟨c, cs ++ [':'], hc, fun value => by simp [entry, hkey, hcs], ?_⟩
    intro s p d rest tokens indents hd h
    have hstands : Stands s column p (spaces column ++ (writtenKey (column + step) key ++
        ':' :: d :: rest)) tokens indents := by simpa [hcs] using h
    obtain ⟨hq, hgoes⟩ := goes_simple_key hsimple hd hstands
    rw [hcs] at hq hgoes
    exact ⟨by simpa using hq, false, by simpa using hgoes⟩
  · refine ⟨'?', ' ' :: (written (column + step) key ++ (spaces column ++ [':'])), by decide,
      fun value => by simp [entry, hkey], ?_⟩
    intro s p d rest tokens indents hd h
    obtain ⟨hq, hgoes⟩ := goes_marked_key hd (by simpa using h)
    exact ⟨hq, true, hgoes⟩

/-- The text of some entries of the mapping at the column becomes the tokens. -/
structure ReadsEntries (column : Nat) (text : List Char) (ts : List Token) : Prop where
  continues : ∀ tail, Continues column tail → Continues column (text ++ tail)
  reads : ∀ (s : Scan) (p : Point) (tail : List Char) (tokens : List Token) (indents : List Nat),
    Stands s column p (text ++ tail) tokens indents → Continues column tail →
    ∃ s', Goes s s' ∧ Stands s' column (p.after text) tail
      (ts.reverse ++ openedTokens column tokens indents) (openedColumns column indents)

theorem ReadsEntries.append {column : Nat} {as bs : List Char} {ts us : List Token}
    (ha : ReadsEntries column as ts) (hb : ReadsEntries column bs us) :
    ReadsEntries column (as ++ bs) (ts ++ us) where
  continues tail ht := by
    rw [List.append_assoc]
    exact ha.continues _ (hb.continues tail ht)
  reads s p tail tokens indents h ht := by
    rw [List.append_assoc] at h
    obtain ⟨s', hgoes, hstands⟩ := ha.reads s p _ tokens indents h (hb.continues tail ht)
    obtain ⟨s'', hgoes', hstands'⟩ := hb.reads s' _ tail _ _ hstands ht
    exact ⟨s'', hgoes.trans hgoes', by simpa using hstands'⟩

/-- An entry becomes its key's token and those of its value. -/
theorem readsEntries_entry {column : Nat} {key : String} {d : Char} {v : List Char}
    {ts : List Token} (hd : isBlank d = true ∨ isBreak d = true)
    (hv : ReadsValue column (d :: v) ts) :
    ReadsEntries column (entry column key (d :: v))
      (.key :: .scalar (styleOf key) key :: .value :: ts) := by
  obtain ⟨c, cs, hc, hentry, hkey⟩ := exists_key column key
  rw [hentry]
  constructor
  · intro tail _
    exact .inr ⟨column, c, cs ++ (d :: v ++ tail), Nat.le_refl _, by simp, hc⟩
  · intro s p tail tokens indents h ht
    rw [List.append_assoc] at h
    obtain ⟨hq, keyAllowed, hgoes⟩ := hkey s p d (v ++ tail) tokens indents hd h
    obtain ⟨rest, hindents⟩ := openedColumns_eq column indents
    rw [hindents] at hgoes ⊢
    obtain ⟨s', hgoes', hstands⟩ := hv _ _ _ _ tail hq ht
    refine ⟨s', hgoes.trans hgoes', ?_⟩
    rw [Point.after_append]
    simpa using hstands

/-- Blocks that are closed for a column are closed for one further to the left. -/
theorem closed_outward {i j : Nat} (hij : i ≤ j) (indents : List Nat) :
    indents.takeWhile (i < ·) =
        indents.takeWhile (j < ·) ++ (indents.dropWhile (j < ·)).takeWhile (i < ·) ∧
      indents.dropWhile (i < ·) = (indents.dropWhile (j < ·)).dropWhile (i < ·) := by
  induction indents with
  | nil => exact ⟨rfl, rfl⟩
  | cons c cs ih =>
    by_cases hj : j < c
    · have hi : i < c := by omega
      simp [hi, hj, ih.1, ih.2]
    · simp [hj]

theorem Stands.outward {s : Scan} {i j : Nat} {p : Point} {tail : List Char} {tokens : List Token}
    {indents : List Nat} (h : Stands s j p tail tokens (j :: i :: indents)) (hij : i < j) :
    Stands s i p tail (.blockEnd :: tokens) (i :: indents) := by
  obtain ⟨htake, hdrop⟩ := closed_outward (Nat.le_of_lt hij) s.indents
  rw [h.deep] at htake hdrop
  refine ⟨h.rest, h.allowed, h.outside, h.key, ?_, ?_, h.start⟩
  · rw [htake, ← h.closed]
    simp only [List.map_append, List.map_const', List.takeWhile_cons, hij, decide_true, if_true,
      Nat.lt_irrefl, decide_false, Bool.false_eq_true, if_false, List.length_singleton]
    rw [List.replicate_one, ← List.replicate_succ', List.replicate_succ, List.cons_append]
  · simpa [hij] using hdrop

/-- A mapping on lines of its own becomes a block with the tokens of its entries. -/
theorem readsValue_mapping {column : Nat} {text : List Char} {ts : List Token}
    (h : ReadsEntries (column + step) text ts) :
    ReadsValue column ('\n' :: text) (.blockMappingStart :: ts ++ [.blockEnd]) := by
  intro q keyAllowed tokens indents tail hq ht
  have hin : Continues (column + step) tail := ht.mono (Nat.le_add_right ..)
  have hstart : Stands (between (q.locate ('\n' :: (text ++ tail))) tokens (column :: indents)
      keyAllowed) (column + step) (q.next '\n') (text ++ tail) tokens (column :: indents) := by
    have hskip := skip_line (q := q) keyAllowed (h.continues tail hin)
    have htoken : (between (q.locate ('\n' :: (text ++ tail))) tokens (column :: indents)
        keyAllowed).toToken = between (skipBlanks ((q.next '\n').locate (text ++ tail))) tokens
          (column :: indents) true := by
      unfold toToken
      simp only [between, inFlow, List.isEmpty_nil, Bool.not_true, hskip]
    refine ⟨by rw [htoken]; rfl, by rw [htoken]; rfl, rfl, by simp [between], ?_, ?_, rfl⟩
    · simp
    · simp
  obtain ⟨s', hgoes, hstands⟩ := h.reads _ _ tail tokens _ hstart hin
  have hne : (column :: indents).head? ≠ some (column + step) := by simp [step]
  have hopened : openedTokens (column + step) tokens (column :: indents) =
      .blockMappingStart :: tokens := if_neg hne
  have hcolumns : openedColumns (column + step) (column :: indents) =
      (column + step) :: column :: indents := if_neg hne
  rw [hopened, hcolumns] at hstands
  refine ⟨s', hgoes, ?_⟩
  have := hstands.outward (by simp [step])
  simpa using this

def inBraces (rest : List Spot) (tokens : List Token) (indents : List Nat)
    (key : Option KeyStart) : Scan :=
  { rest, tokens, indents, outerKeys := [key] }

def behindBraces (rest : List Spot) (tokens : List Token) (indents : List Nat)
    (key : Option KeyStart) : Scan :=
  { rest, tokens, indents, key, keyAllowed := false }

theorem goes_openBrace {q : Point} {column : Nat} (tokens : List Token) (indents : List Nat)
    (keyAllowed : Bool) (cs : List Char) (hq : column ≤ q.column) :
    ∃ key, (∀ k ∈ key, k.required = false ∧ k.line = q.line) ∧
      Goes (between (q.locate (' ' :: '\x7b' :: cs)) tokens (column :: indents) keyAllowed)
        (inBraces (((q.next ' ').next '\x7b').locate cs) (.flowMappingStart :: tokens)
          (column :: indents) key) := by
  have hcol : (q.next ' ').column = q.column + 1 := q.next_space_column
  obtain ⟨key, hkey, hline⟩ := beginKey?_value
    (u := between ((q.next ' ').locate ('\x7b' :: cs)) tokens (column :: indents) keyAllowed)
    (x := (q.next ' ').spot '\x7b') rfl rfl (show column < (q.next ' ').column by omega)
  refine ⟨key, hline, goes_value hq (by decide) ?_ (by simp [inBraces])⟩
  rw [token?_openBrace, openFlow?, hkey]
  rfl

/-- A key that the braces began is forgotten at most. -/
theorem goes_closeBrace {q : Point} (tokens : List Token) (indents : List Nat)
    {key : Option KeyStart} (cs : List Char)
    (hline : ∀ k ∈ key, k.required = false ∧ k.line = q.line) :
    ∃ key', (∀ k ∈ key', k.required = false ∧ k.line = q.line) ∧
      Goes (inBraces (q.locate ('\x7d' :: cs)) tokens indents key)
        (behindBraces ((q.next '\x7d').locate cs) (.flowMappingEnd :: tokens) indents key') := by
  obtain ⟨key', hkey, hline'⟩ : ∃ key', outlived? (q.spot '\x7d') key = some key' ∧
      ∀ k ∈ key', k.required = false ∧ k.line = q.line := by
    cases key with
    | none => exact ⟨none, rfl, by simp⟩
    | some k =>
      cases hl : KeyStart.lasts k (q.spot '\x7d') with
      | true => exact ⟨some k, by simp [outlived?, hl], hline⟩
      | false => exact ⟨none, by simp [outlived?, hl, (hline k rfl).1], by simp⟩
  have htoken : (inBraces (q.locate ('\x7d' :: cs)) tokens indents key).toToken =
      inBraces (q.locate ('\x7d' :: cs)) tokens indents key := by
    have hskip := skip_of_token (q := q) (c := '\x7d') cs true true (by decide)
    unfold toToken
    simp only [inBraces, inFlow, List.isEmpty_cons, Bool.not_false, hskip]
  have hdrop : (inBraces (q.locate ('\x7d' :: cs)) tokens indents key).dropOutlived?
      (q.spot '\x7d') = some (inBraces (q.locate ('\x7d' :: cs)) tokens indents key') := by
    simp [dropOutlived?, inBraces, hkey]
    rfl
  refine ⟨key', hline', goes_of_token (by rw [htoken, inBraces, Point.locate_cons])
    (by rw [htoken, hdrop]) (by rw [token?_closeBrace]; rfl) (by simp [behindBraces])⟩

/-- A mapping without entries stands in braces. -/
theorem readsValue_empty (column : Nat) :
    ReadsValue column [' ', '\x7b', '\x7d', '\n'] [.flowMappingStart, .flowMappingEnd] := by
  intro q keyAllowed tokens indents tail hq ht
  obtain ⟨key, hline, hopen⟩ := goes_openBrace tokens indents keyAllowed
    ('\x7d' :: '\n' :: tail) hq
  obtain ⟨key', hline', hclose⟩ := goes_closeBrace (q := (q.next ' ').next '\x7b')
    (.flowMappingStart :: tokens) (column :: indents) ('\n' :: tail) hline
  refine ⟨_, hopen.trans hclose, stands_of_line (skip_line _ ht) rfl ?_ rfl rfl⟩
  intro k hk
  obtain ⟨hrequired, hsame⟩ := hline' k hk
  exact ⟨hrequired, by rw [hsame]; exact Nat.lt_succ_self _⟩

/-- At the end of the text the open mapping is closed. -/
theorem Stands.finish {s : Scan} {p : Point} {tokens : List Token} (fuel : Nat)
    (h : Stands s 0 p [] tokens [0]) :
    run? (fuel + 1) s = some (tokens.reverse ++ [.blockEnd]) := by
  have hrest : s.toToken.rest = [] := h.rest
  have hindents : s.indents = s.indents.takeWhile (0 < ·) ++ [0] := by
    rw [← h.deep, List.takeWhile_append_dropWhile]
  have htokens : s.indents.map (fun _ => Token.blockEnd) ++ s.tokens = .blockEnd :: tokens := by
    rw [hindents, List.map_append, ← h.closed, List.map_singleton, List.map_const',
      ← List.replicate_succ', List.replicate_succ, List.cons_append]
  have hkey : ∀ u : Scan, u.key = s.key →
      (u.noKey?.map fun v => v.tokens.reverse) = some u.tokens.reverse := by
    intro u hu
    unfold noKey?
    cases hk : s.key with
    | none => simp [hu, hk]
    | some k => simp [hu, hk, (h.key k hk).1]
  have hclosed : s.toToken.closeBlocks (fun _ => true) =
      { s.toToken with tokens := .blockEnd :: tokens, indents := [] } := by
    have hflow : s.toToken.inFlow = false := by
      have houtside : s.toToken.outerKeys = [] := h.outside
      simp [inFlow, houtside]
    have htake : s.toToken.indents.takeWhile (fun _ => true) = s.toToken.indents :=
      List.takeWhile_eq_self_iff.2 fun _ _ => rfl
    have hdrop : s.toToken.indents.dropWhile (fun _ => true) = [] :=
      List.dropWhile_eq_nil_iff.2 fun _ _ => rfl
    rw [closeBlocks, if_neg (by simp [hflow]), htake, hdrop, ← htokens]
    rfl
  rw [run?]
  simp only [hrest, finish?, hclosed]
  have hfinish := hkey
    { s.toToken with rest := [], tokens := .blockEnd :: tokens, indents := [] } rfl
  rw [List.reverse_cons] at hfinish
  exact hfinish

end Scan

theorem isAllowed_of_printable {c : Char} (h : isPrintable c = true) :
    isAllowed c = true ∧ c ≠ '\r' ∧ c ≠ '\x85' := by
  refine ⟨?_, ?_, ?_⟩
  · simp only [isPrintable, Bool.or_eq_true, Bool.and_eq_true, beq_iff_eq, decide_eq_true_eq,
      bne_iff_ne, ne_eq] at h
    simp only [isAllowed, Bool.or_eq_true, Bool.and_eq_true, beq_iff_eq, decide_eq_true_eq,
      bne_iff_ne, ne_eq]
    omega
  · rintro rfl
    revert h
    decide
  · rintro rfl
    revert h
    decide

theorem evenBreaks_eq {cs : List Char} (h : ∀ c ∈ cs, isPrintable c = true) :
    evenBreaks cs = cs := by
  induction cs with
  | nil => rfl
  | cons c cs ih =>
    obtain ⟨-, hr, hn⟩ := isAllowed_of_printable (h c List.mem_cons_self)
    rw [evenBreaks]
    · simp [hr, hn, ih fun x hx => h x (List.mem_cons_of_mem _ hx)]
    · rintro rest rfl
      exact absurd rfl hr

theorem spots?_ofList {cs : List Char} (h : ∀ c ∈ cs, isPrintable c = true) :
    spots? (String.ofList cs) = some (Point.locate ⟨0, 0, 0⟩ cs) := by
  have hall : cs.all isAllowed = true :=
    List.all_eq_true.2 fun c hc => (isAllowed_of_printable (h c hc)).1
  simp only [spots?, String.toList_ofList, hall, if_true, evenBreaks_eq h]
  rfl

/-- A text of entries in the first column is one mapping. -/
theorem tokens?_ofList {cs : List Char} {ts : List Token} (h : Scan.ReadsEntries 0 cs ts)
    (hchars : ∀ c ∈ cs, isPrintable c = true) :
    tokens? (String.ofList cs) = some (.blockMappingStart :: ts ++ [.blockEnd]) := by
  have hcontinues : Continues 0 cs := by simpa using h.continues [] (.inl rfl)
  have hstart : Scan.Stands { rest := Point.locate ⟨0, 0, 0⟩ cs } 0 ⟨0, 0, 0⟩ (cs ++ []) [] [] := by
    have hskip := Scan.skip_continues (q := ⟨0, 0, 0⟩) true hcontinues
    have htoken : ({ rest := Point.locate ⟨0, 0, 0⟩ cs } : Scan).toToken =
        { rest := skipBlanks (Point.locate ⟨0, 0, 0⟩ cs) } := by
      unfold Scan.toToken
      simp only [Scan.inFlow, List.isEmpty_nil, Bool.not_true, hskip]
    rw [List.append_nil]
    exact ⟨by rw [htoken], by rw [htoken], rfl, by simp, rfl, rfl, rfl⟩
  obtain ⟨s', ⟨n, hn, hrun⟩, hstands⟩ := h.reads _ _ _ _ _ hstart (.inl rfl)
  have hlength : n ≤ cs.length := by
    simp only [Point.length_locate] at hn
    omega
  have hend := hstands.finish (cs.length - n)
  rw [← hrun, show n + (cs.length - n + 1) = cs.length + 1 by omega] at hend
  simp only [tokens?, spots?_ofList hchars, Option.bind_eq_bind, Option.bind_some,
    Point.length_locate, hend]
  simp [Scan.openedTokens]

end SccDispatch.Yaml
