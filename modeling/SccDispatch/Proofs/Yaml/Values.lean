import SccDispatch.Proofs.Yaml.Words

namespace SccDispatch.Yaml

namespace Scan

/-- Between two tokens, outside of brackets and of keys. -/
def between (rest : List Spot) (tokens : List Token) (indents : List Nat) (keyAllowed : Bool) :
    Scan :=
  { rest, tokens, indents, keyAllowed }

@[simp] theorem between_rest (rest : List Spot) (tokens : List Token) (indents : List Nat)
    (keyAllowed : Bool) : (between rest tokens indents keyAllowed).rest = rest := rfl

@[simp] theorem between_tokens (rest : List Spot) (tokens : List Token) (indents : List Nat)
    (keyAllowed : Bool) : (between rest tokens indents keyAllowed).tokens = tokens := rfl

@[simp] theorem between_indents (rest : List Spot) (tokens : List Token) (indents : List Nat)
    (keyAllowed : Bool) : (between rest tokens indents keyAllowed).indents = indents := rfl

/-- The cutting of a text comes from one state to the other, reading a character or more each
time. -/
def Goes (s s' : Scan) : Prop :=
  ∃ n, n + s'.rest.length ≤ s.rest.length ∧ ∀ fuel, run? (n + fuel) s = run? fuel s'

theorem Goes.trans {s s' s'' : Scan} (h : Goes s s') (h' : Goes s' s'') : Goes s s'' := by
  obtain ⟨n, hn, hrun⟩ := h
  obtain ⟨m, hm, hrun'⟩ := h'
  refine ⟨n + m, by omega, fun fuel => ?_⟩
  rw [Nat.add_assoc, hrun, hrun']

theorem length_skip_le (inFlow keyAllowed inComment : Bool) (rest : List Spot) :
    (skip inFlow keyAllowed inComment rest).2.length ≤ rest.length := by
  induction rest generalizing keyAllowed inComment with
  | nil => exact Nat.le_refl _
  | cons x rest ih =>
    unfold skip
    split
    · exact Nat.le_succ_of_le (ih _ _)
    · split
      · exact Nat.le_succ_of_le (ih _ _)
      · split
        · exact Nat.le_succ_of_le (ih _ _)
        · exact Nat.le_refl _

theorem goes_of_token {s u s' : Scan} {x : Spot} {rest : List Spot}
    (hrest : s.toToken.rest = x :: rest) (hu : s.toToken.dropOutlived? x = some u)
    (ht : (u.closeBlocks fun c => x.column < c).token? x rest = some s')
    (hl : s'.rest.length ≤ rest.length) : Goes s s' := by
  refine ⟨1, ?_, fun fuel => ?_⟩
  · have hskip : s.toToken.rest.length ≤ s.rest.length := length_skip_le ..
    rw [hrest, List.length_cons] at hskip
    omega
  · rw [Nat.add_comm, run?]
    simp only [hrest, hu, Option.bind_eq_bind, Option.bind_some, ht]

theorem skip_of_token {q : Point} {c : Char} (cs : List Char) (inFlow keyAllowed : Bool)
    (hc : beginsToken c = true) :
    skip inFlow keyAllowed false (q.locate (c :: cs)) = (keyAllowed, q.locate (c :: cs)) := by
  obtain ⟨hblank, hbreak, hsharp, hmark⟩ := beginsToken_iff.1 hc
  simp only [isBlank, Bool.or_eq_false_iff, beq_eq_false_iff_ne] at hblank
  simp [skip, hbreak, hblank.1, hblank.2, hsharp, hmark]

theorem skip_spaces (q : Point) (n : Nat) (inFlow keyAllowed : Bool) (cs : List Char) :
    skip inFlow keyAllowed false (q.locate (spaces n ++ cs)) =
      skip inFlow keyAllowed false ((q.after (spaces n)).locate cs) := by
  induction n generalizing q with
  | zero => rfl
  | succ n ih =>
    have hs : spaces (n + 1) = ' ' :: spaces n := rfl
    rw [hs, List.cons_append, Point.locate_cons, Point.after_cons, ← ih, skip]
    simp [isBreak]

theorem skip_continues {q : Point} {i : Nat} (keyAllowed : Bool) {tail : List Char}
    (h : Continues i tail) :
    skip false keyAllowed false (q.locate tail) = (keyAllowed, skipBlanks (q.locate tail)) := by
  rcases h with rfl | ⟨j, c, cs, -, rfl, hc⟩
  · rfl
  · rw [skip_spaces, skip_of_token _ _ _ hc, skipBlanks_of_token hc]

theorem skip_line {q : Point} {i : Nat} (keyAllowed : Bool) {tail : List Char}
    (h : Continues i tail) :
    skip false keyAllowed false (q.locate ('\n' :: tail)) =
      (true, skipBlanks ((q.next '\n').locate tail)) := by
  rw [Point.locate_cons, skip, if_pos (by simp [isBreak]), Bool.not_false, Bool.or_true,
    skip_continues true h]

/-- All that follows the next token's place is skipped already. -/
theorem skip_skipBlanks {q : Point} {i : Nat} {keyAllowed : Bool} {tail : List Char}
    (h : Continues i tail) :
    skip false keyAllowed false (skipBlanks (q.locate tail)) =
      (keyAllowed, skipBlanks (q.locate tail)) := by
  rcases h with rfl | ⟨j, c, cs, -, rfl, hc⟩
  · rfl
  · rw [skipBlanks_of_token hc, skip_of_token _ _ _ hc]

/-- The text has been read up to a new line of the mapping at the column, or further out;
collections further in than the column are as good as closed. -/
structure Stands (s : Scan) (column : Nat) (p : Point) (tail : List Char) (tokens : List Token)
    (indents : List Nat) : Prop where
  rest : s.toToken.rest = skipBlanks (p.locate tail)
  allowed : s.toToken.keyAllowed = true
  outside : s.outerKeys = []
  key : ∀ k ∈ s.key, k.required = false ∧ k.line < p.line
  closed : (s.indents.takeWhile (column < ·)).map (fun _ => .blockEnd) ++ s.tokens = tokens
  deep : s.indents.dropWhile (column < ·) = indents
  start : p.column = 0

theorem Stands.enter {s s' : Scan} {column : Nat} {p : Point} {c : Char} {cs : List Char}
    {tokens : List Token} {indents : List Nat}
    (h : Stands s column p (spaces column ++ c :: cs) tokens indents) (hc : beginsToken c = true)
    (ht : (between ((p.after (spaces column)).locate (c :: cs)) tokens indents true).token?
      ((p.after (spaces column)).spot c) (((p.after (spaces column)).next c).locate cs) = some s')
    (hl : s'.rest.length ≤ cs.length) : Goes s s' := by
  have hrest := h.rest
  rw [skipBlanks_of_token hc, Point.locate_cons] at hrest
  have hcol : (p.after (spaces column)).column = column := by
    rw [Point.after_spaces_column, h.start, Nat.zero_add]
  have hkey : outlived? ((p.after (spaces column)).spot c) s.key = some none := by
    cases hk : s.key with
    | none => rfl
    | some k =>
      obtain ⟨hrequired, hline⟩ := h.key k hk
      simp [outlived?, KeyStart.lasts, hline, hrequired]
  have hdrop : s.toToken.dropOutlived? ((p.after (spaces column)).spot c) =
      some { s.toToken with key := none, outerKeys := [] } := by
    unfold dropOutlived?
    rw [show s.toToken.key = s.key from rfl, hkey, show s.toToken.outerKeys = s.outerKeys from rfl,
      h.outside]
    rfl
  have hclosed : ({ s.toToken with key := none, outerKeys := [] } : Scan).closeBlocks
      (fun i => ((p.after (spaces column)).spot c).column < i) =
        between ((p.after (spaces column)).locate (c :: cs)) tokens indents true := by
    rw [closeBlocks, if_neg (by simp [inFlow]), Point.spot_column, hcol, hrest, h.allowed,
      ← h.closed, ← h.deep, Point.locate_cons]
    rfl
  refine goes_of_token hrest hdrop ?_ (by simpa using hl)
  rw [hclosed, ht]

/-- After a line end the next entry may begin. -/
theorem stands_of_line {s : Scan} {column : Nat} {p : Point} {tail : List Char}
    {indents : List Nat}
    (hrest : skip false s.keyAllowed false s.rest = (true, skipBlanks (p.locate tail)))
    (houtside : s.outerKeys = []) (hkey : ∀ k ∈ s.key, k.required = false ∧ k.line < p.line)
    (hindents : s.indents = column :: indents) (hstart : p.column = 0) :
    Stands s column p tail s.tokens (column :: indents) := by
  have htoken : s.toToken = { s with keyAllowed := true, rest := skipBlanks (p.locate tail) } := by
    have hflow : s.inFlow = false := by simp [inFlow, houtside]
    unfold toToken
    rw [hflow, hrest]
  refine ⟨by rw [htoken], by rw [htoken], houtside, hkey, ?_, ?_, hstart⟩
  · simp [hindents]
  · simp [hindents]

/-- The text of a value, from its colon on, becomes the tokens. -/
def ReadsValue (column : Nat) (text : List Char) (ts : List Token) : Prop :=
  ∀ (q : Point) (keyAllowed : Bool) (tokens : List Token) (indents : List Nat) (tail : List Char),
    column ≤ q.column → Continues column tail →
    ∃ s', Goes (between (q.locate (text ++ tail)) tokens (column :: indents) keyAllowed) s' ∧
      Stands s' column (q.after text) tail (ts.reverse ++ tokens) (column :: indents)

/-- The step that reads a value's first token. -/
theorem goes_value {q : Point} {c : Char} {cs : List Char} {tokens : List Token} {column : Nat}
    {indents : List Nat} {keyAllowed : Bool} {s' : Scan} (hq : column ≤ q.column)
    (hc : beginsToken c = true)
    (ht : (between ((q.next ' ').locate (c :: cs)) tokens (column :: indents) keyAllowed).token?
      ((q.next ' ').spot c) (((q.next ' ').next c).locate cs) = some s')
    (hl : s'.rest.length ≤ cs.length) :
    Goes (between (q.locate (' ' :: c :: cs)) tokens (column :: indents) keyAllowed) s' := by
  have hskip : (between (q.locate (' ' :: c :: cs)) tokens (column :: indents)
      keyAllowed).toToken =
        between ((q.next ' ').locate (c :: cs)) tokens (column :: indents) keyAllowed := by
    have hspace := skip_spaces q 1 false keyAllowed (c :: cs)
    rw [show q.after (spaces 1) = q.next ' ' from rfl, skip_of_token _ _ _ hc] at hspace
    unfold toToken
    simp only [inFlow, between, List.isEmpty_nil, Bool.not_true]
    rw [show ' ' :: c :: cs = spaces 1 ++ c :: cs from rfl, hspace]
  have hright : ¬q.column + 1 < column := by omega
  refine goes_of_token (by rw [hskip, between, Point.locate_cons]) (by rw [hskip]; rfl) ?_
    (by simpa using hl)
  rw [closeBlocks, if_neg (by simp [inFlow])]
  simpa [hright, between] using ht

/-- A value of one token is read if its token is. -/
theorem readsValue_of_token {column : Nat} {c : Char} {cs : List Char} {t : Token}
    (hc : beginsToken c = true)
    (h : ∀ (q : Point) (keyAllowed : Bool) (tokens : List Token) (indents : List Nat)
      (tail : List Char), column < q.column → Continues column tail →
      (q.after (c :: cs)).column = 0 ∧ ∃ rest key ended,
        (between (q.locate (c :: (cs ++ tail))) tokens (column :: indents) keyAllowed).token?
          (q.spot c) ((q.next c).locate (cs ++ tail)) =
          some { rest, tokens := t :: tokens, indents := column :: indents, key,
                 keyAllowed := ended } ∧
        rest.length ≤ cs.length + tail.length ∧
        (∀ k ∈ key, k.required = false ∧ k.line < (q.after (c :: cs)).line) ∧
        skip false ended false rest = (true, skipBlanks ((q.after (c :: cs)).locate tail))) :
    ReadsValue column (' ' :: c :: cs) [t] := by
  intro q keyAllowed tokens indents tail hq ht
  have hcol : (q.next ' ').column = q.column + 1 := q.next_space_column
  obtain ⟨hstart, rest, key, ended, htoken, hl, hkey, hrest⟩ :=
    h (q.next ' ') keyAllowed tokens indents tail (by omega) ht
  have hstands := stands_of_line
    (s := { rest, tokens := t :: tokens, indents := column :: indents, key, keyAllowed := ended })
    hrest rfl hkey rfl hstart
  exact ⟨_, goes_value hq hc htoken (by simpa using hl), hstands⟩

/-- To the right of its mapping a value begins a key at most in passing. -/
theorem beginKey?_value {u : Scan} {x : Spot} {column : Nat} {indents : List Nat}
    (hkey : u.key = none) (hindents : u.indents = column :: indents) (hx : column < x.column) :
    ∃ key, u.beginKey? x = some { u with key } ∧
      ∀ k ∈ key, k.required = false ∧ k.line = x.line := by
  unfold beginKey? noKey?
  split
  · have hne : column ≠ x.column := by omega
    rw [hkey]
    refine ⟨_, rfl, ?_⟩
    simp [hindents, hne]
  · refine ⟨none, by rw [← hkey], by simp⟩

theorem length_skipBlanks_le (q : Point) (tail : List Char) :
    (skipBlanks (q.locate tail)).length ≤ tail.length := by
  rw [← q.length_locate tail]
  exact (List.dropWhile_sublist _).length_le

/-- A literal block is read as a value. -/
theorem readsValue_literal {column : Nat} {s : String} (hform : Form.of s = .literal) :
    ReadsValue column (' ' :: written (column + step) s) [.scalar (styleOf s) s] := by
  have hsuits := suits_form s
  rw [hform] at hsuits
  cases hsuits with
  | literal hne hchars hmem =>
    have hwritten : written (column + step) s = '|' :: (depthHint s.toList ++
        (chompHint s.toList ++ '\n' :: literalBody (column + step) true s.toList)) := by
      simp [written, hform, writtenLiteral]
    rw [hwritten]
    refine readsValue_of_token (by decide) fun q keyAllowed tokens indents tail hq ht => ?_
    obtain ⟨hcol, hread⟩ := block?_literal (p := q.next '|') hne hchars ht
    have hblanks := length_skipBlanks_le ((q.next '|').after (depthHint s.toList ++
      (chompHint s.toList ++ '\n' :: literalBody (column + step) true s.toList))) tail
    refine ⟨hcol, _, none, true, ?_, Nat.le_trans hblanks (Nat.le_add_left ..), by simp,
      skip_skipBlanks ht⟩
    rw [token?_literal rfl, blockWord?]
    simp only [noKey?, between, Option.bind_eq_bind, Option.bind_some, List.head?_cons,
      show (Style.literal == Style.folded) = false from rfl, List.append_assoc, List.cons_append,
      hread, String.ofList_toList, styleOf, hform]
    rfl

theorem readsValue_word {column : Nat} {c : Char} {cs : List Char} {t : Token}
    (hc : beginsToken c = true) (h : ReadsWord c cs t) :
    ReadsValue column (' ' :: c :: (cs ++ ['\n'])) [t] := by
  refine readsValue_of_token hc fun q keyAllowed tokens indents tail hq ht => ?_
  obtain ⟨ended, rest, hrest, hread⟩ := h
    (between (q.locate (c :: (cs ++ ['\n'] ++ tail))) tokens (column :: indents) keyAllowed) q '\n'
    tail true _ rfl (by simp [between]) (.inr rfl) (by simpa [between] using Nat.le_of_lt hq)
    (fun place done hflow hindent => plain?_line hflow ht (hindent column rfl))
  obtain ⟨key, hkey, hkeyline⟩ := beginKey?_value
    (u := between (q.locate (c :: (cs ++ ['\n'] ++ tail))) tokens (column :: indents) keyAllowed)
    (x := q.spot c) rfl rfl hq
  rw [hkey, Option.map_some] at hread
  refine ⟨by simp, rest, key, ended, by simpa [between, push] using hread, ?_, ?_, ?_⟩
  · have hblanks := length_skipBlanks_le ((q.after (c :: cs)).next '\n') tail
    rcases hrest with ⟨-, rfl⟩ | ⟨-, rfl⟩
    · exact Nat.le_trans hblanks (Nat.le_add_left ..)
    · rw [Point.length_locate, List.length_cons, List.length_append, List.length_singleton]
      omega
  · intro k hk
    obtain ⟨hrequired, hline⟩ := hkeyline k hk
    refine ⟨hrequired, ?_⟩
    have hle := q.line_le_after (c :: cs)
    rw [hline, ← List.cons_append, Point.after_append]
    exact Nat.lt_succ_of_le hle
  · rw [← List.cons_append, Point.after_append]
    rcases hrest with ⟨rfl, rfl⟩ | ⟨rfl, rfl⟩
    · exact skip_skipBlanks ht
    · exact skip_line _ ht

theorem readsValue_flag (column : Nat) (b : Bool) :
    ReadsValue column (' ' :: (if b then "true" else "false").toList ++ ['\n'])
      [.scalar .plain (if b then "true" else "false")] := by
  cases b with
  | true =>
    have hs : SuitsPlain ['t', 'r', 'u', 'e'] := .of (by decide)
    exact readsValue_word hs.beginsToken (readsWord_plain hs)
  | false =>
    have hs : SuitsPlain ['f', 'a', 'l', 's', 'e'] := .of (by decide)
    exact readsValue_word hs.beginsToken (readsWord_plain hs)

/-- Every text is read as the value it was written as. -/
theorem readsValue_scalar (column : Nat) (s : String) :
    ReadsValue column (' ' :: written (column + step) s) [.scalar (styleOf s) s] := by
  by_cases hform : Form.of s = .literal
  · exact readsValue_literal hform
  · obtain ⟨c, cs, hcs, hc, hread⟩ := readsWord_writtenKey (column + step) hform
      (by simp [step])
    rw [written_eq _ hform, hcs]
    exact readsValue_word hc hread

end Scan

end SccDispatch.Yaml
