import Xv6.Sh.Parser

/-!
# Tokens

The tokens of a line (`tokens`), and that `gettoken` and `peek` see them: from a cursor `i` the
rest of the line has the tokens `lexAt s i`, `gettoken` takes the first of them off
(`gettoken_cons`), and `peek` looks at it (`peek_spec`).  No character after the terminating NUL is
read.
-/

namespace Xv6.Sh

/-- A token; a word has its place in the line. -/
inductive Tok where
  | bar
  | lpar
  | rpar
  | semi
  | amp
  | lt
  | gt
  | append
  | word (w : Span)
  deriving DecidableEq, Repr

/-- The tokens that are one character, apart from `>`. -/
def symbolTok (c : UInt8) : Option Tok :=
  if c = chr '|' then some .bar
  else if c = chr '(' then some .lpar
  else if c = chr ')' then some .rpar
  else if c = chr ';' then some .semi
  else if c = chr '&' then some .amp
  else if c = chr '<' then some .lt
  else none

/-- The tokens of a list of characters that begins at the index `i` of the line, which has at most
`n` characters: white space separates tokens, `>>` is one token, and a word is as long as it can
be. -/
def lex : ℕ → ℕ → List UInt8 → List Tok
  | 0, _, _ => []
  | _, _, [] => []
  | n + 1, i, c :: r =>
    if isSpace c then lex n (i + 1) r
    else if c = chr '>' then
      if r.head? = some (chr '>') then .append :: lex n (i + 2) r.tail
      else .gt :: lex n (i + 1) r
    else match symbolTok c with
      | some t => t :: lex n (i + 1) r
      | none =>
        let k := ((c :: r).takeWhile isWordChar).length
        .word (i, i + k) :: lex n (i + k) ((c :: r).drop k)

/-- The tokens of a line from the index `i` on. -/
def lexAt (s : List UInt8) (i : ℕ) : List Tok := lex s.length i (s.drop i)

/-- The tokens of a line. -/
def tokens (s : List UInt8) : List Tok := lexAt s 0

/-- What `gettoken` answers for a token. -/
def Tok.code : Tok → UInt8
  | .bar => chr '|'
  | .lpar => chr '('
  | .rpar => chr ')'
  | .semi => chr ';'
  | .amp => chr '&'
  | .lt => chr '<'
  | .gt => chr '>'
  | .append => chr '+'
  | .word _ => chr 'a'

/-- The first character of a token that is not a word. -/
def Tok.first : Tok → Option UInt8
  | .append => some (chr '>')
  | .word _ => none
  | t => some t.code

/-- What `peek` answers before the tokens `ts`. -/
def begins (toks : List UInt8) (ts : List Tok) : Bool :=
  match ts with
  | [] => false
  | t :: _ => t.first.any (· ∈ toks)

lemma Tok.code_ne_zero (t : Tok) : t.code ≠ 0 := by
  cases t with
  | word w => exact (by decide : chr 'a' ≠ 0)
  | _ => decide

/-! ## The tokens from a place on -/

section Lex

variable {s : List UInt8} {i n : ℕ} {c : UInt8}

lemma symbolTok_eq_some {t : Tok} (h : symbolTok c = some t) :
    c ∈ [chr '|', chr '(', chr ')', chr ';', chr '&', chr '<'] ∧ t.code = c ∧ t.first = some c ∧
      ∀ w, t ≠ .word w := by
  unfold symbolTok at h
  split_ifs at h with h1 h2 h3 h4 h5 h6 <;>
    · obtain rfl := Option.some.inj h
      subst c
      refine ⟨by decide, rfl, rfl, fun w hw => ?_⟩
      cases hw

lemma symbolTok_eq_none (h : symbolTok c = none) :
    c ∉ [chr '|', chr '(', chr ')', chr ';', chr '&', chr '<'] := by
  unfold symbolTok at h
  split_ifs at h with h1 h2 h3 h4 h5 h6
  simp [h1, h2, h3, h4, h5, h6]

lemma isWordChar_of_none (hsp : isSpace c = false) (hgt : c ≠ chr '>')
    (h : symbolTok c = none) : isWordChar c = true := by
  have hnot := symbolTok_eq_none h
  simp only [isSpace, decide_eq_false_iff_not] at hsp
  simp only [List.mem_cons, not_or] at hnot
  simp only [isWordChar, decide_eq_true_eq]
  refine ⟨hsp, ?_⟩
  simp only [symbols, List.mem_cons, not_or]
  tauto

lemma takeWhile_pos {r : List UInt8} (h : isWordChar c = true) :
    0 < ((c :: r).takeWhile isWordChar).length := by
  rw [List.takeWhile_cons_of_pos h]
  simp

lemma lex_bound {n m : ℕ} {r : List UInt8} (hn : r.length ≤ n) (hm : r.length ≤ m) :
    lex n i r = lex m i r := by
  induction n generalizing m i r with
  | zero =>
    obtain rfl := List.length_eq_zero_iff.1 (Nat.le_zero.1 hn)
    cases m <;> rfl
  | succ n ih =>
    cases r with
    | nil => cases m <;> rfl
    | cons c r =>
      obtain ⟨m, rfl⟩ : ∃ k, m = k + 1 := ⟨m - 1, by simp at hm; omega⟩
      rw [lex, lex]
      simp only [List.length_cons] at hn hm
      have hr : ∀ j, lex n j r = lex m j r := fun j => ih (by omega) (by omega)
      split_ifs with hsp hgt hd
      · exact hr _
      · have hlen : r.tail.length ≤ r.length := by simp
        rw [ih (m := m) (by omega) (by omega)]
      · rw [hr]
      · cases hsym : symbolTok c with
        | some t => simp only [hr]
        | none =>
          have hw := isWordChar_of_none (by simpa using hsp) hgt hsym
          have hpos := takeWhile_pos (r := r) hw
          simp only
          rw [ih]
          · simp only [List.length_drop, List.length_cons]
            omega
          · simp only [List.length_drop, List.length_cons]
            omega

lemma lexAt_length : lexAt s s.length = [] := by
  rw [lexAt, List.drop_length]
  cases s.length <;> rfl

lemma lexAt_of_lt (hi : i < s.length) : lexAt s i =
    if isSpace s[i] then lexAt s (i + 1)
    else if s[i] = chr '>' then
      if (s.drop (i + 1)).head? = some (chr '>') then .append :: lexAt s (i + 2)
      else .gt :: lexAt s (i + 1)
    else match symbolTok s[i] with
      | some t => t :: lexAt s (i + 1)
      | none =>
        .word (i, i + ((s.drop i).takeWhile isWordChar).length) ::
          lexAt s (i + ((s.drop i).takeWhile isWordChar).length) := by
  obtain ⟨n, hn⟩ : ∃ n, s.length = n + 1 := ⟨s.length - 1, by omega⟩
  have hdrop : s.drop i = s[i] :: s.drop (i + 1) := List.drop_eq_getElem_cons hi
  have hrest : ∀ j, i < j → lex n j (s.drop j) = lexAt s j := by
    intro j hj
    refine lex_bound ?_ ?_ <;>
    · rw [List.length_drop]
      omega
  rw [lexAt, hn, hdrop, lex, hrest (i + 1) (by omega)]
  have htail : (s.drop (i + 1)).tail = s.drop (i + 2) := by rw [List.tail_drop]
  rw [htail, hrest (i + 2) (by omega)]
  split_ifs with hsp hgt hd
  · rfl
  · rfl
  · rfl
  · cases hsym : symbolTok s[i] with
    | some t => rfl
    | none =>
      have hw := isWordChar_of_none (by simpa using hsp) hgt hsym
      have hpos := takeWhile_pos (r := s.drop (i + 1)) hw
      simp only
      rw [← hdrop, List.drop_drop, hrest _ (by rw [hdrop]; omega)]

end Lex

/-! ## The tokenizer -/

section Scan

variable {s : List UInt8} {i : ℕ} {p : UInt8 → Bool}

lemma rd_of_lt (hi : i < s.length) : rd (s ++ [0]) i = .ok s[i] := by
  rw [rd, List.getElem?_append_left hi, List.getElem?_eq_getElem hi]

lemma rd_length : rd (s ++ [0]) s.length = .ok 0 := by
  rw [rd, List.getElem?_append_right le_rfl, Nat.sub_self]
  rfl

lemma scan_eq (hi : i ≤ s.length) : scan (s ++ [0]) p (s.length - i) i =
    .ok (i + ((s.drop i).takeWhile p).length) := by
  obtain ⟨n, hn⟩ : ∃ n, s.length - i = n := ⟨_, rfl⟩
  rw [hn]
  induction n generalizing i with
  | zero =>
    rw [List.drop_of_length_le (by omega)]
    rfl
  | succ n ih =>
    have hlt : i < s.length := by omega
    rw [scan, rd_of_lt hlt, List.drop_eq_getElem_cons hlt]
    by_cases hp : p s[i] = true
    · rw [List.takeWhile_cons_of_pos hp]
      change (if p s[i] = true then _ else _) = _
      rw [if_pos hp, ih (by omega) (by omega), List.length_cons]
      congr 1
      omega
    · rw [List.takeWhile_cons_of_neg hp]
      change (if p s[i] = true then _ else _) = _
      rw [if_neg hp]
      rfl

lemma add_takeWhile_le (hi : i ≤ s.length) :
    i + ((s.drop i).takeWhile p).length ≤ s.length := by
  have h := (List.takeWhile_sublist (l := s.drop i) p).length_le
  rw [List.length_drop] at h
  omega

/-- `i` is at the first character of a token, or at the end. -/
structure Start (s : List UInt8) (i : ℕ) : Prop where
  le : i ≤ s.length
  not_isSpace : ∀ h : i < s.length, isSpace s[i] = false

lemma skip_spec (hi : i ≤ s.length) : ∃ j, scan (s ++ [0]) isSpace (s.length - i) i = .ok j ∧
    Start s j ∧ lexAt s j = lexAt s i := by
  obtain ⟨n, hn⟩ : ∃ n, s.length - i = n := ⟨_, rfl⟩
  rw [hn]
  induction n generalizing i with
  | zero => exact ⟨i, rfl, ⟨hi, fun h => by omega⟩, rfl⟩
  | succ n ih =>
    have hlt : i < s.length := by omega
    rw [scan, rd_of_lt hlt]
    change ∃ j, (if isSpace s[i] = true then _ else _) = _ ∧ _
    by_cases hp : isSpace s[i] = true
    · obtain ⟨j, hj, hstart, hlex⟩ := ih (i := i + 1) (by omega) (by omega)
      refine ⟨j, ?_, hstart, ?_⟩
      · rw [if_pos hp, hj]
      · rw [hlex, lexAt_of_lt hlt, if_pos hp]
    · refine ⟨i, ?_, ⟨hi, fun _ => by simpa using hp⟩, rfl⟩
      rw [if_neg hp]

end Scan

section Tokens

variable {s : List UInt8} {i : ℕ}

/-- From the start of a token, what follows is not empty unless it is the end. -/
lemma Start.eq_length (h : Start s i) (hnil : lexAt s i = []) : i = s.length := by
  by_contra hne
  have hlt : i < s.length := lt_of_le_of_ne h.le hne
  rw [lexAt_of_lt hlt, h.not_isSpace hlt, if_neg (by decide)] at hnil
  split_ifs at hnil
  split at hnil <;> exact List.cons_ne_nil _ _ hnil

lemma tokenAt_spec (hnul : 0 ∉ s) (h : Start s i) (hlt : i < s.length) : ∃ t e,
    tokenAt (s ++ [0]) s.length i = .ok (t.code, e) ∧ e ≤ s.length ∧ lexAt s i = t :: lexAt s e ∧
      t.first.all (· = s[i]) ∧ (∀ w, t = .word w → w = (i, e) ∧ s[i] ∉ symbols) := by
  have hne : s[i] ≠ 0 := fun h0 => hnul (h0 ▸ List.getElem_mem hlt)
  rw [lexAt_of_lt hlt, h.not_isSpace hlt, if_neg (by decide), tokenAt, rd_of_lt hlt]
  change ∃ t e, (if s[i] = 0 then _ else _) = _ ∧ _
  rw [if_neg hne]
  by_cases hgt : s[i] = chr '>'
  · rw [if_pos hgt, if_neg (by rw [hgt]; decide), if_pos hgt]
    by_cases hend : i + 1 < s.length
    · rw [rd_of_lt hend, List.drop_eq_getElem_cons hend, List.head?_cons]
      change ∃ t e, (if s[i + 1] = chr '>' then _ else _) = _ ∧ _
      by_cases hd : s[i + 1] = chr '>'
      · rw [if_pos hd, if_pos (by rw [hd])]
        refine ⟨.append, i + 2, rfl, by omega, rfl, ?_, by rintro _ ⟨⟩⟩
        simp [Tok.first, hgt]
      · rw [if_neg hd, if_neg (fun hsome => hd (Option.some.inj hsome))]
        refine ⟨.gt, i + 1, rfl, by omega, rfl, ?_, by rintro _ ⟨⟩⟩
        simp [Tok.first, Tok.code, hgt]
    · have hlen : i + 1 = s.length := by omega
      have hdrop : s.drop (i + 1) = [] := List.drop_of_length_le (by omega)
      rw [hdrop, if_neg (by simp), hlen, rd_length]
      refine ⟨.gt, s.length, rfl, le_rfl, rfl, ?_, by rintro _ ⟨⟩⟩
      simp [Tok.first, Tok.code, hgt]
  · rw [if_neg hgt, if_neg hgt]
    cases hsym : symbolTok s[i] with
    | some t =>
      obtain ⟨hmem, hcode, hfirst, hword⟩ := symbolTok_eq_some hsym
      rw [if_pos hmem]
      refine ⟨t, i + 1, by rw [hcode], by omega, rfl, by simp [hfirst], fun w hw => ?_⟩
      exact (hword w hw).elim
    | none =>
      rw [if_neg (symbolTok_eq_none hsym), scan_eq h.le]
      refine ⟨.word (i, _), _, rfl, add_takeWhile_le h.le, rfl, rfl, fun w hw => ⟨?_, ?_⟩⟩
      · cases hw
        rfl
      · have hw := isWordChar_of_none (h.not_isSpace hlt) hgt hsym
        simp only [isWordChar, decide_eq_true_eq] at hw
        exact hw.2

lemma tokenAt_length : tokenAt (s ++ [0]) s.length s.length = .ok (0, s.length) := by
  rw [tokenAt, rd_length]
  rfl

lemma gettoken_cons {t : Tok} {ts : List Tok} (hnul : 0 ∉ s) (hi : i ≤ s.length)
    (hts : lexAt s i = t :: ts) : ∃ tok, gettoken (s ++ [0]) s.length i = .ok tok ∧
      tok.s ≤ s.length ∧ tok.ret = t.code ∧ lexAt s tok.s = ts ∧
      ∀ w, t = .word w → w = (tok.q, tok.eq) := by
  obtain ⟨q, hq, hstart, hlex⟩ := skip_spec hi
  rw [hts] at hlex
  have hlt : q < s.length := by
    refine lt_of_le_of_ne hstart.le fun heq => ?_
    rw [heq, lexAt_length] at hlex
    cases hlex
  obtain ⟨t', e, htok, he, hcons, -, hword⟩ := tokenAt_spec hnul hstart hlt
  obtain ⟨j, hj, hjs, hjlex⟩ := skip_spec he
  obtain ⟨rfl, rfl⟩ := List.cons.inj (hlex.symm.trans hcons)
  rw [gettoken, hq]
  change ∃ tok, (tokenAt (s ++ [0]) s.length q >>= _) = _ ∧ _
  rw [htok]
  change ∃ tok, (scan (s ++ [0]) isSpace (s.length - e) e >>= _) = _ ∧ _
  rw [hj]
  exact ⟨⟨t.code, q, e, j⟩, rfl, hjs.le, rfl, hjlex, fun w hw => (hword w hw).1⟩

lemma gettoken_nil (hi : i ≤ s.length) (hts : lexAt s i = []) : ∃ tok,
    gettoken (s ++ [0]) s.length i = .ok tok ∧ tok.s ≤ s.length ∧ tok.ret = 0 ∧
      lexAt s tok.s = [] := by
  obtain ⟨q, hq, hstart, hlex⟩ := skip_spec hi
  obtain rfl := hstart.eq_length (hlex.trans hts)
  obtain ⟨j, hj, hjs, hjlex⟩ := skip_spec (le_refl s.length)
  rw [gettoken, hq]
  change ∃ tok, (tokenAt (s ++ [0]) s.length s.length >>= _) = _ ∧ _
  rw [tokenAt_length]
  change ∃ tok, (scan (s ++ [0]) isSpace (s.length - s.length) s.length >>= _) = _ ∧ _
  rw [hj]
  exact ⟨⟨0, s.length, s.length, j⟩, rfl, hjs.le, rfl, by rw [hjlex, lexAt_length]⟩

lemma peek_spec (toks : List UInt8) (hnul : 0 ∉ s) (hi : i ≤ s.length) (htoks : toks ⊆ symbols) :
    ∃ j, peek (s ++ [0]) s.length toks i = .ok (begins toks (lexAt s i), j) ∧ j ≤ s.length ∧
      lexAt s j = lexAt s i ∧ (lexAt s i = [] → j = s.length) := by
  obtain ⟨j, hj, hstart, hlex⟩ := skip_spec hi
  refine ⟨j, ?_, hstart.le, hlex, fun hnil => hstart.eq_length (hlex.trans hnil)⟩
  rw [peek, hj, ← hlex]
  change (rd (s ++ [0]) j >>= _) = _
  rcases hstart.le.lt_or_eq with hlt | rfl
  · obtain ⟨t, e, -, -, hcons, hfirst, hword⟩ := tokenAt_spec hnul hstart hlt
    have hne : s[j] ≠ 0 := fun h0 => hnul (h0 ▸ List.getElem_mem hlt)
    rw [rd_of_lt hlt, hcons]
    change Except.ok (decide (s[j] ≠ 0 ∧ s[j] ∈ toks), j) = _
    rw [begins]
    cases hf : t.first with
    | some c =>
      obtain rfl : c = s[j] := by simpa [hf] using hfirst
      simp [hne]
    | none =>
      have hnot : s[j] ∉ toks := by
        cases t with
        | word w => exact fun hmem => (hword w rfl).2 (htoks hmem)
        | _ => cases hf
      simp [hnot]
  · rw [rd_length, lexAt_length]
    rfl

end Tokens

end Xv6.Sh
