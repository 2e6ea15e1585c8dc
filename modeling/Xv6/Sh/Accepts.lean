import Xv6.Sh.Grammar

/-!
# The shell's parser accepts its grammar

A line that the grammar derives a command from is parsed to that command: the parser takes a
derived list of tokens off the front of the tokens that are left, when what follows it can follow it
in a line (`line_complete`).  With the soundness of the parser this settles which lines are accepted
(`parsecmd_grammar`), and the strings of the command are the words of the line
(`nulterminate_spec`).
-/

namespace Xv6.Sh

/-! ## Completeness -/

section Complete

variable {s : List UInt8} {i : ℕ} {α β : Type} {us rest : List Tok}

/-- What follows is nothing, or begins with one of the tokens `F`. -/
def Follow (F rest : List Tok) : Prop := ∀ t us, rest = t :: us → t ∈ F

lemma Follow.nil (F : List Tok) : Follow F [] := by
  intro t us h
  cases h

lemma Follow.cons {F : List Tok} {t : Tok} (h : t ∈ F) (ts : List Tok) : Follow F (t :: ts) := by
  rintro _ _ ⟨⟩
  exact h

lemma Follow.mono {F F' : List Tok} (h : Follow F rest) (hF : F ⊆ F') : Follow F' rest :=
  fun t us hts => hF (h t us hts)

lemma Follow.replicate_append {F : List Tok} {t : Tok} (n : ℕ) (ht : t ∈ F) (h : Follow F rest) :
    Follow F (List.replicate n t ++ rest) := by
  cases n with
  | zero => exact h
  | succ n => exact Follow.cons ht _

lemma Follow.not_begins {F : List Tok} {t : Tok} (h : Follow F rest) (hF : t ∉ F)
    (ht : t ∈ [Tok.bar, .lpar, .rpar, .semi, .amp]) : begins [t.code] rest = false := by
  by_contra hb
  obtain ⟨us, rfl⟩ := (begins_code ht).1 (by simpa using hb)
  exact hF (h t us rfl)

/-- What follows does not begin with a redirection. -/
def NoRedir (rest : List Tok) : Prop := ∀ t us, rest = t :: us → t ∉ redirToks

lemma Follow.noRedir (h : Follow [.bar, .rpar, .amp, .semi] rest) : NoRedir rest := by
  intro t vs hts
  have key : ∀ t ∈ [Tok.bar, .rpar, .amp, .semi], t ∉ redirToks := by decide
  exact key t (h t vs hts)

lemma Words.noRedir {ws : List Span} {rs : List Redir} (h : Words us ws rs)
    (hrest : NoRedir rest) : NoRedir (us ++ rest) := by
  cases h with
  | nil => exact hrest
  | cons _ _ =>
    rintro _ _ ⟨⟩
    simp [redirToks]

/-- The parse returns `a`, and the tokens `rest` are left. -/
def Yields (s : List UInt8) (rest : List Tok) (a : α) (r : Except Err (α × ℕ)) : Prop :=
  ∃ j ≤ s.length, r = .ok (a, j) ∧ lexAt s j = rest

variable (hnul : 0 ∉ s)

include hnul

lemma parseredirs_complete (fuel : ℕ) {rs : List Redir} (hr : Redirs us rs) (qs : List Redir)
    (hi : i ≤ s.length) (hts : lexAt s i = us ++ rest) (hfuel : us.length < fuel)
    (hrest : NoRedir rest) :
    Yields s rest (qs ++ rs) (parseredirs (s ++ [0]) s.length fuel qs i) := by
  induction hr generalizing i fuel qs with
  | nil =>
    obtain ⟨fuel, rfl⟩ : ∃ k, fuel = k + 1 := ⟨fuel - 1, by simp at hfuel; omega⟩
    obtain ⟨j, hpeek, hj, hlex, -⟩ := peek_spec [chr '<', chr '>'] hnul hi (by decide)
    have hno : begins [chr '<', chr '>'] (lexAt s i) = false := by
      by_contra hb
      obtain ⟨t, vs, h, ht⟩ := begins_redir.1 (by simpa using hb)
      exact hrest t vs (hts.symm.trans h) ht
    refine ⟨j, hj, ?_, hlex.trans hts⟩
    rw [parseredirs, hpeek, ok_bind, hno, List.append_nil]
    rfl
  | @cons t w ts rs ht _ ih =>
    obtain ⟨fuel, rfl⟩ : ∃ k, fuel = k + 1 := ⟨fuel - 1, by simp at hfuel; omega⟩
    obtain ⟨j, hpeek, hj, hlex, -⟩ := peek_spec [chr '<', chr '>'] hnul hi (by decide)
    have hyes : begins [chr '<', chr '>'] (lexAt s i) = true :=
      begins_redir.2 ⟨t, _, hts, ht⟩
    obtain ⟨tok, htok, htoks, hret, hrest', -⟩ := gettoken_cons hnul hj (hlex.trans hts)
    obtain ⟨file, hfile, hfiles, hret', hrest'', hw⟩ := gettoken_cons hnul htoks hrest'
    obtain rfl := hw w rfl
    have ha : file.ret = chr 'a' := hret'
    rw [parseredirs, hpeek, ok_bind, hyes]
    simp only [if_true]
    rw [htok, ok_bind, hfile, ok_bind, if_neg (not_not.2 ha), hret, redirOf_code ht]
    have h := ih fuel (qs ++ [t.redir (file.q, file.eq)]) hfiles hrest''
      (by simp only [List.length_cons] at hfuel; omega)
    rwa [List.append_assoc] at h

omit hnul in
lemma not_begins_block {ts : List Tok} {ws : List Span} {rs qs : List Redir} (hred : Redirs ts rs)
    (hwords : Words us ws qs) (hrest : Follow [.bar, .rpar, .amp, .semi] rest) :
    begins [chr '('] (ts ++ us ++ rest) = false := by
  cases hred with
  | nil =>
    cases hwords with
    | nil => exact hrest.not_begins (t := .lpar) (by decide) (by decide)
    | cons _ _ => rfl
  | @cons t _ _ _ ht _ =>
    have key : ∀ t ∈ redirToks, t.first.any (· ∈ [chr '(']) = false := by decide
    exact key t ht

lemma execArgs_complete (fuel : ℕ) {ws : List Span} {rs : List Redir} (hwords : Words us ws rs)
    (args : List Span) (qs : List Redir) (hi : i ≤ s.length) (hts : lexAt s i = us ++ rest)
    (hfuel : us.length < fuel) (hargs : args.length + ws.length ≤ MAXARGS - 1)
    (hrest : Follow [.bar, .rpar, .amp, .semi] rest) :
    Yields s rest (args ++ ws, qs ++ rs) (execArgs (s ++ [0]) s.length fuel args qs i) := by
  induction hwords generalizing i fuel args qs with
  | nil =>
    obtain ⟨fuel, rfl⟩ : ∃ k, fuel = k + 1 := ⟨fuel - 1, by simp at hfuel; omega⟩
    obtain ⟨j, hpeek, hj, hlex, -⟩ :=
      peek_spec [chr '|', chr ')', chr '&', chr ';'] hnul hi (by decide)
    rw [List.nil_append] at hts
    rw [execArgs, hpeek, ok_bind, List.append_nil, List.append_nil]
    rcases rest with _ | ⟨t, vs⟩
    · obtain ⟨tok, htok, htoks, hret, hnil⟩ := gettoken_nil hj (hlex.trans hts)
      refine ⟨tok.s, htoks, ?_, hnil⟩
      rw [hts]
      simp only [begins]
      rw [if_neg Bool.false_ne_true, htok, ok_bind, if_pos hret]
    · have hyes := begins_stop.2 ⟨t, vs, hts, hrest t vs rfl⟩
      refine ⟨j, hj, ?_, hlex.trans hts⟩
      rw [hyes]
      rfl
  | @cons w ts us ws rs rs' hred hwords ih =>
    obtain ⟨fuel, rfl⟩ : ∃ k, fuel = k + 1 := ⟨fuel - 1, by simp at hfuel; omega⟩
    obtain ⟨j, hpeek, hj, hlex, -⟩ :=
      peek_spec [chr '|', chr ')', chr '&', chr ';'] hnul hi (by decide)
    have hno : begins [chr '|', chr ')', chr '&', chr ';'] (lexAt s i) = false := by
      rw [hts]
      rfl
    rw [List.cons_append, List.append_assoc] at hts
    obtain ⟨tok, htok, htoks, hret, htail, hw⟩ := gettoken_cons hnul hj (hlex.trans hts)
    obtain rfl := hw w rfl
    have ha : tok.ret = chr 'a' := hret
    simp only [List.length_cons, List.length_append, MAXARGS] at hfuel hargs
    rw [execArgs, hpeek, ok_bind, hno]
    simp only
    rw [if_neg Bool.false_ne_true, htok, ok_bind, if_neg (by rw [ha]; decide),
      if_neg (not_not.2 ha), putArg, if_pos (by simp only [MAXARGS]; omega), ok_bind,
      if_neg (by simp only [MAXARGS, List.length_append, List.length_singleton]; omega)]
    obtain ⟨k, hk, hredirs, hklex⟩ := parseredirs_complete hnul fuel hred qs htoks htail
      (by omega) (hwords.noRedir hrest.noRedir)
    rw [hredirs, ok_bind]
    have h := ih fuel (args ++ [(tok.q, tok.eq)]) (qs ++ rs) hk hklex (by omega)
      (by simp only [List.length_append, List.length_singleton, MAXARGS]; omega)
    rwa [List.append_assoc, List.append_assoc] at h

lemma parsesimple_complete {ts : List Tok} {ws : List Span} {rs qs : List Redir}
    (hred : Redirs ts rs) (hwords : Words us ws qs) (hlen : ws.length ≤ MAXARGS - 1)
    (hi : i ≤ s.length) (hts : lexAt s i = ts ++ us ++ rest) (hfuel : (ts ++ us).length < fuel)
    (hrest : Follow [.bar, .rpar, .amp, .semi] rest) :
    Yields s rest (wrap (.exec ws) (rs ++ qs)) (parsesimple (s ++ [0]) s.length fuel i) := by
  rw [List.length_append] at hfuel
  rw [List.append_assoc] at hts
  obtain ⟨j, hj, hredirs, hjlex⟩ := parseredirs_complete hnul fuel hred [] hi hts
    (by omega) (hwords.noRedir hrest.noRedir)
  obtain ⟨k, hk, hargs, hklex⟩ := execArgs_complete hnul fuel hwords [] ([] ++ rs) hj
    hjlex (by omega) (by simpa using hlen) hrest
  refine ⟨k, hk, ?_, hklex⟩
  rw [parsesimple, hredirs, ok_bind]
  simp only
  rw [hargs, ok_bind]
  simp only [List.nil_append]
  rw [if_pos (by simp only [MAXARGS] at hlen ⊢; omega)]

lemma backs_complete (fuel n : ℕ) (c : Cmd) (hi : i ≤ s.length)
    (hts : lexAt s i = List.replicate n .amp ++ rest) (hfuel : n < fuel)
    (hrest : begins [chr '&'] rest = false) :
    Yields s rest (Cmd.back^[n] c) (backs (s ++ [0]) s.length fuel c i) := by
  induction n generalizing i fuel c with
  | zero =>
    obtain ⟨fuel, rfl⟩ : ∃ k, fuel = k + 1 := ⟨fuel - 1, by omega⟩
    obtain ⟨j, hpeek, hj, hlex, -⟩ := peek_spec [chr '&'] hnul hi (by decide)
    rw [List.replicate_zero, List.nil_append] at hts
    refine ⟨j, hj, ?_, hlex.trans hts⟩
    rw [backs, hpeek, ok_bind, hts, hrest]
    rfl
  | succ n ih =>
    obtain ⟨fuel, rfl⟩ : ∃ k, fuel = k + 1 := ⟨fuel - 1, by omega⟩
    obtain ⟨j, hpeek, hj, hlex, -⟩ := peek_spec [chr '&'] hnul hi (by decide)
    obtain ⟨tok, htok, htoks, -, htail, -⟩ := gettoken_cons hnul hj (hlex.trans hts)
    have hyes : begins [chr '&'] (lexAt s i) = true := by
      rw [hts]
      rfl
    rw [backs, hpeek, ok_bind, hyes]
    simp only [if_true]
    rw [htok, ok_bind]
    exact ih _ (.back c) htoks htail (by omega)

mutual

lemma line_complete {us rest : List Tok} {c : Cmd} {i : ℕ} (fuel : ℕ) (h : Line us c)
    (hi : i ≤ s.length) (hts : lexAt s i = us ++ rest) (hfuel : 4 * us.length + 4 ≤ fuel)
    (hrest : Follow [.rpar] rest) :
    Yields s rest c (parseline (s ++ [0]) s.length fuel i) := by
  obtain ⟨fuel, rfl⟩ : ∃ k, fuel = k + 1 := ⟨fuel - 1, by omega⟩
  cases h with
  | @single ts c n hpipe =>
    rw [List.append_assoc] at hts
    simp only [List.length_append, List.length_replicate] at hfuel
    have hF : Follow [.rpar, .amp, .semi] (List.replicate n .amp ++ rest) :=
      Follow.replicate_append n (by decide) (hrest.mono (by decide))
    obtain ⟨j, hj, hparse, hjlex⟩ := pipe_complete fuel hpipe hi hts (by omega) hF
    obtain ⟨k, hk, hbacks, hklex⟩ := backs_complete hnul fuel n c hj hjlex (by omega)
      (hrest.not_begins (t := .amp) (by decide) (by decide))
    obtain ⟨l, hpeek, hl, hlex, -⟩ := peek_spec [chr ';'] hnul hk (by decide)
    have hno : begins [chr ';'] rest = false :=
      hrest.not_begins (t := .semi) (by decide) (by decide)
    refine ⟨l, hl, ?_, hlex.trans hklex⟩
    rw [parseline, hparse, ok_bind]
    simp only
    rw [hbacks, ok_bind]
    simp only
    rw [hpeek, ok_bind, hklex, hno]
    rfl
  | @list ts us c d n hpipe hline =>
    rw [List.append_assoc, List.append_assoc] at hts
    simp only [List.length_append, List.length_replicate, List.length_cons] at hfuel
    have hF : Follow [.rpar, .amp, .semi] (List.replicate n .amp ++ (.semi :: us ++ rest)) :=
      Follow.replicate_append n (by decide) (Follow.cons (by decide) _)
    obtain ⟨j, hj, hparse, hjlex⟩ := pipe_complete fuel hpipe hi hts (by omega) hF
    obtain ⟨k, hk, hbacks, hklex⟩ := backs_complete hnul fuel n c hj hjlex (by omega) rfl
    obtain ⟨l, hpeek, hl, hlex, -⟩ := peek_spec [chr ';'] hnul hk (by decide)
    obtain ⟨tok, htok, htoks, -, htail, -⟩ := gettoken_cons hnul hl (hlex.trans hklex)
    obtain ⟨m, hm, hrec, hmlex⟩ := line_complete fuel hline htoks htail (by omega) hrest
    have hyes : begins [chr ';'] (lexAt s k) = true := by
      rw [hklex]
      rfl
    refine ⟨m, hm, ?_, hmlex⟩
    rw [parseline, hparse, ok_bind]
    simp only
    rw [hbacks, ok_bind]
    simp only
    rw [hpeek, ok_bind, hyes]
    simp only [if_true]
    rw [htok, ok_bind, hrec, ok_bind]

lemma pipe_complete {us rest : List Tok} {c : Cmd} {i : ℕ} (fuel : ℕ) (h : Pipe us c)
    (hi : i ≤ s.length) (hts : lexAt s i = us ++ rest) (hfuel : 4 * us.length + 3 ≤ fuel)
    (hrest : Follow [.rpar, .amp, .semi] rest) :
    Yields s rest c (parsepipe (s ++ [0]) s.length fuel i) := by
  obtain ⟨fuel, rfl⟩ : ∃ k, fuel = k + 1 := ⟨fuel - 1, by omega⟩
  cases h with
  | single hexec =>
    obtain ⟨j, hj, hparse, hjlex⟩ := exec_complete fuel hexec hi hts (by omega)
      (hrest.mono (by decide))
    obtain ⟨l, hpeek, hl, hlex, -⟩ := peek_spec [chr '|'] hnul hj (by decide)
    have hno : begins [chr '|'] rest = false :=
      hrest.not_begins (t := .bar) (by decide) (by decide)
    refine ⟨l, hl, ?_, hlex.trans hjlex⟩
    rw [parsepipe, hparse, ok_bind]
    simp only
    rw [hpeek, ok_bind, hjlex, hno]
    rfl
  | @pipe ts us c d hexec hpipe =>
    rw [List.append_assoc] at hts
    simp only [List.length_append, List.length_cons] at hfuel
    obtain ⟨j, hj, hparse, hjlex⟩ := exec_complete fuel hexec hi hts (by omega)
      (Follow.cons (by decide) _)
    obtain ⟨l, hpeek, hl, hlex, -⟩ := peek_spec [chr '|'] hnul hj (by decide)
    obtain ⟨tok, htok, htoks, -, htail, -⟩ := gettoken_cons hnul hl (hlex.trans hjlex)
    obtain ⟨m, hm, hrec, hmlex⟩ := pipe_complete fuel hpipe htoks htail (by omega) hrest
    have hyes : begins [chr '|'] (lexAt s j) = true := by
      rw [hjlex]
      rfl
    refine ⟨m, hm, ?_, hmlex⟩
    rw [parsepipe, hparse, ok_bind]
    simp only
    rw [hpeek, ok_bind, hyes]
    simp only [if_true]
    rw [htok, ok_bind, hrec, ok_bind]

lemma exec_complete {us rest : List Tok} {c : Cmd} {i : ℕ} (fuel : ℕ) (h : Exec us c)
    (hi : i ≤ s.length) (hts : lexAt s i = us ++ rest) (hfuel : 4 * us.length + 2 ≤ fuel)
    (hrest : Follow [.bar, .rpar, .amp, .semi] rest) :
    Yields s rest c (parseexec (s ++ [0]) s.length fuel i) := by
  obtain ⟨fuel, rfl⟩ : ∃ k, fuel = k + 1 := ⟨fuel - 1, by omega⟩
  obtain ⟨j, hpeek, hj, hlex, -⟩ := peek_spec [chr '('] hnul hi (by decide)
  rw [parseexec, hpeek, ok_bind]
  simp only
  cases h with
  | @block ts us c rs hline hred =>
    obtain ⟨fuel, rfl⟩ : ∃ k, fuel = k + 1 := ⟨fuel - 1, by omega⟩
    rw [List.cons_append, List.append_assoc] at hts
    simp only [List.length_append, List.length_cons] at hfuel
    have hyes : begins [chr '('] (lexAt s i) = true := by
      rw [hts]
      rfl
    obtain ⟨l, hpeek, hl, hlex', -⟩ := peek_spec [chr '('] hnul hj (by decide)
    obtain ⟨tok, htok, htoks, -, htail, -⟩ := gettoken_cons hnul hl (hlex'.trans (hlex.trans hts))
    obtain ⟨k, hk, hparse, hklex⟩ := line_complete fuel hline htoks htail (by omega)
      (Follow.cons (by decide) _)
    obtain ⟨m, hpeek', hm, hmlex, -⟩ := peek_spec [chr ')'] hnul hk (by decide)
    obtain ⟨tok', htok', htoks', -, htail', -⟩ := gettoken_cons hnul hm (hmlex.trans hklex)
    obtain ⟨n, hn, hredirs, hnlex⟩ := parseredirs_complete hnul fuel hred [] htoks' htail'
      (by omega) hrest.noRedir
    have hclosed : begins [chr ')'] (lexAt s k) = true := by
      rw [hklex]
      rfl
    refine ⟨n, hn, ?_, hnlex⟩
    rw [hyes, if_pos rfl, parseblock, hpeek, ok_bind, hlex, hyes]
    simp only [if_true]
    rw [htok, ok_bind, hparse, ok_bind]
    simp only
    rw [hpeek', ok_bind, hclosed]
    simp only [if_true]
    rw [htok', ok_bind, hredirs, ok_bind]
    rfl
  | @simple ts us ws rs qs hred hwords hlen =>
    have hno : begins [chr '('] (lexAt s i) = false := by
      rw [hts]
      exact not_begins_block hred hwords hrest
    rw [hno, if_neg Bool.false_ne_true]
    exact parsesimple_complete hnul hred hwords hlen hj (hlex.trans hts) (by omega) hrest

end

end Complete

/-! ## The words of a line -/

section Words

variable {s : List UInt8} {i n : ℕ} {α : Type}

/-- A maximal run of characters of words. -/
structure IsWord (s : List UInt8) (w : Span) : Prop where
  lt : w.1 < w.2
  le : w.2 ≤ s.length
  char : ∀ k, w.1 ≤ k → k < w.2 → s[k]?.any isWordChar = true
  stop : s[w.2]?.any isWordChar = false

lemma takeWhile_run (p : α → Bool) (l : List α) :
    (∀ k < (l.takeWhile p).length, l[k]?.any p = true) ∧
      l[(l.takeWhile p).length]?.any p = false := by
  induction l with
  | nil => simp
  | cons a l ih =>
    by_cases ha : p a = true
    · rw [List.takeWhile_cons_of_pos ha]
      refine ⟨fun k hk => ?_, by simpa using ih.2⟩
      cases k with
      | zero => simpa using ha
      | succ k => simpa using ih.1 k (by simpa using hk)
    · rw [List.takeWhile_cons_of_neg ha]
      simpa using ha

lemma isWord_run (hi : i ≤ s.length) (hpos : 0 < ((s.drop i).takeWhile isWordChar).length) :
    IsWord s (i, i + ((s.drop i).takeWhile isWordChar).length) := by
  obtain ⟨hchar, hstop⟩ := takeWhile_run isWordChar (s.drop i)
  refine ⟨by simpa using hpos, add_takeWhile_le hi, fun k hik hk => ?_, by simpa using hstop⟩
  have h := hchar (k - i) (by simp only at hik hk; omega)
  rwa [List.getElem?_drop, Nat.add_sub_cancel' hik] at h

lemma isWord_of_mem {w : Span} (hi : i ≤ s.length) (hw : .word w ∈ lexAt s i) : IsWord s w := by
  obtain ⟨n, hn⟩ : ∃ n, s.length - i = n := ⟨_, rfl⟩
  induction n using Nat.strong_induction_on generalizing i with
  | _ n ih =>
    rcases hi.lt_or_eq with hlt | rfl
    · rw [lexAt_of_lt hlt] at hw
      have hnext : .word w ∈ lexAt s (i + 1) → IsWord s w :=
        fun h => ih _ (by omega) (i := i + 1) (by omega) h rfl
      split_ifs at hw with hsp hgt hd
      · exact hnext hw
      · have hlt' : i + 1 < s.length := by
          by_contra hge
          rw [List.drop_of_length_le (by omega)] at hd
          cases hd
        have hmem : .word w ∈ lexAt s (i + 2) := by simpa using hw
        exact ih _ (by omega) (i := i + 2) (by omega) hmem rfl
      · exact hnext (by simpa using hw)
      · cases hsym : symbolTok s[i] with
        | some t =>
          rw [hsym] at hw
          rcases List.mem_cons.1 hw with h | h
          · exact ((symbolTok_eq_some hsym).2.2.2 w h.symm).elim
          · exact hnext h
        | none =>
          rw [hsym] at hw
          have hpos : 0 < ((s.drop i).takeWhile isWordChar).length := by
            rw [List.drop_eq_getElem_cons hlt]
            exact takeWhile_pos (isWordChar_of_none (by simpa using hsp) hgt hsym)
          have hle := add_takeWhile_le (p := isWordChar) hi
          rcases List.mem_cons.1 hw with h | h
          · obtain rfl := Tok.word.inj h
            exact isWord_run hi hpos
          · exact ih _ (by omega) hle h rfl
    · rw [lexAt_length] at hw
      cases hw

/-- The words of a command. -/
def Cmd.words : Cmd → List Span
  | .exec argv => argv
  | .redir cmd r => cmd.words ++ [r.file]
  | .pipe left right => left.words ++ right.words
  | .list left right => left.words ++ right.words
  | .back cmd => cmd.words

lemma words_wrap (c : Cmd) (rs : List Redir) :
    (wrap c rs).words = c.words ++ rs.map Redir.file := by
  induction rs generalizing c with
  | nil => simp [wrap]
  | cons r rs ih =>
    rw [wrap, List.foldl_cons]
    exact (ih _).trans (by simp [Cmd.words])

lemma words_back (n : ℕ) (c : Cmd) : (Cmd.back^[n] c).words = c.words := by
  induction n generalizing c with
  | zero => rfl
  | succ n ih => exact ih (.back c)

lemma Redirs.mem {ts : List Tok} {rs : List Redir} (h : Redirs ts rs) :
    ∀ r ∈ rs, .word r.file ∈ ts := by
  induction h with
  | nil => simp
  | @cons t w ts rs ht _ ih =>
    have hfile : (t.redir w).file = w := by cases t <;> rfl
    simp only [List.mem_cons, forall_eq_or_imp, hfile]
    exact ⟨.inr (.inl trivial), fun r hr => .inr (.inr (ih r hr))⟩

lemma Words.mem {ts : List Tok} {ws : List Span} {rs : List Redir} (h : Words ts ws rs) :
    (∀ w ∈ ws, .word w ∈ ts) ∧ ∀ r ∈ rs, .word r.file ∈ ts := by
  induction h with
  | nil => simp
  | cons hred _ ih =>
    have hmem := hred.mem
    constructor
    · simp only [List.mem_cons, forall_eq_or_imp, List.mem_append]
      exact ⟨.inl trivial, fun w hw => .inr (.inr (ih.1 w hw))⟩
    · intro r hr
      rcases List.mem_append.1 hr with hr | hr
      · simp [hmem r hr]
      · simp [ih.2 r hr]

mutual

lemma Line.mem : ∀ {ts : List Tok} {c : Cmd}, Line ts c → ∀ w ∈ c.words, .word w ∈ ts
  | _, _, .single n hpipe => fun w hw => by
    rw [words_back] at hw
    exact List.mem_append_left _ (Pipe.mem hpipe w hw)
  | _, _, .list n hpipe hline => fun w hw => by
    rw [Cmd.words, words_back] at hw
    rcases List.mem_append.1 hw with hw | hw
    · exact List.mem_append_left _ (Pipe.mem hpipe w hw)
    · have := Line.mem hline w hw
      simp [this]

lemma Pipe.mem : ∀ {ts : List Tok} {c : Cmd}, Pipe ts c → ∀ w ∈ c.words, .word w ∈ ts
  | _, _, .single hexec => Exec.mem hexec
  | _, _, .pipe hexec hpipe => fun w hw => by
    rcases List.mem_append.1 hw with hw | hw
    · exact List.mem_append_left _ (Exec.mem hexec w hw)
    · have := Pipe.mem hpipe w hw
      simp [this]

lemma Exec.mem : ∀ {ts : List Tok} {c : Cmd}, Exec ts c → ∀ w ∈ c.words, .word w ∈ ts
  | _, _, .block hline hred => fun w hw => by
    rw [words_wrap] at hw
    rcases List.mem_append.1 hw with hw | hw
    · have := Line.mem hline w hw
      simp [this]
    · obtain ⟨r, hr, rfl⟩ := List.mem_map.1 hw
      have := hred.mem r hr
      simp [this]
  | _, _, .simple hred hwords _ => fun w hw => by
    rw [words_wrap, List.map_append] at hw
    rcases List.mem_append.1 hw with hw | hw
    · exact List.mem_append_right _ (hwords.mem.1 w hw)
    · rcases List.mem_append.1 hw with hw | hw <;> obtain ⟨r, hr, rfl⟩ := List.mem_map.1 hw
      · exact List.mem_append_left _ (hred.mem r hr)
      · exact List.mem_append_right _ (hwords.mem.2 r hr)

end

/-! ## The strings of a command -/

/-- The line with a NUL after each of the words. -/
def terminated (ws : List Span) (mem : List UInt8) : List UInt8 :=
  ws.foldl (fun mem w => mem.set w.2 0) mem

@[simp]
lemma length_terminated (ws : List Span) (mem : List UInt8) :
    (terminated ws mem).length = mem.length := by
  induction ws generalizing mem with
  | nil => rfl
  | cons w ws ih => exact (ih _).trans (by simp)

lemma terminated_append (ws vs : List Span) (mem : List UInt8) :
    terminated (ws ++ vs) mem = terminated vs (terminated ws mem) :=
  List.foldl_append

lemma putNul_eq {mem : List UInt8} (h : i < mem.length) : putNul mem i = .ok (mem.set i 0) := by
  rw [putNul, if_pos h]

lemma foldlM_putNul (ws : List Span) (mem : List UInt8) (h : ∀ w ∈ ws, w.2 < mem.length) :
    ws.foldlM (fun mem w => putNul mem w.2) mem = .ok (terminated ws mem) := by
  induction ws generalizing mem with
  | nil => rfl
  | cons w ws ih =>
    rw [List.foldlM_cons, putNul_eq (h w (by simp)), ok_bind, ih]
    · rfl
    · intro v hv
      rw [List.length_set]
      exact h v (by simp [hv])

lemma nulterminate_spec (c : Cmd) (mem : List UInt8) (h : ∀ w ∈ c.words, w.2 < mem.length) :
    nulterminate c mem = .ok (terminated c.words mem) := by
  induction c generalizing mem with
  | exec argv => exact foldlM_putNul argv mem h
  | redir c r ih =>
    rw [nulterminate, ih mem fun w hw => h w (by simp [Cmd.words, hw]), ok_bind, putNul_eq,
      Cmd.words, terminated_append]
    · rfl
    · rw [length_terminated]
      exact h _ (by simp [Cmd.words])
  | pipe l r ihl ihr | list l r ihl ihr =>
    rw [nulterminate, ihl mem fun w hw => h w (by simp [Cmd.words, hw]), ok_bind, ihr, Cmd.words,
      terminated_append]
    intro w hw
    rw [length_terminated]
    exact h w (by simp [Cmd.words, hw])
  | back c ih => exact ih mem h

/-- The NUL-terminated string at `i`. -/
def cstring (mem : List UInt8) (i : ℕ) : List UInt8 := (mem.drop i).takeWhile (· ≠ 0)

/-- The characters of a word. -/
def text (s : List UInt8) (w : Span) : List UInt8 := (s.drop w.1).take (w.2 - w.1)

lemma takeWhile_eq_take {p : UInt8 → Bool} (l : List UInt8)
    (hlt : ∀ k < n, l[k]?.any p = true) (hn : l[n]?.any p = false) :
    l.takeWhile p = l.take n := by
  induction n generalizing l with
  | zero =>
    cases l with
    | nil => rfl
    | cons a l => rw [List.takeWhile_cons_of_neg (by simpa using hn), List.take_zero]
  | succ n ih =>
    cases l with
    | nil => rfl
    | cons a l =>
      have ha : p a = true := by simpa using hlt 0 (by omega)
      rw [List.takeWhile_cons_of_pos ha, List.take_succ_cons, ih l]
      · intro k hk
        simpa using hlt (k + 1) (by omega)
      · simpa using hn

lemma getElem?_terminated (ws : List Span) (mem : List UInt8) (k : ℕ) :
    (terminated ws mem)[k]? = if k < mem.length ∧ ∃ w ∈ ws, w.2 = k then some 0 else mem[k]? := by
  induction ws generalizing mem with
  | nil => simp [terminated]
  | cons w ws ih =>
    refine (ih (mem.set w.2 0)).trans ?_
    rw [List.length_set, List.getElem?_set]
    simp only [List.mem_cons, exists_eq_or_imp]
    by_cases hk : k < mem.length
    · by_cases hex : ∃ v ∈ ws, v.2 = k
      · rw [if_pos ⟨hk, hex⟩, if_pos ⟨hk, .inr hex⟩]
      · by_cases hwk : w.2 = k
        · rw [if_neg fun h => hex h.2, if_pos hwk, if_pos (hwk ▸ hk), if_pos ⟨hk, .inl hwk⟩]
        · rw [if_neg fun h => hex h.2, if_neg hwk, if_neg fun h => h.2.elim hwk hex]
    · have hnone : mem[k]? = none := List.getElem?_eq_none (by omega)
      simp only [hk, false_and, if_false, hnone]
      split_ifs with hwk hlt
      · exact absurd (hwk ▸ hlt) hk
      · rfl
      · rfl

lemma IsWord.getElem?_terminated {ws : List Span} (hws : ∀ w ∈ ws, IsWord s w) {w : Span}
    (hw : IsWord s w) {k : ℕ} (hk : w.1 ≤ k) (hk' : k < w.2) :
    (terminated ws (s ++ [0]))[k]? = s[k]? := by
  have hlt : k < s.length := lt_of_lt_of_le hk' hw.le
  have hne : ¬ ∃ v ∈ ws, v.2 = k := by
    rintro ⟨v, hv, rfl⟩
    have h := hw.char v.2 hk hk'
    rw [(hws v hv).stop] at h
    cases h
  rw [Sh.getElem?_terminated, if_neg fun h => hne h.2, List.getElem?_append_left hlt]

lemma cstring_terminated {ws : List Span} (hws : ∀ w ∈ ws, IsWord s w) (hnul : 0 ∉ s) {w : Span}
    (hmem : w ∈ ws) : cstring (terminated ws (s ++ [0])) w.1 = text s w := by
  have hw := hws w hmem
  have hnz : ∀ k < w.2 - w.1, ((terminated ws (s ++ [0])).drop w.1)[k]? = (s.drop w.1)[k]? := by
    intro k hk
    rw [List.getElem?_drop, List.getElem?_drop]
    exact hw.getElem?_terminated hws (by omega) (by omega)
  rw [cstring, takeWhile_eq_take (n := w.2 - w.1), text]
  · refine List.ext_getElem? fun k => ?_
    rw [List.getElem?_take, List.getElem?_take]
    split_ifs with hk
    · exact hnz k hk
    · rfl
  · intro k hk
    rw [hnz k hk, List.getElem?_drop]
    have hlt : w.1 + k < s.length := by
      have := hw.le
      omega
    rw [List.getElem?_eq_getElem hlt, Option.any_some, decide_eq_true_iff]
    exact fun h0 => hnul (h0 ▸ List.getElem_mem hlt)
  · rw [List.getElem?_drop, Nat.add_sub_cancel' hw.lt.le, Sh.getElem?_terminated, if_pos]
    · rfl
    · refine ⟨?_, w, hmem, rfl⟩
      rw [List.length_append]
      exact Nat.lt_succ_of_le hw.le

end Words

/-! ## The lines that are accepted -/

section Accepts

variable {s : List UInt8} {fuel : ℕ}

lemma Line.isWord {t : Cmd} (h : Line (tokens s) t) : ∀ w ∈ t.words, IsWord s w :=
  fun w hw => isWord_of_mem (Nat.zero_le _) (h.mem w hw)

lemma Line.nulterminate_eq {t : Cmd} (h : Line (tokens s) t) :
    nulterminate t (s ++ [0]) = .ok (terminated t.words (s ++ [0])) := by
  refine nulterminate_spec t _ fun w hw => ?_
  rw [List.length_append]
  exact Nat.lt_succ_of_le (h.isWord w hw).le

lemma parsecmd_sound (hnul : 0 ∉ s) (hfuel : 4 * (tokens s).length + 4 ≤ fuel) :
    match parsecmd fuel s with
    | .ok (t, mem) => Line (tokens s) t ∧ mem = terminated t.words (s ++ [0])
    | .error e => ∃ m, e = .panic m := by
  have h := (parse_sound hnul fuel).line 0 (Nat.zero_le _) hfuel
  rw [parsecmd]
  rcases hline : parseline (s ++ [0]) s.length fuel 0 with e | ⟨t, j⟩
  · rw [hline] at h
    exact h
  · rw [hline] at h
    obtain ⟨hj, us, hus, hderives⟩ := h
    obtain ⟨k, hpeek, hk, hlex, -⟩ := peek_spec [] hnul hj (by simp)
    simp only [ok_bind, hpeek]
    by_cases hend : k = s.length
    · have hnil : lexAt s j = [] := by rw [← hlex, hend, lexAt_length]
      have hall : Line (tokens s) t := by
        rw [hnil, List.append_nil] at hus
        rwa [tokens, hus]
      rw [if_neg (not_not.2 hend), hall.nulterminate_eq]
      exact ⟨hall, rfl⟩
    · rw [if_pos hend]
      exact ⟨_, rfl⟩

lemma parsecmd_complete (hnul : 0 ∉ s) (hfuel : 4 * (tokens s).length + 4 ≤ fuel) {t : Cmd}
    (h : Line (tokens s) t) : parsecmd fuel s = .ok (t, terminated t.words (s ++ [0])) := by
  obtain ⟨j, hj, hline, hjlex⟩ := line_complete hnul _ h (Nat.zero_le _)
    (List.append_nil _).symm hfuel (Follow.nil _)
  obtain ⟨k, hpeek, -, -, hend⟩ := peek_spec [] hnul hj (by simp)
  rw [parsecmd]
  simp only [hline, ok_bind, hpeek]
  rw [if_neg (not_not.2 (hend hjlex)), h.nulterminate_eq]
  rfl

end Accepts

/-- The parser accepts its grammar.  On a line without a NUL, and with enough fuel for its tokens,
`parsecmd` returns exactly the command that the grammar derives from the tokens, with its words as
terminated strings; if there is none it panics.  In particular it terminates, reads no character
behind the line and stores no argument behind `argv`. -/
theorem parsecmd_grammar (s : List UInt8) (hnul : 0 ∉ s) (fuel : ℕ)
    (hfuel : 4 * (tokens s).length + 4 ≤ fuel) :
    (∀ t, (∃ mem, parsecmd fuel s = .ok (t, mem)) ↔ Line (tokens s) t) ∧
    (∀ t mem, parsecmd fuel s = .ok (t, mem) → ∀ w ∈ t.words, cstring mem w.1 = text s w) ∧
    ((¬ ∃ t, Line (tokens s) t) → ∃ m, parsecmd fuel s = .error (.panic m)) ∧
    ∀ e, parsecmd fuel s = .error e → ∃ m, e = .panic m := by
  have hsound := parsecmd_sound hnul hfuel
  refine ⟨fun t => ⟨?_, fun h => ⟨_, parsecmd_complete hnul hfuel h⟩⟩, ?_, ?_, ?_⟩
  · rintro ⟨mem, hok⟩
    rw [hok] at hsound
    exact hsound.1
  · intro t mem hok w hw
    rw [hok] at hsound
    obtain ⟨hline, rfl⟩ := hsound
    exact cstring_terminated hline.isWord hnul hw
  · intro hnone
    rcases hres : parsecmd fuel s with e | ⟨t, mem⟩
    · rw [hres] at hsound
      obtain ⟨m, rfl⟩ := hsound
      exact ⟨m, rfl⟩
    · rw [hres] at hsound
      exact (hnone ⟨t, hsound.1⟩).elim
  · intro e herr
    rw [herr] at hsound
    exact hsound

/-- `ls|wc` is the pipe of its two words. -/
theorem parsecmd_grammar_pipe :
    let s := [chr 'l', chr 's', chr '|', chr 'w', chr 'c']
    let t := Cmd.pipe (.exec [(0, 2)]) (.exec [(3, 5)])
    0 ∉ s ∧ 4 * (tokens s).length + 4 ≤ 16 ∧ (∃ mem, parsecmd 16 s = .ok (t, mem)) ∧
      Line (tokens s) t := by
  intro s t
  have h := parsecmd_grammar s (by decide) 16 (by decide)
  have hok : ∃ mem, parsecmd 16 s = .ok (t, mem) :=
    ⟨[chr 'l', chr 's', 0, chr 'w', chr 'c', 0], by decide +kernel⟩
  exact ⟨by decide, by decide, hok, (h.1 t).1 hok⟩

/-- The strings of a command are the words of the line.  In the line that `parsecmd` leaves, every
argument and every file name of the command, read up to its NUL, is the word of the original line
that the parser took it for, and the NUL after one word is not inside another. -/
theorem parsecmd_strings (s : List UInt8) (hnul : 0 ∉ s) (fuel : ℕ)
    (hfuel : 4 * (tokens s).length + 4 ≤ fuel) {t : Cmd} {mem : List UInt8}
    (h : parsecmd fuel s = .ok (t, mem)) :
    (∀ w ∈ t.words, .word w ∈ tokens s ∧ IsWord s w ∧ cstring mem w.1 = text s w) ∧
    ∀ w ∈ t.words, ∀ w' ∈ t.words, ¬ (w.1 ≤ w'.2 ∧ w'.2 < w.2) := by
  have hsound := parsecmd_sound hnul hfuel
  rw [h] at hsound
  obtain ⟨hline, rfl⟩ := hsound
  refine ⟨fun w hw => ⟨hline.mem w hw, hline.isWord w hw, ?_⟩, fun w hw w' hw' => ?_⟩
  · exact cstring_terminated hline.isWord hnul hw
  · rintro ⟨hle, hlt⟩
    have hchar := (hline.isWord w hw).char w'.2 hle hlt
    rw [(hline.isWord w' hw').stop] at hchar
    cases hchar

/-- The line `a>b|c`, whose words touch the operators. -/
theorem parsecmd_strings_touching :
    let s := [chr 'a', chr '>', chr 'b', chr '|', chr 'c']
    let t := Cmd.pipe (.redir (.exec [(0, 1)]) ⟨(2, 3), 0x601, 1⟩) (.exec [(4, 5)])
    let mem := [chr 'a', 0, chr 'b', 0, chr 'c', 0]
    parsecmd 24 s = .ok (t, mem) ∧ ∀ w ∈ t.words, cstring mem w.1 = text s w := by
  intro s t mem
  have hok : parsecmd 24 s = .ok (t, mem) := by decide +kernel
  exact ⟨hok, fun w hw => ((parsecmd_strings s (by decide) 24 (by decide) hok).1 w hw).2.2⟩

end Xv6.Sh
