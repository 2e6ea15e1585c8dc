import Xv6.Sh.Tokens

/-!
# The shell's grammar

    line  ::=  pipe '&'* [';' line]
    pipe  ::=  exec ['|' pipe]
    exec  ::=  '(' line ')' redir*  |  redir* (word redir*)*
    redir ::=  ('<' | '>' | '>>') word

with at most `MAXARGS - 1` words in an `exec`, as derivations of a command from a list of tokens
(`Line`, `Pipe`, `Exec`, `Words`, `Redirs`).  Whatever the parser returns is derived from the tokens
it has taken, and if it returns nothing it has panicked (`parse_sound`).
-/

namespace Xv6.Sh

/-! ## Derivations -/

/-- The tokens that begin a redirection. -/
def redirToks : List Tok := [.lt, .gt, .append]

/-- The redirection that a token begins: to standard input, or to standard output with the file
truncated or not. -/
def Tok.redir (t : Tok) (file : Span) : Redir :=
  match t with
  | .lt => ⟨file, 0x000, 0⟩
  | .gt => ⟨file, 0x601, 1⟩
  | _ => ⟨file, 0x201, 1⟩

/-- `redir*` -/
inductive Redirs : List Tok → List Redir → Prop where
  | nil : Redirs [] []
  | cons {t : Tok} {w : Span} {ts : List Tok} {rs : List Redir} :
      t ∈ redirToks → Redirs ts rs → Redirs (t :: .word w :: ts) (t.redir w :: rs)

/-- `(word redir*)*` -/
inductive Words : List Tok → List Span → List Redir → Prop where
  | nil : Words [] [] []
  | cons {w : Span} {ts us : List Tok} {ws : List Span} {rs qs : List Redir} :
      Redirs ts rs → Words us ws qs → Words (.word w :: (ts ++ us)) (w :: ws) (rs ++ qs)

mutual

/-- `pipe '&'* [';' line]` -/
inductive Line : List Tok → Cmd → Prop where
  | single {ts : List Tok} {c : Cmd} (n : ℕ) :
      Pipe ts c → Line (ts ++ List.replicate n .amp) (Cmd.back^[n] c)
  | list {ts us : List Tok} {c d : Cmd} (n : ℕ) : Pipe ts c → Line us d →
      Line (ts ++ (List.replicate n .amp ++ .semi :: us)) (.list (Cmd.back^[n] c) d)

/-- `exec ['|' pipe]` -/
inductive Pipe : List Tok → Cmd → Prop where
  | single {ts : List Tok} {c : Cmd} : Exec ts c → Pipe ts c
  | pipe {ts us : List Tok} {c d : Cmd} :
      Exec ts c → Pipe us d → Pipe (ts ++ .bar :: us) (.pipe c d)

/-- `'(' line ')' redir* | redir* (word redir*)*` -/
inductive Exec : List Tok → Cmd → Prop where
  | block {ts us : List Tok} {c : Cmd} {rs : List Redir} :
      Line ts c → Redirs us rs → Exec (.lpar :: (ts ++ .rpar :: us)) (wrap c rs)
  | simple {ts us : List Tok} {ws : List Span} {rs qs : List Redir} :
      Redirs ts rs → Words us ws qs → ws.length ≤ MAXARGS - 1 →
        Exec (ts ++ us) (wrap (.exec ws) (rs ++ qs))

end

/-! ## Looking ahead -/

lemma redirOf_code {t : Tok} (h : t ∈ redirToks) (w : Span) : redirOf t.code w = [t.redir w] := by
  simp only [redirToks, List.mem_cons, List.not_mem_nil, or_false] at h
  rcases h with rfl | rfl | rfl <;> rfl

lemma begins_iff {toks : List UInt8} {F ts : List Tok}
    (h : ∀ t : Tok, t.first.any (· ∈ toks) = true ↔ t ∈ F) :
    begins toks ts = true ↔ ∃ t us, ts = t :: us ∧ t ∈ F := by
  rcases ts with _ | ⟨t, us⟩
  · simp [begins]
  · rw [begins, h]
    constructor
    · exact fun ht => ⟨t, us, rfl, ht⟩
    · rintro ⟨t', us', heq, ht⟩
      rwa [(List.cons.inj heq).1]

lemma begins_redir {ts : List Tok} :
    begins [chr '<', chr '>'] ts = true ↔ ∃ t us, ts = t :: us ∧ t ∈ redirToks := by
  refine begins_iff fun t => ?_
  cases t with
  | word w => simp [Tok.first, redirToks]
  | _ => decide

lemma begins_stop {ts : List Tok} : begins [chr '|', chr ')', chr '&', chr ';'] ts = true ↔
    ∃ t us, ts = t :: us ∧ t ∈ [Tok.bar, .rpar, .amp, .semi] := by
  refine begins_iff fun t => ?_
  cases t with
  | word w => simp [Tok.first]
  | _ => decide

lemma begins_code {t : Tok} {ts : List Tok} (ht : t ∈ [Tok.bar, .lpar, .rpar, .semi, .amp]) :
    begins [t.code] ts = true ↔ ∃ us, ts = t :: us := by
  have key : ∀ t' : Tok, t'.first.any (· ∈ [t.code]) = true ↔ t' ∈ [t] := by
    intro t'
    revert t
    cases t' with
    | word w => simp [Tok.first]
    | _ => decide
  rw [begins_iff key]
  simp

/-! ## What a parse has taken -/

section Sound

variable {s : List UInt8} {i j : ℕ} {α β : Type} {D : List Tok → α → Prop}
  {D' : List Tok → β → Prop}

@[simp]
lemma ok_bind (a : α) (f : α → Except Err β) : (Except.ok a >>= f) = f a := rfl

@[simp]
lemma error_bind (e : Err) (f : α → Except Err β) : (Except.error e >>= f) = .error e := rfl

/-- The outcome of a parse from `i`: a result that is derived from the tokens taken, or a panic. -/
def Parsed (s : List UInt8) (i : ℕ) (D : List Tok → α → Prop) : Except Err (α × ℕ) → Prop
  | .ok (a, j) => j ≤ s.length ∧ ∃ us, lexAt s i = us ++ lexAt s j ∧ D us a
  | .error e => ∃ m, e = .panic m

lemma Parsed.panic (m : Msg) : Parsed s i D (.error (.panic m)) := ⟨m, rfl⟩

lemma Parsed.ok {a : α} (hj : j ≤ s.length) (h : lexAt s j = lexAt s i) (hD : D [] a) :
    Parsed s i D (.ok (a, j)) :=
  ⟨hj, [], by rw [h, List.nil_append], hD⟩

lemma Parsed.bind {x : Except Err (α × ℕ)} {f : α × ℕ → Except Err (β × ℕ)}
    (hx : Parsed s i D x)
    (hf : ∀ a j us, j ≤ s.length → lexAt s i = us ++ lexAt s j → D us a →
      Parsed s j (fun vs => D' (us ++ vs)) (f (a, j))) :
    Parsed s i D' (x >>= f) := by
  rcases x with e | ⟨a, j⟩
  · exact hx
  · obtain ⟨hj, us, hus, hD⟩ := hx
    have h := hf a j us hj hus hD
    rw [ok_bind]
    rcases hr : f (a, j) with e | ⟨b, k⟩
    · rw [hr] at h
      exact h
    · rw [hr] at h
      obtain ⟨hk, vs, hvs, hD'⟩ := h
      exact ⟨hk, us ++ vs, by rw [hus, hvs, List.append_assoc], hD'⟩

lemma Parsed.after {x : Except Err (α × ℕ)} (us : List Tok) (h : lexAt s i = us ++ lexAt s j)
    (hx : Parsed s j (fun vs => D (us ++ vs)) x) : Parsed s i D x := by
  rcases x with e | ⟨a, k⟩
  · exact hx
  · obtain ⟨hk, vs, hvs, hD⟩ := hx
    exact ⟨hk, us ++ vs, by rw [h, hvs, List.append_assoc], hD⟩

lemma Parsed.same {x : Except Err (α × ℕ)} (h : lexAt s j = lexAt s i) (hx : Parsed s j D x) :
    Parsed s i D x :=
  Parsed.after [] (by rw [h, List.nil_append]) (by simpa using hx)

lemma Parsed.mono {x : Except Err (α × ℕ)} {E : List Tok → α → Prop} (hx : Parsed s i D x)
    (h : ∀ us a, D us a → E us a) : Parsed s i E x := by
  rcases x with e | ⟨a, k⟩
  · exact hx
  · obtain ⟨hk, vs, hvs, hD⟩ := hx
    exact ⟨hk, vs, hvs, h vs a hD⟩

/-! ## Soundness -/

variable (hnul : 0 ∉ s)

lemma code_eq_word {t : Tok} (h : t.code = chr 'a') : ∃ w, t = .word w := by
  cases t with
  | word w => exact ⟨w, rfl⟩
  | _ => exact absurd h (by decide)

include hnul

lemma parseredirs_sound (fuel : ℕ) (rs : List Redir) (hi : i ≤ s.length)
    (hfuel : (lexAt s i).length < fuel) :
    Parsed s i (fun us qs => ∃ rs', qs = rs ++ rs' ∧ Redirs us rs')
      (parseredirs (s ++ [0]) s.length fuel rs i) := by
  induction fuel generalizing rs i with
  | zero => omega
  | succ fuel ih =>
    obtain ⟨j, hpeek, hj, hlex, -⟩ := peek_spec [chr '<', chr '>'] hnul hi (by decide)
    rw [parseredirs, hpeek, ok_bind]
    refine Parsed.same hlex ?_
    rw [← hlex] at hfuel ⊢
    simp only
    split_ifs with hmore
    · obtain ⟨t, us, hts, ht⟩ := begins_redir.1 hmore
      obtain ⟨tok, htok, htoks, hret, rfl, -⟩ := gettoken_cons hnul hj hts
      rw [htok, ok_bind]
      rcases hus : lexAt s tok.s with _ | ⟨t', us⟩
      · obtain ⟨file, hfile, -, hret', -⟩ := gettoken_nil htoks hus
        rw [hfile, ok_bind, if_pos (by rw [hret']; decide)]
        exact Parsed.panic _
      · obtain ⟨file, hfile, hfiles, hret', rfl, hw⟩ := gettoken_cons hnul htoks hus
        rw [hfile, ok_bind]
        by_cases ha : file.ret = chr 'a'
        · rw [if_neg (not_not.2 ha)]
          obtain ⟨w, rfl⟩ := code_eq_word (hret'.symm.trans ha)
          obtain rfl := hw w rfl
          rw [hret, redirOf_code ht]
          have htaken : lexAt s j = [t, .word (file.q, file.eq)] ++ lexAt s file.s := by
            rw [hts, hus]
            rfl
          refine Parsed.after _ htaken ((ih _ hfiles ?_).mono ?_)
          · rw [hts, hus] at hfuel
            simp only [List.length_cons] at hfuel
            omega
          · rintro vs qs ⟨rs', rfl, hred⟩
            exact ⟨t.redir (file.q, file.eq) :: rs', by simp, .cons ht hred⟩
        · rw [if_pos ha]
          exact Parsed.panic _
    · exact Parsed.ok hj rfl ⟨[], by simp, .nil⟩

lemma execArgs_sound (fuel : ℕ) (args : List Span) (rs : List Redir) (hi : i ≤ s.length)
    (hfuel : (lexAt s i).length < fuel) (hargs : args.length ≤ MAXARGS - 1) :
    Parsed s i (fun us r => r.1.length ≤ MAXARGS - 1 ∧
      ∃ ws qs, r = (args ++ ws, rs ++ qs) ∧ Words us ws qs)
      (execArgs (s ++ [0]) s.length fuel args rs i) := by
  induction fuel generalizing args rs i with
  | zero => omega
  | succ fuel ih =>
    obtain ⟨j, hpeek, hj, hlex, -⟩ :=
      peek_spec [chr '|', chr ')', chr '&', chr ';'] hnul hi (by decide)
    rw [execArgs, hpeek, ok_bind]
    refine Parsed.same hlex ?_
    rw [← hlex] at hfuel ⊢
    simp only
    split_ifs with hstop
    · exact Parsed.ok hj rfl ⟨hargs, [], [], by simp, .nil⟩
    · rcases hts : lexAt s j with _ | ⟨t, us⟩
      · obtain ⟨tok, htok, htoks, hret, hnil⟩ := gettoken_nil hj hts
        rw [htok, ok_bind, if_pos hret]
        exact Parsed.ok htoks (hnil.trans hts.symm) ⟨hargs, [], [], by simp, .nil⟩
      · obtain ⟨tok, htok, htoks, hret, rfl, hw⟩ := gettoken_cons hnul hj hts
        rw [htok, ok_bind, if_neg (by rw [hret]; exact t.code_ne_zero)]
        by_cases ha : tok.ret = chr 'a'
        · rw [if_neg (not_not.2 ha)]
          obtain ⟨w, rfl⟩ := code_eq_word (hret.symm.trans ha)
          obtain rfl := hw w rfl
          have hroom : args.length < MAXARGS := by
            simp only [MAXARGS] at hargs ⊢
            omega
          rw [putArg, if_pos hroom, ok_bind]
          split_ifs with hmany
          · exact Parsed.panic _
          · have hlen : (lexAt s j).length = (lexAt s tok.s).length + 1 := by rw [hts]; rfl
            refine Parsed.after [.word (tok.q, tok.eq)] hts ?_
            refine Parsed.bind (parseredirs_sound hnul fuel rs htoks (by omega)) ?_
            rintro _ k us hk hus ⟨rs', rfl, hred⟩
            have hlen' : (lexAt s tok.s).length = us.length + (lexAt s k).length := by
              rw [hus, List.length_append]
            refine (ih _ _ hk (by omega) (by omega)).mono ?_
            rintro vs r ⟨hr, ws, qs, rfl, hwords⟩
            refine ⟨hr, (tok.q, tok.eq) :: ws, rs' ++ qs, by simp, ?_⟩
            simpa using Words.cons hred hwords
        · rw [if_pos ha]
          exact Parsed.panic _

lemma parsesimple_sound (fuel : ℕ) (hi : i ≤ s.length) (hfuel : (lexAt s i).length < fuel) :
    Parsed s i Exec (parsesimple (s ++ [0]) s.length fuel i) := by
  rw [parsesimple]
  refine Parsed.bind (parseredirs_sound hnul fuel [] hi hfuel) ?_
  rintro _ j us hj hus ⟨rs, hrs, hred⟩
  rw [List.nil_append] at hrs
  subst hrs
  have hlen : (lexAt s i).length = us.length + (lexAt s j).length := by
    rw [hus, List.length_append]
  refine Parsed.bind (execArgs_sound hnul fuel [] _ hj (by omega) (by decide)) ?_
  rintro _ k vs hk - ⟨hargs, ws, qs, rfl, hwords⟩
  simp only [List.nil_append] at hargs ⊢
  rw [if_pos (by simp only [MAXARGS] at hargs ⊢; omega)]
  refine Parsed.ok hk rfl ?_
  rw [List.append_nil]
  exact .simple hred hwords hargs

lemma backs_sound (fuel : ℕ) (c : Cmd) (hi : i ≤ s.length) (hfuel : (lexAt s i).length < fuel) :
    Parsed s i (fun us d => ∃ n, us = List.replicate n .amp ∧ d = Cmd.back^[n] c)
      (backs (s ++ [0]) s.length fuel c i) := by
  induction fuel generalizing c i with
  | zero => omega
  | succ fuel ih =>
    obtain ⟨j, hpeek, hj, hlex, -⟩ := peek_spec [chr '&'] hnul hi (by decide)
    rw [backs, hpeek, ok_bind]
    refine Parsed.same hlex ?_
    rw [← hlex] at hfuel ⊢
    simp only
    split_ifs with hmore
    · obtain ⟨us, hts⟩ := (begins_code (t := .amp) (by decide)).1 hmore
      obtain ⟨tok, htok, htoks, -, rfl, -⟩ := gettoken_cons hnul hj hts
      rw [htok, ok_bind]
      refine Parsed.after [.amp] hts ((ih _ htoks ?_).mono ?_)
      · rw [hts, List.length_cons] at hfuel
        omega
      · rintro us d ⟨n, rfl, rfl⟩
        exact ⟨n + 1, rfl, rfl⟩
    · exact Parsed.ok hj rfl ⟨0, rfl, rfl⟩

/-- The four functions that call each other return what the grammar derives, when the fuel is
enough for the tokens that are left. -/
structure SoundAt (s : List UInt8) (fuel : ℕ) : Prop where
  line : ∀ i ≤ s.length, 4 * (lexAt s i).length + 4 ≤ fuel →
    Parsed s i Line (parseline (s ++ [0]) s.length fuel i)
  pipe : ∀ i ≤ s.length, 4 * (lexAt s i).length + 3 ≤ fuel →
    Parsed s i Pipe (parsepipe (s ++ [0]) s.length fuel i)
  exec : ∀ i ≤ s.length, 4 * (lexAt s i).length + 2 ≤ fuel →
    Parsed s i Exec (parseexec (s ++ [0]) s.length fuel i)
  block : ∀ i ≤ s.length, 4 * (lexAt s i).length + 1 ≤ fuel →
    Parsed s i Exec (parseblock (s ++ [0]) s.length fuel i)

variable {fuel : ℕ} (h : SoundAt s fuel)

include h

lemma SoundAt.line_succ (hi : i ≤ s.length) (hfuel : 4 * (lexAt s i).length + 4 ≤ fuel + 1) :
    Parsed s i Line (parseline (s ++ [0]) s.length (fuel + 1) i) := by
  rw [parseline]
  refine Parsed.bind (h.pipe i hi (by omega)) ?_
  intro c j us hj hus hpipe
  have hlen : (lexAt s i).length = us.length + (lexAt s j).length := by
    rw [hus, List.length_append]
  refine Parsed.bind (backs_sound hnul fuel c hj (by omega)) ?_
  rintro _ k _ hk hvs ⟨n, rfl, rfl⟩
  have hlen' : (lexAt s j).length = n + (lexAt s k).length := by
    rw [hvs, List.length_append, List.length_replicate]
  obtain ⟨l, hpeek, hl, hlex, -⟩ := peek_spec [chr ';'] hnul hk (by decide)
  simp only
  rw [hpeek, ok_bind]
  refine Parsed.same hlex ?_
  rw [← hlex] at hlen' ⊢
  simp only
  split_ifs with hmore
  · obtain ⟨ws, hts⟩ := (begins_code (t := .semi) (by decide)).1 hmore
    obtain ⟨tok, htok, htoks, -, rfl, -⟩ := gettoken_cons hnul hl hts
    rw [htok, ok_bind]
    rw [hts, List.length_cons] at hlen'
    refine Parsed.after [.semi] hts (Parsed.bind (h.line _ htoks (by omega)) ?_)
    intro d m ws hm _ hline
    refine Parsed.ok hm rfl ?_
    rw [List.append_nil]
    exact .list n hpipe hline
  · refine Parsed.ok hl rfl ?_
    rw [List.append_nil]
    exact .single n hpipe

lemma SoundAt.pipe_succ (hi : i ≤ s.length) (hfuel : 4 * (lexAt s i).length + 3 ≤ fuel + 1) :
    Parsed s i Pipe (parsepipe (s ++ [0]) s.length (fuel + 1) i) := by
  rw [parsepipe]
  refine Parsed.bind (h.exec i hi (by omega)) ?_
  intro c j us hj hus hexec
  have hlen : (lexAt s i).length = us.length + (lexAt s j).length := by
    rw [hus, List.length_append]
  obtain ⟨l, hpeek, hl, hlex, -⟩ := peek_spec [chr '|'] hnul hj (by decide)
  simp only
  rw [hpeek, ok_bind]
  refine Parsed.same hlex ?_
  rw [← hlex] at hlen ⊢
  simp only
  split_ifs with hmore
  · obtain ⟨ws, hts⟩ := (begins_code (t := .bar) (by decide)).1 hmore
    obtain ⟨tok, htok, htoks, -, rfl, -⟩ := gettoken_cons hnul hl hts
    rw [htok, ok_bind]
    rw [hts, List.length_cons] at hlen
    refine Parsed.after [.bar] hts (Parsed.bind (h.pipe _ htoks (by omega)) ?_)
    intro d m ws hm _ hpipe
    refine Parsed.ok hm rfl ?_
    rw [List.append_nil]
    exact .pipe hexec hpipe
  · refine Parsed.ok hl rfl ?_
    rw [List.append_nil]
    exact .single hexec

lemma SoundAt.block_succ (hi : i ≤ s.length) (hfuel : 4 * (lexAt s i).length + 1 ≤ fuel + 1) :
    Parsed s i Exec (parseblock (s ++ [0]) s.length (fuel + 1) i) := by
  obtain ⟨l, hpeek, hl, hlex, -⟩ := peek_spec [chr '('] hnul hi (by decide)
  rw [parseblock, hpeek, ok_bind]
  refine Parsed.same hlex ?_
  rw [← hlex] at hfuel ⊢
  simp only
  split_ifs with hopen
  · obtain ⟨ws, hts⟩ := (begins_code (t := .lpar) (by decide)).1 hopen
    obtain ⟨tok, htok, htoks, -, rfl, -⟩ := gettoken_cons hnul hl hts
    rw [htok, ok_bind]
    rw [hts, List.length_cons] at hfuel
    refine Parsed.after [.lpar] hts (Parsed.bind (h.line _ htoks (by omega)) ?_)
    intro c j us hj hus hline
    have hlen : (lexAt s tok.s).length = us.length + (lexAt s j).length := by
      rw [hus, List.length_append]
    obtain ⟨k, hpeek, hk, hlex, -⟩ := peek_spec [chr ')'] hnul hj (by decide)
    simp only
    rw [hpeek, ok_bind]
    refine Parsed.same hlex ?_
    rw [← hlex] at hlen ⊢
    simp only
    split_ifs with hclosed
    · obtain ⟨vs, hts⟩ := (begins_code (t := .rpar) (by decide)).1 hclosed
      obtain ⟨tok, htok, htoks, -, rfl, -⟩ := gettoken_cons hnul hk hts
      rw [htok, ok_bind]
      rw [hts, List.length_cons] at hlen
      refine Parsed.after [.rpar] hts (Parsed.bind (parseredirs_sound hnul fuel [] htoks ?_) ?_)
      · omega
      · rintro _ m vs hm - ⟨rs, hrs, hred⟩
        rw [List.nil_append] at hrs
        subst hrs
        refine Parsed.ok hm rfl ?_
        rw [List.append_nil]
        exact .block hline hred
    · exact Parsed.panic _
  · exact Parsed.panic _

lemma SoundAt.exec_succ (hi : i ≤ s.length) (hfuel : 4 * (lexAt s i).length + 2 ≤ fuel + 1) :
    Parsed s i Exec (parseexec (s ++ [0]) s.length (fuel + 1) i) := by
  obtain ⟨l, hpeek, hl, hlex, -⟩ := peek_spec [chr '('] hnul hi (by decide)
  rw [parseexec, hpeek, ok_bind]
  refine Parsed.same hlex ?_
  rw [← hlex] at hfuel ⊢
  simp only
  split_ifs
  · exact h.block l hl (by omega)
  · exact parsesimple_sound hnul fuel hl (by omega)

omit h

lemma parse_sound (fuel : ℕ) : SoundAt s fuel := by
  induction fuel with
  | zero => constructor <;> intro i _ hfuel <;> omega
  | succ fuel ih =>
    exact ⟨fun i hi hfuel => ih.line_succ hnul hi hfuel,
      fun i hi hfuel => ih.pipe_succ hnul hi hfuel,
      fun i hi hfuel => ih.exec_succ hnul hi hfuel, fun i hi hfuel => ih.block_succ hnul hi hfuel⟩

end Sound

end Xv6.Sh
