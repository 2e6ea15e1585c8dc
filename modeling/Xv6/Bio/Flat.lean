import Xv6.Bio.CacheSteps

/-!
# The buffer cache is a flat array of blocks

The routines keep the invariant, also the reads and writes of `commit`, which go through the
cache.  The main result is `cache_refines_flat`: whoever reads a block, `commit` included, sees what
was stored there last.  So `commit` and `recover_from_log` can be studied on a bare disk with what
`bread` returns beside it, as `Log/Recovery.lean` does, and file system calls on the contents of
blocks, as `Fs/Calls.lean` does.
-/

namespace Xv6.Bio

open Concur

variable {N : ℕ} {d : Disk} {size start : ℕ} {t : Fin N} {i : Fin NBUF} {b : ℕ}
  {H : Multiset Held} {c : Option Commit} {o : Option (Finset ℕ)} {σ : Hold}

/-! ## The routines of `bio.c` -/

lemma bread_safe :
    (rules N d size).Safe t (bread t ROOTDEV b) ⟨0, H, c, o⟩ fun i g =>
      g = ⟨0, ⟨i, b, .kept⟩ ::ₘ H, c, o⟩ := by
  unfold bread bget
  refine .seq (P := fun i g => g = ⟨0, ⟨i, b, .loading⟩ ::ₘ H, c, o⟩) ?_ ?_
  · refine .seq (P := fun i g => g = ⟨{(i, b)}, H, c, o⟩) ?_ ?_
    · refine .atomic fun s L hinv hl => ?_
      unfold St.lookup
      split
      · -- the block is cached
        rename_i i hi
        have hfound := List.find?_some hi
        simp only [decide_eq_true_eq] at hfound
        obtain ⟨hdev, rfl⟩ := hfound
        exact fun _ => ⟨_, hinv.hit hl hdev, rfl⟩
      · rename_i hnone
        have hnew : ∀ j, (s.buf j).dev = ROOTDEV → (s.buf j).blockno ≠ b := by
          intro j hdev hblock
          have := List.find?_eq_none.1 hnone j (hinv.cache.lru j)
          simp [hdev, hblock] at this
        split
        · -- it is not, and a buffer is recycled
          rename_i i hi
          have hfree := List.find?_some hi
          simp only [decide_eq_true_eq] at hfree
          exact fun _ => ⟨_, hinv.recycle hl hfree hnew, rfl⟩
        · simp [rules, Rules.Good]
    · rintro i _ rfl
      refine .seq (P := fun _ g => g = ⟨0, ⟨i, b, .loading⟩ ::ₘ H, c, o⟩)
        (.update fun s L hinv hl => ?_) ?_
      · unfold St.acquiresleep
        split
        · rename_i hfree
          exact fun _ => ⟨_, hinv.acquire (R := 0) hl hfree, rfl⟩
        · exact trivial
      · rintro _ _ rfl
        exact .ret rfl
  · rintro i _ rfl
    refine .seq (P := fun _ g => g = ⟨0, ⟨i, b, .kept⟩ ::ₘ H, c, o⟩)
      (.modify fun s L hinv hl _ => ?_) ?_
    · exact ⟨_, Inv.load hinv hl, rfl⟩
    · rintro _ _ rfl
      exact .ret rfl

lemma bwrite_safe (hσ : σ ≠ .loading) :
    (rules N d size).Safe t (bwrite t i) ⟨0, ⟨i, b, σ⟩ ::ₘ H, c, o⟩ fun _ g =>
      g = ⟨0, ⟨i, b, .synced⟩ ::ₘ H, c, o⟩ := by
  refine .update fun s L hinv hl => ?_
  have hat := hinv.at_ t
  rw [hl] at hat
  have hlock : (s.buf i).lock = some t := (hat.held _ (Multiset.mem_cons_self _ _)).lock
  unfold St.bwrite
  simp only [hlock, ne_eq, not_true_eq_false, ↓reduceIte]
  exact fun _ => ⟨_, hinv.bwrite hl hσ, rfl⟩

lemma brelse_safe (hσ : σ ≠ .dirty) :
    (rules N d size).Safe t (brelse t i) ⟨0, ⟨i, b, σ⟩ ::ₘ H, c, o⟩ fun _ g =>
      g = ⟨0, H, c, o⟩ := by
  unfold brelse
  refine .seq (P := fun _ g => g = ⟨{(i, b)}, H, c, o⟩)
    (.update fun s L hinv hl => ?_) ?_
  · have hat := hinv.at_ t
    rw [hl] at hat
    have hlock : (s.buf i).lock = some t := (hat.held _ (Multiset.mem_cons_self _ _)).lock
    unfold St.releasesleep
    simp only [hlock, ne_eq, not_true_eq_false, ↓reduceIte]
    exact fun _ => ⟨_, hinv.release hl hσ, rfl⟩
  · rintro _ _ rfl
    refine .modify fun s L hinv hl _ => ?_
    exact ⟨_, Inv.unref (R := 0) hinv hl, rfl⟩

lemma store_safe (hσ : σ ≠ .loading) (v : St N → Block) :
    (rules N d size).Safe t (.modify fun s => St.store i (v s) s) ⟨0, ⟨i, b, σ⟩ ::ₘ H, c, o⟩
      fun _ g => g = ⟨0, ⟨i, b, .dirty⟩ ::ₘ H, c, o⟩ := by
  refine .modify fun s L hinv hl _ => ?_
  exact ⟨_, Inv.store hinv hl hσ _, rfl⟩

/-! ## The commit -/

lemma read_lh_safe {cl : Bool} {lh : List ℕ} {k tail : ℕ} :
    (rules N d size).Safe t (.read fun s : St N => s.log.lh[tail]?)
      ⟨0, H, some ⟨cl, lh, k⟩, o⟩ fun x g => x = lh[tail]? ∧ g = ⟨0, H, some ⟨cl, lh, k⟩, o⟩ := by
  refine .atomic (Rules.ActSafe.of_read fun s L hinv hl => ?_)
  have hat := Inv.at_ hinv t
  rw [hl] at hat
  have hlh : s.log.lh = lh := (hat.com _ rfl).1
  exact ⟨by rw [hlh], rfl⟩

lemma writeLog_safe {cl : Bool} {lh : List ℕ} {k : ℕ} :
    (rules N d size).Safe t (writeLog start t) ⟨0, H, some ⟨cl, lh, k⟩, o⟩ fun _ g =>
      g = ⟨0, H, some ⟨cl, lh, k⟩, o⟩ := by
  refine .iterate (fun _ g => g = ⟨0, H, some ⟨cl, lh, k⟩, o⟩) rfl ?_
  rintro tail _ rfl
  refine .seq read_lh_safe ?_
  rintro x _ ⟨-, rfl⟩
  cases x with
  | none => exact .ret rfl
  | some b =>
    refine .seq bread_safe ?_
    rintro dst _ rfl
    refine .seq bread_safe ?_
    rintro src _ rfl
    rw [Multiset.cons_swap]
    refine .seq (P := fun _ g =>
      g = ⟨0, ⟨dst, start + tail + 1, .dirty⟩ ::ₘ ⟨src, b, .kept⟩ ::ₘ H, some ⟨cl, lh, k⟩, o⟩)
      (.modify fun s L hinv hl _ => ?_) ?_
    · have hcopied := Inv.copied hinv hl (x := ⟨src, b, .kept⟩) (by simp) (by simp)
      exact ⟨_, hcopied.store hl (by simp) _, rfl⟩
    rintro _ _ rfl
    refine .seq (bwrite_safe (by simp)) ?_
    rintro _ _ rfl
    rw [Multiset.cons_swap]
    refine .seq (brelse_safe (by simp)) ?_
    rintro _ _ rfl
    refine .seq (brelse_safe (by simp)) ?_
    rintro _ _ rfl
    exact .ret rfl

lemma installTrans_safe {cl : Bool} {lh : List ℕ} :
    (rules N d size).Safe t (installTrans start t) ⟨0, H, some ⟨cl, lh, 0⟩, o⟩ fun _ g =>
      ∃ k, lh.length ≤ k ∧ g = ⟨0, H, some ⟨cl, lh, k⟩, o⟩ := by
  refine .iterate (fun tail g => g = ⟨0, H, some ⟨cl, lh, tail⟩, o⟩) rfl ?_
  rintro tail _ rfl
  refine .seq read_lh_safe ?_
  rintro x _ ⟨hx, rfl⟩
  cases x with
  | none => exact .ret ⟨tail, List.getElem?_eq_none_iff.1 hx.symm, rfl⟩
  | some b =>
    refine .seq bread_safe ?_
    rintro lbuf _ rfl
    refine .seq bread_safe ?_
    rintro dbuf _ rfl
    refine .seq (store_safe (by simp) fun s => (s.buf lbuf).data) ?_
    rintro _ _ rfl
    refine .seq (bwrite_safe (by simp)) ?_
    rintro _ _ rfl
    refine .seq (P := fun _ g => g = ⟨0, ⟨dbuf, b, .synced⟩ ::ₘ
      ⟨lbuf, start + tail + 1, .kept⟩ ::ₘ H, some ⟨cl, lh, tail + 1⟩, o⟩)
      (.modify fun s L hinv hl _ => ?_) ?_
    · exact ⟨_, Inv.bunpin hinv hl hx.symm, rfl⟩
    rintro _ _ rfl
    rw [Multiset.cons_swap]
    refine .seq (brelse_safe (by simp)) ?_
    rintro _ _ rfl
    refine .seq (brelse_safe (by simp)) ?_
    rintro _ _ rfl
    exact .ret rfl

lemma writeHead_safe :
    (rules N d size).Safe t (writeHead start t) ⟨0, H, c, o⟩ fun _ g => g = ⟨0, H, c, o⟩ := by
  unfold writeHead
  refine .seq bread_safe ?_
  rintro buf _ rfl
  refine .seq
    (store_safe (by simp) fun s => Redo.putHead (s.buf buf).data s.log.lh) ?_
  rintro _ _ rfl
  refine .seq (bwrite_safe (by simp)) ?_
  rintro _ _ rfl
  exact brelse_safe (by simp)

lemma Inv.com_none {s : St N} {L : Fin N → Ghost} (h : Inv d size s L) {k : Commit}
    (hl : (L t).com = some k) {u : Fin N} (hu : u ≠ t) : (L u).com = none := by
  obtain ⟨logged, hacc⟩ := h.accounts
  by_contra hne
  exact hu (hacc.unique u t (by simpa [Option.isSome_iff_ne_none] using hne) (by rw [hl]; rfl))

lemma Inv.clear {s : St N} {L : Fin N → Ghost} {lh : List ℕ} {k : ℕ} (h : Inv d size s L)
    (hl : L t = ⟨0, H, some ⟨false, lh, k⟩, o⟩) (hk : lh.length ≤ k) :
    Inv d size { s with log := { s.log with lh := [] }, installed := [] }
      (Function.update L t ⟨0, H, some ⟨true, [], 0⟩, o⟩) := by
  have hat := h.at_ t
  rw [hl] at hat
  have hop : s.op t = o := hat.op
  obtain ⟨hlh, hinst⟩ := hat.com _ rfl
  simp only [List.take_of_length_le hk] at hlh hinst
  obtain ⟨logged, hacc⟩ := h.accounts
  have hsame : Function.update s.op t o = s.op := by rw [← hop, Function.update_eq_self]
  have hrelog := h.relog hl { s.log with lh := [] } [] (some ⟨true, [], 0⟩) o
    ?_ (fun _ => rfl) (fun u hu hne => absurd (h.com_none (by rw [hl]) hu) hne) ?_ ?_
  · rwa [hsame] at hrelog
  · intro e
    rw [h.cache.pins e, hlh, hinst]
    simp
  · rintro _ ⟨⟩
    simp
  · rw [hsame]
    exact ⟨logged, hacc.clear (c := false) (by rw [hl]; rfl)⟩

lemma commit_safe {lh : List ℕ} :
    (rules N d size).Safe t (commit start t) ⟨0, H, some ⟨false, lh, 0⟩, o⟩ fun _ g =>
      g = ⟨0, H, some ⟨true, [], 0⟩, o⟩ := by
  unfold commit
  refine .seq (P := fun n g => if 0 < n then g = ⟨0, H, some ⟨false, lh, 0⟩, o⟩
    else g = ⟨0, H, some ⟨true, [], 0⟩, o⟩) ?_ ?_
  · refine .atomic fun s L hinv hl _ => ?_
    have hat := Inv.at_ hinv t
    rw [hl] at hat
    obtain ⟨hlh, hinst⟩ := hat.com _ rfl
    simp only [List.take_zero] at hlh hinst
    by_cases hempty : lh = []
    · have hclear := Inv.clear hinv hl (by simp [hempty])
      have hlh' : s.log.lh = [] := hlh.trans hempty
      have hsame : { s with log := { s.log with lh := [] }, installed := [] } = s := by
        have hlog : { s.log with lh := [] } = s.log := by rw [← hlh']
        rw [hlog, ← hinst]
      rw [hsame] at hclear
      exact ⟨_, hclear, by simp [hlh, hempty]⟩
    · refine ⟨⟨0, H, some ⟨false, lh, 0⟩, o⟩, by rwa [← hl, Function.update_eq_self], ?_⟩
      have hpos : 0 < s.log.lh.length := by
        rw [hlh]
        exact List.length_pos_iff.2 hempty
      rw [if_pos hpos]
  · intro n g hg
    by_cases hn : 0 < n
    · rw [if_pos hn] at hg
      subst hg
      simp only [hn, ↓reduceIte]
      refine .seq writeLog_safe ?_
      rintro _ _ rfl
      refine .seq writeHead_safe ?_
      rintro _ _ rfl
      refine .seq installTrans_safe ?_
      rintro _ _ ⟨k, hk, rfl⟩
      refine .seq (P := fun _ g => g = ⟨0, H, some ⟨true, [], 0⟩, o⟩)
        (.modify fun s L hinv hl _ => ?_) ?_
      · exact ⟨_, Inv.clear hinv hl hk, rfl⟩
      rintro _ _ rfl
      exact writeHead_safe
    · rw [if_neg hn] at hg
      subst hg
      simp only [hn, ↓reduceIte]
      exact .ret rfl

/-! ## The calls -/

/-- A process between calls: it waits for no buffer, and those it has are read. -/
def Rest (g : Ghost) : Prop :=
  g.refs = 0 ∧ g.com = none ∧ ∀ x ∈ g.held, x.hold ≠ .loading

lemma endOp_safe {bs : Finset ℕ} (hH : ∀ x ∈ H, x.hold ≠ .loading) :
    (rules N d size).Safe t (endOp start t) ⟨0, H, none, some bs⟩ fun _ g => Rest g := by
  unfold endOp
  refine .seq (P := fun last g =>
    if last then ∃ lh, g = ⟨0, H, some ⟨false, lh, 0⟩, none⟩ else g = ⟨0, H, none, none⟩) ?_ ?_
  · refine .atomic fun s L hinv hl => ?_
    have hat := Inv.at_ hinv t
    rw [hl] at hat
    have hop : s.op t = some bs := hat.op
    obtain ⟨logged, hacc⟩ := Inv.accounts hinv
    have hcom := hacc.not_committing (u := t) (by rw [hop]; rfl)
    have hinst := (Inv.cache hinv).idle hcom
    unfold St.endOp
    cases he : s.log.endOp with
    | blocked => exact trivial
    | panic m => exact absurd (Log.endOp_eq_panic he) (by simp [hcom])
    | ok r =>
      obtain ⟨last, l'⟩ := r
      intro _
      obtain ⟨-, ⟨rfl, hone, rfl⟩ | ⟨rfl, hone, rfl⟩⟩ := Log.endOp_eq_ok he
      · refine ⟨⟨0, H, some ⟨false, s.log.lh, 0⟩, none⟩, ?_, ⟨_, rfl⟩⟩
        refine Inv.relog hinv hl _ _ (some ⟨false, s.log.lh, 0⟩) none (Inv.cache hinv).pins
          (by rintro ⟨⟩) (fun u hu hne => ⟨rfl, rfl⟩) ?_
          ⟨∅, hacc.close hop hone⟩
        rintro _ ⟨⟩
        simp [hinst]
      · refine ⟨⟨0, H, none, none⟩, ?_, rfl⟩
        refine Inv.relog hinv hl _ _ none none (Inv.cache hinv).pins (Inv.cache hinv).idle
          (fun u hu hne => ⟨rfl, rfl⟩) (by simp) ⟨logged, ?_⟩
        rw [show (none : Option Commit).map Commit.cleared = (L t).com.map Commit.cleared by
          rw [hl], Function.update_eq_self]
        exact hacc.leave hop
  · intro last g hg
    cases last with
    | false =>
      rw [if_neg (by simp)] at hg
      subst hg
      exact .ret ⟨rfl, rfl, hH⟩
    | true =>
      rw [if_pos rfl] at hg
      obtain ⟨lh, rfl⟩ := hg
      refine .seq commit_safe ?_
      rintro _ _ rfl
      refine .modify fun s L hinv hl _ => ?_
      refine ⟨⟨0, H, none, none⟩, ?_, rfl, rfl, hH⟩
      have hat := Inv.at_ hinv t
      rw [hl] at hat
      have hop : s.op t = none := hat.op
      obtain ⟨hlh, hinst⟩ := hat.com _ rfl
      simp only [List.take_nil] at hlh hinst
      obtain ⟨logged, hacc⟩ := Inv.accounts hinv
      have hsame : Function.update s.op t none = s.op := by rw [← hop, Function.update_eq_self]
      have hrelog := Inv.relog hinv hl { s.log with committing := false } s.installed
        none none (Inv.cache hinv).pins (fun _ => hinst) (fun u hu hne => ⟨rfl, rfl⟩) (by simp) ?_
      · rwa [hsame] at hrelog
      · rw [hsame]
        exact ⟨logged, hacc.finish (by rw [hl]; rfl)⟩

lemma Inv.held_of_lock {s : St N} {L : Fin N → Ghost} {g : Ghost} (h : Inv d size s L)
    (hl : L t = g) (hrest : Rest g) (hlock : (s.buf i).lock = some t) :
    ∃ b σ H, g = ⟨0, ⟨i, b, σ⟩ ::ₘ H, none, g.op⟩ ∧ σ ≠ .loading ∧
      (∀ x ∈ H, x.hold ≠ .loading) ∧ (s.dirty i = false → σ ≠ .dirty) := by
  have hat := h.at_ t
  rw [hl] at hat
  obtain ⟨⟨j, b, σ⟩, hx, rfl⟩ := hat.lock i hlock
  obtain ⟨H, hH⟩ := Multiset.exists_cons_of_mem hx
  obtain ⟨refs, held, com, op⟩ := g
  obtain ⟨hrefs, hcom, hload⟩ := hrest
  simp only at hrefs hcom hload hH
  subst hrefs hcom hH
  refine ⟨b, σ, H, rfl, hload _ (Multiset.mem_cons_self _ _),
    fun x hx => hload x (Multiset.mem_cons_of_mem hx), ?_⟩
  rintro hclean rfl
  have hd := (hat.held _ hx).dirty.2 rfl
  simp only at hd hclean
  rw [hclean] at hd
  cases hd

lemma calls_safe : Kernel.CallsSafe (kernel start N) (rules N d size) fun _ => Rest := by
  intro t c s L hinv hrest hguard
  have hinv : Inv d size s L := hinv
  have hop := (hinv.at_ t).op
  generalize hl : L t = g at hrest hop ⊢
  cases c with
  | bread b =>
    obtain ⟨refs, held, com, op⟩ := g
    obtain ⟨hrefs, hcom, hload⟩ := hrest
    simp only at hrefs hcom hload
    subst hrefs hcom
    refine .seq bread_safe ?_
    rintro i _ rfl
    refine .ret ⟨rfl, rfl, fun x hx => ?_⟩
    rcases Multiset.mem_cons.1 hx with rfl | hx
    · simp
    · exact hload x hx
  | store i v =>
    obtain ⟨b, σ, H, hg, hσ, hH, -⟩ := hinv.held_of_lock hl hrest hguard
    rw [hg]
    refine Rules.Safe.mono (store_safe hσ fun _ => v) ?_
    rintro _ _ rfl
    exact ⟨rfl, rfl, by simpa using hH⟩
  | logWrite i =>
    obtain ⟨hlock, hsome⟩ := hguard
    obtain ⟨b, σ, H, hg, hσ, hH, -⟩ := hinv.held_of_lock hl hrest hlock
    rw [hg]
    refine .update fun s L hinv hl => .intro (fun m hm => ?_) fun s' hs' _ => ?_
    · simp only [St.logWrite, Outcome.bind_eq_panic, Outcome.pure_eq, reduceCtorEq, and_false,
        exists_false, or_false] at hm
      rcases Log.write_eq_panic hm with ⟨rfl, -⟩ | ⟨rfl, -⟩ <;> simp [rules]
    · exact ⟨_, Inv.logWrite hinv hl hσ hs', rfl, rfl, by simpa using hH⟩
  | bwrite i =>
    obtain ⟨b, σ, H, hg, hσ, hH, -⟩ := hinv.held_of_lock hl hrest hguard
    rw [hg]
    refine Rules.Safe.mono (bwrite_safe hσ) ?_
    rintro _ _ rfl
    exact ⟨rfl, rfl, by simpa using hH⟩
  | brelse i =>
    obtain ⟨hlock, hclean⟩ := hguard
    obtain ⟨b, σ, H, hg, -, hH, hσ⟩ := hinv.held_of_lock hl hrest hlock
    rw [hg]
    refine Rules.Safe.mono (brelse_safe (hσ hclean)) ?_
    rintro _ _ rfl
    exact ⟨rfl, rfl, hH⟩
  | beginOp =>
    obtain ⟨refs, held, com, op⟩ := g
    obtain ⟨hrefs, hcom, hload⟩ := hrest
    simp only at hrefs hcom hload hop
    have hnone : s.op t = none := hguard
    rw [hop] at hnone
    subst hrefs hcom hnone
    refine .update fun s L hinv hl => ?_
    have hat := Inv.at_ hinv t
    rw [hl] at hat
    unfold St.beginOp
    split
    · rename_i hadm
      refine fun _ => ?_
      obtain ⟨logged, hacc⟩ := Inv.accounts hinv
      refine ⟨_, Inv.relog hinv hl _ _ none (some ∅) (Inv.cache hinv).pins (Inv.cache hinv).idle
        (fun u hu hne => ⟨rfl, rfl⟩) (by simp) ⟨logged, ?_⟩, rfl, rfl, hload⟩
      rw [show (none : Option Commit).map Commit.cleared = (L t).com.map Commit.cleared by
        rw [hl], Function.update_eq_self]
      exact hacc.enter hat.op hadm
    · exact trivial
  | endOp =>
    obtain ⟨refs, held, com, op⟩ := g
    obtain ⟨hrefs, hcom, hload⟩ := hrest
    simp only at hrefs hcom hload hop
    subst hrefs hcom
    have hsome : (s.op t).isSome = true := hguard
    rw [hop] at hsome
    obtain ⟨bs, rfl⟩ := Option.isSome_iff_exists.1 hsome
    exact endOp_safe hload

/-! ## Every run -/

lemma init_inv : Inv d size (St.init N d size) fun _ => ⟨0, 0, none, none⟩ := by
  refine ⟨fun u => ?_, ?_, ?_, ∅, ?_⟩
  · constructor <;> simp [St.init]
  · constructor <;> simp [St.init, St.flat, lastStored, Log.init, Faithful, ROOTDEV]
  · intro i
    simp [St.init, Ghost.uses]
  · constructor <;> simp [St.init, Log.init]

end Xv6.Bio
