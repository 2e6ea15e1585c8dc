import Xv6.Bio.CacheInvariant

/-!
# The steps of the buffer cache keep the invariant

One lemma for each section of `bio.c` and `log.c`.  The steps that work on the contents of a
buffer whose sleep lock the process holds share `Inv.touch`: they change one buffer and one
block, and no other process has a say in either.
-/

namespace Xv6.Bio

open Concur

variable {N : ℕ}

variable {d : Disk} {size : ℕ} {s s' : St N} {L : Fin N → Ghost} {t : Fin N} {g : Ghost}

/-- The reference that a pin is. -/
def pinRef (s : St N) (i : Fin NBUF) : ℕ := if s.pins (s.buf i).blockno = some i then 1 else 0

lemma Inv.of_step (h : Inv d size s L) (hl : L t = g) (g' : Ghost)
    (hothers : ∀ u, u ≠ t → At d s' u (L u)) (hself : At d s' t g') (hcache : Cache d s')
    (hrefcnt : ∀ j, (s'.buf j).refcnt + g.uses j + pinRef s j =
      (s.buf j).refcnt + g'.uses j + pinRef s' j)
    (hacc : ∃ logged, LogSync.Accounts False size s'.log s'.op logged []
      (Function.update (fun u => (L u).com.map Commit.cleared) t (g'.com.map Commit.cleared))) :
    Inv d size s' (Function.update L t g') := by
  refine ⟨fun u => update_cases u hself hothers, hcache, fun j => ?_, ?_⟩
  · have hsum := sum_comp_update (Ghost.uses j) L t g'
    have hold : (s.buf j).refcnt = ∑ u, (L u).uses j + pinRef s j := h.refcnt j
    have hstep := hrefcnt j
    show (s'.buf j).refcnt = ∑ u, (Function.update L t g' u).uses j + pinRef s' j
    rw [hl] at hsum
    omega
  · rw [comp_update (fun g : Ghost => g.com.map Commit.cleared) L t g']
    exact hacc

lemma Inv.accounts_same (h : Inv d size s L) (hl : L t = g) {g' : Ghost}
    (hcom : g'.com.map Commit.cleared = g.com.map Commit.cleared) :
    ∃ logged, LogSync.Accounts False size s.log s.op logged []
      (Function.update (fun u => (L u).com.map Commit.cleared) t (g'.com.map Commit.cleared)) := by
  obtain ⟨logged, hacc⟩ := h.accounts
  refine ⟨logged, ?_⟩
  rw [hcom, ← hl, Function.update_eq_self]
  exact hacc

lemma HeldOk.congr {u : Fin N} {x : Held} (h : HeldOk d s u x)
    (hbuf : s'.buf x.buf = s.buf x.buf) (hdirty : s'.dirty x.buf = s.dirty x.buf)
    (hdisk : s'.disk x.block = s.disk x.block) (hflat : s'.flat d x.block = s.flat d x.block) :
    HeldOk d s' u x := by
  obtain ⟨h1, h2, h3, h4, h5, h6⟩ := h
  rw [← hbuf] at h1 h2 h3 h4
  rw [← hdirty] at h5
  rw [← hdisk, ← hflat] at h6
  exact ⟨h1, h2, h3, h4, h5, h6⟩

lemma Cache.congr (h : Cache d s) {buf : Fin NBUF → Buf N}
    (hdev : ∀ j, (buf j).dev = (s.buf j).dev) (hvalid : ∀ j, (buf j).valid = (s.buf j).valid)
    (hblock : ∀ j, (buf j).blockno = (s.buf j).blockno) (hdata : ∀ j, (buf j).data = (s.buf j).data)
    (hlock : ∀ j, s.dirty j = true → (buf j).lock ≠ none) : Cache d { s with buf := buf } := by
  refine { h with unique := ?_, dev := ?_, data := ?_, synced := ?_, dirty := hlock, pinned := ?_ }
  · simpa only [hdev, hblock] using h.unique
  · simpa only [hdev, hvalid] using h.dev
  · simp only [hvalid, hdata, hblock]
    exact h.data
  · simp only [hvalid, hblock]
    exact h.synced
  · simpa only [hdev, hvalid, hblock] using h.pinned

lemma HeldOk.setRefcnt {u : Fin N} {x : Held} (h : HeldOk d s u x) (i : Fin NBUF) (n : ℕ) :
    HeldOk d (s.setRefcnt i n) u x :=
  ⟨by simpa using h.lock, by simpa using h.dev, by simpa using h.block,
    by simpa using h.valid, h.dirty, h.synced⟩

lemma At.setRefcnt {u : Fin N} (h : At d s u g) (i : Fin NBUF) (n : ℕ) :
    At d (s.setRefcnt i n) u g :=
  h.frame (by simp) (fun _ _ hx => hx.setRefcnt i n) (by simp) rfl fun _ => ⟨rfl, rfl⟩

lemma Cache.setRefcnt (h : Cache d s) (i : Fin NBUF) (n : ℕ) : Cache d (s.setRefcnt i n) := by
  refine h.congr (setRefcnt_dev s i · n) (setRefcnt_valid s i · n) (setRefcnt_blockno s i · n)
    (setRefcnt_data s i · n) fun j hj => ?_
  have hlock := h.dirty j hj
  rwa [← setRefcnt_lock s i j n] at hlock

lemma pinRef_setRefcnt (i j : Fin NBUF) (n : ℕ) : pinRef (s.setRefcnt i n) j = pinRef s j := by
  simp only [pinRef, setRefcnt_blockno]
  rfl

lemma Inv.hit (h : Inv d size s L) (hl : L t = g) {i : Fin NBUF} (hdev : (s.buf i).dev = ROOTDEV) :
    Inv d size (s.setRefcnt i ((s.buf i).refcnt + 1))
      (Function.update L t { g with refs := (i, (s.buf i).blockno) ::ₘ g.refs }) := by
  have hat := h.self hl
  refine h.of_step hl _ (fun u _ => (h.at_ u).setRefcnt _ _) ?_ (h.cache.setRefcnt _ _) ?_
    (h.accounts_same hl rfl)
  · have hat' := hat.setRefcnt i ((s.buf i).refcnt + 1)
    refine { hat' with refs := ?_ }
    intro r hr
    rcases Multiset.mem_cons.1 hr with rfl | hr
    · simpa using hdev
    · exact hat'.refs r hr
  · intro j
    rw [pinRef_setRefcnt, setRefcnt_refcnt]
    by_cases hj : j = i
    · subst hj
      simp [Ghost.uses]
      omega
    · simp [Ghost.uses, hj]

lemma Inv.recycle (h : Inv d size s L) (hl : L t = g) {i : Fin NBUF} {b : ℕ}
    (hfree : (s.buf i).refcnt = 0)
    (hnew : ∀ j, (s.buf j).dev = ROOTDEV → (s.buf j).blockno ≠ b) :
    Inv d size
      (s.setBuf i { s.buf i with dev := ROOTDEV, blockno := b, valid := false, refcnt := 1 })
      (Function.update L t { g with refs := (i, b) ::ₘ g.refs }) := by
  set s' := s.setBuf i { s.buf i with dev := ROOTDEV, blockno := b, valid := false, refcnt := 1 }
    with hs'
  have hi : s'.buf i = { s.buf i with dev := ROOTDEV, blockno := b, valid := false, refcnt := 1 } :=
    setBuf_buf_self ..
  have hne : ∀ j, j ≠ i → s'.buf j = s.buf j := fun j hj => setBuf_buf_of_ne s hj _
  -- a buffer without references is neither locked nor pinned, and no process knows it
  have hlock : (s.buf i).lock = none := by
    by_contra hlock
    have := h.refcnt_pos_of_lock hlock
    omega
  have hpin : ∀ c, s.pins c ≠ some i := by
    intro c hc
    have := h.refcnt_pos_of_pin hc
    omega
  have huses : ∀ u, (L u).uses i = 0 := by
    intro u
    by_contra hu
    have := h.refcnt_pos (u := u) (i := i) (by omega)
    omega
  have hat : ∀ u, At d s' u (L u) := by
    intro u
    refine (h.at_ u).frame ?_ ?_ ?_ rfl fun _ => ⟨rfl, rfl⟩
    · intro r hr
      have : r.1 ≠ i := by
        rintro rfl
        have := Ghost.uses_pos_of_ref hr
        have := huses u
        omega
      simp [hne _ this]
    · intro x hx hok
      have : x.buf ≠ i := by
        rintro rfl
        have := Ghost.uses_pos_of_held hx
        have := huses u
        omega
      exact hok.congr (hne _ this) rfl rfl rfl
    · intro j hj
      by_cases hji : j = i
      · subst hji
        rw [hi] at hj
        simp [hlock] at hj
      · rwa [hne j hji] at hj
  have hself := hat t
  rw [hl] at hself
  have hvalid : ∀ j, (s'.buf j).valid = true → j ≠ i := by
    rintro j hj rfl
    rw [hi] at hj
    cases hj
  refine h.of_step hl _ (fun u _ => hat u) { hself with refs := ?_ } ?_ ?_ (h.accounts_same hl rfl)
  · intro r hr
    rcases Multiset.mem_cons.1 hr with rfl | hr
    · simp [hi]
    · exact hself.refs r hr
  · have hdirty : ∀ j, s.dirty j = true → j ≠ i := by
      rintro j hj rfl
      exact h.cache.dirty j hj hlock
    refine { h.cache with
      unique := fun j k hj hk hjk => ?_
      dev := fun j hj => ?_
      data := fun j hj => ?_
      synced := fun c => (h.cache.synced c).imp_right ?_
      dirty := fun j hj => ?_
      pinned := fun c j hj => ?_ }
    · by_cases hji : j = i <;> by_cases hki : k = i
      · rw [hji, hki]
      · subst hji
        rw [hne k hki] at hk hjk
        rw [hi] at hjk
        exact absurd hjk.symm (hnew k hk)
      · subst hki
        rw [hne j hji] at hj hjk
        rw [hi] at hjk
        exact absurd hjk (hnew j hj)
      · rw [hne j hji] at hj hjk
        rw [hne k hki] at hk hjk
        exact h.cache.unique j k hj hk hjk
    · have hji := hvalid j hj
      rw [hne j hji] at hj ⊢
      exact h.cache.dev j hj
    · have hji := hvalid j hj
      rw [hne j hji] at hj ⊢
      exact h.cache.data j hj
    · rintro ⟨j, hv, hc, hj⟩
      have hji : j ≠ i := by
        rintro rfl
        exact hj.elim (fun hj => hdirty j hj rfl) (hpin c)
      exact ⟨j, by rwa [hne j hji], by rwa [hne j hji], hj⟩
    · rw [hne j (hdirty j hj)]
      exact h.cache.dirty j hj
    · rw [hne j (by rintro rfl; exact hpin c hj)]
      exact h.cache.pinned c j hj
  · intro j
    by_cases hji : j = i
    · subst hji
      have hp : pinRef s j = 0 := if_neg (hpin _)
      have hp' : pinRef s' j = 0 := if_neg (hpin _)
      have := huses t
      rw [hl] at this
      rw [hp, hp', hi, hfree]
      simp only [Ghost.uses] at this ⊢
      simp
      omega
    · have hp : pinRef s' j = pinRef s j := by
        simp only [pinRef, hne j hji]
        rfl
      rw [hp, hne j hji]
      simp [Ghost.uses, hji]

lemma Cache.setLock (h : Cache d s) {i : Fin NBUF} {x : Option (Fin N)}
    (hx : x = none → s.dirty i = false) : Cache d (s.setLock i x) := by
  refine h.congr (setLock_dev s i · x) (setLock_valid s i · x) (setLock_blockno s i · x)
    (setLock_data s i · x) fun j hj => ?_
  have hlock := setLock_lock s i j x
  split at hlock
  · rename_i hji
    subst hji
    refine fun hnone => Bool.false_ne_true ?_
    rw [← hx (hlock.symm.trans hnone), hj]
  · exact fun hnone => h.dirty j hj (hlock.symm.trans hnone)

lemma pinRef_setLock (i j : Fin NBUF) (x : Option (Fin N)) :
    pinRef (s.setLock i x) j = pinRef s j := by
  simp only [pinRef, setLock_blockno]
  rfl

lemma HeldOk.setLock {u : Fin N} {x : Held} (h : HeldOk d s u x) {i : Fin NBUF}
    (hne : x.buf ≠ i) (y : Option (Fin N)) : HeldOk d (s.setLock i y) u x :=
  ⟨by simpa [hne] using h.lock, by simpa using h.dev, by simpa using h.block,
    by simpa using h.valid, h.dirty, h.synced⟩

variable {i : Fin NBUF} {b : ℕ} {R : Multiset (Fin NBUF × ℕ)} {H : Multiset Held}
  {c : Option Commit} {o : Option (Finset ℕ)} {σ : Hold}

section

variable (h : Inv d size s L)

include h

lemma Inv.acquire (hl : L t = ⟨(i, b) ::ₘ R, H, c, o⟩) (hfree : (s.buf i).lock = none) :
    Inv d size (s.setLock i (some t)) (Function.update L t ⟨R, ⟨i, b, .loading⟩ ::ₘ H, c, o⟩) := by
  have hat := h.self hl
  have hne : ∀ {u : Fin N} {x : Held}, HeldOk d s u x → x.buf ≠ i := by
    rintro u x hx rfl
    rw [hx.lock] at hfree
    cases hfree
  have hclean : s.dirty i = false := by
    by_contra hd
    exact h.cache.dirty i (by simpa using hd) hfree
  refine h.of_step hl _ ?_ ?_ (h.cache.setLock (by simp)) ?_ (h.accounts_same hl rfl)
  · intro u hu
    refine (h.at_ u).frame (by simp) (fun x _ hx => hx.setLock (hne hx) _) ?_ rfl
      fun _ => ⟨rfl, rfl⟩
    intro j hj
    rw [setLock_lock] at hj
    split at hj
    · exact absurd (Option.some.inj hj) (Ne.symm hu)
    · exact hj
  · obtain ⟨hdev, hblock⟩ := hat.refs (i, b) (Multiset.mem_cons_self _ _)
    refine ⟨?_, ?_, ?_, ?_, hat.op, hat.com⟩
    · intro r hr
      simpa using hat.refs r (Multiset.mem_cons_of_mem hr)
    · intro x hx
      rcases Multiset.mem_cons.1 hx with rfl | hx
      · refine ⟨by simp, by simpa using hdev, by simpa using hblock, fun hne => absurd rfl hne, ?_,
          by rintro ⟨⟩⟩
        show s.dirty i = true ↔ _
        simp [hclean]
      · exact (hat.held x hx).setLock (hne (hat.held x hx)) _
    · intro j hj
      rw [setLock_lock] at hj
      split at hj
      · rename_i hji
        exact ⟨_, Multiset.mem_cons_self _ _, hji.symm⟩
      · obtain ⟨x, hx, hxj⟩ := hat.lock j hj
        exact ⟨x, Multiset.mem_cons_of_mem hx, hxj⟩
    · rw [Multiset.map_cons, Multiset.nodup_cons]
      refine ⟨?_, hat.nodup⟩
      intro hmem
      obtain ⟨x, hx, hxi⟩ := Multiset.mem_map.1 hmem
      exact hne (hat.held x hx) hxi
  · intro j
    rw [pinRef_setLock, setLock_refcnt]
    simp only [Ghost.uses, Multiset.map_cons, Multiset.count_cons]
    omega

lemma Inv.release (hl : L t = ⟨R, ⟨i, b, σ⟩ ::ₘ H, c, o⟩) (hσ : σ ≠ .dirty) :
    Inv d size (s.setLock i none) (Function.update L t ⟨(i, b) ::ₘ R, H, c, o⟩) := by
  have hat := h.self hl
  have hok := h.holds hl
  have hclean : s.dirty i = false := by
    by_contra hd
    exact hσ (hok.dirty.1 (by simpa using hd))
  have hnodup := hat.nodup
  rw [Multiset.map_cons, Multiset.nodup_cons] at hnodup
  have hne : ∀ x ∈ H, x.buf ≠ i :=
    fun x hx hxi => hnodup.1 (Multiset.mem_map.2 ⟨x, hx, hxi⟩)
  refine h.of_step hl _ ?_ ?_ (h.cache.setLock fun _ => hclean) ?_ (h.accounts_same hl rfl)
  · intro u hu
    refine (h.at_ u).frame (by simp) (fun x hx hx' => hx'.setLock (h.held_ne hx hok.lock hu) _) ?_
      rfl fun _ => ⟨rfl, rfl⟩
    intro j hj
    rw [setLock_lock] at hj
    split at hj
    · cases hj
    · exact hj
  · refine ⟨?_, ?_, ?_, hnodup.2, hat.op, hat.com⟩
    · intro r hr
      rcases Multiset.mem_cons.1 hr with rfl | hr
      · simpa using ⟨hok.dev, hok.block⟩
      · simpa using hat.refs r hr
    · intro x hx
      exact (hat.held x (Multiset.mem_cons_of_mem hx)).setLock (hne x hx) _
    · intro j hj
      rw [setLock_lock] at hj
      split at hj
      · cases hj
      · rename_i hji
        obtain ⟨x, hx, hxj⟩ := hat.lock j hj
        rcases Multiset.mem_cons.1 hx with rfl | hx
        · exact absurd hxj.symm hji
        · exact ⟨x, hx, hxj⟩
  · intro j
    rw [pinRef_setLock, setLock_refcnt]
    simp only [Ghost.uses, Multiset.map_cons, Multiset.count_cons]
    omega

lemma Inv.unref (hl : L t = ⟨(i, b) ::ₘ R, H, c, o⟩) :
    Inv d size (s.unref i) (Function.update L t ⟨R, H, c, o⟩) := by
  have hat := h.self hl
  have hpos : 0 < (s.buf i).refcnt := by
    refine h.refcnt_pos (u := t) ?_
    rw [hl]
    exact Ghost.uses_pos_of_ref (r := (i, b)) (Multiset.mem_cons_self _ _)
  have hinv : Inv d size (s.setRefcnt i ((s.buf i).refcnt - 1))
      (Function.update L t ⟨R, H, c, o⟩) := by
    refine h.of_step hl _ (fun u _ => (h.at_ u).setRefcnt _ _) ?_ (h.cache.setRefcnt _ _) ?_
      (h.accounts_same hl rfl)
    · have hat' := hat.setRefcnt i ((s.buf i).refcnt - 1)
      exact ⟨fun r hr => hat'.refs r (Multiset.mem_cons_of_mem hr), hat'.held, hat'.lock,
        hat'.nodup, hat'.op, hat'.com⟩
    · intro j
      rw [pinRef_setRefcnt, setRefcnt_refcnt]
      simp only [Ghost.uses, Multiset.map_cons, Multiset.count_cons]
      split
      · rename_i hji
        subst hji
        omega
      · omega
  unfold St.unref
  simp only
  split
  · -- the order of use does not matter as long as every buffer is in the list
    refine ⟨fun u => ?_, { hinv.cache with lru := fun j => ?_ }, hinv.refcnt, hinv.accounts⟩
    · have hu := hinv.at_ u
      exact { hu with held := fun x hx => (hu.held x hx).congr rfl rfl rfl rfl }
    · have hc := hinv.cache
      by_cases hji : j = i
      · simp [hji]
      · exact List.mem_cons_of_mem _ ((List.mem_erase_of_ne hji).2 (hc.lru j))
  · exact hinv

lemma Inv.pins_held (hl : L t = ⟨R, ⟨i, b, σ⟩ ::ₘ H, c, o⟩) :
    s.pins b = none ∨ s.pins b = some i := by
  have hat := h.self hl
  have hok := h.holds hl
  cases hp : s.pins b with
  | none => exact .inl rfl
  | some j =>
    obtain ⟨hdev, hj, -⟩ := h.cache.pinned b j hp
    rw [h.cache.unique j i hdev hok.dev (hj.trans hok.block.symm)]
    exact .inr rfl

lemma Inv.data_held (hl : L t = ⟨R, ⟨i, b, σ⟩ ::ₘ H, c, o⟩)
    (hσ : σ ≠ .loading) : (s.buf i).valid = true ∧ (s.buf i).data = s.flat d b := by
  have hvalid := (h.holds hl).valid hσ
  refine ⟨hvalid, ?_⟩
  rw [h.cache.data i hvalid, (h.holds hl).block]

end

/-- What a step that works on the contents of one held buffer changes at most. -/
structure Touches (d : Disk) (i : Fin NBUF) (b : ℕ) (s s' : St N) : Prop where
  lru : s'.lru = s.lru
  buf : ∀ j, j ≠ i → s'.buf j = s.buf j
  dev : (s'.buf i).dev = (s.buf i).dev
  blockno : (s'.buf i).blockno = (s.buf i).blockno
  lock : (s'.buf i).lock = (s.buf i).lock
  dirty : ∀ j, j ≠ i → s'.dirty j = s.dirty j
  disk : ∀ e, e ≠ b → s'.disk e = s.disk e
  flat : ∀ e, e ≠ b → s'.flat d e = s.flat d e

section

variable (h : Touches d i b s s')

include h

lemma Touches.field {γ : Type} (F : Buf N → γ)
    (hF : F (s'.buf i) = F (s.buf i)) (j : Fin NBUF) : F (s'.buf j) = F (s.buf j) := by
  by_cases hj : j = i
  · rw [hj, hF]
  · rw [h.buf j hj]

lemma Touches.devs (j : Fin NBUF) : (s'.buf j).dev = (s.buf j).dev :=
  h.field Buf.dev h.dev j

lemma Touches.blocknos (j : Fin NBUF) : (s'.buf j).blockno = (s.buf j).blockno :=
  h.field Buf.blockno h.blockno j

lemma Touches.locks (j : Fin NBUF) : (s'.buf j).lock = (s.buf j).lock :=
  h.field Buf.lock h.lock j

end

section

variable (h : Inv d size s L) (hl : L t = ⟨R, ⟨i, b, σ⟩ ::ₘ H, c, o⟩) (ht : Touches d i b s s')

include h hl ht

lemma Inv.at_of_touches (σ' : Hold) (hvalid : (s'.buf i).valid = true)
    (hdirty : s'.dirty i = true ↔ σ' = .dirty)
    (hsynced : σ' = .synced → s'.disk b = s'.flat d b) (c' : Option Commit)
    (o' : Option (Finset ℕ)) (hop : s'.op = Function.update s.op t o')
    (hcom : ∀ u, u ≠ t → (L u).com ≠ none → s'.log.lh = s.log.lh ∧ s'.installed = s.installed)
    (hcom' : ∀ k ∈ c', s'.log.lh = k.lh ∧ s'.installed = k.lh.take k.tail) :
    (∀ u, u ≠ t → At d s' u (L u)) ∧ At d s' t ⟨R, ⟨i, b, σ'⟩ ::ₘ H, c', o'⟩ := by
  have hat := h.self hl
  have hok := h.holds hl
  have hnodup := hat.nodup
  rw [Multiset.map_cons, Multiset.nodup_cons] at hnodup
  have hblock : (s.buf i).blockno = b := hok.block
  have hkeep : ∀ {u : Fin N} {x : Held}, x ∈ (L u).held → x.buf ≠ i → HeldOk d s' u x := by
    intro u x hx hne
    have hblock' := h.block_ne hx hok.dev hne
    rw [hblock] at hblock'
    exact ((h.at_ u).held x hx).congr (ht.buf _ hne) (ht.dirty _ hne) (ht.disk _ hblock')
      (ht.flat _ hblock')
  refine ⟨fun u hu => ?_, ?_⟩
  · refine (h.at_ u).frame (fun r _ => ⟨ht.devs _, ht.blocknos _⟩)
      (fun x hx _ => hkeep hx (h.held_ne hx hok.lock hu)) (fun j hj => ?_) ?_ (hcom u hu)
    · rwa [ht.locks] at hj
    · rw [hop, Function.update_of_ne hu]
  · refine ⟨?_, ?_, ?_, by rwa [Multiset.map_cons, Multiset.nodup_cons], ?_, hcom'⟩
    · intro r hr
      rw [ht.devs, ht.blocknos]
      exact hat.refs r hr
    · intro x hx
      rcases Multiset.mem_cons.1 hx with rfl | hx
      · exact ⟨by rw [ht.lock]; exact hok.lock, by rw [ht.dev]; exact hok.dev,
          by rw [ht.blockno]; exact hok.block, fun _ => hvalid, hdirty, hsynced⟩
      · refine hkeep (u := t) ?_ fun hxi => hnodup.1 (Multiset.mem_map.2 ⟨x, hx, hxi⟩)
        rw [hl]
        exact Multiset.mem_cons_of_mem hx
    · intro j hj
      rw [ht.locks] at hj
      obtain ⟨x, hx, hxj⟩ := hat.lock j hj
      rcases Multiset.mem_cons.1 hx with rfl | hx
      · exact ⟨_, Multiset.mem_cons_self _ _, hxj⟩
      · exact ⟨x, Multiset.mem_cons_of_mem hx, hxj⟩
    · rw [hop, Function.update_self]

lemma Inv.cache_of_touches (hvalid : (s'.buf i).valid = true)
    (hdata : (s'.buf i).data = s'.flat d b)
    (hsync : s'.disk b = s'.flat d b ∨ s'.dirty i = true ∨ s'.pins b = some i)
    (hpins : ∀ e, e ≠ b → s'.pins e = s.pins e)
    (hpin : s'.pins b = none ∨ s'.pins b = some i)
    (hlogged : ∀ e, (s'.pins e).isSome = true ↔ e ∈ s'.log.lh ∧ e ∉ s'.installed)
    (hidle : s'.log.committing = false → s'.installed = [])
    (hfaithful : Faithful d s'.history) : Cache d s' := by
  have hat := h.self hl
  have hok := h.holds hl
  have hblock : (s.buf i).blockno = b := hok.block
  have hblock' : (s'.buf i).blockno = b := ht.blockno.trans hblock
  -- a valid buffer of the block `b` is `i`
  have honly : ∀ j, j ≠ i → (s.buf j).dev = ROOTDEV → (s.buf j).blockno ≠ b := by
    intro j hj hdev heq
    exact hj (h.cache.unique j i hdev hok.dev (heq.trans hblock.symm))
  refine ⟨by rw [ht.lru]; exact h.cache.lru, ?_, ?_, ?_, ?_, ?_, ?_, hlogged, hidle, hfaithful⟩
  · intro j k
    rw [ht.devs, ht.devs, ht.blocknos, ht.blocknos]
    exact h.cache.unique j k
  · intro j hj
    rw [ht.devs]
    by_cases hji : j = i
    · subst hji
      exact hok.dev
    · rw [ht.buf j hji] at hj
      exact h.cache.dev j hj
  · intro j hj
    by_cases hji : j = i
    · subst hji
      rw [hdata, hblock']
    · rw [ht.buf j hji] at hj ⊢
      rw [ht.flat _ (honly j hji (h.cache.dev j hj))]
      exact h.cache.data j hj
  · intro e
    by_cases heb : e = b
    · subst heb
      exact hsync.imp_right fun hs => ⟨i, hvalid, hblock', hs⟩
    · rw [ht.disk e heb, ht.flat e heb, hpins e heb]
      refine (h.cache.synced e).imp_right ?_
      rintro ⟨j, hv, he, hj⟩
      have hji : j ≠ i := by
        rintro rfl
        exact heb (he.symm.trans hblock)
      exact ⟨j, by rwa [ht.buf j hji], by rwa [ht.buf j hji], by rwa [ht.dirty j hji]⟩
  · intro j hj
    rw [ht.locks]
    by_cases hji : j = i
    · subst hji
      rw [hok.lock]
      simp
    · rw [ht.dirty j hji] at hj
      exact h.cache.dirty j hj
  · intro e j hj
    by_cases heb : e = b
    · subst heb
      rcases hpin with hp | hp
      · rw [hp] at hj
        cases hj
      · rw [hp] at hj
        cases hj
        exact ⟨ht.dev.trans hok.dev, hblock', hvalid⟩
    · rw [hpins e heb] at hj
      obtain ⟨hdev, he, hv⟩ := h.cache.pinned e j hj
      have hji : j ≠ i := by
        rintro rfl
        exact heb (he.symm.trans hblock)
      rw [ht.buf j hji]
      exact ⟨hdev, he, hv⟩

lemma Inv.touch (σ' : Hold) (hvalid : (s'.buf i).valid = true)
    (hdata : (s'.buf i).data = s'.flat d b) (hdirty : s'.dirty i = true ↔ σ' = .dirty)
    (hsynced : σ' = .synced → s'.disk b = s'.flat d b)
    (hsync : s'.disk b = s'.flat d b ∨ s'.dirty i = true ∨ s'.pins b = some i)
    (hrefcnt : (s'.buf i).refcnt = (s.buf i).refcnt) (hpins : s'.pins = s.pins)
    (hlog : s'.log = s.log) (hop : s'.op = s.op) (hinst : s'.installed = s.installed)
    (hfaithful : Faithful d s'.history) :
    Inv d size s' (Function.update L t ⟨R, ⟨i, b, σ'⟩ ::ₘ H, c, o⟩) := by
  have hat := h.self hl
  have hok := h.holds hl
  have hpin := h.pins_held hl
  have hop' : s.op t = o := hat.op
  obtain ⟨hothers, hself⟩ := h.at_of_touches hl ht σ' hvalid hdirty hsynced c o
    (by rw [hop, ← hop', Function.update_eq_self]) (fun _ _ _ => ⟨by rw [hlog], hinst⟩)
    (by rw [hlog, hinst]; exact hat.com)
  refine h.of_step hl _ hothers hself
    (h.cache_of_touches hl ht hvalid hdata hsync (fun e _ => by rw [hpins])
      (by rwa [hpins]) ?_ ?_ hfaithful) ?_ ?_
  · rw [hpins, hlog, hinst]
    exact h.cache.pins
  · rw [hlog, hinst]
    exact h.cache.idle
  · intro j
    have hp : pinRef s' j = pinRef s j := by simp only [pinRef, hpins, ht.blocknos]
    have hr : (s'.buf j).refcnt = (s.buf j).refcnt := by
      by_cases hji : j = i
      · subst hji
        exact hrefcnt
      · rw [ht.buf j hji]
    rw [hp, hr]
    simp [Ghost.uses]
  · rw [hlog, hop]
    exact h.accounts_same hl rfl

end

section

variable (h : Inv d size s L)

include h

lemma Inv.load (hl : L t = ⟨R, ⟨i, b, .loading⟩ ::ₘ H, c, o⟩) :
    Inv d size (s.load i) (Function.update L t ⟨R, ⟨i, b, .kept⟩ ::ₘ H, c, o⟩) := by
  have hat := h.self hl
  have hok := h.holds hl
  have hblock : (s.buf i).blockno = b := hok.block
  have hval : (if (s.buf i).valid then (s.buf i).data else s.disk (s.buf i).blockno) =
      s.flat d b := by
    rw [hblock]
    split
    · rename_i hv
      rw [h.cache.data i hv, hblock]
    · rename_i hv
      rcases h.cache.synced b with hs | ⟨j, hv', hj, -⟩
      · exact hs
      · -- the only buffer of the block is this one, which is not valid
        have hji := h.cache.unique j i (h.cache.dev j hv') hok.dev (hj.trans hblock.symm)
        rw [hji] at hv'
        exact absurd hv' hv
  have hclean : s.dirty i ≠ true := fun hd => (by cases hok.dirty.1 hd)
  have hflat : (s.load i).flat d = s.flat d := rfl
  have ht : Touches d i b s (s.load i) :=
    ⟨rfl, fun j hj => setBuf_buf_of_ne s hj _, by simp [St.load], by simp [St.load],
      by simp [St.load], fun _ _ => rfl, fun _ _ => rfl, fun _ _ => rfl⟩
  refine h.touch hl ht .kept ?_ ?_ ?_ (by rintro ⟨⟩) ?_ ?_ rfl rfl rfl rfl ?_
  · simp [St.load]
  · rw [hflat, ← hval]
    simp [St.load]
  · exact iff_of_false hclean (by simp)
  · rcases h.cache.synced b with hs | ⟨j, hv, hj, hd⟩
    · exact .inl hs
    · have hji := h.cache.unique j i (h.cache.dev j hv) hok.dev (hj.trans hblock.symm)
      rw [hji] at hd
      exact .inr hd
  · simp [St.load]
  · exact ⟨by rw [hval, hblock]; rfl, h.cache.faithful⟩

lemma Inv.store (hl : L t = ⟨R, ⟨i, b, σ⟩ ::ₘ H, c, o⟩) (hσ : σ ≠ .loading) (v : Block) :
    Inv d size (s.store i v) (Function.update L t ⟨R, ⟨i, b, .dirty⟩ ::ₘ H, c, o⟩) := by
  have hat := h.self hl
  have hok := h.holds hl
  have hblock : (s.buf i).blockno = b := hok.block
  have hflat : (s.store i v).flat d = Function.update (s.flat d) b v := by
    rw [← hblock]
    rfl
  have ht : Touches d i b s (s.store i v) :=
    ⟨rfl, fun j hj => setBuf_buf_of_ne s hj _, by simp [St.store], by simp [St.store],
      by simp [St.store], fun j hj => Function.update_of_ne hj .., fun _ _ => rfl,
      fun e he => by rw [hflat, Function.update_of_ne he]⟩
  refine h.touch hl ht .dirty ?_ ?_ ?_ (by rintro ⟨⟩) (.inr (.inl ?_)) ?_ rfl rfl rfl
    rfl h.cache.faithful
  · simpa [St.store] using hok.valid hσ
  · rw [hflat, Function.update_self]
    simp [St.store]
  · simp [St.store]
  · simp [St.store]
  · simp [St.store]

lemma Inv.bwrite (hl : L t = ⟨R, ⟨i, b, σ⟩ ::ₘ H, c, o⟩) (hσ : σ ≠ .loading) :
    Inv d size { s with
        disk := Function.update s.disk (s.buf i).blockno (s.buf i).data
        dirty := Function.update s.dirty i false }
      (Function.update L t ⟨R, ⟨i, b, .synced⟩ ::ₘ H, c, o⟩) := by
  have hat := h.self hl
  have hok := h.holds hl
  have hblock : (s.buf i).blockno = b := hok.block
  obtain ⟨hvalid, hdata⟩ := h.data_held hl hσ
  rw [hblock]
  have hdisk : Function.update s.disk b (s.buf i).data b = s.flat d b := by
    rw [Function.update_self, hdata]
  have ht : Touches d i b s { s with
      disk := Function.update s.disk b (s.buf i).data
      dirty := Function.update s.dirty i false } :=
    ⟨rfl, fun _ _ => rfl, rfl, rfl, rfl, fun j hj => Function.update_of_ne hj ..,
      fun e he => Function.update_of_ne he .., fun _ _ => rfl⟩
  refine h.touch hl ht .synced hvalid hdata (by simp) (fun _ => hdisk) (.inl hdisk)
    rfl rfl rfl rfl rfl h.cache.faithful

lemma Inv.copied (hl : L t = g) {x : Held} (hx : x ∈ g.held) (hhold : x.hold ≠ .loading) :
    Inv d size { s with history := .copied x.block (s.buf x.buf).data :: s.history } L := by
  have hok : HeldOk d s t x := (h.self hl).held x hx
  have hdata : (s.buf x.buf).data = s.flat d x.block := by
    rw [h.cache.data _ (hok.valid hhold), hok.block]
  refine ⟨fun u => ?_, { h.cache with faithful := ⟨hdata, h.cache.faithful⟩ }, h.refcnt, h.accounts⟩
  exact (h.at_ u).frame (fun _ _ => ⟨rfl, rfl⟩) (fun y _ hy => hy.congr rfl rfl rfl rfl)
    (fun _ hi => hi) rfl fun _ => ⟨rfl, rfl⟩

lemma Inv.relog (hl : L t = ⟨R, H, c, o⟩) (l' : Log) (inst' : List ℕ)
    (c' : Option Commit) (o' : Option (Finset ℕ))
    (hpins : ∀ e, (s.pins e).isSome = true ↔ e ∈ l'.lh ∧ e ∉ inst')
    (hidle : l'.committing = false → inst' = [])
    (hcom : ∀ u, u ≠ t → (L u).com ≠ none → l'.lh = s.log.lh ∧ inst' = s.installed)
    (hcom' : ∀ k ∈ c', l'.lh = k.lh ∧ inst' = k.lh.take k.tail)
    (hacc : ∃ logged, LogSync.Accounts False size l' (Function.update s.op t o') logged []
      (Function.update (fun u => (L u).com.map Commit.cleared) t (c'.map Commit.cleared))) :
    Inv d size { s with log := l', op := Function.update s.op t o', installed := inst' }
      (Function.update L t ⟨R, H, c', o'⟩) := by
  have hat := h.self hl
  refine h.of_step hl _ (fun u hu => ?_) { hat with
    held := fun y hy => (hat.held y hy).congr rfl rfl rfl rfl
    op := Function.update_self ..
    com := hcom' } { h.cache with pins := hpins, idle := hidle } (fun j => rfl) hacc
  exact (h.at_ u).frame (fun _ _ => ⟨rfl, rfl⟩) (fun y _ hy => hy.congr rfl rfl rfl rfl)
    (fun _ hi => hi) (Function.update_of_ne hu ..) (hcom u hu)

lemma Inv.logWrite (hl : L t = ⟨R, ⟨i, b, σ⟩ ::ₘ H, none, o⟩)
    (hσ : σ ≠ .loading) (hs : St.logWrite t i s = .ok s') :
    Inv d size s' (Function.update L t ⟨R, ⟨i, b, .kept⟩ ::ₘ H, none, o.map (insert b)⟩) := by
  have hat := h.self hl
  have hok := h.holds hl
  have hblock : (s.buf i).blockno = b := hok.block
  have hop : s.op t = o := hat.op
  obtain ⟨hvalid, hdata⟩ := h.data_held hl hσ
  obtain ⟨logged, hacc⟩ := h.accounts
  simp only [St.logWrite, hblock, hop, Outcome.bind_eq_ok] at hs
  obtain ⟨⟨new, l'⟩, hw, hs⟩ := hs
  simp only [Outcome.pure_eq, Outcome.ok.injEq] at hs
  have hacc' := hacc.write (t := t) hw False.elim
  obtain ⟨hout, -, -, rfl, rfl⟩ := Log.write_eq_ok hw
  -- a call is in progress, so there is no commit
  have hcom : s.log.committing = false := by
    by_contra hcom
    have hnone := hacc.isolated (by simpa using hcom)
    have hcount := hacc.count
    simp [hnone] at hcount
    omega
  have hnocom : ∀ u, (L u).com = none := by
    intro u
    cases hu : (L u).com with
    | none => rfl
    | some k =>
      have := hacc.committing u k.cleared (by simp [hu])
      simp [hcom] at this
  have hinst : s.installed = [] := h.cache.idle hcom
  have hpinsiff : ∀ e, (s.pins e).isSome = true ↔ e ∈ s.log.lh := by
    intro e
    simpa [hinst] using h.cache.pins e
  have hpin := h.pins_held hl
  have haccs : ∀ l op, l = { s.log with lh := (Log.record b s.log.lh).2 } →
      op = Function.update s.op t (o.map (insert b)) →
      ∃ logged, LogSync.Accounts False size l op logged []
        (Function.update (fun u => (L u).com.map Commit.cleared) t none) := by
    rintro l op rfl rfl
    refine ⟨insert b logged, ?_⟩
    rw [show (none : Option Bool) = (L t).com.map Commit.cleared by rw [hl]; rfl,
      Function.update_eq_self, ← hop]
    exact hacc'
  by_cases hb : b ∈ s.log.lh
  · -- absorbed: the buffer is pinned already
    rw [Log.record_of_mem hb] at hs haccs
    simp only [Bool.false_eq_true, ↓reduceIte] at hs
    subst hs
    have hpin' : s.pins b = some i := by
      rcases hpin with hp | hp
      · have := (hpinsiff b).2 hb
        simp [hp] at this
      · exact hp
    have ht : Touches d i b s { s with
        op := Function.update s.op t (o.map (insert b))
        dirty := Function.update s.dirty i false } :=
      ⟨rfl, fun _ _ => rfl, rfl, rfl, rfl, fun j hj => Function.update_of_ne hj ..,
        fun _ _ => rfl, fun _ _ => rfl⟩
    obtain ⟨hothers, hself⟩ := h.at_of_touches hl ht .kept hvalid (by simp)
      (by rintro ⟨⟩) none (o.map (insert b)) rfl (fun u _ hu => absurd (hnocom u) hu)
      (by simp)
    exact h.of_step hl _ hothers hself (h.cache_of_touches hl ht hvalid hdata
      (.inr (.inr hpin')) (fun _ _ => rfl) (.inr hpin') h.cache.pins h.cache.idle
      h.cache.faithful) (fun j => by simp [Ghost.uses, pinRef]) (haccs _ _ rfl rfl)
  · -- new in the log: the buffer is pinned now
    rw [Log.record_of_not_mem hb] at hs haccs
    simp only [↓reduceIte] at hs
    have hpin' : s.pins b = none := by
      rcases hpin with hp | hp
      · exact hp
      · exact absurd ((hpinsiff b).1 (by simp [hp])) hb
    have hs' : s' = { s.setRefcnt i ((s.buf i).refcnt + 1) with
        log := { s.log with lh := s.log.lh ++ [b] }
        op := Function.update s.op t (o.map (insert b))
        dirty := Function.update s.dirty i false
        pins := Function.update s.pins b (some i) } := by
      rw [← hs]
      simp only [St.bpin, hblock, hpin']
      rfl
    clear hs
    subst hs'
    have ht : Touches d i b s { s.setRefcnt i ((s.buf i).refcnt + 1) with
        log := { s.log with lh := s.log.lh ++ [b] }
        op := Function.update s.op t (o.map (insert b))
        dirty := Function.update s.dirty i false
        pins := Function.update s.pins b (some i) } :=
      ⟨rfl, fun j hj => setBuf_buf_of_ne s hj _, by simp, by simp, by simp,
        fun j hj => Function.update_of_ne hj .., fun _ _ => rfl, fun _ _ => rfl⟩
    obtain ⟨hothers, hself⟩ := h.at_of_touches hl ht .kept (by simpa using hvalid) (by simp)
      (by rintro ⟨⟩) none (o.map (insert b)) rfl (fun u _ hu => absurd (hnocom u) hu)
      (by simp)
    refine h.of_step hl _ hothers hself (h.cache_of_touches hl ht (by simpa using hvalid)
      (by rw [setRefcnt_data]; exact hdata) (.inr (.inr (Function.update_self ..)))
      (fun e he => Function.update_of_ne he ..) (.inr (Function.update_self ..)) ?_
      (fun _ => hinst) h.cache.faithful) ?_ (haccs _ _ rfl rfl)
    · intro e
      by_cases he : e = b
      · subst he
        simp [hinst, St.setRefcnt, St.setBuf]
      · simp only [Function.update_of_ne he, hpinsiff e]
        simp [hinst, he, St.setRefcnt, St.setBuf]
    · intro j
      by_cases hji : j = i
      · subst hji
        have hp : pinRef s j = 0 := if_neg (by simp [hblock, hpin'])
        rw [hp]
        simp only [pinRef, setRefcnt_refcnt, setRefcnt_blockno, hblock, Function.update_self,
          ↓reduceIte, Ghost.uses, Multiset.map_cons, Multiset.count_cons]
        omega
      · simp only [pinRef, setRefcnt_refcnt, setRefcnt_blockno, hji, ↓reduceIte, Ghost.uses,
          Multiset.map_cons, Multiset.count_cons]
        by_cases hjb : (s.buf j).blockno = b
        · simp [hjb, hpin', Ne.symm hji]
        · simp [Function.update_of_ne hjb]

lemma Inv.bunpin {cl : Bool} {lh : List ℕ} {k : ℕ}
    (hl : L t = ⟨R, ⟨i, b, .synced⟩ ::ₘ H, some ⟨cl, lh, k⟩, o⟩) (hk : lh[k]? = some b) :
    Inv d size (s.bunpin i)
      (Function.update L t ⟨R, ⟨i, b, .synced⟩ ::ₘ H, some ⟨cl, lh, k + 1⟩, o⟩) := by
  have hat := h.self hl
  have hok := h.holds hl
  have hblock : (s.buf i).blockno = b := hok.block
  obtain ⟨hvalid, hdata⟩ := h.data_held hl (by rintro ⟨⟩)
  have hop : s.op t = o := hat.op
  obtain ⟨hlh, hinst⟩ := hat.com _ rfl
  simp only at hlh hinst
  obtain ⟨logged, hacc⟩ := h.accounts
  have hcom : s.log.committing = true := hacc.committing t cl (by rw [hl]; rfl)
  have hothers : ∀ u, u ≠ t → (L u).com = none := by
    intro u hu
    by_contra hne
    exact hu (hacc.unique u t (by simpa [Option.isSome_iff_ne_none] using hne) (by rw [hl]; rfl))
  -- the block is in the header and not yet unpinned
  obtain ⟨hklt, hkb⟩ := List.getElem?_eq_some_iff.1 hk
  have hnodup : lh.Nodup := hlh ▸ hacc.nodup
  have hmem : b ∈ lh := hkb ▸ List.getElem_mem hklt
  have hnot : b ∉ lh.take k := by
    intro hin
    obtain ⟨m, hm, hmb⟩ := List.mem_take_iff_getElem.1 hin
    have := (List.Nodup.getElem_inj_iff hnodup).1 (hmb.trans hkb.symm)
    omega
  have hpin : s.pins b = some i := by
    rcases h.pins_held hl with hp | hp
    · have := (h.cache.pins b).2 ⟨hlh ▸ hmem, hinst ▸ hnot⟩
      simp [hp] at this
    · exact hp
  have hpins : ∀ e, e ≠ b → s.pins e ≠ some i := by
    intro e he hp
    exact he ((h.cache.pinned e i hp).2.1.symm.trans hblock)
  have hpins' : ∀ e, e ≠ b → (s.bunpin i).pins e = s.pins e := fun e he => if_neg (hpins e he)
  have hpinb : (s.bunpin i).pins b = none := if_pos hpin
  have htake : (s.bunpin i).installed = lh.take (k + 1) := by
    show s.installed ++ [(s.buf i).blockno] = _
    rw [hinst, hblock, List.take_add_one, hk]
    rfl
  have ht : Touches d i b s (s.bunpin i) :=
    ⟨rfl, fun j hj => setBuf_buf_of_ne s hj _, by simp [St.bunpin], by simp [St.bunpin],
      by simp [St.bunpin], fun _ _ => rfl, fun _ _ => rfl, fun _ _ => rfl⟩
  have hdata' : ((s.bunpin i).buf i).data = (s.bunpin i).flat d b := by
    rw [St.bunpin, setRefcnt_data, hdata]
    rfl
  obtain ⟨hat', hself⟩ := h.at_of_touches hl ht .synced (by simpa [St.bunpin] using hvalid)
    hok.dirty
    hok.synced (some ⟨cl, lh, k + 1⟩) o (by rw [← hop, Function.update_eq_self]; rfl)
    (fun u hu hne => absurd (hothers u hu) hne)
    (by
      rintro _ ⟨⟩
      exact ⟨hlh, htake⟩)
  refine h.of_step hl _ hat' hself (h.cache_of_touches hl ht (by simpa [St.bunpin] using hvalid)
    hdata' (.inl (hok.synced rfl)) hpins' (.inl hpinb) ?_ ?_ h.cache.faithful) ?_
    (h.accounts_same hl rfl)
  · intro e
    rw [htake]
    have hlog : (s.bunpin i).log.lh = lh := hlh
    rw [hlog, List.take_add_one, hk]
    by_cases he : e = b
    · subst he
      simp [hpinb]
    · rw [hpins' e he, h.cache.pins e, hlh, hinst]
      simp [he]
  · intro hfalse
    have hbusy : (s.bunpin i).log.committing = true := hcom
    rw [hbusy] at hfalse
    cases hfalse
  · intro j
    have hpos := h.refcnt_pos_of_pin hpin
    by_cases hji : j = i
    · subst hji
      have hp : pinRef s j = 1 := if_pos (by rw [hblock]; exact hpin)
      have hp' : pinRef (s.bunpin j) j = 0 := if_neg (by
        rw [ht.blockno, hblock, hpinb]
        simp)
      rw [hp, hp']
      simp only [St.bunpin, setRefcnt_refcnt, ↓reduceIte]
      simp only [Ghost.uses, Multiset.map_cons, Multiset.count_cons]
      omega
    · have hp : pinRef (s.bunpin i) j = pinRef s j := by
        simp only [pinRef, ht.blocknos]
        by_cases hjb : (s.buf j).blockno = b
        · rw [hjb, hpinb, hpin]
          simp [Ne.symm hji]
        · rw [hpins' _ hjb]
      rw [hp, ht.buf j hji]
      simp [Ghost.uses]

end

end Xv6.Bio
