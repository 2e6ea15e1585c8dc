import Xv6.Fs.Closing
import Xv6.Fs.Failures

/-!
# The log reservation of the calls

Every call other than `write`, run alone, logs at most `MAXOPBLOCKS` blocks in each of its
transactions, if the bitmap is one block.  The most are logged by `mkdir`: the bitmap, the blocks of
the two inodes, and for each of three entries a block of the directory and perhaps a new indirect
block.
-/

namespace Xv6.Fs

open Concur

/-- At most `MAXOPBLOCKS` blocks. -/
def InReservation (K : Finset ℕ) (n : ℕ) : Prop := K.card + n ≤ MAXOPBLOCKS

lemma card_inodeBlocks_le {G : Geometry} (hG : G.size / BPB = 0) (i j : ℕ) :
    (inodeBlocks G i j).card ≤ 3 := by
  have hbit : G.bitmap.card ≤ 1 := by
    refine Finset.card_image_le.trans ?_
    rw [hG, Finset.card_range]
  have h1 := Finset.card_union_le (G.bitmap ∪ {G.IBLOCK i}) {G.IBLOCK j}
  have h2 := Finset.card_union_le G.bitmap {G.IBLOCK i}
  rw [Finset.card_singleton] at h1 h2
  rw [inodeBlocks]
  omega

lemma room_inReservation {G : Geometry} (hG : G.size / BPB = 0) : Room InReservation G := by
  refine ⟨fun i j => ?_, fun K K' n n' hK hn h => ?_⟩
  · have := card_inodeBlocks_le hG i j
    rw [InReservation, MAXOPBLOCKS]
    omega
  · have := Finset.card_le_card hK
    rw [InReservation] at h ⊢
    omega

/-- The calls of one transaction, and those that put inodes back. -/
def Call.Reserves : Call → Prop
  | .open _ _ | .link _ _ | .unlink _ | .mkdir _ | .mknod _ _ _ | .chdir _ | .close _
  | .exec _ _ _ | .exit => True
  | _ => False

lemma syscall_reserves_ends {N : ℕ} {B : Finset ℕ → ℕ → Prop} {G : Geometry} {t : Fin N}
    {s : St N} {stop : Option Panic → Prop} (hs : WellFormed G s) (hcwd : (s.proc t).cwd ≠ none)
    (hroom : Room B G) (hstop : ∀ m, stop m) {c : Call} (hc : c.Reserves) :
    Ends (Fits B) stop (syscall G t c) s fun _ _ => True := by
  have hB : B ∅ 0 := hroom.of_subset (i := 0) (j := 0) (Finset.empty_subset _) (Nat.zero_le _)
  have hhold := hs.holding (K := ∅) (n := 0) t hB
  have hr := hs.ready hcwd
  cases c with
  | «open» path omode =>
    exact (sysOpen_ends hs hcwd hroom hstop path omode).mono fun _ _ _ => trivial
  | link old new =>
    exact (syscall_names_ends hs hcwd hroom hstop (c := .link old new) trivial).mono
      fun _ _ _ => trivial
  | unlink path =>
    exact (syscall_names_ends hs hcwd hroom hstop (c := .unlink path) trivial).mono
      fun _ _ _ => trivial
  | mkdir path =>
    exact (syscall_names_ends hs hcwd hroom hstop (c := .mkdir path) trivial).mono
      fun _ _ _ => trivial
  | mknod path major minor =>
    exact (syscall_names_ends hs hcwd hroom hstop (c := .mknod path major minor) trivial).mono
      fun _ _ _ => trivial
  | chdir path =>
    refine transaction_ends (Q := fun _ _ => True) hhold hs.log (fun _ => hstop _)
      (fun s1 hs1 hc1 => ?_) fun r s2 journal commits _ => ?_
    · have hr1 : Ready G t (refsOf s) s1 := by
        rw [hs1]
        exact ⟨hr.anchored, hr.cwd⟩
      cases hpath : argstr path with
      | none => exact .ret ⟨trivial, rfl, _, _, _, _, _, hc1⟩
      | some p =>
        exact (chdir_ends hroom hc1 hr1 hstop (zero_notMem_of_argstr hpath)).mono
          fun _ _ h => ⟨trivial, h⟩
    · cases r with
      | none => exact .ret trivial
      | some ip =>
        refine Ends.seq (P := fun _ _ => True) (Ends.modify ?_ trivial) fun _ _ _ => .ret trivial
        exact ⟨∅, 0, .of_nil rfl ∅ 0, hB⟩
  | close fd => exact (sysClose_ends hroom hs.toAtRest hstop fd).mono fun _ _ _ => trivial
  | exec path mem rest =>
    rw [syscall, sysExec]
    cases hpath : argstr path with
    | none => exact .ret trivial
    | some p => exact exec_ends hhold hr hs.log hstop (zero_notMem_of_argstr hpath) mem rest
  | exit =>
    obtain ⟨k, hk⟩ := Option.ne_none_iff_exists'.1 hcwd
    exact (exit_ends hroom hs.toAtRest hk hstop).mono fun _ _ _ => trivial
  | dup | read | write | fstat => exact absurd hc not_false

/-- Every call but `write` fits its log reservation. -/
theorem calls_fit_reservation {N : ℕ} (G : Geometry) (hG : G.size / BPB = 0) (s : St N)
    (hs : WellFormed G s) (t : Fin N) (hcwd : (s.proc t).cwd ≠ none) (c : Call) (hc : c.Reserves)
    (p : Routine N ℤ) (s' : St N) (hrun : (syscall G t c).Runs s p s') :
    s'.log.lh.Nodup ∧ s'.log.lh.length ≤ MAXOPBLOCKS := by
  have hends : Ends (Fits InReservation) (fun _ => True) (syscall G t c) s fun _ _ => True :=
    syscall_reserves_ends hs hcwd (room_inReservation hG) (fun _ => trivial) hc
  obtain ⟨⟨K, n, hlog, hB⟩, -⟩ := hends.of_runs (hs.toAtRest.toFits (room_inReservation hG)) hrun
  exact ⟨hlog.nodup, hlog.length_le.trans hB⟩

/-- In `mkdir("/b")`, before `end_op`, four block numbers are in the log. -/
theorem calls_fit_reservation_mkdir : smallGeometry.size / BPB = 0 ∧
    WellFormed smallGeometry smallState ∧ ∃ p s',
      (syscall smallGeometry 0 (.mkdir (some [slash, 98]))).Runs smallState p s' ∧
      s'.log.lh.length = 4 ∧ s'.log.lh.length ≤ MAXOPBLOCKS := by
  have hlen : (Prog.advance 40 (syscall smallGeometry 0 (.mkdir (some [slash, 98])))
      smallState).2.log.lh.length = 4 := by
    decide +kernel
  have hrun := Prog.runs_advance 40 (syscall smallGeometry 0 (.mkdir (some [slash, 98]))) smallState
  have hG : smallGeometry.size / BPB = 0 := by decide
  exact ⟨hG, wellFormed_smallState, _, _, hrun, hlen, (calls_fit_reservation smallGeometry hG
    smallState wellFormed_smallState 0 (by decide) (.mkdir (some [slash, 98])) trivial _ _ hrun).2⟩

end Xv6.Fs
