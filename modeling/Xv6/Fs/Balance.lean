import Xv6.Fs.Closing
import Xv6.Fs.Failures

/-!
# Calls that leave nothing behind

On every path, failed or not, `link`, `unlink`, `mkdir`, `mknod`, `close` and `exit` come back with
the kernel at rest: a consistent disk, each inode's references counted by the files and working
directories that have it, no lock, no transaction and an empty log.
-/

namespace Xv6.Fs

open Concur

section

variable {N : ℕ} {B : Finset ℕ → ℕ → Prop} {G : Geometry} {t : Fin N} {s : St N}
  {stop : Option Panic → Prop}

lemma syscall_rests (hs : WellFormed G s) (hcwd : (s.proc t).cwd ≠ none) (hroom : Room B G)
    (hstop : ∀ m, stop m) {c : Call} (hc : c.Names ∨ (∃ fd, c = .close fd) ∨ c = .exit) :
    Ends (Fits B) stop (syscall G t c) s fun _ => AtRest G := by
  rcases hc with hnames | ⟨fd, rfl⟩ | rfl
  · refine syscall_names_settles hs hcwd hroom hstop (fun r s2 journal commits h => ?_)
      hs.toAtRest hnames
    obtain ⟨K, n, hc2⟩ := h.holding
    refine .of_holding (t := t) (hc2.congr rfl rfl (.of_nil rfl K n) hc2.fits) (fun k => ?_) ?_ rfl
      fun u => ?_
    · refine (hs.ref_eq k).trans (holders_congr (fun u => ?_) h.frame.ftable k).symm
      rw [h.frame.proc]
    · rw [h.frame.ftable]
      exact hs.unused
    · rw [h.frame.rest]
      show setAt (setAt s.op t true) t false u = false
      rw [setAt_setAt]
      exact setAt_cases (motive := fun _ b => b = false) u rfl fun u _ => hs.op u
  · exact sysClose_ends hroom hs.toAtRest hstop fd
  · obtain ⟨k, hk⟩ := Option.ne_none_iff_exists'.1 hcwd
    exact exit_ends hroom hs.toAtRest hk hstop

end

/-- A call that makes, names or removes an inode, closes a file or ends the process leaves the
kernel at rest, whether it fails or not. -/
theorem call_comes_to_rest {N : ℕ} (G : Geometry) (s : St N) (hs : WellFormed G s) (t : Fin N)
    (hcwd : (s.proc t).cwd ≠ none) (c : Call) (hc : c.Names ∨ (∃ fd, c = .close fd) ∨ c = .exit)
    (r : ℤ) (s' : St N) (hrun : (syscall G t c).Completes s r s') : AtRest G s' := by
  have hends : Ends (Fits fun _ _ => True) (fun _ => True) (syscall G t c) s fun _ => AtRest G :=
    syscall_rests hs hcwd (room_true G) (fun _ => trivial) hc
  exact hends.of_completes (hs.holding (K := ∅) (n := 0) t trivial).toFits hrun

/-- `unlink("/a")` -/
theorem call_comes_to_rest_unlink : ∃ s',
    (syscall smallGeometry 0 (.unlink (some [slash, 97]))).Completes smallState 0 s' ∧
    AtRest smallGeometry s' := by
  have hgo : (Prog.go 200 (syscall smallGeometry 0 (.unlink (some [slash, 97]))) smallState).any
      (fun r => r.1 == 0) = true := by
    decide +kernel
  obtain ⟨r, s', hrun, hr⟩ := Prog.exists_completes_of_go _ hgo
  obtain rfl : r = 0 := eq_of_beq hr
  exact ⟨s', hrun, call_comes_to_rest smallGeometry smallState wellFormed_smallState 0 (by decide)
    (.unlink (some [slash, 97])) (.inl trivial) 0 s' hrun⟩

end Xv6.Fs
