import Xv6Kernel.File.Verified

/-!
# The references to open files are right

Whenever no call is in progress, the reference count of a file is the number of descriptors for it,
and the flags of a pipe say which of its ends are open files.
-/

namespace Xv6

open Protocol

variable {N : ℕ}
variable {s : FileSys N} {η : ℕ → ℤ}

/-- The number of pairs of a process and a descriptor that point to `f`. -/
def FileSys.slots (s : FileSys N) (f : Fin NFILE) : ℕ :=
  (Finset.univ.filter fun x : Fin N × Fin NOFILE => s.ofile x.1 x.2 = some f).card

def FileSys.OpenEnd (s : FileSys N) (n : ℕ) (writable : Bool) (f : Fin NFILE) : Prop :=
  0 < (s.file f).ref ∧ (s.file f).IsEnd n writable

structure FileSys.Consistent (s : FileSys N) : Prop where
  refs : ∀ f, (s.file f).ref = s.slots f
  none : ∀ f, (s.file f).ref = 0 → (s.file f).type = .FD_NONE
  ends : ∀ n e, s.pipe n = some e → ∀ w, e.isOpen w = true ↔ ∃ f, s.OpenEnd n w f
  /-- A page holds a pipe exactly when an open file is one of its ends. -/
  live : ∀ n, (s.pipe n).isSome = true ↔ ∃ w f, s.OpenEnd n w f

lemma FileSys.slots_eq (s : FileSys N) (f : Fin NFILE) : s.slots f = ∑ q, (s.ofile q).count f := by
  unfold FileSys.slots FdRow.count
  rw [Finset.card_filter, Fintype.sum_prod_type]

lemma FileInv.openEnds_pos (h : FileInv s η fun _ => .idle) (n : ℕ)
    (w : Bool) : 0 < s.openEnds n w ↔ ∃ f, s.OpenEnd n w f := by
  constructor
  · intro hpos
    obtain ⟨y, hy⟩ := (h.pipes.ends n w).exists_pos hpos
    cases y with
    | inl f =>
      have hend : (s.file f).IsEnd n w := by
        by_contra hno
        simp [endHolders, hno] at hy
      refine ⟨f, Nat.pos_of_ne_zero fun h0 => ?_, hend⟩
      cases (h.refs.none f h0).symm.trans hend.1
    | inr q => exact absurd hy (lt_irrefl 0)
  · rintro ⟨f, -, hend⟩
    have hle := (h.pipes.ends n w).le (.inl f)
    simp only [endHolders, hend, if_true] at hle
    omega

lemma FileInv.consistent (h : FileInv s η fun _ => .idle) : s.Consistent := by
  have hflag : ∀ n e, s.pipe n = some e → ∀ w, e.isOpen w = true ↔ ∃ f, s.OpenEnd n w f := by
    intro n e he w
    rw [← h.openEnds_pos n w]
    cases hw : e.isOpen w <;> simp [FileSys.openEnds, he, hw]
  refine ⟨fun f => ?_, h.refs.none, hflag, fun n => ⟨fun hlive => ?_, ?_⟩⟩
  · have hsum := (h.refs.shares f).sum
    rw [s.slots_eq]
    simp only [share, FileGhost.idle, Pi.zero_apply, add_zero] at hsum
    exact_mod_cast hsum.symm
  · obtain ⟨e, he⟩ := Option.isSome_iff_exists.mp hlive
    -- a pipe whose ends are both closed would be held by the process that frees it
    have hne : e ≠ .closed := by
      rintro rfl
      have hzero := (h.pipes.free n).eq_zero fun q => if_neg (by simp [FileGhost.idle])
      simp [he] at hzero
    have hopen : ∃ w, e.isOpen w = true := by
      by_contra hno
      have hr : e.readopen = false := Bool.eq_false_iff.mpr fun hr => hno ⟨false, hr⟩
      have hw : e.writeopen = false := Bool.eq_false_iff.mpr fun hw => hno ⟨true, hw⟩
      refine hne ?_
      cases e
      simp_all [PipeFlags.closed]
    obtain ⟨w, hw⟩ := hopen
    exact ⟨w, (hflag n e he w).mp hw⟩
  · rintro ⟨w, hf⟩
    have hpos := (h.openEnds_pos n w).mpr hf
    cases he : s.pipe n with
    | none => simp [FileSys.openEnds, he] at hpos
    | some e => rfl

/-- How often the page `n` was taken for a pipe. -/
def pipesMade (n : ℕ) (tr : List (Fin N × FileAct)) : ℕ :=
  tr.countP fun e => e.2 = .newPipe n

def pipesFreed (n : ℕ) (tr : List (Fin N × FileAct)) : ℕ :=
  tr.countP fun e => e.2 = .freePipe n

lemma file_hist (tr : List (Fin N × FileAct)) (n : ℕ) :
    (fileProtocol N).hist (fun _ => 0) tr n = (pipesMade n tr : ℤ) - pipesFreed n tr := by
  induction tr using List.reverseRecOn with
  | nil => rfl
  | append_singleton tr e ih =>
    obtain ⟨p, l⟩ := e
    rw [hist_append, hist_singleton]
    show l.count ((fileProtocol N).hist (fun _ => 0) tr) n = _
    cases l with
    | newPipe m =>
      by_cases hn : n = m
      · subst hn
        simp [FileAct.count, ih, pipesMade, pipesFreed]
        omega
      · simp [FileAct.count, ih, pipesMade, pipesFreed, hn, Ne.symm hn]
    | freePipe m =>
      by_cases hn : n = m
      · subst hn
        simp [FileAct.count, ih, pipesMade, pipesFreed]
        omega
      · simp [FileAct.count, ih, pipesMade, pipesFreed, hn, Ne.symm hn]
    | _ => simp [FileAct.count, ih, pipesMade, pipesFreed]

lemma fileInv_init (initproc : Fin N) :
    FileInv (FileSys.init initproc) (fun _ => 0) fun _ => .idle := by
  refine ⟨⟨?_, ?_, ?_, fun _ _ => rfl⟩, ⟨fun f => ?_, fun _ _ => rfl, ?_⟩,
    ⟨fun n w => ?_, fun n => ?_⟩, fun _ => rfl, fun _ => rfl⟩
  · intro q r hq
    cases hq
  · intro q i r hq
    cases hq
  · intro q q' i r r' hq
    cases hq
  · have hzero : share (FileSys.init initproc) (fun _ => .idle) f = fun _ => 0 := by
      funext q
      simp [share, FileSys.init, FileGhost.idle, FdRow.count]
    rw [hzero]
    exact Shares.zero
  · intro q f hf
    exact hf.elim
  · have hzero : endHolders (FileSys.init initproc) (fun _ => .idle) n w = fun _ => 0 := by
      funext y
      cases y <;> simp [endHolders, FileSys.init, FileGhost.idle, File.IsEnd]
    rw [hzero]
    exact Shares.zero
  · exact Shares.zero

/-- The references to open files are right in every run of the calls, with all their failures.  No call
panics for want of a reference or uses a pipe that was freed (only the exit of the first process panics);
when no call is in progress the counts, the kinds and the flags of the pipes agree with the descriptors;
every page taken for a pipe is freed once, and then both ends are closed; and no transaction starts
inside another one. -/
theorem open_file_references {initproc : Fin N} {tr : List (Fin N × FileAct)}
    {c : Config (FileSys N) FileAct (Fin N)}
    (hex : Exec (fileMachine initproc) anyAction (.idle (.init initproc)) tr c) :
    (∀ msg, c.panicked = some msg → msg = "init exiting") ∧
    (c.Quiescent → c.st.Consistent) ∧
    (∀ n, pipesMade n tr = pipesFreed n tr + if (c.st.pipe n).isSome then 1 else 0) ∧
    (∀ p n d, Step (fileMachine initproc) anyAction c [(p, .freePipe n)] d →
      c.st.pipe n = some .closed) ∧
    ∀ p d, Step (fileMachine initproc) anyAction c [(p, .beginOp)] d → c.st.inOp p = false := by
  have hH := (fileMachine_verified initproc).exec (.idle (fileInv_init initproc)) hex
  refine ⟨hH.panicked, fun hq => ?_, fun n => ?_, fun p n d hs => ?_, fun p d hs => ?_⟩
  · obtain ⟨γ, hinv, hth⟩ := hH.ghost
    have hidle : γ = fun _ => .idle := by
      funext p
      have hp := hth p
      rwa [hq p] at hp
    rw [hidle] at hinv
    exact FileInv.consistent hinv
  · obtain ⟨γ, hinv, -⟩ := hH.ghost
    have hlive := FileInv.live hinv n
    rw [file_hist] at hlive
    split_ifs at hlive ⊢ <;> omega
  · exact (hH.action hs).1
  · exact (hH.action hs).1

instance {initproc : Fin N} (s : FileSys N) (p : Fin N) (x : (fileMachine initproc).Call) :
    Decidable ((fileMachine initproc).ready s p x) :=
  inferInstanceAs (Decidable (s.state p = .RUNNABLE))

def opener : Fin 8 := 0

/-- The first process makes a pipe in the page 1; then the files, the descriptors and the pipe agree. -/
theorem open_file_references_pipe : ∃ tr c,
    Exec (fileMachine opener) anyAction (.idle (.init opener)) tr c ∧
      c.st.pipe 1 = some ⟨true, true⟩ ∧ c.st.Consistent := by
  have hplay : (Config.idle (FileSys.init opener)).playTest (fileMachine opener)
      (.start opener .pipe :: List.replicate 11 (.go opener 1))
      (fun _ d => ((List.finRange 8).all fun p => (d.run p).isNone) &&
        d.st.pipe 1 == some ⟨true, true⟩) = true := by
    decide +kernel
  obtain ⟨tr, c, hex, htest⟩ := Config.exists_of_playTest hplay
  simp only [Bool.and_eq_true, List.all_eq_true, Option.isNone_iff_eq_none, beq_iff_eq] at htest
  exact ⟨tr, c, hex, htest.2,
    (open_file_references hex).2.1 fun p => htest.1 p (List.mem_finRange p)⟩

end Xv6
