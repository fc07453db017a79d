import Xv6Kernel.Log.Crash
import Xv6Kernel.Mkfs.WellFormed

/-!
# The lives of a file system

The log of an image of `mkfs` is empty, so that the kernel boots on it as it is.  From there a life
of the machine is a run, a crash at any point of it, and a recovery, after which the next life
begins.
-/

namespace Xv6.Mkfs

/-- The log as the superblock of `mkfs` describes it, on `ROOTDEV`. -/
def geom : LogGeom := ⟨1, logstart, nlog, smallGeom.dev_ne, smallGeom.bound⟩

variable {ι : Type} [DecidableEq ι] [Fintype ι] {p₀ : ι} {d e S : ℕ → Block}
  {trs : List (List (ι × LogAct))} {fs : List Input} {s : Image}

/-- Lives from the disk `d` on, with their runs, that leave the disk `e`. -/
inductive Lives (p₀ : ι) : (ℕ → Block) → List (List (ι × LogAct)) → (ℕ → Block) → Prop where
  | nil (d : ℕ → Block) : Lives p₀ d [] d
  | cons {d d' e : ℕ → Block} {tr : List (ι × LogAct)} {trs : List (List (ι × LogAct))}
      {c : Config (LogSys ι) LogAct ι}
      (hrun : Exec (logMachine geom p₀) (OnLogDev geom) (.idle (LogSys.boot geom d)) tr c)
      (hrec : Recovers geom p₀ c.st.disk d') (h : Lives p₀ d' trs e) : Lives p₀ d (tr :: trs) e

/-- The contents `S` become `T`: of each run a number of groups of transactions remains, all but
possibly the last one, with every group that was durable or whose `commit` returned. -/
def Survives (S : ℕ → Block) : List (List (ι × LogAct)) → (ℕ → Block) → Prop
  | [], T => T = S
  | tr :: trs, T => ∃ k S', k ≤ (LogHist.run geom S tr).closed ∧
      (LogHist.run geom S tr).closed ≤ k + 1 ∧ (LogHist.run geom S tr).durable ≤ k ∧
      (LogHist.run geom S tr).returned ≤ k ∧ (LogHist.run geom S tr).states[k]? = some S' ∧
      Survives S' trs T

lemma Lives.survives (h : Lives p₀ d trs e) (hd : Recoverable geom d S) :
    ∃ T, Survives S trs T ∧ Recoverable geom e T := by
  induction h generalizing S with
  | nil => exact ⟨S, rfl, hd⟩
  | cons hrun hrec _ ih =>
    obtain ⟨k, S', h1, h2, h3, h4, h5, hS⟩ := recoverable_state hd hrun
    obtain ⟨T, hT, he⟩ := ih ⟨[], hrec.eq hS⟩
    exact ⟨T, ⟨k, S', h1, h2, h3, h4, h5, hT⟩, he⟩

lemma recoverable (h : mkfs fs = some s) (hfits : s.Fits) : Recoverable geom s.disk s.disk := by
  obtain ⟨s1, ty, data, hb, rfl⟩ := mkfs_built h hfits
  have hzero : finalDisk s1 logstart = Bytes.zero BSIZE := by
    rw [finalDisk_of_ne (by decide) (by decide), hb.contents.front _ (.inl (by decide))]
    rfl
  have hhead : Log.decode (finalDisk s1 logstart) = [] := by
    rw [hzero]
    decide +kernel
  exact ⟨[], hhead, ⟨.nil, by simp, by simp, by decide, by decide⟩, by simp, fun _ _ _ => rfl⟩

/-- From an image of `mkfs`, after any number of lives, the disk recovers to contents in which of
each life a number of groups of transactions has survived. -/
theorem mkfs_survives (h : mkfs fs = some s) (hfits : s.Fits) (hl : Lives p₀ s.disk trs e) :
    ∃ T, Survives s.disk trs T ∧ ∀ e', Recovers geom p₀ e e' →
      (∀ n, ¬geom.Area n → e' n = T n) ∧ Log.decode (e' logstart) = [] := by
  obtain ⟨T, hT, he⟩ := hl.survives (recoverable h hfits)
  refine ⟨T, hT, fun e' hrec => ?_⟩
  have hdisk := hrec.eq he
  exact ⟨fun n ha => hdisk.home n ha (by simp), hdisk.head⟩

/-- A life on the image of one file: a transaction commits, the machine crashes before the block is
installed, and the recovery installs it. -/
theorem mkfs_survives_commit : ∃ s tr e, mkfs [⟨[97], [[1, 2], [3]]⟩] = some s ∧ s.Fits ∧
    Lives proc s.disk [tr] e ∧ (LogHist.run geom s.disk tr).durable = 1 ∧
    ∃ T, Survives s.disk [tr] T ∧ ∀ e', Recovers geom proc e e' →
      (∀ n, ¬geom.Area n → e' n = T n) ∧ Log.decode (e' logstart) = [] := by
  have hrun : (mkfs [⟨[97], [[1, 2], [3]]⟩]).any
      (fun s => decide s.Fits && crashTest s.disk) = true := by
    decide +kernel
  obtain ⟨s, hs, htest⟩ := exists_of_any hrun
  rw [Bool.and_eq_true, decide_eq_true_eq] at htest
  obtain ⟨hfits, hcrash⟩ := htest
  obtain ⟨tr, c, e, hexec, hdurable, hrec⟩ := exists_of_crashTest hcrash
  have hlives : Lives proc s.disk [tr] e := .cons hexec hrec (.nil _)
  exact ⟨s, tr, e, hs, hfits, hlives, hdurable, mkfs_survives hs hfits hlives⟩

end Xv6.Mkfs
