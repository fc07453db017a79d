import Xv6Kernel.Foundation.Shares
import Xv6Kernel.File.Model
import Xv6Kernel.Foundation.Ownership

/-!
# The references to open files

The invariant behind the reference counts.  Every process has a share in the count of a file: the
number of its descriptors for the file, corrected by what its call has still to do (`extra`).

An end of a pipe is a token, held by the file that is this end, or by the process that makes or
closes it.
-/

namespace Xv6

open Function

variable {N : ℕ}
variable {r r' : FdRow} {i : Fin N} {f : Fin NFILE}
variable {x : File} {d : ℤ}

structure FileGhost (N : ℕ) where
  row : Option FdRow
  extra : Fin NFILE → ℤ
  fresh : Set (Fin NFILE)
  ends : ℕ → Bool → ℤ
  free : Option ℕ
  child : Option (Fin N × FdRow)
  op : Bool

def FileGhost.idle : FileGhost N := ⟨none, 0, ∅, 0, none, none, false⟩

@[irreducible] def FdRow.count (r : FdRow) (f : Fin NFILE) : ℕ :=
  ∑ fd, if r fd = some f then 1 else 0

def share (s : FileSys N) (γ : Fin N → FileGhost N) (f : Fin NFILE) (q : Fin N) : ℤ :=
  (s.ofile q).count f + (γ q).extra f

def File.IsEnd (x : File) (n : ℕ) (writable : Bool) : Prop :=
  x.type = .FD_PIPE ∧ x.pipe = n ∧ x.writable = writable

instance (x : File) (n : ℕ) (writable : Bool) : Decidable (x.IsEnd n writable) :=
  inferInstanceAs (Decidable (_ ∧ _ ∧ _))

def FileSys.openEnds (s : FileSys N) (n : ℕ) (writable : Bool) : ℤ :=
  if (s.pipe n).any fun e => e.isOpen writable then 1 else 0

def endHolders (s : FileSys N) (γ : Fin N → FileGhost N) (n : ℕ) (writable : Bool) :
    Fin NFILE ⊕ Fin N → ℤ
  | .inl f => if (s.file f).IsEnd n writable then 1 else 0
  | .inr q => (γ q).ends n writable

structure RowInv (s : FileSys N) (γ : Fin N → FileGhost N) : Prop where
  own : ∀ q r, (γ q).row = some r → s.ofile q = r ∧ s.state q = .RUNNABLE
  /-- A process in `fork` knows the descriptors of the child. -/
  child : ∀ q i r, (γ q).child = some (i, r) → s.ofile i = r ∧ s.state i = .USED
  inj : ∀ q q' i r r', (γ q).child = some (i, r) → (γ q').child = some (i, r') → q = q'
  /-- An entry of the process table that is not in use has no descriptors. -/
  dead : ∀ i, s.state i = .UNUSED ∨ s.state i = .ZOMBIE → s.ofile i = fun _ => none

structure RefInv (s : FileSys N) (γ : Fin N → FileGhost N) : Prop where
  shares : ∀ f, Shares ((s.file f).ref : ℤ) (share s γ f)
  none : ∀ f, (s.file f).ref = 0 → (s.file f).type = .FD_NONE
  fresh : ∀ q f, f ∈ (γ q).fresh →
    (s.file f).ref = 1 ∧ (s.file f).type = .FD_NONE ∧ 1 ≤ share s γ f q

structure EndInv (s : FileSys N) (γ : Fin N → FileGhost N) : Prop where
  ends : ∀ n w, Shares (s.openEnds n w) (endHolders s γ n w)
  free : ∀ n, Shares (if s.pipe n = some .closed then 1 else 0)
    fun q => if (γ q).free = some n then 1 else 0

/-- The invariant; the history counts, for each page, how often it was taken and not freed. -/
structure FileInv (s : FileSys N) (η : ℕ → ℤ) (γ : Fin N → FileGhost N) : Prop where
  rows : RowInv s γ
  refs : RefInv s γ
  pipes : EndInv s γ
  ops : ∀ q, s.inOp q = (γ q).op
  live : ∀ n, η n = if (s.pipe n).isSome then 1 else 0

/-! ## The descriptors -/

lemma FdRow.count_update (r : FdRow) (fd : Fin NOFILE) (v : Option (Fin NFILE))
    (f : Fin NFILE) : (FdRow.count (update r fd v) f : ℤ) =
      r.count f + (if v = some f then 1 else 0) - (if r fd = some f then 1 else 0) := by
  have h := sum_update_add (fun v : Option (Fin NFILE) => if v = some f then 1 else 0) r fd v
  unfold FdRow.count
  split_ifs at h ⊢ <;> omega

lemma FdRow.one_le_count {fd : Fin NOFILE} (h : r fd = some f) : 1 ≤ r.count f := by
  have hle := Finset.single_le_sum (f := fun fd => if r fd = some f then 1 else 0)
    (fun _ _ => Nat.zero_le _) (Finset.mem_univ fd)
  simpa [FdRow.count, h] using hle

section Steps

variable {s s' : FileSys N} {γ : Fin N → FileGhost N} {p : Fin N} {g : FileGhost N}

section

variable (h : RowInv s γ)
include h

lemma RowInv.keep (hof : s'.ofile = s.ofile) (hst : s'.state = s.state)
    (hrow : g.row = (γ p).row) (hch : g.child = (γ p).child) : RowInv s' (update γ p g) := by
  have hrow' : ∀ q, (update γ p g q).row = (γ q).row := by
    intro q
    by_cases hq : q = p
    · rw [hq, update_self, hrow]
    · rw [update_of_ne hq]
  have hch' : ∀ q, (update γ p g q).child = (γ q).child := by
    intro q
    by_cases hq : q = p
    · rw [hq, update_self, hch]
    · rw [update_of_ne hq]
  refine ⟨fun q r hq => ?_, fun q i r hq => ?_, fun q q' i r r' hq hq' => ?_, fun i hi => ?_⟩
  · rw [hof, hst]
    exact h.own q r (hrow' q ▸ hq)
  · rw [hof, hst]
    exact h.child q i r (hch' q ▸ hq)
  · exact h.inj q q' i r r' (hch' q ▸ hq) (hch' q' ▸ hq')
  · rw [hof]
    exact h.dead i (hst ▸ hi)

lemma RowInv.setRow (hr : (γ p).row = some r) (hrow : g.row = some r')
    (hch : g.child = (γ p).child) : RowInv (s.setRow p r') (update γ p g) := by
  obtain ⟨h1, h2, h3, h4⟩ := h
  constructor <;> simp only [FileSys.setRow, update_apply] <;> grind

lemma RowInv.setChild (hc : (γ p).child = some (i, r)) (hrow : g.row = (γ p).row)
    (hch : g.child = some (i, r')) : RowInv (s.setRow i r') (update γ p g) := by
  obtain ⟨h1, h2, h3, h4⟩ := h
  constructor <;> simp only [FileSys.setRow, update_apply] <;> grind

lemma RowInv.enter (hrow : ∀ r, g.row = some r → s.ofile p = r ∧ s.state p = .RUNNABLE)
    (hch : g.child = (γ p).child) : RowInv s (update γ p g) := by
  obtain ⟨h1, h2, h3, h4⟩ := h
  refine ⟨?_, ?_, ?_, h4⟩ <;> simp only [update_apply] <;> grind

lemma RowInv.claim (hi : s.state i = .UNUSED) (hrow : g.row = (γ p).row)
    (hch : g.child = some (i, fun _ => none)) :
    RowInv { s with state := update s.state i .USED } (update γ p g) := by
  obtain ⟨h1, h2, h3, h4⟩ := h
  constructor <;> simp only [update_apply] <;> grind

lemma RowInv.release {x : ProcState} (hc : (γ p).child = some (i, r))
    (hx : x = .RUNNABLE ∨ x = .UNUSED ∧ r = fun _ => none) (hrow : g.row = (γ p).row)
    (hch : g.child = none) :
    RowInv { s with state := update s.state i x } (update γ p g) := by
  obtain ⟨h1, h2, h3, h4⟩ := h
  constructor <;> simp only [update_apply] <;> grind

lemma RowInv.zombie (hr : (γ p).row = some fun _ => none)
    (hrow : g.row = none) (hch : g.child = (γ p).child) :
    RowInv { s with state := update s.state p .ZOMBIE } (update γ p g) := by
  obtain ⟨h1, h2, h3, h4⟩ := h
  constructor <;> simp only [update_apply] <;> grind

lemma RowInv.reap (hi : s.state i = .ZOMBIE) :
    RowInv { s with state := update s.state i .UNUSED } γ := by
  obtain ⟨h1, h2, h3, h4⟩ := h
  refine ⟨?_, ?_, h3, ?_⟩ <;> simp only [update_apply] <;> grind

end

/-! ## The reference counts -/

lemma RefInv.not_fresh (h : RefInv s γ) {q : Fin N} (hqp : q ≠ p)
    (hp : 1 ≤ share s γ f p) : f ∉ (γ q).fresh := by
  intro hq
  obtain ⟨href, -, hshare⟩ := h.fresh q f hq
  have hle := (h.shares f).add_le hqp
  rw [href] at hle
  push_cast at hle
  omega

lemma share_add (hof : s'.ofile = s.ofile) (hex : g.extra = (γ p).extra + Pi.single f d)
    (f' : Fin NFILE) (q : Fin N) :
    share s' (update γ p g) f' q =
      share s γ f' q + if q = p ∧ f' = f then d else 0 := by
  by_cases hq : q = p
  · subst hq
    by_cases hf : f' = f
    · subst hf
      simp only [share, hof, update_self, hex, Pi.add_apply, Pi.single_eq_same, and_self,
        if_true]
      omega
    · simp [share, hof, hex, hf]
  · simp [share, hof, hq]

lemma RefInv.setFile (h : RefInv s γ) (hex : g.extra = (γ p).extra + Pi.single f d)
    (href : (x.ref : ℤ) = (s.file f).ref + d) (h0 : 0 ≤ share s γ f p + d)
    (hnone : x.ref = 0 → x.type = .FD_NONE) (hothers : ∀ q, q ≠ p → f ∉ (γ q).fresh)
    (hown : ∀ f' ∈ g.fresh, f' ≠ f ∧ f' ∈ (γ p).fresh ∨
      f' = f ∧ x.ref = 1 ∧ x.type = .FD_NONE ∧ 1 ≤ share s γ f p + d) :
    RefInv (s.setFile f x) (update γ p g) := by
  have hshare : ∀ f' q, share (s.setFile f x) (update γ p g) f' q =
      share s γ f' q + if q = p ∧ f' = f then d else 0 := share_add rfl hex
  have hself : (s.setFile f x).file f = x := update_self ..
  have hne : ∀ f', f' ≠ f → (s.setFile f x).file f' = s.file f' :=
    fun f' hf => update_of_ne hf _ _
  refine ⟨fun f' => ?_, fun f' => ?_, fun q f' hq => ?_⟩
  · refine (h.shares f').change p (fun q hq => by simp [hshare, hq]) ?_ ?_
    · by_cases hf : f' = f
      · subst hf
        simp only [hshare, hself, and_self, if_true]
        omega
      · simp [hshare, hne f' hf, hf]
    · have hnon := (h.shares f').nonneg p
      rw [hshare]
      split_ifs with hf
      · exact hf.2 ▸ h0
      · omega
  · by_cases hf : f' = f
    · subst hf
      rwa [hself]
    · rw [hne f' hf]
      exact h.none f'
  · rw [hshare]
    by_cases hqp : q = p
    · subst hqp
      rw [update_self] at hq
      rcases hown f' hq with ⟨hf, hmem⟩ | ⟨rfl, hone, htype, hpos⟩
      · rw [hne f' hf]
        simpa [hf] using h.fresh q f' hmem
      · rw [hself]
        simpa using ⟨hone, htype, hpos⟩
    · rw [update_of_ne hqp] at hq
      have hf : f' ≠ f := fun hf => hothers q hqp (hf ▸ hq)
      rw [hne f' hf]
      simpa [hqp] using h.fresh q f' hq

lemma RefInv.keep (h : RefInv s γ) (hfile : s'.file = s.file)
    (hshare : share s' (update γ p g) = share s γ) (hfr : g.fresh = (γ p).fresh) :
    RefInv s' (update γ p g) := by
  refine ⟨fun f => ?_, fun f => ?_, fun q f hq => ?_⟩
  · rw [hfile, hshare]
    exact h.shares f
  · rw [hfile]
    exact h.none f
  · rw [hfile, hshare]
    refine h.fresh q f ?_
    by_cases hqp : q = p
    · rw [hqp, update_self, hfr] at hq
      exact hqp ▸ hq
    · rwa [update_of_ne hqp] at hq

lemma RefInv.setRow (h : RefInv s γ)
    (hex : ∀ f, (r'.count f : ℤ) + g.extra f = (s.ofile p).count f + (γ p).extra f)
    (hfr : g.fresh = (γ p).fresh) : RefInv (s.setRow p r') (update γ p g) := by
  refine h.keep rfl ?_ hfr
  funext f q
  by_cases hq : q = p
  · subst hq
    simpa [share, FileSys.setRow] using hex f
  · simp [share, FileSys.setRow, hq]

lemma RefInv.give (h : RefInv s γ) (hip : p ≠ i)
    (hr : ∀ f', (r'.count f' : ℤ) = (s.ofile i).count f' + if f' = f then 1 else 0)
    (hex : g.extra = (γ p).extra + Pi.single f (-1)) (hpos : 1 ≤ share s γ f p)
    (hfr : g.fresh = ∅) : RefInv (s.setRow i r') (update γ p g) := by
  have hp : ∀ f', share (s.setRow i r') (update γ p g) f' p =
      share s γ f' p + if f' = f then -1 else 0 := by
    intro f'
    by_cases hf : f' = f
    · subst hf
      simp [share, FileSys.setRow, hip, hex]
      omega
    · simp [share, FileSys.setRow, hip, hex, hf]
  have hi : ∀ f', share (s.setRow i r') (update γ p g) f' i =
      share s γ f' i + if f' = f then 1 else 0 := by
    intro f'
    simp [share, FileSys.setRow, hip.symm, hr]
    omega
  have hne : ∀ f' q, q ≠ p → q ≠ i →
      share (s.setRow i r') (update γ p g) f' q = share s γ f' q := by
    intro f' q hqp hqi
    simp [share, FileSys.setRow, hqp, hqi]
  refine ⟨fun f' => ?_, h.none, fun q f' hq => ?_⟩
  · by_cases hf : f' = f
    · subst hf
      refine (h.shares f').move hip (hne f') ?_ ?_ ?_
      · rw [hp, if_pos rfl, sub_eq_add_neg]
      · simpa using hi f'
      · rw [hp, if_pos rfl]
        omega
    have heq : share (s.setRow i r') (update γ p g) f' = share s γ f' := by
      funext q
      by_cases hqp : q = p
      · rw [hqp, hp, if_neg hf, add_zero]
      · by_cases hqi : q = i
        · rw [hqi, hi, if_neg hf, add_zero]
        · exact hne f' q hqp hqi
    rw [heq]
    exact h.shares f'
  · by_cases hqp : q = p
    · rw [hqp, update_self, hfr] at hq
      exact hq.elim
    rw [update_of_ne hqp] at hq
    obtain ⟨h1, h2, h3⟩ := h.fresh q f' hq
    refine ⟨h1, h2, ?_⟩
    by_cases hqi : q = i
    · rw [hqi] at h3 ⊢
      rw [hi]
      split_ifs <;> omega
    · rwa [hne f' q hqp hqi]

/-! ## The ends of the pipes -/

lemma EndInv.keep (h : EndInv s γ) (hfile : ∀ f n w, (s'.file f).IsEnd n w ↔ (s.file f).IsEnd n w)
    (hpipe : s'.pipe = s.pipe) (hends : g.ends = (γ p).ends) (hfree : g.free = (γ p).free) :
    EndInv s' (update γ p g) := by
  refine ⟨fun n w => ?_, fun n => ?_⟩
  · have hopen : s'.openEnds n w = s.openEnds n w := by rw [FileSys.openEnds, hpipe]; rfl
    have hhold : endHolders s' (update γ p g) n w = endHolders s γ n w := by
      funext x
      cases x with
      | inl f => simp only [endHolders, hfile]
      | inr q =>
        by_cases hq : q = p
        · subst hq
          simp [endHolders, hends]
        · simp [endHolders, hq]
    rw [hopen, hhold]
    exact h.ends n w
  · have hhold : (fun q => if (update γ p g q).free = some n then (1 : ℤ) else 0) =
        fun q => if (γ q).free = some n then 1 else 0 := by
      funext q
      by_cases hq : q = p
      · subst hq
        simp [hfree]
      · simp [hq]
    rw [hpipe, hhold]
    exact h.free n

/-- The process `p` changes the file `f`, and takes the token of the end that it was, or gives it the
token of the end that it becomes. -/
lemma EndInv.setFile (h : EndInv s γ)
    (hends : ∀ n w, g.ends n w = (γ p).ends n w + (if (s.file f).IsEnd n w then 1 else 0) -
      if x.IsEnd n w then 1 else 0) (h0 : ∀ n w, 0 ≤ g.ends n w) (hfree : g.free = (γ p).free) :
    EndInv (s.setFile f x) (update γ p g) := by
  refine ⟨fun n w => ?_, fun n => ?_⟩
  · have hp : endHolders (s.setFile f x) (update γ p g) n w (.inr p) = g.ends n w := by
      simp [endHolders]
    have hf : endHolders (s.setFile f x) (update γ p g) n w (.inl f) =
        if x.IsEnd n w then 1 else 0 := by simp [endHolders, FileSys.setFile]
    have hne : ∀ y, y ≠ .inl f → y ≠ .inr p →
        endHolders (s.setFile f x) (update γ p g) n w y = endHolders s γ n w y := by
      rintro (f' | q) hyf hyp
      · have hf' : f' ≠ f := fun hf' => hyf (hf' ▸ rfl)
        simp [endHolders, FileSys.setFile, hf']
      · have hq : q ≠ p := fun hq => hyp (hq ▸ rfl)
        simp [endHolders, hq]
    have hn := hends n w
    have h0' := h0 n w
    have hop : endHolders s γ n w (.inr p) = (γ p).ends n w := rfl
    have hof : endHolders s γ n w (.inl f) = if (s.file f).IsEnd n w then 1 else 0 := rfl
    show Shares (s.openEnds n w) _
    by_cases hold : (s.file f).IsEnd n w <;> by_cases hnew : x.IsEnd n w <;>
      simp only [hold, hnew, if_true, if_false] at hn hf hof
    · refine (h.ends n w).change (.inl f) (fun y hy => ?_) (by omega) (by omega)
      by_cases hyp : y = .inr p
      · rw [hyp]
        omega
      · exact hne y hy hyp
    · exact (h.ends n w).move (p := .inl f) (q := .inr p) (by simp) hne (by omega) (by omega)
        (by omega)
    · exact (h.ends n w).move (p := .inr p) (q := .inl f) (by simp)
        (fun y hy hy' => hne y hy' hy) (by omega) (by omega) (by omega)
    · refine (h.ends n w).change (.inl f) (fun y hy => ?_) (by omega) (by omega)
      by_cases hyp : y = .inr p
      · rw [hyp]
        omega
      · exact hne y hy hyp
  · have hhold : (fun q => if (update γ p g q).free = some n then (1 : ℤ) else 0) =
        fun q => if (γ q).free = some n then 1 else 0 := by
      funext q
      by_cases hq : q = p
      · subst hq
        simp [hfree]
      · simp [hq]
    rw [hhold]
    exact h.free n

lemma EndInv.setPipe (h : EndInv s γ) {n : ℕ} {e : Option PipeFlags}
    (hne : ∀ n', n' ≠ n → g.ends n' = (γ p).ends n')
    (hends : ∀ w, g.ends n w = (γ p).ends n w +
      ((if e.any fun e => e.isOpen w then 1 else 0) - s.openEnds n w))
    (h0 : ∀ w, 0 ≤ g.ends n w)
    (hfree : ∀ n', n' ≠ n → (g.free = some n' ↔ (γ p).free = some n'))
    (hfree' : (if g.free = some n then (1 : ℤ) else 0) = (if (γ p).free = some n then 1 else 0) +
      ((if e = some .closed then 1 else 0) - if s.pipe n = some .closed then 1 else 0)) :
    EndInv (s.setPipe n e) (update γ p g) := by
  refine ⟨fun n' w => ?_, fun n' => ?_⟩
  · have hopen : (s.setPipe n e).openEnds n' w =
        if n' = n then (if e.any fun e => e.isOpen w then 1 else 0) else s.openEnds n' w := by
      by_cases hn : n' = n
      · subst hn
        simp [FileSys.openEnds, FileSys.setPipe]
      · simp [FileSys.openEnds, FileSys.setPipe, hn]
    have hp : endHolders (s.setPipe n e) (update γ p g) n' w (.inr p) = g.ends n' w := by
      simp [endHolders]
    have hop : endHolders s γ n' w (.inr p) = (γ p).ends n' w := rfl
    refine (h.ends n' w).change (.inr p) (fun y hy => ?_) ?_ ?_
    · cases y with
      | inl f => rfl
      | inr q =>
        have hq : q ≠ p := fun hq => hy (hq ▸ rfl)
        simp [endHolders, hq]
    · rw [hp, hop, hopen]
      by_cases hn : n' = n
      · subst hn
        rw [if_pos rfl, hends]
      · rw [if_neg hn, hne n' hn]
        omega
    · rw [hp]
      by_cases hn : n' = n
      · exact hn ▸ h0 w
      · rw [hne n' hn, ← hop]
        exact (h.ends n' w).nonneg _
  · refine (h.free n').change p (fun q hq => by simp [hq]) ?_ ?_
    · by_cases hn : n' = n
      · subst hn
        simpa [FileSys.setPipe] using hfree'
      · simp [FileSys.setPipe, hn, hfree n' hn]
    · split_ifs <;> omega

end Steps

end Xv6
