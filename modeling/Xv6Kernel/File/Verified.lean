import Xv6Kernel.File.Invariant
import Mathlib.Algebra.Group.Pi.Lemmas
import Mathlib.Tactic.Abel

/-!
# The calls on open files keep the references

The rules for the actions on open files, and with them the proof that every call keeps the
invariant.
-/

namespace Xv6

open Protocol Function

variable {N : ℕ}
variable {w : Bool} {r' : FdRow} {s : FileSys N} {i : Fin N} {γ : Fin N → FileGhost N}
  {fd : Fin NOFILE} {row : Option FdRow} {Q : Unit → FileGhost N → Prop} {n : ℕ}
variable {s' : FileSys N} {fds : List (Fin NOFILE)}

/-- How an action changes the number of times that each page was taken and not freed. -/
def FileAct.count (η : ℕ → ℤ) : FileAct → ℕ → ℤ
  | .newPipe n => Function.update η n (η n + 1)
  | .freePipe n => Function.update η n (η n - 1)
  | _ => η

/-- A transaction does not start inside another one, and a pipe is freed when both ends are closed. -/
def FileGuar (s : FileSys N) (p : Fin N) : FileAct → Prop
  | .beginOp => s.inOp p = false
  | .freePipe n => s.pipe n = some .closed
  | _ => True

def fileProtocol (N : ℕ) : Protocol (FileSys N) FileAct (Fin N) (FileGhost N) (ℕ → ℤ) where
  inv := FileInv
  upd η _ l := l.count η
  ok _ _ _ := True
  guar s _ p l _ := FileGuar s p l
  view _ _ := True
  rest _ := True
  tol msg := msg = "init exiting"
  idle := .idle
  fin g := ∃ row, g = { FileGhost.idle with row := row }

section Rules

variable {p : Fin N} {g : FileGhost N} {r : FdRow} {f : Fin NFILE}

lemma RowInv.share_eq (h : RowInv s γ) (hrow : (γ p).row = some r) (f : Fin NFILE) :
    share s γ f p = r.count f + (γ p).extra f := by
  rw [share, (h.own p r hrow).1]

lemma ops_keep (h : ∀ q, s.inOp q = (γ q).op) (hin : s'.inOp = s.inOp) (hop : g.op = (γ p).op)
    (q : Fin N) : s'.inOp q = (update γ p g q).op := by
  rw [hin, h q]
  by_cases hq : q = p
  · rw [hq, update_self, hop]
  · rw [update_of_ne hq]

lemma share_keep (hof : s'.ofile = s.ofile)
    (hex : g.extra = (γ p).extra) : share s' (update γ p g) = share s γ := by
  funext f q
  by_cases hq : q = p
  · subst hq
    simp [share, hof, hex]
  · simp [share, hof, hq]

lemma isEnd_setRef (s : FileSys N) (f : Fin NFILE) (k : ℕ) (f' : Fin NFILE) (n : ℕ) (w : Bool) :
    ((s.setFile f { s.file f with ref := k }).file f').IsEnd n w ↔ (s.file f').IsEnd n w := by
  by_cases hf' : f' = f
  · subst hf'
    simp [FileSys.setFile, File.IsEnd]
  · simp [FileSys.setFile, hf']

lemma safe_getFd {Q : Option (Fin NFILE) → FileGhost N → Prop} (hrow : g.row = some r)
    (hQ : Q (r fd) g) : (fileProtocol N).Safe p Q (getFd p fd) g := by
  refine safe_update trivial fun s η γ hinv hg _ => ?_
  subst hg
  refine ⟨trivial, γ p, ?_, ?_⟩
  · rw [update_eq_self]
    exact hinv
  · rw [(hinv.rows.own p r hrow).1]
    exact hQ

lemma safe_filealloc {Q : Option (Fin NFILE) → FileGhost N → Prop} (hnone : Q none g)
    (hsome : ∀ f, f ∉ g.fresh →
      Q (some f) { g with extra := g.extra + Pi.single f 1, fresh := insert f g.fresh }) :
    (fileProtocol N).Safe p Q filealloc g := by
  refine safe_atomic trivial (fun s η γ msg _ _ _ hf => ?_) fun s η γ b s' hinv hg _ hf => ?_
  · split at hf <;> cases hf
  subst hg
  split at hf
  · rename_i f hfind
    cases hf
    have href : (s.file f).ref = 0 := by simpa using List.find?_some hfind
    have htype := hinv.refs.none f href
    have hfresh : ∀ q, f ∉ (γ q).fresh := fun q hq => by
      have hone := (hinv.refs.fresh q f hq).1
      omega
    have hnon := ((hinv.refs.shares f).nonneg p)
    refine ⟨trivial, _, ?_, hsome f (hfresh p)⟩
    refine ⟨hinv.rows.keep rfl rfl rfl rfl, ?_, ?_, ops_keep hinv.ops rfl rfl, hinv.live⟩
    · refine hinv.refs.setFile (d := 1) rfl (by simp [href]) (by omega) (by simp)
        (fun q _ => hfresh q) fun f' hf' => ?_
      rcases hf' with rfl | hf'
      · exact .inr ⟨rfl, rfl, htype, by omega⟩
      · exact .inl ⟨fun he => hfresh p (he ▸ hf'), hf'⟩
    · exact hinv.pipes.keep (isEnd_setRef s f _) rfl rfl rfl
  · cases hf
    refine ⟨trivial, γ p, ?_, hnone⟩
    rw [update_eq_self]
    exact hinv

lemma safe_filedup (hrow : g.row = some r) (hpos : 1 ≤ (r.count f : ℤ) + g.extra f)
    (hfr : f ∉ g.fresh)
    (hQ : Q () { g with extra := g.extra + Pi.single f 1 }) :
    (fileProtocol N).Safe p Q (filedup f) g := by
  have hshare : ∀ s η γ, FileInv (N := N) s η γ → γ p = g → 1 ≤ share s γ f p := by
    rintro s η γ hinv rfl
    rwa [hinv.rows.share_eq hrow]
  refine safe_atomic trivial (fun s η γ msg hinv hg _ hf => ?_) fun s η γ b s' hinv hg _ hf => ?_
  · have hs := hshare s η γ hinv hg
    have hle := (hinv.refs.shares f).le p
    rw [if_neg (by omega)] at hf
    cases hf
  have hs := hshare s η γ hinv hg
  have hle := (hinv.refs.shares f).le p
  subst hg
  rw [if_neg (by omega)] at hf
  cases hf
  refine ⟨trivial, _, ?_, hQ⟩
  refine ⟨hinv.rows.keep rfl rfl rfl rfl, ?_, ?_, ops_keep hinv.ops rfl rfl, hinv.live⟩
  · exact hinv.refs.setFile (d := 1) rfl (by simp) (by omega) (by simp)
      (fun q hq => hinv.refs.not_fresh hq hs) fun f' hf' => .inl ⟨fun he => hfr (he ▸ hf'), hf'⟩
  · exact hinv.pipes.keep (isEnd_setRef s f _) rfl rfl rfl

lemma safe_dropRef {Q : Option File → FileGhost N → Prop} (hrow : g.row = some r)
    (hpos : 1 ≤ (r.count f : ℤ) + g.extra f)
    (hnone : Q none { g with extra := g.extra + Pi.single f (-1), fresh := g.fresh \ {f} })
    (hends : ∀ n w, 0 ≤ g.ends n w)
    (hsome : ∀ ff : File, (f ∈ g.fresh → ff.type = .FD_NONE) → Q (some ff) { g with
      extra := g.extra + Pi.single f (-1)
      fresh := g.fresh \ {f}
      ends := fun n w => g.ends n w + if ff.IsEnd n w then 1 else 0 }) :
    (fileProtocol N).Safe p Q (dropRef f) g := by
  have hshare : ∀ s η γ, FileInv (N := N) s η γ → γ p = g → 1 ≤ share s γ f p := by
    rintro s η γ hinv rfl
    rwa [hinv.rows.share_eq hrow]
  refine safe_atomic trivial (fun s η γ msg hinv hg _ hf => ?_) fun s η γ b s' hinv hg _ hf => ?_
  · have hs := hshare s η γ hinv hg
    have hle := (hinv.refs.shares f).le p
    rw [if_neg (by omega)] at hf
    split at hf <;> cases hf
  have hs := hshare s η γ hinv hg
  have hle := (hinv.refs.shares f).le p
  subst hg
  rw [if_neg (by omega)] at hf
  have hothers : ∀ q, q ≠ p → f ∉ (γ q).fresh := fun q hq => hinv.refs.not_fresh hq hs
  split at hf
  · rename_i hmore
    cases hf
    refine ⟨trivial, _, ?_, hnone⟩
    refine ⟨hinv.rows.keep rfl rfl rfl rfl, ?_, ?_, ops_keep hinv.ops rfl rfl, hinv.live⟩
    · refine hinv.refs.setFile (d := -1) rfl ?_ (by omega) ?_ hothers
        fun f' hf' => .inl ⟨hf'.2, hf'.1⟩
      · show (((s.file f).ref - 1 : ℕ) : ℤ) = _
        omega
      · intro h0
        exact absurd h0 (by show (s.file f).ref - 1 ≠ 0; omega)
    · exact hinv.pipes.keep (isEnd_setRef s f _) rfl rfl rfl
  · rename_i hlast
    cases hf
    refine ⟨trivial, _, ?_, hsome (s.file f) fun hfr => (hinv.refs.fresh p f hfr).2.1⟩
    refine ⟨hinv.rows.keep rfl rfl rfl rfl, ?_, ?_, ops_keep hinv.ops rfl rfl, hinv.live⟩
    · refine hinv.refs.setFile (d := -1) rfl ?_ (by omega) (fun _ => rfl) hothers
        fun f' hf' => .inl ⟨hf'.2, hf'.1⟩
      show ((0 : ℕ) : ℤ) = _
      omega
    · refine hinv.pipes.setFile (fun n w => ?_) (fun n w => ?_) rfl
      · simp [File.IsEnd]
      · have h0 := hends n w
        show 0 ≤ (γ p).ends n w + _
        split_ifs <;> omega

lemma safe_beginOpFile (hop : g.op = false)
    (hQ : Q () { g with op := true }) : (fileProtocol N).Safe p Q (beginOpFile p) g := by
  refine safe_update trivial fun s η γ hinv hg _ => ?_
  subst hg
  refine ⟨(hinv.ops p).trans hop, _, ?_, hQ⟩
  refine ⟨hinv.rows.keep rfl rfl rfl rfl, hinv.refs.keep rfl (share_keep rfl rfl) rfl,
    hinv.pipes.keep (fun _ _ _ => Iff.rfl) rfl rfl rfl, fun q => ?_, hinv.live⟩
  by_cases hq : q = p
  · subst hq
    simp
  · simpa [hq] using hinv.ops q

lemma safe_endOpFile (hQ : Q () { g with op := false }) :
    (fileProtocol N).Safe p Q (endOpFile p) g := by
  refine safe_update trivial fun s η γ hinv hg _ => ?_
  subst hg
  refine ⟨trivial, _, ?_, hQ⟩
  refine ⟨hinv.rows.keep rfl rfl rfl rfl, hinv.refs.keep rfl (share_keep rfl rfl) rfl,
    hinv.pipes.keep (fun _ _ _ => Iff.rfl) rfl rfl rfl, fun q => ?_, hinv.live⟩
  by_cases hq : q = p
  · subst hq
    simp
  · simpa [hq] using hinv.ops q

lemma PipeFlags.isOpen_close (e : PipeFlags) (w w' : Bool) :
    (e.close w).isOpen w' = if w' = w then false else e.isOpen w' := by
  cases w <;> cases w' <;> rfl

lemma PipeFlags.ne_closed {e : PipeFlags} (h : e.isOpen w = true) : e ≠ .closed := by
  rintro rfl
  cases w <;> cases h

lemma EndInv.open_of_ends (h : EndInv s γ)
    (hends : 1 ≤ (γ p).ends n w) : ∃ e, s.pipe n = some e ∧ e.isOpen w = true := by
  have hle := (h.ends n w).le (.inr p)
  have hone : 1 ≤ s.openEnds n w := le_trans hends hle
  unfold FileSys.openEnds at hone
  split at hone
  · rename_i hany
    rwa [Option.any_eq_true] at hany
  · omega

lemma EndInv.closed_of_free (h : EndInv s γ)
    (hfree : (γ p).free = some n) : s.pipe n = some .closed := by
  by_contra hno
  have hle := (h.free n).le p
  simp only [hfree, if_true, if_neg hno] at hle
  omega

lemma safe_closeEnd {Q : Bool → FileGhost N → Prop} (hends : 1 ≤ g.ends n w)
    (hfree : g.free = none)
    (hfalse : Q false { g with
      ends := fun n' w' => g.ends n' w' - if n' = n ∧ w' = w then 1 else 0 })
    (htrue : Q true { g with
      ends := fun n' w' => g.ends n' w' - if n' = n ∧ w' = w then 1 else 0
      free := some n }) :
    (fileProtocol N).Safe p Q (closeEnd n w) g := by
  refine safe_atomic trivial (fun s η γ msg hinv hg _ hf => ?_) fun s η γ b s' hinv hg _ hf => ?_
  all_goals
    subst hg
    obtain ⟨e, he, hopen⟩ := hinv.pipes.open_of_ends hends
    simp only [he] at hf
    cases hf
  have hne : s.pipe n ≠ some .closed := by
    rw [he]
    exact fun h => PipeFlags.ne_closed hopen (Option.some.inj h)
  have hrest : ∀ n', n' ≠ n → (fun w' => (γ p).ends n' w' - if n' = n ∧ w' = w then 1 else 0) =
      (γ p).ends n' := by
    intro n' hn
    funext w'
    simp [hn]
  have hdec : ∀ w', ((γ p).ends n w' - if n = n ∧ w' = w then 1 else 0) = (γ p).ends n w' +
      ((if (some (e.close w)).any fun e => e.isOpen w' then 1 else 0) - s.openEnds n w') := by
    intro w'
    by_cases hw : w' = w
    · subst hw
      simp [FileSys.openEnds, he, PipeFlags.isOpen_close, hopen]
      omega
    · simp [FileSys.openEnds, he, PipeFlags.isOpen_close, hw]
  have h0 : ∀ w', 0 ≤ (γ p).ends n w' - if n = n ∧ w' = w then 1 else 0 := by
    intro w'
    have hnon : 0 ≤ (γ p).ends n w' := (hinv.pipes.ends n w').nonneg (.inr p)
    by_cases hw : w' = w
    · subst hw
      simp only [and_self, if_true]
      omega
    · simpa [hw] using hnon
  have hlive : ∀ n', η n' = if ((s.setPipe n (some (e.close w))).pipe n').isSome then 1 else 0 := by
    intro n'
    by_cases hn : n' = n
    · subst hn
      simp [FileSys.setPipe, hinv.live, he]
    · simp [FileSys.setPipe, hinv.live, hn]
  by_cases hc : e.close w = .closed
  · rw [show (e.close w == PipeFlags.closed) = true from beq_iff_eq.mpr hc]
    refine ⟨trivial, _, ?_, htrue⟩
    refine ⟨hinv.rows.keep rfl rfl rfl rfl, hinv.refs.keep rfl (share_keep rfl rfl) rfl, ?_,
      ops_keep hinv.ops rfl rfl, hlive⟩
    refine hinv.pipes.setPipe hrest hdec h0 (fun n' hn => ?_) ?_
    · simp [hfree, Ne.symm hn]
    · simp [hfree, hc, hne]
  · rw [show (e.close w == PipeFlags.closed) = false from beq_eq_false_iff_ne.mpr hc]
    refine ⟨trivial, _, ?_, hfalse⟩
    refine ⟨hinv.rows.keep rfl rfl rfl rfl, hinv.refs.keep rfl (share_keep rfl rfl) rfl, ?_,
      ops_keep hinv.ops rfl rfl, hlive⟩
    refine hinv.pipes.setPipe hrest hdec h0 (fun n' hn => Iff.rfl) ?_
    simp [hfree, hc, hne]

lemma safe_freePipe (hfree : g.free = some n)
    (hQ : Q () { g with free := none }) : (fileProtocol N).Safe p Q (freePipe n) g := by
  refine safe_atomic trivial (fun s η γ msg hinv hg _ hf => ?_) fun s η γ b s' hinv hg _ hf => ?_
  all_goals
    subst hg
    have hc := hinv.pipes.closed_of_free hfree
    simp only [hc] at hf
    cases hf
  refine ⟨hc, _, ?_, hQ⟩
  refine ⟨hinv.rows.keep rfl rfl rfl rfl, hinv.refs.keep rfl (share_keep rfl rfl) rfl, ?_,
    ops_keep hinv.ops rfl rfl, fun n' => ?_⟩
  · refine hinv.pipes.setPipe (fun _ _ => rfl) (fun w => ?_) (fun w => ?_) (fun n' hn => ?_) ?_
    · have hopen : s.openEnds n w = 0 := by
        cases w <;> simp [FileSys.openEnds, hc, PipeFlags.closed, PipeFlags.isOpen]
      simp [hopen]
    · exact (hinv.pipes.ends n w).nonneg (.inr p)
    · simp [hfree, Ne.symm hn]
    · simp [hfree, hc]
  · show update η n (η n - 1) n' = _
    by_cases hn : n' = n
    · subst hn
      simp [FileSys.setPipe, hinv.live, hc]
    · simp [FileSys.setPipe, hinv.live, hn]

lemma safe_newPipe
    (hQ : Q () { g with ends := fun n' w => g.ends n' w + if n' = n then 1 else 0 }) :
    (fileProtocol N).Safe p Q (newPipe n) g := by
  refine safe_atomic trivial (fun s η γ msg _ _ _ hf => ?_) fun s η γ b s' hinv hg _ hf => ?_
  · split at hf <;> cases hf
  subst hg
  split at hf
  · cases hf
  rename_i hnone
  cases hf
  refine ⟨trivial, _, ?_, hQ⟩
  refine ⟨hinv.rows.keep rfl rfl rfl rfl, hinv.refs.keep rfl (share_keep rfl rfl) rfl, ?_,
    ops_keep hinv.ops rfl rfl, fun n' => ?_⟩
  · refine hinv.pipes.setPipe (fun n' hn => ?_) (fun w => ?_) (fun w => ?_) (fun _ _ => Iff.rfl) ?_
    · funext w
      simp [hn]
    · cases w <;> simp [FileSys.openEnds, hnone, PipeFlags.isOpen]
    · have hnon : 0 ≤ (γ p).ends n w := (hinv.pipes.ends n w).nonneg (.inr p)
      simp only [if_true]
      omega
    · simp [hnone, PipeFlags.closed]
  · show update η n (η n + 1) n' = _
    by_cases hn : n' = n
    · subst hn
      simp [FileSys.setPipe, hinv.live, hnone]
    · simp [FileSys.setPipe, hinv.live, hn]

lemma safe_initFile {type : FileType} {pipe : Option ℕ} (n : ℕ) (hfr : f ∈ g.fresh)
    (hends : type = .FD_PIPE → pipe = some n ∧ 1 ≤ g.ends n w)
    (hQ : Q () { g with
      fresh := g.fresh \ {f}
      ends := fun n' w' => g.ends n' w' - if type = .FD_PIPE ∧ n = n' ∧ w = w' then 1 else 0 }) :
    (fileProtocol N).Safe p Q (initFile f type w pipe) g := by
  refine safe_update trivial fun s η γ hinv hg _ => ?_
  subst hg
  obtain ⟨href, htype, hshare⟩ := hinv.refs.fresh p f hfr
  have hend : ∀ n' w', File.IsEnd ⟨type, (s.file f).ref, w, pipe.getD (s.file f).pipe⟩ n' w' ↔
      type = .FD_PIPE ∧ n = n' ∧ w = w' := by
    intro n' w'
    refine and_congr_right fun ht => ?_
    rw [(hends ht).1]
    exact Iff.rfl
  refine ⟨trivial, _, ?_, hQ⟩
  refine ⟨hinv.rows.keep rfl rfl rfl rfl, ?_, ?_, ops_keep hinv.ops rfl rfl, hinv.live⟩
  · refine hinv.refs.setFile (d := 0) (by simp) (by simp) (by omega) (fun h0 => ?_)
      (fun q hq => hinv.refs.not_fresh hq hshare) fun f' hf' => .inl ⟨hf'.2, hf'.1⟩
    have h0' : (s.file f).ref = 0 := h0
    omega
  · refine hinv.pipes.setFile (fun n' w' => ?_) (fun n' w' => ?_) rfl
    · have hold : ¬(s.file f).IsEnd n' w' := fun h => by
        cases htype.symm.trans h.1
      rw [if_neg hold, add_zero]
      simp only [hend]
    · have hnon : 0 ≤ (γ p).ends n' w' := (hinv.pipes.ends n' w').nonneg (.inr p)
      show 0 ≤ (γ p).ends n' w' - _
      split_ifs with hif
      · obtain ⟨ht, rfl, rfl⟩ := hif
        have hone := (hends ht).2
        omega
      · omega

lemma safe_fdalloc {Q : Option (Fin NOFILE) → FileGhost N → Prop} (hrow : g.row = some r)
    (hnone : Q none g)
    (hsome : ∀ fd, r fd = none → Q (some fd) { g with
      row := some (update r fd (some f))
      extra := g.extra + Pi.single f (-1) }) :
    (fileProtocol N).Safe p Q (fdalloc p f) g := by
  refine safe_atomic trivial (fun s η γ msg _ _ _ hf => ?_) fun s η γ b s' hinv hg _ hf => ?_
  · split at hf <;> cases hf
  subst hg
  have hr := (hinv.rows.own p r hrow).1
  split at hf
  · rename_i fd hfind
    cases hf
    have hfd : r fd = none := by
      rw [← hr]
      simpa using List.find?_some hfind
    rw [hr]
    refine ⟨trivial, _, ?_, hsome fd hfd⟩
    refine ⟨hinv.rows.setRow hrow rfl rfl, hinv.refs.setRow (fun f' => ?_) rfl,
      hinv.pipes.keep (fun _ _ _ => Iff.rfl) rfl rfl rfl, ops_keep hinv.ops rfl rfl, hinv.live⟩
    rw [FdRow.count_update, hr, hfd]
    by_cases hf' : f' = f
    · subst hf'
      simp
      omega
    · simp [hf', Ne.symm hf']
  · cases hf
    refine ⟨trivial, γ p, ?_, hnone⟩
    rw [update_eq_self]
    exact hinv

lemma safe_clearFd (hrow : g.row = some r) (hfd : r fd = some f)
    (hQ : Q () { g with
      row := some (update r fd none)
      extra := g.extra + Pi.single f 1 }) :
    (fileProtocol N).Safe p Q (setFd p fd none) g := by
  refine safe_update trivial fun s η γ hinv hg _ => ?_
  subst hg
  have hr := (hinv.rows.own p r hrow).1
  rw [hr]
  refine ⟨trivial, _, ?_, hQ⟩
  refine ⟨hinv.rows.setRow hrow rfl rfl, hinv.refs.setRow (fun f' => ?_) rfl,
    hinv.pipes.keep (fun _ _ _ => Iff.rfl) rfl rfl rfl, ops_keep hinv.ops rfl rfl, hinv.live⟩
  rw [FdRow.count_update, hr, hfd]
  by_cases hf' : f' = f
  · subst hf'
    simp
  · simp [hf', Ne.symm hf']

lemma safe_giveFd (hrow : g.row = some r) (hch : g.child = some (i, r')) (hfd : r' fd = none)
    (hpos : 1 ≤ (r.count f : ℤ) + g.extra f) (hfr : g.fresh = ∅)
    (hQ : Q () { g with
      child := some (i, update r' fd (some f))
      extra := g.extra + Pi.single f (-1) }) :
    (fileProtocol N).Safe p Q (setFd i fd (some f)) g := by
  refine safe_update trivial fun s η γ hinv hg _ => ?_
  subst hg
  obtain ⟨hr, hst⟩ := hinv.rows.child p i r' hch
  have hip : p ≠ i := by
    rintro rfl
    rw [(hinv.rows.own p r hrow).2] at hst
    cases hst
  rw [hr]
  refine ⟨trivial, _, ?_, hQ⟩
  refine ⟨hinv.rows.setChild hch rfl rfl, hinv.refs.give hip (fun f' => ?_) rfl ?_ hfr,
    hinv.pipes.keep (fun _ _ _ => Iff.rfl) rfl rfl rfl, ops_keep hinv.ops rfl rfl, hinv.live⟩
  · rw [FdRow.count_update, hr, hfd]
    by_cases hf' : f' = f
    · subst hf'
      simp
    · simp [hf', Ne.symm hf']
  · rwa [hinv.rows.share_eq hrow]

lemma FileGhost.congr {x x' : Fin NFILE → ℤ} {fr fr' : Set (Fin NFILE)} {e e' : ℕ → Bool → ℤ}
    {m : Option ℕ} {c : Option (Fin N × FdRow)} {op : Bool} (hx : x = x') (hfr : fr = fr')
    (he : e = e') : (⟨row, x, fr, e, m, c, op⟩ : FileGhost N) = ⟨row, x', fr', e', m, c, op⟩ := by
  rw [hx, hfr, he]

lemma safe_pipecloseFile (hends : 1 ≤ g.ends n w) (hfree : g.free = none)
    (hQ : Q () { g with
      ends := fun n' w' => g.ends n' w' - if n' = n ∧ w' = w then 1 else 0 }) :
    (fileProtocol N).Safe p Q (pipecloseFile n w) g := by
  refine Safe.bind (safe_closeEnd hends hfree ?_ ?_)
  · exact safe_ret hQ
  · refine safe_freePipe rfl ?_
    rw [← hfree]
    exact hQ

variable {x : Fin NFILE → ℤ} {fr : Set (Fin NFILE)} {c : Option (Fin N × FdRow)} {op : Bool}

lemma safe_fileclose (hpos : 1 ≤ (r.count f : ℤ) + x f) (hop : op = false ∨ f ∈ fr)
    (hQ : Q () ⟨some r, x + Pi.single f (-1), fr \ {f}, 0, none, c, op⟩) :
    (fileProtocol N).Safe p Q (fileclose p f) ⟨some r, x, fr, 0, none, c, op⟩ := by
  refine Safe.bind (safe_dropRef rfl hpos ?_ (fun _ _ => le_rfl) fun ff hff => ?_)
  · exact safe_ret hQ
  have hnot : ff.type ≠ .FD_PIPE →
      (fun n w => (0 : ℕ → Bool → ℤ) n w + if ff.IsEnd n w then 1 else 0) = 0 := by
    intro htype
    funext n w
    simp [File.IsEnd, htype]
  -- a file of one of the last two kinds is not new
  have hino : ff.type ≠ .FD_PIPE → ff.type ≠ .FD_NONE → (fileProtocol N).Safe p Q (do
      beginOpFile p
      endOpFile p) ⟨some r, x + Pi.single f (-1), fr \ {f},
        fun n w => (0 : ℕ → Bool → ℤ) n w + if ff.IsEnd n w then 1 else 0, none, c, op⟩ := by
    intro htype htype'
    have hop' : op = false := hop.resolve_right fun h => htype' (hff h)
    refine Safe.bind (safe_beginOpFile hop' (safe_endOpFile ?_))
    subst hop'
    exact (congrArg (Q ()) (FileGhost.congr rfl rfl (hnot htype))).mpr hQ
  cases htype : ff.type with
  | FD_NONE =>
    simp only [htype]
    refine safe_ret ?_
    exact (congrArg (Q ()) (FileGhost.congr rfl rfl (hnot (by simp [htype])))).mpr hQ
  | FD_PIPE =>
    simp only [htype]
    refine safe_pipecloseFile ?_ rfl ?_
    · simp [File.IsEnd, htype]
    · refine (congrArg (Q ()) (FileGhost.congr rfl rfl ?_)).mpr hQ
      funext n w
      by_cases hn : n = ff.pipe <;> by_cases hw : w = ff.writable <;>
        simp [File.IsEnd, htype, hn, hw, Ne.symm]
  | FD_INODE =>
    simp only [htype]
    exact hino (by simp [htype]) (by simp [htype])
  | FD_DEVICE =>
    simp only [htype]
    exact hino (by simp [htype]) (by simp [htype])

lemma fin_of_eq (hx : x = 0) (hfr : fr = ∅) :
    ∃ row', (⟨row, x, fr, 0, none, none, false⟩ : FileGhost N) =
      { FileGhost.idle with row := row' } :=
  ⟨row, FileGhost.congr hx hfr rfl⟩

abbrev started (N : ℕ) (r : FdRow) : FileGhost N := ⟨some r, 0, ∅, 0, none, none, false⟩

lemma safe_pipealloc {Q : Option (Fin NFILE × Fin NFILE) → FileGhost N → Prop}
    (hnone : Q none (started N r)) (hsome : ∀ f0 f1, f0 ≠ f1 → Q (some (f0, f1))
      ⟨some r, Pi.single f0 1 + Pi.single f1 1, ∅, 0, none, none, false⟩) :
    (fileProtocol N).Safe p Q (pipealloc p) (started N r) := by
  refine Safe.bind (safe_filealloc (safe_ret hnone) fun f0 _ => ?_)
  refine Safe.bind (safe_filealloc ?_ fun f1 hf1 => ?_)
  · refine Safe.bind (safe_fileclose (by simp) (.inl rfl) (safe_ret ?_))
    refine (congrArg (Q none) (FileGhost.congr ?_ (by simp) rfl)).mpr hnone
    simp only [Pi.single_neg]
    abel
  have hne : f1 ≠ f0 := fun h => hf1 (h ▸ Set.mem_insert _ _)
  refine Safe.bind (safe_pickBool trivial fun b => ?_)
  cases b with
  | false =>
    refine Safe.bind (safe_fileclose (by simp [hne]) (.inl rfl) ?_)
    refine Safe.bind (safe_fileclose (by simp [hne]) (.inl rfl) (safe_ret ?_))
    refine (congrArg (Q none) (FileGhost.congr ?_ ?_ rfl)).mpr hnone
    · simp only [Pi.single_neg]
      abel
    · ext f
      simp only [Set.mem_sdiff, Set.mem_insert_iff, Set.mem_singleton_iff, Set.mem_empty_iff_false]
      tauto
  | true =>
    refine Safe.bind (safe_pickNat trivial fun n => ?_)
    refine Safe.bind (safe_newPipe ?_)
    refine Safe.bind (safe_initFile n ?_ ?_ ?_)
    · exact Set.mem_insert_of_mem _ (Set.mem_insert _ _)
    · simp
    refine Safe.bind (safe_initFile n ?_ ?_ (safe_ret ?_))
    · exact ⟨Set.mem_insert _ _, hne⟩
    · simp
    · refine (congrArg (Q (some (f0, f1))) (FileGhost.congr ?_ ?_ ?_)).mpr (hsome f0 f1 hne.symm)
      · rw [zero_add]
      · ext f
        simp only [Set.mem_sdiff, Set.mem_insert_iff, Set.mem_singleton_iff, Set.mem_empty_iff_false]
        tauto
      · funext n' w
        by_cases hn : n = n'
        · subst hn
          cases w <;> simp
        · simp [hn, Ne.symm hn]

abbrev FileDone : Unit → FileGhost N → Prop := fun _ g => ∃ row, g = { FileGhost.idle with row := row }

lemma safe_sysDup : (fileProtocol N).Safe p FileDone (sysDup p fd) (started N r) := by
  refine Safe.bind (safe_getFd rfl ?_)
  rcases hfd : r fd with _ | f
  · exact safe_ret (fin_of_eq rfl rfl)
  refine Safe.bind (safe_fdalloc rfl (safe_ret (fin_of_eq rfl rfl)) fun fd' hfd' => ?_)
  refine safe_filedup rfl ?_ (Set.notMem_empty f) (fin_of_eq ?_ rfl)
  · -- the new descriptor is not yet counted, but the old one is
    have hone := FdRow.one_le_count hfd
    rw [FdRow.count_update, hfd']
    simp
    omega
  · simp only [Pi.single_neg]
    abel

lemma safe_sysClose : (fileProtocol N).Safe p FileDone (sysClose p fd) (started N r) := by
  refine Safe.bind (safe_getFd rfl ?_)
  cases hfd : r fd with
  | none => exact safe_ret (fin_of_eq rfl rfl)
  | some f =>
    refine Safe.bind (safe_clearFd rfl hfd ?_)
    refine safe_fileclose (by simp) (.inl rfl) (fin_of_eq ?_ (by simp))
    simp only [Pi.single_neg]
    abel

lemma safe_sysOpen : (fileProtocol N).Safe p FileDone (sysOpen p) (started N r) := by
  refine Safe.bind (safe_beginOpFile rfl ?_)
  refine Safe.bind (safe_pickBool trivial fun b => ?_)
  rcases b with _ | _
  · exact safe_endOpFile (fin_of_eq rfl rfl)
  refine Safe.bind (safe_filealloc (safe_endOpFile (fin_of_eq rfl rfl)) fun f _ => ?_)
  refine Safe.bind (safe_fdalloc rfl ?_ fun fd hfd => ?_)
  · refine Safe.bind (safe_fileclose (by simp) (.inr (Set.mem_insert _ _)) ?_)
    refine safe_endOpFile (fin_of_eq ?_ (by simp))
    simp only [Pi.single_neg]
    abel
  · refine Safe.bind (safe_pickBool trivial fun device => ?_)
    refine Safe.bind (safe_pickBool trivial fun writable => ?_)
    have htype : (if device = true then FileType.FD_DEVICE else .FD_INODE) ≠ .FD_PIPE := by
      cases device <;> simp
    refine Safe.bind (safe_initFile 0 (Set.mem_insert _ _) (fun h => absurd h htype) ?_)
    refine safe_endOpFile ⟨_, FileGhost.congr ?_ (by simp [FileGhost.idle]) ?_⟩
    · simp only [Pi.single_neg]
      abel
    · funext n' w'
      simp [htype, FileGhost.idle]

lemma safe_closeBoth {f0 f1 : Fin NFILE} {r : FdRow} (hne : f0 ≠ f1)
    (hx : x = Pi.single f0 1 + Pi.single f1 1) :
    (fileProtocol N).Safe p FileDone (do
      fileclose p f0
      fileclose p f1) ⟨some r, x, ∅, 0, none, none, false⟩ := by
  subst hx
  refine Safe.bind (safe_fileclose (by simp [hne]) (.inl rfl) ?_)
  refine safe_fileclose (by simp [hne.symm]) (.inl rfl) (fin_of_eq ?_ (by simp))
  simp only [Pi.single_neg]
  abel

lemma safe_sysPipe : (fileProtocol N).Safe p FileDone (sysPipe p) (started N r) := by
  refine Safe.bind (safe_pipealloc (safe_ret (fin_of_eq rfl rfl)) fun rf wf hne => ?_)
  refine Safe.bind (safe_fdalloc rfl (safe_closeBoth hne rfl) fun fd0 hfd0 => ?_)
  refine Safe.bind (safe_fdalloc rfl ?_ fun fd1 hfd1 => ?_)
  · refine Safe.bind (safe_clearFd (f := rf) rfl (update_self ..) ?_)
    refine safe_closeBoth hne ?_
    simp only [Pi.single_neg]
    abel
  refine Safe.bind (safe_pickBool trivial fun b => ?_)
  cases b with
  | true =>
    refine safe_ret (fin_of_eq ?_ rfl)
    simp only [Pi.single_neg]
    abel
  | false =>
    have hfd : fd0 ≠ fd1 := by
      rintro rfl
      simp at hfd1
    refine Safe.bind (safe_clearFd (f := rf) rfl ?_ ?_)
    · rw [update_of_ne hfd, update_self]
    refine Safe.bind (safe_clearFd (f := wf) rfl ?_ ?_)
    · rw [update_of_ne hfd.symm, update_self]
    refine safe_closeBoth hne ?_
    simp only [Pi.single_neg]
    abel

lemma safe_claim {Q : Bool → FileGhost N → Prop} (hch : g.child = none)
    (hfalse : Q false g) (htrue : Q true { g with child := some (i, fun _ => none) }) :
    (fileProtocol N).Safe p Q (testState i .UNUSED .USED) g := by
  refine safe_atomic trivial (fun s η γ msg _ _ _ hf => ?_) fun s η γ b s' hinv hg _ hf => ?_
  · split at hf <;> cases hf
  subst hg
  split at hf
  · rename_i hi
    cases hf
    refine ⟨trivial, _, ?_, htrue⟩
    exact ⟨hinv.rows.claim hi rfl rfl, hinv.refs.keep rfl (share_keep rfl rfl) rfl,
      hinv.pipes.keep (fun _ _ _ => Iff.rfl) rfl rfl rfl, ops_keep hinv.ops rfl rfl, hinv.live⟩
  cases hf
  refine ⟨trivial, γ p, ?_, hfalse⟩
  rw [update_eq_self]
  exact hinv

lemma safe_setChild {y : ProcState} (hch : g.child = some (i, r'))
    (hy : y = .RUNNABLE ∨ y = .UNUSED ∧ r' = fun _ => none)
    (hQ : Q () { g with child := none }) :
    (fileProtocol N).Safe p Q (setStateFile i y) g := by
  refine safe_update trivial fun s η γ hinv hg _ => ?_
  subst hg
  refine ⟨trivial, _, ?_, hQ⟩
  exact ⟨hinv.rows.release hch hy rfl rfl, hinv.refs.keep rfl (share_keep rfl rfl) rfl,
    hinv.pipes.keep (fun _ _ _ => Iff.rfl) rfl rfl rfl, ops_keep hinv.ops rfl rfl, hinv.live⟩

lemma safe_forkFiles (hnodup : fds.Nodup) (hfds : ∀ fd ∈ fds, r' fd = none)
    (hQ : ∀ r', Q () ⟨some r, 0, ∅, 0, none, some (i, r'), false⟩) :
    (fileProtocol N).Safe p Q (forkFiles p i fds) ⟨some r, 0, ∅, 0, none, some (i, r'), false⟩ := by
  induction fds generalizing r' with
  | nil => exact safe_ret (hQ r')
  | cons fd fds ih =>
    rw [List.nodup_cons] at hnodup
    refine Safe.bind (safe_getFd rfl ?_)
    rcases hfd : r fd with _ | f
    · exact ih hnodup.2 fun fd' hfd' => hfds fd' (List.mem_cons_of_mem _ hfd')
    have hone := FdRow.one_le_count hfd
    refine Safe.bind (safe_filedup rfl ?_ (Set.notMem_empty f) ?_)
    · simp only [Pi.zero_apply]
      omega
    refine Safe.bind (safe_giveFd rfl rfl (hfds fd List.mem_cons_self) ?_ rfl ?_)
    · simp
    refine (congrArg ((fileProtocol N).Safe p Q (forkFiles p i fds))
      (FileGhost.congr ?_ rfl rfl)).mpr (ih hnodup.2 fun fd' hfd' => ?_)
    · simp only [Pi.single_neg]
      abel
    · have hne : fd' ≠ fd := fun h => hnodup.1 (h ▸ hfd')
      rw [update_of_ne hne]
      exact hfds fd' (List.mem_cons_of_mem _ hfd')

lemma safe_forkFrom {l : List (Fin N)} :
    (fileProtocol N).Safe p FileDone (forkFrom p l) (started N r) := by
  induction l with
  | nil => exact safe_ret (fin_of_eq rfl rfl)
  | cons i l ih =>
    refine Safe.bind (safe_claim rfl ih ?_)
    refine Safe.bind (safe_pickBool trivial fun b => ?_)
    cases b with
    | false => exact safe_setChild rfl (.inr ⟨rfl, rfl⟩) (fin_of_eq rfl rfl)
    | true =>
      refine Safe.bind (safe_forkFiles (List.nodup_finRange _) (fun _ _ => rfl) fun r' => ?_)
      exact safe_setChild rfl (.inl rfl) (fin_of_eq rfl rfl)

lemma safe_exitFiles (hfds : ∀ fd, fd ∉ fds → r fd = none) (hQ : Q () (started N fun _ => none)) :
    (fileProtocol N).Safe p Q (exitFiles p fds) (started N r) := by
  induction fds generalizing r with
  | nil =>
    have hr : r = fun _ => none := funext fun fd => hfds fd List.not_mem_nil
    subst hr
    exact safe_ret hQ
  | cons fd fds ih =>
    refine Safe.bind (safe_getFd rfl ?_)
    cases hfd : r fd with
    | none =>
      refine ih fun fd' hfd' => ?_
      by_cases h : fd' = fd
      · rw [h, hfd]
      · exact hfds fd' fun hmem => (List.mem_cons.mp hmem).elim h hfd'
    | some f =>
      have hone := FdRow.one_le_count hfd
      refine Safe.bind (safe_fileclose ?_ (.inl rfl) ?_)
      · simp only [Pi.zero_apply]
        omega
      refine Safe.bind (safe_clearFd rfl hfd ?_)
      refine (congrArg ((fileProtocol N).Safe p Q (exitFiles p fds))
        (FileGhost.congr ?_ ?_ rfl)).mpr (ih fun fd' hfd' => ?_)
      · simp only [Pi.single_neg]
        abel
      · simp
      · by_cases h : fd' = fd
        · rw [h, update_self]
        · rw [update_of_ne h]
          exact hfds fd' fun hmem => (List.mem_cons.mp hmem).elim h hfd'

lemma safe_exitFile {initproc : Fin N} :
    (fileProtocol N).Safe p FileDone (exitFile initproc p) (started N r) := by
  refine Safe.bind (safe_atomic trivial (fun s η γ msg _ _ _ hf => ?_)
    fun s η γ b s' hinv hg _ hf => ⟨trivial, γ p, ?_, ?_⟩)
  · split at hf <;> cases hf
    rfl
  · split at hf <;> cases hf
    rw [update_eq_self]
    exact hinv
  · rw [hg]
    refine Safe.bind (safe_exitFiles (fun fd hfd => absurd (List.mem_finRange fd) hfd) ?_)
    refine Safe.bind (safe_beginOpFile rfl (Safe.bind (safe_endOpFile ?_)))
    refine safe_update trivial fun s η γ hinv hg _ => ?_
    have hrow : (γ p).row = some fun _ => none := by rw [hg]
    refine ⟨trivial, .idle, ?_, none, rfl⟩
    refine ⟨hinv.rows.zombie hrow rfl (by rw [hg]; rfl), hinv.refs.keep rfl (share_keep rfl ?_) ?_,
      hinv.pipes.keep (fun _ _ _ => Iff.rfl) rfl ?_ ?_, ops_keep hinv.ops rfl ?_, hinv.live⟩
    all_goals
      rw [hg]
      rfl

lemma safe_reapFile : (fileProtocol N).Safe p FileDone (reapFile i) (started N r) := by
  refine Safe.bind (safe_atomic trivial (fun s η γ msg _ _ _ hf => ?_)
    fun s η γ b s' hinv hg _ hf => ⟨trivial, γ p, ?_, ?_⟩)
  · split at hf <;> cases hf
  · rw [update_eq_self]
    split at hf
    · rename_i hi
      cases hf
      exact ⟨hinv.rows.reap hi, ⟨hinv.refs.shares, hinv.refs.none, hinv.refs.fresh⟩,
        ⟨hinv.pipes.ends, hinv.pipes.free⟩, hinv.ops, hinv.live⟩
    · cases hf
      exact hinv
  · rw [hg]
    exact safe_ret (fin_of_eq rfl rfl)

end Rules

lemma FileInv.enter {η : ℕ → ℤ} {p : Fin N} (row' : Option FdRow) (h : FileInv s η γ)
    (hg : γ p = { FileGhost.idle with row := row })
    (hrow : ∀ r, row' = some r → s.ofile p = r ∧ s.state p = .RUNNABLE) :
    FileInv s η (update γ p { FileGhost.idle with row := row' }) := by
  refine ⟨h.rows.enter hrow ?_, h.refs.keep rfl (share_keep rfl ?_) ?_,
    h.pipes.keep (fun _ _ _ => Iff.rfl) rfl ?_ ?_, ops_keep h.ops rfl ?_, h.live⟩
  all_goals rw [hg]

/-- Every call on the descriptors keeps the counts of references. -/
lemma fileMachine_verified (initproc : Fin N) :
    (fileProtocol N).Verified (fileMachine initproc) where
  start s η γ p x hinv hg hready := by
    refine ⟨started N (s.ofile p), FileInv.enter (some (s.ofile p)) hinv hg fun r hr => ?_, ?_⟩
    · exact ⟨Option.some.inj hr, hready⟩
    · cases x with
      | openFile => exact safe_sysOpen
      | dup fd => exact safe_sysDup
      | pipe => exact safe_sysPipe
      | fork => exact safe_forkFrom
      | close fd => exact safe_sysClose
      | exit => exact safe_exitFile
      | wait i => exact safe_reapFile
  finish s η γ p hinv hfin := by
    obtain ⟨row, hg⟩ := hfin
    exact FileInv.enter none hinv hg fun r hr => by cases hr

end Xv6
