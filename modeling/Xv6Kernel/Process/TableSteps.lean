import Xv6Kernel.Process.TableInv

/-!
# The actions on the process table keep its invariant

One lemma for each kind of action, about the state and the ghost value of the acting process `p`, by
its effect on the four parts of the invariant.
-/

namespace Xv6

open Function

variable {N : ℕ} {initproc : Fin N} {s s' : ProcTable N} {η η' : TableHist N}
  {γ γ' : Fin N → TableGhost N} {p i q : Fin N} {r t : ProcSlot N} {g : TableGhost N}
  {k : Option (Fin N × ProcSlot N)}
variable {status pid : ℤ}

lemma i32_of_lt {n : ℤ} (h0 : 0 ≤ n) (h : n < 2 ^ 31) : i32 n = n :=
  Int.bmod_eq_of_le (by omega) (by omega)

/-! ## Pids, statuses and kills -/

lemma PidInv.frame (h : PidInv s η γ) (hnext : s'.nextpid = s.nextpid)
    (hpid : ∀ j, (s'.slot j).pid = (s.slot j).pid)
    (hkilled : ∀ j, (s'.slot j).killed = (s.slot j).killed)
    (hfree : ∀ j, (s'.slot j).state = .UNUSED ↔ (s.slot j).state = .UNUSED)
    (hdead : ∀ j, (s'.slot j).state = .ZOMBIE →
      (s.slot j).state = .ZOMBIE ∧ (s'.slot j).xstate = (s.slot j).xstate)
    (ha : η'.allocs = η.allocs) (hz : η'.zero = η.zero) (hs : η'.signalled = η.signalled)
    (hst : η'.status = η.status) (hp : ∀ p l, (γ' p).passed = some l → η'.passed p = l) :
    PidInv s' η' γ' := by
  refine ⟨fun j hj => ?_, fun hz' hb => ?_, hp⟩
  · rw [hst, (hdead j hj).2]
    exact h.zombie j (hdead j hj).1
  · obtain ⟨h1, h2, h3, h4, h5⟩ := h.pids (hz ▸ hz') (ha ▸ hb)
    refine ⟨by rw [hnext, ha, h1], fun j hj => ?_, fun j hj => ?_, fun j k hj hk he => ?_,
      fun j hj => ?_⟩
    · rw [hpid, hkilled]
      exact h2 j ((hfree j).mp hj)
    · rw [hpid, hnext]
      exact h3 j fun hf => hj ((hfree j).mpr hf)
    · rw [hpid, hpid] at he
      exact h4 j k (fun hf => hj ((hfree j).mpr hf)) (fun hf => hk ((hfree k).mpr hf)) he
    · rw [hs]
      exact h5 j (hkilled j ▸ hj)

lemma PidInv.keep (h : PidInv s η γ) (hnext : s'.nextpid = s.nextpid) (hslot : s'.slot = s.slot)
    (hp : g.passed = (γ p).passed) : PidInv s' η (update γ p g) := by
  refine h.frame hnext (fun j => by rw [hslot]) (fun j => by rw [hslot]) (fun j => by rw [hslot])
    (fun j hj => ?_) rfl rfl rfl rfl fun q l hl => h.passed q l ?_
  · rw [hslot] at hj ⊢
    exact ⟨hj, rfl⟩
  · by_cases hq : q = p
    · subst hq
      simpa [hp] using hl
    · simpa [hq] using hl

lemma PidInv.set (h : PidInv s η γ) (hslot : s'.slot = update s.slot i t)
    (hnext : s'.nextpid = s.nextpid) (hpid : t.pid = (s.slot i).pid)
    (hkilled : t.killed = (s.slot i).killed) (hfree : (s.slot i).state ≠ .UNUSED)
    (hfree' : t.state ≠ .UNUSED) (hdead : t.state ≠ .ZOMBIE)
    (ha : η'.allocs = η.allocs) (hz : η'.zero = η.zero) (hs : η'.signalled = η.signalled)
    (hst : η'.status = η.status) (hpass : η'.passed = η.passed)
    (hp : g.passed = (γ p).passed) : PidInv s' η' (update γ p g) := by
  have hcase : ∀ j, s'.slot j = if j = i then t else s.slot j := fun j => by
    rw [hslot, update_apply]
  refine h.frame hnext (fun j => ?_) (fun j => ?_) (fun j => ?_) (fun j hj => ?_) ha hz hs hst
    fun q l hl => ?_
  all_goals try rw [hcase]
  all_goals try rw [hcase] at hj
  · grind
  · grind
  · grind
  · grind
  · rw [hpass]
    refine h.passed q l ?_
    by_cases hq : q = p
    · subst hq
      simpa [hp] using hl
    · simpa [hq] using hl

/-- The steps that kill a process, or take it from or give it back to the table: what has to be said of
pids and kills. -/
lemma PidInv.write (h : PidInv s η γ) (hslot : s'.slot = update s.slot i t)
    (hdead : t.state = .ZOMBIE → η'.status i = some t.xstate)
    (hst : ∀ j, j ≠ i → η'.status j = η.status j) (hok : η'.zero = false → η'.allocs < 2 ^ 31 - 1 →
      (η.zero = false → η.allocs < 2 ^ 31 - 1 → PidOk s η) → PidOk s' η')
    (hpass : η'.passed = η.passed) (hp : g.passed = (γ p).passed) : PidInv s' η' (update γ p g) := by
  refine ⟨fun j hj => ?_, fun hz hb => hok hz hb h.pids, fun q l hl => ?_⟩
  · rw [hslot] at hj ⊢
    by_cases hji : j = i
    · subst hji
      simp only [update_self] at hj ⊢
      exact hdead hj
    · simp only [update_of_ne hji] at hj ⊢
      rw [hst j hji]
      exact h.zombie j hj
  · rw [hpass]
    refine h.passed q l ?_
    by_cases hq : q = p
    · subst hq
      simpa [hp] using hl
    · simpa [hq] using hl

lemma PidOk.clear (h : PidOk s η) {x : Fin N → Option (Fin N)} {y : Fin N → Bool}
    {z : Fin N → Option ℤ} :
    PidOk { s with slot := update s.slot i .free, parent := x }
      { η with forking := y, status := z } := by
  obtain ⟨h1, h2, h3, h4, h5⟩ := h
  refine ⟨h1, ?_, ?_, ?_, ?_⟩ <;> simp only [update_apply] <;> grind [ProcSlot.free]

/-! ## The locks -/

section

variable (h : LockInv s γ)
include h

lemma LockInv.set (hlk : (γ p).lk = some (i, r)) (hpl : s'.plock = s.plock)
    (hw : s'.waitLock = s.waitLock) (hslot : s'.slot = update s.slot i t)
    (hg : g.lk = some (i, t)) (hgw : g.wait = (γ p).wait)
    (hph : g.phase = .doze → (γ p).phase = .doze) : LockInv s' (update γ p g) := by
  obtain ⟨l1, l2, l3, l4⟩ := h
  constructor <;> simp only [hpl, hw, hslot, update_apply] <;> grind

lemma LockInv.keep (hpl : s'.plock = s.plock) (hw : s'.waitLock = s.waitLock)
    (hslot : s'.slot = s.slot) (hg : g.lk = (γ p).lk) (hgw : g.wait = (γ p).wait)
    (hph : g.phase = (γ p).phase) : LockInv s' (update γ p g) := by
  obtain ⟨l1, l2, l3, l4⟩ := h
  constructor <;> simp only [hpl, hw, hslot, update_apply] <;> grind

lemma LockInv.lock (hlk : (γ p).lk = none) (hpl : s.plock i = false) :
    LockInv { s with plock := update s.plock i true }
      (update γ p { γ p with lk := some (i, s.slot i) }) := by
  obtain ⟨l1, l2, l3, l4⟩ := h
  constructor <;> simp only [update_apply] <;> grind

lemma LockInv.unlock (hlk : (γ p).lk = some (i, r))
    (hph : (γ p).phase ≠ .doze) :
    LockInv { s with plock := update s.plock i false }
      (update γ p { γ p with lk := none }) := by
  obtain ⟨l1, l2, l3, l4⟩ := h
  constructor <;> simp only [update_apply] <;> grind

lemma LockInv.acquire (hw : s.waitLock = none) :
    LockInv { s with waitLock := some p } (update γ p { γ p with wait := true }) := by
  obtain ⟨l1, l2, l3, l4⟩ := h
  constructor <;> simp only [update_apply] <;> grind

lemma LockInv.release (hw : (γ p).wait = true) (hg : g.lk = (γ p).lk)
    (hgw : g.wait = false) (hph : g.phase = .doze → ∃ r, (γ p).lk = some (p, r)) :
    LockInv { s with waitLock := none } (update γ p g) := by
  obtain ⟨l1, l2, l3, l4⟩ := h
  constructor <;> simp only [update_apply] <;> grind

lemma LockInv.resume (hlk : (γ p).lk = none) (hpl : s.plock p = false) :
    LockInv { s with slot := update s.slot p t }
      (update γ p { γ p with phase := .run }) := by
  obtain ⟨l1, l2, l3, l4⟩ := h
  constructor <;> simp only [update_apply] <;> grind

end

/-! ## The tree -/

section

variable (h : TreeInv initproc s η γ)
include h

lemma TreeInv.frame (hparent : s'.parent = s.parent)
    (halive : ∀ j, (s'.slot j).state.Alive ↔ (s.slot j).state.Alive)
    (hfree : ∀ j, (s'.slot j).state = .UNUSED ↔ (s.slot j).state = .UNUSED)
    (hused : ∀ j, (s'.slot j).state = .USED ↔ (s.slot j).state = .USED)
    (hη : η'.forking = η.forking) (hact : g.act = (γ p).act) (hfork : g.fork = (γ p).fork)
    (ho : g.orphaned = (γ p).orphaned)
    (hkid : ∀ i, g.kid = some i → g.wait = true ∧ s.parent i = some p)
    (hpar : ∀ x, g.par = some x → g.wait = true ∧ g.act = true ∧ s.parent p = x) :
    TreeInv initproc s' η' (update γ p g) := by
  obtain ⟨t1, t2, t3, t4, t5, t6, t7, t8, t9, t10⟩ := h
  constructor <;>
    simp only [hparent, halive, hfree, hused, hη, ne_eq, update_apply] <;> grind

lemma TreeInv.set (hparent : s'.parent = s.parent) (hslot : s'.slot = update s.slot i t)
    (ht : t.state = (s.slot i).state ∨ t.state.Alive ∧ (s.slot i).state.Alive)
    (hη : η'.forking = η.forking) (hact : g.act = (γ p).act) (hfork : g.fork = (γ p).fork)
    (ho : g.orphaned = (γ p).orphaned) (hkid : g.kid = (γ p).kid) (hpar : g.par = (γ p).par)
    (hw : g.wait = (γ p).wait) : TreeInv initproc s' η' (update γ p g) := by
  have hcase : ∀ j, s'.slot j = if j = i then t else s.slot j := fun j => by
    rw [hslot, update_apply]
  refine h.frame hparent (fun j => ?_) (fun j => ?_) (fun j => ?_) hη hact hfork ho ?_ ?_
  iterate 3
    rw [hcase]
    grind [ProcState.Alive]
  · rw [hkid, hw]
    exact h.kid p
  · rw [hpar, hw, hact]
    exact h.par p

lemma TreeInv.ready (hf : (γ p).fork = some (i, true)) :
    TreeInv initproc { s with slot := update s.slot i { r with state := .RUNNABLE } }
      (η.upd p (.ready i)) (update γ p { γ p with lk := k, fork := none }) := by
  obtain ⟨t1, t2, t3, t4, t5, t6, t7, t8, t9, t10⟩ := h
  constructor <;>
    simp only [update_apply, TableHist.upd] <;> grind [ProcState.Alive, ProcSlot.free]

lemma TreeInv.adopt (hwait : ∀ q, (γ q).wait = true → q = p)
    (hf : (γ p).fork = some (i, false)) (hact : (γ p).act = true) (ho : (γ p).orphaned = ∅)
    (hpar : (γ p).par = none) :
    TreeInv initproc { s with parent := update s.parent i (some p) } η
      (update γ p { γ p with fork := some (i, true) }) := by
  obtain ⟨t1, t2, t3, t4, t5, t6, t7, t8, t9, t10⟩ := h
  constructor <;>
    simp only [update_apply] <;> grind [ProcState.Alive, ProcSlot.free]

lemma TreeInv.reparent (hwait : ∀ q, (γ q).wait = true → q = p)
    (hk : (γ p).kid = some i) (hne : p ≠ initproc) (hpar : (γ p).par = none) :
    TreeInv initproc { s with parent := update s.parent i (some initproc) } η
      (update γ p { γ p with
        kid := none, orphaned := insert i (γ p).orphaned, owe := true }) := by
  obtain ⟨t1, t2, t3, t4, t5, t6, t7, t8, t9, t10⟩ := h
  constructor <;>
    simp only [update_apply] <;> grind [ProcState.Alive, ProcSlot.free]

lemma TreeInv.zombie (hst : t.state = .ZOMBIE) (hact : (γ p).act = true)
    (ho : ∀ i, i ∈ (γ p).orphaned) (hf : (γ p).fork = none) :
    TreeInv initproc { s with slot := update s.slot p t } (η.upd p (.zombie status))
      (update γ p { γ p with lk := k, act := false, par := none }) := by
  obtain ⟨t1, t2, t3, t4, t5, t6, t7, t8, t9, t10⟩ := h
  constructor <;>
    simp only [update_apply, TableHist.upd] <;> grind [ProcState.Alive, ProcSlot.free]

lemma TreeInv.free (hf : (γ p).fork = some (i, false))
    (hact : (γ p).act = true) :
    TreeInv initproc { s with
      slot := update s.slot i .free
      parent := update s.parent i none } (η.upd p (.free i))
      (update γ p { γ p with lk := k, fork := none }) := by
  obtain ⟨t1, t2, t3, t4, t5, t6, t7, t8, t9, t10⟩ := h
  constructor <;>
    simp only [update_apply, TableHist.upd] <;> grind [ProcState.Alive, ProcSlot.free]

lemma TreeInv.reap {xstate : ℤ} (hwait : ∀ q, (γ q).wait = true → q = p)
    (hst : (s.slot i).state = .ZOMBIE) (hk : (γ p).kid = some i) :
    TreeInv initproc { s with
      slot := update s.slot i .free
      parent := update s.parent i none } (η.upd p (.reap i pid xstate))
      (update γ p { γ p with lk := k, kid := none, par := none }) := by
  obtain ⟨t1, t2, t3, t4, t5, t6, t7, t8, t9, t10⟩ := h
  constructor <;>
    simp only [update_apply, TableHist.upd] <;> grind [ProcState.Alive, ProcSlot.free]

lemma TreeInv.alloc (hst : (s.slot i).state = .UNUSED)
    (hst' : t.state = .USED) {next : ℤ} :
    TreeInv initproc { s with slot := update s.slot i t, nextpid := next }
      (η.upd p (.alloc i))
      (update γ p { γ p with lk := k, fork := some (i, false) }) := by
  have hpn : s.parent i = none := by
    cases hpn : s.parent i with
    | none => rfl
    | some q => exact absurd hst (h.parent i q hpn).2
  obtain ⟨t1, t2, t3, t4, t5, t6, t7, t8, t9, t10⟩ := h
  constructor <;>
    simp only [update_apply, TableHist.upd] <;> grind [ProcState.Alive, ProcSlot.free]

end

/-! ## The sleeping processes -/

section

variable (h : SleepInv initproc s γ)
include h

lemma SleepInv.frame (hw : s'.waitLock = s.waitLock) (hslot : ∀ j, (s'.slot j).state = .SLEEPING →
      (s.slot j).state = .SLEEPING ∧ (s'.slot j).chan = (s.slot j).chan)
    (hdead : ∀ j, (s'.slot j).state = .ZOMBIE ↔ (s.slot j).state = .ZOMBIE)
    (hparent : ∀ j q, s'.parent j = some q → (s'.slot j).state = .ZOMBIE → s.parent j = some q)
    (hph : g.phase = (γ p).phase) (hgw : g.wait = (γ p).wait) (hseen : g.seen = (γ p).seen)
    (hclear : g.clear = (γ p).clear) (hgd : g.dead = (γ p).dead) (howe : g.owe = (γ p).owe) :
    SleepInv initproc s' (update γ p g) := by
  obtain ⟨s1, s2, s3, s4, s5⟩ := h
  simp only [ProcTable.Committed] at s3 s5
  constructor <;>
    simp only [hw, update_apply, ProcTable.Committed] <;> grind

lemma SleepInv.acquire (hw : s.waitLock = none) :
    SleepInv initproc { s with waitLock := some p }
      (update γ p { γ p with wait := true }) := by
  obtain ⟨s1, s2, s3, s4, s5⟩ := h
  simp only [ProcTable.Committed] at s3 s5
  constructor <;>
    simp only [update_apply, ProcTable.Committed] <;> grind [ProcSlot.free]

lemma SleepInv.release (hL : LockInv s γ) (hw : (γ p).wait = true)
    (howe : (γ p).owe = false) (hseen : g.seen = ∅) (hclear : g.clear = ∅)
    (hdead : g.dead = none)
    (hph : g.phase = (γ p).phase ∨
      (γ p).phase = .run ∧ g.phase = .doze ∧ ∀ i, i ∈ (γ p).seen) :
    SleepInv initproc { s with waitLock := none } (update γ p g) := by
  have l3 := hL.wait
  obtain ⟨s1, s2, s3, s4, s5⟩ := h
  simp only [ProcTable.Committed] at s3 s5
  constructor <;>
    simp only [update_apply, ProcTable.Committed] <;> grind [ProcSlot.free]

lemma SleepInv.sleep (hph : (γ p).phase = .doze)
    (hst : (s.slot p).state ≠ .ZOMBIE) :
    SleepInv initproc { s with
      slot := update s.slot p { r with chan := some p, state := .SLEEPING } }
      (update γ p { γ p with lk := k, phase := .asleep }) := by
  obtain ⟨s1, s2, s3, s4, s5⟩ := h
  simp only [ProcTable.Committed] at s3 s5
  constructor <;>
    simp only [update_apply, ProcTable.Committed] <;> grind [ProcSlot.free]

lemma SleepInv.resume (hst : (s.slot p).state = .RUNNABLE) :
    SleepInv initproc { s with
      slot := update s.slot p { s.slot p with state := .RUNNING, chan := none } }
      (update γ p { γ p with phase := .run }) := by
  obtain ⟨s1, s2, s3, s4, s5⟩ := h
  simp only [ProcTable.Committed] at s3 s5
  constructor <;>
    simp only [update_apply, ProcTable.Committed] <;> grind [ProcSlot.free]

lemma SleepInv.reparent (hL : LockInv s γ) (hw : (γ p).wait = true)
    (hne : p ≠ initproc) (hseen : (γ p).seen = ∅) :
    SleepInv initproc { s with parent := update s.parent i (some initproc) }
      (update γ p { γ p with
        kid := none, orphaned := insert i (γ p).orphaned, owe := true }) := by
  have l3 := hL.wait
  obtain ⟨s1, s2, s3, s4, s5⟩ := h
  simp only [ProcTable.Committed] at s3 s5
  constructor <;>
    simp only [update_apply, ProcTable.Committed] <;> grind [ProcSlot.free]

lemma SleepInv.zombie (hL : LockInv s γ) (hst : t.state = .ZOMBIE)
    (hw : (γ p).wait = true) (hx : ∀ q, s.parent p = some q → q = p ∨ q ∈ (γ p).clear)
    (hph : (γ p).phase = .run) (hseen : (γ p).seen = ∅) :
    SleepInv initproc { s with slot := update s.slot p t }
      (update γ p { γ p with lk := k, act := false, par := none }) := by
  have l3 := hL.wait
  obtain ⟨s1, s2, s3, s4, s5⟩ := h
  simp only [ProcTable.Committed] at s3 s5
  constructor <;>
    simp only [update_apply, ProcTable.Committed] <;> grind [ProcSlot.free]

lemma SleepInv.reap (hL : LockInv s γ) (hw : (γ p).wait = true)
    (hdd : (γ p).dead = none) :
    SleepInv initproc { s with
      slot := update s.slot i .free
      parent := update s.parent i none }
      (update γ p { γ p with lk := k, kid := none, par := none }) := by
  have l3 := hL.wait
  obtain ⟨s1, s2, s3, s4, s5⟩ := h
  simp only [ProcTable.Committed] at s3 s5
  constructor <;>
    simp only [update_apply, ProcTable.Committed] <;> grind [ProcSlot.free]

end

namespace TableInv

section

variable (h : TableInv initproc s η γ)
include h

lemma wait_unique (hp : (γ p).wait = true) (q : Fin N) (hq : (γ q).wait = true) : q = p := by
  have hp' := (h.lock.wait p).mp hp
  rw [(h.lock.wait q).mp hq] at hp'
  exact Option.some.inj hp'

lemma lockProc (hlk : (γ p).lk = none) (hpl : s.plock i = false) :
    TableInv initproc { s with plock := update s.plock i true } η
      (update γ p { γ p with lk := some (i, s.slot i) }) := by
  refine ⟨h.lock.lock hlk hpl, ?_, ?_, ?_⟩
  · exact h.tree.frame rfl (fun _ => Iff.rfl) (fun _ => Iff.rfl) (fun _ => Iff.rfl) rfl rfl rfl rfl
      (h.tree.kid p) (h.tree.par p)
  · exact h.sleep.frame rfl (fun _ hj => ⟨hj, rfl⟩) (fun _ => Iff.rfl) (fun _ _ hq _ => hq) rfl rfl rfl
      rfl rfl rfl
  · refine h.pid.keep ?_ ?_ ?_ <;> rfl

lemma unlockProc (hlk : (γ p).lk = some (i, r))
    (hph : (γ p).phase ≠ .doze) :
    TableInv initproc { s with plock := update s.plock i false } η
      (update γ p { γ p with lk := none }) := by
  refine ⟨h.lock.unlock hlk hph, ?_, ?_, ?_⟩
  · exact h.tree.frame rfl (fun _ => Iff.rfl) (fun _ => Iff.rfl) (fun _ => Iff.rfl) rfl rfl rfl rfl
      (h.tree.kid p) (h.tree.par p)
  · exact h.sleep.frame rfl (fun _ hj => ⟨hj, rfl⟩) (fun _ => Iff.rfl) (fun _ _ hq _ => hq) rfl rfl rfl
      rfl rfl rfl
  · refine h.pid.keep ?_ ?_ ?_ <;> rfl

lemma acquireWait (hw : s.waitLock = none) :
    TableInv initproc { s with waitLock := some p } η
      (update γ p { γ p with wait := true }) := by
  refine ⟨h.lock.acquire hw, ?_, h.sleep.acquire hw, ?_⟩
  · exact h.tree.frame rfl (fun _ => Iff.rfl) (fun _ => Iff.rfl) (fun _ => Iff.rfl) rfl rfl rfl rfl
      (fun i hi => ⟨rfl, (h.tree.kid p i hi).2⟩) fun x hx => ⟨rfl, (h.tree.par p x hx).2⟩
  · refine h.pid.keep ?_ ?_ ?_ <;> rfl

lemma releaseWait (hw : (γ p).wait = true)
    (howe : (γ p).owe = false) :
    TableInv initproc { s with waitLock := none } η
      (update γ p { γ p with wait := false, kid := none, par := none, seen := ∅,
                                      clear := ∅, dead := none }) := by
  refine ⟨h.lock.release hw rfl rfl (h.lock.doze p), ?_,
    h.sleep.release h.lock hw howe rfl rfl rfl (.inl rfl), ?_⟩
  · refine h.tree.frame rfl (fun _ => Iff.rfl) (fun _ => Iff.rfl) (fun _ => Iff.rfl) rfl rfl rfl rfl
      (fun i hi => ?_) fun x hx => ?_
    · cases hi
    · cases hx
  · refine h.pid.keep ?_ ?_ ?_ <;> rfl

lemma doze (hw : (γ p).wait = true)
    (howe : (γ p).owe = false) (hlk : (γ p).lk = some (p, r)) (hseen : ∀ i, i ∈ (γ p).seen)
    (hph : (γ p).phase = .run) :
    TableInv initproc { s with waitLock := none } η
      (update γ p { γ p with wait := false, kid := none, par := none, seen := ∅,
                                      clear := ∅, dead := none, phase := .doze }) := by
  refine ⟨h.lock.release hw rfl rfl fun _ => ⟨r, hlk⟩, ?_,
    h.sleep.release h.lock hw howe rfl rfl rfl (.inr ⟨hph, rfl, hseen⟩), ?_⟩
  · refine h.tree.frame rfl (fun _ => Iff.rfl) (fun _ => Iff.rfl) (fun _ => Iff.rfl) rfl rfl rfl rfl
      (fun i hi => ?_) fun x hx => ?_
    · cases hi
    · cases hx
  · refine h.pid.keep ?_ ?_ ?_ <;> rfl

lemma wake (hlk : (γ p).lk = some (i, r))
    (hst : r.state = .SLEEPING) :
    TableInv initproc { s with slot := update s.slot i { r with state := .RUNNABLE } } η
      (update γ p { γ p with lk := some (i, { r with state := .RUNNABLE }) }) := by
  have hr := (h.lock.snap p i r hlk).2
  refine ⟨h.lock.set hlk rfl rfl rfl rfl rfl id, ?_, ?_, ?_⟩
  · refine h.tree.set (i := i) rfl rfl (.inr ⟨.inr (.inl rfl), .inl ?_⟩) rfl rfl rfl rfl rfl rfl
      rfl
    rw [hr, hst]
  · refine h.sleep.frame rfl (fun j hj => ?_) (fun j => ?_) (fun _ _ hq _ => hq) rfl rfl rfl rfl rfl rfl
    all_goals
      simp only [update_apply] at *
      grind
  · refine h.pid.set (p := p) (i := i) (t := { r with state := .RUNNABLE })
      ?_ ?_ ?_ ?_ ?_ ?_ ?_ ?_ ?_ ?_ ?_ ?_ ?_ <;> first | rfl | grind

lemma sleepProc (hlk : (γ p).lk = some (p, r))
    (hph : (γ p).phase = .doze) (hact : (γ p).act = true) :
    TableInv initproc { s with
      slot := update s.slot p { r with chan := some p, state := .SLEEPING } } η
      (update γ p { γ p with
        lk := some (p, { r with chan := some p, state := .SLEEPING }), phase := .asleep }) := by
  have hr := (h.lock.snap p p r hlk).2
  have ha := h.tree.act p hact
  refine ⟨h.lock.set hlk rfl rfl rfl rfl rfl (by simp), ?_, h.sleep.sleep hph ?_, ?_⟩
  · exact h.tree.set (i := p) rfl rfl (.inr ⟨.inl rfl, ha⟩) rfl rfl rfl rfl rfl rfl rfl
  · grind [ProcState.Alive]
  · refine h.pid.set (p := p) (i := p) (t := { r with chan := some p, state := .SLEEPING })
      ?_ ?_ ?_ ?_ ?_ ?_ ?_ ?_ ?_ ?_ ?_ ?_ ?_ <;> first | rfl | grind [ProcState.Alive]

lemma resume (hlk : (γ p).lk = none)
    (hst : (s.slot p).state = .RUNNABLE) (hpl : s.plock p = false) :
    TableInv initproc { s with
      slot := update s.slot p { s.slot p with state := .RUNNING, chan := none } } η
      (update γ p { γ p with phase := .run }) := by
  refine ⟨h.lock.resume hlk hpl, ?_, h.sleep.resume hst, ?_⟩
  · exact h.tree.set (i := p) rfl rfl (.inr ⟨.inr (.inr rfl), .inr (.inl hst)⟩) rfl rfl rfl
      rfl rfl rfl rfl
  · refine h.pid.set (p := p) (i := p) (t := { s.slot p with state := .RUNNING, chan := none })
      ?_ ?_ ?_ ?_ ?_ ?_ ?_ ?_ ?_ ?_ ?_ ?_ ?_ <;> first | rfl | grind

lemma ready (hlk : (γ p).lk = some (i, r))
    (hf : (γ p).fork = some (i, true)) :
    TableInv initproc { s with slot := update s.slot i { r with state := .RUNNABLE } }
      (η.upd p (.ready i))
      (update γ p { γ p with
        lk := some (i, { r with state := .RUNNABLE }), fork := none }) := by
  have hr := (h.lock.snap p i r hlk).2
  have hu := (h.tree.fork p i true hf).1
  refine ⟨h.lock.set hlk rfl rfl rfl rfl rfl id, h.tree.ready hf, ?_, ?_⟩
  · refine h.sleep.frame rfl (fun j hj => ?_) (fun j => ?_) (fun _ _ hq _ => hq) rfl rfl rfl rfl rfl rfl
    all_goals
      simp only [update_apply] at *
      grind
  · refine h.pid.set (p := p) (i := i) (t := { r with state := .RUNNABLE })
      ?_ ?_ ?_ ?_ ?_ ?_ ?_ ?_ ?_ ?_ ?_ ?_ ?_ <;> first | rfl | grind

lemma adopt (hf : (γ p).fork = some (i, false))
    (hw : (γ p).wait = true) (hact : (γ p).act = true) (ho : (γ p).orphaned = ∅)
    (hpar : (γ p).par = none) :
    TableInv initproc { s with parent := update s.parent i (some p) } η
      (update γ p { γ p with fork := some (i, true) }) := by
  have hu := (h.tree.fork p i false hf).1
  refine ⟨h.lock.keep rfl rfl rfl rfl rfl rfl, h.tree.adopt (h.wait_unique hw) hf hact ho hpar, ?_, ?_⟩
  · refine h.sleep.frame rfl (fun _ hj => ⟨hj, rfl⟩) (fun _ => Iff.rfl) (fun j q hq hz => ?_) rfl rfl rfl
      rfl rfl rfl
    simp only [update_apply] at hq
    grind
  · refine h.pid.keep ?_ ?_ ?_ <;> rfl

lemma reparent (hk : (γ p).kid = some i)
    (hne : p ≠ initproc) (hpar : (γ p).par = none) (hseen : (γ p).seen = ∅) :
    TableInv initproc { s with parent := update s.parent i (some initproc) } η
      (update γ p { γ p with
        kid := none, orphaned := insert i (γ p).orphaned, owe := true }) := by
  have hw := (h.tree.kid p i hk).1
  refine ⟨h.lock.keep rfl rfl rfl rfl rfl rfl, h.tree.reparent (h.wait_unique hw) hk hne hpar,
    h.sleep.reparent h.lock hw hne hseen, ?_⟩
  refine h.pid.keep ?_ ?_ ?_ <;> rfl

lemma zombie {x : Option (Fin N)} (hlk : (γ p).lk = some (p, r)) (hw : (γ p).wait = true)
    (hact : (γ p).act = true) (ho : ∀ i, i ∈ (γ p).orphaned) (hpar : (γ p).par = some x)
    (hx : ∀ q, x = some q → q = p ∨ q ∈ (γ p).clear) (hph : (γ p).phase = .run)
    (hf : (γ p).fork = none) (hseen : (γ p).seen = ∅) :
    TableInv initproc { s with
      slot := update s.slot p { r with xstate := status, state := .ZOMBIE } }
      (η.upd p (.zombie status))
      (update γ p { γ p with
        lk := some (p, { r with xstate := status, state := .ZOMBIE }), act := false,
        par := none }) := by
  have hr := (h.lock.snap p p r hlk).2
  have hne : (s.slot p).state ≠ .UNUSED := by
    obtain ha | ha | ha := h.tree.act p hact <;> simp [ha]
  refine ⟨h.lock.set hlk rfl rfl rfl rfl rfl id, h.tree.zombie rfl hact ho hf,
    h.sleep.zombie h.lock rfl hw (fun q hq => hx q ?_) hph hseen, ?_⟩
  · rw [← (h.tree.par p x hpar).2.2, hq]
  · refine h.pid.write (p := p) (i := p) (t := { r with xstate := status, state := .ZOMBIE }) ?_
      (fun _ => update_self ..) (fun j hj => update_of_ne hj _ _)
      (fun hz hb hpids => ?_) ?_ ?_
    any_goals rfl
    obtain ⟨h1, h2, h3, h4, h5⟩ := hpids hz hb
    refine ⟨h1, ?_, ?_, ?_, ?_⟩ <;> simp only [update_apply, TableHist.upd] <;> grind

lemma free (hlk : (γ p).lk = some (i, r))
    (hf : (γ p).fork = some (i, false)) (hact : (γ p).act = true) :
    TableInv initproc { s with
      slot := update s.slot i .free
      parent := update s.parent i none } (η.upd p (.free i))
      (update γ p { γ p with lk := some (i, .free), fork := none }) := by
  have hu := (h.tree.fork p i false hf).1
  refine ⟨h.lock.set hlk rfl rfl rfl rfl rfl id, h.tree.free hf hact, ?_, ?_⟩
  · refine h.sleep.frame rfl (fun j hj => ?_) (fun j => ?_) (fun j q hq _ => ?_) rfl rfl rfl rfl rfl rfl
    all_goals
      simp only [update_apply] at *
      grind [ProcSlot.free]
  · refine h.pid.write (p := p) (i := i) (t := .free) ?_ ?_ ?_ ?_ ?_ ?_
    case refine_3 => exact fun _ _ => rfl
    case refine_4 => exact fun hz hb hpids => (hpids hz hb).clear
    all_goals first | rfl | simp [ProcSlot.free]

lemma reap (pid xstate : ℤ) (hlk : (γ p).lk = some (i, r))
    (hst : r.state = .ZOMBIE) (hw : (γ p).wait = true) (hdd : (γ p).dead = none)
    (hk : (γ p).kid = some i) :
    TableInv initproc { s with
      slot := update s.slot i .free
      parent := update s.parent i none } (η.upd p (.reap i pid xstate))
      (update γ p { γ p with lk := some (i, .free), kid := none, par := none }) := by
  have hr := (h.lock.snap p i r hlk).2
  refine ⟨h.lock.set hlk rfl rfl rfl rfl rfl id,
    h.tree.reap (h.wait_unique hw) (by rw [hr, hst]) hk, h.sleep.reap h.lock hw hdd, ?_⟩
  refine h.pid.write (p := p) (i := i) (t := .free) ?_ ?_ ?_ ?_ ?_ ?_
  case refine_3 => exact fun j hj => update_of_ne hj _ _
  case refine_4 => exact fun hz hb hpids => (hpids hz hb).clear
  all_goals first | rfl | simp [ProcSlot.free]

lemma alloc (hlk : (γ p).lk = some (i, r))
    (hst : r.state = .UNUSED) :
    TableInv initproc { s with
      slot := update s.slot i { r with pid := s.nextpid, state := .USED }
      nextpid := i32 (s.nextpid + 1) } (η.upd p (.alloc i))
      (update γ p { γ p with
        lk := some (i, { r with pid := s.nextpid, state := .USED }), fork := some (i, false) }) := by
  have hr := (h.lock.snap p i r hlk).2
  have hu : (s.slot i).state = .UNUSED := by rw [hr, hst]
  refine ⟨h.lock.set hlk rfl rfl rfl rfl rfl id, h.tree.alloc hu rfl, ?_, ?_⟩
  · refine h.sleep.frame rfl (fun j hj => ?_) (fun j => ?_) (fun _ _ hq _ => hq) rfl rfl rfl rfl rfl rfl
    all_goals
      simp only [update_apply] at *
      grind
  · refine h.pid.write (p := p) (i := i) (t := { r with pid := s.nextpid, state := .USED }) ?_ ?_ ?_
      (fun hz hb hpids => ?_) ?_ ?_
    case refine_3 => exact fun _ _ => rfl
    any_goals rfl
    · simp
    have hb' : η.allocs + 1 < 2 ^ 31 - 1 := hb
    obtain ⟨h1, h2, h3, h4, h5⟩ := hpids hz (by omega)
    have hnext : i32 (s.nextpid + 1) = s.nextpid + 1 := i32_of_lt (by omega) (by omega)
    constructor <;> simp only [update_apply, TableHist.upd, hnext] <;> grind

lemma kill (hlk : (γ p).lk = some (i, r)) (hpid : r.pid = pid) :
    TableInv initproc { s with slot := update s.slot i { r with
      killed := true, state := if r.state = .SLEEPING then .RUNNABLE else r.state } }
      (η.upd p (.kill pid i))
      (update γ p { γ p with lk := some (i, { r with
        killed := true, state := if r.state = .SLEEPING then .RUNNABLE else r.state }) }) := by
  have hr := (h.lock.snap p i r hlk).2
  refine ⟨h.lock.set hlk rfl rfl rfl rfl rfl id, ?_, ?_, ?_⟩
  · refine h.tree.set (i := i) rfl rfl ?_ rfl rfl rfl rfl rfl rfl rfl
    simp only [hr]
    split
    · exact .inr ⟨.inr (.inl rfl), .inl ‹_›⟩
    · exact .inl rfl
  · refine h.sleep.frame rfl (fun j hj => ?_) (fun j => ?_) (fun _ _ hq _ => hq) rfl rfl rfl rfl rfl rfl
    all_goals
      simp only [update_apply] at *
      grind
  · have hz := h.pid.zombie i
    refine h.pid.write (p := p) (i := i) (t := { r with
        killed := true, state := if r.state = .SLEEPING then .RUNNABLE else r.state }) ?_
      (fun hdead => ?_) ?_ (fun hz hb hpids => ?_) ?_ ?_
    case refine_3 => exact fun _ _ => rfl
    any_goals rfl
    · simp only [TableHist.upd]
      grind
    · simp only [TableHist.upd, Bool.or_eq_false_iff, beq_eq_false_iff_ne] at hz
      obtain ⟨h1, h2, h3, h4, h5⟩ := hpids hz.1 hb
      refine ⟨h1, ?_, ?_, ?_, ?_⟩ <;> simp only [update_apply, TableHist.upd] <;> grind

lemma setkilled (hlk : (γ p).lk = some (p, r))
    (hact : (γ p).act = true) :
    TableInv initproc { s with slot := update s.slot p { r with killed := true } }
      (η.upd p (.setkilled p))
      (update γ p { γ p with lk := some (p, { r with killed := true }) }) := by
  have hr := (h.lock.snap p p r hlk).2
  refine ⟨h.lock.set hlk rfl rfl rfl rfl rfl id, ?_, ?_, ?_⟩
  · exact h.tree.set (i := p) rfl rfl (.inl (by rw [hr])) rfl rfl rfl rfl rfl rfl rfl
  · refine h.sleep.frame rfl (fun j hj => ?_) (fun j => ?_) (fun _ _ hq _ => hq) rfl rfl rfl rfl rfl rfl
    all_goals
      simp only [update_apply] at *
      grind
  · have hz := h.pid.zombie p
    have ha := h.tree.act p hact
    refine h.pid.write (p := p) (i := p) (t := { r with killed := true }) ?_
      (fun hdead => ?_) ?_ (fun hz hb hpids => ?_) ?_ ?_
    case refine_3 => exact fun _ _ => rfl
    any_goals rfl
    · simp only [TableHist.upd]
      grind
    · obtain ⟨h1, h2, h3, h4, h5⟩ := hpids hz hb
      refine ⟨h1, ?_, ?_, ?_, ?_⟩ <;> simp only [update_apply, TableHist.upd] <;>
        grind [ProcState.Alive]

end

end TableInv

end Xv6
