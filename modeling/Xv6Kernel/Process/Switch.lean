import Xv6Kernel.Process.SchedInv

/-!
# A process runs on one processor

The locks of the processes across the switches between a process and the scheduler.
-/

namespace Xv6

open Function

variable {n : ℕ} {C : Type}
variable {p : Fin n} {chan : Fin n → ℕ} {l r : List (Op n)} {g : Option (Fin n)}
variable {q : Fin n} {t : SchedSys n C} {x : ℕ}

/-- What a thread does when it is resumed: it gives back the lock that the scheduler has taken, or it is
the thread of a zombie. -/
def Resumes (p : Fin n) (l : List (Op n)) : Prop :=
  (∃ r, l = .release (.proc p) :: r) ∨ (∃ r, l = .tidy :: .release (.proc p) :: r) ∨
    ∃ r, l = .zombieExit :: r

/-- The steps `l` of the thread of `self`, begun with the lock of the process `h` held and with no other
lock of a process, take and give back these locks in turn. -/
def LockPath (self : Option (Fin n)) : List (Op n) → Option (Fin n) → Prop
  | [], h => h = none
  | .acquire (.proc q) :: r, h => h = none ∧ LockPath self r (some q)
  | .release (.proc q) :: r, h => h = some q ∧ LockPath self r none
  | .sleepRelease _ (.proc _) :: _, _ => False
  | .acquire (.other _) :: r, h | .release (.other _) :: r, h | .sleepRelease _ (.other _) :: r, h =>
    LockPath self r h
  | .sched :: r, h => ∃ p, self = some p ∧ h = some p ∧ Resumes p r ∧ LockPath self r (some p)
  | .dispatch q :: r, h => self = none ∧ h = some q ∧ r = [.release (.proc q)]
  | .alloc q _ :: r, h => h = some q ∧ r = []
  | .zombieExit :: _, _ => True
  | .setSleeping _ :: r, h | .setRunnable :: r, h | .setZombie :: r, h | .tidy :: r, h |
    .test _ _ :: r, h | .wakeupEnd _ :: r, h | .kill _ :: r, h | .ready _ :: r, h | .reap _ :: r, h =>
    LockPath self r h

lemma LockPath.yield (h : LockPath (some p) r none) : LockPath (some p) (yieldCode p ++ r) none := by
  simp [yieldCode, LockPath, Resumes, h]

lemma LockPath.wakeup {self : Option (Fin n)}
    (h : LockPath self r none) : LockPath self (wakeupCode self x ++ r) none := by
  have hloop : ∀ l : List (Fin n),
      LockPath self (l.flatMap (wakeupOne self x) ++ (.wakeupEnd x :: r)) none := by
    intro l
    induction l with
    | nil => exact h
    | cons p l ih =>
      rw [List.flatMap_cons, List.append_assoc, wakeupOne]
      split
      · exact ih
      · simpa [LockPath] using ih
  simpa [wakeupCode] using hloop (List.finRange n)

lemma LockPath.intr {self : Option (Fin n)} {k : ℕ}
    (h : LockPath self r none) : LockPath self (intrCode self k x ++ r) none := by
  show LockPath self (wakeupCode self x ++ [.release (.other k)] ++ r) none
  rw [List.append_assoc]
  exact LockPath.wakeup h

lemma LockPath.call (x : KernelCall n) : LockPath (some p) (x.code p) none := by
  cases x with
  | wakeup chan =>
    rw [KernelCall.code, ← List.append_nil (wakeupCode _ _)]
    exact LockPath.wakeup rfl
  | _ => simp [KernelCall.code, LockPath, Resumes, sleepCode, yieldCode, exitCode, killCode, forkCode,
      waitCode]

structure SwitchInv (s : SchedSys n C) : Prop where
  running : ∀ p, s.state p = .RUNNING → ∃ c, s.cur c = some p
  active : ∀ c, ∃ h, LockPath (s.cur c) (s.threadCode c (s.cur c)) h ∧
    ∀ q, s.lock (.proc q) = some c ↔ h = some q
  away : ∀ c p, s.cur c = some p → s.scode c = [.release (.proc p)]
  switched : ∀ p, (∀ c, s.cur c ≠ some p) → s.state p ≠ .UNUSED →
    Resumes p (s.code p) ∧ LockPath (some p) (s.code p) (some p)

section Machine

variable [DecidableEq C] {s : SchedSys n C} {c : C} {self : Option (Fin n)} {op : Op n}
  {rest : List (Op n)}

section

variable (h : SwitchInv s) (hS : SchedInv s)
include h hS

lemma SwitchInv.advance (hc : s.cur c = self)
    {state : Fin n → ProcState} {lock : Lk n → Option C} {noff : C → ℕ}
    (hrun : ∀ p, state p = .RUNNING → s.state p = .RUNNING)
    (hfree : ∀ p, self ≠ some p → state p ≠ .UNUSED → s.state p ≠ .UNUSED) (hl : LockPath self l g)
    (hlock : ∀ q, lock (.proc q) = some c ↔ g = some q)
    (hother : ∀ c', c' ≠ c → ∀ q, lock (.proc q) = some c' ↔ s.lock (.proc q) = some c') :
    SwitchInv ({ s with state := state, chan := chan, lock := lock, noff := noff }.setCode c self
      l) := by
  refine ⟨fun p hp => h.running p (hrun p hp), fun c' => ?_, fun c' p hp => ?_, fun p hp hst => ?_⟩
  · by_cases hcc : c' = c
    · subst hcc
      refine ⟨g, ?_, hlock⟩
      cases self with
      | none => simpa [SchedSys.setCode, SchedSys.threadCode, hc] using hl
      | some p => simpa [SchedSys.setCode, SchedSys.threadCode, hc] using hl
    obtain ⟨g', hg', hlk'⟩ := h.active c'
    refine ⟨g', ?_, fun q => (hother c' hcc q).trans (hlk' q)⟩
    rcases hc' : s.cur c' with _ | q
    · rw [hc'] at hg'
      cases self <;> simpa [SchedSys.setCode, SchedSys.threadCode, hc', hcc] using hg'
    rw [hc'] at hg'
    cases self with
    | none => simpa [SchedSys.setCode, SchedSys.threadCode, hc'] using hg'
    | some p =>
      have hqp : q ≠ p := fun e => hcc (hS.disc.uniq c' c q hc' (e ▸ hc))
      simpa [SchedSys.setCode, SchedSys.threadCode, hc', hqp] using hg'
  · have hp' : s.cur c' = some p := hp
    cases self with
    | none =>
      have hcc : c' ≠ c := by
        rintro rfl
        rw [hc] at hp'
        cases hp'
      simpa [SchedSys.setCode, hcc] using h.away c' p hp'
    | some q => exact h.away c' p hp'
  · have hself : self ≠ some p := fun e => hp c (e ▸ hc)
    have hsw := h.switched p hp (hfree p hself hst)
    cases self with
    | none => exact hsw
    | some q =>
      have hpq : p ≠ q := fun e => hself (by rw [e])
      simpa [SchedSys.setCode, hpq] using hsw

lemma SwitchInv.goOn (hc : s.cur c = self)
    (hl : LockPath self l g) (hlock : ∀ q, s.lock (.proc q) = some c ↔ g = some q) :
    SwitchInv ({ s with chan := chan }.setCode c self l) :=
  h.advance hS hc (fun _ hp => hp) (fun _ _ hp => hp) hl hlock fun _ _ _ => Iff.rfl

lemma SwitchInv.leave (hc : s.cur c = some p)
    (hst : s.state p ≠ .RUNNING) (hres : Resumes p rest) (hl : LockPath (some p) rest (some p))
    (hlock : ∀ q, s.lock (.proc q) = some c ↔ some p = some q) :
    SwitchInv ({ s with cur := update s.cur c none }.setCode c (some p) rest) := by
  have haway := h.away c p hc
  refine ⟨fun q hq => ?_, fun c' => ?_, fun c' q hq => ?_, fun q hq hstq => ?_⟩
  · have hqp : q ≠ p := fun e => hst (e ▸ hq)
    obtain ⟨c', hc'⟩ := h.running q hq
    have hcc : c' ≠ c := by
      rintro rfl
      rw [hc] at hc'
      exact hqp (Option.some.inj hc').symm
    exact ⟨c', by simpa [SchedSys.setCode, hcc] using hc'⟩
  · by_cases hcc : c' = c
    · subst hcc
      refine ⟨some p, ?_, hlock⟩
      simp [SchedSys.setCode, SchedSys.threadCode, haway, LockPath]
    obtain ⟨g, hg, hlk⟩ := h.active c'
    refine ⟨g, ?_, hlk⟩
    cases hc' : s.cur c' with
    | none =>
      rw [hc'] at hg
      simpa [SchedSys.setCode, SchedSys.threadCode, hc', hcc] using hg
    | some q =>
      rw [hc'] at hg
      have hqp : q ≠ p := fun e => hcc (hS.disc.uniq c' c q hc' (e ▸ hc))
      simpa [SchedSys.setCode, SchedSys.threadCode, hc', hcc, hqp] using hg
  · have hcc : c' ≠ c := by
      rintro rfl
      simp [SchedSys.setCode] at hq
    exact h.away c' q (by simpa [SchedSys.setCode, hcc] using hq)
  · by_cases hqp : q = p
    · subst hqp
      simpa [SchedSys.setCode] using And.intro hres hl
    have hsw := h.switched q (fun c' hc' => ?_) hstq
    · simpa [SchedSys.setCode, hqp] using hsw
    · have hcc : c' ≠ c := by
        rintro rfl
        rw [hc] at hc'
        exact hqp (Option.some.inj hc').symm
      exact hq c' (by simpa [SchedSys.setCode, hcc] using hc')

lemma SwitchInv.enter (hc : s.cur c = none)
    (hst : s.state p = .RUNNABLE) (hlock : ∀ q, s.lock (.proc q) = some c ↔ some p = some q) :
    SwitchInv ({ s.setState p .RUNNING with
      cur := update s.cur c (some p) }.setCode c none [.release (.proc p)]) := by
  have hno : ∀ c', s.cur c' ≠ some p := by
    intro c' hc'
    rcases hS.running c' p hc' with hr | ⟨hl, -⟩
    · rw [hst] at hr
      cases hr
    · rw [(hlock p).mpr rfl] at hl
      rw [← Option.some.inj hl, hc] at hc'
      cases hc'
  obtain ⟨-, hpath⟩ := h.switched p hno (by simp [hst])
  refine ⟨fun q hq => ?_, fun c' => ?_, fun c' q hq => ?_, fun q hq hstq => ?_⟩
  · by_cases hqp : q = p
    · subst hqp
      exact ⟨c, by simp [SchedSys.setCode]⟩
    obtain ⟨c', hc'⟩ := h.running q (by simpa [SchedSys.setCode, SchedSys.setState, hqp] using hq)
    have hcc : c' ≠ c := by
      rintro rfl
      rw [hc] at hc'
      cases hc'
    exact ⟨c', by simpa [SchedSys.setCode, hcc] using hc'⟩
  · by_cases hcc : c' = c
    · subst hcc
      refine ⟨some p, ?_, hlock⟩
      simpa [SchedSys.setCode, SchedSys.setState, SchedSys.threadCode] using hpath
    obtain ⟨g, hg, hlk⟩ := h.active c'
    refine ⟨g, ?_, hlk⟩
    cases hc' : s.cur c' <;> rw [hc'] at hg <;>
      simpa [SchedSys.setCode, SchedSys.setState, SchedSys.threadCode, hc', hcc] using hg
  · by_cases hcc : c' = c
    · subst hcc
      have hqp : p = q := by simpa [SchedSys.setCode] using hq
      simp [SchedSys.setCode, hqp]
    · simpa [SchedSys.setCode, SchedSys.setState, hcc] using
        h.away c' q (by simpa [SchedSys.setCode, hcc] using hq)
  · have hqp : q ≠ p := by
      rintro rfl
      exact hq c (by simp [SchedSys.setCode])
    refine h.switched q (fun c' hc' => hq c' ?_) ?_
    · have hcc : c' ≠ c := by
        rintro rfl
        rw [hc] at hc'
        cases hc'
      simpa [SchedSys.setCode, hcc] using hc'
    · simpa [SchedSys.setCode, SchedSys.setState, hqp] using hstq

end

section

variable (h : SwitchInv s) (hS : SchedInv s)
include h hS

lemma SwitchInv.alloc (hc : s.cur c = some p)
    (hst : s.state q = .UNUSED) (hlock : ∀ r, s.lock (.proc r) = some c ↔ some q = some r) :
    SwitchInv ({ s.setState q .USED with
      code := update s.code q (forkretCode q) }.setCode c (some p) (forkRest q)) := by
  have hno : ∀ c', s.cur c' ≠ some q := by
    intro c' hc'
    rcases hS.running c' q hc' with hr | ⟨-, ⟨hl | hl | hl, -⟩ | ⟨hl, -⟩⟩
    all_goals
      rw [hst] at *
      simp at *
  have hqp : q ≠ p := fun e => hno c (e ▸ hc)
  refine ⟨fun r hr => ?_, fun c' => ?_, fun c' r hr => h.away c' r hr, fun r hr hstr => ?_⟩
  · have hrq : r ≠ q := by
      rintro rfl
      simp [SchedSys.setCode, SchedSys.setState] at hr
    exact h.running r (by simpa [SchedSys.setCode, SchedSys.setState, hrq] using hr)
  · by_cases hcc : c' = c
    · subst hcc
      refine ⟨some q, ?_, hlock⟩
      simp [SchedSys.setCode, SchedSys.setState, SchedSys.threadCode, hc, forkRest, LockPath]
    obtain ⟨g, hg, hlk⟩ := h.active c'
    refine ⟨g, ?_, hlk⟩
    cases hc' : s.cur c' with
    | none =>
      rw [hc'] at hg
      simpa [SchedSys.setCode, SchedSys.setState, SchedSys.threadCode, hc'] using hg
    | some r =>
      rw [hc'] at hg
      have hrp : r ≠ p := fun e => hcc (hS.disc.uniq c' c r hc' (e ▸ hc))
      have hrq : r ≠ q := fun e => hno c' (e ▸ hc')
      simpa [SchedSys.setCode, SchedSys.setState, SchedSys.threadCode, hc', hrp, hrq] using hg
  · have hr' : ∀ c', s.cur c' ≠ some r := hr
    have hrp : r ≠ p := fun e => hr' c (e ▸ hc)
    by_cases hrq : r = q
    · subst hrq
      simp [SchedSys.setCode, hrp, forkretCode, Resumes, LockPath]
    · have hsw := h.switched r hr' (by simpa [SchedSys.setCode, SchedSys.setState, hrq] using hstr)
      simpa [SchedSys.setCode, SchedSys.setState, hrp, hrq] using hsw

lemma SwitchInv.setState (hc : s.cur c = self) {x : ProcState}
    (hx : x ≠ .RUNNING) (hq : self = some q ∨ x = .UNUSED ∨ s.state q ≠ .UNUSED)
    (hl : LockPath self rest g) (hlock : ∀ q, s.lock (.proc q) = some c ↔ g = some q) :
    SwitchInv ({ s with state := update s.state q x,
                        chan := chan }.setCode c self rest) := by
  refine h.advance hS hc (fun p hp => ?_) (fun p hself hp => ?_) hl hlock fun _ _ _ => Iff.rfl
  · have hpq : p ≠ q := by
      rintro rfl
      rw [update_self] at hp
      exact hx hp
    rwa [update_of_ne hpq] at hp
  · by_cases hpq : p = q
    · subst hpq
      rw [update_self] at hp
      exact (hq.resolve_left hself).resolve_left hp
    · rwa [update_of_ne hpq] at hp

lemma SwitchInv.exec (hc : s.cur c = self)
    (hcode : s.threadCode c self = op :: rest)
    (hrun : op.run c self s = some (t, l)) : SwitchInv (t.setCode c self (l ++ rest)) := by
  have hok := hS.codeOk hc
  rw [hcode] at hok
  obtain ⟨g, hpath, hlock⟩ := h.active c
  rw [hc, hcode] at hpath
  cases op with
  | acquire k =>
    simp only [Op.run] at hrun
    split at hrun <;> cases hrun
    cases k with
    | proc q =>
      obtain ⟨rfl, hpath⟩ := hpath
      refine h.advance hS hc (fun _ hp => hp) (fun _ _ hp => hp) hpath (fun r => ?_) fun c' hcc r => ?_
      · by_cases hr : r = q
        · simp [hr]
        · have := hlock r
          simpa [hr, Ne.symm hr] using this
      · by_cases hr : r = q
        · subst hr
          rename_i hfree
          simp [hfree, Ne.symm hcc]
        · simp [hr]
    | other k =>
      exact h.advance hS hc (fun _ hp => hp) (fun _ _ hp => hp) hpath (fun r => by simpa using hlock r)
        fun c' _ r => by simp
  | release k =>
    simp only [Op.run] at hrun
    split at hrun <;> cases hrun
    cases k with
    | proc q =>
      obtain ⟨rfl, hpath⟩ := hpath
      refine h.advance hS hc (fun _ hp => hp) (fun _ _ hp => hp) hpath (fun r => ?_) fun c' hcc r => ?_
      · by_cases hr : r = q
        · simp [hr]
        · have := hlock r
          simpa [hr, Ne.symm hr] using this
      · by_cases hr : r = q
        · subst hr
          rename_i hheld
          simp [hheld, Ne.symm hcc]
        · simp [hr]
    | other k =>
      exact h.advance hS hc (fun _ hp => hp) (fun _ _ hp => hp) hpath (fun r => by simpa using hlock r)
        fun c' _ r => by simp
  | sleepRelease x k =>
    simp only [Op.run] at hrun
    split at hrun <;> cases hrun
    cases k with
    | proc q => exact hpath.elim
    | other k =>
      exact h.advance hS hc (fun _ hp => hp) (fun _ _ hp => hp) hpath (fun r => by simpa using hlock r)
        fun c' _ r => by simp
  | setSleeping x =>
    obtain ⟨⟨p, rfl, -⟩, -⟩ := hok
    cases hrun
    exact h.setState hS hc (by simp) (.inl rfl) hpath hlock
  | setRunnable =>
    obtain ⟨⟨p, rfl, -⟩, -⟩ := hok
    cases hrun
    exact h.setState hS hc (by simp) (.inl rfl) hpath hlock
  | setZombie =>
    obtain ⟨⟨p, rfl, -⟩, -⟩ := hok
    cases hrun
    exact h.setState hS hc (by simp) (.inl rfl) hpath hlock
  | sched =>
    obtain ⟨p, rfl, rfl, hres, hpath⟩ := hpath
    simp only [Op.run, Option.bind_some] at hrun
    split at hrun <;> cases hrun
    rename_i hguard
    exact h.leave hS hc hguard.2.2 hres hpath hlock
  | tidy =>
    obtain ⟨⟨p, rfl⟩, -⟩ := hok
    cases hrun
    exact h.goOn hS hc hpath hlock
  | test p x =>
    simp only [Op.run] at hrun
    split at hrun <;> cases hrun
    · rename_i hst
      exact h.setState hS hc (by simp) (.inr (.inr (by simp [hst.1]))) hpath hlock
    · exact h.goOn hS hc hpath hlock
  | wakeupEnd x =>
    cases hrun
    exact h.goOn hS hc hpath hlock
  | dispatch p =>
    obtain ⟨rfl, rfl, rfl⟩ := hpath
    simp only [Op.run] at hrun
    split at hrun <;> cases hrun
    · exact h.enter hS hc ‹_› hlock
    · exact h.goOn hS hc (by simp [LockPath]) hlock
  | kill p =>
    simp only [Op.run] at hrun
    split at hrun <;> cases hrun
    · rename_i hst
      exact h.setState hS hc (by simp) (.inr (.inr (by simp [hst]))) hpath hlock
    · exact h.goOn hS hc hpath hlock
  | alloc p ok =>
    obtain ⟨-, -, hself⟩ := hok
    obtain ⟨q, rfl⟩ := Option.ne_none_iff_exists'.mp hself
    obtain ⟨rfl, rfl⟩ := hpath
    simp only [Op.run] at hrun
    split at hrun <;> cases hrun
    · rw [List.append_nil]
      exact h.alloc hS hc (‹_ ∧ _›).1 hlock
    · exact h.goOn hS hc (by simp [LockPath]) hlock
  | ready p =>
    cases hrun
    -- the process is `USED`: it is made runnable by the `fork` that has taken it
    have hmem : Op.ready p ∈ s.threadCode c self := by rw [hcode]; exact List.mem_cons_self
    have hused : s.state p = .USED := by
      cases self with
      | none => exact absurd hmem (hS.ready.scheduler p c)
      | some q => exact hS.ready.used p q hmem
    exact h.setState hS hc (by simp) (.inr (.inr (by simp [hused]))) hpath hlock
  | reap p =>
    simp only [Op.run] at hrun
    split at hrun <;> cases hrun
    · exact h.setState hS hc (by simp) (.inr (.inl rfl)) hpath hlock
    · exact h.goOn hS hc hpath hlock
  | zombieExit => cases hrun

lemma SwitchInv.push (hfree : ∀ q, s.lock (.proc q) ≠ some c)
    (hl : LockPath (s.cur c) (s.threadCode c (s.cur c)) none → LockPath (s.cur c) l none) :
    SwitchInv (s.setCode c (s.cur c) l) := by
  obtain ⟨g, hpath, hlock⟩ := h.active c
  have hg : g = none := by
    cases g with
    | none => rfl
    | some q => exact absurd ((hlock q).mpr rfl) (hfree q)
  subst hg
  exact h.goOn hS rfl (hl hpath) hlock

end

omit [DecidableEq C] in
lemma SwitchInv.free_of_nil (h : SwitchInv s) (hcode : s.threadCode c (s.cur c) = [])
    (q : Fin n) : s.lock (.proc q) ≠ some c := by
  obtain ⟨g, hpath, hlock⟩ := h.active c
  rw [hcode] at hpath
  have hg : g = none := hpath
  rw [ne_eq, hlock q, hg]
  simp

/-- Every step keeps the order of switches and locks. -/
lemma SwitchInv.next (h : SwitchInv s) (hS : SchedInv s) {x : SchedChoice n C} {e : SchedEvent n}
    (hs : s.next x = some (e, t)) : SwitchInv t := by
  cases SchedSys.takes hs with
  | @exec c op rest l s' hcode hrun =>
    exact h.exec hS rfl hcode hrun
  | @call c x p hc hready =>
    have hcode : s.threadCode c (s.cur c) = [] := by rw [hc]; exact hready.1
    have hpush := h.push hS (h.free_of_nil hcode) (l := x.code p) fun _ => by
      rw [hc]
      exact LockPath.call x
    rwa [hc] at hpush
  | @scan c p ps hc hcode =>
    have hcode' : s.threadCode c (s.cur c) = [] := by rw [hc]; exact hcode
    have hpush := h.push hS (h.free_of_nil hcode') (l := schedCode p) fun _ => by
      rw [hc]
      simp [schedCode, LockPath]
    rw [hc] at hpush
    exact ⟨hpush.running, hpush.active, hpush.away, hpush.switched⟩
  | rescan => exact ⟨h.running, h.active, h.away, h.switched⟩
  | @intr c k x hnoff =>
    refine h.push hS (fun q hq => ?_) LockPath.intr
    have hmem : Lk.proc q ∈ {k | s.lock k = some c} := hq
    rw [hS.held_empty hnoff] at hmem
    cases hmem
  | @timer c p hc hnoff =>
    have hpush := h.push hS (c := c) (l := yieldCode p ++ s.threadCode c (s.cur c)) (fun q hq => ?_)
      fun hl => by
        rw [hc] at hl ⊢
        exact LockPath.yield hl
    · rwa [hc] at hpush
    · have hmem : Lk.proc q ∈ {k | s.lock k = some c} := hq
      rw [hS.held_empty hnoff] at hmem
      cases hmem

omit [DecidableEq C] in
lemma SwitchInv.boot (p0 : Fin n) : SwitchInv (SchedSys.boot p0 : SchedSys n C) := by
  refine ⟨fun p hp => ?_, fun c => ⟨none, rfl, by simp [SchedSys.boot]⟩, fun c p hc => ?_,
    fun p _ hst => ?_⟩
  · by_cases hpp : p = p0 <;> simp [SchedSys.boot, hpp] at hp
  · cases hc
  · have hpp : p = p0 := by
      by_contra hne
      simp [SchedSys.boot, hne] at hst
    simp [SchedSys.boot, hpp, forkretCode, Resumes, LockPath]

lemma SwitchInv.of_run {p0 : Fin n} {tr : List (SchedEvent n)}
    (h : Run (SchedStep n C) (SchedSys.boot p0) tr s) : SchedInv s ∧ SwitchInv s :=
  h.invariant (I := fun s => SchedInv s ∧ SwitchInv s)
    (fun _ _ _ ⟨_, hs⟩ hinv => ⟨hinv.1.next hs, hinv.2.next hinv.1 hs⟩)
    ⟨SchedInv.boot p0, SwitchInv.boot p0⟩

/-- A process runs on at most one processor.  A `RUNNING` process is `c->proc` of exactly one
processor.  When its lock is free, a process that is not `RUNNING` is `c->proc` of none, and if it is in
use its saved context is complete: it is resumed behind its `sched`, or in `forkret`, where it gives back
the lock that the scheduler has taken for it.  A lock of a process is released only by the processor that
holds it, and the scheduler of a processor that runs a process has only that lock to release after the
switch back.  No two processors run the same process, and `freeproc` is applied to a process that no
processor runs. -/
theorem one_processor_per_process {p₀ : Fin n} {tr : List (SchedEvent n)}
    (h : Run (SchedStep n C) (SchedSys.boot p₀) tr s) :
    (∀ p, s.state p = .RUNNING → ∃! c, s.cur c = some p) ∧
    (∀ p, s.lock (.proc p) = none → s.state p ≠ .RUNNING → (∀ c, s.cur c ≠ some p) ∧
      (s.state p ≠ .UNUSED → Resumes p (s.code p))) ∧
    (∀ c q r, s.threadCode c (s.cur c) = .release (.proc q) :: r → s.lock (.proc q) = some c) ∧
    (∀ c p, s.cur c = some p → s.scode c = [.release (.proc p)]) ∧
    (∀ c c' p, s.cur c = some p → s.cur c' = some p → c = c') ∧
    (∀ p, s.state p = .USED → ∀ c, s.cur c ≠ some p) ∧
    ∀ c p r, s.threadCode c (s.cur c) = .reap p :: r → s.state p = .ZOMBIE →
      ∀ c', s.cur c' ≠ some p := by
  obtain ⟨hS, hW⟩ := SwitchInv.of_run h
  refine ⟨fun p hp => ?_, fun p hlock hp => ?_, fun c q r hcode => ?_, hW.away, hS.disc.uniq,
    fun p hp c hc => ?_, fun c p r hcode hp c' hc' => ?_⟩
  · obtain ⟨c, hc⟩ := hW.running p hp
    exact ⟨c, hc, fun c' hc' => hS.disc.uniq c' c p hc' hc⟩
  · have hno : ∀ c, s.cur c ≠ some p := by
      intro c hc
      rcases hS.running c p hc with hr | ⟨hl, -⟩
      · exact hp hr
      · rw [hlock] at hl
        cases hl
    exact ⟨hno, fun hst => (hW.switched p hno hst).1⟩
  · obtain ⟨g, hpath, hlk⟩ := hW.active c
    rw [hcode] at hpath
    exact (hlk q).mpr hpath.1
  · rcases hS.running c p hc with hr | ⟨-, ⟨hl | hl | hl, -⟩ | ⟨hl, -⟩⟩
    all_goals
      rw [hp] at *
      simp at *
  · have hok := hS.codeOk (c := c) rfl
    rw [hcode] at hok
    have hheld : s.lock (.proc p) = some c := hok.1
    rcases hS.running c' p hc' with hr | ⟨hl, hleave⟩
    · rw [hp] at hr
      cases hr
    · -- the zombie would be the process that calls `wait`, and that is not about to leave
      rw [hheld] at hl
      have hcc : c = c' := Option.some.inj hl
      subst hcc
      rw [hc'] at hcode
      have hcode' : s.code p = .reap p :: r := hcode
      rcases hleave with ⟨-, r', hr'⟩ | ⟨-, k, r', hr'⟩ <;> rw [hcode'] at hr' <;> cases hr'

/-- The process made by `userinit`. -/
def bootProc : Fin 7 := 0

/-- The first process runs on one processor, is interrupted by the timer, and runs on another. -/
theorem one_processor_per_process_moves : ∃ tr s,
    Run (SchedStep 7 Bool) (SchedSys.boot bootProc) tr s ∧
      (s.state bootProc = .RUNNING ∧ s.cur false = some bootProc ∧ .exec (some bootProc) .sched ∈ tr) ∧
      ∃! c, s.cur c = some bootProc := by
  have hplay : (follow SchedSys.next (SchedSys.boot bootProc)
      [.loop true, .loop true, .exec true, .exec true, .exec true, .timer true, .exec true,
        .exec true, .exec true, .exec true, .loop false, .loop false, .exec false, .exec false]).map
      (fun x => decide (x.2.state bootProc = .RUNNING ∧ x.2.cur false = some bootProc ∧
        .exec (some bootProc) .sched ∈ x.1)) = some true := by
    decide +kernel
  obtain ⟨⟨tr, s⟩, hfollow, hst⟩ := Option.map_eq_some_iff.mp hplay
  have hrun : Run (SchedStep 7 Bool) (SchedSys.boot bootProc) tr s := Run.of_follow hfollow
  have hst := of_decide_eq_true hst
  exact ⟨tr, s, hrun, hst, (one_processor_per_process hrun).1 bootProc hst.1⟩

end Machine

end Xv6
