import Xv6Kernel.Process.Sched

/-!
# The invariant of the scheduler

Three facts are kept by every step.  Every thread keeps the discipline of the locks (`CodeOk`): what
it does to a process it does while its processor holds the lock of that process, and it sets its own
state only right before `sched`.  A process that a processor runs is `RUNNING`, or holds its own lock
on the way to `sched`.  An entry of the process table that `fork` is about to make runnable is
`USED`.
-/

namespace Xv6

open Function

variable {n : ℕ} {C : Type}
variable {p q : Fin n} {chan : Fin n → ℕ} {l r : List (Op n)} {k : Lk n} {x : ProcState}
variable {state : Fin n → ProcState} {lock : Lk n → Option C} {t : SchedSys n C}

/-! ## The discipline of the locks -/

def NoSleep (l : List (Op n)) : Prop := ∀ chan, Op.setSleeping chan ∉ l

/-- The steps `l` of the thread of `self` keep the discipline of the locks when they are begun with
the locks of `H` held. -/
def CodeOk (self : Option (Fin n)) : List (Op n) → Set (Lk n) → Prop
  | [], H => self = none → H = ∅
  | .acquire k :: r, H => k ∉ H → CodeOk self r (insert k H)
  | .release k :: r, H => CodeOk self r (H \ {k})
  | .sleepRelease x k :: r, H => (∃ r', r = .setSleeping x :: r') ∧ CodeOk self r (H \ {k})
  | .setSleeping _ :: r, H =>
    (∃ p, self = some p ∧ .proc p ∈ H) ∧ (∃ r', r = .sched :: r' ∧ NoSleep r') ∧ CodeOk self r H
  | .setRunnable :: r, H =>
    (∃ p, self = some p ∧ .proc p ∈ H) ∧ (∃ r', r = .sched :: r') ∧ CodeOk self r H
  | .setZombie :: r, H =>
    (∃ p, self = some p ∧ .proc p ∈ H) ∧ (∃ k r', r = .release (.other k) :: .sched :: r') ∧
      CodeOk self r H
  | .sched :: r, _ => ∃ p, self = some p ∧ CodeOk self r {.proc p}
  | .tidy :: r, H => (∃ p, self = some p) ∧ CodeOk self r H
  | .test p _ :: r, H | .kill p :: r, H | .ready p :: r, H | .reap p :: r, H =>
    .proc p ∈ H ∧ CodeOk self r H
  | .wakeupEnd _ :: r, H => CodeOk self r H
  | .dispatch p :: r, H => self = none ∧ H = {.proc p} ∧ CodeOk self r H
  | .alloc p _ :: r, H => .proc p ∈ H ∧ r = [] ∧ self ≠ none
  | .zombieExit :: _, _ => True

lemma CodeOk.yield (h : CodeOk (some p) r ∅) : CodeOk (some p) (yieldCode p ++ r) ∅ := by
  simp [yieldCode, CodeOk, h]

lemma CodeOk.wakeup {self : Option (Fin n)} {x : ℕ} {H : Set (Lk n)}
    (h : CodeOk self r H) : CodeOk self (wakeupCode self x ++ r) H := by
  have hloop : ∀ l : List (Fin n),
      CodeOk self (l.flatMap (wakeupOne self x) ++ (.wakeupEnd x :: r)) H := by
    intro l
    induction l with
    | nil => exact h
    | cons p l ih =>
      rw [List.flatMap_cons, List.append_assoc]
      unfold wakeupOne
      split
      · exact ih
      intro hp
      refine ⟨Set.mem_insert _ _, ?_⟩
      change CodeOk self _ (insert (Lk.proc p) H \ {Lk.proc p})
      rw [Set.insert_sdiff_self_of_notMem hp]
      exact ih
  unfold wakeupCode
  rw [List.append_assoc]
  exact hloop _

lemma CodeOk.intr {self : Option (Fin n)} {k x : ℕ} (h : CodeOk self r ∅) :
    CodeOk self (intrCode self k x ++ r) ∅ := by
  intro _
  rw [List.append_eq, List.append_assoc]
  refine CodeOk.wakeup ?_
  simpa [CodeOk] using h

lemma CodeOk.call (x : KernelCall n) (H : Set (Lk n)) : CodeOk (some p) (x.code p) H := by
  cases x with
  | wakeup chan =>
    rw [KernelCall.code, ← List.append_nil (wakeupCode _ _)]
    exact CodeOk.wakeup (by simp [CodeOk])
  | _ => simp [KernelCall.code, CodeOk, sleepCode, yieldCode, exitCode, killCode, forkCode,
      waitCode, NoSleep]

lemma CodeOk.schedCode (p : Fin n) : CodeOk none (schedCode p) ∅ := by
  simp [Xv6.schedCode, CodeOk]

lemma CodeOk.forkRest {p q : Fin n} {H : Set (Lk n)} : CodeOk (some p) (forkRest q) H := by
  simp [Xv6.forkRest, CodeOk]

/-- The discipline of all threads: of those that run, of the processes that wait for a processor and
will be resumed with their lock held, and of the schedulers that wait for the `sched` of the process
they run. -/
structure DiscInv (lock : Lk n → Option C) (cur : C → Option (Fin n)) (code : Fin n → List (Op n))
    (scode : C → List (Op n)) : Prop where
  uniq : ∀ c c' p, cur c = some p → cur c' = some p → c = c'
  process : ∀ c p, cur c = some p → CodeOk (some p) (code p) {k | lock k = some c}
  scheduler : ∀ c, cur c = none → CodeOk none (scode c) {k | lock k = some c}
  switched : ∀ p, (∀ c, cur c ≠ some p) → CodeOk (some p) (code p) {.proc p}
  waiting : ∀ c p, cur c = some p → CodeOk none (scode c) {.proc p}

def Leaving (st : ProcState) (l : List (Op n)) : Prop :=
  ((st = .SLEEPING ∨ st = .RUNNABLE ∨ st = .ZOMBIE) ∧ ∃ r, l = .sched :: r) ∨
    (st = .ZOMBIE ∧ ∃ k r, l = .release (.other k) :: .sched :: r)

def RunningInv (state : Fin n → ProcState) (lock : Lk n → Option C) (cur : C → Option (Fin n))
    (code : Fin n → List (Op n)) : Prop :=
  ∀ c p, cur c = some p →
    state p = .RUNNING ∨ (lock (.proc p) = some c ∧ Leaving (state p) (code p))

/-- The entries of the process table that `fork` is about to make runnable. -/
structure ReadyInv (state : Fin n → ProcState) (code : Fin n → List (Op n))
    (scode : C → List (Op n)) : Prop where
  used : ∀ p q, .ready p ∈ code q → state p = .USED
  uniq : ∀ p q q', .ready p ∈ code q → .ready p ∈ code q' → q = q'
  once : ∀ p q, (code q).count (.ready p) ≤ 1
  scheduler : ∀ p c, .ready p ∉ scode c

structure SchedInv (s : SchedSys n C) : Prop where
  count : ∀ c, ∃ L : List (Lk n), L.Nodup ∧ (∀ k, k ∈ L ↔ s.lock k = some c) ∧
    L.length = s.noff c
  disc : DiscInv s.lock s.cur s.code s.scode
  running : RunningInv s.state s.lock s.cur s.code
  ready : ReadyInv s.state s.code s.scode

/-! ## Changes of the parts -/

section Parts

variable [DecidableEq C] {s : SchedSys n C} {c : C} {self : Option (Fin n)}

section

variable (h : DiscInv s.lock s.cur s.code s.scode)
include h

/-- The thread on the processor `c` goes on with the steps `l`, possibly with other locks held; the
locks of the other processors are the same. -/
lemma DiscInv.advance (hc : s.cur c = self)
    (hother : ∀ c', c' ≠ c → ∀ k, lock k = some c' ↔ s.lock k = some c')
    (hl : CodeOk self l {k | lock k = some c}) :
    DiscInv lock s.cur (s.setCode c self l).code (s.setCode c self l).scode := by
  have hheld : ∀ c', c' ≠ c → {k | lock k = some c'} = {k | s.lock k = some c'} := fun c' hc' =>
    Set.ext (hother c' hc')
  cases self with
  | some p =>
    refine ⟨h.uniq, fun c' p' hc' => ?_, fun c' hc' => ?_, fun p' hp' => ?_, h.waiting⟩
    · by_cases hcc : c' = c
      · subst hcc
        cases hc.symm.trans hc'
        simpa [SchedSys.setCode] using hl
      · have hp : p' ≠ p := fun e => hcc (h.uniq c' c p (e ▸ hc') hc)
        rw [hheld c' hcc]
        simpa [SchedSys.setCode, hp] using h.process c' p' hc'
    · have hcc : c' ≠ c := fun e => by simp [e, hc] at hc'
      rw [hheld c' hcc]
      exact h.scheduler c' hc'
    · have hp : p' ≠ p := fun e => hp' c (e ▸ hc)
      simpa [SchedSys.setCode, hp] using h.switched p' hp'
  | none =>
    refine ⟨h.uniq, fun c' p' hc' => ?_, fun c' hc' => ?_, h.switched, fun c' p' hc' => ?_⟩
    · have hcc : c' ≠ c := fun e => by simp [e, hc] at hc'
      rw [hheld c' hcc]
      exact h.process c' p' hc'
    · by_cases hcc : c' = c
      · subst hcc
        simpa [SchedSys.setCode] using hl
      · rw [hheld c' hcc]
        simpa [SchedSys.setCode, hcc] using h.scheduler c' hc'
    · have hcc : c' ≠ c := fun e => by simp [e, hc] at hc'
      simpa [SchedSys.setCode, hcc] using h.waiting c' p' hc'

lemma DiscInv.leave (hc : s.cur c = some p)
    (hheld : {k | s.lock k = some c} = {.proc p}) (hl : CodeOk (some p) l {.proc p}) :
    DiscInv s.lock (update s.cur c none) (update s.code p l) s.scode := by
  have hcur : ∀ c' p', update s.cur c none c' = some p' → c' ≠ c ∧ s.cur c' = some p' := by
    intro c' p' hc'
    by_cases hcc : c' = c
    · simp [hcc] at hc'
    · exact ⟨hcc, by simpa [hcc] using hc'⟩
  refine ⟨fun c1 c2 q h1 h2 => h.uniq c1 c2 q (hcur _ _ h1).2 (hcur _ _ h2).2,
    fun c' p' hc' => ?_, fun c' hc' => ?_, fun p' hp' => ?_,
    fun c' p' hc' => h.waiting c' p' (hcur _ _ hc').2⟩
  · obtain ⟨hcc, hc'⟩ := hcur _ _ hc'
    have hp : p' ≠ p := fun e => hcc (h.uniq c' c p (e ▸ hc') hc)
    simpa [hp] using h.process c' p' hc'
  · by_cases hcc : c' = c
    · rw [hcc, hheld]
      exact h.waiting c p hc
    · exact h.scheduler c' (by simpa [hcc] using hc')
  · by_cases hp : p' = p
    · simpa [hp] using hl
    have hno : ∀ c', s.cur c' ≠ some p' := fun c' hc' => by
      by_cases hcc : c' = c
      · rw [hcc, hc] at hc'
        exact hp (Option.some.inj hc').symm
      · exact hp' c' (by simpa [hcc] using hc')
    simpa [hp] using h.switched p' hno

lemma DiscInv.enter (hc : s.cur c = none)
    (hp : ∀ c', s.cur c' ≠ some p) (hheld : {k | s.lock k = some c} = {.proc p})
    (hl : CodeOk none l {.proc p}) :
    DiscInv s.lock (update s.cur c (some p)) s.code (update s.scode c l) := by
  have hcur : ∀ c' p', update s.cur c (some p) c' = some p' →
      (c' = c ∧ p' = p) ∨ (c' ≠ c ∧ s.cur c' = some p') := by
    intro c' p' hc'
    by_cases hcc : c' = c
    · left
      simpa [hcc, eq_comm] using hc'
    · right
      exact ⟨hcc, by simpa [hcc] using hc'⟩
  refine ⟨fun c1 c2 q h1 h2 => ?_, fun c' p' hc' => ?_, fun c' hc' => ?_, fun p' hp' => ?_,
    fun c' p' hc' => ?_⟩
  · rcases hcur _ _ h1 with ⟨e1, hq⟩ | ⟨-, e1⟩ <;> rcases hcur _ _ h2 with ⟨e2, hq'⟩ | ⟨-, e2⟩
    · rw [e1, e2]
    · exact absurd (hq ▸ e2) (hp c2)
    · exact absurd (hq' ▸ e1) (hp c1)
    · exact h.uniq c1 c2 q e1 e2
  · rcases hcur _ _ hc' with ⟨hcc, hpp⟩ | ⟨-, hc'⟩
    · rw [hcc, hpp, hheld]
      exact h.switched p hp
    · exact h.process c' p' hc'
  · have hcc : c' ≠ c := fun e => by simp [e] at hc'
    simpa [hcc] using h.scheduler c' (by simpa [hcc] using hc')
  · refine h.switched p' fun c' hc' => ?_
    have hcc : c' ≠ c := fun e => by simp [e, hc] at hc'
    exact hp' c' (by simpa [hcc] using hc')
  · rcases hcur _ _ hc' with ⟨hcc, hpp⟩ | ⟨hcc, hc'⟩
    · simpa [hcc, hpp] using hl
    · simpa [hcc] using h.waiting c' p' hc'

end

lemma ReadyInv.advance (h : ReadyInv s.state s.code s.scode)
    (hl : ∀ p, l.count (.ready p) ≤ (s.threadCode c self).count (.ready p))
    (hstate : ∀ p, s.state p = .USED → (∃ q, .ready p ∈ (s.setCode c self l).code q) →
      state p = .USED) : ReadyInv state (s.setCode c self l).code (s.setCode c self l).scode := by
  have hmem : ∀ p, Op.ready p ∈ l → Op.ready p ∈ s.threadCode c self := fun p hp => by
    have := List.count_pos_iff.mpr hp
    exact List.count_pos_iff.mp (lt_of_lt_of_le this (hl p))
  cases self with
  | none =>
    refine ⟨fun p q hq => hstate p (h.used p q hq) ⟨q, hq⟩, h.uniq, h.once, fun p c' hp => ?_⟩
    by_cases hcc : c' = c
    · subst hcc
      rw [SchedSys.setCode] at hp
      simp only [update_self] at hp
      exact h.scheduler p c' (hmem p hp)
    · simp only [SchedSys.setCode, update_of_ne hcc] at hp
      exact h.scheduler p c' hp
  | some r =>
    have hold : ∀ p q, Op.ready p ∈ (s.setCode c (some r) l).code q → Op.ready p ∈ s.code q := by
      intro p q hq
      by_cases hqr : q = r
      · subst hqr
        exact hmem p (by simpa [SchedSys.setCode] using hq)
      · simpa [SchedSys.setCode, hqr] using hq
    refine ⟨fun p q hq => hstate p (h.used p q (hold p q hq)) ⟨q, hq⟩,
      fun p q q' hq hq' => h.uniq p q q' (hold p q hq) (hold p q' hq'), fun p q => ?_,
      h.scheduler⟩
    by_cases hqr : q = r
    · subst hqr
      simpa [SchedSys.setCode] using (hl p).trans (h.once p q)
    · simpa [SchedSys.setCode, hqr] using h.once p q

/-- The thread on the processor `c` goes on with the steps `l`; the other processes that run are
not affected. -/
lemma RunningInv.advance (h : SchedInv s) (hc : s.cur c = self)
    (hother : ∀ c' p, c' ≠ c → s.cur c' = some p → (s.state p = .RUNNING → state p = .RUNNING) ∧
      (s.lock (.proc p) = some c' → lock (.proc p) = some c' ∧ state p = s.state p))
    (hself : ∀ p, self = some p →
      state p = .RUNNING ∨ (lock (.proc p) = some c ∧ Leaving (state p) l)) :
    RunningInv state lock s.cur (s.setCode c self l).code := by
  intro c' p hc'
  by_cases hcc : c' = c
  · subst hcc
    have hp : self = some p := hc.symm.trans hc'
    subst hp
    simpa [SchedSys.setCode] using hself p rfl
  have hcode : (s.setCode c self l).code p = s.code p := by
    cases self with
    | none => rfl
    | some q =>
      have hpq : p ≠ q := fun e => hcc (h.disc.uniq c' c q (e ▸ hc') hc)
      simp [SchedSys.setCode, hpq]
  obtain ⟨h1, h2⟩ := hother c' p hcc hc'
  rcases h.running c' p hc' with hr | ⟨hl, hleave⟩
  · exact .inl (h1 hr)
  · rw [hcode, (h2 hl).2]
    exact .inr ⟨(h2 hl).1, hleave⟩

end Parts

/-! ## The steps of the threads -/

section Exec

variable {s : SchedSys n C} {c : C} {self : Option (Fin n)} {op : Op n} {rest : List (Op n)}

lemma SchedInv.codeOk (h : SchedInv s) (hc : s.cur c = self) :
    CodeOk self (s.threadCode c self) {k | s.lock k = some c} := by
  cases self with
  | some p => exact h.disc.process c p hc
  | none => exact h.disc.scheduler c hc

lemma SchedInv.state_running (h : SchedInv s) (hc : s.cur c = self)
    (hcode : s.threadCode c self = op :: rest) (h1 : op ≠ .sched)
    (h2 : ∀ k, op ≠ .release (.other k)) (p : Fin n) (hp : self = some p) : s.state p = .RUNNING := by
  subst hp
  have hcode : s.code p = op :: rest := hcode
  rcases h.running c p hc with hr | ⟨-, ⟨-, r, hr⟩ | ⟨-, k, r, hr⟩⟩
  · exact hr
  · rw [hcode] at hr
    cases hr
    exact absurd rfl h1
  · rw [hcode] at hr
    cases hr
    exact absurd rfl (h2 k)

lemma count_rest_le (hcode : s.threadCode c self = op :: rest) (p : Fin n) :
    rest.count (.ready p) ≤ (s.threadCode c self).count (.ready p) := by
  rw [hcode]
  exact List.count_le_count_cons

variable [DecidableEq C]

/-- The invariant when the lock `k` changes hands between the processor `c` and nobody, and the
thread on `c` goes on. -/
lemma SchedInv.lockStep {v : Option C} {m : ℕ} (h : SchedInv s) (hc : s.cur c = self)
    (hcode : s.threadCode c self = op :: rest) (hk : s.lock k = none ∨ s.lock k = some c)
    (hv : v = none ∨ v = some c) (hok : CodeOk self rest {k' | update s.lock k v k' = some c})
    (hcount : ∃ L : List (Lk n), L.Nodup ∧
      (∀ k', k' ∈ L ↔ update s.lock k v k' = some c) ∧ L.length = m)
    (hself : ∀ p, self = some p → s.state p = .RUNNING ∨
      (update s.lock k v (.proc p) = some c ∧ Leaving (s.state p) rest)) :
    SchedInv ({ s with lock := update s.lock k v,
                       noff := update s.noff c m }.setCode c self rest) := by
  have hother : ∀ c', c' ≠ c → ∀ k', update s.lock k v k' = some c' ↔
      s.lock k' = some c' := by
    intro c' hc' k'
    by_cases hkk : k' = k
    · subst hkk
      rcases hk with hk | hk <;> rcases hv with hv | hv <;> simp [hk, hv, hc'.symm]
    · simp [hkk]
  refine ⟨fun c' => ?_, h.disc.advance hc hother hok, ?_, ?_⟩
  · by_cases hcc : c' = c
    · subst hcc
      simpa [SchedSys.setCode] using hcount
    · obtain ⟨L, hnd, hmem, hlen⟩ := h.count c'
      refine ⟨L, hnd, fun k' => (hmem k').trans (hother c' hcc k').symm, ?_⟩
      simp [SchedSys.setCode, hcc, hlen]
  · exact RunningInv.advance h hc
      (fun c' p hcc _ => ⟨id, fun hl => ⟨(hother c' hcc _).mpr hl, rfl⟩⟩) hself
  · exact h.ready.advance (count_rest_le hcode) fun p hp _ => hp

section

variable (h : SchedInv s)
include h

section

variable (hc : s.cur c = self)
include hc

lemma SchedInv.acquire (hcode : s.threadCode c self = .acquire k :: rest) (hk : s.lock k = none) :
    SchedInv ((s.lockBy c k).setCode c self rest) := by
  have hok := h.codeOk hc
  rw [hcode] at hok
  have hnot : k ∉ {k' | s.lock k' = some c} := by simp [hk]
  refine h.lockStep hc hcode (.inl hk) (.inr rfl) ?_ ?_ fun p hp =>
    .inl (h.state_running hc hcode (by simp) (by simp) p hp)
  · have hheld : {k' | update s.lock k (some c) k' = some c} =
        insert k {k' | s.lock k' = some c} := by
      ext k'
      by_cases hkk : k' = k <;> simp [hkk]
    rw [hheld]
    exact hok hnot
  · obtain ⟨L, hnd, hmem, hlen⟩ := h.count c
    refine ⟨k :: L, List.nodup_cons.mpr ⟨fun hkL => hnot ((hmem k).mp hkL), hnd⟩, fun k' => ?_,
      by simp [hlen]⟩
    by_cases hkk : k' = k <;> simp [hkk, hmem]

lemma SchedInv.release (hcode : s.threadCode c self = op :: rest)
    (hop : op = .release k ∨ ∃ x, op = .sleepRelease x k) (hk : s.lock k = some c) :
    SchedInv ((s.unlockBy c k).setCode c self rest) := by
  have hok := h.codeOk hc
  rw [hcode] at hok
  refine h.lockStep hc hcode (.inr hk) (.inl rfl) ?_ ?_ fun p hp => ?_
  · have hheld : {k' | update s.lock k none k' = some c} =
        {k' | s.lock k' = some c} \ {k} := by
      ext k'
      by_cases hkk : k' = k <;> simp [hkk]
    rw [hheld]
    rcases hop with rfl | ⟨x, rfl⟩
    · exact hok
    · exact hok.2
  · obtain ⟨L, hnd, hmem, hlen⟩ := h.count c
    have hkL : k ∈ L := (hmem k).mpr hk
    refine ⟨L.erase k, hnd.erase k, fun k' => ?_, by rw [List.length_erase_of_mem hkL, hlen]⟩
    rw [hnd.mem_erase_iff, hmem]
    by_cases hkk : k' = k <;> simp [hkk]
  · -- on the way out of `exit` the lock of the process is kept
    subst hp
    have hcode : s.code p = op :: rest := hcode
    rcases h.running c p hc with hr | ⟨hl, ⟨-, r, hr⟩ | ⟨hst, k', r, hr⟩⟩
    · exact .inl hr
    · rw [hcode] at hr
      cases hr
      rcases hop with hop | ⟨x, hop⟩ <;> cases hop
    · rw [hcode] at hr
      cases hr
      rcases hop with hop | ⟨x, hop⟩ <;> cases hop
      refine .inr ⟨by simpa using hl, .inl ⟨.inr (.inr hst), r, rfl⟩⟩

lemma SchedInv.stateStep (hcode : s.threadCode c self = op :: rest) (hlock : s.lock (.proc q) = some c)
    (hok : CodeOk self rest {k | s.lock k = some c}) (hq : self ≠ some q → s.state q ≠ .RUNNING)
    (hready : s.state q = .USED → ∀ r, .ready q ∉ (s.setCode c self rest).code r)
    (hself : ∀ p, self = some p → update s.state q x p = .RUNNING ∨
      (s.lock (.proc p) = some c ∧ Leaving (update s.state q x p) rest)) :
    SchedInv ({ s with state := update s.state q x,
                       chan := chan }.setCode c self rest) := by
  refine ⟨h.count, h.disc.advance hc (fun _ _ _ => Iff.rfl) hok, ?_, ?_⟩
  · refine RunningInv.advance h hc (fun c' p hcc hc' => ?_) hself
    by_cases hpq : p = q
    · subst hpq
      refine ⟨fun hr => absurd hr (hq fun e => hcc (h.disc.uniq c' c p hc' (hc.trans e))),
        fun hl => ?_⟩
      rw [hlock] at hl
      exact absurd (Option.some.inj hl).symm hcc
    · simp [SchedSys.setCode, hpq]
  · refine h.ready.advance (count_rest_le hcode) fun p hp hmem => ?_
    by_cases hpq : p = q
    · subst hpq
      obtain ⟨r, hr⟩ := hmem
      exact absurd hr (hready hp r)
    · simpa [SchedSys.setCode, hpq] using hp

lemma SchedInv.goOn (hcode : s.threadCode c self = op :: rest)
    (hl : ∀ p, l.count (.ready p) ≤ (s.threadCode c self).count (.ready p))
    (hok : CodeOk self l {k | s.lock k = some c}) (h1 : op ≠ .sched)
    (h2 : ∀ k, op ≠ .release (.other k)) :
    SchedInv ({ s with chan := chan }.setCode c self l) :=
  ⟨h.count, h.disc.advance hc (fun _ _ _ => Iff.rfl) hok,
    RunningInv.advance h hc (fun _ _ _ _ => ⟨id, fun hl => ⟨hl, rfl⟩⟩) fun p hp =>
      .inl (h.state_running hc hcode h1 h2 p hp),
    h.ready.advance hl fun _ hp _ => hp⟩

end

lemma SchedInv.leave (hc : s.cur c = some p) (hcode : s.code p = .sched :: rest)
    (hlock : s.lock (.proc p) = some c) (hnoff : s.noff c = 1) :
    SchedInv ({ s with cur := update s.cur c none }.setCode c (some p) rest) := by
  have hok := h.disc.process c p hc
  rw [hcode] at hok
  obtain ⟨q, hq, hok⟩ := hok
  cases hq
  have hheld : {k | s.lock k = some c} = {Lk.proc p} := by
    obtain ⟨L, -, hmem, hlen⟩ := h.count c
    rw [hnoff, List.length_eq_one_iff] at hlen
    obtain ⟨k, rfl⟩ := hlen
    have hk : Lk.proc p = k := by simpa using (hmem (.proc p)).mpr hlock
    ext k'
    simpa [hk] using (hmem k').symm
  refine ⟨h.count, h.disc.leave hc hheld hok, fun c' p' hc' => ?_, ?_⟩
  · have hcc : c' ≠ c := fun e => by simp [SchedSys.setCode, e] at hc'
    have hc' : s.cur c' = some p' := by simpa [SchedSys.setCode, hcc] using hc'
    have hp : p' ≠ p := fun e => hcc (h.disc.uniq c' c p (e ▸ hc') hc)
    simpa [SchedSys.setCode, hp] using h.running c' p' hc'
  · have hcode : s.threadCode c (some p) = .sched :: rest := hcode
    exact h.ready.advance (count_rest_le hcode) fun _ hp _ => hp

lemma SchedInv.enter (hc : s.cur c = none)
    (hcode : s.scode c = .dispatch p :: rest) (hst : s.state p = .RUNNABLE) :
    SchedInv ({ s.setState p .RUNNING with
      cur := update s.cur c (some p) }.setCode c none rest) := by
  have hok := h.disc.scheduler c hc
  rw [hcode] at hok
  obtain ⟨-, hheld, hok⟩ := hok
  have hlock : s.lock (.proc p) = some c := by
    have : Lk.proc p ∈ {k | s.lock k = some c} := by rw [hheld]; exact Set.mem_singleton _
    exact this
  have hno : ∀ c', s.cur c' ≠ some p := fun c' hc' => by
    rcases h.running c' p hc' with hr | ⟨hl, -⟩
    · rw [hst] at hr
      cases hr
    · rw [hlock] at hl
      rw [← Option.some.inj hl, hc] at hc'
      cases hc'
  rw [hheld] at hok
  refine ⟨h.count, h.disc.enter hc hno hheld hok, fun c' p' hc' => ?_, ?_⟩
  · by_cases hcc : c' = c
    · left
      have hp : p' = p := by simpa [SchedSys.setCode, hcc, eq_comm] using hc'
      simp [SchedSys.setCode, SchedSys.setState, hp]
    · have hc' : s.cur c' = some p' := by simpa [SchedSys.setCode, hcc] using hc'
      have hp : p' ≠ p := fun e => hno c' (e ▸ hc')
      simpa [SchedSys.setCode, SchedSys.setState, hp] using h.running c' p' hc'
  · have hcode : s.threadCode c none = .dispatch p :: rest := hcode
    refine h.ready.advance (count_rest_le hcode) fun q hq _ => ?_
    have hqp : q ≠ p := fun e => by rw [e, hst] at hq; cases hq
    simpa [SchedSys.setCode, SchedSys.setState, hqp] using hq

lemma SchedInv.alloc (hc : s.cur c = some p) (hcode : s.code p = [.alloc q ok])
    (hst : s.state q = .UNUSED) :
    SchedInv ({ s.setState q .USED with
      code := update s.code q (forkretCode q) }.setCode c (some p) (forkRest q)) := by
  have hno : ∀ c', s.cur c' ≠ some q := fun c' hc' => by
    rcases h.running c' q hc' with hr | ⟨-, ⟨hl | hl | hl, -⟩ | ⟨hl, -⟩⟩
    all_goals
      rw [hst] at *
      contradiction
  have hpq : p ≠ q := fun e => hno c (e ▸ hc)
  have hnone : ∀ r, .ready q ∉ s.code r := fun r hr => by
    have := h.ready.used q r hr
    rw [hst] at this
    cases this
  -- first the entry is given its thread, then `fork` goes on
  have h1 : SchedInv { s.setState q .USED with
      code := update s.code q (forkretCode q) } := by
    have hother : ∀ r x, Op.ready x ∈ update s.code q (forkretCode q) r →
        Op.ready x ∈ s.code r := by
      intro r x hx
      by_cases hr : r = q
      · subst hr
        simp [forkretCode] at hx
      · simpa [hr] using hx
    refine ⟨h.count, ?_, fun c' p' hc' => ?_, ?_, ?_, fun x r => ?_, h.ready.scheduler⟩
    · refine ⟨h.disc.uniq, fun c' p' hc' => ?_, h.disc.scheduler, fun p' hp' => ?_,
        h.disc.waiting⟩
      · have hp : p' ≠ q := fun e => hno c' (e ▸ hc')
        simpa [SchedSys.setState, hp] using h.disc.process c' p' hc'
      · by_cases hp : p' = q
        · simp [hp, forkretCode, CodeOk]
        · simpa [hp] using h.disc.switched p' hp'
    · have hp : p' ≠ q := fun e => hno c' (e ▸ hc')
      simpa [SchedSys.setState, hp] using h.running c' p' hc'
    · intro x r hx
      have hx' := hother r x hx
      have hxq : x ≠ q := fun e => hnone r (e ▸ hx')
      simpa [SchedSys.setState, hxq] using h.ready.used x r hx'
    · exact fun x r r' hr hr' => h.ready.uniq x r r' (hother r x hr) (hother r' x hr')
    · by_cases hr : r = q
      · subst hr
        simp [forkretCode]
      · simpa [hr] using h.ready.once x r
  have hcode' : ({ s.setState q .USED with
      code := update s.code q (forkretCode q) } : SchedSys n C).threadCode c (some p) =
      [.alloc q ok] := by
    simpa [SchedSys.threadCode, hpq] using hcode
  refine ⟨h1.count, h1.disc.advance hc (fun _ _ _ => Iff.rfl) CodeOk.forkRest, ?_, ?_⟩
  · exact RunningInv.advance h1 hc (fun _ _ _ _ => ⟨id, fun hl => ⟨hl, rfl⟩⟩) fun p' hp' =>
      .inl (h1.state_running hc hcode' (by simp) (by simp) p' hp')
  · -- the thread of `fork` is now the only one that makes the entry runnable
    have hcount : ∀ x, (forkRest q).count (.ready x) = if x = q then 1 else 0 := by
      intro x
      by_cases hx : x = q
      · simp [forkRest, hx]
      · have : q ≠ x := fun e => hx e.symm
        simp [forkRest, hx, this]
    have hcodes : ∀ r x, Op.ready x ∈ (({ s.setState q .USED with
        code := update s.code q (forkretCode q) } : SchedSys n C).setCode c (some p)
          (forkRest q)).code r → (x = q ∧ r = p) ∨ (x ≠ q ∧ Op.ready x ∈ s.code r) := by
      intro r x hx
      by_cases hr : r = p
      · subst hr
        have hpos : 0 < (forkRest q).count (.ready x) :=
          List.count_pos_iff.mpr (by simpa [SchedSys.setCode] using hx)
        rw [hcount] at hpos
        by_cases hxq : x = q
        · exact .inl ⟨hxq, rfl⟩
        · simp [hxq] at hpos
      · right
        by_cases hrq : r = q
        · subst hrq
          simp [SchedSys.setCode, hr, forkretCode] at hx
        · have hx : Op.ready x ∈ s.code r := by simpa [SchedSys.setCode, hr, hrq] using hx
          exact ⟨fun e => hnone r (e ▸ hx), hx⟩
    refine ⟨fun x r hx => ?_, fun x r r' hr hr' => ?_, fun x r => ?_, h.ready.scheduler⟩
    · rcases hcodes r x hx with ⟨rfl, -⟩ | ⟨hxq, hx⟩
      · simp [SchedSys.setCode, SchedSys.setState]
      · simpa [SchedSys.setCode, SchedSys.setState, hxq] using h.ready.used x r hx
    · rcases hcodes r x hr with ⟨hx, hrp⟩ | ⟨hx, hr⟩ <;>
        rcases hcodes r' x hr' with ⟨hx', hrp'⟩ | ⟨hx', hr'⟩
      · rw [hrp, hrp']
      · exact absurd hx hx'
      · exact absurd hx' hx
      · exact h.ready.uniq x r r' hr hr'
    · by_cases hr : r = p
      · subst hr
        simp only [SchedSys.setCode, update_self, hcount]
        split <;> omega
      · simpa [SchedSys.setCode, hr] using h1.ready.once x r

lemma SchedInv.setOwn (hc : s.cur c = some p) (hcode : s.code p = op :: rest)
    (hlock : Lk.proc p ∈ {k | s.lock k = some c}) (hst : s.state p = .RUNNING)
    (hok : CodeOk (some p) rest {k | s.lock k = some c}) (hleave : Leaving x rest) :
    SchedInv ({ s with state := update s.state p x,
                       chan := chan }.setCode c (some p) rest) := by
  refine h.stateStep hc hcode hlock hok (fun hne => absurd rfl hne) (fun hu => ?_) fun q hq => ?_
  · rw [hst] at hu
    cases hu
  · cases hq
    rw [update_self]
    exact .inr ⟨hlock, hleave⟩

lemma SchedInv.setOther (hc : s.cur c = self)
    (hcode : s.threadCode c self = op :: rest) (hlock : Lk.proc q ∈ {k | s.lock k = some c})
    (hok : CodeOk self rest {k | s.lock k = some c}) (h1 : op ≠ .sched)
    (h2 : ∀ k, op ≠ .release (.other k)) (hq : s.state q ≠ .RUNNING)
    (hready : s.state q = .USED → ∀ r, .ready q ∉ (s.setCode c self rest).code r) :
    SchedInv ({ s with state := update s.state q x,
                       chan := chan }.setCode c self rest) := by
  refine h.stateStep hc hcode hlock hok (fun _ => hq) hready fun p hp => ?_
  have hr := h.state_running hc hcode h1 h2 p hp
  have hpq : p ≠ q := fun e => hq (e ▸ hr)
  rw [update_of_ne hpq]
  exact .inl hr

lemma SchedInv.exec (hc : s.cur c = self) (hcode : s.threadCode c self = op :: rest)
    (hrun : op.run c self s = some (t, l)) : SchedInv (t.setCode c self (l ++ rest)) := by
  have hok := h.codeOk hc
  rw [hcode] at hok
  have hrest := count_rest_le hcode
  cases op with
  | acquire k =>
    simp only [Op.run] at hrun
    split at hrun <;> cases hrun
    exact h.acquire hc hcode ‹_›
  | release k =>
    simp only [Op.run] at hrun
    split at hrun <;> cases hrun
    exact h.release hc hcode (.inl rfl) ‹_›
  | sleepRelease x k =>
    simp only [Op.run] at hrun
    split at hrun <;> cases hrun
    exact h.release hc hcode (.inr ⟨x, rfl⟩) ‹_›
  | setSleeping x =>
    obtain ⟨⟨p, rfl, hlock⟩, ⟨r', hr', -⟩, hok⟩ := hok
    cases hrun
    exact h.setOwn hc hcode hlock (h.state_running hc hcode (by simp) (by simp) p rfl) hok
      (.inl ⟨.inl rfl, r', hr'⟩)
  | setRunnable =>
    obtain ⟨⟨p, rfl, hlock⟩, ⟨r', hr'⟩, hok⟩ := hok
    cases hrun
    exact h.setOwn hc hcode hlock (h.state_running hc hcode (by simp) (by simp) p rfl) hok
      (.inl ⟨.inr (.inl rfl), r', hr'⟩)
  | setZombie =>
    obtain ⟨⟨p, rfl, hlock⟩, ⟨k, r', hr'⟩, hok⟩ := hok
    cases hrun
    exact h.setOwn hc hcode hlock (h.state_running hc hcode (by simp) (by simp) p rfl) hok
      (.inr ⟨rfl, k, r', hr'⟩)
  | sched =>
    obtain ⟨p, rfl, -⟩ := hok
    simp only [Op.run, Option.bind_some] at hrun
    split at hrun <;> cases hrun
    rename_i hguard
    exact h.leave hc hcode hguard.1 hguard.2.1
  | tidy =>
    obtain ⟨⟨p, rfl⟩, hok⟩ := hok
    cases hrun
    exact h.goOn hc hcode hrest hok (by simp) (by simp)
  | test p x =>
    simp only [Op.run] at hrun
    split at hrun <;> cases hrun
    · rename_i hst
      exact h.setOther hc hcode hok.1 hok.2 (by simp) (by simp) (by simp [hst.1])
        (by simp [hst.1])
    · exact h.goOn hc hcode hrest hok.2 (by simp) (by simp)
  | wakeupEnd x =>
    cases hrun
    exact h.goOn hc hcode hrest hok (by simp) (by simp)
  | dispatch p =>
    obtain ⟨rfl, hheld, hok'⟩ := id hok
    simp only [Op.run] at hrun
    split at hrun <;> cases hrun
    · exact h.enter hc hcode ‹_›
    · exact h.goOn hc hcode hrest hok' (by simp) (by simp)
  | kill p =>
    simp only [Op.run] at hrun
    split at hrun <;> cases hrun
    · rename_i hst
      exact h.setOther hc hcode hok.1 hok.2 (by simp) (by simp) (by simp [hst]) (by simp [hst])
    · exact h.goOn hc hcode hrest hok.2 (by simp) (by simp)
  | alloc p ok =>
    obtain ⟨-, rfl, hself⟩ := hok
    obtain ⟨q, rfl⟩ := Option.ne_none_iff_exists'.mp hself
    simp only [Op.run] at hrun
    split at hrun <;> cases hrun
    · rw [List.append_nil]
      exact h.alloc hc hcode (‹_ ∧ _›).1
    · exact h.goOn hc hcode (by simp) (by simp [CodeOk]) (by simp) (by simp)
  | ready p =>
    cases hrun
    -- the entry is `USED`, and is made runnable by nobody else
    have hmem : Op.ready p ∈ s.threadCode c self := by rw [hcode]; exact List.mem_cons_self
    obtain ⟨q, rfl⟩ : ∃ q, self = some q := by
      cases self with
      | none => exact absurd hmem (h.ready.scheduler p c)
      | some q => exact ⟨q, rfl⟩
    have hused := h.ready.used p q hmem
    refine h.setOther hc hcode hok.1 hok.2 (by simp) (by simp) (by simp [hused]) fun _ r hr => ?_
    by_cases hrq : r = q
    · have hr : Op.ready p ∈ rest := by simpa [SchedSys.setCode, hrq] using hr
      have honce := h.ready.once p q
      rw [show s.code q = _ from hcode, List.count_cons_self] at honce
      have := List.count_pos_iff.mpr hr
      omega
    · have hr : Op.ready p ∈ s.code r := by simpa [SchedSys.setCode, hrq] using hr
      exact hrq (h.ready.uniq p r q hr hmem)
  | reap p =>
    simp only [Op.run] at hrun
    split at hrun <;> cases hrun
    · rename_i hst
      exact h.setOther hc hcode hok.1 hok.2 (by simp) (by simp) (by simp [hst]) (by simp [hst])
    · exact h.goOn hc hcode hrest hok.2 (by simp) (by simp)
  | zombieExit => cases hrun

end

omit [DecidableEq C] in
lemma SchedInv.held_empty (h : SchedInv s) (hnoff : s.noff c = 0) : {k | s.lock k = some c} = ∅ := by
  obtain ⟨L, -, hmem, hlen⟩ := h.count c
  rw [hnoff, List.length_eq_zero_iff] at hlen
  subst hlen
  ext k
  simpa using (hmem k).symm

end Exec

section Machine

variable [DecidableEq C] {s : SchedSys n C}

lemma count_ready_wakeupCode (self : Option (Fin n)) (x : ℕ) (p : Fin n) :
    (wakeupCode self x).count (.ready p) = 0 := by
  rw [List.count_eq_zero]
  intro hmem
  simp only [wakeupCode, List.mem_append, List.mem_flatMap, wakeupOne] at hmem
  rcases hmem with ⟨q, -, hq⟩ | hmem
  · split at hq <;> simp at hq
  · simp at hmem

lemma SchedInv.push (h : SchedInv s) {c : C} (hl : ∀ p, l.count (.ready p) = 0)
    (hok : CodeOk (s.cur c) (l ++ s.threadCode c (s.cur c)) {k | s.lock k = some c})
    (hrun : ∀ p, s.cur c = some p → s.state p = .RUNNING) :
    SchedInv (s.setCode c (s.cur c) (l ++ s.threadCode c (s.cur c))) :=
  ⟨h.count, h.disc.advance rfl (fun _ _ _ => Iff.rfl) hok,
    RunningInv.advance h rfl (fun _ _ _ _ => ⟨id, fun hl => ⟨hl, rfl⟩⟩) fun p hp =>
      .inl (hrun p hp),
    h.ready.advance (fun p => by rw [List.count_append, hl, Nat.zero_add]) fun _ hp _ => hp⟩

omit [DecidableEq C] in
lemma SchedInv.running_of_noff (h : SchedInv s) {c : C} (hnoff : s.noff c = 0) (p : Fin n)
    (hc : s.cur c = some p) : s.state p = .RUNNING := by
  rcases h.running c p hc with hr | ⟨hl, -⟩
  · exact hr
  · have : Lk.proc p ∈ {k | s.lock k = some c} := hl
    rw [h.held_empty hnoff] at this
    cases this

/-- Every step keeps the invariant, by cases on what it is. -/
lemma SchedInv.next (h : SchedInv s) {x : SchedChoice n C} {e : SchedEvent n}
    (hs : s.next x = some (e, t)) : SchedInv t := by
  cases SchedSys.takes hs with
  | @exec c op rest l s' hcode hrun =>
    exact h.exec rfl hcode hrun
  | @call c x p hc hready =>
    have hcode : s.threadCode c (s.cur c) = [] := by rw [hc]; exact hready.1
    have hpush := SchedInv.push h (c := c) (l := x.code p) (fun q => ?_) ?_ fun q hq => ?_
    · rwa [hcode, List.append_nil, hc] at hpush
    · cases x with
      | wakeup x => exact count_ready_wakeupCode _ _ _
      | _ => simp [KernelCall.code, sleepCode, yieldCode, exitCode, killCode, forkCode,
          waitCode]
    · rw [hcode, List.append_nil, hc]
      exact CodeOk.call x _
    · rcases h.running c q hq with hr | ⟨-, ⟨-, r, hr⟩ | ⟨-, k, r, hr⟩⟩
      · exact hr
      all_goals
        rw [hc] at hq
        cases hq
        rw [hready.1] at hr
        cases hr
  | @scan c p ps hc hcode =>
    have hcode' : s.threadCode c (s.cur c) = [] := by rw [hc]; exact hcode
    have hheld : {k | s.lock k = some c} = ∅ := by
      have := h.disc.scheduler c hc
      rw [hcode] at this
      exact this rfl
    have hpush := SchedInv.push h (c := c) (l := schedCode p) (by simp [schedCode]) ?_
      (by simp [hc])
    · rw [hcode', List.append_nil, hc] at hpush
      exact ⟨hpush.count, hpush.disc, hpush.running, hpush.ready⟩
    · rw [hcode', List.append_nil, hc, hheld]
      exact CodeOk.schedCode p
  | rescan => exact ⟨h.count, h.disc, h.running, h.ready⟩
  | @intr c k x hnoff =>
    have hok := h.codeOk (c := c) rfl
    rw [h.held_empty hnoff] at hok
    refine SchedInv.push h (fun p => ?_) ?_ (h.running_of_noff hnoff)
    · simp [intrCode, count_ready_wakeupCode]
    · rw [h.held_empty hnoff]
      exact CodeOk.intr hok
  | @timer c p hc hnoff =>
    have hok := h.codeOk hc
    rw [h.held_empty hnoff] at hok
    have hpush := SchedInv.push h (c := c) (l := yieldCode p) (by simp [yieldCode]) ?_
      (h.running_of_noff hnoff)
    · rwa [hc] at hpush
    · rw [hc, h.held_empty hnoff]
      exact CodeOk.yield hok

omit [DecidableEq C] in
lemma SchedInv.boot (p0 : Fin n) : SchedInv (SchedSys.boot p0 : SchedSys n C) := by
  refine ⟨fun c => ⟨[], List.nodup_nil, by simp [SchedSys.boot], rfl⟩, ?_,
    fun c p hc => by simp [SchedSys.boot] at hc, ?_⟩
  · refine ⟨by simp [SchedSys.boot], by simp [SchedSys.boot], fun c _ => ?_, fun p _ => ?_,
      by simp [SchedSys.boot]⟩
    · simp [SchedSys.boot, CodeOk]
    · by_cases hp : p = p0 <;> simp [SchedSys.boot, hp, CodeOk, forkretCode]
  · have hmem : ∀ p q, Op.ready p ∉ (SchedSys.boot p0 : SchedSys n C).code q := by
      intro p q
      by_cases hq : q = p0 <;> simp [SchedSys.boot, hq, forkretCode]
    exact ⟨fun p q hq => absurd hq (hmem p q), fun p q _ hq => absurd hq (hmem p q), fun p q =>
      by rw [List.count_eq_zero.mpr (hmem p q)]; omega, by simp [SchedSys.boot]⟩

lemma SchedInv.of_run {p0 : Fin n} {tr : List (SchedEvent n)}
    (h : Run (SchedStep n C) (SchedSys.boot p0) tr s) : SchedInv s :=
  h.invariant (fun _ _ _ ⟨_, hs⟩ hinv => hinv.next hs) (SchedInv.boot p0)

end Machine

end Xv6
