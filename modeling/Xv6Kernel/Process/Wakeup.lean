import Xv6Kernel.Process.SchedInv

/-!
# No lost wakeup

After `sleep(chan, lk)` has released `lk`, the process is either in the window before it sets its
state, in which it holds its own lock, or what it does next contains no further `sleep` and it can
only be asleep on `chan` (`SinceSleep`).
-/

namespace Xv6

open Function

variable {n : ℕ} {C : Type} {s t : SchedSys n C}
variable {c : C} {l r : List (Op n)} {op : Op n} {self : Option (Fin n)} {x : SchedChoice n C}

/-- Since a call of `sleep(chan, ..)` by `p` has released its lock, `p` has made no other call of
`sleep`: it holds its own lock and is about to set its state, or it can only be asleep on `chan`. -/
def SinceSleep (p : Fin n) (chan : ℕ) (s : SchedSys n C) : Prop :=
  (∃ c r, s.cur c = some p ∧ s.lock (.proc p) = some c ∧
    s.code p = .setSleeping chan :: .sched :: r ∧ NoSleep r) ∨
  (NoSleep (s.code p) ∧ (s.state p = .SLEEPING → s.chan p = chan))

def Awake (p : Fin n) (s : SchedSys n C) : Prop := NoSleep (s.code p) ∧ s.state p ≠ .SLEEPING

def NoSleepCall (p : Fin n) (e : SchedEvent n) : Prop :=
  ∀ chan k, e ≠ .call p (.sleep chan k)

/-! ## What a step does to one process -/

/-- What a step of another thread, or a step of `p` itself other than those in `sleep`, does to the
process `p`. -/
structure Mild (p : Fin n) (s t : SchedSys n C) : Prop where
  code : NoSleep (s.code p) → NoSleep (t.code p)
  state : t.state p = .SLEEPING → s.state p = .SLEEPING ∧ t.chan p = s.chan p

lemma Mild.awake {p : Fin n} (h : Mild p s t) (hs : Awake p s) : Awake p t :=
  ⟨h.code hs.1, fun ht => hs.2 (h.state ht).1⟩

lemma Mild.sinceSleep {p : Fin n} {chan : ℕ} (h : Mild p s t) (hcode : NoSleep (s.code p))
    (hchan : s.state p = .SLEEPING → s.chan p = chan) : SinceSleep p chan t :=
  .inr ⟨h.code hcode, fun ht => (h.state ht).2.trans (hchan (h.state ht).1)⟩

lemma NoSleep.append (hl : NoSleep l) (hr : NoSleep r) : NoSleep (l ++ r) :=
  fun chan hmem => (List.mem_append.mp hmem).elim (hl chan) (hr chan)

lemma NoSleep.wakeup (self : Option (Fin n)) (x : ℕ) : NoSleep (wakeupCode self x) := by
  intro chan hmem
  simp only [wakeupCode, List.mem_append, List.mem_flatMap, wakeupOne] at hmem
  rcases hmem with ⟨q, -, hq⟩ | hmem
  · split at hq <;> simp at hq
  · simp at hmem

lemma NoSleep.intr (self : Option (Fin n)) (k x : ℕ) : NoSleep (intrCode self k x) := by
  intro chan hmem
  simp only [intrCode, List.mem_cons, List.mem_append] at hmem
  rcases hmem with hmem | hmem | hmem
  · cases hmem
  · exact NoSleep.wakeup self x chan hmem
  · simp at hmem

lemma NoSleep.yield (p : Fin n) : NoSleep (yieldCode p) := by
  simp [NoSleep, yieldCode]

lemma NoSleep.call {p : Fin n} {x : KernelCall n} (hx : ∀ chan k, x ≠ .sleep chan k) :
    NoSleep (x.code p) := by
  cases x with
  | sleep chan k => exact absurd rfl (hx chan k)
  | wakeup chan => exact NoSleep.wakeup _ _
  | _ => simp [NoSleep, KernelCall.code, yieldCode, exitCode, killCode, forkCode, waitCode]

variable [DecidableEq C] {p q : Fin n} {chan : ℕ} {e : SchedEvent n}

lemma setCode_code_of_ne (h : self ≠ some p) (l : List (Op n)) :
    (s.setCode c self l).code p = s.code p := by
  cases self with
  | none => rfl
  | some q =>
    have hq : p ≠ q := fun e => h (by rw [e])
    simp [SchedSys.setCode, hq]

/-- What a step `op` of the thread of `me` on the processor `c` leaves unchanged; `l` are the
steps that the thread has to make before it continues. -/
structure RunFrame (c : C) (me : Option (Fin n)) (op : Op n) (s t : SchedSys n C)
    (l : List (Op n)) : Prop where
  code : ∀ r, t.code r = s.code r ∨
    (op = .alloc r true ∧ s.state r = .UNUSED ∧ t.code r = forkretCode r)
  pushed : l = [] ∨ ∃ r ok, op = .alloc r ok ∧ (l = forkRest r ∨ l = [.release (.proc r)])
  cur : ∀ c', c' ≠ c → t.cur c' = s.cur c'
  lock : ∀ k c', c' ≠ c → s.lock k = some c' → t.lock k = some c'
  state : ∀ r, t.state r = .SLEEPING → s.state r = .SLEEPING ∨
    (me = some r ∧ ∃ x, op = .setSleeping x)
  chan : ∀ r, t.chan r = s.chan r ∨ (me = some r ∧ (op = .tidy ∨ ∃ x, op = .setSleeping x)) ∨
    (op = .reap r ∧ t.state r = .UNUSED)

omit [DecidableEq C] in
lemma RunFrame.of_state {state : Fin n → ProcState} {ch : Fin n → ℕ}
    (hstate : ∀ r, state r = .SLEEPING → s.state r = .SLEEPING ∨
      (self = some r ∧ ∃ x, op = .setSleeping x))
    (hchan : ∀ r, ch r = s.chan r ∨ (self = some r ∧ (op = .tidy ∨ ∃ x, op = .setSleeping x)) ∨
      (op = .reap r ∧ state r = .UNUSED)) :
    RunFrame c self op s { s with state := state, chan := ch } [] :=
  ⟨fun _ => .inl rfl, .inl rfl, fun _ _ => rfl, fun _ _ _ h => h, hstate, hchan⟩

lemma sleeping_of_update {st : Fin n → ProcState} {x : ProcState} (hx : x ≠ .SLEEPING) {r : Fin n}
    (h : update st q x r = .SLEEPING) : st r = .SLEEPING := by
  by_cases hr : r = q
  · subst hr
    rw [update_self] at h
    exact absurd h hx
  · rwa [update_of_ne hr] at h

lemma Op.run_frame (hrun : op.run c self s = some (t, l)) : RunFrame c self op s t l := by
  have hlocks : ∀ (k : Lk n) (v : Option C), s.lock k = none ∨ s.lock k = some c →
      ∀ k' c', c' ≠ c → s.lock k' = some c' → update s.lock k v k' = some c' := by
    intro k v hk k' c' hc' hk'
    have hkk : k' ≠ k := by
      rintro rfl
      rcases hk with hk | hk
      · rw [hk] at hk'
        cases hk'
      · rw [hk] at hk'
        exact hc' (Option.some.inj hk').symm
    rwa [update_of_ne hkk]
  have hsame : RunFrame c self op s s [] :=
    .of_state (fun _ h => .inl h) fun _ => .inl rfl
  cases op with
  | acquire k =>
    simp only [Op.run] at hrun
    split at hrun <;> cases hrun
    exact ⟨fun _ => .inl rfl, .inl rfl, fun _ _ => rfl, hlocks k _ (.inl ‹_›),
      fun _ h => .inl h, fun _ => .inl rfl⟩
  | release k | sleepRelease x k =>
    simp only [Op.run] at hrun
    split at hrun <;> cases hrun
    exact ⟨fun _ => .inl rfl, .inl rfl, fun _ _ => rfl, hlocks k _ (.inr ‹_›),
      fun _ h => .inl h, fun _ => .inl rfl⟩
  | setSleeping x =>
    simp only [Op.run, Option.map_eq_some_iff] at hrun
    obtain ⟨p, rfl, hrun⟩ := hrun
    cases hrun
    refine .of_state (fun r hr => ?_) fun r => ?_
    all_goals by_cases hrp : r = p
    · exact .inr ⟨by rw [hrp], x, rfl⟩
    · left
      simpa [SchedSys.setChan, hrp] using hr
    · exact .inr (.inl ⟨by rw [hrp], .inr ⟨x, rfl⟩⟩)
    · left
      simp [SchedSys.setChan, hrp]
  | setRunnable | setZombie =>
    simp only [Op.run, Option.map_eq_some_iff] at hrun
    obtain ⟨p, rfl, hrun⟩ := hrun
    cases hrun
    exact .of_state (fun r hr => .inl (sleeping_of_update (by simp) hr)) fun _ => .inl rfl
  | sched =>
    simp only [Op.run, Option.bind_eq_some_iff] at hrun
    obtain ⟨p, -, hrun⟩ := hrun
    split at hrun <;> cases hrun
    exact ⟨fun _ => .inl rfl, .inl rfl, fun c' hc' => update_of_ne hc' _ _,
      fun _ _ _ h => h, fun _ h => .inl h, fun _ => .inl rfl⟩
  | tidy =>
    simp only [Op.run, Option.map_eq_some_iff] at hrun
    obtain ⟨p, rfl, hrun⟩ := hrun
    cases hrun
    refine .of_state (fun _ h => .inl h) fun r => ?_
    by_cases hrp : r = p
    · exact .inr (.inl ⟨by rw [hrp], .inl rfl⟩)
    · left
      simp [hrp]
  | test p x | kill p =>
    simp only [Op.run] at hrun
    split at hrun <;> cases hrun
    · exact .of_state (fun r hr => .inl (sleeping_of_update (by simp) hr)) fun _ => .inl rfl
    · exact hsame
  | wakeupEnd x =>
    cases hrun
    exact hsame
  | dispatch p =>
    simp only [Op.run] at hrun
    split at hrun <;> cases hrun
    · exact ⟨fun _ => .inl rfl, .inl rfl, fun c' hc' => update_of_ne hc' _ _,
        fun _ _ _ h => h, fun r hr => .inl (sleeping_of_update (by simp) hr),
        fun _ => .inl rfl⟩
    · exact hsame
  | alloc p ok =>
    simp only [Op.run] at hrun
    split at hrun <;> cases hrun
    · rename_i hst
      refine ⟨fun r => ?_, .inr ⟨p, ok, rfl, .inl rfl⟩, fun _ _ => rfl, fun _ _ _ h => h,
        fun r hr => .inl (sleeping_of_update (by simp) hr), fun _ => .inl rfl⟩
      by_cases hrp : r = p
      · subst hrp
        exact .inr ⟨by rw [hst.2], hst.1, update_self _ _ _⟩
      · exact .inl (update_of_ne hrp _ _)
    · exact ⟨fun _ => .inl rfl, .inr ⟨p, ok, rfl, .inr rfl⟩, fun _ _ => rfl, fun _ _ _ h => h,
        fun _ h => .inl h, fun _ => .inl rfl⟩
  | ready p =>
    cases hrun
    exact .of_state (fun r hr => .inl (sleeping_of_update (by simp) hr)) fun _ => .inl rfl
  | reap p =>
    simp only [Op.run] at hrun
    split at hrun <;> cases hrun
    · refine .of_state (fun r hr => .inl (sleeping_of_update (by simp) hr)) fun r => ?_
      by_cases hrp : r = p
      · subst hrp
        exact .inr (.inr ⟨rfl, by simp [SchedSys.setChan]⟩)
      · left
        simp [SchedSys.setChan, hrp]
    · exact hsame
  | zombieExit => cases hrun

lemma SchedInv.mild (h : SchedInv s) (hs : s.next x = some (e, t)) (hcall : NoSleepCall p e)
    (hset : ∀ y, e ≠ .exec (some p) (.setSleeping y)) : Mild p s t := by
  cases SchedSys.takes hs with
  | @exec c op rest l s' hcode hrun =>
    have hframe := Op.run_frame hrun
    have hl : NoSleep l := by
      rcases hframe.pushed with rfl | ⟨r, -, -, rfl | rfl⟩ <;> simp [NoSleep, forkRest]
    refine ⟨fun hno => ?_, fun hsl => ?_⟩
    · by_cases hself : s.cur c = some p
      · rw [hself] at hcode
        have hrest : NoSleep rest := fun y hy => hno y (by
          rw [show s.code p = _ from hcode]
          exact List.mem_cons_of_mem _ hy)
        simpa [SchedSys.setCode, hself] using hl.append hrest
      rw [setCode_code_of_ne hself]
      rcases hframe.code p with hp | ⟨-, -, hp⟩
      · rw [hp]
        exact hno
      · rw [hp]
        simp [NoSleep, forkretCode]
    · have hsl : s'.state p = .SLEEPING := hsl
      have hstate : s.state p = .SLEEPING := by
        rcases hframe.state p hsl with hst | ⟨hself, y, rfl⟩
        · exact hst
        · exact absurd (by rw [hself]) (hset y)
      refine ⟨hstate, ?_⟩
      rcases hframe.chan p with hch | ⟨hself, rfl | ⟨y, rfl⟩⟩ | ⟨-, hun⟩
      · exact hch
      · have := h.state_running hself (hself ▸ hcode) (by simp) (by simp) p rfl
        rw [hstate] at this
        cases this
      · exact absurd (by rw [hself]) (hset y)
      · rw [hun] at hsl
        cases hsl
  | @call c x q hc _ =>
    refine ⟨fun hno => ?_, fun hsl => ⟨hsl, rfl⟩⟩
    by_cases hq : p = q
    · subst hq
      have hx : ∀ chan k, x ≠ .sleep chan k := fun chan k e => hcall chan k (by rw [e])
      simpa [SchedSys.setCode] using NoSleep.call hx
    · rw [setCode_code_of_ne fun e => hq (Option.some.inj e).symm]
      exact hno
  | scan _ _ | rescan => exact ⟨id, fun hsl => ⟨hsl, rfl⟩⟩
  | @intr c k y _ =>
    refine ⟨fun hno => ?_, fun hsl => ⟨hsl, rfl⟩⟩
    by_cases hself : s.cur c = some p
    · simpa [SchedSys.setCode, SchedSys.threadCode, hself] using (NoSleep.intr _ k y).append hno
    · rw [setCode_code_of_ne hself]
      exact hno
  | @timer c q hc _ =>
    refine ⟨fun hno => ?_, fun hsl => ⟨hsl, rfl⟩⟩
    by_cases hq : p = q
    · subst hq
      simpa [SchedSys.setCode] using (NoSleep.yield p).append hno
    · rw [setCode_code_of_ne fun e => hq (Option.some.inj e).symm]
      exact hno

/-! ## Between `sleep` and `wakeup` -/

lemma SchedSys.next_exec
    (hs : s.next x = some (.exec self op, t)) : ∃ c rest s' l, s.cur c = self ∧
      s.threadCode c self = op :: rest ∧ op.run c self s = some (s', l) ∧
      t = s'.setCode c self (l ++ rest) := by
  cases SchedSys.takes hs with
  | exec hcode hrun => exact ⟨_, _, _, _, rfl, hcode, hrun, rfl⟩

lemma SchedSys.next_call {y : KernelCall n} (hs : s.next x = some (.call p y, t)) :
    ∃ c, s.cur c = some p ∧ s.code p = [] ∧ t = s.setCode c (some p) (y.code p) := by
  cases SchedSys.takes hs with
  | call hc hready => exact ⟨_, hc, hready.1, rfl⟩

lemma NoSleep.event (hno : NoSleep (s.code p)) (hs : s.next x = some (e, t))
    (y : ℕ) : e ≠ .exec (some p) (.setSleeping y) := by
  rintro rfl
  obtain ⟨c, rest, -, -, -, hcode, -, -⟩ := SchedSys.next_exec hs
  exact hno y (by rw [show s.code p = _ from hcode]; exact List.mem_cons_self)

lemma Awake.next (h : SchedInv s) (hs : SchedStep n C s e t) (hcall : NoSleepCall p e)
    (ha : Awake p s) : Awake p t := by
  obtain ⟨x, hs⟩ := hs
  exact (h.mild hs hcall (ha.1.event hs)).awake ha

/-- What a step does while the process `p` holds its own lock on the processor `c`, unless it is a
step of `p` itself: `p` stays where it is. -/
lemma SchedInv.stays (h : SchedInv s) (hs : s.next x = some (e, t)) (hc : s.cur c = some p)
    (hlock : s.lock (.proc p) = some c) (hcode : s.code p ≠ []) (he : ∀ op, e ≠ .exec (some p) op) :
    t.cur c = some p ∧ t.lock (.proc p) = some c ∧ t.code p = s.code p := by
  have hnoff : s.noff c ≠ 0 := fun h0 => by
    have : Lk.proc p ∈ {k | s.lock k = some c} := hlock
    rw [h.held_empty h0] at this
    cases this
  cases SchedSys.takes hs with
  | @exec c' op rest l s' hcode' hrun =>
    have hself : s.cur c' ≠ some p := fun hself => he op (by rw [hself])
    have hcc : c ≠ c' := fun e => hself (e ▸ hc)
    have hframe := Op.run_frame hrun
    refine ⟨(hframe.cur c hcc).trans hc, hframe.lock _ c hcc hlock, ?_⟩
    rw [setCode_code_of_ne hself]
    rcases hframe.code p with hp | ⟨rfl, -, -⟩
    · exact hp
    · -- `allocproc` would hold the lock of `p` on the other processor
      have hok := h.codeOk (c := c') rfl
      rw [hcode'] at hok
      have : s.lock (.proc p) = some c' := hok.1
      rw [hlock] at this
      exact absurd (Option.some.inj this) hcc
  | @call c' y q hc' hready =>
    have hq : some q ≠ some p := fun e => hcode (Option.some.inj e ▸ hready.1)
    exact ⟨hc, hlock, setCode_code_of_ne hq _⟩
  | scan _ _ | rescan => exact ⟨hc, hlock, rfl⟩
  | @intr c' k y h0 =>
    have hself : s.cur c' ≠ some p := fun hself => hnoff (h.disc.uniq c c' p hc hself ▸ h0)
    exact ⟨hc, hlock, setCode_code_of_ne hself _⟩
  | @timer c' q hc' h0 =>
    have hq : some q ≠ some p := fun e => by
      rw [e] at hc'
      exact hnoff (h.disc.uniq c c' p hc hc' ▸ h0)
    exact ⟨hc, hlock, setCode_code_of_ne hq _⟩

lemma SinceSleep.next (h : SchedInv s) (hs : SchedStep n C s e t) (hcall : NoSleepCall p e)
    (hsince : SinceSleep p chan s) : SinceSleep p chan t := by
  obtain ⟨x, hs⟩ := hs
  rcases hsince with ⟨c, r, hc, hlock, hcode, hr⟩ | ⟨hno, hchan⟩
  · by_cases he : ∃ op, e = .exec (some p) op
    · -- the process leaves the window
      obtain ⟨op, rfl⟩ := he
      obtain ⟨c', rest, s', l, hc', hcode', hrun, rfl⟩ := SchedSys.next_exec hs
      have hcons : Op.setSleeping chan :: .sched :: r = op :: rest :=
        hcode.symm.trans (show s.code p = _ from hcode')
      cases hcons
      cases hrun
      right
      simp [SchedSys.setCode, SchedSys.setState, SchedSys.setChan, NoSleep] at hr ⊢
      exact hr
    · obtain ⟨h1, h2, h3⟩ := h.stays hs hc hlock (by simp [hcode]) fun op hop => he ⟨op, hop⟩
      exact .inl ⟨c, r, h1, h2, h3.trans hcode, hr⟩
  · exact (h.mild hs hcall (hno.event hs)).sinceSleep hno hchan

lemma SinceSleep.start {k : Lk n} (h : SchedInv s)
    (hs : SchedStep n C s (.exec (some p) (.sleepRelease chan k)) t) : SinceSleep p chan t := by
  obtain ⟨x, hs⟩ := hs
  obtain ⟨c, rest, s', l, hc, hcode, hrun, rfl⟩ := SchedSys.next_exec hs
  have hok := h.codeOk hc
  rw [hcode] at hok
  obtain ⟨⟨r', rfl⟩, ⟨q, hq, hlock⟩, ⟨r, rfl, hr⟩, -⟩ := hok
  cases hq
  simp only [Op.run] at hrun
  split at hrun <;> cases hrun
  left
  refine ⟨c, r, hc, ?_, by simp [SchedSys.setCode], hr⟩
  have hne : Lk.proc p ≠ k := hlock.2
  simpa [SchedSys.setCode, SchedSys.unlockBy, hne] using hlock.1

lemma Awake.of_test (h : SchedInv s) (hqp : q ≠ p)
    (hs : SchedStep n C s (.exec (some q) (.test p chan)) t) (hsince : SinceSleep p chan s) :
    Awake p t := by
  obtain ⟨x, hs⟩ := hs
  have hmild := h.mild hs (p := p) (by simp [NoSleepCall]) (by simp)
  obtain ⟨c, rest, s', l, hc, hcode, hrun, rfl⟩ := SchedSys.next_exec hs
  have hok := h.codeOk hc
  rw [hcode] at hok
  rcases hsince with ⟨c', r, hc', hlock', -⟩ | ⟨hno, hchan⟩
  · -- in the window the lock of the process is not free
    have hlock : s.lock (.proc p) = some c := hok.1
    rw [hlock] at hlock'
    cases hlock'
    rw [hc] at hc'
    exact absurd (Option.some.inj hc') hqp
  refine ⟨hmild.code hno, fun hsl => ?_⟩
  have hst := (hmild.state hsl).1
  simp only [Op.run, hst, hchan hst, and_self, if_true] at hrun
  cases hrun
  simp [SchedSys.setCode, SchedSys.setState] at hsl

/-! ## The course of `wakeup` -/

/-- In what the process `q` has still to do, every end of a `wakeup(chan)` comes after a test of the
process `p`. -/
def TestsBeforeEnd (p q : Fin n) (chan : ℕ) (s : SchedSys n C) : Prop :=
  ∀ l r, s.code q = l ++ .wakeupEnd chan :: r → Op.test p chan ∈ l

lemma testsBeforeEnd_append (hl : Op.wakeupEnd chan ∉ l)
    (hr : ∀ l' r', r = l' ++ .wakeupEnd chan :: r' → Op.test p chan ∈ l') :
    ∀ l' r', l ++ r = l' ++ .wakeupEnd chan :: r' → Op.test p chan ∈ l' := by
  intro l' r' heq
  rcases List.append_eq_append_iff.mp heq with ⟨m, rfl, hm⟩ | ⟨m, rfl, hm⟩
  · exact List.mem_append_right _ (hr m r' hm)
  cases m with
  | nil => simpa using hr [] r' (by simpa using hm.symm)
  | cons o m =>
    cases hm
    exact absurd (by simp) hl

lemma testsBeforeEnd_wakeup (hqp : q ≠ p) {y : ℕ}
    (hr : ∀ l' r', r = l' ++ .wakeupEnd chan :: r' → Op.test p chan ∈ l') :
    ∀ l' r', wakeupCode (some q) y ++ r = l' ++ .wakeupEnd chan :: r' → Op.test p chan ∈ l' := by
  have hloop : ∀ z, Op.wakeupEnd z ∉ (List.finRange n).flatMap (wakeupOne (some q) y) := by
    intro z hmem
    simp only [List.mem_flatMap, wakeupOne] at hmem
    obtain ⟨r, -, hr⟩ := hmem
    split at hr <;> simp at hr
  intro l' r' heq
  rw [wakeupCode, List.append_assoc] at heq
  by_cases hy : y = chan
  · subst hy
    have htest : Op.test p y ∈ (List.finRange n).flatMap (wakeupOne (some q) y) := by
      refine List.mem_flatMap.mpr ⟨p, List.mem_finRange p, ?_⟩
      have : some p ≠ some q := fun e => hqp (Option.some.inj e).symm
      simp [wakeupOne, this]
    rcases List.append_eq_append_iff.mp heq with ⟨m, rfl, -⟩ | ⟨m, hm, hm'⟩
    · exact List.mem_append_left _ htest
    cases m with
    | nil =>
      rw [List.append_nil] at hm
      exact hm ▸ htest
    | cons o m =>
      cases hm'
      exact absurd (hm ▸ by simp) (hloop y)
  · refine testsBeforeEnd_append (hloop chan) (testsBeforeEnd_append ?_ hr) l' r' heq
    simpa using Ne.symm hy

lemma testsBeforeEnd_call (hqp : q ≠ p) (x : KernelCall n) :
    ∀ l r, x.code q = l ++ .wakeupEnd chan :: r → Op.test p chan ∈ l := by
  intro l r heq
  cases x with
  | wakeup y =>
    rw [KernelCall.code, ← List.append_nil (wakeupCode _ _)] at heq
    exact testsBeforeEnd_wakeup hqp (by simp) l r heq
  | _ =>
    have hmem : Op.wakeupEnd chan ∈ _ := heq ▸ List.mem_append_right l List.mem_cons_self
    simp [KernelCall.code, sleepCode, yieldCode, exitCode, killCode, forkCode, waitCode] at hmem

lemma TestsBeforeEnd.next (hqp : q ≠ p) (hs : SchedStep n C s e t)
    (he : e ≠ .exec (some q) (.test p chan)) (hq : TestsBeforeEnd p q chan s) :
    TestsBeforeEnd p q chan t := by
  obtain ⟨x, hs⟩ := hs
  unfold TestsBeforeEnd at hq ⊢
  cases SchedSys.takes hs with
  | @exec c op rest l s' hcode hrun =>
    have hframe := Op.run_frame hrun
    by_cases hself : s.cur c = some q
    · rw [hself] at hcode he
      have hcode : s.code q = op :: rest := hcode
      have hl : Op.wakeupEnd chan ∉ l := by
        rcases hframe.pushed with rfl | ⟨r, -, -, rfl | rfl⟩ <;> simp [forkRest]
      have hrest : ∀ l' r', rest = l' ++ .wakeupEnd chan :: r' → Op.test p chan ∈ l' := by
        intro l' r' heq
        have hmem := hq (op :: l') r' (by rw [hcode, heq, List.cons_append])
        rcases List.mem_cons.mp hmem with hop | hmem
        · exact absurd (by rw [hop]) he
        · exact hmem
      simpa [SchedSys.setCode, hself] using testsBeforeEnd_append hl hrest
    · rw [setCode_code_of_ne hself]
      rcases hframe.code q with hp | ⟨-, -, hp⟩
      · rw [hp]
        exact hq
      intro l' r' heq
      have hmem : Op.wakeupEnd chan ∈ s'.code q :=
        heq ▸ List.mem_append_right l' List.mem_cons_self
      simp [hp, forkretCode] at hmem
  | @call c x r hc _ =>
    by_cases hr : q = r
    · subst hr
      simpa [SchedSys.setCode] using testsBeforeEnd_call hqp x
    · rw [setCode_code_of_ne fun e => hr (Option.some.inj e).symm]
      exact hq
  | scan _ _ | rescan => exact hq
  | @intr c k y _ =>
    by_cases hself : s.cur c = some q
    · have hpush : ∀ l' r', [.acquire (.other k)] ++ (wakeupCode (some q) y ++
          ([.release (.other k)] ++ s.code q)) = l' ++ .wakeupEnd chan :: r' →
          Op.test p chan ∈ l' :=
        testsBeforeEnd_append (by simp) (testsBeforeEnd_wakeup hqp
          (testsBeforeEnd_append (by simp) hq))
      simpa [SchedSys.setCode, SchedSys.threadCode, hself, intrCode] using hpush
    · rw [setCode_code_of_ne hself]
      exact hq
  | @timer c r hc _ =>
    by_cases hr : q = r
    · subst hr
      have hpush := testsBeforeEnd_append (l := yieldCode q) (by simp [yieldCode]) hq
      simpa [SchedSys.setCode] using hpush
    · rw [setCode_code_of_ne fun e => hr (Option.some.inj e).symm]
      exact hq

lemma exists_test {u v : SchedSys n C} {tr : List (SchedEvent n)} (hqp : q ≠ p)
    (hcall : SchedStep n C s (.call q (.wakeup chan)) t) (hrun : Run (SchedStep n C) t tr u)
    (hend : SchedStep n C u (.exec (some q) (.wakeupEnd chan)) v) :
    SchedEvent.exec (some q) (.test p chan) ∈ tr := by
  by_contra hmem
  have hstart : TestsBeforeEnd p q chan t := by
    obtain ⟨x, hs⟩ := hcall
    obtain ⟨c, -, -, rfl⟩ := SchedSys.next_call hs
    simpa [TestsBeforeEnd, SchedSys.setCode] using testsBeforeEnd_call hqp _
  have hok : ∀ e ∈ tr, e ≠ SchedEvent.exec (some q) (.test p chan) := fun e he heq =>
    hmem (heq ▸ he)
  have hstep : ∀ (s : SchedSys n C) e t, SchedStep n C s e t → True →
      e ≠ SchedEvent.exec (some q) (.test p chan) → TestsBeforeEnd p q chan s →
      TestsBeforeEnd p q chan t := fun _ _ _ hs _ he hN => hN.next hqp hs he
  have hu := hrun.stable (fun _ _ _ _ _ => trivial) hstep trivial hok hstart
  obtain ⟨x, hs⟩ := hend
  obtain ⟨c, rest, -, -, -, hcode, -, -⟩ := SchedSys.next_exec hs
  simpa using hu [] rest hcode

lemma wakeup_step (hop : op ∈ wakeupCode self chan) (hs : SchedStep n C s (.exec self op) t)
    (r : Fin n) : t.chan r = s.chan r ∧ (t.state r = s.state r ∨
        (s.state r = .SLEEPING ∧ s.chan r = chan ∧ t.state r = .RUNNABLE)) := by
  obtain ⟨x, hs⟩ := hs
  obtain ⟨c, rest, s', l, hc, hcode, hrun, rfl⟩ := SchedSys.next_exec hs
  simp only [wakeupCode, List.mem_append, List.mem_flatMap, wakeupOne, List.mem_singleton] at hop
  rcases hop with ⟨p, -, hp⟩ | rfl
  · split at hp
    · cases hp
    simp only [List.mem_cons, List.not_mem_nil, or_false] at hp
    rcases hp with rfl | rfl | rfl
    · simp only [Op.run] at hrun
      split at hrun <;> cases hrun
      exact ⟨rfl, .inl rfl⟩
    · simp only [Op.run] at hrun
      split at hrun <;> cases hrun
      · rename_i hst
        refine ⟨rfl, ?_⟩
        by_cases hr : r = p
        · subst hr
          exact .inr ⟨hst.1, hst.2, by simp [SchedSys.setCode, SchedSys.setState]⟩
        · simp [SchedSys.setCode, SchedSys.setState, hr]
      · exact ⟨rfl, .inl rfl⟩
    · simp only [Op.run] at hrun
      split at hrun <;> cases hrun
      exact ⟨rfl, .inl rfl⟩
  · cases hrun
    exact ⟨rfl, .inl rfl⟩

/-- No lost wakeup.  Take a run from boot in which the process `p` releases `lk` in a call of
`sleep(chan, lk)`, another process `q` acquires `lk` later, then calls `wakeup(chan)`, and this call
ends: as long as `p` does not call `sleep` again, it is not asleep on the channel.  And no step of
`wakeup(chan)` changes a process that is not asleep on the channel. -/
theorem no_lost_wakeup (p₀ : Fin n) :
    (∀ (p q : Fin n) (chan : ℕ) (lk : Lk n) (t₁ t₂ t₃ t₄ t₅ : List (SchedEvent n))
        (s : SchedSys n C), q ≠ p → Run (SchedStep n C) (SchedSys.boot p₀)
        (t₁ ++ .exec (some p) (.sleepRelease chan lk) :: (t₂ ++ .exec (some q) (.acquire lk) ::
          (t₃ ++ .call q (.wakeup chan) :: (t₄ ++ .exec (some q) (.wakeupEnd chan) :: t₅)))) s →
      (∀ e ∈ t₂ ++ t₃ ++ t₄ ++ t₅, NoSleepCall p e) → ¬ (s.state p = .SLEEPING ∧ s.chan p = chan)) ∧
    ∀ (chan : ℕ) (self : Option (Fin n)) (op : Op n) (tr : List (SchedEvent n))
        (s t : SchedSys n C), Run (SchedStep n C) (SchedSys.boot p₀) tr s →
      op ∈ wakeupCode self chan → SchedStep n C s (.exec self op) t → ∀ r,
      ¬ (s.state r = .SLEEPING ∧ s.chan r = chan) → t.state r = s.state r ∧ t.chan r = s.chan r := by
  have hI : ∀ (s : SchedSys n C) e t, SchedStep n C s e t → SchedInv s → SchedInv t :=
    fun _ _ _ ⟨_, hs⟩ hinv => hinv.next hs
  refine ⟨fun p q chan lk t₁ t₂ t₃ t₄ t₅ s hqp hrun hno => ?_,
    fun chan self op tr s t _ hop hs r hr => ?_⟩
  · simp only [List.mem_append] at hno
    obtain ⟨s1, hr1, hrun⟩ := hrun.split
    obtain ⟨s2, he1, hrun⟩ := hrun.uncons
    obtain ⟨s3, hr2, hrun⟩ := hrun.split
    obtain ⟨s4, he2, hrun⟩ := hrun.uncons
    obtain ⟨s5, hr3, hrun⟩ := hrun.split
    obtain ⟨s6, he3, hrun⟩ := hrun.uncons
    obtain ⟨s7, hr4, hrun⟩ := hrun.split
    obtain ⟨s8, he4, hr5⟩ := hrun.uncons
    -- the test of `p` comes after its release of the lock
    obtain ⟨a, b, rfl⟩ := List.append_of_mem (exists_test hqp he3 hr4 he4)
    obtain ⟨u1, ha, hrun⟩ := hr4.split
    obtain ⟨u2, htest, hb⟩ := hrun.uncons
    have hinv1 : SchedInv s1 := SchedInv.of_run hr1
    have hinv2 := hI _ _ _ he1 hinv1
    have hcall : ∀ (r : Fin n) (o : Op n), NoSleepCall p (.exec (some r) o) := by
      simp [NoSleepCall]
    have htail : Run (SchedStep n C) s2 (t₂ ++ .exec (some q) (.acquire lk) ::
        (t₃ ++ .call q (.wakeup chan) :: a)) u1 :=
      hr2.trans (.cons he2 (hr3.trans (.cons he3 ha)))
    have hsince : SinceSleep p chan u1 := by
      refine htail.stable hI (fun _ _ _ hs hinv he hN => hN.next hinv hs he) hinv2 ?_
        (SinceSleep.start hinv1 he1)
      intro e he
      simp only [List.mem_append, List.mem_cons] at he
      rcases he with he | rfl | he | rfl | he
      · exact hno e (by simp [he])
      · exact hcall q _
      · exact hno e (by simp [he])
      · simp [NoSleepCall]
      · exact hno e (by simp [he])
    have hinvu1 : SchedInv u1 := htail.invariant hI hinv2
    have hawake : Awake p u2 := Awake.of_test hinvu1 hqp htest hsince
    have hrest : Run (SchedStep n C) u2 (b ++ .exec (some q) (.wakeupEnd chan) :: t₅) s :=
      hb.trans (.cons he4 hr5)
    have hlast : Awake p s := by
      refine hrest.stable hI (fun _ _ _ hs hinv he hN => hN.next hinv hs he)
        (hI _ _ _ htest hinvu1) ?_ hawake
      intro e he
      simp only [List.mem_append, List.mem_cons] at he
      rcases he with he | rfl | he
      · exact hno e (by simp [he])
      · exact hcall q _
      · exact hno e (by simp [he])
    exact fun hsl => hlast.2 hsl.1
  · obtain ⟨hchan, hstate | ⟨h1, h2, -⟩⟩ := wakeup_step hop hs r
    · exact ⟨hstate, hchan⟩
    · exact absurd ⟨h1, h2⟩ hr

def firstProc : Fin 2 := 0

def secondProc : Fin 2 := 1

def sleepAndWakeup : List (SchedChoice 2 Bool) :=
  [.loop false, .loop false, .exec false, .exec false, .exec false,
    .call false (.fork secondProc true)] ++ List.replicate 8 (.exec false) ++
  [.loop true, .loop true, .exec true, .exec true, .exec true, .loop true, .exec true, .exec true,
    .exec true, .call true (.acquire 5), .exec true, .call true (.sleep 7 5)] ++
  List.replicate 5 (.exec true) ++
  [.call false (.acquire 5), .exec false, .call false (.wakeup 7)] ++
  List.replicate 4 (.exec false)

theorem no_lost_wakeup_two_processes : ∃ (t₁ t₂ t₃ t₄ : List (SchedEvent 2)) (s : SchedSys 2 Bool),
      Run (SchedStep 2 Bool) (SchedSys.boot firstProc)
        (t₁ ++ .exec (some secondProc) (.sleepRelease 7 (.other 5)) ::
          (t₂ ++ .exec (some firstProc) (.acquire (.other 5)) ::
          (t₃ ++ .call firstProc (.wakeup 7) ::
          (t₄ ++ [.exec (some firstProc) (.wakeupEnd 7)])))) s ∧
      ¬ (s.state secondProc = .SLEEPING ∧ s.chan secondProc = 7) := by
  have hplay : (follow SchedSys.next (SchedSys.boot firstProc) sleepAndWakeup).map
      (fun x => x.1.drop 27) = some (.exec (some secondProc) (.sleepRelease 7 (.other 5)) ::
        ([.exec (some secondProc) (.setSleeping 7), .exec (some secondProc) .sched,
          .exec none (.release (.proc secondProc)), .call firstProc (.acquire 5)] ++
        .exec (some firstProc) (.acquire (.other 5)) :: ([] ++ .call firstProc (.wakeup 7) ::
        ([.exec (some firstProc) (.acquire (.proc secondProc)),
          .exec (some firstProc) (.test secondProc 7),
          .exec (some firstProc) (.release (.proc secondProc))] ++
        [.exec (some firstProc) (.wakeupEnd 7)])))) := by
    decide +kernel
  obtain ⟨⟨tr, s⟩, hfollow, htr⟩ := Option.map_eq_some_iff.mp hplay
  have hrun := Run.of_follow hfollow
  rw [← List.take_append_drop 27 tr, htr] at hrun
  refine ⟨_, _, _, _, s, hrun, (no_lost_wakeup firstProc).1 _ _ _ _ _ _ _ _ _ s (by decide) hrun ?_⟩
  simp [NoSleepCall]

end Xv6
