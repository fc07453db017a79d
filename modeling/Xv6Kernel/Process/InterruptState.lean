import Mathlib.Algebra.Order.Ring.Int
import Xv6Kernel.Foundation.Transition

/-!
# The interrupt state of a kernel thread

`push_off` and `pop_off` of `kernel/spinlock.c` and the switches of `kernel/proc.c`, on any number
of processors.  `noff` and `intena` are fields of the processor, but they describe the thread that
runs on it: the state of interrupts before its outermost `push_off`.  A thread gives up its
processor in `sched` with one `push_off` pending and may be resumed on another one; `sched` carries
`intena` along.

The steps are as fine as interrupts make them: `push_off` reads the interrupt flag first and turns
interrupts off later, and a trap may come between, whose handler may give up the processor.
-/

namespace Xv6.Nesting

open Function (update update_of_ne update_self)

/-! ## Processors and threads -/

/-- The fields of `struct cpu`, and the interrupt flag of the processor. -/
structure Cpu where
  noff : ℤ
  intena : Bool
  intr : Bool
  deriving DecidableEq

def Cpu.pushOff (old : Bool) (c : Cpu) : Cpu :=
  { noff := c.noff + 1, intena := if c.noff = 0 then old else c.intena, intr := false }

def Cpu.popOff (c : Cpu) : Except String Cpu :=
  if c.intr then .error "pop_off - interruptible"
  else if c.noff < 1 then .error "pop_off"
  else if c.noff - 1 = 0 ∧ c.intena then .ok { c with noff := c.noff - 1, intr := true }
  else .ok { c with noff := c.noff - 1 }

def Cpu.sched (c : Cpu) : Except String Bool :=
  if c.noff ≠ 1 then .error "sched locks"
  else if c.intr then .error "sched interruptible"
  else .ok c.intena

/-- A kernel thread. -/
structure Thread where
  depth : ℕ
  entry : Bool
  /-- The flag that a `push_off` has read, before it turns interrupts off. -/
  pending : Option Bool
  /-- The same for the code that was interrupted by traps, innermost first. -/
  outer : List (Option Bool)
  deriving DecidableEq

inductive LocalAct where
  | readIntr
  | pushOff
  | popOff
  | setIntr (b : Bool)
  | trap
  | trapRet
  deriving DecidableEq

/-- The `push_off`s and `pop_off`s of a thread are properly nested, in the handlers of traps too; a
trap comes only when interrupts are enabled. -/
def LocalAct.Allowed (c : Cpu) (k : Thread) : LocalAct → Prop
  | .readIntr => k.pending = none
  | .pushOff => k.pending ≠ none
  | .popOff => k.pending = none ∧ 1 ≤ k.depth
  | .setIntr _ => k.pending = none ∧ k.depth = 0
  | .trap => c.intr = true
  | .trapRet => k.pending = none ∧ k.depth = 0 ∧ k.outer ≠ []

instance (c : Cpu) (k : Thread) (a : LocalAct) : Decidable (a.Allowed c k) := by
  cases a <;> unfold LocalAct.Allowed <;> infer_instance

/-- What a step does. -/
def LocalAct.exec (c : Cpu) (k : Thread) : LocalAct → Except String (Cpu × Thread)
  | .readIntr => .ok (c, { k with pending := some c.intr })
  | .pushOff =>
    match k.pending with
    | none => .ok (c, k)
    | some old =>
      .ok (c.pushOff old, { k with depth := k.depth + 1, pending := none,
                                   entry := if k.depth = 0 then c.intr else k.entry })
  | .popOff =>
    match c.popOff with
    | .error msg => .error msg
    | .ok c' => .ok (c', { k with depth := k.depth - 1 })
  | .setIntr b => .ok ({ c with intr := b }, k)
  | .trap =>
    .ok ({ c with intr := false }, { k with pending := none, outer := k.pending :: k.outer })
  | .trapRet =>
    match k.outer with
    | [] => .ok (c, k)
    | p :: rest => .ok ({ c with intr := true }, { k with pending := p, outer := rest })

structure Agrees (c : Cpu) (k : Thread) : Prop where
  noff : c.noff = k.depth
  off : 0 < k.depth → c.intr = false
  pending : ∀ old, k.pending = some old → c.intr = old
  outer : ∀ old, some old ∈ k.outer → old = true

def Remembers (c : Cpu) (k : Thread) : Prop := 0 < k.depth → c.intena = k.entry

/-- `pop_off` inside a `push_off` does not panic, and turns interrupts on again at the outermost one
if `intena` says so. -/
lemma Agrees.popOff {c : Cpu} {k : Thread} (h : Agrees c k) (hk : 1 ≤ k.depth) :
    ∃ c', c.popOff = .ok c' ∧ c'.noff = (k.depth - 1 : ℕ) ∧ c'.intena = c.intena ∧
      (c'.intr = true ↔ k.depth = 1 ∧ c.intena = true) := by
  have hoff := h.off hk
  have hnoff := h.noff
  unfold Cpu.popOff
  rw [hoff, if_neg Bool.false_ne_true, if_neg (by omega)]
  by_cases hlast : c.noff - 1 = 0 ∧ c.intena = true
  · rw [if_pos hlast]
    exact ⟨_, rfl, by dsimp only; omega, rfl, iff_of_true rfl ⟨by omega, hlast.2⟩⟩
  · rw [if_neg hlast]
    refine ⟨_, rfl, by dsimp only; omega, rfl, iff_of_false (by simp) ?_⟩
    rintro ⟨h1, h2⟩
    exact hlast ⟨by omega, h2⟩

lemma Agrees.exec {c : Cpu} {k : Thread} {a : LocalAct} (h : Agrees c k) (ha : a.Allowed c k) :
    ∃ c' k', a.exec c k = .ok (c', k') ∧ Agrees c' k' ∧ (Remembers c k → Remembers c' k') := by
  cases a with
  | readIntr =>
    exact ⟨_, _, rfl, ⟨h.noff, h.off, fun old hold => Option.some.inj hold, h.outer⟩, id⟩
  | pushOff =>
    obtain ⟨old, hold⟩ := Option.ne_none_iff_exists'.mp ha
    have hintr := h.pending old hold
    have hnoff := h.noff
    have hex : LocalAct.exec c k .pushOff = .ok (c.pushOff old, { k with
        depth := k.depth + 1, pending := none,
        entry := if k.depth = 0 then c.intr else k.entry }) := by
      simp only [LocalAct.exec, hold]
    refine ⟨_, _, hex, ⟨?_, fun _ => rfl, ?_, h.outer⟩, ?_⟩
    · simp [Cpu.pushOff, hnoff]
    · exact fun old' hold' => absurd hold' (by simp)
    · -- the outermost `push_off` stores the flag that it has read, an inner one nothing
      intro hrem _
      by_cases hk : k.depth = 0
      · have h0 : c.noff = 0 := by omega
        simp [Cpu.pushOff, hk, h0, hintr]
      · have h0 : c.noff ≠ 0 := by omega
        simpa [Cpu.pushOff, hk, h0] using hrem (by omega)
  | popOff =>
    obtain ⟨c', hpop, hnoff, hintena, hintr⟩ := h.popOff ha.2
    have hex : LocalAct.exec c k .popOff = .ok (c', { k with depth := k.depth - 1 }) := by
      simp only [LocalAct.exec, hpop]
    refine ⟨_, _, hex, ⟨hnoff, ?_, ?_, h.outer⟩, ?_⟩
    · intro hk
      dsimp only at hk
      rw [Bool.eq_false_iff]
      intro hon
      have := (hintr.mp hon).1
      omega
    · intro old hold
      rw [ha.1] at hold
      exact absurd hold (by simp)
    · intro hrem hk
      have hpos : 1 ≤ k.depth := ha.2
      exact hintena.trans (hrem hpos)
  | setIntr b =>
    refine ⟨_, _, rfl, ⟨h.noff, ?_, ?_, h.outer⟩, id⟩
    · intro hk
      rw [ha.2] at hk
      exact absurd hk (lt_irrefl 0)
    · intro old hold
      rw [ha.1] at hold
      exact absurd hold (by simp)
  | trap =>
    refine ⟨_, _, rfl, ⟨h.noff, fun _ => rfl, fun old hold => absurd hold (by simp), ?_⟩, id⟩
    intro old hold
    obtain hhead | htail := List.mem_cons.mp hold
    · rw [← h.pending old hhead.symm]
      exact ha
    · exact h.outer old htail
  | trapRet =>
    obtain ⟨p, rest, hout⟩ := List.exists_cons_of_ne_nil ha.2.2
    have hex : LocalAct.exec c k .trapRet =
        .ok ({ c with intr := true }, { k with pending := p, outer := rest }) := by
      simp only [LocalAct.exec, hout]
    refine ⟨_, _, hex, ⟨h.noff, ?_, ?_, ?_⟩, id⟩
    · intro hk
      dsimp only at hk
      rw [ha.2.1] at hk
      exact absurd hk (lt_irrefl 0)
    · intro old hold
      dsimp only at hold
      exact (h.outer old (by simp [hout, hold])).symm
    · intro old hold
      exact h.outer old (by simp [hout, hold])

/-- The step with which the nesting depth returns to zero is a `pop_off`, and it restores the state
of interrupts before the outermost `push_off`. -/
lemma Agrees.exec_zero {c c' : Cpu} {k k' : Thread} {a : LocalAct} (h : Agrees c k)
    (hrem : Remembers c k) (hexec : a.exec c k = .ok (c', k')) (hk : 0 < k.depth)
    (hk' : k'.depth = 0) : c'.intr = true ↔ k.entry = true := by
  cases a with
  | popOff =>
    obtain ⟨c'', hpop, -, -, hintr⟩ := h.popOff hk
    simp only [LocalAct.exec, hpop, Except.ok.injEq, Prod.mk.injEq] at hexec
    obtain ⟨rfl, rfl⟩ := hexec
    dsimp only at hk'
    rw [hintr, hrem hk, and_iff_right (by omega)]
  | pushOff =>
    simp only [LocalAct.exec] at hexec
    split at hexec <;> simp only [Except.ok.injEq, Prod.mk.injEq] at hexec
    · rw [← hexec.2] at hk'
      omega
    · rw [← hexec.2] at hk'
      exact absurd hk' (Nat.succ_ne_zero _)
  | trapRet =>
    simp only [LocalAct.exec] at hexec
    split at hexec <;> simp only [Except.ok.injEq, Prod.mk.injEq] at hexec
    · rw [← hexec.2] at hk'
      omega
    · rw [← hexec.2] at hk'
      exact absurd hk' hk.ne'
  | readIntr | setIntr b | trap =>
    simp only [LocalAct.exec, Except.ok.injEq, Prod.mk.injEq] at hexec
    rw [← hexec.2] at hk'
    exact absurd hk' hk.ne'

/-- Where a process thread is. -/
inductive Place (C : Type) where
  /-- It has not run yet: it will begin in `forkret`. -/
  | fresh
  | parked (intena : Bool)
  | on (c : C)

/-- The thread does not run. -/
def Place.Waiting {C : Type} : Place C → Prop
  | .fresh | .parked _ => True
  | .on _ => False

instance {C : Type} (p : Place C) : Decidable p.Waiting := by
  cases p <;> unfold Place.Waiting <;> infer_instance

/-- The processors `C` with their schedulers, and the process threads `T`. -/
structure State (C T : Type) where
  cpu : C → Cpu
  /-- The process thread that runs on a processor, none for its scheduler. -/
  cur : C → Option T
  proc : T → Thread
  place : T → Place C
  sched : C → Thread
  /-- The scheduler has come back from a process and has not released its lock. -/
  back : C → Bool

/-- The steps on a processor. -/
inductive Act (T : Type) where
  | loc (a : LocalAct)
  | sched
  | dispatch (t : T)

variable {C T : Type}

def State.running (s : State C T) (c : C) : Thread :=
  match s.cur c with
  | some t => s.proc t
  | none => s.sched c

/-- The threads are properly nested and enter `sched` with only the lock of the process.  The
scheduler, outside of the handlers of traps, takes one lock; it then switches to the process, if at
all, and gives the lock back. -/
def Act.Allowed (s : State C T) (c : C) : Act T → Prop
  | .loc a => a.Allowed (s.cpu c) (s.running c) ∧
      (s.cur c = none → (s.sched c).outer = [] → 1 ≤ (s.sched c).depth → a = .popOff ∨ a = .trap)
  | .sched => s.cur c ≠ none ∧ (s.running c).pending = none ∧ (s.running c).depth = 1
  | .dispatch t => s.cur c = none ∧ (s.sched c).depth = 1 ∧ (s.sched c).pending = none ∧
      (s.sched c).outer = [] ∧ s.back c = false ∧ (s.place t).Waiting

instance (s : State C T) (c : C) (a : Act T) : Decidable (a.Allowed s c) := by
  cases a <;> unfold Act.Allowed <;> infer_instance

def State.setRunning [DecidableEq C] [DecidableEq T] (s : State C T) (c : C) (k : Cpu)
    (th : Thread) : State C T :=
  match s.cur c with
  | some t => { s with cpu := update s.cpu c k, proc := update s.proc t th }
  | none =>
    { s with cpu := update s.cpu c k, sched := update s.sched c th,
             back := update s.back c (s.back c && decide (0 < th.depth)) }

/-- What a step does. -/
def Act.exec [DecidableEq C] [DecidableEq T] (s : State C T) (c : C) :
    Act T → Except String (State C T)
  | .loc a =>
    match a.exec (s.cpu c) (s.running c) with
    | .error msg => .error msg
    | .ok (k, th) => .ok (s.setRunning c k th)
  | .sched =>
    match s.cur c with
    | none => .ok s
    | some t =>
      match (s.cpu c).sched with
      | .error msg => .error msg
      | .ok intena =>
        .ok { s with cur := update s.cur c none,
                     place := update s.place t (.parked intena),
                     back := update s.back c true }
  | .dispatch t =>
    match s.place t with
    | .on _ => .ok s
    | .parked intena =>
      .ok { s with cur := update s.cur c (some t),
                   place := update s.place t (.on c),
                   cpu := update s.cpu c { s.cpu c with intena := intena } }
    | .fresh =>
      -- `forkret` still holds the lock that the scheduler has taken
      .ok { s with cur := update s.cur c (some t),
                   place := update s.place t (.on c),
                   proc := update s.proc t ⟨1, (s.sched c).entry, none, []⟩ }

/-- The steps of the machine. -/
def Step [DecidableEq C] [DecidableEq T] (s : State C T) (l : C × Act T) (s' : State C T) : Prop :=
  l.2.Allowed s l.1 ∧ l.2.exec s l.1 = .ok s'

/-- Before the first step the processors are in their schedulers, with no `push_off` pending, and
the processes have not run. -/
structure Init (s : State C T) : Prop where
  cur : ∀ c, s.cur c = none
  noff : ∀ c, (s.cpu c).noff = 0
  sched : ∀ c, (s.sched c).depth = 0 ∧ (s.sched c).pending = none ∧ (s.sched c).outer = []
  back : ∀ c, s.back c = false
  place : ∀ t, s.place t = .fresh

/-! ## The invariant -/

/-- A scheduler that holds the lock of a process and does nothing else. -/
def Waits (k : Thread) : Prop := k.depth = 1 ∧ k.pending = none ∧ k.outer = []

/-- What holds on one processor. -/
def CpuInv (s : State C T) (c : C) : Prop :=
  match s.cur c with
  | some t => s.place t = .on c ∧ Agrees (s.cpu c) (s.proc t) ∧ Remembers (s.cpu c) (s.proc t) ∧
      Waits (s.sched c)
  | none => Agrees (s.cpu c) (s.sched c) ∧
      (s.back c = false → Remembers (s.cpu c) (s.sched c)) ∧ (s.back c = true → Waits (s.sched c))

/-- What holds of a thread in `sched`: the saved `intena` is its own. -/
structure ParkInv (k : Thread) (intena : Bool) : Prop where
  depth : k.depth = 1
  pending : k.pending = none
  intena : intena = k.entry
  outer : ∀ old, some old ∈ k.outer → old = true

/-- The invariant of the machine. -/
structure Inv (s : State C T) : Prop where
  cpu : ∀ c, CpuInv s c
  parked : ∀ t b, s.place t = .parked b → ParkInv (s.proc t) b

lemma Init.inv {s : State C T} (h : Init s) : Inv s := by
  constructor
  · intro c
    obtain ⟨hd, hp, ho⟩ := h.sched c
    unfold CpuInv
    rw [h.cur c]
    refine ⟨⟨by rw [h.noff, hd]; rfl, ?_, ?_, ?_⟩, fun _ hk => ?_, fun hb => ?_⟩
    · exact fun hk => absurd hk (by omega)
    · exact fun old hold => absurd hold (by simp [hp])
    · exact fun old hold => absurd hold (by simp [ho])
    · exact absurd hk (by omega)
    · exact absurd hb (by simp [h.back c])
  · intro t b hb
    rw [h.place t] at hb
    exact absurd hb (by simp)

lemma Inv.running {s : State C T} (h : Inv s) (c : C) : Agrees (s.cpu c) (s.running c) := by
  have hc := h.cpu c
  unfold CpuInv at hc
  unfold State.running
  cases hcur : s.cur c with
  | some t =>
    rw [hcur] at hc
    exact hc.2.1
  | none =>
    rw [hcur] at hc
    exact hc.1

lemma CpuInv.congr {s s' : State C T} {d : C} (h : CpuInv s d) (hcpu : s'.cpu d = s.cpu d)
    (hcur : s'.cur d = s.cur d) (hsched : s'.sched d = s.sched d) (hback : s'.back d = s.back d)
    (hproc : ∀ t, s.cur d = some t → s.place t = .on d →
      s'.place t = s.place t ∧ s'.proc t = s.proc t) : CpuInv s' d := by
  unfold CpuInv at h ⊢
  rw [hcpu, hcur, hsched, hback]
  cases hd : s.cur d with
  | none =>
    rw [hd] at h
    exact h
  | some t =>
    rw [hd] at h
    obtain ⟨hplace, hth⟩ := hproc t hd h.1
    dsimp only
    rw [hplace, hth]
    exact h

variable [DecidableEq C] [DecidableEq T]

section

variable {s : State C T} (h : Inv s) {c : C}
include h

lemma Inv.loc {a : LocalAct} (ha : (Act.loc a : Act T).Allowed s c) :
    ∃ s', (Act.loc a : Act T).exec s c = .ok s' ∧ Inv s' := by
  obtain ⟨hallow, hsched⟩ := ha
  have hc := h.cpu c
  obtain ⟨k, th, hexec, hagree, hrem⟩ := (h.running c).exec hallow
  refine ⟨s.setRunning c k th, by simp only [Act.exec, hexec], ?_⟩
  unfold State.setRunning
  cases hcur : s.cur c with
  | some t =>
    unfold CpuInv at hc
    unfold State.running at hrem
    rw [hcur] at hc hrem
    obtain ⟨hplace, -, hremember, hwait⟩ := hc
    constructor
    · intro d
      by_cases hd : d = c
      · subst hd
        unfold CpuInv
        simp only [hcur, update_self]
        exact ⟨hplace, hagree, hrem hremember, hwait⟩
      · refine (h.cpu d).congr (update_of_ne hd _ _) rfl rfl rfl fun t' _ hon => ⟨rfl, ?_⟩
        -- another processor runs another thread
        refine update_of_ne ?_ _ _
        rintro rfl
        rw [hplace] at hon
        exact hd (Place.on.inj hon).symm
    · intro t' b hb
      have hne : t' ≠ t := by
        rintro rfl
        rw [show s.place t' = .parked b from hb] at hplace
        exact absurd hplace (by simp)
      dsimp only
      rw [update_of_ne hne]
      exact h.parked t' b hb
  | none =>
    unfold CpuInv at hc
    unfold State.running at hrem hallow hexec
    rw [hcur] at hc hrem hallow hexec
    obtain ⟨hag, hremember, hwait⟩ := hc
    -- with the lock still held after a process, the scheduler can only release it
    have hback : s.back c = true → th.depth = 0 := by
      intro hb
      obtain ⟨hd, hp, hout⟩ := hwait hb
      obtain rfl | rfl := hsched hcur hout (by omega)
      · obtain ⟨c', hpop, -⟩ := hag.popOff (by omega)
        simp only [LocalAct.exec, hpop, Except.ok.injEq, Prod.mk.injEq] at hexec
        rw [← hexec.2, hd]
      · have hoff := hag.off (by omega)
        rw [show (s.cpu c).intr = true from hallow] at hoff
        exact absurd hoff (by simp)
    refine ⟨fun d => ?_, h.parked⟩
    by_cases hd : d = c
    · subst hd
      unfold CpuInv
      simp only [hcur, update_self]
      refine ⟨hagree, fun hb hk => ?_, fun hb => ?_⟩
      · cases hold : s.back d with
        | false => exact hrem (hremember hold) hk
        | true =>
          rw [hback hold] at hk
          exact absurd hk (lt_irrefl 0)
      · rw [Bool.and_eq_true, decide_eq_true_eq] at hb
        rw [hback hb.1] at hb
        exact absurd hb.2 (lt_irrefl 0)
    · exact (h.cpu d).congr (update_of_ne hd _ _) rfl (update_of_ne hd _ _)
        (update_of_ne hd _ _) fun _ _ _ => ⟨rfl, rfl⟩

lemma Inv.sched (ha : (Act.sched : Act T).Allowed s c) :
    ∃ s', (Act.sched : Act T).exec s c = .ok s' ∧ Inv s' := by
  obtain ⟨hne, hpend, hdepth⟩ := ha
  have hc := h.cpu c
  obtain ⟨t, hcur⟩ := Option.ne_none_iff_exists'.mp hne
  unfold CpuInv at hc
  unfold State.running at hpend hdepth
  rw [hcur] at hc hpend hdepth
  obtain ⟨hplace, hag, hrem, hwait⟩ := hc
  have hone : (s.proc t).depth = 1 := hdepth
  have hoff := hag.off (by omega)
  have hnoff : (s.cpu c).noff = 1 := by
    rw [hag.noff, hdepth]
    rfl
  have hs : (s.cpu c).sched = .ok (s.cpu c).intena := by
    unfold Cpu.sched
    rw [if_neg (not_not.mpr hnoff), hoff, if_neg Bool.false_ne_true]
  refine ⟨{ s with cur := update s.cur c none,
                   place := update s.place t (.parked (s.cpu c).intena),
                   back := update s.back c true },
    by simp only [Act.exec, hcur, hs], fun d => ?_, fun t' b hb => ?_⟩
  · by_cases hd : d = c
    · subst hd
      unfold CpuInv
      simp only [update_self]
      refine ⟨⟨by rw [hnoff, hwait.1]; rfl, fun _ => hoff, fun old hold => ?_, fun old hold => ?_⟩,
        fun hb => absurd hb (by simp), fun _ => hwait⟩
      · rw [hwait.2.1] at hold
        exact absurd hold (by simp)
      · rw [hwait.2.2] at hold
        exact absurd hold List.not_mem_nil
    · refine (h.cpu d).congr rfl (update_of_ne hd _ _) rfl (update_of_ne hd _ _)
        fun t' _ hon => ⟨?_, rfl⟩
      refine update_of_ne ?_ _ _
      rintro rfl
      rw [hplace] at hon
      exact hd (Place.on.inj hon).symm
  · by_cases ht : t' = t
    · subst ht
      simp only [update_self, Place.parked.injEq] at hb
      subst hb
      exact ⟨hdepth, hpend, hrem (by omega), hag.outer⟩
    · simp only [update_of_ne ht] at hb
      exact h.parked t' b hb

lemma Inv.dispatch {t : T} (ha : (Act.dispatch t : Act T).Allowed s c) :
    ∃ s', (Act.dispatch t : Act T).exec s c = .ok s' ∧ Inv s' := by
  obtain ⟨hcur, hdepth, hpend, hout, hback, hwaits⟩ := ha
  have hon : ∀ d, s.place t ≠ .on d := by
    intro d hd
    rw [hd] at hwaits
    exact hwaits
  have hc := h.cpu c
  unfold CpuInv at hc
  rw [hcur] at hc
  obtain ⟨hag, hrem, -⟩ := hc
  have hone : (s.sched c).depth = 1 := hdepth
  have hoff := hag.off (by omega)
  have hnoff : (s.cpu c).noff = 1 := by
    rw [hag.noff, hdepth]
    rfl
  cases hplace : s.place t with
  | on d => exact absurd hplace (hon d)
  | parked b =>
    obtain ⟨hd, hp, hb, ho⟩ := h.parked t b hplace
    refine ⟨{ s with cur := update s.cur c (some t),
                     place := update s.place t (.on c),
                     cpu := update s.cpu c { s.cpu c with intena := b } },
      by simp only [Act.exec, hplace], fun d => ?_, fun t' b' hb' => ?_⟩
    · by_cases hdc : d = c
      · subst hdc
        unfold CpuInv
        simp only [update_self]
        refine ⟨trivial, ⟨by rw [hd]; exact hnoff, fun _ => hoff, fun old hold => ?_, ho⟩,
          fun _ => hb, hdepth, hpend, hout⟩
        rw [hp] at hold
        exact absurd hold (by simp)
      · refine (h.cpu d).congr (update_of_ne hdc _ _) (update_of_ne hdc _ _)
          rfl rfl fun t' _ hon' => ⟨update_of_ne ?_ _ _, rfl⟩
        rintro rfl
        exact hon d hon'
    · by_cases ht : t' = t
      · subst ht
        simp only [update_self] at hb'
        exact absurd hb' (by simp)
      · simp only [update_of_ne ht] at hb'
        exact h.parked t' b' hb'
  | fresh =>
    refine ⟨{ s with cur := update s.cur c (some t),
                     place := update s.place t (.on c),
                     proc := update s.proc t ⟨1, (s.sched c).entry, none, []⟩ },
      by simp only [Act.exec, hplace], fun d => ?_, fun t' b' hb' => ?_⟩
    · by_cases hdc : d = c
      · subst hdc
        unfold CpuInv
        simp only [update_self]
        refine ⟨trivial, ⟨hnoff, fun _ => hoff, fun old hold => absurd hold (by simp),
          fun old hold => absurd hold List.not_mem_nil⟩, fun _ => hrem hback (by omega), hdepth,
          hpend, hout⟩
      · refine (h.cpu d).congr rfl (update_of_ne hdc _ _) rfl rfl
          fun t' _ hon' => ⟨update_of_ne ?_ _ _, update_of_ne ?_ _ _⟩
        · rintro rfl
          exact hon d hon'
        · rintro rfl
          exact hon d hon'
    · by_cases ht : t' = t
      · subst ht
        simp only [update_self] at hb'
        exact absurd hb' (by simp)
      · simp only [update_of_ne ht] at hb' ⊢
        exact h.parked t' b' hb'

/-- A step that the threads may make does not panic and keeps the invariant. -/
lemma Inv.exec {a : Act T} (ha : a.Allowed s c) : ∃ s', a.exec s c = .ok s' ∧ Inv s' := by
  cases a with
  | loc a => exact h.loc ha
  | sched => exact h.sched ha
  | dispatch t => exact h.dispatch ha

end

lemma Inv.step {s s' : State C T} {l : C × Act T} (hstep : Step s l s') (h : Inv s) : Inv s' := by
  obtain ⟨s'', hexec, hinv⟩ := h.exec hstep.1
  obtain rfl : s'' = s' := Except.ok.inj (hexec.symm.trans hstep.2)
  exact hinv

lemma Init.inv_run {s s' : State C T} {tr : List (C × Act T)} (h : Init s)
    (hr : Run Step s tr s') : Inv s' :=
  hr.invariant (fun _ _ _ hstep hI => hI.step hstep) h.inv

/-- The interrupt state belongs to the kernel thread.  At every point of every schedule `noff` of a
processor is the nesting depth of the thread on it; no step panics, in particular not in `pop_off`
or in `sched`; and when the nesting depth of a process thread returns to zero, interrupts are
enabled if and only if they were at its outermost `push_off`, on whatever processor that was. -/
theorem interrupt_state_of_thread {s s' : State C T} {tr : List (C × Act T)} (hinit : Init s)
    (hrun : Run Step s tr s') : (∀ c, (s'.cpu c).noff = (s'.running c).depth) ∧
    (∀ c (a : Act T), a.Allowed s' c → ∃ s'', a.exec s' c = .ok s'') ∧
    ∀ c t a s'', s'.cur c = some t → 0 < (s'.proc t).depth → Step s' (c, a) s'' →
      (s''.proc t).depth = 0 → ((s''.cpu c).intr = true ↔ (s'.proc t).entry = true) := by
  have hinv := hinit.inv_run hrun
  refine ⟨fun c => (hinv.running c).noff, fun c a ha => ?_, ?_⟩
  · obtain ⟨s'', hexec, -⟩ := hinv.exec ha
    exact ⟨s'', hexec⟩
  · rintro c t a s'' hcur hpos ⟨hallow, hexec⟩ hzero
    have hc := hinv.cpu c
    unfold CpuInv at hc
    rw [hcur] at hc
    obtain ⟨-, hag, hrem, -⟩ := hc
    cases a with
    | loc a =>
      have hth : s'.running c = s'.proc t := by
        unfold State.running
        rw [hcur]
      simp only [Act.exec, hth] at hexec
      split at hexec
      · exact absurd hexec (by simp)
      · rename_i k th hloc
        simp only [State.setRunning, hcur, Except.ok.injEq] at hexec
        rw [← hexec] at hzero ⊢
        simp only [update_self] at hzero ⊢
        exact hag.exec_zero hrem hloc hpos hzero
    | sched =>
      simp only [Act.exec, hcur] at hexec
      split at hexec
      · exact absurd hexec (by simp)
      · rw [← Except.ok.inj hexec] at hzero
        exact absurd hzero hpos.ne'
    | dispatch t' =>
      rw [hallow.1] at hcur
      exact absurd hcur (by simp)

/-- Follow a list of steps. -/
def play (s : State C T) : List (C × Act T) → Option (State C T)
  | [] => some s
  | l :: tr =>
    if l.2.Allowed s l.1 then
      match l.2.exec s l.1 with
      | .ok s' => play s' tr
      | .error _ => none
    else none

lemma run_of_play {s s' : State C T} {tr : List (C × Act T)} (h : play s tr = some s') :
    Run Step s tr s' := by
  induction tr generalizing s with
  | nil =>
    obtain rfl : s = s' := Option.some.inj h
    exact .refl s
  | cons l tr ih =>
    unfold play at h
    split at h
    · rename_i hallow
      split at h
      · rename_i s1 hexec
        exact .cons ⟨hallow, hexec⟩ (ih h)
      · exact absurd h (by simp)
    · exact absurd h (by simp)

def twoCpus : State Bool Unit where
  cpu _ := ⟨0, false, false⟩
  cur _ := none
  proc _ := ⟨0, false, none, []⟩
  place _ := .fresh
  sched _ := ⟨0, false, none, []⟩
  back _ := false

/-- The process begins on the first processor and gives it up with interrupts off; the scheduler of
the second one, where interrupts were on, resumes it. -/
def migration : List (Bool × Act Unit) :=
  [(false, .loc (.setIntr true)), (false, .loc .readIntr), (false, .loc .pushOff),
    (false, .dispatch ()), (false, .loc .popOff), (false, .loc (.setIntr false)),
    (false, .loc .readIntr), (false, .loc .pushOff), (false, .sched), (false, .loc .popOff),
    (true, .loc (.setIntr true)), (true, .loc .readIntr), (true, .loc .pushOff),
    (true, .dispatch ())]

/-- After the migration the `pop_off` of the process leaves interrupts off. -/
theorem interrupt_state_of_thread_migration : ∃ s', Run Step twoCpus migration s' ∧
    s'.cur true = some () ∧ (s'.proc ()).depth = 1 ∧ (s'.cpu true).noff = 1 ∧
    ∀ s'', Step s' (true, .loc .popOff) s'' → (s''.proc ()).depth = 0 →
      (s''.cpu true).intr = false := by
  obtain ⟨s', hs'⟩ := Option.isSome_iff_exists.mp (show (play twoCpus migration).isSome by decide)
  have hdata : (play twoCpus migration).map (fun s => (s.cur true, (s.proc ()).depth,
      (s.proc ()).entry)) = some (some (), 1, false) := by decide
  rw [hs', Option.map_some, Option.some.injEq, Prod.mk.injEq, Prod.mk.injEq] at hdata
  obtain ⟨hcur, hdepth, hentry⟩ := hdata
  have hinit : Init twoCpus :=
    ⟨fun _ => rfl, fun _ => rfl, fun _ => ⟨rfl, rfl, rfl⟩, fun _ => rfl, fun _ => rfl⟩
  obtain ⟨hnoff, -, hpop⟩ := interrupt_state_of_thread hinit (run_of_play hs')
  refine ⟨s', run_of_play hs', hcur, hdepth, ?_, fun s'' hstep hzero => ?_⟩
  · rw [hnoff true, State.running, hcur]
    exact congrArg _ hdepth
  · have hiff := hpop true () _ s'' hcur (by omega) hstep hzero
    rw [hentry] at hiff
    exact Bool.eq_false_iff.mpr fun hon => Bool.false_ne_true (hiff.mp hon)

end Xv6.Nesting
