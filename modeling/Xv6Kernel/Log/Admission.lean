import Xv6Kernel.Foundation.Monitor
import Xv6Kernel.Log.Journal
import Mathlib.Algebra.Order.BigOperators.Group.Finset

/-!
# Admission to the log

`begin_op`, `log_write` and `end_op` with `log.lock`, on which a process that is not admitted
sleeps.  The lock protects the counters of the log, but `commit`, which empties the in-memory
header, runs without it.
-/

namespace Xv6

open Finset Protocol Function

inductive AdmitAct where
  | test
  | beginOp
  | logWrite (n : ℕ)
  | endOp
  | commit
  | clear
  | committed
  | endCommit
  | wakeup
  deriving DecidableEq

abbrev AdmitProg (N : ℕ) (α : Type) : Type 1 := MonProg N Log AdmitAct Unit α

namespace AdmitProg

variable {N : ℕ}

def beginOpLoop (p : Fin N) : ℕ → AdmitProg N Unit
  | 0 => Monitor.halt
  | rounds + 1 => do
    if ← Monitor.act .test fun l => .done l.admits l then
      Monitor.act .beginOp fun l => .done () { l with outstanding := l.outstanding + 1 }
      Monitor.release
    else
      Monitor.sleep p ()
      beginOpLoop p rounds

def beginOp (p : Fin N) (rounds : ℕ) : AdmitProg N Unit := do
  Monitor.acquire p
  beginOpLoop p rounds

def logWrites (p : Fin N) : List ℕ → AdmitProg N Unit
  | [] => return
  | n :: ns => do
    Monitor.acquire p
    let _ ← Monitor.act (.logWrite n) fun l => l.logWrite n
    Monitor.release
    logWrites p ns

def wakeupLog (p : Fin N) : AdmitProg N Unit := do
  Monitor.wakeup p ()
  Monitor.act .wakeup fun l => .done () l

def commit : AdmitProg N Unit := do
  if ← Monitor.act .commit fun l => .done (decide (0 < l.lh.length)) l then
    Monitor.act .clear fun l => .done () { l with lh := [] }
  Monitor.act .committed fun l => .done () l

def endOp (p : Fin N) : AdmitProg N Unit := do
  Monitor.acquire p
  if ← Monitor.act .endOp Log.endOp then
    Monitor.release
    commit
    Monitor.acquire p
    Monitor.act .endCommit fun l => .done () l.endCommit
    wakeupLog p
    Monitor.release
  else
    wakeupLog p
    Monitor.release

end AdmitProg

/-- The machine whose processes run operations: a number of rounds for `begin_op` and the blocks
given to `log_write`. -/
def admitMachine (N : ℕ) : Machine (Monitor N Log Unit) (MonAct N AdmitAct Unit) (Fin N) where
  Call := ℕ × List ℕ
  body p x := do
    AdmitProg.beginOp p x.1
    AdmitProg.logWrites p x.2
    AdmitProg.endOp p
  ready _ _ _ := True

instance (N : ℕ) (s : Monitor N Log Unit) (p : Fin N) (x : (admitMachine N).Call) :
    Decidable ((admitMachine N).ready s p x) :=
  inferInstanceAs (Decidable True)

def Log.started (N size : ℕ) : Monitor N Log Unit := Monitor.init ⟨size, 0, false, []⟩

inductive OpPlace where
  | out
  | op
  | ending
  | commit
  | committed
  | ended
  deriving DecidableEq

/-- How an action changes the place of the process that performs it. -/
def OpPlace.next (x : OpPlace) : AdmitAct → OpPlace
  | .test | .logWrite _ | .clear => x
  | .beginOp => .op
  | .endOp => .ending
  | .commit => .commit
  | .committed => .committed
  | .endCommit => .ended
  | .wakeup => .out

def OpPlace.upd {N : ℕ} (η : Fin N → OpPlace) (p : Fin N) (a : AdmitAct) : Fin N → OpPlace :=
  Function.update η p ((η p).next a)

/-! ## The invariant -/

inductive OpStage where
  | out
  | op
  | due
  | last
  | commit
  | cleared
  | committed
  | ended
  deriving DecidableEq

namespace OpStage

def place : OpStage → OpPlace
  | .out => .out
  | .op => .op
  | .due | .last => .ending
  | .commit | .cleared => .commit
  | .committed => .committed
  | .ended => .ended

def inOp : OpStage → ℕ
  | .op => 1
  | _ => 0

def job : OpStage → Bool
  | .last | .commit | .cleared | .committed => true
  | .out | .op | .due | .ended => false

def emptied : OpStage → Bool
  | .cleared | .committed => true
  | _ => false

lemma job_of_emptied {x : OpStage} (hx : x.emptied = true) : x.job = true := by
  cases x <;> first | rfl | cases hx

end OpStage

/-- The part of the log that only the holder of the lock changes: while somebody commits, the header
is not part of it. -/
def Log.view (l : Log) : ℕ × Bool × List ℕ :=
  (l.outstanding, l.committing, if l.committing then [] else l.lh)

variable {N : ℕ}

structure AdmitInv (l : Log) (η : Fin N → OpPlace) (γ : Fin N → OpStage) : Prop where
  place : ∀ p, η p = (γ p).place
  out : l.outstanding = ∑ p, (γ p).inOp
  /-- `committing` is set while a process is responsible for the commit. -/
  commit : ∀ p, (γ p).job = true → l.committing = true
  job : l.committing = true → ∃ p, (γ p).job = true
  uniq : ∀ p q, (γ p).job = true → (γ q).job = true → p = q
  quiet : l.committing = true → l.outstanding = 0
  empty : l.committing = false → l.outstanding = 0 → l.lh = []
  emptied : ∀ p, (γ p).emptied = true → l.lh = []

def admitSpec (N : ℕ) :
    MonSpec N Log AdmitAct Unit (ℕ × Bool × List ℕ) OpStage (Fin N → OpPlace) where
  view := Log.view
  waits _ k := k.2.1 = true ∨ 1 ≤ k.1
  inv := AdmitInv
  upd := OpPlace.upd
  guar l _ _ a := ∀ n, a = .logWrite n → l.committing = false ∧ 1 ≤ l.outstanding
  tol msg := msg = "too big a transaction"
  sleeps g := g = .out
  quiet _ := True
  idle := .out

namespace AdmitInv

variable {l : Log} {η : Fin N → OpPlace} {γ : Fin N → OpStage} {p : Fin N}

section

variable (h : AdmitInv l η γ)
include h

lemma change {l' : Log} {a : AdmitAct} {x : OpStage} (hplace : (γ p).place.next a = x.place)
    (hout : l'.outstanding + (γ p).inOp = l.outstanding + x.inOp)
    (hjob : x.job = true → l'.committing = true)
    (hkeep : ∀ q, q ≠ p → (γ q).job = true → l'.committing = true ∧ x.job = false)
    (hhas : l'.committing = true → x.job = true ∨ ∃ q, q ≠ p ∧ (γ q).job = true)
    (hquiet : l'.committing = true → l'.outstanding = 0)
    (hempty : l'.committing = false → l'.outstanding = 0 → l'.lh = [])
    (hemptied : x.emptied = true → l'.lh = [])
    (hothers : ∀ q, q ≠ p → (γ q).emptied = true → l'.lh = []) :
    AdmitInv l' (OpPlace.upd η p a) (update γ p x) := by
  refine ⟨fun q => ?_, ?_, fun q hq => ?_, fun hc => ?_, fun q r hq hr => ?_, hquiet, hempty,
    fun q hq => ?_⟩
  · by_cases hqp : q = p
    · subst hqp
      simpa [OpPlace.upd, h.place q] using hplace
    · simpa [OpPlace.upd, hqp] using h.place q
  · have hsum := sum_update_add OpStage.inOp γ p x
    rw [← h.out] at hsum
    omega
  · by_cases hqp : q = p
    · subst hqp
      exact hjob (by simpa using hq)
    · exact (hkeep q hqp (by simpa [hqp] using hq)).1
  · obtain hx | ⟨q, hqp, hq⟩ := hhas hc
    · exact ⟨p, by simpa using hx⟩
    · exact ⟨q, by simpa [hqp] using hq⟩
  · by_cases hqp : q = p
    · by_cases hrp : r = p
      · rw [hqp, hrp]
      · subst hqp
        have hx : x.job = true := by simpa using hq
        simp [(hkeep r hrp (by simpa [hrp] using hr)).2] at hx
    by_cases hrp : r = p
    · subst hrp
      have hx : x.job = true := by simpa using hr
      simp [(hkeep q hqp (by simpa [hqp] using hq)).2] at hx
    · exact h.uniq q r (by simpa [hqp] using hq) (by simpa [hrp] using hr)
  · by_cases hqp : q = p
    · subst hqp
      exact hemptied (by simpa using hq)
    · exact hothers q hqp (by simpa [hqp] using hq)

lemma one_le_outstanding (hp : γ p = .op) : 1 ≤ l.outstanding := by
  rw [h.out]
  calc 1 = (γ p).inOp := by rw [hp]; rfl
    _ ≤ ∑ q, (γ q).inOp :=
      Finset.single_le_sum (f := fun q => (γ q).inOp) (fun q _ => Nat.zero_le _) (mem_univ p)

lemma not_committing (hout : 1 ≤ l.outstanding) : l.committing = false := by
  rw [Bool.eq_false_iff]
  intro hc
  have := h.quiet hc
  omega

lemma no_job (hc : l.committing = false) (q : Fin N) : (γ q).job ≠ true := fun hq => by
  rw [h.commit q hq] at hc
  cases hc

lemma busy_of_not_admits (ha : l.admits = false) : l.committing = true ∨ 1 ≤ l.outstanding := by
  by_contra hno
  rw [not_or, Bool.not_eq_true, not_le, Nat.lt_one_iff] at hno
  have hlh := h.empty hno.1 hno.2
  simp [Log.admits, hno.1, hno.2, hlh, MAXOPBLOCKS, LOGSIZE] at ha

lemma beginOp (hp : γ p = .out) (hc : l.committing = false) :
    AdmitInv { l with outstanding := l.outstanding + 1 } (OpPlace.upd η p .beginOp)
      (update γ p .op) := by
  refine h.change (by rw [hp]; rfl) (by rw [hp]; rfl) (fun hx => by cases hx)
    (fun q _ hq => absurd hq (h.no_job hc q)) (fun hc' => ?_) (fun hc' => ?_)
    (fun _ ho => by cases ho) (fun hx => by cases hx)
    (fun q _ hq => absurd (OpStage.job_of_emptied hq) (h.no_job hc q))
  all_goals
    rw [show l.committing = true from hc'] at hc
    cases hc

lemma logWrite (hp : γ p = .op) (lh : List ℕ) (n : ℕ) :
    AdmitInv { l with lh := lh } (OpPlace.upd η p (.logWrite n)) (update γ p .op) := by
  have hout := h.one_le_outstanding hp
  have hc := h.not_committing hout
  refine h.change (by rw [hp]; rfl) (by rw [hp]) (fun hx => by cases hx)
    (fun q _ hq => absurd hq (h.no_job hc q)) (fun hc' => ?_) h.quiet
    (fun _ ho => by simp only at ho; omega) (fun hx => by cases hx)
    (fun q _ hq => absurd (OpStage.job_of_emptied hq) (h.no_job hc q))
  rw [show l.committing = true from hc'] at hc
  cases hc

lemma endLast (hp : γ p = .op) (hlast : l.outstanding - 1 = 0) :
    AdmitInv { l with outstanding := l.outstanding - 1, committing := true }
      (OpPlace.upd η p .endOp) (update γ p .last) := by
  have hout := h.one_le_outstanding hp
  have hc := h.not_committing hout
  refine h.change (by rw [hp]; rfl) ?_ (fun _ => rfl)
    (fun q _ hq => absurd hq (h.no_job hc q)) (fun _ => .inl rfl) (fun _ => hlast)
    (fun hc' => by cases hc') (fun hx => by cases hx)
    (fun q _ hq => absurd (OpStage.job_of_emptied hq) (h.no_job hc q))
  simp only [hp, OpStage.inOp]
  omega

lemma endOther (hp : γ p = .op) (hlast : l.outstanding - 1 ≠ 0) :
    AdmitInv { l with outstanding := l.outstanding - 1 } (OpPlace.upd η p .endOp)
      (update γ p .due) := by
  have hout := h.one_le_outstanding hp
  have hc := h.not_committing hout
  refine h.change (by rw [hp]; rfl) ?_ (fun hx => by cases hx)
    (fun q _ hq => absurd hq (h.no_job hc q)) (fun hc' => ?_) (fun hc' => ?_)
    (fun _ ho => absurd ho hlast) (fun hx => by cases hx)
    (fun q _ hq => absurd (OpStage.job_of_emptied hq) (h.no_job hc q))
  · simp only [hp, OpStage.inOp]
    omega
  all_goals
    rw [show l.committing = true from hc'] at hc
    cases hc

lemma commitStep (hp : (γ p).job = true) {lh : List ℕ} {a : AdmitAct}
    {x : OpStage} (hplace : (γ p).place.next a = x.place) (hx : x.job = true)
    (hlh : x.emptied = true → lh = []) :
    AdmitInv { l with lh := lh } (OpPlace.upd η p a) (update γ p x) := by
  have hc := h.commit p hp
  have hone : ∀ q, q ≠ p → (γ q).job ≠ true := fun q hqp hq => hqp (h.uniq q p hq hp)
  have hin : ∀ y : OpStage, y.job = true → y.inOp = 0 := by
    intro y hy
    cases y <;> first | rfl | cases hy
  refine h.change hplace (by rw [hin _ hp, hin _ hx]) (fun _ => hc)
    (fun q hqp hq => absurd hq (hone q hqp)) (fun _ => .inl hx) h.quiet (fun hc' => ?_) hlh
    (fun q hqp hq => absurd (OpStage.job_of_emptied hq) (hone q hqp))
  rw [show l.committing = false from hc'] at hc
  cases hc

lemma endCommit (hp : γ p = .committed) :
    AdmitInv l.endCommit (OpPlace.upd η p .endCommit) (update γ p .ended) := by
  have hjob : (γ p).job = true := by rw [hp]; rfl
  have hone : ∀ q, q ≠ p → (γ q).job ≠ true := fun q hqp hq => hqp (h.uniq q p hq hjob)
  exact h.change (by rw [hp]; rfl) (by rw [hp]; rfl) (fun hx => by cases hx)
    (fun q hqp hq => absurd hq (hone q hqp)) (fun hc => by cases hc) (fun hc => by cases hc)
    (fun _ _ => h.emptied p (by rw [hp]; rfl)) (fun hx => by cases hx)
    (fun q hqp hq => absurd (OpStage.job_of_emptied hq) (hone q hqp))

lemma wakeup (hp : γ p = .due ∨ γ p = .ended) :
    AdmitInv l (OpPlace.upd η p .wakeup) (update γ p .out) := by
  refine h.change ?_ ?_ (fun hx => by cases hx) (fun q _ hq => ⟨h.commit q hq, rfl⟩) (fun hc => ?_)
    h.quiet h.empty (fun hx => by cases hx) (fun q _ hq => h.emptied q hq)
  · rcases hp with hp | hp <;> rw [hp] <;> rfl
  · rcases hp with hp | hp <;> rw [hp] <;> rfl
  · obtain ⟨q, hq⟩ := h.job hc
    refine .inr ⟨q, ?_, hq⟩
    rintro rfl
    rcases hp with hp | hp <;> rw [hp] at hq <;> cases hq

lemma test : AdmitInv l (OpPlace.upd η p .test) γ := by
  rw [show OpPlace.upd η p .test = η from update_eq_self p η]
  exact h

lemma exists_place (hbusy : l.committing = true ∨ 1 ≤ l.outstanding) : ∃ p, η p ≠ .out := by
  obtain ⟨p, hp⟩ : ∃ p, γ p ≠ .out := by
    rcases hbusy with hc | ho
    · obtain ⟨p, hp⟩ := h.job hc
      exact ⟨p, fun hpo => by rw [hpo] at hp; cases hp⟩
    rw [h.out] at ho
    obtain ⟨p, -, hp⟩ := Finset.exists_ne_zero_of_sum_ne_zero (by omega :
      ∑ q, (γ q).inOp ≠ 0)
    exact ⟨p, fun hpo => hp (by rw [hpo]; rfl)⟩
  refine ⟨p, fun hpo => hp ?_⟩
  rw [h.place p] at hpo
  revert hpo
  cases γ p <;> simp [OpStage.place]

end

end AdmitInv

/-- What a process owns between the sections of an operation, and at its ends. -/
def OpStage.free (x : OpStage) : MonGhost N Unit (ℕ × Bool × List ℕ) OpStage :=
  ⟨none, fun _ => ∅, .run, x⟩

variable {p : Fin N}

namespace AdmitProg

lemma safe_beginOpLoop (rounds : ℕ) (k : ℕ × Bool × List ℕ) :
    (monProtocol (admitSpec N)).Safe p (fun _ g => g = OpStage.op.free)
      (beginOpLoop p rounds) ⟨some k, fun _ => ∅, .run, .out⟩ := by
  induction rounds generalizing k with
  | zero => exact safe_halt
  | succ rounds ih =>
    refine Safe.bind (safe_locked (fun d η γ msg _ _ _ hf => by cases hf)
      fun d η γ b d' hinv hp _ hk hf => ?_)
    cases hf
    refine ⟨fun n hn => (by cases hn), .out, fun _ => ∅, ?_, fun q ch hw => ?_, ?_⟩
    · rw [← hp, update_eq_self]
      exact AdmitInv.test hinv
    · rw [← hk] at hw
      exact hw
    by_cases ha : d.admits = true
    · rw [if_pos ha]
      have hc : d.committing = false := by
        simp only [Log.admits, Bool.and_eq_true, Bool.not_eq_true'] at ha
        exact ha.1
      refine Safe.bind (safe_locked (fun d η γ msg _ _ _ hf => by cases hf)
        fun e η γ b e' hinv hp _ hk hf => ?_)
      cases hf
      have hce : e.committing = false := (congrArg (fun k => k.2.1) hk).trans hc
      refine ⟨fun n hn => (by cases hn), .op, fun _ => ∅, AdmitInv.beginOp hinv hp hce,
        fun q ch _ => .inl (.inr ?_), safe_release (fun _ => Set.empty_subset _) trivial rfl⟩
      exact Nat.le_add_left 1 e.outstanding
    · rw [if_neg ha]
      refine Safe.bind (safe_sleep (fun _ => Set.empty_subset _) ?_ rfl trivial ih)
      exact AdmitInv.busy_of_not_admits hinv (Bool.eq_false_iff.mpr ha)

lemma safe_beginOp (rounds : ℕ) :
    (monProtocol (admitSpec N)).Safe p (fun _ g => g = OpStage.op.free)
      (beginOp p rounds) OpStage.out.free :=
  Safe.bind (safe_acquire fun k => safe_beginOpLoop rounds k)

lemma safe_logWrites (ns : List ℕ) :
    (monProtocol (admitSpec N)).Safe p (fun _ g => g = OpStage.op.free)
      (logWrites p ns) OpStage.op.free := by
  induction ns with
  | nil => exact safe_ret rfl
  | cons n ns ih =>
    refine Safe.bind (safe_acquire fun k => Safe.bind (safe_locked
      (fun d η γ msg hinv hp _ hf => ?_) fun d η γ b d' hinv hp _ hk hf => ?_))
    all_goals
      have hout := AdmitInv.one_le_outstanding hinv hp
      simp only [Log.logWrite] at hf
      split at hf
    · cases hf
      rfl
    · rw [if_neg (by omega)] at hf
      split at hf <;> cases hf
    · cases hf
    · rw [if_neg (by omega)] at hf
      have hc := AdmitInv.not_committing hinv hout
      obtain ⟨lh, rfl⟩ : ∃ lh, d' = { d with lh := lh } := by
        split at hf
        · cases hf
          exact ⟨d.lh, rfl⟩
        · cases hf
          exact ⟨d.lh ++ [n], rfl⟩
      refine ⟨fun _ _ => ⟨hc, hout⟩, .op, fun _ => ∅, AdmitInv.logWrite hinv hp lh n,
        fun q ch _ => .inl (.inr hout), ?_⟩
      exact Safe.bind (safe_release (fun _ => Set.empty_subset _) trivial ih)

lemma safe_wakeupLog {k : ℕ × Bool × List ℕ} {owe : Unit → Set (Fin N)} {x : OpStage}
    (hx : x = .due ∨ x = .ended) :
    (monProtocol (admitSpec N)).Safe p (fun _ g => g = OpStage.out.free)
      (do wakeupLog p; Monitor.release) ⟨some k, owe, .run, x⟩ := by
  refine Safe.bind (Safe.bind (safe_wakeup fun owe' _ howe => safe_locked
    (fun d η γ msg _ _ _ hf => by cases hf) fun d η γ b d' hinv hp _ hk hf => ?_))
  cases hf
  refine ⟨fun n hn => (by cases hn), .out, owe', AdmitInv.wakeup hinv (hp ▸ hx), fun q ch hw => ?_,
    safe_release (fun _ => howe) trivial rfl⟩
  rw [← hk] at hw
  exact hw

lemma safe_commit :
    (monProtocol (admitSpec N)).Safe p (fun _ g => g = OpStage.committed.free) commit
      OpStage.last.free := by
  -- the step that ends the commit, from a stage in which the header is empty
  have hend : ∀ x : OpStage, x = .cleared →
      (monProtocol (admitSpec N)).Safe p (fun _ g => g = OpStage.committed.free)
        (Monitor.act .committed fun l => .done () l) (OpStage.free x) := by
    rintro x rfl
    refine safe_unlocked rfl (fun d η γ msg _ _ hf => by cases hf) fun d η γ b d' hinv hp hf => ?_
    cases hf
    have hp : γ p = .cleared := hp
    have hlh := AdmitInv.emptied hinv p (by rw [hp]; rfl)
    exact ⟨fun n hn => (by cases hn), rfl, .committed,
      AdmitInv.commitStep hinv (by rw [hp]; rfl) (by rw [hp]; rfl) rfl fun _ => hlh,
      fun _ => trivial, rfl⟩
  refine Safe.bind (safe_unlocked rfl (fun d η γ msg _ _ hf => by cases hf)
    fun d η γ b d' hinv hp hf => ?_)
  cases hf
  have hp : γ p = .last := hp
  by_cases hlen : 0 < d.lh.length
  · refine ⟨fun n hn => (by cases hn), rfl, .commit,
      AdmitInv.commitStep hinv (by rw [hp]; rfl) (by rw [hp]; rfl) rfl (fun hx => by cases hx),
      fun _ => trivial, ?_⟩
    rw [if_pos (by simpa using hlen)]
    refine Safe.bind (safe_unlocked rfl (fun d η γ msg _ _ hf => by cases hf)
      fun d η γ b d' hinv hp hf => ?_)
    cases hf
    have hp : γ p = .commit := hp
    have hc := AdmitInv.commit hinv p (by rw [hp]; rfl)
    refine ⟨fun n hn => (by cases hn), ?_, .cleared,
      AdmitInv.commitStep hinv (by rw [hp]; rfl) (by rw [hp]; rfl) rfl fun _ => rfl,
      fun _ => trivial, hend _ rfl⟩
    change Log.view _ = Log.view _
    simp [Log.view, hc]
  · have hlh : d.lh = [] := by simpa using hlen
    refine ⟨fun n hn => (by cases hn), rfl, .cleared,
      AdmitInv.commitStep hinv (by rw [hp]; rfl) (by rw [hp]; rfl) rfl fun _ => hlh,
      fun _ => trivial, ?_⟩
    rw [if_neg (by simpa using hlen)]
    exact hend _ rfl

lemma safe_endOp : (monProtocol (admitSpec N)).Safe p (fun _ g => g = OpStage.out.free) (endOp p)
      OpStage.op.free := by
  refine Safe.bind (safe_acquire fun k => Safe.bind (safe_locked
    (fun d η γ msg hinv hp _ hf => ?_) fun d η γ b d' hinv hp _ hk hf => ?_))
  all_goals
    have hout := AdmitInv.one_le_outstanding hinv hp
    rw [Log.endOp, if_neg (by simp [AdmitInv.not_committing hinv hout])] at hf
    split at hf
  · cases hf
  · cases hf
  · rename_i hlast
    cases hf
    refine ⟨fun n hn => (by cases hn), .last, fun _ => ∅, AdmitInv.endLast hinv hp hlast,
      fun q ch _ => .inl (.inl rfl), ?_⟩
    rw [if_pos rfl]
    refine Safe.bind (safe_release (fun _ => Set.empty_subset _) trivial
      (Safe.bind (safe_commit.mono ?_)))
    rintro - g rfl
    refine Safe.bind (safe_acquire fun k => Safe.bind (safe_locked
      (fun d η γ msg hinv hp _ hf => by cases hf) fun d η γ b d' hinv hp _ hk hf => ?_))
    cases hf
    exact ⟨fun n hn => (by cases hn), .ended, fun _ => Set.univ, AdmitInv.endCommit hinv hp,
      fun q ch _ => .inr (Set.mem_univ q), safe_wakeupLog (.inr rfl)⟩
  · rename_i hlast
    cases hf
    refine ⟨fun n hn => (by cases hn), .due, fun _ => ∅, AdmitInv.endOther hinv hp hlast,
      fun q ch _ => .inl (.inr ?_), ?_⟩
    · exact Nat.one_le_iff_ne_zero.mpr hlast
    · rw [if_neg Bool.false_ne_true]
      exact safe_wakeupLog (.inl rfl)

end AdmitProg

lemma admitMachine_verified : (monProtocol (admitSpec N)).Verified (admitMachine N) := by
  refine monProtocol_verified fun p x => ?_
  refine Safe.bind ((AdmitProg.safe_beginOp x.1).mono ?_)
  rintro - g rfl
  refine Safe.bind ((AdmitProg.safe_logWrites x.2).mono ?_)
  rintro - g rfl
  refine AdmitProg.safe_endOp.mono ?_
  rintro - g rfl
  exact ⟨rfl, rfl, rfl⟩

/-! ## Runs -/

def OpPlace.run (tr : List (Fin N × MonAct N AdmitAct Unit)) : Fin N → OpPlace :=
  tr.foldl (fun η e => (admitSpec N).hist η e.1 e.2) fun _ => .out

lemma OpPlace.foldl_ne_out (tr : List (Fin N × MonAct N AdmitAct Unit)) (η : Fin N → OpPlace)
    (hp : η p ≠ .out) (hw : (p, MonAct.act AdmitAct.wakeup) ∉ tr) :
    tr.foldl (fun η e => (admitSpec N).hist η e.1 e.2) η p ≠ .out := by
  induction tr generalizing η with
  | nil => exact hp
  | cons e tr ih =>
    obtain ⟨q, l⟩ := e
    rw [List.mem_cons, not_or] at hw
    refine ih _ ?_ hw.2
    cases l with
    | act a =>
      change OpPlace.upd η q a p ≠ .out
      by_cases hqp : q = p
      · subst hqp
        rw [OpPlace.upd, update_self]
        cases a with
        | wakeup => exact absurd rfl hw.1
        | test | logWrite | clear => exact hp
        | _ => simp [OpPlace.next]
      · rw [OpPlace.upd, update_of_ne (Ne.symm hqp)]
        exact hp
    | _ => exact hp

structure Admission (tr : List (Fin N × MonAct N AdmitAct Unit)) (s : Monitor N Log Unit) :
    Prop where
  empty : s.data.committing = false → s.data.outstanding = 0 → s.data.lh = []
  quiet : s.data.committing = true → s.data.outstanding = 0
  /-- While a process sleeps, somebody commits or an operation is outstanding, and another process
  has not yet come to its `wakeup`. -/
  waker : ∀ q, s.asleep q = some () → (s.data.committing = true ∨ 1 ≤ s.data.outstanding) ∧
    ∃ p, p ≠ q ∧ OpPlace.run tr p ≠ .out

/-- `begin_op` strands nobody.  In every run of operations by any number of processes: the only
panic is that of a full log, so that `log.committing` is unreachable; the state of the log while its
lock is free is as in `Admission`; at most one process is in `commit`; a `log_write` is made only
while nobody commits and an operation is outstanding; and a process in an operation has called
`wakeup(&log)` by the time it leaves it. -/
theorem begin_op_strands_nobody {size : ℕ} {tr : List (Fin N × MonAct N AdmitAct Unit)}
    {c : Config (Monitor N Log Unit) (MonAct N AdmitAct Unit) (Fin N)}
    (h : Exec (admitMachine N) anyAction (.idle (Log.started N size)) tr c) :
    (∀ msg, c.panicked = some msg → msg = "too big a transaction") ∧
      (c.st.lock = none → Admission tr c.st) ∧
      (∀ p q, OpPlace.run tr p = .commit → OpPlace.run tr q = .commit → p = q) ∧
      (∀ p n d, Step (admitMachine N) anyAction c [(p, .act (.logWrite n))] d →
        c.st.data.committing = false ∧ 1 ≤ c.st.data.outstanding) ∧
      ∀ p tr' d, OpPlace.run tr p ≠ .out → Exec (admitMachine N) anyAction c tr' d →
        d.run p = none → (p, .act .wakeup) ∈ tr' := by
  have hinit : AdmitInv (N := N) ⟨size, 0, false, []⟩ (fun _ => .out) fun _ => .out := by
    refine ⟨fun _ => rfl, ?_, fun _ hx => (by cases hx), fun hc => (by cases hc),
      fun _ _ hx => (by cases hx), fun _ => rfl, fun _ _ => rfl, fun _ hx => (by cases hx)⟩
    simp [OpStage.inOp]
  have hstart := Protocol.Holds.idle (P := monProtocol (admitSpec N)) (MonInv.init trivial hinit)
  have hholds := admitMachine_verified.exec hstart h
  obtain ⟨γ, hinv, -⟩ := hholds.ghost
  have hmon : MonInv (admitSpec N) c.st (OpPlace.run tr) γ := hinv
  have hadm : AdmitInv c.st.data (OpPlace.run tr) fun p => (γ p).own := hmon.client
  refine ⟨hholds.panicked, fun hlock => ⟨hadm.empty, hadm.quiet, fun q hq => ?_⟩,
    fun p q hp hq => ?_, fun p n d hs => (hholds.action hs).1 n rfl, fun p tr' d hp hex hd => ?_⟩
  · have hbusy := hmon.waits_of_free hlock hq
    obtain ⟨p, hp⟩ := hadm.exists_place hbusy
    refine ⟨hbusy, p, ?_, hp⟩
    rintro rfl
    have hown : (γ p).own = .out := hmon.sleeps_of_asleep hq
    exact hp (by rw [hadm.place p, hown]; rfl)
  · have hjob : ∀ r, OpPlace.run tr r = .commit → (γ r).own.job = true := by
      intro r hr
      rw [hadm.place r] at hr
      revert hr
      cases (γ r).own <;> simp [OpStage.place, OpStage.job]
    exact hadm.uniq p q (hjob p hp) (hjob q hq)
  · by_contra hw
    have hstay := OpPlace.foldl_ne_out tr' (OpPlace.run tr) hp hw
    obtain ⟨γ', hinv', hth⟩ := (admitMachine_verified.exec hholds hex).ghost
    have hidle := hth p
    rw [hd] at hidle
    have hown : (γ' p).own = .out := congrArg MonGhost.own hidle
    have hplace := AdmitInv.place (MonInv.client hinv') p
    rw [hown] at hplace
    exact hstay hplace

/-- A process is not admitted while three operations are outstanding; it sleeps. -/
theorem begin_op_strands_nobody_fourth : ∃ (tr : List (Fin 10 × MonAct 10 AdmitAct Unit))
      (c : Config (Monitor 10 Log Unit) (MonAct 10 AdmitAct Unit) (Fin 10)),
      (c.st.lock = none ∧ c.st.asleep 3 = some () ∧ c.st.data.outstanding = 3) ∧
      (∀ msg, c.panicked = some msg → msg = "too big a transaction") ∧
      (c.st.lock = none → Admission tr c.st) ∧
      (∀ p q, OpPlace.run tr p = .commit → OpPlace.run tr q = .commit → p = q) ∧
      (∀ p n d, Step (admitMachine 10) anyAction c [(p, .act (.logWrite n))] d →
        c.st.data.committing = false ∧ 1 ≤ c.st.data.outstanding) ∧
      ∀ p tr' d, OpPlace.run tr p ≠ .out → Exec (admitMachine 10) anyAction c tr' d →
        d.run p = none → (p, .act .wakeup) ∈ tr' := by
  have hplay : (Config.idle (Log.started 10 30)).playTest (admitMachine 10)
      (([0, 1, 2, 3] : List (Fin 10)).flatMap fun p =>
        .start p (((1, [5]) : ℕ × List ℕ)) :: List.replicate 4 (.go p 0))
      (fun _ c => decide (c.st.lock = none ∧ c.st.asleep 3 = some () ∧
        c.st.data.outstanding = 3)) = true := by
    decide +kernel
  obtain ⟨tr, c, hexec, htest⟩ := Config.exists_of_playTest hplay
  exact ⟨tr, c, of_decide_eq_true htest, begin_op_strands_nobody hexec⟩

end Xv6
