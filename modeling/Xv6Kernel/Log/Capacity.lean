import Xv6Kernel.Log.Cache

/-!
# The capacity of the buffer cache

`bget` panics when the block is not cached and all `NBUF` buffers are referenced.  Nothing bounds
the number of processes that read blocks at a time: each of them holds a buffer, and `NBUF` is
smaller than the number of processes, so that enough readers exhaust the cache.
-/

namespace Xv6

open Finset Protocol

variable {ι : Type} [DecidableEq ι]
variable {l : LogAct}

def Roomy (s : LogSys ι) (_ : ι) (l : LogAct) : Prop :=
  ∀ dev n, l = .bget dev n → ∑ b, (s.buf b).refcnt < NBUF

def bgetProtocol (ι : Type) : Protocol (LogSys ι) LogAct ι Unit Unit where
  inv _ _ _ := True
  upd _ _ _ := ()
  ok s _ l := ∀ dev n, l = .bget dev n → s.bget dev n ≠ .panic "bget: no buffers"
  guar _ _ _ _ _ := True
  view _ _ := True
  rest _ := True
  tol msg := msg ≠ "bget: no buffers"
  idle := ()
  fin _ := True

def OnlyBget {α : Type} (p : ι) (m : LogProg ι α) : Prop :=
  (bgetProtocol ι).Safe p (fun _ _ => True) m ()

namespace OnlyBget

variable {p : ι} {α β : Type}

lemma bind {m : LogProg ι α} {k : α → LogProg ι β} (hm : OnlyBget p m)
    (hk : ∀ a, OnlyBget p (k a)) : OnlyBget p (m >>= k) :=
  Safe.seq hm fun a _ _ => hk a

lemma ret (a : α) : OnlyBget p (Pure.pure a : LogProg ι α) := safe_ret trivial

lemma atomic {f : LogSys ι → Outcome (LogSys ι) β}
    (h : ∀ s msg, f s = .panic msg → msg ≠ "bget: no buffers") : OnlyBget p (.atomic l f) :=
  safe_atomic trivial (fun s _ _ msg _ _ _ hf => h s msg hf) fun _ _ _ _ _ _ _ _ _ =>
    ⟨trivial, (), trivial, trivial⟩

lemma total {f : LogSys ι → β × LogSys ι} :
    OnlyBget p (.atomic l fun s => .done (f s).1 (f s).2) :=
  atomic fun _ _ hf => by cases hf

lemma bread (dev n : ℕ) : OnlyBget p (Xv6.bread p dev n) := by
  refine bind (bind ?_ fun b => bind (atomic fun s msg hf => ?_) fun _ => ret b) fun b =>
    bind (total (f := fun s => ((), s.diskRead b))) fun _ => ret b
  · refine safe_atomic trivial (fun s _ _ msg _ _ hok hf hmsg => ?_) fun _ _ _ _ _ _ _ _ _ =>
      ⟨trivial, (), trivial, trivial⟩
    exact hok dev n rfl (hmsg ▸ hf)
  · rw [LogSys.acquiresleep] at hf
    split at hf <;> cases hf

lemma bwrite (l : LogAct) (b : Fin NBUF) : OnlyBget p (Xv6.bwrite p l b) := by
  refine atomic fun s msg hf => ?_
  rw [LogSys.bwrite] at hf
  split at hf <;> cases hf
  decide

lemma brelse (b : Fin NBUF) : OnlyBget p (Xv6.brelse p b) := by
  refine bind (atomic fun s msg hf => ?_) fun _ => total (f := fun s => ((), s.unref b))
  rw [LogSys.releasesleep] at hf
  split at hf <;> cases hf
  decide

lemma logWrite (b : Fin NBUF) : OnlyBget p (Xv6.logWrite b : LogProg ι Unit) := by
  refine atomic fun s msg hf => ?_
  rw [LogSys.logWrite, Log.logWrite] at hf
  split at hf
  · cases hf
  · rename_i msg' hlog
    cases hf
    split at hlog
    · cases hlog
      decide
    split at hlog
    · cases hlog
      decide
    · split at hlog <;> cases hlog
  · cases hf

lemma onLog {f : Log → Outcome Log β} (h : ∀ s msg, f s = .panic msg → msg ≠ "bget: no buffers") :
    OnlyBget p (.atomic l (LogSys.onLog f) : LogProg ι β) := by
  refine atomic fun s msg hf => ?_
  rw [LogSys.onLog] at hf
  split at hf
  · cases hf
  · rename_i hlog
    cases hf
    exact h _ _ hlog
  · cases hf

lemma writeLogFrom (g : LogGeom) (n tail : ℕ) : OnlyBget p (Xv6.writeLogFrom p g n tail) := by
  induction n generalizing tail with
  | zero => exact ret ()
  | succ n ih =>
    refine bind (total (f := fun s => (s.log.lh[tail]?, s))) fun x => ?_
    cases x with
    | none => exact ret ()
    | some blockno =>
      exact bind (bread _ _) fun t => bind (bread _ _) fun f =>
        bind (total (f := fun s => ((), s.setData t (s.buf f).data))) fun _ =>
        bind (bwrite _ _) fun _ => bind (brelse _) fun _ => bind (brelse _) fun _ => ih _

lemma installTransFrom (g : LogGeom) (recovering : Bool) (n tail : ℕ) :
    OnlyBget p (Xv6.installTransFrom p g recovering n tail) := by
  induction n generalizing tail with
  | zero => exact ret ()
  | succ n ih =>
    refine bind (total (f := fun s => (s.log.lh[tail]?, s))) fun x => ?_
    rcases x with _ | blockno
    · exact ret ()
    refine bind (bread _ _) fun t => bind (bread _ _) fun f =>
      bind (total (f := fun s => ((), s.setData f (s.buf t).data))) fun _ =>
      bind (bwrite _ _) fun _ => ?_
    have hrest : OnlyBget p (do
        Xv6.brelse p t
        Xv6.brelse p f
        Xv6.installTransFrom p g recovering n (tail + 1)) :=
      bind (brelse _) fun _ => bind (brelse _) fun _ => ih _
    cases recovering
    · exact bind (total (f := fun s => ((), s.bunpin f))) fun _ => hrest
    · exact hrest

lemma writeHead (g : LogGeom) (first : Bool) : OnlyBget p (Xv6.writeHead p g first) :=
  bind (bread _ _) fun b =>
    bind (total (f := fun s => ((), s.setData b (Log.encode s.log.lh (s.buf b).data)))) fun _ =>
    bind (bwrite _ _) fun _ => brelse _

lemma clearHead : OnlyBget p (Xv6.clearHead : LogProg ι Unit) :=
  total (f := fun s => ((), { s with log := { s.log with lh := [] } }))

lemma initlog (g : LogGeom) : OnlyBget p (Xv6.initlog p g) := by
  refine bind (bind (bind (bread _ _) fun b => bind (total (f := fun s =>
    ((), { s with log := { s.log with lh := Log.decode (s.buf b).data } }))) fun _ => brelse _)
    fun _ => ?_) fun _ => total (f := fun s => ((), { s with up := true }))
  exact bind (installTransFrom g true _ _) fun _ => bind clearHead fun _ => writeHead g false

lemma commit (g : LogGeom) : OnlyBget p (Xv6.commit p g) := by
  refine bind (total (f := fun s => (!s.log.lh.isEmpty, s))) fun b => ?_
  cases b
  · exact ret ()
  · exact bind (writeLogFrom g _ _) fun _ => bind (writeHead g true) fun _ =>
      bind (installTransFrom g false _ _) fun _ => bind clearHead fun _ => writeHead g false

lemma endOp (g : LogGeom) : OnlyBget p (Xv6.endOp p g) := by
  refine bind (onLog fun s msg hf => ?_) fun b => ?_
  · rw [Log.endOp] at hf
    split at hf
    · cases hf
      decide
    · split at hf <;> cases hf
  · cases b
    · exact ret ()
    · exact bind (commit g) fun _ =>
        total (f := fun s => ((), { s with log := s.log.endCommit }))

lemma runCmds (cs : List Cmd) (env : Held) : OnlyBget p (Xv6.runCmds p cs env) := by
  induction cs generalizing env with
  | nil => exact ret ()
  | cons c cs ih =>
    cases c with
    | bread dev n => exact bind (bread _ _) fun _ => ih _
    | modify dev n d =>
      rw [Xv6.runCmds]
      cases env.lookup (dev, n) with
      | none => exact ret ()
      | some b => exact bind (total (f := fun s => ((), s.setData b d))) fun _ => ih _
    | logWrite dev n =>
      rw [Xv6.runCmds]
      cases env.lookup (dev, n) with
      | none => exact ret ()
      | some b => exact bind (logWrite b) fun _ => ih _
    | bwrite dev n =>
      rw [Xv6.runCmds]
      cases env.lookup (dev, n) with
      | none => exact ret ()
      | some b => exact bind (bwrite _ b) fun _ => ih _
    | brelse dev n =>
      rw [Xv6.runCmds]
      cases env.lookup (dev, n) with
      | none => exact ret ()
      | some b => exact bind (brelse b) fun _ => ih _

end OnlyBget

lemma bgetProtocol_verified (g : LogGeom) (p₀ : ι) :
    (bgetProtocol ι).Verified (logMachine g p₀) where
  start s η γ p x _ _ _ := by
    refine ⟨(), trivial, ?_⟩
    cases x with
    | initlog => exact OnlyBget.initlog g
    | access cs => exact OnlyBget.runCmds cs []
    | transaction cs =>
      refine OnlyBget.bind (OnlyBget.onLog fun s msg hf => ?_) fun _ =>
        OnlyBget.bind (OnlyBget.runCmds cs []) fun _ => OnlyBget.endOp g
      rw [Log.beginOp] at hf
      split at hf <;> cases hf
  finish _ _ _ _ _ _ := trivial

/-! ## Runs -/

variable [Fintype ι] {g : LogGeom} {p₀ : ι} {c : Config (LogSys ι) LogAct ι}
  {tr : List (ι × LogAct)}

lemma CacheConsistent.bget_ne_panic (h : CacheConsistent g tr c)
    (hroom : ∑ b, (c.st.buf b).refcnt < NBUF) (dev n : ℕ) :
    c.st.bget dev n ≠ .panic "bget: no buffers" := by
  obtain ⟨b, hb⟩ : ∃ b, (c.st.buf b).refcnt = 0 := by
    by_contra hno
    have hone : ∀ b ∈ (univ : Finset (Fin NBUF)), 1 ≤ (c.st.buf b).refcnt := fun b _ =>
      Nat.one_le_iff_ne_zero.mpr fun hb => hno ⟨b, hb⟩
    have hcard := card_nsmul_le_sum univ (fun b => (c.st.buf b).refcnt) 1 hone
    rw [card_univ, Fintype.card_fin, smul_eq_mul, Nat.mul_one] at hcard
    omega
  obtain ⟨l, -, hall, -, hback⟩ := h.lists
  intro hpanic
  rw [LogSys.bget] at hpanic
  split at hpanic
  · cases hpanic
  split at hpanic
  · cases hpanic
  · rename_i hnone
    rw [hback, List.find?_eq_none] at hnone
    exact hnone b (List.mem_reverse.mpr (hall b)) (by simpa using hb)

lemma CacheConsistent.sum_refcnt (h : CacheConsistent g tr c) :
    ∑ b, (c.st.buf b).refcnt = ∑ b, #{p | c.Refers b p} + #{b | c.Pinned g tr b} := by
  have hpin : ∑ b, (decide (c.Pinned g tr b)).toNat = #{b | c.Pinned g tr b} := by
    rw [card_filter]
    refine sum_congr rfl fun b _ => ?_
    by_cases hb : c.Pinned g tr b
    · rw [decide_eq_true hb, if_pos hb]
      rfl
    · rw [decide_eq_false hb, if_neg hb]
      rfl
  rw [← hpin, ← sum_add_distrib]
  exact sum_congr rfl fun b _ => h.refcnt b

/-- The capacity of the buffer cache.  In every run from boot in which there are fewer references
than buffers at every `bget`, `bget` does not panic.  The references are those that processes hold,
or wait with, and those of the log to the pinned blocks. -/
theorem bget_finds_buffer {disk : ℕ → Block} (hhead : HeadOk g (Log.decode (disk g.start)))
    (h : Exec (logMachine g p₀) Roomy (.idle (LogSys.boot g disk)) tr c) :
    c.panicked ≠ some "bget: no buffers" ∧
      ∑ b, (c.st.buf b).refcnt = ∑ b, #{p | c.Refers b p} + #{b | c.Pinned g tr b} := by
  have hcons : ∀ {tr d}, Exec (logMachine g p₀) Roomy (.idle (LogSys.boot g disk)) tr d →
      CacheConsistent g tr d := by
    intro tr d hex
    obtain ⟨η, hst, ⟨γ, hinv, hth⟩, -⟩ :=
      holds_of_boot hhead (hex.strengthen fun _ _ _ _ _ _ => trivial)
    exact .of_inv hinv hth hst
  have hex : Exec (logMachine g p₀) (bgetProtocol ι).ok (.idle (LogSys.boot g disk)) tr c :=
    h.strengthen fun tr d p l hex hok dev n hl => (hcons hex).bget_ne_panic (hok dev n hl) dev n
  refine ⟨fun hpanic => ?_, (hcons h).sum_refcnt⟩
  have hholds := (bgetProtocol_verified g p₀).exec
    (Protocol.Holds.idle (P := bgetProtocol ι) (η := ()) trivial) hex
  exact hholds.panicked _ hpanic rfl

/-- A transaction of one process, up to the point where its block is pinned. -/
theorem bget_finds_buffer_pinned :
    ∃ (tr : List (Fin 1 × LogAct)) (c : Config (LogSys (Fin 1)) LogAct (Fin 1)),
      (∃ b, c.Pinned smallGeom tr b) ∧ c.panicked ≠ some "bget: no buffers" ∧
      ∑ b, (c.st.buf b).refcnt = ∑ b, #{p | c.Refers b p} + #{b | c.Pinned smallGeom tr b} := by
  have hplay : (bootOn fun _ => Bytes.zero _).playOkTest (logMachine smallGeom proc)
      (fun s _ _ => decide (∑ b, (s.buf b).refcnt < NBUF)) (changeBlock 6)
      (fun tr c => decide (∃ b, c.Pinned smallGeom tr b)) = true := by
    decide +kernel
  have hok : ∀ (s : LogSys (Fin 1)) (p : Fin 1) (l : LogAct),
      decide (∑ b, (s.buf b).refcnt < NBUF) = true → Roomy s p l :=
    fun s p l h _ _ _ => of_decide_eq_true h
  obtain ⟨tr, c, hexec, htest⟩ := Config.exists_of_playOkTest hok hplay
  exact ⟨tr, c, of_decide_eq_true htest, bget_finds_buffer headOk_zero hexec⟩

/-- After the recovery, every process begins to read a block of its own outside of any
transaction. -/
def readers : List (Move (Fin 31) LogCall) :=
  .start 0 .initlog :: List.replicate 17 (.go 0 0) ++
    (List.finRange 31).flatMap fun p =>
      [.start p (.access [.bread 1 (100 + p.val), .brelse 1 (100 + p.val)]), .go p 0]

/-- Thirty-one processes that read one block each exhaust the buffer cache. -/
theorem bget_no_buffers_readers :
    ∃ (tr : List (Fin 31 × LogAct)) (c : Config (LogSys (Fin 31)) LogAct (Fin 31)),
      Exec (logMachine smallGeom 0) anyAction (.idle (LogSys.boot smallGeom fun _ => Bytes.zero _))
        tr c ∧ c.panicked = some "bget: no buffers" := by
  have hplay : (Config.idle (LogSys.boot smallGeom fun _ => Bytes.zero _)).playTest
      (logMachine smallGeom (0 : Fin 31)) readers
      (fun _ c => decide (c.panicked = some "bget: no buffers")) = true := by
    decide +kernel
  obtain ⟨tr, c, hexec, htest⟩ := Config.exists_of_playTest hplay
  exact ⟨tr, c, hexec, of_decide_eq_true htest⟩

end Xv6
