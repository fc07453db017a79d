import Xv6Kernel.Foundation.Ownership
import Xv6Kernel.Log.Journal
import Mathlib.Algebra.Order.BigOperators.Group.Finset

/-!
# The invariant of the buffer cache and the log

What every thread owns is a `LogGhost`: the buffers it uses, whether it is inside a transaction, and
the job of committing or recovering.
-/

namespace Xv6

open Finset

/-! ## Ghost values and histories -/

/-- Where a thread stands with a buffer it counts as a user of. -/
inductive UseState where
  | waiting
  /-- It holds the sleep lock but has not read the contents yet. -/
  | locked
  /-- It holds the sleep lock of a buffer with valid contents. -/
  | ready
  /-- It has given the sleep lock back but not the reference. -/
  | releasing
  deriving DecidableEq

/-- What a thread knows of a buffer that it uses. -/
structure Use where
  dev : ℕ
  blockno : ℕ
  st : UseState
  /-- Was the block changed without having been logged or written? -/
  dirty : Bool
  known : Option Block

/-- How far a commit, or the recovery, has come. -/
inductive Stage where
  | idle
  | logging (k : ℕ)
  /-- The header is on disk; `install_trans` has written `i` home blocks and unpinned `u`. -/
  | headed (i u : ℕ)
  | cleared
  | erased
  | boot
  | recovering (i : ℕ)
  | rcleared
  | rerased
  deriving DecidableEq

namespace Stage

def up : Stage → Bool
  | idle | logging _ | headed _ _ | cleared | erased => true
  | boot | recovering _ | rcleared | rerased => false

def next : Stage → LogAct → Stage
  | _, .commit => logging 0
  | logging k, .logSlot _ => logging (k + 1)
  | _, .writeHead true _ => headed 0 0
  | headed i u, .install _ => headed (i + 1) u
  | recovering i, .install _ => recovering (i + 1)
  | headed i u, .bunpin _ => headed i (u + 1)
  | recovering _, .clear => rcleared
  | _, .clear => cleared
  | rcleared, .writeHead false _ => rerased
  | _, .writeHead false _ => erased
  | _, .endCommit => idle
  | _, .readHead _ => recovering 0
  | _, .ready => idle
  | st, _ => st

/-- The blocks of the header that are pinned in the cache. -/
def pins : Stage → List ℕ → List ℕ
  | headed _ u, lh => lh.drop u
  | idle, lh | logging _, lh | cleared, lh | erased, lh => lh
  | boot, _ | recovering _, _ | rcleared, _ | rerased, _ => []

/-- The blocks of the in-memory header that the running `install_trans` has written home. -/
def written : Stage → List ℕ → List ℕ
  | headed i _, lh => lh.take i
  | _, _ => []

/-- The blocks of the in-memory header whose home blocks are not up to date. -/
def unsynced : Stage → List ℕ → List ℕ
  | headed i _, lh => lh.drop i
  | idle, lh | logging _, lh => lh
  | cleared, _ | erased, _ | boot, _ | recovering _, _ | rcleared, _ | rerased, _ => []

end Stage

/-- What a thread owns. -/
structure LogGhost where
  uses : Fin NBUF → Option Use
  op : Bool
  /-- The commit or recovery it runs: the stage and the in-memory header. -/
  job : Option (Stage × List ℕ)
  client : Bool

/-- The groups of transactions so far. -/
structure LogHist where
  stage : Stage
  cur : ℕ → Block
  /-- The contents at the end of each group of transactions, the latest first; the last entry is
  the state the run started from. -/
  groups : List (ℕ → Block)
  /-- The number of the latest group whose header was written to disk. -/
  durable : ℕ
  /-- The number of the latest group whose `commit` has returned. -/
  returned : ℕ

def LogHist.closed (η : LogHist) : ℕ := η.groups.length - 1

def LogHist.upd (g : LogGeom) (η : LogHist) (l : LogAct) : LogHist :=
  let η := { η with stage := η.stage.next l }
  match l with
  | .modify dev n _ d => if dev = g.dev then { η with cur := Function.update η.cur n d } else η
  | .commit => { η with groups := η.cur :: η.groups }
  | .writeHead true _ => { η with durable := η.closed }
  | .endCommit => { η with returned := η.closed }
  | _ => η

def LogHist.init (st : Stage) (S : ℕ → Block) : LogHist := ⟨st, S, [S], 0, 0⟩

section Parts

variable {ι : Type}

/-- A use agrees with the buffer. -/
structure Use.Ok (u : Use) (p : ι) (x : Buf ι) : Prop where
  dev : x.dev = u.dev
  dev_ne : u.dev ≠ 0
  blockno : x.blockno = u.blockno
  blockno_lt : u.blockno < 2 ^ 32
  lock : u.st = .locked ∨ u.st = .ready → x.lock = some p
  valid : u.st = .ready → x.valid = true
  known : ∀ d, u.known = some d → u.st = .ready ∧ x.data = d
  dirty : u.dirty = true → u.st = .ready

def Buf.pinned (g : LogGeom) (pins : List ℕ) (x : Buf ι) : Bool :=
  decide (x.dev = g.dev ∧ x.blockno ∈ pins)

def users [Fintype ι] (U : ι → Fin NBUF → Option Use) (b : Fin NBUF) : ℕ :=
  ∑ p, (U p b).isSome.toNat

/-- The cache: a ring of distinct buffers, counted by users and pins. -/
structure CacheInv [Fintype ι] (g : LogGeom) (buf : Fin NBUF → Buf ι)
    (links : Links (Option (Fin NBUF))) (pins : List ℕ) (U : ι → Fin NBUF → Option Use) :
    Prop where
  ring : ∃ l : List (Fin NBUF), links.Ring none (l.map some) ∧ ∀ b, b ∈ l
  uniq : ∀ b b', (buf b).dev ≠ 0 → (buf b').dev = (buf b).dev →
    (buf b').blockno = (buf b).blockno → b' = b
  use : ∀ p b u, U p b = some u → u.Ok p (buf b)
  lock : ∀ p b, (buf b).lock = some p → ∃ u, U p b = some u ∧ (u.st = .locked ∨ u.st = .ready)
  refcnt : ∀ b, (buf b).refcnt = users U b + ((buf b).pinned g pins).toNat
  pinned : ∀ n ∈ pins, ∃ b, (buf b).dev = g.dev ∧ (buf b).blockno = n ∧ (buf b).valid = true

/-- A header that fits: distinct blocks outside of the log area. -/
structure HeadOk (g : LogGeom) (lh : List ℕ) : Prop where
  nodup : lh.Nodup
  area : ∀ n ∈ lh, ¬ g.Area n
  lt : ∀ n ∈ lh, n < 2 ^ 32
  len_lt : lh.length < g.size
  len_le : lh.length ≤ LOGSIZE

/-- `struct log` against the operations and the one commit. -/
structure CtlInv [Fintype ι] (g : LogGeom) (log : Log) (up : Bool) (st : Stage) (O : ι → Bool)
    (J : ι → Option (Stage × List ℕ)) : Prop where
  size : log.size = g.size
  head : HeadOk g log.lh
  out : log.outstanding = ∑ p, (O p).toNat
  job : ∀ p x, J p = some x → st = x.1 ∧ log.lh = x.2 ∧ O p = false
  uniq : ∀ p q, J p ≠ none → J q ≠ none → p = q
  noJob : (∀ p, J p = none) → st = if up then .idle else .boot
  committing : up = true → (log.committing = true ↔ ∃ p, J p ≠ none)
  commitOut : log.committing = true → log.outstanding = 0
  down : up = false → log.committing = false ∧ log.outstanding = 0
  stageUp : st.up = up
  quiet : up = true → log.outstanding = 0 → log.committing = false → log.lh = []
  clear : st = .cleared ∨ st = .erased ∨ st = .boot ∨ st = .rcleared ∨ st = .rerased → log.lh = []

/-- Who may use and change which blocks. -/
structure UseInv (g : LogGeom) (st : Stage) (U : ι → Fin NBUF → Option Use) (O : ι → Bool)
    (J : ι → Option (Stage × List ℕ)) : Prop where
  area : ∀ p b u, U p b = some u → g.Area u.blockno → J p ≠ none ∧ u.dev = g.dev
  dirtyDev : ∀ p b u, U p b = some u → u.dirty = true → u.dev = g.dev
  dirtyHome : ∀ p b u, U p b = some u → u.dirty = true → ¬ g.Area u.blockno →
    O p = true ∨ (J p ≠ none ∧ st.up = false)

/-- No thread has changed the buffer without logging or writing it. -/
def Undirty (U : ι → Fin NBUF → Option Use) (b : Fin NBUF) : Prop :=
  ∀ p u, U p b = some u → u.dirty = false

/-- What the log blocks hold at a stage. -/
structure SlotStage (g : LogGeom) (disk : ℕ → Block) (buf : Fin NBUF → Buf ι) (lh : List ℕ)
    (st : Stage) : Prop where
  boot : st = .boot → HeadOk g (Log.decode (disk g.start))
  logging : ∀ k, st = .logging k → k ≤ lh.length ∧
    ∀ j n, j < k → lh[j]? = some n → ∀ b, (buf b).dev = g.dev → (buf b).blockno = n →
      (buf b).data = disk (g.start + j + 1)
  headed : ∀ i u, st = .headed i u → u ≤ i ∧ i ≤ u + 1 ∧ i ≤ lh.length ∧
    ∀ j n, u ≤ j → lh[j]? = some n → ∀ b, (buf b).dev = g.dev → (buf b).blockno = n →
      (buf b).data = disk (g.start + j + 1)
  recovering : ∀ i, st = .recovering i → i ≤ lh.length

structure SlotInv (g : LogGeom) (disk : ℕ → Block) (buf : Fin NBUF → Buf ι) (lh : List ℕ)
    (st : Stage) (U : ι → Fin NBUF → Option Use) : Prop extends SlotStage g disk buf lh st where
  clean : ∀ b, (buf b).valid = true → (buf b).dev = g.dev → g.Area (buf b).blockno →
    Undirty U b → (buf b).data = disk (buf b).blockno

/-- On the disk `d` the header is `L`, the log blocks hold the contents `S` of the blocks of `L`,
and outside of the log area every block but those of `L` from the index `i` on has its contents in
`S`. -/
structure DiskAt (g : LogGeom) (d S : ℕ → Block) (L : List ℕ) (i : ℕ) : Prop where
  head : Log.decode (d g.start) = L
  ok : HeadOk g L
  slot : ∀ j n, L[j]? = some n → d (g.start + j + 1) = S n
  home : ∀ n, ¬ g.Area n → n ∉ L.drop i → d n = S n

/-- A recovery of the disk `d` yields `S`. -/
def Recoverable (g : LogGeom) (d S : ℕ → Block) : Prop := ∃ L, DiskAt g d S L 0

/-- The disk at each stage: a recovery yields the last group or the one before. -/
def StageInv (g : LogGeom) (disk : ℕ → Block) (lh : List ℕ) (η : LogHist) (dirty : ℕ → Prop) :
    Prop :=
  match η.stage with
  | .idle => ∃ S gs, η.groups = S :: gs ∧ DiskAt g disk S [] 0 ∧ η.durable ≤ gs.length ∧
      η.returned ≤ gs.length ∧ ∀ n, ¬ g.Area n → n ∉ lh → ¬ dirty n → η.cur n = S n
  | .logging k => ∃ S gs, η.groups = η.cur :: S :: gs ∧ DiskAt g disk S [] 0 ∧
      η.durable ≤ gs.length ∧ η.returned ≤ gs.length ∧
      (∀ n, ¬ g.Area n → n ∉ lh → η.cur n = S n) ∧
      ∀ j n, j < k → lh[j]? = some n → disk (g.start + j + 1) = η.cur n
  | .headed i _ => ∃ gs, η.groups = η.cur :: gs ∧ DiskAt g disk η.cur lh i ∧
      η.durable ≤ gs.length ∧ η.returned ≤ gs.length
  | .cleared => ∃ gs L, η.groups = η.cur :: gs ∧ DiskAt g disk η.cur L L.length ∧
      η.durable ≤ gs.length ∧ η.returned ≤ gs.length
  | .erased => ∃ gs, η.groups = η.cur :: gs ∧ DiskAt g disk η.cur [] 0 ∧
      η.durable ≤ gs.length ∧ η.returned ≤ gs.length
  | .boot => η.groups = [η.cur] ∧ Recoverable g disk η.cur ∧ η.durable = 0 ∧ η.returned = 0
  | .recovering i => η.groups = [η.cur] ∧ DiskAt g disk η.cur lh i ∧ η.durable = 0 ∧
      η.returned = 0
  | .rcleared => η.groups = [η.cur] ∧ (∃ L, DiskAt g disk η.cur L L.length) ∧ η.durable = 0 ∧
      η.returned = 0
  | .rerased => η.groups = [η.cur] ∧ DiskAt g disk η.cur [] 0 ∧ η.durable = 0 ∧ η.returned = 0

/-- Some thread has changed the block `n` of the log's device without logging it. -/
def DirtyBlock (g : LogGeom) (U : ι → Fin NBUF → Option Use) (n : ℕ) : Prop :=
  ∃ p b u, U p b = some u ∧ u.dirty = true ∧ u.dev = g.dev ∧ u.blockno = n

/-- The cache and the disk against the contents that the clients see. -/
structure CrashInv (g : LogGeom) (disk : ℕ → Block) (buf : Fin NBUF → Buf ι) (lh : List ℕ)
    (η : LogHist) (U : ι → Fin NBUF → Option Use) : Prop where
  dev : ∀ p b u, U p b = some u → u.dev = g.dev
  /-- Cached home blocks agree with the disk unless they are changed or logged. -/
  clean : ∀ b, (buf b).valid = true → (buf b).dev = g.dev → ¬ g.Area (buf b).blockno →
    Undirty U b → (buf b).blockno ∉ η.stage.unsynced lh → (buf b).data = disk (buf b).blockno
  cached : η.stage.up = true → ∀ b, (buf b).valid = true → (buf b).dev = g.dev →
    ¬ g.Area (buf b).blockno → (buf b).data = η.cur (buf b).blockno
  uncached : η.stage.up = true → ∀ n, ¬ g.Area n →
    (∀ b, (buf b).dev = g.dev → (buf b).blockno = n → (buf b).valid = false) → disk n = η.cur n
  stage : StageInv g disk lh η (DirtyBlock g U)

end Parts

/-! ## The invariant -/

section Invariant

variable {ι : Type} [Fintype ι]

/-- The invariant of the log and the cache. -/
structure LogInv (g : LogGeom) (p₀ : ι) (strict : Prop) (s : LogSys ι) (η : LogHist)
    (γ : ι → LogGhost) : Prop where
  cache : CacheInv g s.buf s.links (η.stage.pins s.log.lh) fun p => (γ p).uses
  ctl : CtlInv g s.log s.up η.stage (fun p => (γ p).op) fun p => (γ p).job
  uses : UseInv g η.stage (fun p => (γ p).uses) (fun p => (γ p).op) fun p => (γ p).job
  slot : SlotInv g s.disk s.buf s.log.lh η.stage fun p => (γ p).uses
  client : ∀ p, (γ p).client = true → s.up = true
  first : s.up = false → ∀ p, (γ p).job ≠ none → p = p₀
  crash : strict → CrashInv g s.disk s.buf s.log.lh η fun p => (γ p).uses

/-- A thread is at rest with its buffers: it neither waits for one nor is about to drop one. -/
def LogGhost.Steady (x : LogGhost) : Prop :=
  ∀ b u, x.uses b = some u → u.st = .locked ∨ u.st = .ready

/-- What the label of its next action says about the thread that performs it. -/
def LogAct.jobView (g : LogGeom) : LogAct → LogGhost → Prop
  | .install b, x => ∃ i lh n u, lh[i]? = some n ∧ x.uses b = some u ∧ u.dev = g.dev ∧
      u.blockno = n ∧ (x.job = some (.headed i i, lh) ∨ x.job = some (.recovering i, lh))
  | .bunpin b, x => ∃ i lh n u, lh[i]? = some n ∧ x.uses b = some u ∧ u.dev = g.dev ∧
      u.blockno = n ∧ x.job = some (.headed (i + 1) i, lh)
  | .clear, x => ∃ lh, x.job = some (.headed lh.length lh.length, lh) ∨
      x.job = some (.recovering lh.length, lh)
  | .ready, x => x.job = some (.rerased, [])
  | .acquiresleep b, x | .unref b, x => x.uses b ≠ none
  | _, _ => True

/-- What the label of its next action says about what a thread owns. -/
structure LogAct.View (g : LogGeom) (l : LogAct) (x : LogGhost) : Prop where
  use : ∀ b u, x.uses b = some u →
    (u.st = .waiting ↔ l = .acquiresleep b) ∧ (u.st = .releasing ↔ l = .unref b)
  job : l.jobView g x

/-- The contents of the buffer `b` after an action of the file system. -/
def LogAct.stored (b : Fin NBUF) : LogAct → Block → Block
  | .modify _ _ c d, old => if c = b then d else old
  | _, old => old

/-- An action drops a pin only in `bunpin`, and writes a block home only in `install`. -/
structure PinGuar (s : LogSys ι) (st : Stage) (l : LogAct) (s' : LogSys ι) : Prop where
  keep : ∀ n ∈ st.pins s.log.lh, (∀ b, l = .bunpin b → (s.buf b).blockno ≠ n) →
    n ∈ (st.next l).pins s'.log.lh
  home : ∀ n ∈ st.pins s.log.lh, (n ∈ (st.next l).written s'.log.lh ↔
    n ∈ st.written s.log.lh ∨ ∃ b, l = .install b ∧ (s.buf b).blockno = n)
  unpin : ∀ b, l = .bunpin b → (s.buf b).blockno ∉ (st.next l).pins s'.log.lh

structure BufGuar (g : LogGeom) (s : LogSys ι) (η : LogHist) (l : LogAct) (s' : LogSys ι) :
    Prop where
  identity : ∀ b, 0 < (s.buf b).refcnt →
    (s'.buf b).dev = (s.buf b).dev ∧ (s'.buf b).blockno = (s.buf b).blockno
  /-- The contents of a pinned buffer are changed by file-system calls only. -/
  data : ∀ b, (s.buf b).pinned g (η.stage.pins s.log.lh) = true →
    (s'.buf b).data = l.stored b (s.buf b).data
  pins : PinGuar s η.stage l s'
  logged : ∀ b, l = .logWrite b → (s'.buf b).pinned g ((η.stage.next l).pins s'.log.lh) = true ∧
    (s'.buf b).blockno ∉ (η.stage.next l).written s'.log.lh
  /-- `install_trans` writes the contents of the buffer to the home block. -/
  install : ∀ b, l = .install b → s'.disk (s.buf b).blockno = (s.buf b).data

/-- The protocol of the buffer cache and the log. -/
def logProtocol (g : LogGeom) (p₀ : ι) (strict : Prop) :
    Protocol (LogSys ι) LogAct ι LogGhost LogHist where
  inv := LogInv g p₀ strict
  upd η _ l := η.upd g l
  ok _ _ l := strict → ∀ dev n, l = .bget dev n → dev = g.dev
  guar s η _ l s' := BufGuar g s η l s'
  view := LogAct.View g
  rest := LogGhost.Steady
  tol msg := msg = "bget: no buffers" ∨ msg = "too big a transaction"
  idle := ⟨fun _ => none, false, none, false⟩
  fin x := x.uses = (fun _ => none) ∧ x.op = false ∧ x.job = none

end Invariant

end Xv6
