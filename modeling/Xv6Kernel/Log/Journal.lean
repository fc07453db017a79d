import Xv6Kernel.Log.BufferCache

/-!
# The log

The functions of `kernel/log.c` as programs, and the machine whose threads run them.  The in-memory
header is the list of the block numbers it holds; `Log.encode` and `Log.decode` lay it out in a
block as `struct logheader`.

The calls of the machine are `initlog`, made once by the first process, then transactions (a list of
buffer commands between `begin_op` and `end_op`) and accesses outside of any transaction.
-/

namespace Xv6

/-- Where the log lies on disk; these are the arguments of `initlog`. -/
structure LogGeom where
  dev : ℕ
  start : ℕ
  size : ℕ
  /-- Device numbers start at one: zero marks the unused buffers. -/
  dev_ne : dev ≠ 0
  bound : start + size ≤ 2 ^ 32

namespace LogGeom

def Area (g : LogGeom) (b : ℕ) : Prop := g.start ≤ b ∧ b < g.start + g.size

instance (g : LogGeom) (b : ℕ) : Decidable (g.Area b) := inferInstanceAs (Decidable (_ ∧ _))

end LogGeom

namespace Log

/-- Store the block numbers of the list in the header array from the index `i` on. -/
def encodeFrom : ℕ → List ℕ → Block → Block
  | _, [], d => d
  | i, b :: l, d => encodeFrom (i + 1) l (d.setLE 4 (4 + 4 * i) b)

/-- The assignments of `write_head` to the header block. -/
def encode (lh : List ℕ) (d : Block) : Block :=
  encodeFrom 0 lh (d.setLE 4 0 lh.length)

/-- The assignments of `read_head` from the header block. -/
def decode (d : Block) : List ℕ :=
  (List.range (d.getLE 4 0)).map fun i => d.getLE 4 (4 + 4 * i)

def admits (l : Log) : Bool :=
  !l.committing && decide (l.lh.length + (l.outstanding + 1) * MAXOPBLOCKS ≤ LOGSIZE)

/-- The section of `begin_op` that admits the operation; until then the caller sleeps. -/
def beginOp (l : Log) : Outcome Log Unit :=
  if l.admits then .done () { l with outstanding := l.outstanding + 1 } else .blocked

/-- The first section of `end_op`; the result tells whether to commit. -/
def endOp (l : Log) : Outcome Log Bool :=
  if l.committing then .panic "log.committing"
  else if l.outstanding - 1 = 0 then
    .done true { l with outstanding := l.outstanding - 1, committing := true }
  else .done false { l with outstanding := l.outstanding - 1 }

/-- The second section of `end_op`. -/
def endCommit (l : Log) : Log := { l with committing := false }

/-- `log_write` on the block number `b`; the result tells whether the block is new to the log and
has to be pinned. -/
def logWrite (l : Log) (b : ℕ) : Outcome Log Bool :=
  if LOGSIZE ≤ l.lh.length ∨ l.size - 1 ≤ l.lh.length then .panic "too big a transaction"
  else if l.outstanding < 1 then .panic "log_write outside of trans"
  else if b ∈ l.lh then .done false l
  else .done true { l with lh := l.lh ++ [b] }

end Log

def LogSys.onLog {ι α : Type} (f : Log → Outcome Log α) (s : LogSys ι) : Outcome (LogSys ι) α :=
  match f s.log with
  | .blocked => .blocked
  | .panic msg => .panic msg
  | .done a l => .done a { s with log := l }

def LogSys.logWrite {ι : Type} (s : LogSys ι) (b : Fin NBUF) : Outcome (LogSys ι) Unit :=
  match s.log.logWrite (s.buf b).blockno with
  | .blocked => .blocked
  | .panic msg => .panic msg
  | .done new l => .done () (if new then { s.bpin b with log := l } else { s with log := l })

section Programs

variable {ι : Type} [DecidableEq ι]

def beginOp : LogProg ι Unit := .atomic .beginOp (LogSys.onLog Log.beginOp)

def logWrite (b : Fin NBUF) : LogProg ι Unit := .atomic (.logWrite b) fun s => s.logWrite b

def loopTest (tail : ℕ) : LogProg ι (Option ℕ) :=
  .atomic .loopTest fun s => .done s.log.lh[tail]? s

def memmove (dst src : Fin NBUF) : LogProg ι Unit :=
  .atomic (.memmove dst src) fun s => .done () (s.setData dst (s.buf src).data)

/-- The loop of `write_log` from the index `tail` on. -/
def writeLogFrom (p : ι) (g : LogGeom) : ℕ → ℕ → LogProg ι Unit
  | 0, _ => return
  | n + 1, tail => do
    match ← loopTest tail with
    | none => return
    | some blockno =>
      let tbuf ← bread p g.dev (g.start + tail + 1)
      let fbuf ← bread p g.dev blockno
      memmove tbuf fbuf
      bwrite p (.logSlot tbuf) tbuf
      brelse p fbuf
      brelse p tbuf
      writeLogFrom p g n (tail + 1)

/-- `write_log`: copy the modified blocks from the cache to the log. -/
def writeLog (p : ι) (g : LogGeom) : LogProg ι Unit := writeLogFrom p g (LOGSIZE + 1) 0

def installTransFrom (p : ι) (g : LogGeom) (recovering : Bool) : ℕ → ℕ → LogProg ι Unit
  | 0, _ => return
  | n + 1, tail => do
    match ← loopTest tail with
    | none => return
    | some blockno =>
      let lbuf ← bread p g.dev (g.start + tail + 1)
      let dbuf ← bread p g.dev blockno
      memmove dbuf lbuf
      bwrite p (.install dbuf) dbuf
      if recovering then pure () else bunpin dbuf
      brelse p lbuf
      brelse p dbuf
      installTransFrom p g recovering n (tail + 1)

/-- `install_trans`: copy the committed blocks from the log to their home locations. -/
def installTrans (p : ι) (g : LogGeom) (recovering : Bool) : LogProg ι Unit :=
  installTransFrom p g recovering (LOGSIZE + 1) 0

def readHead (p : ι) (g : LogGeom) : LogProg ι Unit := do
  let b ← bread p g.dev g.start
  .atomic (.readHead b) fun s =>
    .done () { s with log := { s.log with lh := Log.decode (s.buf b).data } }
  brelse p b

def writeHead (p : ι) (g : LogGeom) (first : Bool) : LogProg ι Unit := do
  let b ← bread p g.dev g.start
  .atomic (.fillHead b) fun s => .done () (s.setData b (Log.encode s.log.lh (s.buf b).data))
  bwrite p (.writeHead first b) b
  brelse p b

/-- `log.lh.n = 0`. -/
def clearHead : LogProg ι Unit :=
  .atomic .clear fun s => .done () { s with log := { s.log with lh := [] } }

def recoverFromLog (p : ι) (g : LogGeom) : LogProg ι Unit := do
  readHead p g
  installTrans p g true
  clearHead
  writeHead p g false

def commit (p : ι) (g : LogGeom) : LogProg ι Unit := do
  let nonempty ← .atomic .commit fun s => .done (!s.log.lh.isEmpty) s
  if nonempty then
    writeLog p g
    writeHead p g true
    installTrans p g false
    clearHead
    writeHead p g false

def endOp (p : ι) (g : LogGeom) : LogProg ι Unit := do
  let doCommit ← .atomic .endOp (LogSys.onLog Log.endOp)
  if doCommit then
    commit p g
    .atomic .endCommit fun s => .done () { s with log := s.log.endCommit }

def initlog (p : ι) (g : LogGeom) : LogProg ι Unit := do
  recoverFromLog p g
  .atomic .ready fun s => .done () { s with up := true }

end Programs

/-! ## Clients -/

inductive Cmd where
  | bread (dev blockno : ℕ)
  /-- Change the contents of a block obtained from `bread`. -/
  | modify (dev blockno : ℕ) (d : Block)
  | logWrite (dev blockno : ℕ)
  | bwrite (dev blockno : ℕ)
  | brelse (dev blockno : ℕ)

/-- The blocks a call holds, with their buffers. -/
abbrev Held : Type := List ((ℕ × ℕ) × Fin NBUF)

section Machine

variable {ι : Type} [DecidableEq ι]

def runCmds (p : ι) : List Cmd → Held → LogProg ι Unit
  | [], _ => return
  | .bread dev blockno :: cs, env => do
    let b ← bread p dev blockno
    runCmds p cs (((dev, blockno), b) :: env)
  | .modify dev blockno d :: cs, env => do
    match env.lookup (dev, blockno) with
    | some b => .atomic (.modify dev blockno b d) fun s => .done () (s.setData b d)
    | none => return
    runCmds p cs env
  | .logWrite dev blockno :: cs, env => do
    match env.lookup (dev, blockno) with
    | some b => logWrite b
    | none => return
    runCmds p cs env
  | .bwrite dev blockno :: cs, env => do
    match env.lookup (dev, blockno) with
    | some b => bwrite p (.bwrite b) b
    | none => return
    runCmds p cs env
  | .brelse dev blockno :: cs, env => do
    match env.lookup (dev, blockno) with
    | some b => brelse p b
    | none => return
    runCmds p cs (env.filter fun e => e.1 ≠ (dev, blockno))

/-- The list of commands obeys the interface when the blocks of `held` are held, each of them with
the flag that tells whether it was changed since it was last given to `log_write`; `op` tells
whether the commands stand inside a transaction. -/
def Cmd.Ok (g : LogGeom) (op : Bool) : List ((ℕ × ℕ) × Bool) → List Cmd → Prop
  | held, [] => held = []
  | held, .bread dev blockno :: cs =>
    dev ≠ 0 ∧ blockno < 2 ^ 32 ∧ ¬ g.Area blockno ∧ (dev, blockno) ∉ held.map Prod.fst ∧
      Cmd.Ok g op (((dev, blockno), false) :: held) cs
  | held, .modify dev blockno _ :: cs =>
    (dev, blockno) ∈ held.map Prod.fst ∧ (dev = g.dev → op = true) ∧
      Cmd.Ok g op (held.map fun e => if e.1 = (dev, blockno) then (e.1, true) else e) cs
  | held, .logWrite dev blockno :: cs =>
    (dev, blockno) ∈ held.map Prod.fst ∧ dev = g.dev ∧ op = true ∧
      Cmd.Ok g op (held.map fun e => if e.1 = (dev, blockno) then (e.1, false) else e) cs
  | held, .bwrite dev blockno :: cs =>
    (dev, blockno) ∈ held.map Prod.fst ∧ dev ≠ g.dev ∧ Cmd.Ok g op held cs
  | held, .brelse dev blockno :: cs =>
    (dev, blockno) ∈ held.map Prod.fst ∧ (dev = g.dev → ((dev, blockno), false) ∈ held) ∧
      Cmd.Ok g op (held.filter fun e => e.1 ≠ (dev, blockno)) cs

/-- Whether a list of commands obeys the interface can be decided. -/
instance Cmd.decidableOk (g : LogGeom) (op : Bool) :
    ∀ cs held, Decidable (Cmd.Ok g op held cs)
  | [], held => inferInstanceAs (Decidable (held = []))
  | c :: cs, _ =>
    have := Cmd.decidableOk g op cs
    match c with
    | .bread _ _ => inferInstanceAs (Decidable (_ ∧ _ ∧ _ ∧ _ ∧ _))
    | .modify _ _ _ => inferInstanceAs (Decidable (_ ∧ _ ∧ _))
    | .logWrite _ _ => inferInstanceAs (Decidable (_ ∧ _ ∧ _ ∧ _))
    | .bwrite _ _ => inferInstanceAs (Decidable (_ ∧ _ ∧ _))
    | .brelse _ _ => inferInstanceAs (Decidable (_ ∧ _ ∧ _))

inductive LogCall where
  /-- `initlog`, called by the first process through `fsinit`. -/
  | initlog
  | transaction (cs : List Cmd)
  /-- A file-system call that stands outside of any transaction. -/
  | access (cs : List Cmd)

/-- The machine of the buffer cache and the log; `p₀` is the first process. -/
def logMachine (g : LogGeom) (p₀ : ι) : Machine (LogSys ι) LogAct ι where
  Call := LogCall
  body p
    | .initlog => initlog p g
    | .transaction cs => do
      beginOp
      runCmds p cs []
      endOp p g
    | .access cs => runCmds p cs []
  ready s p
    | .initlog => p = p₀ ∧ s.up = false
    | .transaction cs => s.up = true ∧ Cmd.Ok g true [] cs
    | .access cs => s.up = true ∧ Cmd.Ok g false [] cs

instance (g : LogGeom) (p₀ : ι) (s : LogSys ι) (p : ι) :
    ∀ c, Decidable ((logMachine g p₀).ready s p c)
  | .initlog => inferInstanceAs (Decidable (_ ∧ _))
  | .transaction _ => inferInstanceAs (Decidable (_ ∧ _))
  | .access _ => inferInstanceAs (Decidable (_ ∧ _))

/-- The state at boot on the given disk: `binit` has run, and `initlog` is about to recover. -/
def LogSys.boot (g : LogGeom) (disk : ℕ → Block) : LogSys ι where
  disk := disk
  buf _ := ⟨false, 0, 0, none, 0, Bytes.zero _⟩
  links := LogSys.binit ⟨fun _ => none, fun _ => none⟩
  log := ⟨g.size, 0, false, []⟩
  up := false

end Machine

def smallGeom : LogGeom := ⟨1, 2, 30, by decide, by decide⟩

def proc : Fin 1 := 0

def bootOn (d : ℕ → Block) : Config (LogSys (Fin 1)) LogAct (Fin 1) :=
  .idle (LogSys.boot smallGeom d)

/-- Recover on a disk with an empty log, then run `n` steps of a transaction that changes
block 40. -/
def changeBlock (n : ℕ) : List (Move (Fin 1) LogCall) :=
  .start proc .initlog :: List.replicate 17 (.go proc 0) ++
    .start proc (.transaction [.bread 1 40, .modify 1 40 ((Bytes.zero BSIZE).set 0 7),
      .logWrite 1 40, .brelse 1 40]) :: List.replicate n (.go proc 0)

end Xv6
