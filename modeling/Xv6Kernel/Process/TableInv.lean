import Xv6Kernel.Process.Table

/-!
# The invariant of the process table

A process that holds the lock of a process knows what is in it, and a process that holds `wait_lock`
knows what it has found out about parents and zombies since it took the lock.
-/

namespace Xv6

open Function

variable {N : ℕ}

inductive WaitPhase where
  | run
  | doze
  | asleep

/-- What a process knows of the table. -/
structure TableGhost (N : ℕ) where
  lk : Option (Fin N × ProcSlot N)
  wait : Bool
  act : Bool
  fork : Option (Fin N × Bool)
  orphaned : Set (Fin N)
  kid : Option (Fin N)
  par : Option (Option (Fin N))
  /-- Processes that are not its zombies, as long as it holds `wait_lock`. -/
  seen : Set (Fin N)
  /-- Processes that do not sleep in `wait`, as long as it holds `wait_lock`. -/
  clear : Set (Fin N)
  dead : Option (Fin N)
  owe : Bool
  phase : WaitPhase
  passed : Option (List (ℤ × Fin N))

structure TableHist (N : ℕ) where
  allocs : ℕ
  zero : Bool
  /-- The process was hit by `kill` or `setkilled` since it was allocated. -/
  signalled : Fin N → Bool
  forking : Fin N → Bool
  /-- The status that the process has passed to `exit`, if it was not reaped since. -/
  status : Fin N → Option ℤ
  /-- The processes that the last `kill` of a process has passed, with the pid it looked for. -/
  passed : Fin N → List (ℤ × Fin N)

def TableHist.upd (η : TableHist N) (p : Fin N) : TableAct N → TableHist N
  | .alloc i => { η with allocs := η.allocs + 1
                         signalled := update η.signalled i false
                         forking := update η.forking i true }
  | .free i => { η with forking := update η.forking i false }
  | .ready i => { η with forking := update η.forking i false }
  | .zombie status => { η with status := update η.status p (some status) }
  | .reap i _ _ => { η with status := update η.status i none }
  | .killBegin _ => { η with passed := update η.passed p [] }
  | .killPass pid i => { η with passed := update η.passed p (η.passed p ++ [(pid, i)]) }
  | .kill pid i => { η with zero := η.zero || pid == 0
                            signalled := update η.signalled i true }
  | .setkilled i => { η with signalled := update η.signalled i true }
  | _ => η

/-- What the actions promise: a process is allocated from a free one, `wait` reaps a zombie of the
caller and returns its pid and the status it has passed to `exit`, a `wait` that cannot store the
status leaves the zombie, `kill` marks a process with the given pid and no other, and it fails only
after it has passed all processes, each with another pid. -/
def TableGuar (s : ProcTable N) (η : TableHist N) (p : Fin N) (l : TableAct N) (s' : ProcTable N) :
    Prop :=
  match l with
  | .alloc i => (s.slot i).state = .UNUSED ∧ (s'.slot i).killed = (s.slot i).killed
  | .reap i pid xstate => s.parent i = some p ∧ (s.slot i).state = .ZOMBIE ∧ (s.slot i).pid = pid ∧
      η.status i = some xstate
  | .waitFault i => (s'.slot i).state = .ZOMBIE
  | .kill pid i => (s.slot i).pid = pid ∧ (s'.slot i).killed = true ∧
      ∀ j, j ≠ i → (s'.slot j).killed = (s.slot j).killed
  | .killPass pid i => (s.slot i).pid ≠ pid
  | .killFail pid => η.passed p = (List.finRange N).map fun i => (pid, i)
  | _ => True

def ProcTable.Committed (s : ProcTable N) (γ : Fin N → TableGhost N) (q : Fin N) : Prop :=
  (γ q).phase = .doze ∨ (s.slot q).state = .SLEEPING

/-- Locks keep what their holders have read. -/
structure LockInv (s : ProcTable N) (γ : Fin N → TableGhost N) : Prop where
  snap : ∀ p i r, (γ p).lk = some (i, r) → s.plock i = true ∧ s.slot i = r
  uniq : ∀ p q i r r', (γ p).lk = some (i, r) → (γ q).lk = some (i, r') → p = q
  wait : ∀ p, (γ p).wait = true ↔ s.waitLock = some p
  doze : ∀ p, (γ p).phase = .doze → ∃ r, (γ p).lk = some (p, r)

/-- Every process in use but `init` has a living parent. -/
structure TreeInv (initproc : Fin N) (s : ProcTable N) (η : TableHist N)
    (γ : Fin N → TableGhost N) : Prop where
  parent : ∀ i q, s.parent i = some q → (s.slot q).state.Alive ∧ (s.slot i).state ≠ .UNUSED
  child : ∀ i, (s.slot i).state ≠ .UNUSED → (s.slot i).state ≠ .USED → i ≠ initproc →
    s.parent i ≠ none
  init : (s.slot initproc).state.Alive
  forking : ∀ i, η.forking i = true ↔ (s.slot i).state = .USED
  act : ∀ p, (γ p).act = true → (s.slot p).state.Alive
  fork : ∀ p i b, (γ p).fork = some (i, b) →
    (s.slot i).state = .USED ∧ (b = true ↔ s.parent i ≠ none)
  forkUniq : ∀ p q i b b', (γ p).fork = some (i, b) → (γ q).fork = some (i, b') → p = q
  orphaned : ∀ p i, i ∈ (γ p).orphaned → p ≠ initproc ∧ s.parent i ≠ some p
  /-- A child is given to another parent under `wait_lock`. -/
  kid : ∀ p i, (γ p).kid = some i → (γ p).wait = true ∧ s.parent i = some p
  par : ∀ p x, (γ p).par = some x → (γ p).wait = true ∧ (γ p).act = true ∧ s.parent p = x

/-- Who may be asleep in `wait`. -/
structure SleepInv (initproc : Fin N) (s : ProcTable N) (γ : Fin N → TableGhost N) : Prop where
  asleep : ∀ p, (s.slot p).state = .SLEEPING → (γ p).phase = .asleep ∧ (s.slot p).chan = some p
  seen : ∀ p i, i ∈ (γ p).seen →
    (γ p).wait = true ∧ ¬(s.parent i = some p ∧ (s.slot i).state = .ZOMBIE)
  /-- A process goes to sleep in `wait` under `wait_lock`. -/
  clear : ∀ p q, q ∈ (γ p).clear → (γ p).wait = true ∧ ¬s.Committed γ q
  dead : ∀ p i, (γ p).dead = some i → (γ p).wait = true ∧ (s.slot i).state = .ZOMBIE
  /-- Whoever sleeps has no zombie children, or is owed a wakeup. -/
  reason : ∀ q i, s.Committed γ q → s.parent i = some q → (s.slot i).state = .ZOMBIE →
    q = initproc ∧ s.waitLock ≠ none ∧ ∀ p, s.waitLock = some p → (γ p).owe = true

/-- Pids and kills, while `allocpid` has not wrapped around and no `kill(0)` has hit. -/
structure PidOk (s : ProcTable N) (η : TableHist N) : Prop where
  next : s.nextpid = η.allocs + 1
  unused : ∀ i, (s.slot i).state = .UNUSED → (s.slot i).pid = 0 ∧ (s.slot i).killed = false
  pos : ∀ i, (s.slot i).state ≠ .UNUSED → 0 < (s.slot i).pid ∧ (s.slot i).pid < s.nextpid
  inj : ∀ i j, (s.slot i).state ≠ .UNUSED → (s.slot j).state ≠ .UNUSED →
    (s.slot i).pid = (s.slot j).pid → i = j
  signalled : ∀ i, (s.slot i).killed = true → η.signalled i = true

/-- A zombie keeps the status of its `exit`, and pids are distinct. -/
structure PidInv (s : ProcTable N) (η : TableHist N) (γ : Fin N → TableGhost N) : Prop where
  zombie : ∀ i, (s.slot i).state = .ZOMBIE → η.status i = some (s.slot i).xstate
  pids : η.zero = false → η.allocs < 2 ^ 31 - 1 → PidOk s η
  passed : ∀ p l, (γ p).passed = some l → η.passed p = l

structure TableInv (initproc : Fin N) (s : ProcTable N) (η : TableHist N)
    (γ : Fin N → TableGhost N) : Prop where
  lock : LockInv s γ
  tree : TreeInv initproc s η γ
  sleep : SleepInv initproc s γ
  pid : PidInv s η γ

def TableGhost.idle : TableGhost N :=
  ⟨none, false, false, none, ∅, none, none, ∅, ∅, none, false, .run, none⟩

end Xv6
