import Xv6Kernel.Pipe.Model

/-!
# The invariant of a pipe

A process that holds the lock of the pipe knows the contents of the pipe, and it may owe wakeups: by
changing the pipe it may have made a condition false that processes are asleep on, and until it has
passed a process in its `wakeup` that process may be asleep for no reason.
-/

namespace Xv6

open Function

variable {N : ℕ}
variable {pi : Pipe}

/-- The condition on which a process sleeps on a channel. -/
def PipeChan.Waits (pi : Pipe) : PipeChan → Prop
  | .nread => pi.nread = pi.nwrite ∧ pi.writeopen = true
  | .nwrite => pi.nwrite = u32 (pi.nread + PIPESIZE) ∧ pi.readopen = true

inductive PipePhase where
  | run
  /-- The lock of the pipe is released and `p->lock` is held. -/
  | doze (ch : PipeChan)
  | asleep (ch : PipeChan)

/-- What a process has done since it last entered the kernel: the bytes it has appended and removed,
and the number with which a `piperead` has ended. -/
structure PipeLocal where
  wrote : List ℕ
  read : List ℕ
  ended : Option ℕ

/-- What a process knows: the pipe under its lock, whom it owes a wakeup, and its call so far. -/
structure PipeGhost (N : ℕ) where
  hold : Option Pipe
  owe : PipeChan → Set (Fin N)
  phase : PipePhase
  cur : Option PipeLocal

/-- The bytes that went in and out, and the calls so far. -/
structure PipeHist (N : ℕ) where
  sent : List ℕ
  got : List ℕ
  cur : Fin N → PipeLocal
  /-- A `pipewrite` has failed after bytes that it had announced to no reader. -/
  lost : Bool

def PipeLocal.upd (x : PipeLocal) : PipeAct N → PipeLocal
  | .call => ⟨[], [], none⟩
  | .append _ ch => { x with wrote := x.wrote ++ [ch] }
  | .remove ch => { x with read := x.read ++ [ch] }
  | .readEnd _ _ i => { x with ended := some i }
  | _ => x

def PipeHist.note (η : PipeHist N) (p : Fin N) (l : PipeAct N) : PipeHist N :=
  { η with cur := update η.cur p ((η.cur p).upd l) }

def PipeHist.upd (η : PipeHist N) (p : Fin N) : PipeAct N → PipeHist N
  | .call => η.note p .call
  | .append buf ch => { η.note p (.append buf ch) with sent := η.sent ++ [ch] }
  | .remove ch => { η.note p (.remove ch) with got := η.got ++ [ch] }
  | .readEnd valid n i => η.note p (.readEnd valid n i)
  | .writeFail i w => { η with lost := η.lost || i != w }
  | _ => η

/-- What a `pipewrite` of `n` bytes that returns `r` has done: it has appended the first bytes of the
buffer, and unless it has failed these are as many as it returns, and all that can be read. -/
def WriteResult (buf : ℕ → Option ℕ) (n r : ℤ) (x : PipeLocal) : Prop :=
  ∃ i : ℕ, x.wrote.map some = (List.range i).map buf ∧ (r = -1 ∨ (r = i ∧ (i < n → buf i = none)))

/-- What a `piperead` of `n` bytes that returns `r` has done: it was killed before it had removed a
byte, or it has removed as many bytes as it returns, and one more if that one could not be stored. -/
def ReadResult (valid : ℕ → Bool) (n r : ℤ) (x : PipeLocal) : Prop :=
  (r = -1 ∧ x.read = []) ∨ ∃ i : ℕ, r = i ∧ x.ended = some i ∧ i ≤ n.toNat ∧
    (∀ j < i, valid j = true) ∧ (x.read.length = i ∨ (x.read.length = i + 1 ∧ valid i = false))

/-- What the actions of the calls promise: a byte that is appended is the next one of the buffer, the
results of `pipewrite` and `piperead` are true, and a `piperead` of `n > 0` bytes into valid memory
ends with 0 only at the end of the file. -/
def PipeGuar (s : PipeSys N) (η : PipeHist N) (p : Fin N) : PipeAct N → Prop
  | .append buf ch => buf (η.cur p).wrote.length = some ch
  | .writeRet buf n r => WriteResult buf n r (η.cur p)
  | .readRet valid n r => ReadResult valid n r (η.cur p)
  | .readEnd valid n i => i = 0 → 0 < n → valid 0 = true →
      s.pipe.nread = s.pipe.nwrite ∧ s.pipe.writeopen = false
  | _ => True

namespace Pipe

def count (pi : Pipe) : ℕ := u32 (pi.nwrite + 2 ^ 32 - pi.nread)

def buffered (pi : Pipe) : List ℕ :=
  (List.range pi.count).map fun k => pi.data ((pi.nread + k) % PIPESIZE)

/-- The counters are within their range, and the buffer is not overfull. -/
structure Ok (pi : Pipe) : Prop where
  nread_lt : pi.nread < 2 ^ 32
  nwrite_lt : pi.nwrite < 2 ^ 32
  count_le : pi.count ≤ PIPESIZE

lemma Ok.append (h : pi.Ok) (hfull : pi.full = false) (ch : ℕ) :
    (pi.append ch).Ok ∧ (pi.append ch).buffered = pi.buffered ++ [ch] := by
  obtain ⟨h1, h2, h3⟩ := h
  simp only [full, beq_eq_false_iff_ne, u32, count, PIPESIZE] at hfull h3
  have hcount : (pi.append ch).count = pi.count + 1 := by
    simp only [count, u32, Pipe.append]
    omega
  have hlt : pi.count < PIPESIZE := by
    simp only [count, u32, PIPESIZE]
    omega
  refine ⟨⟨h1, Nat.mod_lt _ (by decide), by rw [hcount]; exact hlt⟩, ?_⟩
  unfold buffered
  rw [hcount, List.range_succ, List.map_append]
  congr 1
  · refine List.map_congr_left fun k hk => update_of_ne ?_ _ _
    rw [List.mem_range] at hk
    simp only [count, u32] at hk hlt
    change (pi.nread + k) % 512 ≠ pi.nwrite % 512
    omega
  · have hidx : (pi.nread + pi.count) % PIPESIZE = pi.nwrite % PIPESIZE := by
      simp only [count, u32, PIPESIZE]
      omega
    simp [Pipe.append, hidx]

lemma Ok.remove (h : pi.Ok) (hempty : pi.empty = false) :
    pi.remove.Ok ∧ pi.buffered = pi.head :: pi.remove.buffered := by
  obtain ⟨h1, h2, h3⟩ := h
  simp only [empty, beq_eq_false_iff_ne] at hempty
  have hcount : pi.count = pi.remove.count + 1 := by
    simp only [count, u32, Pipe.remove]
    omega
  refine ⟨⟨Nat.mod_lt _ (by decide), h2, by omega⟩, ?_⟩
  unfold buffered
  rw [hcount, List.range_succ_eq_map, List.map_cons, List.map_map]
  congr 1
  refine List.map_congr_left fun k _ => ?_
  have hidx : (pi.nread + (k + 1)) % PIPESIZE = (u32 (pi.nread + 1) + k) % PIPESIZE := by
    simp only [u32, PIPESIZE]
    omega
  simp [Pipe.remove, hidx]

end Pipe

def PipeSys.Committed (s : PipeSys N) (γ : Fin N → PipeGhost N) (q : Fin N) (ch : PipeChan) : Prop :=
  (γ q).phase = .doze ch ∨ (s.state q = .SLEEPING ∧ s.chan q = some ch)

/-- The invariant: a sleeper waits for something or is owed a wakeup, and no byte is lost. -/
structure PipeInv (s : PipeSys N) (η : PipeHist N) (γ : Fin N → PipeGhost N) : Prop where
  holds : ∀ p pi, (γ p).hold = some pi → s.lock = some p ∧ s.pipe = pi
  held : ∀ p, s.lock = some p → (γ p).hold ≠ none
  plock : ∀ p, s.plock p = true ↔ ∃ ch, (γ p).phase = .doze ch
  asleep : ∀ p ch, s.state p = .SLEEPING → s.chan p = some ch → (γ p).phase = .asleep ch
  reason : η.lost = false → ∀ q ch, s.Committed γ q ch →
    ch.Waits s.pipe ∨ ∃ p, s.lock = some p ∧ q ∈ (γ p).owe ch
  ok : s.pipe.Ok
  fifo : η.sent = η.got ++ s.pipe.buffered
  cur : ∀ p l, (γ p).cur = some l → η.cur p = l

def PipeGhost.idle : PipeGhost N := ⟨none, fun _ => ∅, .run, none⟩

def pipeProtocol (N : ℕ) : Protocol (PipeSys N) (PipeAct N) (Fin N) (PipeGhost N) (PipeHist N) where
  inv := PipeInv
  upd := PipeHist.upd
  ok _ _ _ := True
  guar s η p l _ := PipeGuar s η p l
  view _ _ := True
  rest _ := True
  tol _ := False
  idle := .idle
  fin g := g.hold = none ∧ g.phase = .run

end Xv6
