import Xv6Kernel.Pipe.Verified

/-!
# A pipe is a FIFO, and whom it leaves asleep

The invariant of the pipe, read off for the runs of the machine.
-/

namespace Xv6

open Function

open Protocol

variable {N : ℕ}

instance (s : PipeSys N) (p : Fin N) (x : (pipeMachine N).Call) :
    Decidable ((pipeMachine N).ready s p x) := inferInstanceAs (Decidable True)

def bytesIn (tr : List (Fin N × PipeAct N)) : List ℕ :=
  tr.filterMap fun e => match e.2 with
    | .append _ ch => some ch
    | _ => none

def bytesOut (tr : List (Fin N × PipeAct N)) : List ℕ :=
  tr.filterMap fun e => match e.2 with
    | .remove ch => some ch
    | _ => none

/-- What the process `p` has done since it last entered the kernel. -/
def localOf (p : Fin N) (tr : List (Fin N × PipeAct N)) : PipeLocal :=
  tr.foldl (fun x e => if e.1 = p then x.upd e.2 else x) ⟨[], [], none⟩

/-- In the run a `pipewrite` has failed after bytes that it had not announced. -/
def unannounced (tr : List (Fin N × PipeAct N)) : Bool :=
  tr.any fun e => match e.2 with
    | .writeFail i w => i != w
    | _ => false

def PipeHist.init : PipeHist N := ⟨[], [], fun _ => ⟨[], [], none⟩, false⟩

lemma pipe_hist (tr : List (Fin N × PipeAct N)) : (pipeProtocol N).hist .init tr =
      ⟨bytesIn tr, bytesOut tr, fun p => localOf p tr, unannounced tr⟩ := by
  induction tr using List.reverseRecOn with
  | nil => rfl
  | append_singleton tr e ih =>
    obtain ⟨p, l⟩ := e
    rw [hist_append, ih, hist_singleton]
    show PipeHist.upd _ p l = _
    have hcur : (fun q => localOf q (tr ++ [(p, l)])) =
        update (fun q => localOf q tr) p ((localOf p tr).upd l) := by
      funext q
      by_cases hq : q = p
      · simp [localOf, List.foldl_append, hq]
      · simp [localOf, List.foldl_append, hq, Ne.symm hq]
    rw [hcur]
    cases l <;>
      simp [PipeHist.upd, PipeHist.note, PipeLocal.upd, bytesIn, bytesOut, unannounced]

lemma PipeInv.init (data : ℕ → ℕ) (killed : Fin N → Bool) :
    PipeInv (PipeSys.init N data killed) .init fun _ => .idle where
  holds p pi h := by cases h
  held p h := by cases h
  plock p := by simp [PipeSys.init, PipeGhost.idle]
  asleep p ch h := by cases h
  reason _ q ch hc := by
    obtain hc | ⟨hc, -⟩ := hc <;> cases hc
  ok := ⟨Nat.two_pow_pos 32, Nat.two_pow_pos 32, by
    simp [PipeSys.init, Pipe.new, Pipe.count, u32]⟩
  fifo := by
    simp [PipeHist.init, PipeSys.init, Pipe.new, Pipe.buffered, Pipe.count, u32]
  cur p l h := by cases h

lemma pipe_holds {data : ℕ → ℕ} {killed : Fin N → Bool} {tr : List (Fin N × PipeAct N)}
    {c : Config (PipeSys N) (PipeAct N) (Fin N)}
    (hex : Exec (pipeMachine N) anyAction (.idle (PipeSys.init N data killed)) tr c) :
    (pipeProtocol N).Holds c ⟨bytesIn tr, bytesOut tr, fun p => localOf p tr, unannounced tr⟩ := by
  rw [← pipe_hist]
  exact (pipeMachine_verified N).exec (.idle (PipeInv.init data killed)) hex

/-- A pipe is a lossless FIFO of capacity `PIPESIZE`: at most that many bytes are between the
counters, what went in is what went out and then the buffered bytes, every appended byte is the next
of the buffer of its call, a `pipewrite` that returns `i` has appended the first `i` bytes, a
`piperead` that returns `i` has removed `i` bytes, and a further one only if that could not be
stored, and a `piperead` of `n > 0` bytes into valid memory ends with 0 only when the pipe is empty
and the write end is closed. -/
theorem pipe_fifo {data : ℕ → ℕ} {killed : Fin N → Bool} {tr : List (Fin N × PipeAct N)}
    {c : Config (PipeSys N) (PipeAct N) (Fin N)}
    (hex : Exec (pipeMachine N) anyAction (.idle (PipeSys.init N data killed)) tr c) :
    c.st.pipe.count ≤ PIPESIZE ∧ bytesIn tr = bytesOut tr ++ c.st.pipe.buffered ∧
    ∀ p d, (∀ buf ch, Step (pipeMachine N) anyAction c [(p, .append buf ch)] d →
        buf (localOf p tr).wrote.length = some ch) ∧
      (∀ buf n r, Step (pipeMachine N) anyAction c [(p, .writeRet buf n r)] d →
        WriteResult buf n r (localOf p tr)) ∧
      (∀ valid n r, Step (pipeMachine N) anyAction c [(p, .readRet valid n r)] d →
        ReadResult valid n r (localOf p tr)) ∧
      ∀ valid n i, Step (pipeMachine N) anyAction c [(p, .readEnd valid n i)] d → i = 0 → 0 < n →
        valid 0 = true → c.st.pipe.nread = c.st.pipe.nwrite ∧ c.st.pipe.writeopen = false := by
  have hH := pipe_holds hex
  obtain ⟨γ, hinv, -⟩ := hH.ghost
  refine ⟨hinv.ok.count_le, hinv.fifo, fun p d => ⟨fun buf ch hs => ?_, fun buf n r hs => ?_,
    fun valid n r hs => ?_, fun valid n i hs => ?_⟩⟩
  · exact (hH.action hs).1
  · exact (hH.action hs).1
  · exact (hH.action hs).1
  · exact (hH.action hs).1

def writer : Fin 5 := 0

def reader : Fin 5 := 1

def killer : Fin 5 := 2

/-- The results of the `piperead`s of a run. -/
def readResults (tr : List (Fin N × PipeAct N)) : List ℤ :=
  tr.filterMap fun e => match e.2 with
    | .readRet _ _ r => some r
    | _ => none

def twoBytes : List (Move (Fin 5) (PipeCall 5)) :=
  (.start writer (.write (fun i => some (7 + i)) 2 3) :: List.replicate 17 (.go writer 0)) ++
    (.start reader (.read (fun _ => true) 1 1) :: List.replicate 14 (.go reader 0)) ++
    (.start reader (.read (fun _ => true) 5 1) :: List.replicate 15 (.go reader 0))

/-- Two bytes are written and read, the second one by a `piperead` of five bytes; when the write end
is closed the next `piperead` returns 0. -/
theorem pipe_fifo_end_of_file : ∃ tr c,
    Exec (pipeMachine 5) anyAction (.idle (PipeSys.init 5 (fun _ => 0) fun _ => false)) tr c ∧
      bytesIn tr = [7, 8] ∧ bytesOut tr = [7, 8] ∧ readResults tr = [1, 1, 0] ∧
      bytesIn tr = bytesOut tr ++ c.st.pipe.buffered := by
  have hplay : (Config.idle (PipeSys.init 5 (fun _ => 0) fun _ => false)).playTest (pipeMachine 5)
      (twoBytes ++ (.start writer (.close true) :: List.replicate 8 (.go writer 0)) ++
        (.start reader (.read (fun _ => true) 5 1) :: List.replicate 11 (.go reader 0)))
      (fun tr _ => bytesIn tr == [7, 8] && bytesOut tr == [7, 8] && readResults tr == [1, 1, 0]) =
        true := by
    decide +kernel
  obtain ⟨tr, c, hex, htest⟩ := Config.exists_of_playTest hplay
  simp only [Bool.and_eq_true, beq_iff_eq] at htest
  exact ⟨tr, c, hex, htest.1.1, htest.1.2, htest.2, (pipe_fifo hex).2.1⟩

/-! ## Stranded processes -/

/-- Nobody is stranded: in every run in which no `pipewrite` fails after bytes that it has appended
since its last `wakeup`, whenever the lock of the pipe is free, a process asleep on `&pi->nread` finds
the pipe empty and the write end open, and a process asleep on `&pi->nwrite` finds the pipe full and
the read end open. -/
theorem pipe_not_stranded {data : ℕ → ℕ} {killed : Fin N → Bool} {tr : List (Fin N × PipeAct N)}
    {c : Config (PipeSys N) (PipeAct N) (Fin N)}
    (hex : Exec (pipeMachine N) anyAction (.idle (PipeSys.init N data killed)) tr c)
    (hfail : ∀ p i w, (p, PipeAct.writeFail i w) ∈ tr → i = w) (hlock : c.st.lock = none)
    {q : Fin N} (hq : c.st.state q = .SLEEPING) :
    (c.st.chan q = some .nread → c.st.pipe.nread = c.st.pipe.nwrite ∧ c.st.pipe.writeopen = true) ∧
    (c.st.chan q = some .nwrite →
      c.st.pipe.nwrite = u32 (c.st.pipe.nread + PIPESIZE) ∧ c.st.pipe.readopen = true) := by
  obtain ⟨γ, hinv, -⟩ := (pipe_holds hex).ghost
  have hlost : unannounced tr = false := by
    rw [unannounced, List.any_eq_false]
    rintro ⟨p, l⟩ hl
    cases l with
    | writeFail i w => simpa using hfail p i w hl
    | _ => simp
  have hwaits : ∀ ch, c.st.chan q = some ch → ch.Waits c.st.pipe := by
    intro ch hch
    refine (hinv.reason hlost q ch (.inr ⟨hq, hch⟩)).resolve_right ?_
    rintro ⟨p, hp, -⟩
    simp [hlock] at hp
  exact ⟨hwaits .nread, hwaits .nwrite⟩

/-- The failures of the `pipewrite`s of a run. -/
def failures (tr : List (Fin N × PipeAct N)) : List (ℕ × ℕ) :=
  tr.filterMap fun e => match e.2 with
    | .writeFail i w => some (i, w)
    | _ => none

/-- A reader that is asleep for a reason: two bytes are written and read, and then a `pipewrite` has
failed before its first byte. -/
theorem pipe_not_stranded_killed_writer : ∃ tr c,
    Exec (pipeMachine 5) anyAction (.idle (PipeSys.init 5 (fun _ => 0) fun _ => false)) tr c ∧
      bytesIn tr = [7, 8] ∧ failures tr = [(0, 0)] ∧
      c.st.state reader = .SLEEPING ∧ c.st.chan reader = some .nread ∧
      c.st.pipe.nread = c.st.pipe.nwrite ∧ c.st.pipe.writeopen = true := by
  have hplay : (Config.idle (PipeSys.init 5 (fun _ => 0) fun _ => false)).playTest (pipeMachine 5)
      (twoBytes ++ [.start killer (.kill writer), .go killer 0] ++
        (.start writer (.write (fun _ => some 9) 1 1) :: List.replicate 5 (.go writer 0)) ++
        (.start reader (.read (fun _ => true) 1 1) :: List.replicate 6 (.go reader 0)))
      (fun tr d => bytesIn tr == [7, 8] && failures tr == [(0, 0)] && d.st.lock.isNone &&
        d.st.state reader == .SLEEPING && d.st.chan reader == some .nread) = true := by
    decide +kernel
  obtain ⟨tr, c, hex, htest⟩ := Config.exists_of_playTest hplay
  simp only [Bool.and_eq_true, Option.isNone_iff_eq_none, beq_iff_eq] at htest
  obtain ⟨⟨⟨⟨hin, hfail⟩, hlock⟩, hst⟩, hch⟩ := htest
  refine ⟨tr, c, hex, hin, hfail, hst, hch,
    (pipe_not_stranded hex (fun p i w hm => ?_) hlock hst).1 hch⟩
  have hmem : (i, w) ∈ failures tr := List.mem_filterMap.mpr ⟨_, hm, rfl⟩
  rw [hfail, List.mem_singleton] at hmem
  cases hmem
  rfl

/-- A reader sleeps on an empty pipe.  A writer appends a byte, is killed before its next round, and
fails without a `wakeup`: the lock is free, the pipe is not empty, and the reader is still asleep. -/
theorem pipe_stranded_reader : ∃ tr c,
    Exec (pipeMachine 5) anyAction (.idle (PipeSys.init 5 (fun _ => 0) fun _ => false)) tr c ∧
      c.st.lock = none ∧ c.st.state reader = .SLEEPING ∧ c.st.chan reader = some .nread ∧
      c.st.pipe.nread ≠ c.st.pipe.nwrite := by
  have hplay : (Config.idle (PipeSys.init 5 (fun _ => 0) fun _ => false)).playTest (pipeMachine 5)
      ((.start reader (.read (fun _ => true) 1 1) :: List.replicate 6 (.go reader 0)) ++
        (.start writer (.write (fun _ => some 7) 2 2) :: List.replicate 6 (.go writer 0)) ++
        [.start killer (.kill writer), .go killer 0] ++ List.replicate 3 (.go writer 0))
      (fun _ d => d.st.lock.isNone && d.st.state reader == .SLEEPING &&
        d.st.chan reader == some .nread && d.st.pipe.nread != d.st.pipe.nwrite) = true := by
    decide +kernel
  obtain ⟨tr, c, hex, htest⟩ := Config.exists_of_playTest hplay
  simp only [Bool.and_eq_true, Option.isNone_iff_eq_none, beq_iff_eq, bne_iff_ne, ne_eq] at htest
  obtain ⟨⟨⟨hlock, hst⟩, hch⟩, hne⟩ := htest
  exact ⟨tr, c, hex, hlock, hst, hch, hne⟩

end Xv6
