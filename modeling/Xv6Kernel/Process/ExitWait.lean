import Xv6Kernel.Process.TableVerified

/-!
# Exit and wait, and whom `kill` hits

The invariant of the process table, read off for the runs of the machine.
-/

namespace Xv6

open Function

open Protocol

variable {N : ℕ}
variable {tr : List (Fin N × TableAct N)}

/-- The process `i` is being forked. -/
def beingForked (i : Fin N) (tr : List (Fin N × TableAct N)) : Bool :=
  tr.foldl (fun b e => match e.2 with
    | .alloc j => if i = j then true else b
    | .free j => if i = j then false else b
    | .ready j => if i = j then false else b
    | _ => b) false

def exitStatus (i : Fin N) (tr : List (Fin N × TableAct N)) : Option ℤ :=
  tr.foldl (fun x e => match e.2 with
    | .zombie status => if i = e.1 then some status else x
    | .reap j _ _ => if i = j then none else x
    | _ => x) none

def allocpidCalls (tr : List (Fin N × TableAct N)) : ℕ :=
  tr.foldl (fun n e => match e.2 with
    | .alloc _ => n + 1
    | _ => n) 1

def killedZero (tr : List (Fin N × TableAct N)) : Bool :=
  tr.foldl (fun b e => match e.2 with
    | .kill pid _ => b || pid == 0
    | _ => b) false

def signalledSince (i : Fin N) (tr : List (Fin N × TableAct N)) : Bool :=
  tr.foldl (fun b e => match e.2 with
    | .alloc j => if i = j then false else b
    | .kill _ j => if i = j then true else b
    | .setkilled j => if i = j then true else b
    | _ => b) false

/-- The processes that the process `p` has passed since it last entered `kill`, each with the pid it
looked for. -/
def passedBy (p : Fin N) (tr : List (Fin N × TableAct N)) : List (ℤ × Fin N) :=
  tr.foldl (fun l e => match e.2 with
    | .killBegin _ => if p = e.1 then [] else l
    | .killPass pid i => if p = e.1 then l ++ [(pid, i)] else l
    | _ => l) []

def TableHist.init : TableHist N :=
  ⟨1, false, fun _ => false, fun _ => false, fun _ => none, fun _ => []⟩

def TableHist.of (tr : List (Fin N × TableAct N)) : TableHist N :=
  ⟨allocpidCalls tr, killedZero tr, fun i => signalledSince i tr, fun i => beingForked i tr,
    fun i => exitStatus i tr, fun p => passedBy p tr⟩

lemma table_hist (initproc : Fin N) (tr : List (Fin N × TableAct N)) :
    (tableProtocol initproc).hist .init tr = .of tr := by
  induction tr using List.reverseRecOn with
  | nil => rfl
  | append_singleton tr e ih =>
    obtain ⟨p, l⟩ := e
    rw [hist_append, ih, hist_singleton]
    show TableHist.upd _ p l = _
    have hupd : ∀ {β : Type} (f : Fin N → β) (q : Fin N) (x : β),
        update f q x = fun j => if j = q then x else f j := by
      intro β f q x
      funext j
      rw [update_apply]
    cases l <;>
      simp only [TableHist.upd, TableHist.of, allocpidCalls, killedZero, signalledSince, beingForked,
        exitStatus, passedBy, List.foldl_append, List.foldl_cons, List.foldl_nil, hupd]
    all_goals
      congr 1
      funext j
      split <;> simp_all

lemma TableInv.init (initproc : Fin N) :
    TableInv initproc (ProcTable.init initproc) .init fun _ => .idle := by
  have hslot : ∀ i, (ProcTable.init initproc).slot i =
      if i = initproc then ⟨.RUNNABLE, none, false, 0, 1⟩ else .free := by
    intro i
    simp only [ProcTable.init, update_apply]
  refine ⟨⟨?_, ?_, ?_, ?_⟩, ⟨?_, ?_, ?_, ?_, ?_, ?_, ?_, ?_, ?_, ?_⟩, ⟨?_, ?_, ?_, ?_, ?_⟩,
    ⟨?_, fun _ _ => ⟨rfl, ?_, ?_, ?_, ?_⟩, ?_⟩⟩ <;>
    simp only [hslot, ProcTable.Committed, TableGhost.idle] <;>
    grind [ProcSlot.free, ProcTable.init, TableHist.init, ProcState.Alive]

instance (initproc : Fin N) (s : ProcTable N) (p : Fin N) (x : (tableMachine initproc).Call) :
    Decidable ((tableMachine initproc).ready s p x) :=
  inferInstanceAs (Decidable (s.slot p).state.Alive)

lemma table_holds {initproc : Fin N} {c : Config (ProcTable N) (TableAct N) (Fin N)}
    (hex : Exec (tableMachine initproc) anyAction (.idle (.init initproc)) tr c) :
    (tableProtocol initproc).Holds c (.of tr) := by
  rw [← table_hist initproc]
  exact (tableMachine_verified initproc).exec (.idle (TableInv.init initproc)) hex

/-! ## Exit and wait -/

/-- The protocol of `exit` and `wait`.  Outside of `fork` every process except `init` has a parent that
is neither free nor a zombie.  When `wait_lock` is free, no process sleeps in `wait` while one of its
children is a zombie.  A process is reaped by its parent, once for each `exit`, and the `wait` that
reaps it returns its pid and stores the status that it has passed to `exit`.  A `wait` that cannot store
the status leaves the zombie. -/
theorem exit_wait_protocol {initproc : Fin N} {tr : List (Fin N × TableAct N)}
    {c : Config (ProcTable N) (TableAct N) (Fin N)}
    (hex : Exec (tableMachine initproc) anyAction (.idle (.init initproc)) tr c) :
    (∀ i, (c.st.slot i).state ≠ .UNUSED → i ≠ initproc → beingForked i tr = false →
      ∃ q, c.st.parent i = some q ∧ (c.st.slot q).state ≠ .UNUSED ∧ (c.st.slot q).state ≠ .ZOMBIE) ∧
    (c.st.waitLock = none → ∀ q i, (c.st.slot q).state = .SLEEPING → c.st.parent i = some q →
      (c.st.slot i).state ≠ .ZOMBIE) ∧ ∀ p i d,
      (∀ pid status, Step (tableMachine initproc) anyAction c [(p, .reap i pid status)] d →
        c.st.parent i = some p ∧ (c.st.slot i).state = .ZOMBIE ∧ (c.st.slot i).pid = pid ∧
          exitStatus i tr = some status) ∧
      (Step (tableMachine initproc) anyAction c [(p, .waitFault i)] d →
        (d.st.slot i).state = .ZOMBIE) := by
  have hH := table_holds hex
  obtain ⟨γ, hinv, -⟩ := hH.ghost
  refine ⟨fun i hi hne hf => ?_, fun hw q i hq hi hz => ?_, fun p i d => ⟨fun pid status hs => ?_,
    fun hs => ?_⟩⟩
  · have hused : (c.st.slot i).state ≠ .USED := fun hu => by
      have hf' : beingForked i tr = true := (hinv.tree.forking i).mpr hu
      simp [hf] at hf'
    obtain ⟨q, hq⟩ := Option.ne_none_iff_exists'.mp (hinv.tree.child i hi hused hne)
    have hq' := (hinv.tree.parent i q hq).1
    refine ⟨q, hq, ?_, ?_⟩ <;> obtain h | h | h := hq' <;> simp [h]
  · exact (hinv.sleep.reason q i (.inr hq) hi hz).2.1 hw
  · exact (hH.action hs).1
  · exact (hH.action hs).1

def initProc : Fin 4 := 0

def childProc : Fin 4 := 1

/-- `init` forks a process that exits: it is a zombie, and its parent is there to reap it. -/
theorem exit_wait_protocol_zombie : ∃ tr c,
    Exec (tableMachine initProc) anyAction (.idle (.init initProc)) tr c ∧
      (c.st.slot childProc).state = .ZOMBIE ∧
      ∃ q, c.st.parent childProc = some q ∧ (c.st.slot q).state ≠ .UNUSED ∧
        (c.st.slot q).state ≠ .ZOMBIE := by
  have hplay : (Config.idle (ProcTable.init initProc)).playTest (tableMachine initProc)
      ((.start initProc .fork :: List.replicate 12 (.go initProc 1)) ++
        (.start childProc (.exit 7) :: List.replicate 15 (.go childProc 0)))
      (fun tr d => (d.st.slot childProc).state == .ZOMBIE && !beingForked childProc tr) = true := by
    decide +kernel
  obtain ⟨tr, c, hex, htest⟩ := Config.exists_of_playTest hplay
  simp only [Bool.and_eq_true, beq_iff_eq, Bool.not_eq_true'] at htest
  exact ⟨tr, c, hex, htest.1, (exit_wait_protocol hex).1 childProc (by simp [htest.1]) (by decide)
    htest.2⟩

/-! ## Kill -/

lemma killedZero_eq_false (h : ∀ p i, (p, TableAct.kill 0 i) ∉ tr) : killedZero tr = false := by
  induction tr using List.reverseRecOn with
  | nil => rfl
  | append_singleton tr e ih =>
    have hstep := ih fun p i hm => h p i (List.mem_append_left _ hm)
    obtain ⟨p, l⟩ := e
    simp only [killedZero, List.foldl_append, List.foldl_cons, List.foldl_nil] at hstep ⊢
    cases l with
    | kill pid i =>
      have hpid : pid ≠ 0 := fun h0 => h p i (by simp [h0])
      simp [hstep, hpid]
    | _ => exact hstep

/-- `kill` hits exactly its target.  In every run with fewer than `2 ^ 31 - 1` calls of `allocpid` in
which no `kill(0)` finds a process, pids are positive and distinct; a `kill` that returns 0 has found a
process with its pid, and marks only that; a `kill` that fails has passed all processes, none of which
had its pid when it was passed; and a process that is marked was hit since it was allocated, so that a
new process is not marked. -/
theorem kill_exact {initproc : Fin N} {tr : List (Fin N × TableAct N)}
    {c : Config (ProcTable N) (TableAct N) (Fin N)}
    (hex : Exec (tableMachine initproc) anyAction (.idle (.init initproc)) tr c)
    (hcalls : allocpidCalls tr < 2 ^ 31 - 1) (hzero : ∀ p i, (p, TableAct.kill 0 i) ∉ tr) :
    (∀ i, (c.st.slot i).state ≠ .UNUSED → 0 < (c.st.slot i).pid) ∧
    (∀ i j, (c.st.slot i).state ≠ .UNUSED → (c.st.slot j).state ≠ .UNUSED →
      (c.st.slot i).pid = (c.st.slot j).pid → i = j) ∧ (∀ i, (c.st.slot i).killed = true →
      (c.st.slot i).state ≠ .UNUSED ∧ signalledSince i tr = true) ∧ ∀ p i d,
      (∀ pid, pid ≠ 0 → Step (tableMachine initproc) anyAction c [(p, .kill pid i)] d →
        (c.st.slot i).state ≠ .UNUSED ∧ (c.st.slot i).pid = pid ∧ (d.st.slot i).killed = true ∧
          ∀ j, j ≠ i → (d.st.slot j).killed = (c.st.slot j).killed) ∧
      (∀ pid, Step (tableMachine initproc) anyAction c [(p, .killPass pid i)] d →
        (c.st.slot i).pid ≠ pid) ∧
      (∀ pid, Step (tableMachine initproc) anyAction c [(p, .killFail pid)] d →
        passedBy p tr = (List.finRange N).map fun j => (pid, j)) ∧
      (Step (tableMachine initproc) anyAction c [(p, .alloc i)] d → (d.st.slot i).killed = false) := by
  have hH := table_holds hex
  obtain ⟨γ, hinv, -⟩ := hH.ghost
  have hz : killedZero tr = false := killedZero_eq_false hzero
  obtain ⟨hnext, hunused, hpos, hinj, hsig⟩ := hinv.pid.pids hz hcalls
  refine ⟨fun i hi => (hpos i hi).1, hinj, fun i hi => ⟨fun hu => ?_, hsig i hi⟩, fun p i d =>
    ⟨fun pid hpid hs => ?_, fun pid hs => (hH.action hs).1, fun pid hs => (hH.action hs).1,
      fun hs => ?_⟩⟩
  · simp [(hunused i hu).2] at hi
  · obtain ⟨h1, h2, h3⟩ := (hH.action hs).1
    refine ⟨fun hu => hpid ?_, h1, h2, h3⟩
    rw [← h1, (hunused i hu).1]
  · obtain ⟨h1, h2⟩ := (hH.action hs).1
    rw [h2, (hunused i h1).2]

/-- `init` forks a process and kills it by its pid. -/
theorem kill_exact_child : ∃ tr c,
    Exec (tableMachine initProc) anyAction (.idle (.init initProc)) tr c ∧
      (c.st.slot childProc).killed = true ∧ signalledSince childProc tr = true := by
  have hplay : (Config.idle (ProcTable.init initProc)).playTest (tableMachine initProc)
      ((.start initProc .fork :: List.replicate 13 (.go initProc 1)) ++
        (.start initProc (.kill 2) :: List.replicate 5 (.go initProc 0)))
      (fun tr d => (d.st.slot childProc).killed && decide (allocpidCalls tr < 2 ^ 31 - 1) &&
        tr.all fun e => match e.2 with
          | .kill pid _ => pid != 0
          | _ => true) = true := by
    decide +kernel
  obtain ⟨tr, c, hex, htest⟩ := Config.exists_of_playTest hplay
  simp only [Bool.and_eq_true, List.all_eq_true, decide_eq_true_eq] at htest
  obtain ⟨⟨hk, hcalls⟩, hzero⟩ := htest
  refine ⟨tr, c, hex, hk, ((kill_exact hex hcalls fun p i hm => ?_).2.2.1 childProc hk).2⟩
  simpa using hzero _ hm

/-- `init` calls `kill(0)`, which finds a free process and marks it.  The process that is forked into it
is marked from the start, and nobody has killed it. -/
theorem kill_marks_future_process : ∃ tr c,
    Exec (tableMachine initProc) anyAction (.idle (.init initProc)) tr c ∧
      (initProc, TableAct.kill 0 childProc) ∈ tr ∧ (c.st.slot childProc).state = .RUNNABLE ∧
      (c.st.slot childProc).killed = true ∧ signalledSince childProc tr = false := by
  have hplay : (Config.idle (ProcTable.init initProc)).playTest (tableMachine initProc)
      ((.start initProc (.kill 0) :: List.replicate 7 (.go initProc 0)) ++
        (.start initProc .fork :: List.replicate 12 (.go initProc 1)))
      (fun tr d => (tr.any fun e => e.1 == initProc && match e.2 with
          | .kill pid i => pid == 0 && i == childProc
          | _ => false) && (d.st.slot childProc).state == .RUNNABLE &&
        (d.st.slot childProc).killed && !signalledSince childProc tr) = true := by
    decide +kernel
  obtain ⟨tr, c, hex, htest⟩ := Config.exists_of_playTest hplay
  simp only [Bool.and_eq_true, List.any_eq_true, beq_iff_eq, Bool.not_eq_true'] at htest
  obtain ⟨⟨⟨⟨⟨p, l⟩, hmem, hp, hl⟩, hst⟩, hk⟩, hs⟩ := htest
  refine ⟨tr, c, hex, ?_, hst, hk, hs⟩
  cases l <;> simp at hl hp
  obtain ⟨rfl, rfl⟩ := hl
  exact hp ▸ hmem

end Xv6
