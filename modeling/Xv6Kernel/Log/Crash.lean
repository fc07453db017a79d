import Xv6Kernel.Log.Verified

/-!
# Crash atomicity of the log

A crash keeps the disk and nothing else: the machine boots again on the disk as it was.  `Recovers`
relates the disk at the crash to the disk once `initlog` has completed, with any number of further
crashes during the recovery.
-/

namespace Xv6

variable {ι : Type} [DecidableEq ι]
variable {c : Config (LogSys ι) LogAct ι} {tr : List (ι × LogAct)} {d S : ℕ → Block}

def LogHist.run (g : LogGeom) (S : ℕ → Block) (tr : List (ι × LogAct)) : LogHist :=
  tr.foldl (fun η e => η.upd g e.2) (LogHist.init .boot S)

/-- The contents after each number of groups of transactions, starting with those at boot. -/
def LogHist.states (η : LogHist) : List (ℕ → Block) := η.groups.reverse

def OnLogDev (g : LogGeom) : LogSys ι → ι → LogAct → Prop :=
  fun _ _ l => ∀ dev n, l = .bget dev n → dev = g.dev

/-- Booting on the disk `d` leads, after any number of crashes before the end of the recovery, to
the disk `d'` at the end of the recovery. -/
inductive Recovers (g : LogGeom) (p₀ : ι) : (ℕ → Block) → (ℕ → Block) → Prop where
  | done {d : ℕ → Block} {tr : List (ι × LogAct)} {c e : Config (LogSys ι) LogAct ι} {p : ι}
      (h : Exec (logMachine g p₀) (OnLogDev g) (.idle (LogSys.boot g d)) tr c)
      (hs : Step (logMachine g p₀) (OnLogDev g) c [(p, .ready)] e) : Recovers g p₀ d e.st.disk
  | crash {d d' : ℕ → Block} {tr : List (ι × LogAct)} {c : Config (LogSys ι) LogAct ι}
      (h : Exec (logMachine g p₀) (OnLogDev g) (.idle (LogSys.boot g d)) tr c)
      (hup : c.st.up = false) (h' : Recovers g p₀ c.st.disk d') : Recovers g p₀ d d'

/-! ## Histories -/

omit [DecidableEq ι] in
lemma LogHist.run_groups_getLast? (g : LogGeom) (S : ℕ → Block) (tr : List (ι × LogAct)) :
    (LogHist.run g S tr).groups.getLast? = some S := by
  have hupd : ∀ (η : LogHist) (l : LogAct), η.groups.getLast? = some S →
      (η.upd g l).groups.getLast? = some S := by
    intro η l hη
    cases l
    case commit =>
      have hcons : (η.upd g .commit).groups = η.cur :: η.groups := rfl
      rw [hcons, List.getLast?_cons, hη]
      rfl
    case modify dev n b d =>
      simp only [LogHist.upd]
      split <;> exact hη
    case writeHead first b => cases first <;> exact hη
    all_goals exact hη
  have hfold : ∀ (tr : List (ι × LogAct)) (η : LogHist), η.groups.getLast? = some S →
      (tr.foldl (fun η e => η.upd g e.2) η).groups.getLast? = some S := by
    intro tr
    induction tr with
    | nil => exact fun η hη => hη
    | cons e tr ih => exact fun η hη => ih _ (hupd η e.2 hη)
  exact hfold tr _ rfl

lemma DiskAt.recoverable {g : LogGeom} {L : List ℕ} {i : ℕ}
    (h : DiskAt g d S L i) : Recoverable g d S :=
  ⟨L, h.head, h.ok, h.slot, fun n ha hn => h.home n ha fun hm => hn (List.mem_of_mem_drop hm)⟩

lemma Recoverable.headOk {g : LogGeom} (h : Recoverable g d S) :
    HeadOk g (Log.decode (d g.start)) := by
  obtain ⟨L, hL⟩ := h
  rw [hL.head]
  exact hL.ok

variable [Fintype ι] {g : LogGeom} {p₀ : ι}

omit [DecidableEq ι] in
lemma logProtocol_ok (g : LogGeom) (p₀ : ι) : (logProtocol g p₀ True).ok = OnLogDev g := by
  funext s p l
  simp [logProtocol, OnLogDev]

section

variable (hd : Recoverable g d S) (h : Exec (logMachine g p₀) (OnLogDev g)
    (.idle (LogSys.boot g d)) tr c)
include hd h

lemma holds_of_recoverable : (logProtocol g p₀ True).Holds c (LogHist.run g S tr) := by
  refine log_holds hd.headOk (fun _ => hd) ?_
  rw [logProtocol_ok]
  exact h

lemma recoverable_of_down (hup : c.st.up = false) : Recoverable g c.st.disk S := by
  obtain ⟨⟨γ, hinv, -⟩, -⟩ := holds_of_recoverable hd h
  have hlast := LogHist.run_groups_getLast? g S tr
  have hst : (LogHist.run g S tr).stage.up = false := hinv.ctl.stageUp.trans hup
  have hstage := (hinv.crash trivial).stage
  have hcur : ∀ (η : LogHist), η.groups = [η.cur] → η.groups.getLast? = some S → η.cur = S := by
    intro η h1 h2
    rw [h1] at h2
    exact Option.some.inj h2
  simp only [StageInv] at hstage
  split at hstage
  all_goals rename_i heq
  all_goals rw [heq] at hst
  all_goals try cases hst
  · rw [← hcur _ hstage.1 hlast]
    exact hstage.2.1
  · rw [← hcur _ hstage.1 hlast]
    exact hstage.2.1.recoverable
  · rw [← hcur _ hstage.1 hlast]
    obtain ⟨L, hL⟩ := hstage.2.1
    exact hL.recoverable
  · rw [← hcur _ hstage.1 hlast]
    exact hstage.2.1.recoverable

end

lemma Recovers.eq {d' : ℕ → Block} (h : Recovers g p₀ d d') (hd : Recoverable g d S) :
    DiskAt g d' S [] 0 := by
  induction h with
  | done h hs =>
    rename_i d tr c e p
    have hholds := holds_of_recoverable hd h
    have hexec : Exec (logMachine g p₀) (OnLogDev g) (.idle (LogSys.boot g d))
        (tr ++ [(p, .ready)]) e := .snoc h hs
    obtain ⟨⟨γ', hinv', -⟩, -⟩ := holds_of_recoverable hd hexec
    rw [← logProtocol_ok g p₀] at hs
    obtain ⟨-, γ, hinv, hview⟩ := hholds.action hs
    have hjob : (γ p).job = some (.rerased, []) := hview.job
    have hst : (LogHist.run g S tr).stage = .rerased := (hinv.ctl.job p _ hjob).1
    have hlast := LogHist.run_groups_getLast? g S tr
    have hbefore := (hinv.crash trivial).stage
    simp only [StageInv, hst] at hbefore
    have hrun : LogHist.run g S (tr ++ [(p, .ready)]) =
        { LogHist.run g S tr with stage := .idle } := by
      rw [LogHist.run, List.foldl_append]
      rfl
    have hafter := (hinv'.crash trivial).stage
    rw [hrun] at hafter
    simp only [StageInv] at hafter
    obtain ⟨S', gs, h1, h2, -⟩ := hafter
    rw [hbefore.1] at h1 hlast
    cases h1
    rw [show (LogHist.run g S tr).cur = S from Option.some.inj hlast] at h2
    exact h2
  | crash h hup _ ih => exact ih (recoverable_of_down hd h hup)

lemma recoverable_state (hd : Recoverable g d S)
    (h : Exec (logMachine g p₀) (OnLogDev g) (.idle (LogSys.boot g d)) tr c) :
    ∃ k S', k ≤ (LogHist.run g S tr).closed ∧ (LogHist.run g S tr).closed ≤ k + 1 ∧
      (LogHist.run g S tr).durable ≤ k ∧ (LogHist.run g S tr).returned ≤ k ∧
      (LogHist.run g S tr).states[k]? = some S' ∧ Recoverable g c.st.disk S' := by
  obtain ⟨⟨γ, hinv, -⟩, -⟩ := holds_of_recoverable hd h
  have hstage := (hinv.crash trivial).stage
  generalize LogHist.run g S tr = η at hstage
  have hget : ∀ S' gs, η.groups = S' :: gs → η.states[gs.length]? = some S' := by
    intro S' gs hgs
    rw [LogHist.states, hgs, List.reverse_cons]
    simp
  have hlen : ∀ S' gs, η.groups = S' :: gs → η.closed = gs.length := by
    intro S' gs hgs
    rw [LogHist.closed, hgs]
    rfl
  have hlast : ∀ S' gs, η.groups = S' :: gs → Recoverable g c.st.disk S' →
      η.durable ≤ gs.length → η.returned ≤ gs.length →
      ∃ k S', k ≤ η.closed ∧ η.closed ≤ k + 1 ∧ η.durable ≤ k ∧ η.returned ≤ k ∧
        η.states[k]? = some S' ∧ Recoverable g c.st.disk S' := fun S' gs h1 h2 h3 h4 =>
    ⟨gs.length, S', by rw [hlen S' gs h1], by rw [hlen S' gs h1]; omega, h3, h4, hget S' gs h1, h2⟩
  simp only [StageInv] at hstage
  split at hstage
  · obtain ⟨S', gs, h1, h2, h3, h4, -⟩ := hstage
    exact hlast S' gs h1 h2.recoverable h3 h4
  · -- the group that is being logged is not on disk yet
    obtain ⟨S', gs, h1, h2, h3, h4, -⟩ := hstage
    refine ⟨gs.length, S', ?_, ?_, h3, h4, ?_, h2.recoverable⟩
    · rw [hlen _ _ h1]
      simp
    · rw [hlen _ _ h1]
      simp
    · rw [LogHist.states, h1, List.reverse_cons, List.reverse_cons]
      simp
  · obtain ⟨gs, h1, h2, h3, h4⟩ := hstage
    exact hlast _ gs h1 h2.recoverable h3 h4
  · obtain ⟨gs, L, h1, h2, h3, h4⟩ := hstage
    exact hlast _ gs h1 h2.recoverable h3 h4
  · obtain ⟨gs, h1, h2, h3, h4⟩ := hstage
    exact hlast _ gs h1 h2.recoverable h3 h4
  · obtain ⟨h1, h2, h3, h4⟩ := hstage
    exact hlast _ [] h1 h2 (by simp [h3]) (by simp [h4])
  · obtain ⟨h1, h2, h3, h4⟩ := hstage
    exact hlast _ [] h1 h2.recoverable (by simp [h3]) (by simp [h4])
  · obtain ⟨h1, ⟨L, h2⟩, h3, h4⟩ := hstage
    exact hlast _ [] h1 h2.recoverable (by simp [h3]) (by simp [h4])
  · obtain ⟨h1, h2, h3, h4⟩ := hstage
    exact hlast _ [] h1 h2.recoverable (by simp [h3]) (by simp [h4])

/-- Crash atomicity.  Take any run from boot on a disk that recovers to `S`, a crash at any point of
it and a completed recovery, itself interrupted by any number of crashes.  Then the blocks outside
of the log area are those after some number `k` of groups of transactions: all closed groups but
possibly the last one, with every group whose header reached the disk and every group whose
`commit` returned; and the log is empty. -/
theorem crash_atomicity {d S d' : ℕ → Block} (hd : Recoverable g d S) {tr : List (ι × LogAct)}
    {c : Config (LogSys ι) LogAct ι}
    (hrun : Exec (logMachine g p₀) (OnLogDev g) (.idle (LogSys.boot g d)) tr c)
    (hrec : Recovers g p₀ c.st.disk d') :
    ∃ k S', k ≤ (LogHist.run g S tr).closed ∧ (LogHist.run g S tr).closed ≤ k + 1 ∧
      (LogHist.run g S tr).durable ≤ k ∧ (LogHist.run g S tr).returned ≤ k ∧
      (LogHist.run g S tr).states[k]? = some S' ∧ (∀ n, ¬ g.Area n → d' n = S' n) ∧
      Log.decode (d' g.start) = [] := by
  obtain ⟨k, S', h1, h2, h3, h4, h5, h6⟩ := recoverable_state hd hrun
  have hdisk := hrec.eq h6
  exact ⟨k, S', h1, h2, h3, h4, h5, fun n ha => hdisk.home n ha (by simp), hdisk.head⟩

section Example

def recoverOneBlock : List (Move (Fin 1) LogCall) :=
  .start proc .initlog :: List.replicate 28 (.go proc 0)

def LogAct.onDev (g : LogGeom) : LogAct → Bool
  | .bget dev _ => dev == g.dev
  | _ => true

def staysOnDev (tr : List (Fin 1 × LogAct)) (c : Config (LogSys (Fin 1)) LogAct (Fin 1)) : Bool :=
  c.panicked.isNone && tr.all fun e => e.2.onDev smallGeom

def endsReady (c : Config (LogSys (Fin 1)) LogAct (Fin 1)) : Bool :=
  match c.move (logMachine smallGeom proc) (.go proc 0) with
  | some (t, e) => decide (t = [(proc, .ready)]) && e.panicked.isNone
  | none => false

lemma onLogDev_of_staysOnDev {tr : List (Fin 1 × LogAct)}
    {c : Config (LogSys (Fin 1)) LogAct (Fin 1)} (h : staysOnDev tr c = true) :
    c.panicked = none ∧ ∀ e ∈ tr, ∀ s : LogSys (Fin 1), OnLogDev smallGeom s e.1 e.2 := by
  simp only [staysOnDev, Bool.and_eq_true, Option.isNone_iff_eq_none, List.all_eq_true] at h
  refine ⟨h.1, fun e he s dev n hl => ?_⟩
  have := h.2 e he
  rw [hl] at this
  simpa [LogAct.onDev] using this

lemma exists_ready_step {c : Config (LogSys (Fin 1)) LogAct (Fin 1)} (h : endsReady c = true) :
    ∃ e, Step (logMachine smallGeom proc) (OnLogDev smallGeom) c [(proc, .ready)] e := by
  unfold endsReady at h
  split at h
  · rename_i t e hmove
    simp only [Bool.and_eq_true, decide_eq_true_eq, Option.isNone_iff_eq_none] at h
    obtain ⟨rfl, hp⟩ := h
    refine ⟨e, (Step.of_move hmove).restrict hp fun x hx dev n hl => ?_⟩
    rw [List.mem_singleton.mp hx] at hl
    cases hl
  · cases h

/-- On the disk `d`: a transaction commits, the machine crashes before its block is installed, and a
recovery is completed. -/
def crashTest (d : ℕ → Block) : Bool :=
  (bootOn d).playTest (logMachine smallGeom proc) (changeBlock 29) fun tr c =>
    staysOnDev tr c && decide ((LogHist.run smallGeom d tr).durable = 1) &&
      (bootOn c.st.disk).playTest (logMachine smallGeom proc) recoverOneBlock
        fun tr' c' => staysOnDev tr' c' && endsReady c'

lemma exists_of_crashTest {d : ℕ → Block} (h : crashTest d = true) : ∃ tr c d',
    Exec (logMachine smallGeom proc) (OnLogDev smallGeom) (.idle (LogSys.boot smallGeom d)) tr c ∧
      (LogHist.run smallGeom d tr).durable = 1 ∧ Recovers smallGeom proc c.st.disk d' := by
  obtain ⟨tr, c, hexec, htest⟩ := Config.exists_of_playTest h
  simp only [Bool.and_eq_true, decide_eq_true_eq] at htest
  obtain ⟨⟨hdev, hdurable⟩, hrec⟩ := htest
  obtain ⟨tr', c', hexec', htest'⟩ := Config.exists_of_playTest hrec
  rw [Bool.and_eq_true] at htest'
  obtain ⟨e, hready⟩ := exists_ready_step htest'.2
  have h := onLogDev_of_staysOnDev hdev
  have h' := onLogDev_of_staysOnDev htest'.1
  exact ⟨tr, c, e.st.disk, hexec.restrict h.1 h.2, hdurable,
    .done (hexec'.restrict h'.1 h'.2) hready⟩

theorem crash_atomicity_logged_group : ∃ (tr : List (Fin 1 × LogAct)) (d' : ℕ → Block),
    (LogHist.run smallGeom (fun _ => Bytes.zero _) tr).durable = 1 ∧
    ∃ k S', k ≤ (LogHist.run smallGeom (fun _ => Bytes.zero _) tr).closed ∧
      (LogHist.run smallGeom (fun _ => Bytes.zero _) tr).closed ≤ k + 1 ∧
      (LogHist.run smallGeom (fun _ => Bytes.zero _) tr).durable ≤ k ∧
      (LogHist.run smallGeom (fun _ => Bytes.zero _) tr).returned ≤ k ∧
      (LogHist.run smallGeom (fun _ => Bytes.zero _) tr).states[k]? = some S' ∧
      (∀ n, ¬ smallGeom.Area n → d' n = S' n) ∧ Log.decode (d' smallGeom.start) = [] := by
  obtain ⟨tr, c, d', hrun, hdurable, hrec⟩ :=
    exists_of_crashTest (d := fun _ => Bytes.zero _) (by decide +kernel)
  refine ⟨tr, d', hdurable, crash_atomicity ?_ hrun hrec⟩
  exact ⟨_, rfl, headOk_zero, by simp [Log.decode], fun _ _ _ => rfl⟩

end Example

end Xv6
