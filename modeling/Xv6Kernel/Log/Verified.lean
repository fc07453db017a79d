import Xv6Kernel.Log.InstallActions

/-!
# The machine of the buffer cache and the log keeps its invariant

The last actions of `commit` and of the recovery, the rules for the calls of the machine, and the
conclusion: the invariant holds in every configuration of every execution from boot.
-/

namespace Xv6

open Function

variable {ι : Type} [Fintype ι] [DecidableEq ι] {g : LogGeom} {strict : Prop} {p₀ p : ι}
  {x : LogGhost} {st : Stage} {lh : List ℕ} {client : Bool}
variable {η : LogHist} {s : LogSys ι} {γ : ι → LogGhost}
variable {η' : LogHist}

/-! ## The end of a commit -/

omit [Fintype ι] [DecidableEq ι] in
lemma HeadOk.nil (h : HeadOk g lh) : HeadOk g [] :=
  ⟨by simp, by simp, by simp, by have := h.len_lt; simp; omega, by simp⟩

lemma LogInv.jobStep_lh {st' : Stage} {lh' : List ℕ} (h : LogInv g p₀ strict s η γ)
    (hg : γ p = jobGhost st lh client) (hη : η'.stage = st') (hup : st'.up = st.up)
    (hpins : st'.pins lh' = st.pins lh) (hhead : HeadOk g lh')
    (hclear : st' = .cleared ∨ st' = .erased ∨ st' = .boot ∨ st' = .rcleared ∨ st' = .rerased →
      lh' = []) (hslot : SlotStage g s.disk s.buf lh' st') (hcur : η'.cur = η.cur)
    (hun : ∀ n, n ∈ st.unsynced lh → n ∈ st'.unsynced lh')
    (hstage : StageInv g s.disk lh η (DirtyBlock g fun q => (γ q).uses) →
      StageInv g s.disk lh' η' (DirtyBlock g fun q => (γ q).uses)) :
    LogInv g p₀ strict { s with log := { s.log with lh := lh' } } η'
      (update γ p (jobGhost st' lh' client)) := by
  have hj : (γ p).job = some (st, lh) := by rw [hg]; rfl
  obtain ⟨hst, hlh, -⟩ := h.ctl.job p _ hj
  dsimp only at hst hlh
  have hU : update (fun q => (γ q).uses) p (jobGhost st' lh' client).uses =
      fun q => (γ q).uses := by
    refine (congrArg _ ?_).trans (update_eq_self p fun q => (γ q).uses)
    rw [hg]
    rfl
  refine h.jobStep (by simp [hj]) hU (by rw [hg]; rfl) (by rw [hg]; rfl) (by rw [hη]; rfl)
    ⟨rfl, rfl, rfl⟩ ?_ hhead (by rw [hη, hst, hup]) (by rw [hη]; exact hclear)
    (by simp [jobGhost]) ⟨by rw [hη]; exact hslot, h.slot.clean⟩ fun hs => ?_
  · have := h.cache
    rw [hst, hlh, ← hpins] at this
    rw [hη]
    exact this
  · have hcrash := h.crash hs
    refine hcrash.restage (fun _ _ => rfl) (by rw [hη, hst, hup]) ?_ hcur hcrash.dev
      (fun _ _ h => h) (hstage (hlh ▸ hcrash.stage))
    rw [hst, hη, hlh]
    exact hun

lemma safe_clear (hhead : HeadOk g lh) :
    (logProtocol g p₀ strict).Safe p (fun _ y => y = jobGhost .cleared [] client) clearHead
      (jobGhost (.headed lh.length lh.length) lh client) := by
  refine safe_logAct (LogAct.view_of_steady steady_jobGhost (by simp) (by simp) ⟨lh, .inl rfl⟩) (by simp)
    ?_ ?_
  · intro s η γ _ s' hinv hg hfs
    cases hfs
    refine .of_same (fun _ => ⟨rfl, rfl, rfl⟩) (.of_empty ?_ (by simp)) (by simp [LogAct.stored])
    obtain ⟨hst, hlh, -⟩ := hinv.ctl.job p _ (show (γ p).job = _ by rw [hg]; rfl)
    rw [hst, hlh]
    simp [Stage.pins]
  intro s η γ r s' hinv hg _ hfs
  cases hfs
  obtain ⟨hst, -⟩ := hinv.ctl.job p _ (show (γ p).job = _ by rw [hg]; rfl)
  dsimp only at hst
  have hη : η.upd g .clear = { η with stage := .cleared } := by
    simp only [LogHist.upd, hst, Stage.next]
  refine ⟨jobGhost .cleared [] client, ?_, rfl⟩
  rw [hη]
  refine hinv.jobStep_lh hg rfl rfl (by simp [Stage.pins]) hhead.nil (by simp)
    ⟨by simp, by simp, by simp, by simp⟩ rfl (by simp [Stage.unsynced]) fun hstage => ?_
  simp only [StageInv, hst] at hstage
  obtain ⟨gs, h1, h2, h3, h4⟩ := hstage
  exact ⟨gs, lh, h1, h2, h3, h4⟩

lemma safe_clear_recovery (hhead : HeadOk g lh) :
    (logProtocol g p₀ strict).Safe p (fun _ y => y = jobGhost .rcleared [] client) clearHead
      (jobGhost (.recovering lh.length) lh client) := by
  refine safe_logAct (LogAct.view_of_steady steady_jobGhost (by simp) (by simp) ⟨lh, .inr rfl⟩) (by simp)
    ?_ ?_
  · intro s η γ _ s' hinv hg hfs
    cases hfs
    refine .of_same (fun _ => ⟨rfl, rfl, rfl⟩) (.of_empty ?_ (by simp)) (by simp [LogAct.stored])
    rw [(hinv.ctl.job p _ (show (γ p).job = _ by rw [hg]; rfl)).1]
    rfl
  intro s η γ r s' hinv hg _ hfs
  cases hfs
  obtain ⟨hst, -⟩ := hinv.ctl.job p _ (show (γ p).job = _ by rw [hg]; rfl)
  dsimp only at hst
  have hη : η.upd g .clear = { η with stage := .rcleared } := by
    simp only [LogHist.upd, hst, Stage.next]
  refine ⟨jobGhost .rcleared [] client, ?_, rfl⟩
  rw [hη]
  refine hinv.jobStep_lh hg rfl rfl (by simp [Stage.pins]) hhead.nil (by simp)
    ⟨by simp, by simp, by simp, by simp⟩ rfl (by simp [Stage.unsynced]) fun hstage => ?_
  simp only [StageInv, hst] at hstage
  obtain ⟨h1, h2, h3, h4⟩ := hstage
  exact ⟨h1, ⟨lh, h2⟩, h3, h4⟩

lemma CtlInv.endJob {log : Log} {up : Bool} {O : ι → Bool} {J : ι → Option (Stage × List ℕ)}
    (h : CtlInv g log up st O J) (hj : J p ≠ none) (hlh : log.lh = []) :
    CtlInv g { log with committing := false } true .idle O (update J p none) := by
  have hnone : ∀ q, update J p none q = none := fun q => by
    by_cases hq : q = p
    · subst hq
      exact update_self ..
    · rw [update_of_ne hq]
      by_contra hne
      exact hq (h.uniq q p hne hj)
  have hout : log.outstanding = 0 := by
    cases up with
    | true => exact h.commitOut ((h.committing rfl).mpr ⟨p, hj⟩)
    | false => exact (h.down rfl).2
  refine ⟨h.size, h.head, h.out, fun q y hy => ?_, fun q r hq => absurd (hnone q) hq, fun _ => rfl,
    fun _ => ?_, fun _ => hout, by simp, rfl, fun _ _ _ => hlh, by simp⟩
  · rw [hnone q] at hy
    cases hy
  · simp [hnone]

omit [Fintype ι] [DecidableEq ι] in
@[simp] lemma Stage.pins_nil (st : Stage) : st.pins [] = [] := by
  cases st <;> simp [Stage.pins]

omit [Fintype ι] [DecidableEq ι] in
@[simp] lemma Stage.unsynced_nil (st : Stage) : st.unsynced [] = [] := by
  cases st <;> simp [Stage.unsynced]

def clientGhost (op client : Bool) : LogGhost := ⟨fun _ => none, op, none, client⟩

lemma LogInv.endJob (h : LogInv g p₀ strict s η γ) (hg : γ p = jobGhost st [] client)
    (hη : η'.stage = .idle) (hcrash : strict → CrashInv g s.disk s.buf [] η' fun q => (γ q).uses) :
    LogInv g p₀ strict { s with log := { s.log with committing := false }, up := true } η'
      (update γ p (clientGhost false client)) := by
  have hj : (γ p).job = some (st, []) := by rw [hg]; rfl
  obtain ⟨hst, hlh, -⟩ := h.ctl.job p _ hj
  dsimp only at hst hlh
  have hU : (fun q => (update γ p (clientGhost false client) q).uses) =
      fun q => (γ q).uses := component_update_of_eq γ p LogGhost.uses (by rw [hg]; rfl)
  have hO : (fun q => (update γ p (clientGhost false client) q).op) =
      fun q => (γ q).op := component_update_of_eq γ p LogGhost.op (by rw [hg]; rfl)
  have hJ : (fun q => (update γ p (clientGhost false client) q).job) =
      update (fun q => (γ q).job) p none := component_update γ p LogGhost.job _
  have honly : ∀ q b u, (γ q).uses b = some u → (γ q).job = none := fun q b u hu => by
    by_contra hne
    have hqp : q = p := h.ctl.uniq q p hne (by simp [hj])
    rw [hqp, hg] at hu
    cases hu
  refine ⟨?_, ?_, ?_, ?_, fun _ _ => rfl, by simp, fun hs => ?_⟩
  · rw [hU, hη]
    have := h.cache
    rw [hlh, Stage.pins_nil] at this
    rw [show s.log.lh = [] from hlh, Stage.pins_nil]
    exact this
  · rw [hO, hJ, hη]
    exact h.ctl.endJob (by simp [hj]) hlh
  · rw [hU, hO, hJ]
    refine ⟨fun q b u hu ha => ?_, h.uses.dirtyDev, fun q b u hu hd ha => ?_⟩
    · exact absurd (honly q b u hu) (h.uses.area q b u hu ha).1
    · rcases h.uses.dirtyHome q b u hu hd ha with ho | hjob
      · exact .inl ho
      · exact absurd (honly q b u hu) hjob.1
  · rw [hU, hη]
    exact ⟨⟨by simp, by simp, by simp, by simp⟩, h.slot.clean⟩
  · rw [hU, show s.log.lh = [] from hlh]
    exact hcrash hs

lemma safe_endCommit (hst : st = .erased ∨ st = .logging 0) :
    (logProtocol g p₀ strict).Safe p (fun _ y => y = clientGhost false true)
      (.atomic .endCommit fun s => .done () { s with log := s.log.endCommit })
      (jobGhost st [] true) := by
  refine safe_logAct (LogAct.view_of_steady steady_jobGhost (by simp) (by simp) trivial) (by simp)
    ?_ ?_
  · intro s η γ _ s' hinv hg hfs
    cases hfs
    refine .of_same (fun _ => ⟨rfl, rfl, rfl⟩) (.of_empty ?_ (by simp)) (by simp [LogAct.stored])
    rw [(hinv.ctl.job p _ (show (γ p).job = _ by rw [hg]; rfl)).2.1, Stage.pins_nil]
  intro s η γ r s' hinv hg _ hfs
  cases hfs
  obtain ⟨hstage, hlh, -⟩ := hinv.ctl.job p _ (show (γ p).job = _ by rw [hg]; rfl)
  dsimp only at hstage hlh
  have hup : s.up = true := hinv.client p (by rw [hg]; rfl)
  have hη : η.upd g .endCommit = { η with stage := .idle, returned := η.closed } := by
    simp only [LogHist.upd, Stage.next]
    rfl
  have hs : { s with log := s.log.endCommit } =
      { s with log := { s.log with committing := false }, up := true } := by
    rw [← hup]
    rfl
  refine ⟨_, ?_, rfl⟩
  rw [hη, hs]
  refine hinv.endJob hg rfl fun hstrict => ?_
  have hcrash := hinv.crash hstrict
  rw [hlh] at hcrash
  refine hcrash.restage (fun _ _ => rfl) ?_ (by simp) rfl hcrash.dev (fun _ _ h => h) ?_
  · rcases hst with rfl | rfl <;> rw [hstage] <;> rfl
  · have hold := hcrash.stage
    rcases hst with rfl | rfl <;> simp only [StageInv, hstage] at hold
    · obtain ⟨gs, h1, h2, h3, h4⟩ := hold
      exact ⟨η.cur, gs, h1, h2, h3, by simp [LogHist.closed, h1], fun _ _ _ _ => rfl⟩
    · -- an empty group leaves the contents as they were
      obtain ⟨S, gs, h1, h2, h3, h4, h5, -⟩ := hold
      refine ⟨η.cur, S :: gs, h1, ⟨h2.head, h2.ok, by simp, fun n ha hn => ?_⟩, ?_, ?_,
        fun _ _ _ _ => rfl⟩
      · rw [h2.home n ha (by simp), h5 n ha (by simp)]
      · exact Nat.le_succ_of_le h3
      · simp [LogHist.closed, h1]

/-! ## The recovery -/

lemma safe_readHeadAct {b : Fin NBUF} :
    (logProtocol g p₀ strict).Safe p
      (fun _ y => ∃ lh, HeadOk g lh ∧
        y = (jobGhost (.recovering 0) lh client).setUse b (some (readyUse g.dev g.start)))
      (.atomic (.readHead b) fun s =>
        .done () { s with log := { s.log with lh := Log.decode (s.buf b).data } })
      ((jobGhost .boot [] client).setUse b (some (readyUse g.dev g.start))) := by
  refine safe_logAct (LogAct.view_of_steady (steady_jobGhost.setUse_some b (.inr rfl)) (by simp)
    (by simp) trivial) (by simp) ?_ ?_
  · intro s η γ _ s' hinv hg hfs
    cases hfs
    refine .of_same (fun _ => ⟨rfl, rfl, rfl⟩) (.of_empty ?_ (by simp)) (by simp [LogAct.stored])
    rw [(hinv.ctl.job p _ (show (γ p).job = _ by rw [hg]; rfl)).1]
    rfl
  intro s η γ r s' hinv hg _ hfs
  cases hfs
  have hj : (γ p).job = some (.boot, []) := by rw [hg]; rfl
  have hu : (γ p).uses b = some (readyUse g.dev g.start) := by
    rw [hg]
    exact LogGhost.setUse_uses_self ..
  obtain ⟨hst, hlh, -⟩ := hinv.ctl.job p _ hj
  dsimp only at hst hlh
  have hsize : 0 < g.size := by have := hinv.ctl.head.len_lt; omega
  have hdata : (s.buf b).data = s.disk g.start :=
    hinv.slot_data hu rfl rfl rfl (LogGeom.area_start hsize)
  have hhead : HeadOk g (Log.decode (s.buf b).data) := by
    rw [hdata]
    exact hinv.slot.boot hst
  have hη : η.upd g (.readHead b) = { η with stage := .recovering 0 } := by
    simp only [LogHist.upd, Stage.next]
  have hU : update (fun q => (γ q).uses) p
      ((jobGhost (.recovering 0) (Log.decode (s.buf b).data) client).setUse b
        (some (readyUse g.dev g.start))).uses = fun q => (γ q).uses := by
    refine (congrArg _ ?_).trans (update_eq_self p fun q => (γ q).uses)
    rw [hg]
    rfl
  refine ⟨_, ?_, Log.decode (s.buf b).data, hhead, rfl⟩
  rw [hη]
  refine hinv.jobStep (by simp [hj]) hU (by rw [hg]; rfl) (by rw [hg]; rfl) rfl ⟨rfl, rfl, rfl⟩ ?_
    hhead (by rw [hst]; rfl) (by simp) (fun c v hv => ?_) ?_ fun hstrict => ?_
  · have := hinv.cache
    rw [hst] at this
    exact this
  · left
    rw [hg]
    exact hv
  · refine ⟨⟨by simp, by simp, by simp, ?_⟩, hinv.slot.clean⟩
    rintro i ⟨⟩
    exact Nat.zero_le _
  · have hcrash := hinv.crash hstrict
    refine hcrash.restage (fun _ _ => rfl) (by rw [hst]; rfl) (fun n hn => ?_) rfl hcrash.dev
      (fun _ _ h => h) ?_
    · rw [hst] at hn
      cases hn
    · have hstage := hcrash.stage
      simp only [StageInv, hst] at hstage
      obtain ⟨h1, ⟨L, hL⟩, h3, h4⟩ := hstage
      refine ⟨h1, ?_, h3, h4⟩
      change DiskAt g s.disk η.cur (Log.decode (s.buf b).data) 0
      rw [hdata, hL.head]
      exact hL

lemma safe_ready :
    (logProtocol g p₀ strict).Safe p (fun _ y => y = clientGhost false false)
      (.atomic .ready fun s => .done () { s with up := true }) (jobGhost .rerased [] false) := by
  refine safe_logAct (LogAct.view_of_steady steady_jobGhost (by simp) (by simp) rfl) (by simp)
    ?_ ?_
  · intro s η γ _ s' hinv hg hfs
    cases hfs
    refine .of_same (fun _ => ⟨rfl, rfl, rfl⟩) (.of_empty ?_ (by simp)) (by simp [LogAct.stored])
    rw [(hinv.ctl.job p _ (show (γ p).job = _ by rw [hg]; rfl)).1]
    rfl
  intro s η γ r s' hinv hg _ hfs
  cases hfs
  have hj : (γ p).job = some (.rerased, []) := by rw [hg]; rfl
  obtain ⟨hst, hlh, -⟩ := hinv.ctl.job p _ hj
  dsimp only at hst hlh
  have hup : s.up = false := by
    rw [← hinv.ctl.stageUp, hst]
    rfl
  have hη : η.upd g .ready = { η with stage := .idle } := by
    simp only [LogHist.upd, Stage.next]
  have hs : { s with up := true } =
      { s with log := { s.log with committing := false }, up := true } := by
    rw [← (hinv.ctl.down hup).1]
  refine ⟨_, ?_, rfl⟩
  rw [hη, hs]
  refine hinv.endJob hg rfl fun hstrict => ?_
  have hcrash := hinv.crash hstrict
  rw [hlh] at hcrash
  have hstage := hcrash.stage
  simp only [StageInv, hst] at hstage
  obtain ⟨h1, h2, h3, h4⟩ := hstage
  -- no thread has changed a home block, so the cached blocks agree with the disk
  have hclean : ∀ b, (s.buf b).valid = true → (s.buf b).dev = g.dev →
      ¬ g.Area (s.buf b).blockno → (s.buf b).data = η.cur (s.buf b).blockno := by
    intro b hv hd ha
    rw [← h2.home _ ha (by simp)]
    refine hcrash.clean b hv hd ha (fun q u hu => ?_) (by simp)
    by_contra hdirty
    have hok := hinv.cache.use q b u hu
    rw [hok.blockno] at ha
    rcases hinv.uses.dirtyHome q b u hu (by simpa using hdirty) ha with ho | ⟨hjob, -⟩
    · rw [(hinv.ctl.of_op ho).2.1] at hup
      cases hup
    · have hu' : (γ q).uses b = some u := hu
      rw [hinv.ctl.uniq q p hjob (by simp [hj]), hg] at hu'
      cases hu'
  refine ⟨hcrash.dev, fun b hv hd ha hu _ => ?_, fun _ b hv hd ha => hclean b hv hd ha,
    fun _ n ha _ => h2.home n ha (by simp), ?_⟩
  · exact hcrash.clean b hv hd ha hu (by simp)
  · exact ⟨η.cur, [], h1, h2, by simp [h3], by simp [h4], fun _ _ _ _ => rfl⟩

lemma safe_commit : (logProtocol g p₀ strict).Safe p
      (fun _ y => y = jobGhost .erased [] true ∨ y = jobGhost (.logging 0) [] true)
      (commit p g) (jobGhost .idle lh true) := by
  refine safe_commitTest.seq ?_
  rintro ne y ⟨rfl, hhead, rfl⟩
  have hlen : lh.length < LOGSIZE + 1 := Nat.lt_succ_of_le hhead.len_le
  cases hempty : lh.isEmpty with
  | true =>
    rw [List.isEmpty_iff] at hempty
    rw [hempty]
    exact Protocol.safe_ret (.inr rfl)
  | false =>
    refine (safe_writeLogFrom _ 0 (Nat.zero_le _) hlen).seq ?_
    rintro - y rfl
    refine (safe_writeHead_first hhead).seq ?_
    rintro - y rfl
    refine (safe_installTransFrom _ 0 (Nat.zero_le _) hlen).seq ?_
    rintro - y rfl
    refine (safe_clear hhead).seq ?_
    rintro - y rfl
    exact (safe_writeHead_erase hhead.nil).mono fun _ y hy => .inl hy

lemma safe_endOpProg :
    (logProtocol g p₀ strict).Safe p (fun _ y => y = clientGhost false true) (endOp p g)
      (clientGhost true true) := by
  refine (safe_endOp rfl).seq ?_
  intro c y hy
  cases c with
  | false =>
    simp only [Bool.false_eq_true, if_false] at hy
    subst hy
    exact Protocol.safe_ret rfl
  | true =>
    simp only [if_true] at hy
    obtain ⟨lh, rfl⟩ := hy
    refine safe_commit.seq ?_
    rintro - y (rfl | rfl)
    · exact safe_endCommit (.inl rfl)
    · exact safe_endCommit (.inr rfl)

lemma safe_readHead (hhead : HeadOk g []) : (logProtocol g p₀ strict).Safe p
      (fun _ y => ∃ lh, HeadOk g lh ∧ y = jobGhost (.recovering 0) lh client) (readHead p g)
      (jobGhost .boot [] client) := by
  have harea : g.Area g.start := LogGeom.area_start hhead.len_lt
  refine Protocol.Safe.bind (safe_bread steady_jobGhost g.dev_ne (lt_of_lt_of_le harea.2 g.bound)
    (fun _ => ⟨by simp [jobGhost], rfl⟩) (by simp [jobGhost]) fun b _ => ?_)
  refine safe_readHeadAct.seq ?_
  rintro - y ⟨lh, hlh, rfl⟩
  refine safe_brelse (steady_jobGhost.setUse_some b (.inr rfl)) (LogGhost.setUse_uses_self ..)
    rfl rfl ⟨lh, hlh, ?_⟩
  rw [LogGhost.setUse_setUse]
  simp only [LogGhost.setUse, jobGhost, LogGhost.mk.injEq, and_true]
  exact update_eq_self_iff.mpr rfl

lemma safe_initlog (hhead : HeadOk g []) :
    (logProtocol g p₀ strict).Safe p (fun _ y => y = clientGhost false false) (initlog p g)
      (jobGhost .boot [] false) := by
  refine Protocol.Safe.seq (R := fun _ y => y = jobGhost .rerased [] false) ?_ ?_
  · refine (safe_readHead hhead).seq ?_
    rintro - y ⟨lh, hlh, rfl⟩
    have hlen : lh.length < LOGSIZE + 1 := Nat.lt_succ_of_le hlh.len_le
    refine (safe_installTransFrom_recovery _ 0 (Nat.zero_le _) hlen).seq ?_
    rintro - y rfl
    refine (safe_clear_recovery hlh).seq ?_
    rintro - y rfl
    exact safe_writeHead_rerase hhead
  · rintro - y rfl
    exact safe_ready

lemma safe_runCmds_nil {op : Bool} {cs : List Cmd} (hok : Cmd.Ok g op [] cs) :
    (logProtocol g p₀ strict).Safe p (fun _ y => y = clientGhost op true) (runCmds p cs [])
      (clientGhost op true) :=
  safe_runCmds cs hok ⟨rfl, by simp, by simp, by simp [clientGhost], rfl, rfl, rfl⟩

lemma LogInv.setClient {c : Bool} (h : LogInv g p₀ strict s η γ)
    (huses : (γ p).uses = fun _ => none) (hop : (γ p).op = false) (hjob : (γ p).job = none)
    (hclient : c = true → s.up = true) :
    LogInv g p₀ strict s η (update γ p (clientGhost false c)) := by
  have hO : update (fun q => (γ q).op) p (clientGhost false c).op =
      fun q => (γ q).op :=
    (congrArg _ hop.symm).trans (update_eq_self p fun q => (γ q).op)
  have hJ : update (fun q => (γ q).job) p (clientGhost false c).job =
      fun q => (γ q).job :=
    (congrArg _ hjob.symm).trans (update_eq_self p fun q => (γ q).job)
  exact h.of_ctl huses.symm hclient rfl (by rw [hO, hJ]; exact h.ctl) (by simp [huses])
    (by simp [clientGhost])

lemma LogInv.startRecovery (h : LogInv g p₀ strict s η γ) (hg : γ p₀ = clientGhost false false)
    (hup : s.up = false) : LogInv g p₀ strict s η (update γ p₀ (jobGhost .boot [] false)) := by
  have hnone : ∀ q, (γ q).job = none := fun q => by
    by_contra hq
    have := h.first hup q hq
    rw [this, hg] at hq
    exact hq rfl
  have hboot : η.stage = .boot := by
    rw [h.ctl.noJob hnone, hup]
    rfl
  have hlh : s.log.lh = [] := h.ctl.clear (by simp [hboot])
  have hO : update (fun q => (γ q).op) p₀ (jobGhost .boot [] false).op =
      fun q => (γ q).op := by
    refine (congrArg _ ?_).trans (update_eq_self p₀ fun q => (γ q).op)
    rw [hg]
    rfl
  have hsome : ∀ q, update (fun q => (γ q).job) p₀ (jobGhost .boot [] false).job q ≠
      none → q = p₀ := fun q hq => by
    by_contra hqp
    rw [update_of_ne hqp] at hq
    exact hq (hnone q)
  have hctl := h.ctl
  refine h.of_ctl (by rw [hg]; rfl) (by simp [jobGhost]) rfl ?_ (by simp [hg, clientGhost])
    (fun _ _ => rfl)
  rw [hO]
  refine ⟨hctl.size, hctl.head, hctl.out, fun q y hy => ?_, fun q r hq hr => ?_, fun hn => ?_,
    by simp [hup], hctl.commitOut, hctl.down, hctl.stageUp, hctl.quiet, hctl.clear⟩
  · have hq : q = p₀ := hsome q (by rw [hy]; simp)
    subst hq
    rw [update_self] at hy
    cases hy
    exact ⟨hboot, hlh, by rw [hg]; rfl⟩
  · rw [hsome q hq, hsome r hr]
  · have := hn p₀
    rw [update_self] at this
    cases this

/-- Every call on the log and the cache keeps the invariant. -/
lemma logMachine_verified (g : LogGeom) (p₀ : ι) (strict : Prop) :
    (logProtocol g p₀ strict).Verified (logMachine g p₀) := by
  refine ⟨fun s η γ p c hinv hg hready => ?_, fun s η γ p hinv hfin => ?_⟩
  · have hg' : γ p = clientGhost false false := hg
    have hinv' : LogInv g p₀ strict s η γ := hinv
    cases c with
    | initlog =>
      obtain ⟨rfl, hup⟩ := hready
      refine ⟨_, hinv'.startRecovery hg' hup, ?_⟩
      refine (safe_initlog hinv'.ctl.head.nil).mono ?_
      rintro - y rfl
      exact ⟨rfl, rfl, rfl⟩
    | transaction cs =>
      obtain ⟨hup, hok⟩ := hready
      refine ⟨_, hinv'.setClient (c := true) (by rw [hg']; rfl) (by rw [hg']; rfl)
        (by rw [hg']; rfl) (fun _ => hup), ?_⟩
      refine (safe_beginOp rfl).seq ?_
      rintro - y rfl
      refine (safe_runCmds_nil hok).seq ?_
      rintro - y rfl
      refine safe_endOpProg.mono ?_
      rintro - y rfl
      exact ⟨rfl, rfl, rfl⟩
    | access cs =>
      obtain ⟨hup, hok⟩ := hready
      refine ⟨_, hinv'.setClient (c := true) (by rw [hg']; rfl) (by rw [hg']; rfl)
        (by rw [hg']; rfl) (fun _ => hup), ?_⟩
      refine (safe_runCmds_nil hok).mono ?_
      rintro - y rfl
      exact ⟨rfl, rfl, rfl⟩
  · exact LogInv.setClient (c := false) hinv hfin.1 hfin.2.1 hfin.2.2 (by simp)

/-! ## Boot -/

omit [Fintype ι] [DecidableEq ι] in
lemma ring_foldl_pushFront {l k : List (Fin NBUF)} {L : Links (Option (Fin NBUF))}
    (h : L.Ring none (k.map some)) (hnd : (l.reverse ++ k).Nodup) :
    (l.foldl (fun L b => L.pushFront none (some b)) L).Ring none ((l.reverse ++ k).map some) := by
  induction l generalizing k L with
  | nil => exact h
  | cons b l ih =>
    rw [List.reverse_cons, List.append_assoc] at hnd ⊢
    refine ih (k := b :: k) ?_ hnd
    refine h.pushFront ?_
    have hb : b ∉ k := (List.nodup_cons.mp (List.nodup_append.mp hnd).2.1).1
    simpa using hb

omit [Fintype ι] [DecidableEq ι] in
lemma ring_binit (L : Links (Option (Fin NBUF))) :
    ∃ l : List (Fin NBUF), (LogSys.binit L).Ring none (l.map some) ∧ ∀ b, b ∈ l := by
  refine ⟨(List.finRange NBUF).reverse ++ [], ring_foldl_pushFront (Links.ring_empty L none) ?_,
    by simp⟩
  rw [List.append_nil]
  exact List.nodup_reverse.mpr (List.nodup_finRange NBUF)

section

variable {disk S : ℕ → Block} (hhead : HeadOk g (Log.decode (disk g.start)))
    (hrec : strict → Recoverable g disk S)
include hhead hrec

omit [DecidableEq ι] in
lemma LogInv.boot : LogInv g p₀ strict (LogSys.boot g disk : LogSys ι) (LogHist.init .boot S)
      fun _ => clientGhost false false := by
  refine ⟨⟨ring_binit _, ?_, by simp [clientGhost], by simp [LogSys.boot], fun b => ?_, ?_⟩, ?_,
    ⟨by simp [clientGhost], by simp [clientGhost], by simp [clientGhost]⟩, ?_, by simp [clientGhost],
    by simp [clientGhost], fun hs => ?_⟩
  · simp [LogSys.boot]
  · simp [LogSys.boot, users, clientGhost, Buf.pinned, LogHist.init, Stage.pins]
  · simp [LogHist.init, Stage.pins]
  · refine ⟨rfl, hhead.nil, by simp [LogSys.boot, clientGhost], by simp [clientGhost],
      by simp [clientGhost], fun _ => rfl, by simp [LogSys.boot], by simp [LogSys.boot],
      fun _ => ⟨rfl, rfl⟩, rfl, by simp [LogSys.boot], fun _ => rfl⟩
  · exact ⟨⟨fun _ => hhead, by simp [LogHist.init], by simp [LogHist.init],
      by simp [LogHist.init]⟩, by simp [LogSys.boot]⟩
  · exact ⟨by simp [clientGhost], by simp [LogSys.boot], by simp [LogHist.init, Stage.up],
      by simp [LogHist.init, Stage.up], rfl, hrec hs, rfl, rfl⟩

lemma log_holds {tr : List (ι × LogAct)} {c : Config (LogSys ι) LogAct ι}
    (h : Exec (logMachine g p₀) (logProtocol g p₀ strict).ok (.idle (LogSys.boot g disk)) tr c) :
    (logProtocol g p₀ strict).Holds c ((logProtocol g p₀ strict).hist (LogHist.init .boot S) tr) :=
  (logMachine_verified g p₀ strict).exec (.idle (LogInv.boot hhead hrec)) h

end

lemma headOk_zero : HeadOk smallGeom (Log.decode (Bytes.zero _)) := by
  have hdec : Log.decode (Bytes.zero _) = [] := by simp [Log.decode]
  rw [hdec]
  exact ⟨by simp, by simp, by simp, by decide, by simp⟩

end Xv6
