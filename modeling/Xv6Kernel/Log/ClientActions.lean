import Xv6Kernel.Log.CacheActions

/-!
# The clients of the buffer cache and the log

The actions of file-system calls: admission by `begin_op`, changes of locked buffers, `log_write`,
and direct writes to other devices.
-/

namespace Xv6

open Function

variable {ι : Type}
variable {b : Fin NBUF} {buf : Fin NBUF → Buf ι} {lh : List ℕ} {η : LogHist} {s : LogSys ι}
  {st : Stage} {u v : Use} {U : ι → Fin NBUF → Option Use} {γ : ι → LogGhost} {n dev : ℕ}
  {disk : ℕ → Block}
variable {d : Block} {log : Log} {s' : LogSys ι} {j : ℕ} {disk' : ℕ → Block}

/-! ## The log area -/

section

variable {g : LogGeom}

lemma LogGeom.area_start (h : 0 < g.size) : g.Area g.start :=
  ⟨le_refl _, by omega⟩

lemma LogGeom.area_slot (h : j + 1 < g.size) : g.Area (g.start + j + 1) :=
  ⟨by omega, by omega⟩

lemma HeadOk.area_slot (h : HeadOk g lh)
    (hj : lh[j]? = some n) : g.Area (g.start + j + 1) := by
  obtain ⟨hlt, -⟩ := List.getElem?_eq_some_iff.mp hj
  have := h.len_lt
  exact LogGeom.area_slot (by omega)

lemma SlotStage.congr_disk (h : SlotStage g disk buf lh st) (hlh : HeadOk g lh)
    (hd : ∀ n, g.Area n → disk' n = disk n) : SlotStage g disk' buf lh st := by
  refine ⟨fun hst => ?_, fun k hk => ⟨(h.logging k hk).1, ?_⟩,
    fun i u hi => ⟨(h.headed i u hi).1, (h.headed i u hi).2.1, (h.headed i u hi).2.2.1, ?_⟩,
    h.recovering⟩
  · rw [hd _ (LogGeom.area_start (by have := hlh.len_lt; omega))]
    exact h.boot hst
  · intro j n hj hn b hdev hno
    rw [hd _ (hlh.area_slot hn)]
    exact (h.logging k hk).2 j n hj hn b hdev hno
  · intro j n hj hn b hdev hno
    rw [hd _ (hlh.area_slot hn)]
    exact (h.headed i u hi).2.2.2 j n hj hn b hdev hno

lemma SlotInv.congr_disk (h : SlotInv g disk buf lh st U) (hlh : HeadOk g lh)
    (hd : ∀ n, g.Area n → disk' n = disk n) : SlotInv g disk' buf lh st U := by
  refine ⟨h.toSlotStage.congr_disk hlh hd, fun b hv hdev ha hu => ?_⟩
  rw [hd _ ha]
  exact h.clean b hv hdev ha hu

end

lemma CrashInv.modify [DecidableEq ι] {g : LogGeom} (h : CrashInv g disk buf lh η U)
    (hidle : η.stage = .idle) (hv : (buf b).valid = true) (hd : (buf b).dev = g.dev)
    (hn : (buf b).blockno = n) (hother : ∀ c, c ≠ b → (buf c).dev = g.dev → (buf c).blockno ≠ n)
    {p : ι} (hdirty : v.dirty = true ∧ v.dev = g.dev ∧ v.blockno = n)
    (hold : ∀ u, U p b = some u → u.blockno = n) :
    CrashInv g disk (update buf b { buf b with data := d }) lh
      { η with cur := update η.cur n d } (setUse U p b (some v)) := by
  have hnew : DirtyBlock g (setUse U p b (some v)) n :=
    ⟨p, b, v, setUse_self p b _, hdirty⟩
  refine ⟨fun q c u hu => ?_, fun c hcv hcd hca hu hun => ?_, fun hup c hcv hcd hca => ?_,
    fun hup m ha hno => ?_, ?_⟩
  · rcases setUse_cases hu with ⟨-, -, ho⟩ | ⟨-, hu'⟩
    · cases ho
      exact hdirty.2.1
    · exact h.dev q c u hu'
  · by_cases hc : c = b
    · subst hc
      have := hu p v (setUse_self p c _)
      rw [hdirty.1] at this
      cases this
    · rw [update_of_ne hc] at *
      exact h.clean c hcv hcd hca
        (fun q u hq => hu q u ((setUse_of_ne_buf hc p q _).trans hq)) hun
  · by_cases hc : c = b
    · subst hc
      rw [update_self]
      simp [hn]
    rw [update_of_ne hc] at *
    change (buf c).data = update η.cur n d (buf c).blockno
    rw [update_of_ne (hother c hc hcd)]
    exact h.cached hup c hcv hcd hca
  · have hm : m ≠ n := by
      rintro rfl
      have := hno b (by rw [update_self]; exact hd) (by rw [update_self]; exact hn)
      rw [update_self, show ({ buf b with data := d } : Buf ι).valid = true from hv] at this
      cases this
    change disk m = update η.cur n d m
    rw [update_of_ne hm]
    refine h.uncached hup m ha fun c hcd hcn => ?_
    by_cases hc : c = b
    · exact absurd (hcn.symm.trans (hc ▸ hn)) hm
    · have := hno c
      rw [update_of_ne hc] at this
      exact this hcd hcn
  · have hstage := h.stage
    simp only [StageInv, hidle] at hstage ⊢
    obtain ⟨S, gs, h1, h2, h3, h4, h5⟩ := hstage
    refine ⟨S, gs, h1, h2, h3, h4, fun m ha hm hdm => ?_⟩
    have hmn : m ≠ n := fun e => hdm (e ▸ hnew)
    rw [update_of_ne hmn]
    refine h5 m ha hm fun hd' => hdm ?_
    obtain ⟨q, c, u, hu, hud⟩ := hd'
    refine ⟨q, c, u, ?_, hud⟩
    by_cases hqc : q = p ∧ c = b
    · obtain ⟨rfl, rfl⟩ := hqc
      exact absurd (hud.2.2.symm.trans (hold u hu)) hmn
    by_cases hq : q = p
    · rw [setUse_of_ne_buf fun e => hqc ⟨hq, e⟩]
      exact hu
    · rw [setUse_of_ne hq]
      exact hu

lemma LogSys.logWrite_cases (h : s.logWrite b = .done () s') :
    s.log.lh.length < LOGSIZE ∧ s.log.lh.length < s.log.size - 1 ∧ ∃ r lh,
      s' = { s with buf := update s.buf b { s.buf b with refcnt := r },
                    log := { s.log with lh := lh } } ∧
      ((s.buf b).blockno ∈ s.log.lh ∧ lh = s.log.lh ∧ r = (s.buf b).refcnt ∨
        (s.buf b).blockno ∉ s.log.lh ∧ lh = s.log.lh ++ [(s.buf b).blockno] ∧
          r = (s.buf b).refcnt + 1) := by
  simp only [LogSys.logWrite, Log.logWrite] at h
  by_cases hbig : LOGSIZE ≤ s.log.lh.length ∨ s.log.size - 1 ≤ s.log.lh.length
  · simp only [if_pos hbig] at h
    cases h
  refine ⟨by omega, by omega, ?_⟩
  by_cases hout : s.log.outstanding < 1
  · simp only [if_neg hbig, if_pos hout] at h
    cases h
  by_cases hmem : (s.buf b).blockno ∈ s.log.lh
  · simp only [if_neg hbig, if_neg hout, if_pos hmem] at h
    cases h
    refine ⟨_, _, ?_, .inl ⟨hmem, rfl, rfl⟩⟩
    simp
  · simp only [if_neg hbig, if_neg hout, if_neg hmem] at h
    cases h
    exact ⟨_, _, rfl, .inr ⟨hmem, rfl, rfl⟩⟩

lemma LogSys.logWrite_panic {msg : String} (h : s.logWrite b = .panic msg)
    (hout : 0 < s.log.outstanding) : msg = "too big a transaction" := by
  simp only [LogSys.logWrite, Log.logWrite] at h
  split at h
  all_goals rename_i heq
  · cases h
  · cases h
    split at heq
    · cases heq
      rfl
    · split at heq
      · omega
      · split at heq <;> cases heq
  · cases h

lemma CrashInv.logWrite [DecidableEq ι] {g : LogGeom} {lh' : List ℕ}
    (h : CrashInv g disk buf lh η U) (hidle : η.stage = .idle) {p : ι} {r : ℕ} (hu : U p b = some u)
    (hno : (buf b).blockno = u.blockno) (hv : v.dev = u.dev ∧ v.blockno = u.blockno)
    (hsub : ∀ n ∈ lh, n ∈ lh') (hmem : u.blockno ∈ lh') :
    CrashInv g disk (update buf b { buf b with refcnt := r }) lh' η
      (setUse U p b (some v)) := by
  have hpins : ∀ lh, η.stage.unsynced lh = lh := fun lh => by rw [hidle]; rfl
  refine ⟨fun q c w hw => ?_, fun c hcv hcd hca hw hun => ?_, fun hup c hcv hcd hca => ?_,
    fun hup m ha hm => h.uncached hup m ha fun c hcd hcn => ?_, ?_⟩
  · rcases setUse_cases hw with ⟨-, -, ho⟩ | ⟨-, hw'⟩
    · cases ho
      rw [hv.1]
      exact h.dev p b u hu
    · exact h.dev q c w hw'
  · rw [hpins] at hun
    by_cases hc : c = b
    · subst hc
      rw [update_self] at hun
      exact absurd (hno ▸ hmem) hun
    rw [update_of_ne hc] at *
    refine h.clean c hcv hcd hca
      (fun q w hq => hw q w ((setUse_of_ne_buf hc p q _).trans hq)) ?_
    rw [hpins]
    exact fun hn => hun (hsub _ hn)
  · by_cases hc : c = b
    · subst hc
      rw [update_self] at *
      exact h.cached hup c hcv hcd hca
    · rw [update_of_ne hc] at *
      exact h.cached hup c hcv hcd hca
  · have := hm c
    by_cases hc : c = b
    · subst hc
      rw [update_self] at this
      exact this hcd hcn
    · rw [update_of_ne hc] at this
      exact this hcd hcn
  · have hstage := h.stage
    simp only [StageInv, hidle] at hstage ⊢
    obtain ⟨S, gs, h1, h2, h3, h4, h5⟩ := hstage
    refine ⟨S, gs, h1, h2, h3, h4, fun m ha hm hdm => h5 m ha (fun hn => hm (hsub m hn)) ?_⟩
    rintro ⟨q, c, w, hw, hwd⟩
    have hne : ¬ (q = p ∧ c = b) := by
      rintro ⟨rfl, rfl⟩
      cases hu.symm.trans hw
      exact hm (hwd.2.2 ▸ hmem)
    refine hdm ⟨q, c, w, ?_, hwd⟩
    by_cases hq : q = p
    · rw [setUse_of_ne_buf fun e => hne ⟨hq, e⟩]
      exact hw
    · rw [setUse_of_ne hq]
      exact hw

section Actions

variable [Fintype ι] {g : LogGeom} {strict : Prop} {p₀ p : ι} {x : LogGhost}

lemma CtlInv.of_op {up : Bool} {O : ι → Bool} {J : ι → Option (Stage × List ℕ)}
    (h : CtlInv g log up st O J) (hp : O p = true) :
    st = .idle ∧ up = true ∧ log.committing = false ∧ 0 < log.outstanding ∧ ∀ q, J q = none := by
  have hout : 0 < log.outstanding := by
    rw [h.out]
    have hle : (O p).toNat ≤ ∑ q, (O q).toNat :=
      Finset.single_le_sum (f := fun q => (O q).toNat) (fun _ _ => Nat.zero_le _)
        (Finset.mem_univ p)
    rw [hp] at hle
    exact hle
  have hup : up = true := by
    by_contra hup
    have := (h.down (by simpa using hup)).2
    omega
  have hcom : log.committing = false := by
    by_contra hcom
    have := h.commitOut (by simpa using hcom)
    omega
  have hjob : ∀ q, J q = none := fun q => by
    by_contra hq
    rw [(h.committing hup).mpr ⟨q, hq⟩] at hcom
    cases hcom
  refine ⟨?_, hup, hcom, hout, hjob⟩
  rw [h.noJob hjob, hup, if_pos rfl]

variable [DecidableEq ι]

/-- The invariant when the acting thread keeps its uses and its standing, and neither the buffers
nor the disk change. -/
lemma LogInv.of_ctl (h : LogInv g p₀ strict s η γ) {y : LogGhost} (huses : y.uses = (γ p).uses)
    (hclient : y.client = true → s.up = true) (hlh : log.lh = s.log.lh)
    (hctl : CtlInv g log s.up η.stage (update (fun q => (γ q).op) p y.op)
      (update (fun q => (γ q).job) p y.job))
    (hop : ∀ b u, (γ p).uses b = some u → u.Allowed g η.stage y.op y.job)
    (hfirst : s.up = false → y.job ≠ none → p = p₀) :
    LogInv g p₀ strict { s with log := log } η (update γ p y) := by
  have hU := component_update_of_eq γ p LogGhost.uses huses
  refine ⟨?_, ?_, ?_, ?_, fun q hq => ?_, fun hup q hq => ?_, fun hs => ?_⟩
  · rw [hU, hlh]
    exact h.cache
  · rw [component_update γ p LogGhost.op, component_update γ p LogGhost.job]
    exact hctl
  · rw [hU, component_update γ p LogGhost.op, component_update γ p LogGhost.job]
    have hall : ∀ q b u, (γ q).uses b = some u →
        u.Allowed g η.stage (update (fun q => (γ q).op) p y.op q)
          (update (fun q => (γ q).job) p y.job q) := by
      intro q b u hu
      by_cases hq : q = p
      · subst hq
        rw [update_self, update_self]
        exact hop b u hu
      · rw [update_of_ne hq, update_of_ne hq]
        exact h.uses.allowed hu
    exact ⟨fun q b u hu => (hall q b u hu).area, fun q b u hu => (hall q b u hu).dirtyDev,
      fun q b u hu => (hall q b u hu).dirtyHome⟩
  · rw [hU]
    exact hlh ▸ h.slot
  · by_cases hqp : q = p
    · subst hqp
      exact hclient (by simpa using hq)
    · exact h.client q (by simpa [hqp] using hq)
  · by_cases hqp : q = p
    · subst hqp
      exact hfirst hup (by simpa using hq)
    · exact h.first hup q (by simpa [hqp] using hq)
  · rw [hU]
    exact hlh ▸ h.crash hs

lemma safe_beginOp (hx : x = ⟨fun _ => none, false, none, true⟩) :
    (logProtocol g p₀ strict).Safe p (fun _ y => y = ⟨fun _ => none, true, none, true⟩) beginOp x := by
  subst hx
  refine safe_neutral rfl
    (LogAct.view_of_steady (by simp [LogGhost.Steady]) (by simp) (by simp) trivial) ?_ ?_ ?_
  · intro s η γ msg _ _ hf
    simp only [LogSys.onLog, Log.beginOp] at hf
    split at hf
    all_goals rename_i heq
    · cases hf
    · split at heq <;> cases heq
    · cases hf
  · intro s η γ _ s' _ _ hf
    simp only [LogSys.onLog, Log.beginOp] at hf
    by_cases hadm : s.log.admits = true
    · simp only [hadm, if_true] at hf
      cases hf
      exact .of_same (fun _ => ⟨rfl, rfl, rfl⟩) (.of_neutral rfl rfl)
        (by simp [LogAct.stored])
    · simp only [hadm, Bool.false_eq_true, if_false] at hf
      cases hf
  · intro s η γ _ s' hinv hg _ hf
    simp only [LogSys.onLog, Log.beginOp] at hf
    by_cases hadm : s.log.admits = true
    swap
    · simp only [hadm, Bool.false_eq_true, if_false] at hf
      cases hf
    simp only [hadm, if_true] at hf
    cases hf
    have hcom : s.log.committing = false := by
      simp only [Log.admits, Bool.and_eq_true, Bool.not_eq_true'] at hadm
      exact hadm.1
    have hup : s.up = true := hinv.client p (by rw [hg])
    have hctl := hinv.ctl
    refine ⟨_, hinv.of_ctl (by rw [hg]) (fun _ => hup) rfl ?_ (by simp [hg]) (by simp), rfl⟩
    have hsum := sum_update_add Bool.toNat (fun q => (γ q).op) p true
    rw [hg] at hsum
    have hjobs : update (fun q => (γ q).job) p none = fun q => (γ q).job := by
      have : none = (γ p).job := by rw [hg]
      rw [this]
      exact update_eq_self p fun q => (γ q).job
    rw [hjobs]
    refine ⟨hctl.size, hctl.head, ?_, fun q y hy => ?_, hctl.uniq, hctl.noJob, hctl.committing,
      by simp [hcom], by simp [hup], hctl.stageUp, by simp, hctl.clear⟩
    · have := hctl.out
      simp only [Bool.toNat_false, Bool.toNat_true] at hsum
      dsimp only at this ⊢
      omega
    · have := (hctl.committing hup).mpr ⟨q, by rw [hy]; simp⟩
      rw [hcom] at this
      cases this

def changedUse (g : LogGeom) (dev n : ℕ) : Use := ⟨dev, n, .ready, decide (dev = g.dev), none⟩

section

variable (h : LogInv g p₀ strict s η γ) (hu : (γ p).uses b = some u) (hst : u.st = .ready)
include h hu hst

lemma LogInv.modify_other (hdev : u.dev ≠ g.dev) (d : Block) : LogInv g p₀ strict (s.setData b d) η
      (update γ p ((γ p).setUse b (some (changedUse g u.dev u.blockno)))) := by
  have hok := h.cache.use p b u hu
  have hal := h.uses.allowed hu
  have hlock := hok.lock (.inr hst)
  have hne : (s.buf b).dev ≠ g.dev := by rw [hok.dev]; exact hdev
  refine h.change (h.cache.setUse hu rfl rfl rfl id ?_ (by simp [hlock])
    (by simp [hlock, changedUse])) ?_ ?_ ?_ ?_ ?_ ?_ ?_
  · exact ⟨hok.dev, hok.dev_ne, hok.blockno, hok.blockno_lt, fun _ => hlock,
      fun _ => hok.valid hst, by simp [changedUse], by simp [changedUse]⟩
  · rintro v ⟨⟩
    exact ⟨hal.area, by simp [changedUse], by simp [changedUse, hdev]⟩
  · intro v hv hvd
    rw [hu] at hv
    cases hv
    exact absurd (hal.dirtyDev hvd) hdev
  · exact fun _ hd => absurd hd hne
  · exact fun _ hd => absurd hd hne
  · exact fun hs => absurd ((h.crash hs).dev p b u hu) hdev
  · exact fun _ _ _ hd => absurd hd hne
  · exact fun _ _ _ hd => absurd hd hne

lemma LogInv.modify (hdev : u.dev = g.dev) (hop : (γ p).op = true) (d : Block) :
    LogInv g p₀ strict (s.setData b d) { η with cur := update η.cur u.blockno d }
      (update γ p ((γ p).setUse b (some (changedUse g u.dev u.blockno)))) := by
  have hok := h.cache.use p b u hu
  have hal := h.uses.allowed hu
  have hlock := hok.lock (.inr hst)
  have hvalid := hok.valid hst
  obtain ⟨hidle, -, -, -, hjob⟩ := h.ctl.of_op hop
  have hother : ∀ c, c ≠ b → (s.buf c).dev = g.dev → (s.buf c).blockno ≠ u.blockno :=
    fun c hc hd hn => hc (h.cache.uniq b c (by rw [hok.dev]; exact hok.dev_ne)
      (by rw [hd, hok.dev, hdev]) (by rw [hn, hok.blockno]))
  refine ⟨?_, ?_, ?_, ?_, fun q hq => ?_, fun hup q hq => ?_, fun hs => ?_⟩
  · rw [uses_update_setUse]
    refine h.cache.setUse hu rfl rfl rfl id ?_ (by simp [hlock]) (by simp [hlock, changedUse])
    exact ⟨hok.dev, hok.dev_ne, hok.blockno, hok.blockno_lt, fun _ => hlock,
      fun _ => hvalid, by simp [changedUse], by simp [changedUse]⟩
  · rw [op_update_setUse, job_update_setUse]
    exact h.ctl
  · rw [uses_update_setUse, op_update_setUse, job_update_setUse]
    refine h.uses.setUse ?_
    rintro v ⟨⟩
    exact ⟨hal.area, fun _ => hdev, fun _ _ => .inl hop⟩
  · rw [uses_update_setUse]
    refine h.slot.change (fun q c hc => setUse_of_ne_buf hc p q _) (fun _ _ _ hund => ?_)
      (by simp [hidle, Stage.copying])
    have := hund p _ (setUse_self p b _)
    simp [changedUse, hdev] at this
  · refine h.client q ?_
    rw [← congrFun (client_update_setUse γ p b _) q]
    exact hq
  · exact absurd (congrFun (job_update_setUse γ p b _) q) (by rw [hjob q]; exact hq)
  · rw [uses_update_setUse]
    refine (h.crash hs).modify (v := changedUse g u.dev u.blockno) hidle hvalid
      (hok.dev.trans hdev) hok.blockno hother ⟨decide_eq_true hdev, hdev, rfl⟩ fun v hv => ?_
    cases hu.symm.trans hv
    rfl

lemma LogInv.logWrite (hdev : u.dev = g.dev) (hop : (γ p).op = true)
    (hf : s.logWrite b = .done () s') : LogInv g p₀ strict s' η
      (update γ p ((γ p).setUse b (some (readyUse u.dev u.blockno)))) := by
  have hok := h.cache.use p b u hu
  have hlock := hok.lock (.inr hst)
  have hvalid := hok.valid hst
  obtain ⟨hidle, hup, -, hout, hjob⟩ := h.ctl.of_op hop
  have harea : ¬ g.Area u.blockno := fun ha => (h.uses.area p b u hu ha).1 (hjob p)
  obtain ⟨hlen, hlen', r, lh, rfl, hcase⟩ := LogSys.logWrite_cases hf
  have hpins : ∀ lh, η.stage.pins lh = lh := fun lh => by rw [hidle]; rfl
  have hhead : HeadOk g lh ∧ (∀ n ∈ s.log.lh, n ∈ lh) ∧ u.blockno ∈ lh := by
    have hold := h.ctl.head
    rcases hcase with ⟨hmem, rfl, -⟩ | ⟨hmem, rfl, -⟩
    · exact ⟨hold, fun n hn => hn, hok.blockno ▸ hmem⟩
    rw [hok.blockno] at hmem ⊢
    refine ⟨⟨?_, ?_, ?_, ?_, ?_⟩, fun n hn => List.mem_append_left _ hn, by simp⟩
    · rw [List.nodup_append]
      refine ⟨hold.nodup, by simp, fun a ha c hc => ?_⟩
      rw [List.mem_singleton.mp hc]
      exact fun e => hmem (e ▸ ha)
    · intro n hn
      rcases List.mem_append.mp hn with hn | hn
      · exact hold.area n hn
      · rw [List.mem_singleton.mp hn]
        exact harea
    · intro n hn
      rcases List.mem_append.mp hn with hn | hn
      · exact hold.lt n hn
      · rw [List.mem_singleton.mp hn]
        exact hok.blockno_lt
    · have := h.ctl.size
      simp only [List.length_append, List.length_singleton]
      omega
    · simp only [List.length_append, List.length_singleton]
      omega
  refine ⟨?_, ?_, ?_, ?_, fun q hq => ?_, fun hup' => ?_, fun hs => ?_⟩
  · rw [uses_update_setUse, hpins]
    have hcache := h.cache
    rw [hpins] at hcache
    have hpin : CacheInv g (update s.buf b { s.buf b with refcnt := r }) s.links lh
        fun q => (γ q).uses := by
      rcases hcase with ⟨-, rfl, rfl⟩ | ⟨hmem, rfl, rfl⟩
      · simpa using hcache
      · exact hcache.pin (hok.dev.trans hdev) hvalid hmem
    have hset := hpin.setUse (x := { s.buf b with refcnt := r }) (p := p) (b := b) (u := u)
      (v := readyUse u.dev u.blockno) hu
    rw [update_self, update_idem] at hset
    refine hset rfl rfl rfl id ?_ (by simp [hlock]) (by simp [hlock, readyUse])
    exact ⟨hok.dev, hok.dev_ne, hok.blockno, hok.blockno_lt, fun _ => hlock, fun _ => hvalid,
      by simp [readyUse], by simp [readyUse]⟩
  · rw [op_update_setUse, job_update_setUse]
    have hctl := h.ctl
    refine ⟨hctl.size, hhead.1, hctl.out, fun q y hy => ?_, hctl.uniq, hctl.noJob,
      hctl.committing, hctl.commitOut, hctl.down, hctl.stageUp, fun _ h0 => ?_, ?_⟩
    · rw [hjob q] at hy
      cases hy
    · exact absurd h0 (by dsimp only; omega)
    · simp [hidle]
  · rw [uses_update_setUse, op_update_setUse, job_update_setUse]
    refine h.uses.setUse ?_
    rintro v ⟨⟩
    exact ⟨fun ha => absurd ha harea, by simp [readyUse], by simp [readyUse]⟩
  · rw [uses_update_setUse]
    have hslot : SlotInv g s.disk (update s.buf b { s.buf b with refcnt := r }) s.log.lh
        η.stage (setUse (fun q => (γ q).uses) p b (some (readyUse u.dev u.blockno))) :=
      h.slot.change (fun q c hc => setUse_of_ne_buf hc p q _)
      (fun _ _ ha => absurd (hok.blockno ▸ ha) harea) (by simp [hidle, Stage.copying])
    rw [hidle] at hslot ⊢
    exact ⟨⟨by simp, by simp, by simp, by simp⟩, hslot.clean⟩
  · refine h.client q ?_
    rw [← congrFun (client_update_setUse γ p b _) q]
    exact hq
  · exact absurd hup (by simp [show s.up = false from hup'])
  · rw [uses_update_setUse]
    exact (h.crash hs).logWrite hidle hu hok.blockno ⟨rfl, rfl⟩ hhead.2.1 hhead.2.2

end

omit [DecidableEq ι] in
lemma LogInv.bwrite (h : LogInv g p₀ strict s η γ) (hu : (γ p).uses b = some u)
    (hdev : u.dev ≠ g.dev) : LogInv g p₀ strict (s.diskWrite b) η γ := by
  have hok := h.cache.use p b u hu
  refine ⟨h.cache, h.ctl, h.uses, h.slot.congr_disk h.ctl.head fun n ha => ?_, h.client, h.first,
    fun hs => absurd ((h.crash hs).dev p b u hu) hdev⟩
  refine update_of_ne ?_ _ _
  rintro rfl
  rw [hok.blockno] at ha
  exact hdev (h.uses.area p b u hu ha).2

/-! ### Commands -/

omit [Fintype ι] [DecidableEq ι] in
lemma Stage.next_modify (st : Stage) (dev n : ℕ) (b : Fin NBUF) (d : Block) :
    st.next (.modify dev n b d) = st := by
  cases st <;> rfl

section

variable (hx : x.Steady) (hu : x.uses b = some u) (hst : u.st = .ready)
include hx hu hst

lemma safe_modify (hop : u.dev = g.dev → x.op = true) : (logProtocol g p₀ strict).Safe p
      (fun _ y => y = x.setUse b (some (changedUse g u.dev u.blockno)))
      (.atomic (.modify u.dev u.blockno b d) fun s => .done () (s.setData b d)) x := by
  refine safe_logAct (LogAct.view_of_steady hx (by simp) (by simp) trivial) (by simp) ?_ ?_
  · intro s η γ _ s' _ _ hf
    cases hf
    have hnext := Stage.next_modify η.stage u.dev u.blockno b d
    refine .of_setBuf rfl rfl rfl (fun _ => (if_pos rfl).symm)
      (.of_same (fun n hn => ?_) ?_ (by simp)) (fun c => ⟨by simp, fun hc _ => if_neg hc.symm⟩)
      (by simp)
    · rw [hnext]
      exact hn
    · rw [hnext]
      rfl
  rintro s η γ _ s' hinv rfl - hf
  cases hf
  refine ⟨_, ?_, rfl⟩
  have hnext := Stage.next_modify η.stage u.dev u.blockno b d
  by_cases hdev : u.dev = g.dev
  · have hη : η.upd g (.modify u.dev u.blockno b d) =
        { η with cur := update η.cur u.blockno d } := by
      simp only [LogHist.upd, hnext, if_pos hdev]
    rw [hη]
    exact hinv.modify hu hst hdev (hop hdev) d
  have hη : η.upd g (.modify u.dev u.blockno b d) = η := by
    simp only [LogHist.upd, hnext, if_neg hdev]
  rw [hη]
  exact hinv.modify_other hu hst hdev d

lemma safe_logWrite (hdev : u.dev = g.dev) (hop : x.op = true) : (logProtocol g p₀ strict).Safe p
      (fun _ y => y = x.setUse b (some (readyUse u.dev u.blockno))) (logWrite b) x := by
  refine safe_neutral rfl (LogAct.view_of_steady hx (by simp) (by simp) trivial) ?_ ?_ ?_
  · rintro s η γ msg hinv rfl hf
    exact .inr (LogSys.logWrite_panic hf (hinv.ctl.of_op hop).2.2.2.1)
  · rintro s η γ _ s' hinv rfl hf
    obtain ⟨-, -, r, lh, rfl, hlh⟩ := LogSys.logWrite_cases hf
    have hst := (hinv.ctl.of_op hop).1
    refine .of_setBuf rfl rfl rfl (fun _ => rfl) (.of_same (fun n hn => ?_) ?_ (by simp))
      (by simp [LogAct.stored]) fun c hc => ?_
    · rw [Stage.next_of_neutral rfl, hst] at *
      rcases hlh with ⟨-, rfl, -⟩ | ⟨-, rfl, -⟩
      · exact hn
      · exact List.mem_append_left _ hn
    · rw [Stage.next_of_neutral rfl, hst]
      rfl
    · cases hc
      have hmem : (s.buf b).blockno ∈ lh := by
        rcases hlh with ⟨hmem, rfl, -⟩ | ⟨-, rfl, -⟩
        · exact hmem
        · simp
      have hdev : (s.buf b).dev = g.dev := (hinv.cache.use p b u hu).dev.trans hdev
      rw [Stage.next_of_neutral rfl, hst]
      simp [Buf.pinned, Stage.pins, Stage.written, hdev, hmem]
  · rintro s η γ _ s' hinv rfl - hf
    exact ⟨_, hinv.logWrite hu hst hdev hop hf, rfl⟩

lemma safe_bwrite (hdev : u.dev ≠ g.dev) :
    (logProtocol g p₀ strict).Safe p (fun _ y => y = x) (bwrite p (.bwrite b) b) x := by
  refine safe_neutral rfl (LogAct.view_of_steady hx (by simp) (by simp) trivial) ?_ ?_ ?_
  · rintro s η γ msg hinv rfl hf
    have hlock := (hinv.cache.use p b u hu).lock (.inr hst)
    simp only [LogSys.bwrite, hlock, if_true] at hf
    cases hf
  · intro s η γ _ s' _ _ hf
    simp only [LogSys.bwrite] at hf
    split at hf <;> cases hf
    exact .of_same (fun _ => ⟨rfl, rfl, rfl⟩) (.of_neutral rfl rfl)
      (by simp [LogAct.stored])
  · rintro s η γ _ s' hinv rfl - hf
    have hlock := (hinv.cache.use p b u hu).lock (.inr hst)
    simp only [LogSys.bwrite, hlock, if_true] at hf
    cases hf
    refine ⟨γ p, ?_, rfl⟩
    rw [update_eq_self]
    exact hinv.bwrite hu hdev

end

structure Holding (g : LogGeom) (op : Bool) (env : Held) (held : List ((ℕ × ℕ) × Bool))
    (x : LogGhost) : Prop where
  keys : env.map Prod.fst = held.map Prod.fst
  nodup : (held.map Prod.fst).Nodup
  use : ∀ k b, (k, b) ∈ env → ∃ u, x.uses b = some u ∧ (u.dev, u.blockno) = k ∧ u.st = .ready ∧
    (u.dirty = true → u.dev = g.dev ∧ (k, true) ∈ held)
  only : ∀ b u, x.uses b = some u → ((u.dev, u.blockno), b) ∈ env
  op : x.op = op
  job : x.job = none
  client : x.client = true

namespace Holding

variable {op : Bool} {env : Held} {held : List ((ℕ × ℕ) × Bool)}

section

variable (h : Holding g op env held x)
include h

lemma steady : x.Steady := by
  intro b u hu
  obtain ⟨v, hv, -, hst, -⟩ := h.use _ b (h.only b u hu)
  cases hu.symm.trans hv
  exact .inr hst

lemma lookup {k : ℕ × ℕ} (hk : k ∈ held.map Prod.fst) :
    ∃ b, env.lookup k = some b ∧ (k, b) ∈ env := by
  rw [← h.keys] at hk
  cases hb : env.lookup k with
  | none =>
    rw [List.lookup_eq_none_iff] at hb
    obtain ⟨e, he, rfl⟩ := List.mem_map.mp hk
    simpa using hb e he
  | some b =>
    obtain ⟨l1, l2, rfl, -⟩ := List.lookup_eq_some_iff.mp hb
    exact ⟨b, rfl, by simp⟩

lemma use_of_mem (hb : ((dev, n), b) ∈ env) : ∃ u, x.uses b = some u ∧ u.dev = dev ∧ u.blockno = n ∧
      u.st = .ready ∧ (u.dirty = true → u.dev = g.dev ∧ ((dev, n), true) ∈ held) := by
  obtain ⟨u, hu, hk, hst, hd⟩ := h.use _ b hb
  rw [Prod.mk.injEq] at hk
  exact ⟨u, hu, hk.1, hk.2, hst, hd⟩

lemma add (hb : x.uses b = none) (hk : (dev, n) ∉ held.map Prod.fst) :
    Holding g op (((dev, n), b) :: env) (((dev, n), false) :: held)
      (x.setUse b (some (readyUse dev n))) := by
  have hfresh : ∀ k c, (k, c) ∈ env → c ≠ b := by
    rintro k c hc rfl
    obtain ⟨u, hu, -⟩ := h.use k c hc
    rw [hb] at hu
    cases hu
  refine ⟨by simp [h.keys], ?_, fun k c hc => ?_, fun c u hu => ?_, h.op, h.job, h.client⟩
  · rw [List.map_cons, List.nodup_cons]
    exact ⟨hk, h.nodup⟩
  · rcases List.mem_cons.mp hc with hc | hc
    · cases hc
      exact ⟨_, x.setUse_uses_self b _, rfl, rfl, by simp [readyUse]⟩
    obtain ⟨u, hu, huk, hst, hd⟩ := h.use k c hc
    refine ⟨u, ?_, huk, hst, fun hdu => ⟨(hd hdu).1, List.mem_cons_of_mem _ (hd hdu).2⟩⟩
    rw [x.setUse_uses_of_ne (hfresh k c hc)]
    exact hu
  · by_cases hc : c = b
    · subst hc
      rw [x.setUse_uses_self] at hu
      cases hu
      exact List.mem_cons_self
    · rw [x.setUse_uses_of_ne hc] at hu
      exact List.mem_cons_of_mem _ (h.only c u hu)

lemma mark (hb : ((dev, n), b) ∈ env) (f : Bool)
    (hdev : v.dev = dev) (hn : v.blockno = n) (hst : v.st = .ready)
    (hdirty : v.dirty = true → dev = g.dev ∧ f = true) :
    Holding g op env (held.map fun e => if e.1 = (dev, n) then (e.1, f) else e)
      (x.setUse b (some v)) := by
  have hfst : (held.map fun e => if e.1 = (dev, n) then (e.1, f) else e).map Prod.fst =
      held.map Prod.fst := by
    rw [List.map_map]
    refine List.map_congr_left fun e _ => ?_
    simp only [Function.comp_apply]
    split <;> rfl
  obtain ⟨u, hu, hud, hun, -⟩ := h.use_of_mem hb
  refine ⟨by rw [hfst, h.keys], by rw [hfst]; exact h.nodup, fun k c hc => ?_, fun c w hw => ?_,
    h.op, h.job, h.client⟩
  · obtain ⟨w, hw, hwk, hwst, hwd⟩ := h.use k c hc
    by_cases hcb : c = b
    · subst hcb
      have hkey : k = (dev, n) := by
        cases hu.symm.trans hw
        rw [← hwk, hud, hun]
      refine ⟨v, x.setUse_uses_self c _, by rw [hkey, hdev, hn], hst, fun hd => ?_⟩
      refine ⟨hdev.trans (hdirty hd).1, ?_⟩
      have hmem : k ∈ held.map Prod.fst := by
        rw [← h.keys]
        exact List.mem_map_of_mem (f := Prod.fst) hc
      obtain ⟨e, he, hek⟩ := List.mem_map.mp hmem
      refine List.mem_map.mpr ⟨e, he, ?_⟩
      rw [hek, if_pos hkey, (hdirty hd).2]
    · refine ⟨w, by rw [x.setUse_uses_of_ne hcb]; exact hw, hwk, hwst, fun hd => ?_⟩
      refine ⟨(hwd hd).1, List.mem_map.mpr ⟨(k, true), (hwd hd).2, ?_⟩⟩
      have hkey : k ≠ (dev, n) := by
        rintro rfl
        have hnd : (env.map Prod.fst).Nodup := by rw [h.keys]; exact h.nodup
        have := List.inj_on_of_nodup_map hnd hc hb rfl
        exact hcb (Prod.mk.inj this).2
      rw [if_neg hkey]
  · by_cases hcb : c = b
    · subst hcb
      rw [x.setUse_uses_self] at hw
      cases hw
      rw [hdev, hn]
      exact hb
    · rw [x.setUse_uses_of_ne hcb] at hw
      exact h.only c w hw

lemma remove (hb : ((dev, n), b) ∈ env) :
    Holding g op (env.filter fun e => e.1 ≠ (dev, n)) (held.filter fun e => e.1 ≠ (dev, n))
      (x.setUse b none) := by
  obtain ⟨u, hu, hud, hun, -⟩ := h.use_of_mem hb
  have hfilter : ∀ {β : Type} (l : List ((ℕ × ℕ) × β)),
      (l.filter fun e => e.1 ≠ (dev, n)).map Prod.fst =
        (l.map Prod.fst).filter fun k => k ≠ (dev, n) := fun l => by
    rw [List.filter_map]
    rfl
  refine ⟨by rw [hfilter, hfilter, h.keys], by rw [hfilter]; exact h.nodup.filter _,
    fun k c hc => ?_, fun c w hw => ?_, h.op, h.job, h.client⟩
  · simp only [List.mem_filter, decide_eq_true_eq] at hc
    obtain ⟨w, hw, hwk, hst, hd⟩ := h.use k c hc.1
    have hcb : c ≠ b := by
      rintro rfl
      cases hu.symm.trans hw
      exact hc.2 (by rw [← hwk, hud, hun])
    refine ⟨w, by rw [x.setUse_uses_of_ne hcb]; exact hw, hwk, hst, fun hdw => ⟨(hd hdw).1, ?_⟩⟩
    simp only [List.mem_filter, decide_eq_true_eq]
    exact ⟨(hd hdw).2, hc.2⟩
  · have hcb : c ≠ b := by
      rintro rfl
      rw [x.setUse_uses_self] at hw
      cases hw
    rw [x.setUse_uses_of_ne hcb] at hw
    simp only [List.mem_filter, decide_eq_true_eq]
    refine ⟨h.only c w hw, fun hk => hcb ?_⟩
    have hnd : (env.map Prod.fst).Nodup := by rw [h.keys]; exact h.nodup
    have := List.inj_on_of_nodup_map hnd (h.only c w hw) hb hk
    exact (Prod.mk.inj this).2

end

end Holding

lemma safe_runCmds {op : Bool} (cs : List Cmd) {env : Held} {held : List ((ℕ × ℕ) × Bool)}
    (hok : Cmd.Ok g op held cs) (hx : Holding g op env held x) :
    (logProtocol g p₀ strict).Safe p (fun _ y => y = ⟨fun _ => none, op, none, true⟩)
      (runCmds p cs env) x := by
  induction cs generalizing env held x with
  | nil =>
    have huses : ∀ b, x.uses b = none := fun b => by
      cases hb : x.uses b with
      | none => rfl
      | some u =>
        have hmem := List.mem_map_of_mem (f := Prod.fst) (hx.only b u hb)
        rw [hx.keys, show held = [] from hok] at hmem
        cases hmem
    obtain ⟨uses, op', job, client⟩ := x
    obtain ⟨-, -, -, -, rfl, rfl, rfl⟩ := hx
    exact congrArg (fun f => LogGhost.mk f op' none true) (funext huses)
  | cons c cs ih =>
    cases c with
    | bread dev n =>
      obtain ⟨hdev, hn, harea, hk, hcs⟩ := hok
      refine Protocol.Safe.bind (safe_bread hx.steady hdev hn (fun ha => absurd ha harea) ?_ ?_)
      · rintro b u hu rfl rfl
        have := List.mem_map_of_mem (f := Prod.fst) (hx.only b u hu)
        rw [hx.keys] at this
        exact hk this
      · exact fun b hb => ih hcs (hx.add hb hk)
    | modify dev n d =>
      obtain ⟨hk, hop, hcs⟩ := hok
      obtain ⟨b, hlookup, hmem⟩ := hx.lookup hk
      obtain ⟨u, hu, rfl, rfl, hst, -⟩ := hx.use_of_mem hmem
      simp only [runCmds, hlookup]
      refine (safe_modify hx.steady hu hst fun hd => hx.op.trans (hop hd)).seq ?_
      rintro - y rfl
      exact ih hcs (hx.mark hmem true rfl rfl rfl (by simp [changedUse]))
    | logWrite dev n =>
      obtain ⟨hk, hdev, hop, hcs⟩ := hok
      obtain ⟨b, hlookup, hmem⟩ := hx.lookup hk
      obtain ⟨u, hu, rfl, rfl, hst, -⟩ := hx.use_of_mem hmem
      simp only [runCmds, hlookup]
      refine (safe_logWrite hx.steady hu hst hdev (hx.op.trans hop)).seq ?_
      rintro - y rfl
      exact ih hcs (hx.mark hmem false rfl rfl rfl (by simp [readyUse]))
    | bwrite dev n =>
      obtain ⟨hk, hdev, hcs⟩ := hok
      obtain ⟨b, hlookup, hmem⟩ := hx.lookup hk
      obtain ⟨u, hu, rfl, rfl, hst, -⟩ := hx.use_of_mem hmem
      simp only [runCmds, hlookup]
      refine (safe_bwrite hx.steady hu hst hdev).seq ?_
      rintro - y rfl
      exact ih hcs hx
    | brelse dev n =>
      obtain ⟨hk, hclean, hcs⟩ := hok
      obtain ⟨b, hlookup, hmem⟩ := hx.lookup hk
      obtain ⟨u, hu, rfl, rfl, hst, hd⟩ := hx.use_of_mem hmem
      have hdirty : u.dirty = false := by
        by_contra hdu
        obtain ⟨hdev, htrue⟩ := hd (by simpa using hdu)
        have := List.inj_on_of_nodup_map hx.nodup htrue (hclean hdev) rfl
        cases this
      simp only [runCmds, hlookup]
      refine Protocol.Safe.bind (safe_brelse hx.steady hu hst hdirty ?_)
      exact ih hcs (hx.remove hmem)

end Actions

end Xv6
