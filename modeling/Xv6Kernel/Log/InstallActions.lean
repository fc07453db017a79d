import Xv6Kernel.Log.CommitActions

/-!
# The header, `install_trans` and the recovery

The remaining actions of `commit` and `recover_from_log`: the header block is written and read,
committed blocks are installed and unpinned, and the in-memory header is emptied.
-/

namespace Xv6

open Function

variable {ι : Type} [Fintype ι] [DecidableEq ι] {g : LogGeom} {strict : Prop} {p₀ p : ι}
  {x : LogGhost} {st : Stage} {lh : List ℕ} {client : Bool}
variable {d : Block} {first : Bool} {b : Fin NBUF} {st' : Stage} {u : Use}

/-! ## The header block -/

lemma safe_fillHead (hhead : HeadOk g lh) : (logProtocol g p₀ strict).Safe p
      (fun _ y => ∃ d, Log.decode d = lh ∧
        y = (jobGhost st lh client).setUse b (some (knownUse g.dev g.start true d)))
      (.atomic (.fillHead b) fun s => .done () (s.setData b (Log.encode s.log.lh (s.buf b).data)))
      ((jobGhost st lh client).setUse b (some (readyUse g.dev g.start))) := by
  refine safe_neutral rfl (LogAct.view_of_steady (steady_jobGhost.setUse_some b (.inr rfl))
    (by simp) (by simp) trivial) (by simp) ?_ ?_
  · intro s η γ _ s' hinv hg hfs
    cases hfs
    refine .of_setBuf rfl rfl rfl (fun hp => absurd hp ?_)
      (.of_neutral rfl rfl) (by simp [LogAct.stored]) (by simp)
    exact hinv.not_pinned (p := p) (u := readyUse g.dev g.start) (by rw [hg]; rfl)
      (by rw [hg]; exact LogGhost.setUse_uses_self ..) rfl
      (.inl (LogGeom.area_start (by have := hhead.len_lt; omega)))
  intro s η γ r s' hinv hg _ hfs
  cases hfs
  have hj : (γ p).job = some (st, lh) := by rw [hg]; rfl
  have hb : (γ p).uses b = some (readyUse g.dev g.start) := by
    rw [hg]
    exact LogGhost.setUse_uses_self ..
  have hlh : s.log.lh = lh := (hinv.ctl.job p _ hj).2.1
  refine ⟨_, ?_, _, Log.decode_encode hhead.len_le hhead.lt (s.buf b).data, rfl⟩
  have hstep := hinv.setData hj hb (.inl (LogGeom.area_start (by have := hhead.len_lt; omega)))
    (Log.encode lh (s.buf b).data)
  rw [hlh]
  rw [hg, LogGhost.setUse_setUse] at hstep
  exact hstep

lemma safe_writeHeadAct (hd : Log.decode d = lh) (hhead : HeadOk g lh) (hup : st'.up = st.up)
    (hnext : st.next (.writeHead first b) = st') (hpins : st'.pins lh = st.pins lh)
    (hwritten : st'.written lh = st.written lh)
    (hun : ∀ n, n ∈ st.unsynced lh → n ∈ st'.unsynced lh)
    (hclear : st' = .cleared ∨ st' = .erased ∨ st' = .boot ∨ st' = .rcleared ∨ st' = .rerased →
      lh = [])
    (hslot : ∀ (buf : Fin NBUF → Buf ι) (disk disk' : ℕ → Block), SlotStage g disk buf lh st →
      (∀ n, n ≠ g.start → disk' n = disk n) → SlotStage g disk' buf lh st')
    (hstage : ∀ (disk disk' : ℕ → Block) (η : LogHist) (dirty dirty' : ℕ → Prop), η.stage = st →
      StageInv g disk lh η dirty → (∀ n, n ≠ g.start → disk' n = disk n) →
      Log.decode (disk' g.start) = lh → StageInv g disk' lh (η.upd g (.writeHead first b)) dirty') :
    (logProtocol g p₀ strict).Safe p
      (fun _ y => y = (jobGhost st' lh client).setUse b (some (readyUse g.dev g.start)))
      (bwrite p (.writeHead first b) b)
      ((jobGhost st lh client).setUse b (some (knownUse g.dev g.start true d))) := by
  have hu : ((jobGhost st lh client).setUse b (some (knownUse g.dev g.start true d))).uses b =
      some (knownUse g.dev g.start true d) := LogGhost.setUse_uses_self ..
  refine safe_logAct (LogAct.view_of_steady (steady_jobGhost.setUse_some b (.inr rfl)) (by simp)
    (by simp) trivial) (fun s η γ msg hinv hg hfs => ?_)
    (fun s η γ _ s' hinv hg hfs => .of_bwrite hfs (fun s' hs => ?_) (by simp [LogAct.stored]))
    fun s η γ r s' hinv hg _ hfs => ?_
  · rw [hinv.bwrite_eq (hg ▸ hu) rfl] at hfs
    cases hfs
  · obtain ⟨hst, hlh, -⟩ := hinv.ctl.job p _ (show (γ p).job = some (st, lh) by rw [hg]; rfl)
    rw [show η.stage = st from hst]
    refine .of_same (fun n hn => ?_) ?_ (by simp)
    · rw [hnext, hs, show s.log.lh = lh from hlh, hpins]
      rw [show s.log.lh = lh from hlh] at hn
      exact hn
    · rw [hnext, hs, show s.log.lh = lh from hlh, hwritten]
  rw [← hg] at hu
  rw [hinv.bwrite_eq hu rfl] at hfs
  cases hfs
  have hj : (γ p).job = some (st, lh) := by rw [hg]; rfl
  obtain ⟨hst, hlh, -⟩ := hinv.ctl.job p _ hj
  dsimp only at hst hlh
  have hok := hinv.cache.use p b _ hu
  have hno : (s.buf b).blockno = g.start := hok.blockno
  have harea : g.Area g.start := LogGeom.area_start (by have := hhead.len_lt; omega)
  have hstage' : (η.upd g (.writeHead first b)).stage = st' := by
    rw [← hnext, ← hst]
    cases first <;> rfl
  have hcur : (η.upd g (.writeHead first b)).cur = η.cur := by
    cases first <;> rfl
  have hdisk : ∀ n, n ≠ g.start → (s.diskWrite b).disk n = s.disk n := fun n hn =>
    s.diskWrite_disk_of_ne hno hn
  have hdisk' : Log.decode ((s.diskWrite b).disk g.start) = lh := by
    rw [s.diskWrite_disk_self hno, (hok.known d rfl).2]
    exact hd
  have hU : update (fun q => (γ q).uses) p
      ((jobGhost st' lh client).setUse b (some (readyUse g.dev g.start))).uses =
      setUse (fun q => (γ q).uses) p b (some (readyUse g.dev g.start)) := by
    rw [setUse]
    congr 1
    rw [hg]
    exact (update_idem ..).symm
  refine ⟨_, ?_, rfl⟩
  refine hinv.jobStep (by simp [hj]) hU (by rw [hg]; rfl) (by rw [hg]; rfl)
    (by rw [hstage', show (s.diskWrite b).log.lh = lh from hlh]; rfl) ⟨rfl, rfl, rfl⟩ ?_
    hinv.ctl.head (by rw [hstage', hst, hup]) ?_ ?_ ?_ fun hstrict => ?_
  · have := hinv.cache_settle hu rfl
    rw [hst, hlh, ← hpins, ← hstage', ← show (s.diskWrite b).log.lh = lh from hlh] at this
    exact this
  · rw [hstage', show (s.diskWrite b).log.lh = lh from hlh]
    exact hclear
  · intro c v hv
    rcases LogGhost.setUse_uses_cases hv with ⟨-, ho⟩ | ⟨-, hv'⟩
    · cases ho
      exact .inr ⟨rfl, rfl⟩
    · cases hv'
  · refine ⟨?_, hinv.slot.clean_diskWrite hok.dev (fun c hc => hinv.buf_unique hok.dev hc) _⟩
    rw [hstage', show (s.diskWrite b).log.lh = lh from hlh]
    refine hslot s.buf s.disk _ ?_ hdisk
    have := hinv.slot.toSlotStage
    rwa [hst, hlh] at this
  · have hcrash := hinv.crash hstrict
    refine hcrash.restage (fun n hn => hdisk n fun e => hn (e ▸ harea)) (by rw [hstage', hst, hup])
      ?_ hcur (fun q c u hu => ?_) (fun c hc hu => ?_) ?_
    · rw [hstage', hst, hlh, show (s.diskWrite b).log.lh = lh from hlh]
      exact hun
    · rcases setUse_cases hu with ⟨-, -, ho⟩ | ⟨-, hu'⟩
      · cases ho
        rfl
      · exact hcrash.dev q c u hu'
    · have hcb : c ≠ b := by
        rintro rfl
        rw [hno] at hc
        exact hc harea
      exact fun q u hq => hu q u ((setUse_of_ne_buf hcb p q _).trans hq)
    · have := hcrash.stage
      rw [show (s.diskWrite b).log.lh = lh from hlh]
      rw [hlh] at this
      exact hstage s.disk _ η _ _ hst this hdisk hdisk'

lemma DiskAt.erase {d d' S : ℕ → Block} {L : List ℕ} (h : DiskAt g d S L L.length)
    (hd : ∀ n, n ≠ g.start → d' n = d n) (hd' : Log.decode (d' g.start) = [])
    (hsize : 0 < g.size) : DiskAt g d' S [] 0 := by
  refine ⟨hd', ⟨by simp, by simp, by simp, by simpa using hsize, by simp⟩, by simp,
    fun n hn _ => ?_⟩
  have hne : n ≠ g.start := fun e => hn (e ▸ LogGeom.area_start hsize)
  rw [hd n hne]
  exact h.home n hn (by simp)

lemma safe_writeHead_of (hhead : HeadOk g lh)
    (hact : ∀ b d, Log.decode d = lh → (logProtocol g p₀ strict).Safe p
      (fun _ y => y = (jobGhost st' lh client).setUse b (some (readyUse g.dev g.start)))
      (bwrite p (.writeHead first b) b)
      ((jobGhost st lh client).setUse b (some (knownUse g.dev g.start true d)))) :
    (logProtocol g p₀ strict).Safe p (fun _ y => y = jobGhost st' lh client)
      (writeHead p g first) (jobGhost st lh client) := by
  have harea : g.Area g.start := LogGeom.area_start (by have := hhead.len_lt; omega)
  refine Protocol.Safe.bind (safe_bread steady_jobGhost g.dev_ne (lt_of_lt_of_le harea.2 g.bound)
    (fun _ => ⟨by simp [jobGhost], rfl⟩) (by simp [jobGhost]) fun b _ => ?_)
  refine (safe_fillHead hhead).seq ?_
  rintro - y ⟨d, hd, rfl⟩
  refine (hact b d hd).seq ?_
  rintro - y rfl
  refine safe_brelse (steady_jobGhost.setUse_some b (.inr rfl)) (LogGhost.setUse_uses_self ..)
    rfl rfl ?_
  rw [LogGhost.setUse_setUse]
  simp only [LogGhost.setUse, jobGhost, LogGhost.mk.injEq, and_true]
  exact update_eq_self_iff.mpr rfl

lemma safe_writeHead_first (hhead : HeadOk g lh) :
    (logProtocol g p₀ strict).Safe p (fun _ y => y = jobGhost (.headed 0 0) lh client)
      (writeHead p g true) (jobGhost (.logging lh.length) lh client) := by
  refine safe_writeHead_of hhead fun b d hd => safe_writeHeadAct hd hhead rfl rfl rfl rfl
    (fun n hn => hn) (by simp) (fun buf disk disk' h hdisk => ?_)
    (fun disk disk' η dirty dirty' hst h hdisk hdec => ?_)
  · refine ⟨by simp, by simp, ?_, by simp⟩
    rintro i u ⟨⟩
    refine ⟨le_refl _, by omega, Nat.zero_le _, fun j n _ hn c hcd hcn => ?_⟩
    rw [hdisk _ (by omega)]
    exact (h.logging _ rfl).2 j n (List.getElem?_eq_some_iff.mp hn).1 hn c hcd hcn
  · have hη : η.upd g (.writeHead true b) =
        { η with stage := .headed 0 0, durable := η.closed } := by
      simp only [LogHist.upd, Stage.next]
      rfl
    simp only [StageInv, hst] at h
    obtain ⟨S, gs, h1, h2, h3, h4, h5, h6⟩ := h
    have hsize : 0 < g.size := by have := hhead.len_lt; omega
    rw [hη]
    refine ⟨S :: gs, h1, ⟨hdec, hhead, fun j n hn => ?_, fun n ha hn => ?_⟩, ?_, ?_⟩
    · rw [hdisk _ (by omega)]
      exact h6 j n (List.getElem?_eq_some_iff.mp hn).1 hn
    · have hne : n ≠ g.start := fun e => ha (e ▸ LogGeom.area_start hsize)
      rw [hdisk n hne, h2.home n ha (by simp)]
      exact (h5 n ha (by simpa using hn)).symm
    · simp [LogHist.closed, h1]
    · simp only [List.length_cons]
      omega

lemma safe_writeHead_erase (hhead : HeadOk g []) :
    (logProtocol g p₀ strict).Safe p (fun _ y => y = jobGhost .erased [] client)
      (writeHead p g false) (jobGhost .cleared [] client) := by
  refine safe_writeHead_of hhead fun b d hd => safe_writeHeadAct hd hhead rfl rfl rfl rfl
    (fun n hn => hn) (by simp) (fun buf disk disk' h hdisk => ⟨by simp, by simp, by simp, by simp⟩)
    (fun disk disk' η dirty dirty' hst h hdisk hdec => ?_)
  have hη : η.upd g (.writeHead false b) = { η with stage := .erased } := by
    simp only [LogHist.upd, hst, Stage.next]
  simp only [StageInv, hst] at h
  obtain ⟨gs, L, h1, h2, h3, h4⟩ := h
  rw [hη]
  exact ⟨gs, h1, h2.erase hdisk hdec hhead.len_lt, h3, h4⟩

lemma safe_writeHead_rerase (hhead : HeadOk g []) :
    (logProtocol g p₀ strict).Safe p (fun _ y => y = jobGhost .rerased [] client)
      (writeHead p g false) (jobGhost .rcleared [] client) := by
  refine safe_writeHead_of hhead fun b d hd => safe_writeHeadAct hd hhead rfl rfl rfl rfl
    (fun n hn => hn) (by simp) (fun buf disk disk' h hdisk => ⟨by simp, by simp, by simp, by simp⟩)
    (fun disk disk' η dirty dirty' hst h hdisk hdec => ?_)
  have hη : η.upd g (.writeHead false b) = { η with stage := .rerased } := by
    simp only [LogHist.upd, hst, Stage.next]
  simp only [StageInv, hst] at h
  obtain ⟨h1, ⟨L, h2⟩, h3, h4⟩ := h
  rw [hη]
  exact ⟨h1, h2.erase hdisk hdec hhead.len_lt, h3, h4⟩

/-! ## Installing the blocks of a commit -/

section Install

variable {s : LogSys ι} {η : LogHist} {γ : ι → LogGhost} {t f : Fin NBUF} {i m : ℕ}

omit [DecidableEq ι] in
lemma LogInv.undirty_of_holder (h : LogInv g p₀ strict s η γ) (hu : (γ p).uses t = some u)
    (hst : u.st = .ready) (hclean : u.dirty = false) : Undirty (fun q => (γ q).uses) t := by
  intro q v hv
  by_contra hd
  have hok := h.cache.use q t v hv
  have hlock := hok.lock (.inr (hok.dirty (by simpa using hd)))
  rw [(h.cache.use p t u hu).lock (.inr hst)] at hlock
  cases hlock
  cases hu.symm.trans hv
  exact hd hclean

omit [DecidableEq ι] in
lemma LogInv.slot_data (h : LogInv g p₀ strict s η γ) (hu : (γ p).uses t = some u)
    (hst : u.st = .ready) (hclean : u.dirty = false) (hdev : u.dev = g.dev)
    (ha : g.Area u.blockno) : (s.buf t).data = s.disk u.blockno := by
  have hok := h.cache.use p t u hu
  have := h.slot.clean t (hok.valid hst) (hok.dev.trans hdev) (by rw [hok.blockno]; exact ha)
    (h.undirty_of_holder hu hst hclean)
  rwa [hok.blockno] at this

section

variable (hx : x.Steady) (hj : x.job = some (.headed i i, lh)) (hget : lh[i]? = some m)
include hx hj hget

/-- `memmove` in the `install_trans` of `commit`: the buffer of the home block already has the
contents of the log block. -/
lemma safe_memmoveInstall (ht : x.uses t = some (readyUse g.dev (g.start + i + 1)))
    (hf : x.uses f = some (readyUse g.dev m)) :
    (logProtocol g p₀ strict).Safe p (fun _ y => y = x) (memmove f t) x := by
  have hsame : ∀ (s : LogSys ι) (η : LogHist) (γ : ι → LogGhost), LogInv g p₀ strict s η γ →
      γ p = x → s.setData f (s.buf t).data = s := by
    rintro s η γ hinv rfl
    obtain ⟨hst, hlh, -⟩ := hinv.ctl.job p _ hj
    dsimp only at hst hlh
    have hokf := hinv.cache.use p f _ hf
    have hget' : s.log.lh[i]? = some m := by rw [hlh]; exact hget
    have hlog := hinv.slot_data ht rfl rfl rfl (hinv.ctl.head.area_slot hget')
    have hhome := (hinv.slot.headed i i hst).2.2.2 i m (le_refl i) hget' f hokf.dev hokf.blockno
    rw [LogSys.setData, LogSys.setBuf, hlog]
    have : { s.buf f with data := s.disk (readyUse g.dev (g.start + i + 1)).blockno } = s.buf f := by
      rw [show s.disk (readyUse g.dev (g.start + i + 1)).blockno = (s.buf f).data from hhome.symm]
    rw [this, update_eq_self]
  refine safe_neutral rfl (LogAct.view_of_steady hx (by simp) (by simp) trivial) (by simp) ?_ ?_
  · intro s η γ _ s' hinv hg hfs
    rw [hsame s η γ hinv hg] at hfs
    cases hfs
    exact .of_same (fun _ => ⟨rfl, rfl, rfl⟩) (.of_neutral rfl rfl)
      (by simp [LogAct.stored])
  · intro s η γ r s' hinv hg _ hfs
    rw [hsame s η γ hinv hg] at hfs
    cases hfs
    refine ⟨γ p, ?_, hg⟩
    rw [update_eq_self]
    exact hinv

lemma safe_install (hf : x.uses f = some (readyUse g.dev m)) :
    (logProtocol g p₀ strict).Safe p (fun _ y => y = x.withJob (.headed (i + 1) i) lh)
      (bwrite p (.install f) f) x := by
  refine safe_logAct (LogAct.view_of_steady hx (by simp) (by simp)
    ⟨i, lh, m, _, hget, hf, rfl, rfl, .inl hj⟩) ?_
    (fun s η γ _ s' hinv hg hfs => .of_bwrite hfs (fun s' hs => ?_)
      fun b => ⟨fun hb => (LogAct.install.inj hb).symm, by simp, fun _ => rfl⟩) ?_
  · rintro s η γ msg hinv rfl hfs
    rw [hinv.bwrite_eq hf rfl] at hfs
    cases hfs
  · subst hg
    obtain ⟨hst, hlh, -⟩ := hinv.ctl.job p _ hj
    dsimp only at hst hlh
    rw [hst]
    refine ⟨fun n hn _ => by rw [hs]; exact hn, fun n _ => ?_, by simp⟩
    have hno : (s.buf f).blockno = m := (hinv.cache.use p f _ hf).blockno
    change n ∈ s'.log.lh.take (i + 1) ↔ n ∈ s.log.lh.take i ∨ _
    rw [hs, hlh, List.take_add_one, hget, List.mem_append]
    simp [hno, eq_comm]
  rintro s η γ r s' hinv rfl - hfs
  rw [hinv.bwrite_eq hf rfl] at hfs
  cases hfs
  obtain ⟨hst, hlh, -⟩ := hinv.ctl.job p _ hj
  dsimp only at hst hlh
  have hok := hinv.cache.use p f _ hf
  have hno : (s.buf f).blockno = m := hok.blockno
  have hη : η.upd g (.install f) = { η with stage := .headed (i + 1) i } := by
    simp only [LogHist.upd, hst, Stage.next]
  have hhead : HeadOk g lh := hlh ▸ hinv.ctl.head
  have hlt := (List.getElem?_eq_some_iff.mp hget).1
  have hm : ¬ g.Area m := hhead.area m (List.mem_of_getElem? hget)
  have hdisk : ∀ n, n ≠ m → (s.diskWrite f).disk n = s.disk n := fun n hn =>
    s.diskWrite_disk_of_ne hno hn
  have hdrop : ∀ n, n ∉ lh.drop (i + 1) → n ≠ m → n ∉ lh.drop i := fun n hn hnm hmem => by
    rw [List.drop_eq_getElem_cons hlt] at hmem
    rcases List.mem_cons.mp hmem with hmem | hmem
    · rw [List.getElem?_eq_getElem hlt, Option.some.injEq] at hget
      exact hnm (hmem.trans hget)
    · exact hn hmem
  have hU : update (fun q => (γ q).uses) p ((γ p).withJob (.headed (i + 1) i) lh).uses =
      fun q => (γ q).uses := update_eq_self p fun q => (γ q).uses
  refine ⟨_, ?_, rfl⟩
  rw [hη]
  refine hinv.jobStep (by simp [hj]) hU rfl rfl
    (by rw [show (s.diskWrite f).log.lh = lh from hlh]; rfl) ⟨rfl, rfl, rfl⟩ ?_ hinv.ctl.head
    (by rw [hst]; rfl) (by simp) (fun b u hu => .inl hu) ?_ fun hstrict => ?_
  · have := hinv.cache
    rw [hst] at this
    exact this
  · have hslot : SlotInv g (s.diskWrite f).disk s.buf s.log.lh η.stage fun q => (γ q).uses :=
      hinv.slot.congr_disk hinv.ctl.head fun n ha => hdisk n fun e => hm (e ▸ ha)
    refine ⟨⟨by simp, by simp, ?_, by simp⟩, hslot.clean⟩
    rintro i' u ⟨⟩
    refine ⟨by omega, le_refl _, ?_, (hslot.headed i i hst).2.2.2⟩
    rw [show (s.diskWrite f).log.lh = lh from hlh]
    exact hlt
  · have hcrash := hinv.crash hstrict
    have hup : η.stage.up = true := by rw [hst]; rfl
    have hcurm : (s.buf f).data = η.cur m := by
      have := hcrash.cached hup f (hok.valid rfl) hok.dev (by rw [hno]; exact hm)
      rwa [hno] at this
    refine ⟨hcrash.dev, fun c hv hd ha hund hun => ?_, fun _ => hcrash.cached hup,
      fun _ n ha hn => ?_, ?_⟩
    · by_cases hcm : (s.buf c).blockno = m
      · have hcf : c = f := hinv.buf_unique hok.dev hd (hcm.trans hno.symm)
        change (s.buf c).data = (s.diskWrite f).disk (s.buf c).blockno
        rw [hcm, s.diskWrite_disk_self hno, hcf]
      change (s.buf c).data = (s.diskWrite f).disk (s.buf c).blockno
      rw [hdisk _ hcm]
      refine hcrash.clean c hv hd ha hund ?_
      rw [hst, hlh]
      rw [show (s.diskWrite f).log.lh = lh from hlh] at hun
      exact hdrop _ hun hcm
    · have hnm : n ≠ m := by
        rintro rfl
        have := hn f hok.dev hno
        rw [show ((s.diskWrite f).buf f).valid = true from hok.valid rfl] at this
        cases this
      rw [hdisk n hnm]
      exact hcrash.uncached hup n ha hn
    · have hstage := hcrash.stage
      simp only [StageInv, hst, hlh] at hstage
      obtain ⟨gs, h1, h2, h3, h4⟩ := hstage
      simp only [StageInv]
      rw [show (s.diskWrite f).log.lh = lh from hlh]
      refine ⟨gs, h1, ⟨?_, h2.ok, fun j n hn => ?_, fun n ha hn => ?_⟩, h3, h4⟩
      · rw [hdisk _ fun e => hm (e ▸ LogGeom.area_start (by have := hhead.len_lt; omega))]
        exact h2.head
      · rw [hdisk _ fun e => hm (e ▸ hhead.area_slot hn)]
        exact h2.slot j n hn
      · by_cases hnm : n = m
        · rw [hnm, s.diskWrite_disk_self hno]
          exact hcurm
        · rw [hdisk n hnm]
          exact h2.home n ha (hdrop n hn hnm)

end

lemma safe_bunpin (hx : x.Steady) (hj : x.job = some (.headed (i + 1) i, lh))
    (hget : lh[i]? = some m) (hf : x.uses f = some (readyUse g.dev m)) :
    (logProtocol g p₀ strict).Safe p (fun _ y => y = x.withJob (.headed (i + 1) (i + 1)) lh)
      (bunpin f) x := by
  refine safe_logAct (LogAct.view_of_steady hx (by simp) (by simp)
    ⟨i, lh, m, _, hget, hf, rfl, rfl, hj⟩) (by simp) ?_ ?_
  · rintro s η γ _ s' hinv rfl hfs
    cases hfs
    obtain ⟨hst, hlh, -⟩ := hinv.ctl.job p _ hj
    dsimp only at hst hlh
    have hno : (s.buf f).blockno = m := (hinv.cache.use p f _ hf).blockno
    have hlt := (List.getElem?_eq_some_iff.mp hget).1
    have hm : lh[i] = m := Option.some.inj ((List.getElem?_eq_getElem hlt).symm.trans hget)
    have hdrop : lh.drop i = m :: lh.drop (i + 1) := by rw [List.drop_eq_getElem_cons hlt, hm]
    have hnodup : m ∉ lh.drop (i + 1) := by
      have hnd := (hlh ▸ hinv.ctl.head.nodup : lh.Nodup).sublist (List.drop_sublist i lh)
      rw [hdrop] at hnd
      exact (List.nodup_cons.mp hnd).1
    refine .of_setBuf rfl rfl rfl (fun _ => rfl) ⟨fun n hn hne => ?_, fun n hn => ?_, ?_⟩
      (by simp [LogAct.stored]) (by simp)
    · rw [hst, hlh] at hn
      rw [hst, show (s.bunpin f).log.lh = lh from hlh]
      have hmem : n ∈ lh.drop i := hn
      rw [hdrop] at hmem
      exact (List.mem_cons.mp hmem).resolve_left fun h => hne f rfl (hno.trans h.symm)
    · rw [hst]
      simp [Stage.written, Stage.next, LogSys.bunpin, LogSys.setBuf]
    · rintro b ⟨⟩
      rw [hst, show (s.bunpin f).log.lh = lh from hlh, hno]
      exact hnodup
  rintro s η γ r s' hinv rfl - hfs
  cases hfs
  obtain ⟨hst, hlh, -⟩ := hinv.ctl.job p _ hj
  dsimp only at hst hlh
  have hok := hinv.cache.use p f _ hf
  have hno : (s.buf f).blockno = m := hok.blockno
  have hη : η.upd g (.bunpin f) = { η with stage := .headed (i + 1) (i + 1) } := by
    simp only [LogHist.upd, hst, Stage.next]
  have hhead : HeadOk g lh := hlh ▸ hinv.ctl.head
  have hlt := (List.getElem?_eq_some_iff.mp hget).1
  have hdrop : lh.drop i = m :: lh.drop (i + 1) := by
    rw [List.drop_eq_getElem_cons hlt]
    rw [List.getElem?_eq_getElem hlt, Option.some.injEq] at hget
    rw [hget]
  have hnot : m ∉ lh.drop (i + 1) := by
    have := hhead.nodup.sublist (List.drop_sublist i lh)
    rw [hdrop] at this
    exact (List.nodup_cons.mp this).1
  have hU : update (fun q => (γ q).uses) p
      ((γ p).withJob (.headed (i + 1) (i + 1)) lh).uses = fun q => (γ q).uses :=
    update_eq_self p fun q => (γ q).uses
  refine ⟨_, ?_, rfl⟩
  rw [hη]
  refine hinv.jobStep (by simp [hj]) hU rfl rfl
    (by rw [show (s.bunpin f).log.lh = lh from hlh]; rfl) ⟨rfl, rfl, rfl⟩ ?_ hinv.ctl.head
    (by rw [hst]; rfl) (by simp) (fun b u hu => .inl hu) ?_ fun hstrict => ?_
  · have hcache := hinv.cache
    rw [hst, hlh, show (Stage.headed (i + 1) i).pins lh = lh.drop i from rfl, hdrop] at hcache
    rw [show (s.bunpin f).log.lh = lh from hlh]
    exact hcache.unpin hnot hok.dev hno
  · have hstage : SlotInv g s.disk s.buf s.log.lh (.headed (i + 1) (i + 1))
        fun q => (γ q).uses := by
      refine ⟨⟨by simp, by simp, ?_, by simp⟩, hinv.slot.clean⟩
      rintro i' u ⟨⟩
      obtain ⟨-, -, hle, hdata⟩ := hinv.slot.headed (i + 1) i hst
      exact ⟨le_refl _, by omega, hle, fun j n hj => hdata j n (by omega)⟩
    refine hstage.change (fun _ _ _ => rfl) (fun hv hd ha hu => hinv.slot.clean f hv hd ha hu)
      (fun _ _ _ => ⟨rfl, rfl, rfl⟩)
  · have hcrash := hinv.crash hstrict
    have hsame : CrashInv g s.disk s.buf s.log.lh { η with stage := .headed (i + 1) (i + 1) }
        fun q => (γ q).uses := by
      refine hcrash.restage (fun _ _ => rfl) (by rw [hst]; rfl) (fun n hn => ?_) rfl hcrash.dev
        (fun _ _ h => h) ?_
      · rw [hst] at hn
        exact hn
      · have hstage := hcrash.stage
        simp only [StageInv, hst] at hstage
        exact hstage
    refine hsame.change (fun _ _ _ => rfl) (fun q u hu => hsame.dev q f u hu) (fun n hn => hn)
      (fun hv hd ha hu hun => hsame.clean f hv hd ha hu hun)
      (fun hup hv hd ha => hsame.cached hup f hv hd ha)
      (fun _ hv hd _ hno => absurd ⟨hv, hd, rfl⟩ hno)

lemma safe_installTransFrom (n i : ℕ) (hi : i ≤ lh.length) (hn : lh.length < n + i) :
    (logProtocol g p₀ strict).Safe p (fun _ y => y = jobGhost (.headed lh.length lh.length) lh true)
      (installTransFrom p g false n i) (jobGhost (.headed i i) lh true) := by
  induction n generalizing i with
  | zero => omega
  | succ n ih =>
    refine (safe_loopTest steady_jobGhost rfl).seq ?_
    rintro r y ⟨rfl, hhead, rfl⟩
    rcases hget : lh[i]? with _ | m
    · have hle := List.getElem?_eq_none_iff.mp hget
      rw [le_antisymm hi hle]
      exact Protocol.safe_ret rfl
    have hlt := (List.getElem?_eq_some_iff.mp hget).1
    refine safe_breadPair hhead hget fun t f htf => ?_
    refine (safe_memmoveInstall (steady_pairGhost rfl rfl) pairGhost_job hget (pairGhost_fst htf)
      pairGhost_snd).seq ?_
    rintro - y rfl
    refine (safe_install (steady_pairGhost rfl rfl) pairGhost_job hget pairGhost_snd).seq ?_
    rintro - y rfl
    rw [pairGhost_withJob]
    refine (safe_bunpin (steady_pairGhost rfl rfl) pairGhost_job hget pairGhost_snd).seq ?_
    rintro - y rfl
    rw [pairGhost_withJob]
    exact safe_brelsePair htf ⟨rfl, rfl⟩ ⟨rfl, rfl⟩ (ih (i + 1) hlt (by omega))

/-! ## Installing the blocks of the recovery -/

lemma safe_installRecovery (hx : x.Steady) (hj : x.job = some (.recovering i, lh))
    (hget : lh[i]? = some m) (ht : x.uses t = some (knownUse g.dev (g.start + i + 1) false d))
    (hf : x.uses f = some (knownUse g.dev m true d)) : (logProtocol g p₀ strict).Safe p
      (fun _ y => y = (x.setUse f (some (readyUse g.dev m))).withJob (.recovering (i + 1)) lh)
      (bwrite p (.install f) f) x := by
  refine safe_logAct (LogAct.view_of_steady hx (by simp) (by simp)
    ⟨i, lh, m, _, hget, hf, rfl, rfl, .inr hj⟩) ?_
    (fun s η γ _ s' hinv hg hfs => .of_bwrite hfs (fun s' hs => ?_)
      fun b => ⟨fun hb => (LogAct.install.inj hb).symm, by simp, fun _ => rfl⟩) ?_
  · rintro s η γ msg hinv rfl hfs
    rw [hinv.bwrite_eq hf rfl] at hfs
    cases hfs
  · rw [show η.stage = .recovering i from (hinv.ctl.job p _ (by rw [hg]; exact hj)).1]
    exact .of_empty rfl (by simp)
  rintro s η γ r s' hinv rfl - hfs
  rw [hinv.bwrite_eq hf rfl] at hfs
  cases hfs
  obtain ⟨hst, hlh, -⟩ := hinv.ctl.job p _ hj
  dsimp only at hst hlh
  have hok := hinv.cache.use p f _ hf
  have hno : (s.buf f).blockno = m := hok.blockno
  have hη : η.upd g (.install f) = { η with stage := .recovering (i + 1) } := by
    simp only [LogHist.upd, hst, Stage.next]
  have hhead : HeadOk g lh := hlh ▸ hinv.ctl.head
  have hlt := (List.getElem?_eq_some_iff.mp hget).1
  have hm : ¬ g.Area m := hhead.area m (List.mem_of_getElem? hget)
  have hdisk : ∀ n, n ≠ m → (s.diskWrite f).disk n = s.disk n := fun n hn =>
    s.diskWrite_disk_of_ne hno hn
  have hdata : (s.buf f).data = s.disk (g.start + i + 1) := by
    rw [(hok.known d rfl).2, ← ((hinv.cache.use p t _ ht).known d rfl).2]
    exact hinv.slot_data ht rfl rfl rfl (hhead.area_slot hget)
  have hU : update (fun q => (γ q).uses) p
      (((γ p).setUse f (some (readyUse g.dev m))).withJob (.recovering (i + 1)) lh).uses =
      setUse (fun q => (γ q).uses) p f (some (readyUse g.dev m)) := rfl
  refine ⟨_, ?_, rfl⟩
  rw [hη]
  refine hinv.jobStep (by simp [hj]) hU rfl rfl
    (by rw [show (s.diskWrite f).log.lh = lh from hlh]; rfl) ⟨rfl, rfl, rfl⟩ ?_ hinv.ctl.head
    (by rw [hst]; rfl) (by simp) ?_ ?_ fun hstrict => ?_
  · have := hinv.cache_settle hf rfl
    rw [hst] at this
    exact this
  · intro c v hv
    rcases LogGhost.setUse_uses_cases hv with ⟨-, ho⟩ | ⟨-, hv'⟩
    · cases ho
      exact .inr ⟨rfl, rfl⟩
    · exact .inl hv'
  · refine ⟨⟨by simp, by simp, by simp, ?_⟩,
      hinv.slot.clean_diskWrite hok.dev (fun c hc => hinv.buf_unique hok.dev hc) _⟩
    rintro i' ⟨⟩
    rw [show (s.diskWrite f).log.lh = lh from hlh]
    exact hlt
  · have hcrash := hinv.crash hstrict
    refine ⟨fun q c u hu => ?_, fun c hv hd ha hund _ => ?_, by simp [Stage.up], by simp [Stage.up],
      ?_⟩
    · rcases setUse_cases hu with ⟨-, -, ho⟩ | ⟨-, hu'⟩
      · cases ho
        rfl
      · exact hcrash.dev q c u hu'
    · change (s.buf c).data = (s.diskWrite f).disk (s.buf c).blockno
      by_cases hcf : c = f
      · rw [hcf, hno, s.diskWrite_disk_self hno]
      have hcm : (s.buf c).blockno ≠ m := fun e =>
        hcf (hinv.buf_unique hok.dev hd (e.trans hno.symm))
      rw [hdisk _ hcm]
      refine hcrash.clean c hv hd ha
        (fun q u hq => hund q u ((setUse_of_ne_buf hcf p q _).trans hq)) ?_
      rw [hst]
      simp [Stage.unsynced]
    · have hstage := hcrash.stage
      simp only [StageInv, hst, hlh] at hstage
      obtain ⟨h1, h2, h3, h4⟩ := hstage
      simp only [StageInv]
      rw [show (s.diskWrite f).log.lh = lh from hlh]
      refine ⟨h1, ⟨?_, h2.ok, fun j n hn => ?_, fun n ha hn => ?_⟩, h3, h4⟩
      · rw [hdisk _ fun e => hm (e ▸ LogGeom.area_start (by have := hhead.len_lt; omega))]
        exact h2.head
      · rw [hdisk _ fun e => hm (e ▸ hhead.area_slot hn)]
        exact h2.slot j n hn
      · by_cases hnm : n = m
        · rw [hnm, s.diskWrite_disk_self hno, hdata]
          exact h2.slot i m hget
        rw [hdisk n hnm]
        refine h2.home n ha fun hmem => ?_
        rw [List.drop_eq_getElem_cons hlt] at hmem
        rcases List.mem_cons.mp hmem with hmem | hmem
        · rw [List.getElem?_eq_getElem hlt, Option.some.injEq] at hget
          exact hnm (hmem.trans hget)
        · exact hn hmem

lemma safe_installTransFrom_recovery (n i : ℕ) (hi : i ≤ lh.length) (hn : lh.length < n + i) :
    (logProtocol g p₀ strict).Safe p (fun _ y => y = jobGhost (.recovering lh.length) lh false)
      (installTransFrom p g true n i) (jobGhost (.recovering i) lh false) := by
  induction n generalizing i with
  | zero => omega
  | succ n ih =>
    refine (safe_loopTest steady_jobGhost rfl).seq ?_
    rintro r y ⟨rfl, hhead, rfl⟩
    rcases hget : lh[i]? with _ | m
    · have hle := List.getElem?_eq_none_iff.mp hget
      rw [le_antisymm hi hle]
      exact Protocol.safe_ret rfl
    have hlt := (List.getElem?_eq_some_iff.mp hget).1
    refine safe_breadPair hhead hget fun t f htf => ?_
    refine (safe_memmove (steady_pairGhost rfl rfl) pairGhost_job pairGhost_snd
      (pairGhost_fst htf) htf.symm (.inr rfl)).seq ?_
    rintro - y ⟨d, rfl⟩
    rw [pairGhost_setUse_fst htf, pairGhost_setUse_snd]
    refine (safe_installRecovery (steady_pairGhost rfl rfl) pairGhost_job hget (pairGhost_fst htf)
      pairGhost_snd).seq ?_
    rintro - y rfl
    rw [pairGhost_setUse_snd, pairGhost_withJob]
    exact safe_brelsePair htf ⟨rfl, rfl⟩ ⟨rfl, rfl⟩ (ih (i + 1) hlt (by omega))

end Install

end Xv6
