import Xv6Kernel.Log.CommitSteps

/-!
# The commit and the recovery

The actions of `end_op`, `commit` and `recover_from_log` and the rules for their loops.
-/

namespace Xv6

open Function

variable {ι : Type} [Fintype ι] [DecidableEq ι] {g : LogGeom} {strict : Prop} {p₀ p : ι}
  {x : LogGhost} {st : Stage} {lh : List ℕ}
variable {η : LogHist} {s : LogSys ι} {γ : ι → LogGhost} {m n : ℕ}
variable {Q : Unit → LogGhost → Prop} {k : ℕ}

/-- What the thread with the job owns while it uses no buffer. -/
def jobGhost (st : Stage) (lh : List ℕ) (client : Bool) : LogGhost :=
  ⟨fun _ => none, false, some (st, lh), client⟩

omit [Fintype ι] [DecidableEq ι] in
lemma steady_jobGhost {client : Bool} : (jobGhost st lh client).Steady := by
  simp [LogGhost.Steady, jobGhost]

def LogGhost.withJob (x : LogGhost) (st : Stage) (lh : List ℕ) : LogGhost :=
  { x with job := some (st, lh) }

def knownUse (dev n : ℕ) (dirty : Bool) (d : Block) : Use := ⟨dev, n, .ready, dirty, some d⟩

/-! ## Starting a commit -/

lemma safe_endOp (hx : x = ⟨fun _ => none, true, none, true⟩) :
    (logProtocol g p₀ strict).Safe p
      (fun c y => if c then ∃ lh, y = jobGhost .idle lh true
        else y = ⟨fun _ => none, false, none, true⟩)
      (.atomic .endOp (LogSys.onLog Log.endOp)) x := by
  subst hx
  refine safe_neutral rfl
    (LogAct.view_of_steady (by simp [LogGhost.Steady]) (by simp) (by simp) trivial) ?_ ?_ ?_
  · intro s η γ msg hinv hg hf
    have hcom := (hinv.ctl.of_op (p := p) (by rw [hg])).2.2.1
    simp only [LogSys.onLog, Log.endOp, hcom, Bool.false_eq_true, if_false] at hf
    by_cases h0 : s.log.outstanding - 1 = 0
    · simp only [if_pos h0] at hf
      cases hf
    · simp only [if_neg h0] at hf
      cases hf
  · intro s η γ _ s' _ _ hf
    have hlh : s'.log.lh = s.log.lh ∧ s'.buf = s.buf := by
      simp only [LogSys.onLog, Log.endOp] at hf
      split_ifs at hf <;> cases hf <;> exact ⟨rfl, rfl⟩
    exact .of_same (fun b => by rw [hlh.2]; exact ⟨rfl, rfl, rfl⟩)
      (.of_neutral rfl hlh.1) (by simp [LogAct.stored])
  · intro s η γ c s' hinv hg _ hf
    obtain ⟨hidle, hup, hcom, hout, hjob⟩ := hinv.ctl.of_op (p := p) (by rw [hg])
    have hctl := hinv.ctl
    have hsum := sum_update_add Bool.toNat (fun q => (γ q).op) p false
    have hsum' := hctl.out
    have hop : (γ p).op = true := by rw [hg]
    rw [hop] at hsum
    simp only [Bool.toNat_false, Bool.toNat_true] at hsum
    simp only [LogSys.onLog, Log.endOp, hcom, Bool.false_eq_true, if_false] at hf
    by_cases h0 : s.log.outstanding - 1 = 0
    · simp only [if_pos h0] at hf
      cases hf
      refine ⟨jobGhost .idle s.log.lh true,
        hinv.of_ctl (by rw [hg]; rfl) (fun _ => hup) rfl ?_ (by simp [hg]) (by simp [hup]), ?_⟩
      · have hsome : ∀ q, update (fun q => (γ q).job) p
            (jobGhost .idle s.log.lh true).job q ≠ none → q = p := fun q hq => by
          by_contra hqp
          rw [update_of_ne hqp] at hq
          exact hq (hjob q)
        refine ⟨hctl.size, hctl.head, ?_, fun q y hy => ?_, fun q r hq hr => ?_, fun hn => ?_,
          fun _ => ?_, fun _ => h0, by simp [hup], hctl.stageUp, by simp, hctl.clear⟩
        · change s.log.outstanding - 1 = ∑ q, (update (fun q => (γ q).op) p false q).toNat
          omega
        · have hqp : q = p := hsome q (by rw [hy]; simp)
          subst hqp
          rw [update_self] at hy ⊢
          cases hy
          exact ⟨hidle, rfl, rfl⟩
        · rw [hsome q hq, hsome r hr]
        · have := hn p
          rw [update_self] at this
          cases this
        · exact ⟨fun _ => ⟨p, by rw [update_self]; simp [jobGhost]⟩, fun _ => rfl⟩
      · exact ⟨s.log.lh, rfl⟩
    · simp only [if_neg h0] at hf
      cases hf
      refine ⟨⟨fun _ => none, false, none, true⟩,
        hinv.of_ctl (by rw [hg]) (fun _ => hup) rfl ?_ (by simp [hg]) (by simp), rfl⟩
      have hjobs : update (fun q => (γ q).job) p none = fun q => (γ q).job := by
        rw [← hjob p]
        exact update_eq_self p fun q => (γ q).job
      rw [hjobs]
      refine ⟨hctl.size, hctl.head, ?_, fun q y hy => ?_, hctl.uniq, hctl.noJob,
        by simpa [hcom] using hctl.committing, by simp, by simp [hup], hctl.stageUp,
        fun _ ho => absurd ho h0, hctl.clear⟩
      · change s.log.outstanding - 1 = ∑ q, (update (fun q => (γ q).op) p false q).toNat
        omega
      · rw [hjob q] at hy
        cases hy

omit [DecidableEq ι] in
lemma LogInv.not_dirty_home (h : LogInv g p₀ strict s η γ) (hup : s.up = true)
    (hj : (γ p).job ≠ none) {q : ι} {b : Fin NBUF} {u : Use} (hu : (γ q).uses b = some u)
    (ha : ¬ g.Area u.blockno) : u.dirty = false := by
  by_contra hd
  rcases h.uses.dirtyHome q b u hu (by simpa using hd) ha with ho | ⟨-, hst⟩
  · exact hj ((h.ctl.of_op ho).2.2.2.2 p)
  · rw [h.ctl.stageUp, hup] at hst
    cases hst

lemma safe_commitTest : (logProtocol g p₀ strict).Safe p
      (fun ne y => ne = !lh.isEmpty ∧ HeadOk g lh ∧ y = jobGhost (.logging 0) lh true)
      (.atomic .commit fun s => .done (!s.log.lh.isEmpty) s) (jobGhost .idle lh true) := by
  refine safe_logAct (LogAct.view_of_steady steady_jobGhost (by simp) (by simp) trivial) (by simp)
    ?_ ?_
  · intro s η γ _ s' hinv hg hf
    cases hf
    have hst : η.stage = .idle := (hinv.ctl.job p _ (by rw [hg]; rfl)).1
    refine .of_same (fun _ => ⟨rfl, rfl, rfl⟩) (.of_same (fun n hn => ?_) ?_ (by simp))
      (by simp [LogAct.stored])
    · rw [hst] at hn
      exact hn
    · rw [hst]
      rfl
  intro s η γ ne s' hinv hg _ hf
  cases hf
  have hj : (γ p).job = some (.idle, lh) := by rw [hg]; rfl
  obtain ⟨hidle, hlh, -⟩ := hinv.ctl.job p _ hj
  dsimp only at hidle hlh
  have hup : s.up = true := hinv.client p (by rw [hg]; rfl)
  refine ⟨jobGhost (.logging 0) lh true, ?_, by rw [hlh], hlh ▸ hinv.ctl.head, rfl⟩
  have hU : update (fun q => (γ q).uses) p (jobGhost (.logging 0) lh true).uses =
      fun q => (γ q).uses := by
    refine (congrArg _ ?_).trans (update_eq_self p fun q => (γ q).uses)
    rw [hg]
    rfl
  refine hinv.jobStep (by simp [hj]) hU (by rw [hg]; rfl) (by rw [hg]; rfl) (by rw [hlh]; rfl)
    ⟨rfl, rfl, rfl⟩ ?_ hinv.ctl.head (by rw [hidle]; rfl) (by simp [LogHist.upd, Stage.next])
    (by simp [jobGhost]) ?_ fun hst => ?_
  · have hcache := hinv.cache
    rw [hidle] at hcache
    exact hcache
  · exact ⟨⟨by simp [LogHist.upd, Stage.next], by simp [LogHist.upd, Stage.next],
      by simp [LogHist.upd, Stage.next], by simp [LogHist.upd, Stage.next]⟩, hinv.slot.clean⟩
  · have hcrash := hinv.crash hst
    refine hcrash.restage (fun _ _ => rfl) (by rw [hidle]; rfl) (fun n hn => ?_) rfl hcrash.dev
      (fun _ _ h => h) ?_
    · rw [hidle] at hn
      exact hn
    · have hstage := hcrash.stage
      simp only [StageInv, hidle] at hstage
      obtain ⟨S, gs, h1, h2, h3, h4, h5⟩ := hstage
      refine ⟨S, gs, congrArg _ h1, h2, h3, h4, fun n ha hn => h5 n ha hn ?_, by simp⟩
      rintro ⟨q, b, u, hu, hud, -, rfl⟩
      rw [hinv.not_dirty_home hup (p := p) (by simp [hj]) hu ha] at hud
      cases hud

lemma safe_loopTest {tail : ℕ} (hx : x.Steady) (hj : x.job = some (st, lh)) :
    (logProtocol g p₀ strict).Safe p (fun r y => r = lh[tail]? ∧ HeadOk g lh ∧ y = x)
      (loopTest tail) x := by
  refine safe_neutral rfl (LogAct.view_of_steady hx (by simp) (by simp) trivial) (by simp) ?_ ?_
  · intro s η γ _ s' _ _ hf
    cases hf
    exact .of_same (fun _ => ⟨rfl, rfl, rfl⟩) (.of_neutral rfl rfl)
      (by simp [LogAct.stored])
  rintro s η γ r s' hinv rfl - hf
  cases hf
  have hlh : s.log.lh = lh := (hinv.ctl.job p _ hj).2.1
  refine ⟨γ p, ?_, by rw [hlh], hlh ▸ hinv.ctl.head, rfl⟩
  rw [update_eq_self]
  exact hinv

/-! ## Copies between buffers -/

lemma LogInv.setData {t : Fin NBUF} (h : LogInv g p₀ strict s η γ)
    (hj : (γ p).job = some (st, lh)) (ht : (γ p).uses t = some (readyUse g.dev m))
    (hm : g.Area m ∨ st.up = false) (d : Block) : LogInv g p₀ strict (s.setData t d) η
      (update γ p ((γ p).setUse t (some (knownUse g.dev m true d)))) := by
  obtain ⟨hst, hlh, -⟩ := h.ctl.job p _ hj
  dsimp only at hst hlh
  have hok := h.cache.use p t _ ht
  have hlock := hok.lock (.inr rfl)
  refine h.change
    (h.cache.setUse ht rfl rfl rfl id ?_ (by simp [hlock]) (by simp [hlock, knownUse]))
    ?_ ?_ ?_ ?_ ?_ ?_ ?_
  · exact ⟨hok.dev, hok.dev_ne, hok.blockno, hok.blockno_lt, fun _ => hlock,
      fun _ => hok.valid rfl, by simp [knownUse], by simp [knownUse]⟩
  · rintro v ⟨⟩
    have hal := h.uses.allowed ht
    refine ⟨hal.area, fun _ => rfl, fun _ ha => .inr ⟨by simp [hj], ?_⟩⟩
    rw [hst]
    exact hm.resolve_left ha
  · intro v hv _
    cases ht.symm.trans hv
    exact ⟨_, rfl, rfl, rfl, rfl⟩
  · intro _ _ _ hund
    have := hund p _ (setUse_self p t _)
    simp [knownUse] at this
  · intro hcopy hd hmem
    rw [show ({ s.buf t with data := d } : Buf ι).blockno = m from hok.blockno] at hmem
    have hup := Stage.up_of_copying hcopy
    rw [hst] at hup
    exact absurd (hm.resolve_right (by simp [hup])) (h.ctl.head.area m (Stage.mem_of_mem_pins hmem))
  · rintro - v ⟨⟩
    rfl
  · intro _ hup _ _ ha
    rw [show ({ s.buf t with data := d } : Buf ι).blockno = m from hok.blockno] at ha
    rw [hst, hm.resolve_left ha] at hup
    cases hup
  · exact fun _ _ hv hd _ hno => absurd ⟨hv, hd, rfl⟩ hno

omit [DecidableEq ι] in
lemma LogInv.not_pinned {t : Fin NBUF} {u : Use} (h : LogInv g p₀ strict s η γ)
    (hj : (γ p).job = some (st, lh)) (ht : (γ p).uses t = some u) (hu : u.blockno = m)
    (hm : g.Area m ∨ st.up = false) : (s.buf t).pinned g (η.stage.pins s.log.lh) ≠ true := by
  rw [ne_eq, Buf.pinned_iff]
  rintro ⟨-, hmem⟩
  rcases hm with ha | hup
  · refine h.ctl.head.area _ (Stage.mem_of_mem_pins hmem) ?_
    rw [(h.cache.use p t u ht).blockno, hu]
    exact ha
  · rw [← show η.stage = st from (h.ctl.job p _ hj).1, Stage.up_of_mem_pins hmem] at hup
    cases hup

lemma LogInv.note {f : Fin NBUF} (h : LogInv g p₀ strict s η γ)
    (hf : (γ p).uses f = some (readyUse g.dev n)) : LogInv g p₀ strict s η
      (update γ p ((γ p).setUse f (some (knownUse g.dev n false (s.buf f).data)))) := by
  have hok := h.cache.use p f _ hf
  have hlock := hok.lock (.inr rfl)
  have hself : s = s.setBuf f (s.buf f) := by simp [LogSys.setBuf]
  have hstep := h.changeUse (x := s.buf f) (v := knownUse g.dev n false (s.buf f).data) hf rfl
    ⟨rfl, rfl⟩ rfl
    ⟨hok.dev, hok.dev_ne, hok.blockno, hok.blockno_lt, fun _ => hlock, fun _ => hok.valid rfl,
      by simp [knownUse], by simp [knownUse]⟩ (by simp [hlock]) (by simp [hlock, knownUse])
  rwa [← hself] at hstep

lemma safe_memmove {t f : Fin NBUF} (hx : x.Steady) (hj : x.job = some (st, lh))
    (ht : x.uses t = some (readyUse g.dev m)) (hf : x.uses f = some (readyUse g.dev n))
    (htf : t ≠ f) (hm : g.Area m ∨ st.up = false) : (logProtocol g p₀ strict).Safe p
      (fun _ y => ∃ d, y = (x.setUse f (some (knownUse g.dev n false d))).setUse t
        (some (knownUse g.dev m true d))) (memmove t f) x := by
  refine safe_neutral rfl (LogAct.view_of_steady hx (by simp) (by simp) trivial) (by simp) ?_ ?_
  · rintro s η γ _ s' hinv rfl hfs
    cases hfs
    exact .of_setBuf rfl rfl rfl (fun hp => absurd hp (hinv.not_pinned hj ht rfl hm))
      (.of_neutral rfl rfl) (by simp [LogAct.stored]) (by simp)
  rintro s η γ r s' hinv rfl - hfs
  cases hfs
  refine ⟨_, ?_, (s.buf f).data, rfl⟩
  have hγ : update γ p ((γ p).setUse f (some (knownUse g.dev n false (s.buf f).data))) p =
      (γ p).setUse f (some (knownUse g.dev n false (s.buf f).data)) := update_self ..
  have hj' : (update γ p ((γ p).setUse f
      (some (knownUse g.dev n false (s.buf f).data))) p).job = some (st, lh) := by
    rw [hγ]
    exact hj
  have ht' : (update γ p ((γ p).setUse f
      (some (knownUse g.dev n false (s.buf f).data))) p).uses t = some (readyUse g.dev m) := by
    rw [hγ, LogGhost.setUse_uses_of_ne _ htf]
    exact ht
  have hstep := (hinv.note hf).setData hj' ht' hm (s.buf f).data
  rwa [update_idem, hγ] at hstep

lemma LogInv.bwrite_eq {t : Fin NBUF} {u : Use} (h : LogInv g p₀ strict s η γ)
    (hu : (γ p).uses t = some u) (hst : u.st = .ready) : s.bwrite p t = .done () (s.diskWrite t) := by
  rw [LogSys.bwrite, if_pos ((h.cache.use p t u hu).lock (.inr hst))]

omit [DecidableEq ι] in
lemma LogInv.buf_unique (h : LogInv g p₀ strict s η γ) {t c : Fin NBUF}
    (ht : (s.buf t).dev = g.dev) (hc : (s.buf c).dev = g.dev)
    (hn : (s.buf c).blockno = (s.buf t).blockno) : c = t :=
  h.cache.uniq t c (by rw [ht]; exact g.dev_ne) (hc.trans ht.symm) hn

lemma LogInv.cache_settle {t : Fin NBUF} {u : Use} (h : LogInv g p₀ strict s η γ)
    (hu : (γ p).uses t = some u) (hst : u.st = .ready) :
    CacheInv g s.buf s.links (η.stage.pins s.log.lh)
      (setUse (fun q => (γ q).uses) p t (some (readyUse u.dev u.blockno))) := by
  have hok := h.cache.use p t u hu
  have hlock := hok.lock (.inr hst)
  have hset := h.cache.setUse (v := readyUse u.dev u.blockno) (x := s.buf t) hu rfl rfl rfl id
    ⟨hok.dev, hok.dev_ne, hok.blockno, hok.blockno_lt, fun _ => hlock, fun _ => hok.valid hst,
      by simp [readyUse], by simp [readyUse]⟩ (by simp [hlock]) (by simp [hlock, readyUse])
  rwa [update_eq_self] at hset

omit [Fintype ι] in
lemma BufGuar.of_bwrite {s' : LogSys ι} {t : Fin NBUF} {l : LogAct}
    (hf : s.bwrite p t = .done () s')
    (hpins : ∀ s' : LogSys ι, s'.log.lh = s.log.lh → PinGuar s η.stage l s')
    (hl : ∀ b, (l = .install b → b = t) ∧ l ≠ .logWrite b ∧ ∀ d, l.stored b d = d) :
    BufGuar g s η l s' := by
  simp only [LogSys.bwrite] at hf
  split at hf <;> cases hf
  refine ⟨fun _ _ => ⟨rfl, rfl⟩, fun b _ => ((hl b).2.2 _).symm, hpins _ rfl,
    fun b hb => absurd hb (hl b).2.1, fun b hb => ?_⟩
  rw [(hl b).1 hb]
  exact s.diskWrite_disk_self rfl

lemma safe_logSlot {t f : Fin NBUF} {d : Block} (hx : x.Steady)
    (hj : x.job = some (.logging k, lh)) (hk : lh[k]? = some n)
    (ht : x.uses t = some (knownUse g.dev (g.start + k + 1) true d))
    (hf : x.uses f = some (knownUse g.dev n false d)) : (logProtocol g p₀ strict).Safe p
      (fun _ y => y = (x.setUse t (some (readyUse g.dev (g.start + k + 1)))).withJob
        (.logging (k + 1)) lh) (bwrite p (.logSlot t) t) x := by
  refine safe_logAct (LogAct.view_of_steady hx (by simp) (by simp) trivial) ?_
    (fun s η γ _ s' hinv hg hfs => .of_bwrite hfs (fun s' hs => ?_) (by simp [LogAct.stored])) ?_
  · rintro s η γ msg hinv rfl hfs
    rw [hinv.bwrite_eq ht rfl] at hfs
    cases hfs
  · rw [show η.stage = .logging k from (hinv.ctl.job p _ (by rw [hg]; exact hj)).1]
    refine .of_same (fun n hn => ?_) rfl (by simp)
    rw [hs]
    exact hn
  rintro s η γ r s' hinv rfl - hfs
  rw [hinv.bwrite_eq ht rfl] at hfs
  cases hfs
  obtain ⟨hst, hlh, -⟩ := hinv.ctl.job p _ hj
  dsimp only at hst hlh
  have hokf := hinv.cache.use p f _ hf
  have hokt := hinv.cache.use p t _ ht
  have hdata : (s.buf t).data = d := (hokt.known d rfl).2
  have hη : η.upd g (.logSlot t) = { η with stage := .logging (k + 1) } := by
    simp only [LogHist.upd, hst, Stage.next]
  have hhead : HeadOk g lh := hlh ▸ hinv.ctl.head
  have harea : g.Area (g.start + k + 1) := hhead.area_slot hk
  have hdisk : ∀ m, m ≠ g.start + k + 1 → (s.diskWrite t).disk m = s.disk m := fun m hm =>
    s.diskWrite_disk_of_ne hokt.blockno hm
  have hdisk' : (s.diskWrite t).disk (g.start + k + 1) = d :=
    (s.diskWrite_disk_self hokt.blockno).trans hdata
  refine ⟨_, ?_, rfl⟩
  rw [hη]
  have hU : update (fun q => (γ q).uses) p
      (((γ p).setUse t (some (readyUse g.dev (g.start + k + 1)))).withJob (.logging (k + 1)) lh).uses =
      setUse (fun q => (γ q).uses) p t (some (readyUse g.dev (g.start + k + 1))) := rfl
  refine hinv.jobStep (by simp [hj]) hU rfl rfl
    (by rw [show (s.diskWrite t).log.lh = lh from hlh]; rfl)
    ⟨rfl, rfl, rfl⟩ ?_ hinv.ctl.head (by rw [hst]; rfl) (by simp) ?_ ?_ fun hstrict => ?_
  · have := hinv.cache_settle ht rfl
    rw [hst] at this
    exact this
  · intro c v hv
    rcases LogGhost.setUse_uses_cases hv with ⟨-, ho⟩ | ⟨-, hv'⟩
    · cases ho
      exact .inr ⟨rfl, rfl⟩
    · exact .inl hv'
  · refine ⟨⟨by simp, ?_, by simp, by simp⟩,
      hinv.slot.clean_diskWrite hokt.dev (fun c hc => hinv.buf_unique hokt.dev hc) _⟩
    rintro k' ⟨⟩
    change k + 1 ≤ s.log.lh.length ∧ _
    rw [show (s.diskWrite t).log.lh = lh from hlh, hlh]
    refine ⟨(List.getElem?_eq_some_iff.mp hk).1, fun j m hjk hm c hcd hcn => ?_⟩
    rcases Nat.lt_succ_iff_lt_or_eq.mp hjk with hlt | rfl
    · rw [hdisk _ (by omega)]
      exact (hinv.slot.logging k hst).2 j m hlt (hlh ▸ hm) c hcd hcn
    · -- the block just written is the one that was copied from the buffer of the home block
      rw [hk] at hm
      cases hm
      have hcf : c = f := hinv.buf_unique hokf.dev hcd (hcn.trans hokf.blockno.symm)
      rw [hdisk', hcf]
      exact (hokf.known d rfl).2
  · have hcrash := hinv.crash hstrict
    refine hcrash.restage (fun n hn => hdisk n fun e => hn (e ▸ harea)) (by rw [hst]; rfl)
      (fun n hn => ?_) rfl (fun q c u hu => ?_) (fun c hc hu => ?_) ?_
    · rw [hst] at hn
      exact hn
    · rcases setUse_cases hu with ⟨-, -, ho⟩ | ⟨-, hu'⟩
      · cases ho
        rfl
      · exact hcrash.dev q c u hu'
    · have hct : c ≠ t := by
        rintro rfl
        rw [show (s.buf c).blockno = g.start + k + 1 from hokt.blockno] at hc
        exact hc harea
      exact fun q u hq => hu q u ((setUse_of_ne_buf hct p q _).trans hq)
    · have hstage := hcrash.stage
      simp only [StageInv, hst, hlh] at hstage
      obtain ⟨S, gs, h1, h2, h3, h4, h5, h6⟩ := hstage
      simp only [StageInv]
      rw [show (s.diskWrite t).log.lh = lh from hlh]
      refine ⟨S, gs, h1, ?_, h3, h4, h5, fun j m hjk hm => ?_⟩
      · have := h2.update_area harea (by omega) (s.buf t).data
        rwa [← show (s.buf t).blockno = g.start + k + 1 from hokt.blockno] at this
      · rcases Nat.lt_succ_iff_lt_or_eq.mp hjk with hlt | rfl
        · rw [hdisk _ (by omega)]
          exact h6 j m hlt hm
        rw [hk] at hm
        cases hm
        have hcur := hcrash.cached (by rw [hst]; rfl) f (hokf.valid rfl) hokf.dev
          (by rw [hokf.blockno]; exact hhead.area n (List.mem_of_getElem? hk))
        rw [(hokf.known d rfl).2, hokf.blockno] at hcur
        rw [hdisk', hcur]
        rfl

/-! ## Two buffers at a time -/

/-- What the thread with the job owns while it uses the two buffers `t` and `f`. -/
def pairGhost (st : Stage) (lh : List ℕ) (client : Bool) (t f : Fin NBUF) (u v : Use) : LogGhost :=
  ((jobGhost st lh client).setUse t (some u)).setUse f (some v)

section Pair

variable {client : Bool} {t f : Fin NBUF} {u v : Use}

omit [Fintype ι] [DecidableEq ι]

@[simp] lemma pairGhost_snd : (pairGhost st lh client t f u v).uses f = some v :=
  LogGhost.setUse_uses_self ..

@[simp] lemma pairGhost_job : (pairGhost st lh client t f u v).job = some (st, lh) := rfl

lemma pairGhost_fst (htf : t ≠ f) : (pairGhost st lh client t f u v).uses t = some u := by
  rw [pairGhost, LogGhost.setUse_uses_of_ne _ htf, LogGhost.setUse_uses_self]

lemma pairGhost_comm (htf : t ≠ f) :
    pairGhost st lh client t f u v = pairGhost st lh client f t v u := by
  simp only [pairGhost, LogGhost.setUse, LogGhost.mk.injEq, and_true]
  exact update_comm (β := fun _ => Option Use) htf (some u) (some v) _

lemma pairGhost_setUse_snd (w : Use) :
    (pairGhost st lh client t f u v).setUse f (some w) = pairGhost st lh client t f u w := by
  simp only [pairGhost, LogGhost.setUse_setUse]

lemma pairGhost_setUse_fst (htf : t ≠ f) (w : Use) :
    (pairGhost st lh client t f u v).setUse t (some w) = pairGhost st lh client t f w v := by
  rw [pairGhost_comm htf, pairGhost_setUse_snd, ← pairGhost_comm htf]

lemma pairGhost_withJob (st' : Stage) (lh' : List ℕ) :
    (pairGhost st lh client t f u v).withJob st' lh' = pairGhost st' lh' client t f u v := rfl

lemma steady_pairGhost (hu : u.st = .ready) (hv : v.st = .ready) :
    (pairGhost st lh client t f u v).Steady :=
  (steady_jobGhost.setUse_some t (.inr hu)).setUse_some f (.inr hv)

end Pair

section PairPrograms

variable {client : Bool} {t f : Fin NBUF} {u v : Use}

lemma safe_breadPair {K : Fin NBUF → Fin NBUF → LogProg ι Unit} (hhead : HeadOk g lh)
    (hget : lh[k]? = some m) (hK : ∀ t f, t ≠ f → (logProtocol g p₀ strict).Safe p Q (K t f)
      (pairGhost st lh client t f (readyUse g.dev (g.start + k + 1)) (readyUse g.dev m))) :
    (logProtocol g p₀ strict).Safe p Q
      (do
        let t ← bread p g.dev (g.start + k + 1)
        let f ← bread p g.dev m
        K t f) (jobGhost st lh client) := by
  have harea : g.Area (g.start + k + 1) := hhead.area_slot hget
  have hm := List.mem_of_getElem? hget
  have hbound : g.start + k + 1 < 2 ^ 32 := lt_of_lt_of_le harea.2 g.bound
  refine Protocol.Safe.bind (safe_bread steady_jobGhost g.dev_ne hbound
    (fun _ => ⟨by simp [jobGhost], rfl⟩) (by simp [jobGhost]) fun t _ => ?_)
  refine Protocol.Safe.bind (safe_bread (steady_jobGhost.setUse_some t (.inr rfl)) g.dev_ne
    (hhead.lt m hm) (fun ha => absurd ha (hhead.area m hm)) ?_ fun f hf => hK t f ?_)
  · rintro c u hu - rfl
    rcases LogGhost.setUse_uses_cases hu with ⟨-, ho⟩ | ⟨-, hu'⟩
    · cases ho
      exact hhead.area _ hm harea
    · cases hu'
  · rintro rfl
    rw [LogGhost.setUse_uses_self] at hf
    cases hf

lemma safe_brelsePair (htf : t ≠ f) (hu : u.st = .ready ∧ u.dirty = false)
    (hv : v.st = .ready ∧ v.dirty = false) {K : LogProg ι Unit}
    (hK : (logProtocol g p₀ strict).Safe p Q K (jobGhost st lh client)) :
    (logProtocol g p₀ strict).Safe p Q
      (do
        brelse p t
        brelse p f
        K) (pairGhost st lh client t f u v) := by
  refine Protocol.Safe.bind (safe_brelse (steady_pairGhost hu.1 hv.1) (pairGhost_fst htf) hu.1 hu.2
    ?_)
  have hone : (pairGhost st lh client t f u v).setUse t none =
      (jobGhost st lh client).setUse f (some v) := by
    rw [pairGhost_comm htf, pairGhost, LogGhost.setUse_setUse]
    simp only [LogGhost.setUse, LogGhost.mk.injEq, and_true]
    refine (update_eq_self_iff).mpr ?_
    rw [update_of_ne htf]
    rfl
  rw [hone]
  refine Protocol.Safe.bind (safe_brelse (steady_jobGhost.setUse_some f (.inr hv.1))
    (LogGhost.setUse_uses_self ..) hv.1 hv.2 ?_)
  have hnone : ((jobGhost st lh client).setUse f (some v)).setUse f none =
      jobGhost st lh client := by
    rw [LogGhost.setUse_setUse]
    simp only [LogGhost.setUse, jobGhost, LogGhost.mk.injEq, and_true]
    exact update_eq_self_iff.mpr rfl
  rw [hnone]
  exact hK

end PairPrograms

lemma safe_writeLogFrom (n k : ℕ) (hk : k ≤ lh.length) (hn : lh.length < n + k) :
    (logProtocol g p₀ strict).Safe p (fun _ y => y = jobGhost (.logging lh.length) lh true)
      (writeLogFrom p g n k) (jobGhost (.logging k) lh true) := by
  induction n generalizing k with
  | zero => omega
  | succ n ih =>
    refine (safe_loopTest steady_jobGhost rfl).seq ?_
    rintro r y ⟨rfl, hhead, rfl⟩
    rcases hget : lh[k]? with _ | m
    · have hle := List.getElem?_eq_none_iff.mp hget
      rw [le_antisymm hk hle]
      exact Protocol.safe_ret rfl
    have hlt := (List.getElem?_eq_some_iff.mp hget).1
    refine safe_breadPair hhead hget fun t f htf => ?_
    refine (safe_memmove (steady_pairGhost rfl rfl) pairGhost_job (pairGhost_fst htf)
      pairGhost_snd htf (.inl (hhead.area_slot hget))).seq ?_
    rintro - y ⟨d, rfl⟩
    rw [pairGhost_setUse_snd, pairGhost_setUse_fst htf]
    refine (safe_logSlot (steady_pairGhost rfl rfl) pairGhost_job hget (pairGhost_fst htf)
      pairGhost_snd).seq ?_
    rintro - y rfl
    rw [pairGhost_setUse_fst htf, pairGhost_withJob, pairGhost_comm htf]
    exact safe_brelsePair htf.symm ⟨rfl, rfl⟩ ⟨rfl, rfl⟩ (ih (k + 1) hlt (by omega))

end Xv6
