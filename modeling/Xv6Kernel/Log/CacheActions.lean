import Xv6Kernel.Log.DataSteps

/-!
# `bread` and `brelse`

Each action of the buffer cache keeps the invariant, and from that the rules for the programs
`bread` and `brelse`: a thread that is at rest with its buffers gains and loses the use of one.
-/

namespace Xv6

open Function

variable {ι : Type}
variable {u : Use} {dev n : ℕ}

/-! ## Traversals of the list of buffers -/

section Lists

variable {s : LogSys ι} {l : List (Fin NBUF)}

lemma length_of_ring {L : Links (Option (Fin NBUF))} (hr : L.Ring none (l.map some))
    (hall : ∀ b, b ∈ l) : l.length = NBUF := by
  have hnd : l.Nodup := (List.nodup_cons.mp hr.nodup).2.of_map _
  have hcard := List.toFinset_card_of_nodup hnd
  rw [← hcard, Finset.eq_univ_iff_forall.mpr fun b => List.mem_toFinset.mpr (hall b),
    Finset.card_univ, Fintype.card_fin]

section

variable (hr : s.links.Ring none (l.map some)) (hall : ∀ b, b ∈ l)
include hr hall

lemma LogSys.forward_eq : s.forward = l := by
  rw [LogSys.forward, hr.follow_next (by simp [length_of_ring hr hall])]
  simp

lemma LogSys.backward_eq : s.backward = l.reverse := by
  rw [LogSys.backward, hr.follow_prev (by simp [length_of_ring hr hall])]
  simp

lemma LogSys.bget_cases {b : Fin NBUF}
    {s' : LogSys ι} (h : s.bget dev n = .done b s') :
    ((s.buf b).dev = dev ∧ (s.buf b).blockno = n ∧
      s' = s.setBuf b { s.buf b with refcnt := (s.buf b).refcnt + 1 }) ∨
    ((∀ c, (s.buf c).dev = dev → (s.buf c).blockno ≠ n) ∧ (s.buf b).refcnt = 0 ∧
      s' = s.setBuf b
        { s.buf b with dev := dev, blockno := n, valid := false, refcnt := 1 }) := by
  simp only [LogSys.bget] at h
  split at h
  · rename_i c hc
    cases h
    have := List.find?_some hc
    simp only [Bool.and_eq_true, decide_eq_true_eq] at this
    exact .inl ⟨this.1, this.2, rfl⟩
  rename_i hnone
  have hmiss : ∀ c, (s.buf c).dev = dev → (s.buf c).blockno ≠ n := fun c hd hn => by
    rw [LogSys.forward_eq hr hall, List.find?_eq_none] at hnone
    simpa [hd, hn] using hnone c (hall c)
  split at h
  · rename_i c hc
    cases h
    have := List.find?_some hc
    exact .inr ⟨hmiss, by simpa using this, rfl⟩
  · cases h

end

lemma LogSys.bget_panic {msg : String} (h : s.bget dev n = .panic msg) :
    msg = "bget: no buffers" := by
  simp only [LogSys.bget] at h
  split at h
  · cases h
  · split at h <;> cases h
    rfl

end Lists

section Actions

variable [Fintype ι] [DecidableEq ι] {g : LogGeom} {strict : Prop} {p₀ p : ι} {x : LogGhost}

section

variable {β : Type} {Q : β → LogGhost → Prop} {l : LogAct}

lemma safe_logAct {f : LogSys ι → Outcome (LogSys ι) β} (hview : l.View g x)
    (hpanic : ∀ s η γ msg, LogInv g p₀ strict s η γ → γ p = x → f s = .panic msg →
      msg = "bget: no buffers" ∨ msg = "too big a transaction")
    (hguar : ∀ s η γ b s', LogInv g p₀ strict s η γ → γ p = x → f s = .done b s' →
      BufGuar g s η l s') (hdone : ∀ s η γ b s', LogInv g p₀ strict s η γ → γ p = x →
      (strict → ∀ dev n, l = .bget dev n → dev = g.dev) → f s = .done b s' →
      ∃ y, LogInv g p₀ strict s' (η.upd g l) (update γ p y) ∧ Q b y) :
    (logProtocol g p₀ strict).Safe p Q (.atomic l f) x :=
  Protocol.safe_atomic hview (fun s η γ msg hinv hg _ hf => hpanic s η γ msg hinv hg hf)
    fun s η γ b s' hinv hg hok hf => ⟨hguar s η γ b s' hinv hg hf, hdone s η γ b s' hinv hg hok hf⟩

lemma safe_neutral (hl : l.neutral = true)
    {f : LogSys ι → Outcome (LogSys ι) β} (hview : l.View g x)
    (hpanic : ∀ s η γ msg, LogInv g p₀ strict s η γ → γ p = x → f s = .panic msg →
      msg = "bget: no buffers" ∨ msg = "too big a transaction")
    (hguar : ∀ s η γ b s', LogInv g p₀ strict s η γ → γ p = x → f s = .done b s' →
      BufGuar g s η l s') (hdone : ∀ s η γ b s', LogInv g p₀ strict s η γ → γ p = x →
      (strict → ∀ dev n, l = .bget dev n → dev = g.dev) → f s = .done b s' →
      ∃ y, LogInv g p₀ strict s' η (update γ p y) ∧ Q b y) :
    (logProtocol g p₀ strict).Safe p Q (.atomic l f) x := by
  refine safe_logAct hview hpanic hguar fun s η γ b s' hinv hg hok hf => ?_
  rw [LogHist.upd_of_neutral hl]
  exact hdone s η γ b s' hinv hg hok hf

end

section Guarantees

omit [Fintype ι] [DecidableEq ι]

variable {s s' : LogSys ι} {st : Stage} {η : LogHist} {l : LogAct} {b : Fin NBUF} {y : Buf ι}

lemma PinGuar.of_empty (h : st.pins s.log.lh = []) (hl : ∀ b, l ≠ .bunpin b) :
    PinGuar s st l s' := by
  constructor <;> simp [h, hl]

lemma PinGuar.of_same (hpins : ∀ n ∈ st.pins s.log.lh, n ∈ (st.next l).pins s'.log.lh)
    (hwritten : (st.next l).written s'.log.lh = st.written s.log.lh)
    (hl : ∀ b, l ≠ .install b ∧ l ≠ .bunpin b) : PinGuar s st l s' := by
  refine ⟨fun n hn _ => hpins n hn, fun n _ => ?_, fun b hb => absurd hb (hl b).2⟩
  rw [hwritten]
  exact ⟨.inl, fun h => h.elim id fun ⟨b, hb, _⟩ => absurd hb (hl b).1⟩

lemma PinGuar.of_neutral (hl : l.neutral = true) (hlh : s'.log.lh = s.log.lh) :
    PinGuar s st l s' := by
  refine .of_same (fun n hn => ?_) ?_ fun b => ⟨fun hb => ?_, fun hb => ?_⟩
  · rw [Stage.next_of_neutral hl, hlh]
    exact hn
  · rw [Stage.next_of_neutral hl, hlh]
  all_goals
    rw [hb] at hl
    cases hl

lemma BufGuar.of_same (h : ∀ b, (s'.buf b).dev = (s.buf b).dev ∧
      (s'.buf b).blockno = (s.buf b).blockno ∧ (s'.buf b).data = (s.buf b).data)
    (hpins : PinGuar s η.stage l s')
    (hl : ∀ b, l ≠ .install b ∧ l ≠ .logWrite b ∧ ∀ d, l.stored b d = d) : BufGuar g s η l s' :=
  ⟨fun b _ => ⟨(h b).1, (h b).2.1⟩, fun b _ => by rw [(hl b).2.2, (h b).2.2], hpins,
    fun b hb => absurd hb (hl b).2.1, fun b hb => absurd hb (hl b).1⟩

lemma BufGuar.of_setBuf (hs : s'.buf = update s.buf b y) (hdev : y.dev = (s.buf b).dev)
    (hno : y.blockno = (s.buf b).blockno)
    (hdata : (s.buf b).pinned g (η.stage.pins s.log.lh) = true → y.data = l.stored b (s.buf b).data)
    (hpins : PinGuar s η.stage l s') (hl : ∀ c, l ≠ .install c ∧ (c ≠ b → ∀ d, l.stored c d = d))
    (hlog : ∀ c, l = .logWrite c → (s'.buf c).pinned g ((η.stage.next l).pins s'.log.lh) = true ∧
      (s'.buf c).blockno ∉ (η.stage.next l).written s'.log.lh) : BufGuar g s η l s' := by
  refine ⟨fun c _ => ?_, fun c hc => ?_, hpins, hlog, fun c hc => absurd hc (hl c).1⟩
  all_goals
    rw [hs]
    by_cases hcb : c = b
    · subst hcb
      rw [update_self]
      first
        | exact ⟨hdev, hno⟩
        | exact hdata hc
    rw [update_of_ne hcb]
    first
      | exact ⟨rfl, rfl⟩
      | exact ((hl c).2 hcb _).symm

end Guarantees

def readyUse (dev n : ℕ) : Use := ⟨dev, n, .ready, false, none⟩

def waitUse (dev n : ℕ) : Use := ⟨dev, n, .waiting, false, none⟩

lemma LogAct.view_of_steady {l : LogAct} (hx : x.Steady) (h1 : ∀ b, l ≠ .acquiresleep b)
    (h2 : ∀ b, l ≠ .unref b) (hjob : l.jobView g x) : l.View g x := by
  refine ⟨fun b u hu => ?_, hjob⟩
  rcases hx b u hu with hst | hst <;> simp [hst, h1 b, h2 b]

lemma LogAct.view_setUse {l : LogAct} {b : Fin NBUF} (hx : x.Steady)
    (hw : u.st = .waiting ∧ l = .acquiresleep b ∨ u.st = .releasing ∧ l = .unref b) :
    l.View g (x.setUse b (some u)) := by
  refine ⟨fun c v hv => ?_, by rcases hw with ⟨-, rfl⟩ | ⟨-, rfl⟩ <;>
    simp [LogAct.jobView, LogGhost.setUse]⟩
  by_cases hc : c = b
  · subst hc
    simp only [LogGhost.setUse, update_self, Option.some.injEq] at hv
    subst hv
    rcases hw with ⟨h1, rfl⟩ | ⟨h1, rfl⟩ <;> simp [h1]
  · simp only [LogGhost.setUse, update_of_ne hc] at hv
    rcases hw with ⟨-, rfl⟩ | ⟨-, rfl⟩ <;> rcases hx c v hv with hst | hst <;>
      simp [hst, Ne.symm hc]

@[simp] lemma LogGhost.setUse_setUse (x : LogGhost) (b : Fin NBUF) (o o' : Option Use) :
    (x.setUse b o).setUse b o' = x.setUse b o' := by
  simp [LogGhost.setUse]

@[simp] lemma LogGhost.setUse_uses_self (x : LogGhost) (b : Fin NBUF) (o : Option Use) :
    (x.setUse b o).uses b = o := by
  simp [LogGhost.setUse]

lemma LogGhost.setUse_uses_of_ne (x : LogGhost) {b c : Fin NBUF} (h : c ≠ b) (o : Option Use) :
    (x.setUse b o).uses c = x.uses c := by
  simp [LogGhost.setUse, h]

lemma LogGhost.setUse_uses_cases {b c : Fin NBUF} {o : Option Use} {v : Use}
    (h : (x.setUse b o).uses c = some v) : (c = b ∧ o = some v) ∨ (c ≠ b ∧ x.uses c = some v) := by
  by_cases hc : c = b
  · subst hc
    rw [x.setUse_uses_self] at h
    exact .inl ⟨rfl, h⟩
  · rw [x.setUse_uses_of_ne hc] at h
    exact .inr ⟨hc, h⟩

@[simp] lemma LogGhost.setUse_op (x : LogGhost) (b : Fin NBUF) (o : Option Use) :
    (x.setUse b o).op = x.op := rfl

@[simp] lemma LogGhost.setUse_job (x : LogGhost) (b : Fin NBUF) (o : Option Use) :
    (x.setUse b o).job = x.job := rfl

lemma LogGhost.Steady.setUse_none (hx : x.Steady) (b : Fin NBUF) : (x.setUse b none).Steady := by
  intro c v hv
  rcases LogGhost.setUse_uses_cases hv with ⟨-, ho⟩ | ⟨-, hv'⟩
  · cases ho
  · exact hx c v hv'

lemma LogGhost.Steady.setUse_some (hx : x.Steady) (b : Fin NBUF)
    (hu : u.st = .locked ∨ u.st = .ready) : (x.setUse b (some u)).Steady := by
  intro c v hv
  rcases LogGhost.setUse_uses_cases hv with ⟨-, ho⟩ | ⟨-, hv'⟩
  · cases ho
    exact hu
  · exact hx c v hv'

lemma safe_bget (hx : x.Steady) (hdev : dev ≠ 0) (hn : n < 2 ^ 32)
    (harea : g.Area n → x.job ≠ none ∧ dev = g.dev)
    (hnew : ∀ b u, x.uses b = some u → u.dev = dev → u.blockno ≠ n) :
    (logProtocol g p₀ strict).Safe p
      (fun b y => x.uses b = none ∧ y = x.setUse b (some (waitUse dev n)))
      (.atomic (.bget dev n) fun s => s.bget dev n) x := by
  refine safe_neutral rfl (LogAct.view_of_steady hx (by simp) (by simp) trivial)
    (fun s η γ msg _ _ h => .inl (LogSys.bget_panic h)) ?_ ?_
  · rintro s η γ b s' hinv - hf
    obtain ⟨l, hr, hall⟩ := hinv.cache.ring
    rcases LogSys.bget_cases hr hall hf with ⟨-, -, rfl⟩ | ⟨-, href, rfl⟩
    · exact .of_setBuf rfl rfl rfl (fun _ => rfl) (.of_neutral rfl rfl)
        (by simp [LogAct.stored]) (by simp)
    · -- the victim is not referenced, so nothing is claimed of it
      have hfree : ∀ c, 0 < (s.buf c).refcnt → c ≠ b := by
        rintro c hc rfl
        omega
      refine ⟨fun c hc => ?_, fun c hc => ?_, PinGuar.of_neutral rfl rfl, by simp, by simp⟩
      · simp [LogSys.setBuf, hfree c hc]
      · have hpos : 0 < (s.buf c).refcnt := by
          rw [hinv.cache.refcnt c, hc, Bool.toNat_true]
          omega
        simp [LogSys.setBuf, hfree c hpos, LogAct.stored]
  rintro s η γ b s' hinv rfl hok hf
  obtain ⟨l, hr, hall⟩ := hinv.cache.ring
  have hallowed : ∀ u, some (waitUse dev n) = some u →
      u.Allowed g η.stage (γ p).op (γ p).job := by
    rintro u ⟨⟩
    exact ⟨harea, by simp [waitUse], by simp [waitUse]⟩
  have hstrict : strict → ∀ u, some (waitUse dev n) = some u → u.dev = g.dev := by
    rintro hs u ⟨⟩
    exact hok hs dev n rfl
  rcases LogSys.bget_cases hr hall hf with ⟨hd, hno, rfl⟩ | ⟨hmiss, href, rfl⟩
  · have hnone : (γ p).uses b = none := by
      cases hu : (γ p).uses b with
      | none => rfl
      | some u =>
        have hb := hinv.cache.use p b u hu
        exact absurd (hb.blockno.symm.trans hno) (hnew b u hu (hb.dev.symm.trans hd))
    have hunused : ∀ u, (γ p).uses b = some u → u.dirty = false := by simp [hnone]
    refine ⟨_, hinv.change (hinv.cache.addUse hnone ?_) hallowed ?_ ?_ ?_ hstrict ?_ ?_,
      hnone, rfl⟩
    · exact ⟨hd, hdev, hno, hn, by simp [waitUse], by simp [waitUse], by simp [waitUse],
        by simp [waitUse]⟩
    · simp [hnone]
    · exact fun hv hdv ha hu hun => hinv.clean hv hdv ha (hu.of_setUse hunused) hun
    · exact fun _ _ _ => ⟨rfl, rfl, rfl⟩
    · exact fun hs hup hv hdv ha => (hinv.crash hs).cached hup b hv hdv ha
    · exact fun hs hup hv hdv ha hx => absurd ⟨hv, hdv, rfl⟩ hx
  · -- the victim has no user and is not pinned, so its contents are on disk
    have hzero := hinv.cache.refcnt b
    rw [href] at hzero
    have hnone : ∀ q, (γ q).uses b = none := fun q => by
      cases hu : (γ q).uses b with
      | none => rfl
      | some u => exact absurd (users_pos (U := fun q => (γ q).uses) hu) (by omega)
    have hunpinned : (s.buf b).dev = g.dev → (s.buf b).blockno ∉ η.stage.pins s.log.lh :=
      fun hd hm => by
        have : (s.buf b).pinned g (η.stage.pins s.log.lh) = true := Buf.pinned_iff.mpr ⟨hd, hm⟩
        simp [this] at hzero
    refine ⟨_, hinv.change (hinv.cache.recycle href rfl rfl rfl rfl ?_ hmiss) hallowed ?_ ?_ ?_
      hstrict ?_ ?_, hnone p, rfl⟩
    · exact ⟨rfl, hdev, rfl, hn, by simp [waitUse], by simp [waitUse], by simp [waitUse],
        by simp [waitUse]⟩
    · simp [hnone]
    · simp
    · intro _ hd hm
      obtain ⟨c, hcd, hcn, -⟩ := hinv.cache.pinned n hm
      exact absurd hcn (hmiss c (hcd.trans hd.symm))
    · simp
    · intro hs hup hv hd ha _
      have hdata := hinv.clean hv hd (.inl hs) (fun q u hu => by simp [hnone q] at hu)
        (fun hm => hunpinned hd (Stage.unsynced_subset_pins hup
          (fun i u hst => (hinv.slot.headed i u hst).1) hm))
      rw [← hdata]
      exact (hinv.crash hs).cached hup b hv hd ha

lemma safe_acquiresleep {b : Fin NBUF} (hx : x.Steady) : (logProtocol g p₀ strict).Safe p
      (fun _ y => y = x.setUse b (some ⟨dev, n, .locked, false, none⟩))
      (.atomic (.acquiresleep b) fun s => s.acquiresleep p b) (x.setUse b (some (waitUse dev n))) := by
  refine safe_neutral rfl (LogAct.view_setUse hx (.inl ⟨rfl, rfl⟩)) ?_ ?_ ?_
  · intro s η γ msg _ _ hf
    simp only [LogSys.acquiresleep] at hf
    split at hf <;> cases hf
  · intro s η γ _ s' _ _ hf
    simp only [LogSys.acquiresleep] at hf
    split at hf <;> cases hf
    exact .of_setBuf rfl rfl rfl (fun _ => rfl) (.of_neutral rfl rfl)
      (by simp [LogAct.stored]) (by simp)
  · intro s η γ _ s' hinv hg _ hf
    simp only [LogSys.acquiresleep] at hf
    split at hf
    swap
    · cases hf
    rename_i hfree
    cases hf
    have hu : (γ p).uses b = some (waitUse dev n) := by simp [hg]
    have hok := hinv.cache.use p b _ hu
    have hal := hinv.uses.allowed hu
    refine ⟨_, ?_, rfl⟩
    rw [← LogGhost.setUse_setUse, ← hg]
    refine hinv.changeUse hu rfl ⟨rfl, rfl⟩ rfl ?_ (by simp [hfree]) (by simp)
    exact ⟨hok.dev, hok.dev_ne, hok.blockno, hok.blockno_lt, by simp, by simp, by simp, by simp⟩

lemma safe_diskRead {b : Fin NBUF} (hx : x.Steady) :
    (logProtocol g p₀ strict).Safe p (fun _ y => y = x.setUse b (some (readyUse dev n)))
      (.atomic (.diskRead b) fun s => .done () (s.diskRead b))
      (x.setUse b (some ⟨dev, n, .locked, false, none⟩)) := by
  refine safe_neutral rfl
    (LogAct.view_of_steady (hx.setUse_some b (.inl rfl)) (by simp) (by simp) trivial)
    (by simp) ?_ ?_
  · intro s η γ _ s' hinv _ hf
    cases hf
    by_cases hv : (s.buf b).valid = true
    · rw [LogSys.diskRead, if_pos hv]
      exact .of_same (fun _ => ⟨rfl, rfl, rfl⟩) (.of_neutral rfl rfl)
        (by simp [LogAct.stored])
    · rw [LogSys.diskRead, if_neg hv]
      exact .of_setBuf rfl rfl rfl (fun hp => absurd (hinv.cache.valid_of_pinned hp) hv)
        (.of_neutral rfl rfl) (by simp [LogAct.stored]) (by simp)
  intro s η γ _ s' hinv hg _ hf
  cases hf
  have hu : (γ p).uses b = some ⟨dev, n, .locked, false, none⟩ := by simp [hg]
  have hok := hinv.cache.use p b _ hu
  have hlock : (s.buf b).lock = some p := hok.lock (.inl rfl)
  refine ⟨_, ?_, rfl⟩
  rw [← LogGhost.setUse_setUse, ← hg, LogSys.diskRead]
  split
  · rename_i hv
    have hself : s = s.setBuf b (s.buf b) := by simp [LogSys.setBuf]
    rw [hself]
    refine hinv.changeUse hu rfl ⟨rfl, rfl⟩ rfl ?_ (by simp [hlock]) (by simp [hlock, readyUse])
    exact ⟨hok.dev, hok.dev_ne, hok.blockno, hok.blockno_lt, by simp [hlock], by simp [hv],
      by simp [readyUse], by simp [readyUse]⟩
  rename_i hv
  have hal := hinv.uses.allowed hu
  refine hinv.change (hinv.cache.setUse hu rfl rfl rfl (by simp) ?_ (by simp [hlock])
    (by simp [hlock, readyUse])) ?_ ?_ ?_ ?_ ?_ ?_ ?_
  · exact ⟨hok.dev, hok.dev_ne, hok.blockno, hok.blockno_lt, by simp [hlock], by simp,
      by simp [readyUse], by simp [readyUse]⟩
  · rintro v ⟨⟩
    exact ⟨hal.area, by simp [readyUse], by simp [readyUse]⟩
  · simp [hu]
  · exact fun _ _ _ _ _ => rfl
  · intro _ hd hm
    exact absurd (hinv.cache.valid_of_pinned (Buf.pinned_iff.mpr ⟨hd, hm⟩)) hv
  · rintro hs v ⟨⟩
    exact (hinv.crash hs).dev p b ⟨dev, n, .locked, false, none⟩ hu
  · intro hs hup _ hd ha
    refine (hinv.crash hs).uncached hup _ ha fun c hcd hcn => ?_
    have hcb : c = b := hinv.cache.uniq b c (by rw [hok.dev]; exact hok.dev_ne)
      (hcd.trans hd.symm) hcn
    rw [hcb]
    simpa using hv
  · exact fun _ _ hv' _ _ _ => absurd hv' hv

lemma safe_releasesleep {b : Fin NBUF} (hx : x.Steady) (hu : x.uses b = some u)
    (hst : u.st = .ready) (hdirty : u.dirty = false) : (logProtocol g p₀ strict).Safe p
      (fun _ y => y = x.setUse b (some ⟨u.dev, u.blockno, .releasing, false, none⟩))
      (.atomic (.releasesleep b) fun s => s.releasesleep p b) x := by
  refine safe_neutral rfl (LogAct.view_of_steady hx (by simp) (by simp) trivial) ?_ ?_ ?_
  · rintro s η γ msg hinv rfl hf
    have hlock := (hinv.cache.use p b u hu).lock (.inr hst)
    simp only [LogSys.releasesleep, hlock, if_true] at hf
    cases hf
  · intro s η γ _ s' _ _ hf
    simp only [LogSys.releasesleep] at hf
    split at hf <;> cases hf
    exact .of_setBuf rfl rfl rfl (fun _ => rfl) (.of_neutral rfl rfl)
      (by simp [LogAct.stored]) (by simp)
  · rintro s η γ _ s' hinv rfl - hf
    have hok := hinv.cache.use p b u hu
    have hlock := hok.lock (.inr hst)
    simp only [LogSys.releasesleep, hlock, if_true] at hf
    cases hf
    refine ⟨_, hinv.changeUse (v := ⟨u.dev, u.blockno, .releasing, false, none⟩) hu rfl
      ⟨rfl, rfl⟩ hdirty.symm ?_ (by simp [hlock]) (by simp), rfl⟩
    exact ⟨hok.dev, hok.dev_ne, hok.blockno, hok.blockno_lt, by simp, by simp, by simp, by simp⟩

lemma safe_unref {b : Fin NBUF} (hx : (x.setUse b none).Steady) :
    (logProtocol g p₀ strict).Safe p (fun _ y => y = x.setUse b none)
      (.atomic (.unref b) fun s => .done () (s.unref b))
      (x.setUse b (some ⟨dev, n, .releasing, false, none⟩)) := by
  have hview : LogAct.View g (.unref b)
      ((x.setUse b none).setUse b (some ⟨dev, n, .releasing, false, none⟩)) :=
    LogAct.view_setUse hx (.inr ⟨rfl, rfl⟩)
  rw [LogGhost.setUse_setUse] at hview
  refine safe_neutral rfl hview (by simp) ?_ ?_
  · intro s η γ _ s' _ _ hf
    cases hf
    refine .of_setBuf (b := b) (y := { s.buf b with refcnt := (s.buf b).refcnt - 1 }) ?_ rfl rfl
      (fun _ => rfl) (.of_neutral rfl ?_) (by simp [LogAct.stored]) (by simp)
    all_goals
      simp only [LogSys.unref]
      split <;> rfl
  intro s η γ _ s' hinv hg _ hf
  cases hf
  have hu : (γ p).uses b = some ⟨dev, n, .releasing, false, none⟩ := by simp [hg]
  have hkeep : ∀ links', (∃ l : List (Fin NBUF), links'.Ring none (l.map some) ∧ ∀ b, b ∈ l) →
      LogInv g p₀ strict { s with
          buf := update s.buf b { s.buf b with refcnt := (s.buf b).refcnt - 1 }
          links := links' } η (update γ p ((γ p).setUse b none)) := by
    intro links' hring
    refine hinv.change (hinv.cache.dropUse hu rfl hring) (by simp) (by simp [hu]) ?_ ?_
      (by simp) ?_ ?_
    · exact fun hv hd ha hund hun => hinv.clean hv hd ha (hund.of_setUse (by simp [hu])) hun
    · exact fun _ _ _ => ⟨rfl, rfl, rfl⟩
    · exact fun hs hup hv hd ha => (hinv.crash hs).cached hup b hv hd ha
    · exact fun hs hup hv hd ha hno => absurd ⟨hv, hd, rfl⟩ hno
  refine ⟨_, ?_, rfl⟩
  rw [← LogGhost.setUse_setUse x b (some ⟨dev, n, .releasing, false, none⟩), ← hg]
  simp only [LogSys.unref]
  split
  · exact hkeep _ (hinv.cache.ring_moveToFront b)
  · exact hkeep _ hinv.cache.ring

lemma safe_bread {Q : Fin NBUF → LogGhost → Prop} (hx : x.Steady) (hdev : dev ≠ 0)
    (hn : n < 2 ^ 32) (harea : g.Area n → x.job ≠ none ∧ dev = g.dev)
    (hnew : ∀ b u, x.uses b = some u → u.dev = dev → u.blockno ≠ n)
    (hQ : ∀ b, x.uses b = none → Q b (x.setUse b (some (readyUse dev n)))) :
    (logProtocol g p₀ strict).Safe p Q (bread p dev n) x := by
  refine Protocol.Safe.seq (Protocol.Safe.seq (safe_bget hx hdev hn harea hnew) ?_) ?_
    (R := fun b y => x.uses b = none ∧ y = x.setUse b (some ⟨dev, n, .locked, false, none⟩))
  · rintro b y ⟨hb, rfl⟩
    exact (safe_acquiresleep hx).seq fun _ y hy => ⟨hb, hy⟩
  · rintro b y ⟨hb, rfl⟩
    refine (safe_diskRead hx).seq ?_
    rintro - y rfl
    exact hQ b hb

lemma safe_brelse {b : Fin NBUF} {Q : Unit → LogGhost → Prop} (hx : x.Steady)
    (hu : x.uses b = some u) (hst : u.st = .ready) (hdirty : u.dirty = false)
    (hQ : Q () (x.setUse b none)) : (logProtocol g p₀ strict).Safe p Q (brelse p b) x := by
  refine (safe_releasesleep hx hu hst hdirty).seq ?_
  rintro - y rfl
  refine (safe_unref (hx.setUse_none b)).mono ?_
  rintro - y rfl
  exact hQ

end Actions

end Xv6
