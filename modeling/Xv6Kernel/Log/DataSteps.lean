import Xv6Kernel.Log.CacheSteps

/-!
# The invariant under a change of one buffer

Most actions change one buffer and the use of that buffer by the acting thread, and leave the disk,
the counters of the log and the history alone.
-/

namespace Xv6

open Function

variable {ι : Type} {g : LogGeom}
variable {l : LogAct} {u : Use} {n : ℕ}

/-! ## Neutral actions -/

def LogAct.neutral : LogAct → Bool
  | .bget _ _ | .acquiresleep _ | .diskRead _ | .bwrite _ | .releasesleep _ | .unref _
  | .beginOp | .logWrite _ | .endOp | .loopTest | .memmove _ _ | .fillHead _ => true
  | .modify _ _ _ _ | .endCommit | .commit | .logSlot _ | .install _ | .bunpin _
  | .writeHead _ _ | .clear | .readHead _ | .ready => false

lemma Stage.next_of_neutral (hl : l.neutral = true) (st : Stage) : st.next l = st := by
  cases l <;> cases st <;> first | rfl | cases hl

lemma LogHist.upd_of_neutral (hl : l.neutral = true) (η : LogHist) : η.upd g l = η := by
  have hst := Stage.next_of_neutral hl η.stage
  cases l <;> first | (simp only [LogHist.upd, hst]; done) | simp [LogAct.neutral] at hl

/-! ## Ghost values -/

/-- What a thread owns after its use of the buffer `b` has become `o`. -/
def LogGhost.setUse (x : LogGhost) (b : Fin NBUF) (o : Option Use) : LogGhost :=
  { x with uses := update x.uses b o }

section Ghost

variable [DecidableEq ι] (γ : ι → LogGhost) (p : ι)

lemma component_update {α : Type} (f : LogGhost → α) (y : LogGhost) :
    (fun q => f (update γ p y q)) = update (fun q => f (γ q)) p (f y) := by
  funext q
  exact Function.apply_update (fun _ => f) γ p y q

lemma component_update_of_eq {α : Type} (f : LogGhost → α) {y : LogGhost}
    (h : f y = f (γ p)) : (fun q => f (update γ p y q)) = fun q => f (γ q) := by
  rw [component_update, h]
  exact update_eq_self p fun q => f (γ q)

section

variable (b : Fin NBUF) (o : Option Use)
include b o

lemma uses_update_setUse : (fun q => (update γ p ((γ p).setUse b o) q).uses) =
      setUse (fun q => (γ q).uses) p b o :=
  component_update γ p LogGhost.uses _

lemma op_update_setUse : (fun q => (update γ p ((γ p).setUse b o) q).op) = fun q => (γ q).op :=
  component_update_of_eq γ p LogGhost.op rfl

lemma job_update_setUse : (fun q => (update γ p ((γ p).setUse b o) q).job) = fun q => (γ q).job :=
  component_update_of_eq γ p LogGhost.job rfl

lemma client_update_setUse :
    (fun q => (update γ p ((γ p).setUse b o) q).client) = fun q => (γ q).client :=
  component_update_of_eq γ p LogGhost.client rfl

end

end Ghost

/-- Does the stage relate the blocks of the on-disk log to the buffers? -/
def Stage.copying : Stage → Bool
  | .logging _ | .headed _ _ => true
  | _ => false

structure Use.Allowed (g : LogGeom) (st : Stage) (op : Bool) (job : Option (Stage × List ℕ))
    (u : Use) : Prop where
  area : g.Area u.blockno → job ≠ none ∧ u.dev = g.dev
  dirtyDev : u.dirty = true → u.dev = g.dev
  dirtyHome : u.dirty = true → ¬ g.Area u.blockno → op = true ∨ (job ≠ none ∧ st.up = false)

lemma Stage.up_of_copying {st : Stage} (h : st.copying = true) : st.up = true := by
  cases st <;> first | rfl | cases h

section

variable {st : Stage} {lh : List ℕ}

lemma Stage.mem_of_mem_pins (h : n ∈ st.pins lh) : n ∈ lh := by
  cases st with
  | headed i u => exact List.mem_of_mem_drop h
  | idle | logging | cleared | erased => exact h
  | boot | recovering | rcleared | rerased => cases h

lemma Stage.up_of_mem_pins (h : n ∈ st.pins lh) : st.up = true := by
  cases st with
  | headed | idle | logging | cleared | erased => rfl
  | boot | recovering | rcleared | rerased => cases h

lemma Stage.mem_of_mem_unsynced (h : n ∈ st.unsynced lh) : n ∈ lh := by
  cases st with
  | headed i u => exact List.mem_of_mem_drop h
  | idle | logging => exact h
  | cleared | erased | boot | recovering | rcleared | rerased => cases h

end

lemma Stage.unsynced_subset_pins {st : Stage} (hst : st.up = true)
    (hle : ∀ i u, st = .headed i u → u ≤ i) {lh : List ℕ} (hn : n ∈ st.unsynced lh) :
    n ∈ st.pins lh := by
  cases st with
  | idle => exact hn
  | logging k => exact hn
  | headed i u =>
    have := List.drop_subset_drop_left lh (hle i u rfl)
    exact this hn
  | cleared | erased => simp [Stage.unsynced] at hn
  | boot | recovering | rcleared | rerased => cases hst

section Parts

variable {st : Stage} {U U' : ι → Fin NBUF → Option Use} {O : ι → Bool}
  {J : ι → Option (Stage × List ℕ)} {disk : ℕ → Block} {buf : Fin NBUF → Buf ι} {lh : List ℕ}
  {b : Fin NBUF} {x : Buf ι} {p : ι}

lemma UseInv.allowed (h : UseInv g st U O J) (hu : U p b = some u) : u.Allowed g st (O p) (J p) :=
  ⟨h.area p b u hu, h.dirtyDev p b u hu, h.dirtyHome p b u hu⟩

lemma UseInv.setUse [DecidableEq ι] (h : UseInv g st U O J) {o : Option Use}
    (ho : ∀ u, o = some u → u.Allowed g st (O p) (J p)) : UseInv g st (setUse U p b o) O J := by
  refine ⟨fun q c v hv => ?_, fun q c v hv => ?_, fun q c v hv => ?_⟩
  all_goals rcases setUse_cases hv with ⟨rfl, -, hov⟩ | ⟨-, hv'⟩
  · exact (ho v hov).area
  · exact h.area q c v hv'
  · exact (ho v hov).dirtyDev
  · exact h.dirtyDev q c v hv'
  · exact (ho v hov).dirtyHome
  · exact h.dirtyHome q c v hv'

/-- A buffer that counts as unchanged did so before the thread `p` changed its use of it, unless
that use counted as changed. -/
lemma Undirty.of_setUse [DecidableEq ι] {o : Option Use} (h : Undirty (setUse U p b o) b)
    (hp : ∀ u, U p b = some u → u.dirty = false) : Undirty U b := by
  intro q u hu
  by_cases hq : q = p
  · subst hq
    exact hp u hu
  · refine h q u ?_
    rw [setUse_of_ne hq]
    exact hu

lemma SlotInv.change (h : SlotInv g disk buf lh st U) (hother : ∀ q c, c ≠ b → U' q c = U q c)
    (hclean : x.valid = true → x.dev = g.dev → g.Area x.blockno → Undirty U' b →
      x.data = disk x.blockno) (hpin : st.copying = true → x.dev = g.dev → x.blockno ∈ st.pins lh →
      (buf b).dev = x.dev ∧ (buf b).blockno = x.blockno ∧ (buf b).data = x.data) :
    SlotInv g disk (update buf b x) lh st U' := by
  refine ⟨⟨h.boot, fun k hk => ⟨(h.logging k hk).1, ?_⟩,
    fun i u hi => ⟨(h.headed i u hi).1, (h.headed i u hi).2.1, (h.headed i u hi).2.2.1, ?_⟩,
    h.recovering⟩, fun c hv hd ha hu => ?_⟩
  · intro j n hj hn c hd hno
    subst hk
    by_cases hc : c = b
    · subst hc
      rw [update_self] at *
      obtain ⟨h1, h2, h3⟩ := hpin rfl hd (hno ▸ List.mem_of_getElem? hn)
      rw [← h3]
      exact (h.logging k rfl).2 j n hj hn c (h1.trans hd) (h2.trans hno)
    · rw [update_of_ne hc] at *
      exact (h.logging k rfl).2 j n hj hn c hd hno
  · intro j n hj hn c hd hno
    subst hi
    by_cases hc : c = b
    · subst hc
      rw [update_self] at *
      have hmem : n ∈ lh.drop u := by
        refine List.mem_of_getElem? (i := j - u) ?_
        rw [List.getElem?_drop, Nat.add_sub_cancel' hj, hn]
      obtain ⟨h1, h2, h3⟩ := hpin rfl hd (hno ▸ hmem)
      rw [← h3]
      exact (h.headed i u rfl).2.2.2 j n hj hn c (h1.trans hd) (h2.trans hno)
    · rw [update_of_ne hc] at *
      exact (h.headed i u rfl).2.2.2 j n hj hn c hd hno
  · by_cases hc : c = b
    · subst hc
      rw [update_self] at *
      exact hclean hv hd ha hu
    · rw [update_of_ne hc] at *
      exact h.clean c hv hd ha fun q u hq => hu q u ((hother q c hc).trans hq)

lemma StageInv.mono {η : LogHist} {dirty dirty' : ℕ → Prop} (hd : ∀ n, dirty n → dirty' n)
    (h : StageInv g disk lh η dirty) : StageInv g disk lh η dirty' := by
  unfold StageInv at *
  split <;> simp only [*] at h
  case h_1 =>
    obtain ⟨S, gs, h1, h2, h3, h4, h5⟩ := h
    exact ⟨S, gs, h1, h2, h3, h4, fun n ha hn hdn => h5 n ha hn fun hn' => hdn (hd n hn')⟩
  all_goals exact h

lemma CrashInv.change {η : LogHist} (h : CrashInv g disk buf lh η U)
    (hother : ∀ q c, c ≠ b → U' q c = U q c) (hdev : ∀ q u, U' q b = some u → u.dev = g.dev)
    (hdirty : ∀ n, DirtyBlock g U n → DirtyBlock g U' n)
    (hclean : x.valid = true → x.dev = g.dev → ¬ g.Area x.blockno → Undirty U' b →
      x.blockno ∉ η.stage.unsynced lh → x.data = disk x.blockno)
    (hcached : η.stage.up = true → x.valid = true → x.dev = g.dev → ¬ g.Area x.blockno →
      x.data = η.cur x.blockno)
    (huncached : η.stage.up = true → (buf b).valid = true → (buf b).dev = g.dev →
      ¬ g.Area (buf b).blockno → ¬ (x.valid = true ∧ x.dev = g.dev ∧ x.blockno = (buf b).blockno) →
      disk (buf b).blockno = η.cur (buf b).blockno) : CrashInv g disk (update buf b x) lh η U' := by
  refine ⟨fun q c u hu => ?_, fun c hv hd ha hu hs => ?_, fun hup c hv hd ha => ?_,
    fun hup n ha hno => ?_, h.stage.mono hdirty⟩
  · by_cases hc : c = b
    · subst hc
      exact hdev q u hu
    · exact h.dev q c u ((hother q c hc).symm.trans hu)
  · by_cases hc : c = b
    · subst hc
      rw [update_self] at *
      exact hclean hv hd ha hu hs
    · rw [update_of_ne hc] at *
      exact h.clean c hv hd ha (fun q u hq => hu q u ((hother q c hc).trans hq)) hs
  · by_cases hc : c = b
    · subst hc
      rw [update_self] at *
      exact hcached hup hv hd ha
    · rw [update_of_ne hc] at *
      exact h.cached hup c hv hd ha
  · by_cases hb : (buf b).valid = true ∧ (buf b).dev = g.dev ∧ (buf b).blockno = n
    · obtain ⟨hv, hd, rfl⟩ := hb
      refine huncached hup hv hd ha fun hx => ?_
      have := hno b (by rw [update_self]; exact hx.2.1)
        (by rw [update_self]; exact hx.2.2)
      rw [update_self, hx.1] at this
      cases this
    refine h.uncached hup n ha fun c hd hcn => ?_
    by_cases hc : c = b
    · subst hc
      by_contra hv
      exact hb ⟨by simpa using hv, hd, hcn⟩
    · have := hno c
      rw [update_of_ne hc] at this
      exact this hd hcn

end Parts

section Whole

variable [Fintype ι] {strict : Prop} {s : LogSys ι} {η : LogHist} {γ : ι → LogGhost}
  {p₀ p : ι} {b : Fin NBUF}

lemma LogInv.clean (h : LogInv g p₀ strict s η γ) (hv : (s.buf b).valid = true)
    (hd : (s.buf b).dev = g.dev) (ha : strict ∨ g.Area (s.buf b).blockno)
    (hu : Undirty (fun q => (γ q).uses) b) (hs : (s.buf b).blockno ∉ η.stage.unsynced s.log.lh) :
    (s.buf b).data = s.disk (s.buf b).blockno := by
  by_cases hA : g.Area (s.buf b).blockno
  · exact h.slot.clean b hv hd hA hu
  · exact (h.crash (ha.resolve_right hA)).clean b hv hd hA hu hs

section

variable [DecidableEq ι] (h : LogInv g p₀ strict s η γ) {x : Buf ι}
include h

lemma LogInv.change {o : Option Use}
    {links' : Links (Option (Fin NBUF))}
    (hcache : CacheInv g (update s.buf b x) links' (η.stage.pins s.log.lh)
      (setUse (fun q => (γ q).uses) p b o))
    (huse : ∀ u, o = some u → u.Allowed g η.stage (γ p).op (γ p).job)
    (hdirty : ∀ u, (γ p).uses b = some u → u.dirty = true →
      ∃ u', o = some u' ∧ u'.dirty = true ∧ u'.dev = u.dev ∧ u'.blockno = u.blockno)
    (hclean : x.valid = true → x.dev = g.dev → (strict ∨ g.Area x.blockno) →
      Undirty (setUse (fun q => (γ q).uses) p b o) b →
      x.blockno ∉ η.stage.unsynced s.log.lh → x.data = s.disk x.blockno)
    (hpin : η.stage.copying = true → x.dev = g.dev → x.blockno ∈ η.stage.pins s.log.lh →
      (s.buf b).dev = x.dev ∧ (s.buf b).blockno = x.blockno ∧ (s.buf b).data = x.data)
    (hdev : strict → ∀ u, o = some u → u.dev = g.dev)
    (hcached : strict → η.stage.up = true → x.valid = true → x.dev = g.dev →
      ¬ g.Area x.blockno → x.data = η.cur x.blockno)
    (huncached : strict → η.stage.up = true → (s.buf b).valid = true → (s.buf b).dev = g.dev →
      ¬ g.Area (s.buf b).blockno →
      ¬ (x.valid = true ∧ x.dev = g.dev ∧ x.blockno = (s.buf b).blockno) →
      s.disk (s.buf b).blockno = η.cur (s.buf b).blockno) :
    LogInv g p₀ strict { s with buf := update s.buf b x, links := links' } η
      (update γ p ((γ p).setUse b o)) := by
  have hunsynced : ∀ n, g.Area n → n ∉ η.stage.unsynced s.log.lh := fun n ha hn =>
    h.ctl.head.area n (Stage.mem_of_mem_unsynced hn) ha
  refine ⟨?_, ?_, ?_, ?_, fun q hq => ?_, fun hup q hq => ?_, fun hs => ?_⟩
  · rw [uses_update_setUse]
    exact hcache
  · rw [op_update_setUse, job_update_setUse]
    exact h.ctl
  · rw [uses_update_setUse, op_update_setUse, job_update_setUse]
    exact h.uses.setUse huse
  · rw [uses_update_setUse]
    exact h.slot.change (fun q c hc => setUse_of_ne_buf hc p q o)
      (fun hv hd ha hu => hclean hv hd (.inr ha) hu (hunsynced _ ha)) hpin
  · refine h.client q ?_
    rw [← congrFun (client_update_setUse γ p b o) q]
    exact hq
  · refine h.first hup q ?_
    rw [← congrFun (job_update_setUse γ p b o) q]
    exact hq
  · rw [uses_update_setUse]
    refine (h.crash hs).change (fun q c hc => setUse_of_ne_buf hc p q o) (fun q u hu => ?_)
      (fun n hn => ?_) (fun hv hd _ hu hn => hclean hv hd (.inl hs) hu hn) (hcached hs)
      (huncached hs)
    · rcases setUse_cases hu with ⟨rfl, -, ho⟩ | ⟨-, hu'⟩
      · exact hdev hs u ho
      · exact (h.crash hs).dev q b u hu'
    · obtain ⟨q, c, u, hu, hud, hdev', hno⟩ := hn
      by_cases hq : q = p ∧ c = b
      · obtain ⟨rfl, rfl⟩ := hq
        obtain ⟨u', ho, hd', hdv, hbn⟩ := hdirty u hu hud
        exact ⟨q, c, u', by rw [setUse_self, ho], hd', hdv.trans hdev', hbn.trans hno⟩
      refine ⟨q, c, u, ?_, hud, hdev', hno⟩
      by_cases hqp : q = p
      · rw [setUse_of_ne_buf fun hc => hq ⟨hqp, hc⟩]
        exact hu
      · rw [setUse_of_ne hqp]
        exact hu

/-- The state of a use and the lock of the buffer change, but neither the identity of the buffer nor
its contents. -/
lemma LogInv.changeUse {v : Use}
    (hu : (γ p).uses b = some u)
    (hx : x = { s.buf b with lock := x.lock }) (hv : v.dev = u.dev ∧ v.blockno = u.blockno)
    (hdirty : v.dirty = u.dirty) (hok : v.Ok p x) (hold : ∀ q, (s.buf b).lock = some q → q = p)
    (hnew : ∀ q, x.lock = some q → q = p ∧ (v.st = .locked ∨ v.st = .ready)) :
    LogInv g p₀ strict (s.setBuf b x) η
      (update γ p ((γ p).setUse b (some v))) := by
  obtain ⟨hval, hd, hn, hr, hdata⟩ : x.valid = (s.buf b).valid ∧ x.dev = (s.buf b).dev ∧
      x.blockno = (s.buf b).blockno ∧ x.refcnt = (s.buf b).refcnt ∧ x.data = (s.buf b).data := by
    rw [hx]
    exact ⟨rfl, rfl, rfl, rfl, rfl⟩
  have hal := h.uses.allowed hu
  refine h.change (h.cache.setUse hu hd hn hr (fun hv' => hval.trans hv') hok hold hnew)
    ?_ ?_ ?_ ?_ ?_ ?_ ?_
  · rintro w ⟨⟩
    exact ⟨fun ha => ⟨(hal.area (hv.2 ▸ ha)).1, hv.1.trans (hal.area (hv.2 ▸ ha)).2⟩,
      fun hd => hv.1.trans (hal.dirtyDev (hdirty ▸ hd)),
      fun hd ha => hal.dirtyHome (hdirty ▸ hd) (hv.2 ▸ ha)⟩
  · intro w hw hwd
    rw [hu] at hw
    cases hw
    exact ⟨v, rfl, hdirty.trans hwd, hv.1, hv.2⟩
  · intro hv' hd' ha hund hun
    rw [hval] at hv'
    rw [hd] at hd'
    rw [hn] at ha hun
    rw [hdata, hn]
    refine h.clean hv' hd' ha (hund.of_setUse fun w hw => ?_) hun
    have huw : u = w := Option.some.inj (hu.symm.trans hw)
    rw [← huw, ← hdirty]
    exact hund p v (setUse_self p b _)
  · exact fun _ _ _ => ⟨hd.symm, hn.symm, hdata.symm⟩
  · rintro hs w ⟨⟩
    exact hv.1.trans ((h.crash hs).dev p b u hu)
  · intro hs hup hv' hd' ha
    rw [hn] at ha
    rw [hdata, hn]
    exact (h.crash hs).cached hup b (hval ▸ hv') (hd ▸ hd') ha
  · exact fun hs hup hv' hd' ha hno => absurd ⟨hval.trans hv', hd.trans hd', hn⟩ hno

end

end Whole

end Xv6
