import Xv6Kernel.Log.Verified

/-!
# Consistency of the buffer cache

What the invariant of the buffer cache and the log says about the configurations and the steps of a
run, in terms of the run alone.
-/

namespace Xv6

open Finset

variable {ι : Type} [DecidableEq ι]
variable {b : Fin NBUF} {l : LogAct} {p : ι} {n : ℕ} {disk : ℕ → Block}

def Stage.after (tr : List (ι × LogAct)) : Stage := tr.foldl (fun st e => st.next e.2) .boot

/-- The process `p` holds a reference to the buffer `b`: it holds its sleep lock, it waits for it
in `bget`, or it has released it in `brelse` and is about to drop the reference. -/
def Config.Refers (c : Config (LogSys ι) LogAct ι) (b : Fin NBUF) (p : ι) : Prop :=
  (c.st.buf b).lock = some p ∨ (c.run p).bind Prog.label? = some (.acquiresleep b) ∨
    (c.run p).bind Prog.label? = some (.unref b)

instance (c : Config (LogSys ι) LogAct ι) (b : Fin NBUF) : DecidablePred (c.Refers b) :=
  fun _ => inferInstanceAs (Decidable (_ ∨ _ ∨ _))

/-- The block of the buffer `b` is in the in-memory header and has not been unpinned. -/
def Config.Pinned (g : LogGeom) (tr : List (ι × LogAct)) (c : Config (LogSys ι) LogAct ι)
    (b : Fin NBUF) : Prop :=
  (c.st.buf b).dev = g.dev ∧ (c.st.buf b).blockno ∈ (Stage.after tr).pins c.st.log.lh

/-- The running `install_trans` has written the block of the buffer `b` home. -/
def Config.Written (tr : List (ι × LogAct)) (c : Config (LogSys ι) LogAct ι) (b : Fin NBUF) :
    Prop :=
  (c.st.buf b).blockno ∈ (Stage.after tr).written c.st.log.lh

instance (g : LogGeom) (tr : List (ι × LogAct)) (c : Config (LogSys ι) LogAct ι) :
    DecidablePred (c.Pinned g tr) :=
  fun _ => inferInstanceAs (Decidable (_ ∧ _))

instance (tr : List (ι × LogAct)) (c : Config (LogSys ι) LogAct ι) :
    DecidablePred (c.Written tr) :=
  fun _ => inferInstanceAs (Decidable (_ ∈ _))

/-- The contents of the buffer `b` after the changes a run makes to it. -/
def latest (b : Fin NBUF) (tr : List (ι × LogAct)) (d : Block) : Block :=
  tr.foldl (fun d e => e.2.stored b d) d

structure CacheConsistent [Fintype ι] (g : LogGeom) (tr : List (ι × LogAct))
    (c : Config (LogSys ι) LogAct ι) : Prop where
  /-- The lists through `next` and through `prev` visit all buffers once, in opposite orders. -/
  lists : ∃ l : List (Fin NBUF), l.Nodup ∧ (∀ b, b ∈ l) ∧ c.st.forward = l ∧
    c.st.backward = l.reverse
  uniq : ∀ b b', (c.st.buf b).dev ≠ 0 → (c.st.buf b').dev = (c.st.buf b).dev →
    (c.st.buf b').blockno = (c.st.buf b).blockno → b' = b
  refcnt : ∀ b, (c.st.buf b).refcnt = #{p | c.Refers b p} + (decide (c.Pinned g tr b)).toNat
  cached : ∀ n ∈ (Stage.after tr).pins c.st.log.lh, ∃ b, c.Pinned g tr b ∧
    (c.st.buf b).blockno = n ∧ (c.st.buf b).valid = true

/-- What the action `l` of the process `p` does that leads from `c`, reached by the run `tr`, to
`d`. -/
structure CacheStep (g : LogGeom) (tr : List (ι × LogAct)) (c : Config (LogSys ι) LogAct ι) (p : ι)
    (l : LogAct) (d : Config (LogSys ι) LogAct ι) : Prop where
  identity : ∀ b, 0 < (c.st.buf b).refcnt →
    (d.st.buf b).dev = (c.st.buf b).dev ∧ (d.st.buf b).blockno = (c.st.buf b).blockno
  logWrite : ∀ b, l = .logWrite b →
    d.Pinned g (tr ++ [(p, l)]) b ∧ ¬ d.Written (tr ++ [(p, l)]) b
  /-- `install_trans` writes the contents of the buffer home; in a commit the block is pinned then,
  and has not been written home before. -/
  install : ∀ b, l = .install b → d.st.disk (c.st.buf b).blockno = (c.st.buf b).data ∧
    (c.st.up = true → c.Pinned g tr b ∧ ¬ c.Written tr b)
  bunpin : ∀ b, l = .bunpin b →
    c.Pinned g tr b ∧ c.Written tr b ∧ ¬ d.Pinned g (tr ++ [(p, l)]) b
  /-- The in-memory header is not emptied before all blocks are unpinned. -/
  clear : l = .clear → (Stage.after tr).pins c.st.log.lh = []

/-- What has become of the pinned buffer `b` of `c`, reached by the run `tr`, after the further run
`tr'` that leads to `d`: it holds the same block, still pinned, with the latest contents, and the
block was written home at most once, and only if it had not been before. -/
structure StaysPinned (g : LogGeom) (tr : List (ι × LogAct)) (c : Config (LogSys ι) LogAct ι)
    (b : Fin NBUF) (tr' : List (ι × LogAct)) (d : Config (LogSys ι) LogAct ι) : Prop where
  blockno : (d.st.buf b).blockno = (c.st.buf b).blockno
  pinned : d.Pinned g (tr ++ tr') b
  valid : (d.st.buf b).valid = true
  data : (d.st.buf b).data = latest b tr' (c.st.buf b).data
  home : tr'.countP (fun e => e.2 = .install b) + (decide (c.Written tr b)).toNat =
    (decide (d.Written (tr ++ tr') b)).toNat

/-! ## From the invariant -/

omit [DecidableEq ι] in
lemma hist_stage [Fintype ι] {g : LogGeom} {p₀ : ι} {strict : Prop} (S : ℕ → Block)
    (tr : List (ι × LogAct)) :
    ((logProtocol g p₀ strict).hist (.init .boot S) tr).stage = Stage.after tr := by
  have hupd : ∀ (η : LogHist) (l : LogAct), (η.upd g l).stage = η.stage.next l := by
    intro η l
    simp only [LogHist.upd]
    split <;> try rfl
    split <;> rfl
  have hfold : ∀ (tr : List (ι × LogAct)) (η : LogHist),
      ((logProtocol g p₀ strict).hist η tr).stage =
        tr.foldl (fun st e => st.next e.2) η.stage := by
    intro tr
    induction tr with
    | nil => exact fun _ => rfl
    | cons e tr ih =>
      intro η
      rw [List.foldl_cons, ← hupd]
      exact ih (η.upd g e.2)
  exact hfold tr _

omit [DecidableEq ι] in
lemma Stage.after_snoc (tr : List (ι × LogAct)) (p : ι) (l : LogAct) :
    Stage.after (tr ++ [(p, l)]) = (Stage.after tr).next l := by
  rw [Stage.after, List.foldl_append]
  rfl

variable [Fintype ι] {g : LogGeom} {p₀ : ι} {strict : Prop} {c d : Config (LogSys ι) LogAct ι}
  {tr : List (ι × LogAct)} {η : LogHist} {γ : ι → LogGhost}

section

variable (hinv : LogInv g p₀ strict c.st η γ) (hth : (logProtocol g p₀ strict).Threads c γ)
include hinv hth

lemma LogInv.isSome_iff_refers (b : Fin NBUF) (p : ι) :
    ((γ p).uses b).isSome = true ↔ c.Refers b p := by
  have hlock : (c.st.buf b).lock = some p → ((γ p).uses b).isSome = true := fun h => by
    obtain ⟨u, hu, -⟩ := hinv.cache.lock p b h
    rw [Option.isSome_iff_exists]
    exact ⟨u, hu⟩
  have hheld : ∀ u, (γ p).uses b = some u → u.st = .locked ∨ u.st = .ready →
      (c.st.buf b).lock = some p := fun u hu => (hinv.cache.use p b u hu).lock
  have hp := hth p
  -- the cases are those of the point at which the process stands
  rcases hrun : c.run p with _ | m
  · rw [hrun] at hp
    have hnone : (γ p).uses b = none := by rw [show γ p = _ from hp]; rfl
    simpa [Config.Refers, hrun, hnone] using hlock
  rw [hrun] at hp
  cases m with
  | ret a =>
    have hnone : (γ p).uses b = none := by rw [show (γ p).uses = _ from hp.1]
    simpa [Config.Refers, hrun, Prog.label?, hnone] using hlock
  | pick k =>
    simp only [Config.Refers, hrun, Option.bind_some, Prog.label?, reduceCtorEq, or_false]
    refine ⟨fun h => ?_, hlock⟩
    obtain ⟨u, hu⟩ := Option.isSome_iff_exists.mp h
    exact hheld u hu (hp.1 b u hu)
  | act l f k =>
    simp only [Config.Refers, hrun, Option.bind_some, Prog.label?, Option.some.injEq]
    have hview : l.View g (γ p) := hp.1
    refine ⟨fun h => ?_, fun h => ?_⟩
    · obtain ⟨u, hu⟩ := Option.isSome_iff_exists.mp h
      have huse := hview.use b u hu
      cases hst : u.st with
      | waiting => exact .inr (.inl (huse.1.mp hst))
      | releasing => exact .inr (.inr (huse.2.mp hst))
      | locked => exact .inl (hheld u hu (.inl hst))
      | ready => exact .inl (hheld u hu (.inr hst))
    · rcases h with h | rfl | rfl
      · exact hlock h
      · exact Option.isSome_iff_ne_none.mpr hview.job
      · exact Option.isSome_iff_ne_none.mpr hview.job

lemma CacheConsistent.of_inv (hst : η.stage = Stage.after tr) :
    CacheConsistent g tr c := by
  have hcache := hinv.cache
  rw [hst] at hcache
  refine ⟨?_, hcache.uniq, fun b => ?_, fun n hn => ?_⟩
  · obtain ⟨l, hr, hall⟩ := hcache.ring
    exact ⟨l, (List.nodup_cons.mp hr.nodup).2.of_map _, hall, LogSys.forward_eq hr hall,
      LogSys.backward_eq hr hall⟩
  · have hsum : users (fun p => (γ p).uses) b = #{p | c.Refers b p} := by
      rw [card_filter]
      refine sum_congr rfl fun p _ => ?_
      by_cases h : c.Refers b p
      · rw [if_pos h, (hinv.isSome_iff_refers hth b p).mpr h]
        rfl
      · rw [if_neg h]
        have := mt (hinv.isSome_iff_refers hth b p).mp h
        simpa using this
    rw [hcache.refcnt b, hsum]
    rfl
  · obtain ⟨b, hdev, hno, hvalid⟩ := hcache.pinned n hn
    exact ⟨b, ⟨hdev, by rw [hno]; exact hn⟩, hno, hvalid⟩

end

/-! ## Runs from boot -/

omit [DecidableEq ι] in
lemma logProtocol_any (g : LogGeom) (p₀ : ι) : (logProtocol g p₀ False).ok = anyAction := by
  funext s p l
  simp [logProtocol, anyAction]

lemma holds_of_boot (hhead : HeadOk g (Log.decode (disk g.start)))
    (h : Exec (logMachine g p₀) anyAction (.idle (LogSys.boot g disk)) tr c) :
    ∃ η, η.stage = Stage.after tr ∧ (logProtocol g p₀ False).Holds c η := by
  rw [← logProtocol_any g p₀] at h
  exact ⟨_, hist_stage disk tr, log_holds hhead False.elim h⟩

omit [DecidableEq ι] in
lemma LogInv.jobView_pinned (hinv : LogInv g p₀ strict c.st η γ) (hst : η.stage = Stage.after tr)
    {i u : ℕ} {lh : List ℕ} {x : Use} (hget : lh[i]? = some n) (hx : (γ p).uses b = some x)
    (hdev : x.dev = g.dev) (hno : x.blockno = n) (hu : u ≤ i) {k : ℕ}
    (hj : (γ p).job = some (.headed k u, lh)) : c.Pinned g tr b ∧ (c.Written tr b ↔ i < k) := by
  have hok := hinv.cache.use p b x hx
  obtain ⟨hs, hlh, -⟩ := hinv.ctl.job p _ hj
  dsimp only at hs hlh
  have hlt := (List.getElem?_eq_some_iff.mp hget).1
  have hn : lh[i] = n := Option.some.inj ((List.getElem?_eq_getElem hlt).symm.trans hget)
  have hnodup : lh.Nodup := hlh ▸ hinv.ctl.head.nodup
  have hblock : (c.st.buf b).blockno = lh[i] := by rw [hok.blockno, hno, hn]
  refine ⟨⟨hok.dev.trans hdev, ?_⟩, ?_⟩
  · rw [← hst, hs, hlh, hblock]
    change lh[i] ∈ lh.drop u
    rw [List.mem_iff_getElem]
    exact ⟨i - u, by rw [List.length_drop]; omega, by simp [Nat.add_sub_cancel' hu]⟩
  · rw [Config.Written, ← hst, hs, hlh, hblock]
    change lh[i] ∈ lh.take k ↔ i < k
    rw [List.mem_take_iff_getElem]
    constructor
    · rintro ⟨j, hj, he⟩
      rw [hnodup.getElem_inj_iff] at he
      omega
    · exact fun hk => ⟨i, by omega, rfl⟩

lemma CacheStep.of_holds (hst : η.stage = Stage.after tr) (h : (logProtocol g p₀ False).Holds c η)
    (hs : Step (logMachine g p₀) anyAction c [(p, l)] d) : CacheStep g tr c p l d := by
  rw [← logProtocol_any g p₀] at hs
  obtain ⟨hguar, γ, hinv, hview⟩ := h.action hs
  have hnext : Stage.after (tr ++ [(p, l)]) = η.stage.next l := by rw [Stage.after_snoc, hst]
  refine ⟨hguar.identity, fun b hb => ?_, fun b hb => ⟨hguar.install b hb, fun hup => ?_⟩,
    fun b hb => ?_, fun hl => ?_⟩
  · have hlog := hguar.logged b hb
    rw [← hnext, Buf.pinned, decide_eq_true_eq] at hlog
    exact hlog
  · subst hb
    obtain ⟨i, lh, n, x, hget, hx, hdev, hno, hj | hj⟩ := hview.job
    · have hp := hinv.jobView_pinned hst hget hx hdev hno le_rfl hj
      exact ⟨hp.1, fun hw => absurd (hp.2.mp hw) (lt_irrefl i)⟩
    · have hup' := hinv.ctl.stageUp
      rw [show η.stage = .recovering i from (hinv.ctl.job p _ hj).1, hup] at hup'
      cases hup'
  · subst hb
    obtain ⟨i, lh, n, x, hget, hx, hdev, hno, hj⟩ := hview.job
    have hp := hinv.jobView_pinned hst hget hx hdev hno le_rfl hj
    refine ⟨hp.1, hp.2.mpr (Nat.lt_succ_self i), fun hpin => ?_⟩
    have hun := hguar.pins.unpin b rfl
    have hpos : 0 < (c.st.buf b).refcnt := by
      rw [hinv.cache.refcnt b, show (c.st.buf b).pinned g (η.stage.pins c.st.log.lh) = true by
        rw [hst]; exact decide_eq_true hp.1]
      simp
    rw [← hnext, ← (hguar.identity b hpos).2] at hun
    exact hun hpin.2
  · subst hl
    rw [← hst]
    obtain ⟨lh, hj | hj⟩ := hview.job
    · obtain ⟨h1, h2, -⟩ := hinv.ctl.job p _ hj
      rw [h1, h2]
      exact List.drop_length
    · rw [(hinv.ctl.job p _ hj).1]
      rfl

omit [DecidableEq ι] in
lemma LogInv.up_of_pinned (hinv : LogInv g p₀ strict c.st η γ)
    (hn : n ∈ η.stage.pins c.st.log.lh) : c.st.up = true := by
  rw [← hinv.ctl.stageUp]
  cases hst : η.stage with
  | idle | logging | headed | cleared | erased => rfl
  | boot | recovering | rcleared | rerased =>
    rw [hst] at hn
    cases hn

lemma CacheConsistent.valid (h : CacheConsistent g tr c)
    (hb : c.Pinned g tr b) : (c.st.buf b).valid = true := by
  obtain ⟨b', hb', hno, hvalid⟩ := h.cached _ hb.2
  rw [← h.uniq b b' (by rw [hb.1]; exact g.dev_ne) (hb'.1.trans hb.1.symm) hno]
  exact hvalid

lemma StaysPinned.act (hst : η.stage = Stage.after tr) (h : (logProtocol g p₀ False).Holds c η)
    (hb : c.Pinned g tr b) (hs : Step (logMachine g p₀) anyAction c [(p, l)] d)
    (hd : CacheConsistent g (tr ++ [(p, l)]) d) (hl : l ≠ .bunpin b) :
    StaysPinned g tr c b [(p, l)] d := by
  have hstep := CacheStep.of_holds hst h hs
  rw [← logProtocol_any g p₀] at hs
  obtain ⟨hguar, γ, hinv, -⟩ := h.action hs
  have hnext : Stage.after (tr ++ [(p, l)]) = η.stage.next l := by rw [Stage.after_snoc, hst]
  have hb' : (c.st.buf b).blockno ∈ η.stage.pins c.st.log.lh := by rw [hst]; exact hb.2
  have hpinned : (c.st.buf b).pinned g (η.stage.pins c.st.log.lh) = true :=
    decide_eq_true ⟨hb.1, hb'⟩
  have hid := hstep.identity b (by rw [hinv.cache.refcnt b, hpinned]; simp)
  have hup := hinv.up_of_pinned hb'
  -- another buffer that is unpinned or written home holds another block
  have hother : ∀ e, c.Pinned g tr e → (c.st.buf e).blockno = (c.st.buf b).blockno → e = b :=
    fun e he hno => hinv.cache.uniq b e (by rw [hb.1]; exact g.dev_ne) (he.1.trans hb.1.symm) hno
  have hpin : d.Pinned g (tr ++ [(p, l)]) b := by
    refine ⟨hid.1.trans hb.1, ?_⟩
    rw [hid.2, hnext]
    refine hguar.pins.keep _ hb' fun e he hno => hl ?_
    rw [he, hother e (hstep.bunpin e he).1 hno]
  refine ⟨hid.2, hpin, hd.valid hpin, hguar.data b hpinned, ?_⟩
  have hhome := hguar.pins.home _ hb'
  by_cases hi : l = .install b
  · have hnot := ((hstep.install b hi).2 hup).2
    have hyes : d.Written (tr ++ [(p, l)]) b := by
      rw [Config.Written, hid.2, hnext]
      exact hhome.mpr (.inr ⟨b, hi, rfl⟩)
    rw [decide_eq_true hyes, decide_eq_false hnot, List.countP_singleton, decide_eq_true hi]
    rfl
  have hiff : c.Written tr b ↔ d.Written (tr ++ [(p, l)]) b := by
    rw [Config.Written, Config.Written, hid.2, hnext, ← hst, hhome]
    refine ⟨.inl, fun h => h.elim id fun ⟨e, he, hno⟩ => ?_⟩
    exact absurd (he.trans (by rw [hother e ((hstep.install e he).2 hup).1 hno])) hi
  rw [decide_eq_decide.mpr hiff, List.countP_singleton, decide_eq_false hi]
  exact Nat.zero_add _

lemma StaysPinned.run (hhead : HeadOk g (Log.decode (disk g.start)))
    (h : Exec (logMachine g p₀) anyAction (.idle (LogSys.boot g disk)) tr c) (hb : c.Pinned g tr b)
    {tr' : List (ι × LogAct)} (h' : Exec (logMachine g p₀) anyAction c tr' d)
    (hno : ∀ q, (q, .bunpin b) ∉ tr') : StaysPinned g tr c b tr' d := by
  induction h' with
  | refl =>
    obtain ⟨η, hst, hholds⟩ := holds_of_boot hhead h
    obtain ⟨⟨γ, hinv, hth⟩, -⟩ := hholds
    have hvalid := (CacheConsistent.of_inv hinv hth hst).valid hb
    exact ⟨rfl, by rw [List.append_nil]; exact hb, hvalid, rfl, by simp⟩
  | snoc h' hs ih =>
    rename_i e d tr' t
    have ih := ih fun q hq => hno q (List.mem_append_left _ hq)
    have hno : ∀ q, (q, .bunpin b) ∉ t := fun q hq => hno q (List.mem_append_right _ hq)
    rcases hs.trace_cases with ⟨rfl, hsame⟩ | ⟨p, l, rfl⟩
    · rw [List.append_nil]
      refine ⟨by rw [hsame]; exact ih.blockno, ?_, by rw [hsame]; exact ih.valid,
        by rw [hsame]; exact ih.data, ?_⟩
      · simpa only [Config.Pinned, hsame] using ih.pinned
      · rw [ih.home]
        exact congrArg Bool.toNat (decide_eq_decide.mpr (by simp only [Config.Written, hsame]))
    obtain ⟨η, hst, hholds⟩ := holds_of_boot hhead (h.trans h')
    obtain ⟨η', hst', hholds'⟩ := holds_of_boot hhead ((h.trans h').trans hs.exec)
    obtain ⟨⟨γ, hinv, hth⟩, -⟩ := hholds'
    have hstep := StaysPinned.act hst hholds ih.pinned hs
      (CacheConsistent.of_inv hinv hth hst') fun hl => hno p (by rw [hl]; simp)
    refine ⟨hstep.blockno.trans ih.blockno, ?_, hstep.valid, ?_, ?_⟩
    · rw [← List.append_assoc]
      exact hstep.pinned
    · rw [hstep.data, ih.data, latest, latest, latest, List.foldl_append]
    · rw [List.countP_append, Nat.add_right_comm, ih.home, Nat.add_comm, hstep.home,
        List.append_assoc]

/-- Consistency of the buffer cache.  In every configuration of every run from boot the lists
through the buffers are complete and reverse to each other, no block is cached twice, and the
reference counts are right; no action recycles a buffer that is referenced; and a block given to
`log_write` stays cached with the latest contents until `install_trans` has written it home, once,
and unpinned it. -/
theorem bufferCache_consistent {disk : ℕ → Block} (hhead : HeadOk g (Log.decode (disk g.start)))
    (h : Exec (logMachine g p₀) anyAction (.idle (LogSys.boot g disk)) tr c) :
    CacheConsistent g tr c ∧
    (∀ p l d, Step (logMachine g p₀) anyAction c [(p, l)] d → CacheStep g tr c p l d) ∧
    ∀ b, c.Pinned g tr b → ∀ tr' d, Exec (logMachine g p₀) anyAction c tr' d →
      (∀ q, (q, .bunpin b) ∉ tr') → StaysPinned g tr c b tr' d := by
  obtain ⟨η, hst, hholds⟩ := holds_of_boot hhead h
  obtain ⟨⟨γ, hinv, hth⟩, -⟩ := id hholds
  exact ⟨.of_inv hinv hth hst, fun p l d hs => .of_holds hst hholds hs,
    fun b hb tr' d h' hno => .run hhead h hb h' hno⟩

/-- Behind `bunpin` the block is still in the in-memory header although the reference of the log has
been dropped: the reference count is that of the process alone. -/
theorem bufferCache_refcnt_behind_bunpin :
    ∃ (tr : List (Fin 1 × LogAct)) (c : Config (LogSys (Fin 1)) LogAct (Fin 1)) (b : Fin NBUF),
      Exec (logMachine smallGeom proc) anyAction (bootOn fun _ => Bytes.zero _) tr c ∧
      (c.st.buf b).dev = smallGeom.dev ∧ (c.st.buf b).blockno ∈ c.st.log.lh ∧
      (c.st.buf b).refcnt ≠ #{p | c.Refers b p} + 1 := by
  have hplay : (bootOn fun _ => Bytes.zero _).playTest (logMachine smallGeom proc) (changeBlock 41)
      (fun _ c => decide (∃ b, (c.st.buf b).dev = smallGeom.dev ∧
        (c.st.buf b).blockno ∈ c.st.log.lh ∧ (c.st.buf b).refcnt ≠ #{p | c.Refers b p} + 1)) =
      true := by
    decide +kernel
  obtain ⟨tr, c, hexec, htest⟩ := Config.exists_of_playTest hplay
  obtain ⟨b, hb⟩ := of_decide_eq_true htest
  exact ⟨tr, c, b, hexec, hb⟩

theorem bufferCache_consistent_logged_block :
    ∃ (tr : List (Fin 1 × LogAct)) (c : Config (LogSys (Fin 1)) LogAct (Fin 1)) (b : Fin NBUF),
      c.Pinned smallGeom tr b ∧ CacheConsistent smallGeom tr c ∧
      (∀ p l d, Step (logMachine smallGeom proc) anyAction c [(p, l)] d →
        CacheStep smallGeom tr c p l d) ∧
      ∀ b, c.Pinned smallGeom tr b → ∀ tr' d, Exec (logMachine smallGeom proc) anyAction c tr' d →
        (∀ q, (q, .bunpin b) ∉ tr') → StaysPinned smallGeom tr c b tr' d := by
  have hplay : (bootOn fun _ => Bytes.zero _).playTest (logMachine smallGeom proc) (changeBlock 6)
      (fun tr c => decide (∃ b, c.Pinned smallGeom tr b)) = true := by
    decide +kernel
  obtain ⟨tr, c, hexec, htest⟩ := Config.exists_of_playTest hplay
  obtain ⟨b, hb⟩ := of_decide_eq_true htest
  exact ⟨tr, c, b, hb, bufferCache_consistent headOk_zero hexec⟩

end Xv6
