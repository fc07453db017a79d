import Xv6Kernel.Log.ClientActions

/-!
# The stages of a commit and of the recovery

The actions that advance the stage keep the invariant.
-/

namespace Xv6

open Function

variable {ι : Type}
variable {buf : Fin NBUF → Buf ι} {lh : List ℕ} {st : Stage} {U : ι → Fin NBUF → Option Use}
  {disk : ℕ → Block}

/-! ## The layout of the header -/

namespace Log

lemma getLE_encodeFrom_of_lt (lh : List ℕ) (i : ℕ) (d : Block) {off : ℕ}
    (h : off + 4 ≤ 4 + 4 * i) : (encodeFrom i lh d).getLE 4 off = d.getLE 4 off := by
  induction lh generalizing i d with
  | nil => rfl
  | cons n lh ih =>
    rw [encodeFrom, ih (i + 1) _ (by omega)]
    exact Bytes.getLE_setLE_of_disjoint 4 4 d _ _ _ (.inl h)

lemma getLE_encodeFrom (lh : List ℕ) (i : ℕ) (d : Block) (hlen : 4 + 4 * (i + lh.length) ≤ BSIZE)
    (hlt : ∀ n ∈ lh, n < 2 ^ 32) {j n : ℕ} (hj : lh[j]? = some n) :
    (encodeFrom i lh d).getLE 4 (4 + 4 * (i + j)) = n := by
  induction lh generalizing i d j with
  | nil => simp at hj
  | cons m lh ih =>
    rw [List.length_cons] at hlen
    rw [encodeFrom]
    cases j with
    | zero =>
      simp only [List.getElem?_cons_zero, Option.some.injEq] at hj
      subst hj
      rw [getLE_encodeFrom_of_lt lh (i + 1) _ (by omega), Nat.add_zero i,
        Bytes.getLE_setLE 4 d _ m (by omega)]
      exact Nat.mod_eq_of_lt (hlt m List.mem_cons_self)
    | succ j =>
      have := ih (i + 1) (d.setLE 4 (4 + 4 * i) m) (by omega)
        (fun k hk => hlt k (List.mem_cons_of_mem m hk)) (by simpa using hj)
      rw [← this]
      congr 1
      omega

lemma decode_encode (hlen : lh.length ≤ LOGSIZE) (hlt : ∀ n ∈ lh, n < 2 ^ 32)
    (d : Block) : decode (encode lh d) = lh := by
  simp only [LOGSIZE, MAXOPBLOCKS] at hlen
  have hn : (encode lh d).getLE 4 0 = lh.length := by
    rw [encode, getLE_encodeFrom_of_lt lh 0 _ (by omega), Bytes.getLE_setLE 4 d 0 _ (by decide)]
    exact Nat.mod_eq_of_lt (by omega)
  refine List.ext_getElem? fun j => ?_
  rw [decode, hn, List.getElem?_map]
  by_cases hj : j < lh.length
  · rw [List.getElem?_range hj, Option.map_some, List.getElem?_eq_getElem hj]
    have hget := getLE_encodeFrom lh 0 (d.setLE 4 0 lh.length) (by simp only [BSIZE]; omega) hlt
      (List.getElem?_eq_getElem hj)
    rw [Nat.zero_add] at hget
    exact congrArg some hget
  · rw [List.getElem?_eq_none (by simp; omega), List.getElem?_eq_none (by omega)]
    rfl

end Log

section Parts

variable {g : LogGeom} {p : ι}

lemma CtlInv.restage [Fintype ι] [DecidableEq ι] {log : Log} {up : Bool} {st' : Stage}
    {O : ι → Bool} {J : ι → Option (Stage × List ℕ)} (h : CtlInv g log up st O J) (hj : J p ≠ none)
    (hhead : HeadOk g lh) (hup : st'.up = st.up)
    (hclear : st' = .cleared ∨ st' = .erased ∨ st' = .boot ∨ st' = .rcleared ∨ st' = .rerased →
      lh = []) :
    CtlInv g { log with lh := lh } up st' O (update J p (some (st', lh))) := by
  have hsome : ∀ q, update J p (some (st', lh)) q ≠ none ↔ q = p := by
    intro q
    constructor
    · intro hq
      by_contra hqp
      rw [update_of_ne hqp] at hq
      exact hqp (h.uniq q p hq hj)
    · rintro rfl
      simp
  refine ⟨h.size, hhead, h.out, fun q y hy => ?_, fun q r hq hr => ?_, fun hnone => ?_,
    fun hu => ?_, h.commitOut, h.down, hup.trans h.stageUp, fun hu ho hc => ?_, hclear⟩
  · have hqp : q = p := (hsome q).mp (by rw [hy]; simp)
    subst hqp
    rw [update_self] at hy
    cases hy
    obtain ⟨x, hx⟩ := Option.ne_none_iff_exists'.mp hj
    exact ⟨rfl, rfl, (h.job q x hx).2.2⟩
  · rw [(hsome q).mp hq, (hsome r).mp hr]
  · exact absurd (hnone p) ((hsome p).mpr rfl)
  · have := h.committing hu
    refine ⟨fun _ => ⟨p, (hsome p).mpr rfl⟩, fun _ => this.mpr ⟨p, hj⟩⟩
  · rw [(h.committing hu).mpr ⟨p, hj⟩] at hc
    cases hc

/-- The contents of a buffer are written to disk: the cached blocks of the log area agree with the
disk afterwards. -/
lemma SlotInv.clean_diskWrite [DecidableEq ι] (h : SlotInv g disk buf lh st U) {t : Fin NBUF}
    (ht : (buf t).dev = g.dev)
    (huniq : ∀ c, (buf c).dev = g.dev → (buf c).blockno = (buf t).blockno → c = t) (o : Option Use)
    (c : Fin NBUF) (hv : (buf c).valid = true) (hd : (buf c).dev = g.dev)
    (ha : g.Area (buf c).blockno) (hu : Undirty (setUse U p t o) c) :
    (buf c).data = update disk (buf t).blockno (buf t).data (buf c).blockno := by
  by_cases hc : c = t
  · subst hc
    rw [update_self]
  · rw [update_of_ne fun e => hc (huniq c hd e)]
    exact h.clean c hv hd ha fun q u hq => hu q u ((setUse_of_ne_buf hc p q o).trans hq)

lemma DiskAt.update_area {d S : ℕ → Block} (h : DiskAt g d S [] 0) {m : ℕ} (ha : g.Area m)
    (hm : m ≠ g.start) (v : Block) : DiskAt g (update d m v) S [] 0 := by
  refine ⟨?_, h.ok, by simp, fun n hn hnm => ?_⟩
  · rw [update_of_ne hm.symm]
    exact h.head
  · have hne : n ≠ m := fun e => hn (e ▸ ha)
    rw [update_of_ne hne]
    exact h.home n hn hnm

lemma CrashInv.restage {disk' : ℕ → Block} {lh' : List ℕ} {η η' : LogHist}
    {U' : ι → Fin NBUF → Option Use} (h : CrashInv g disk buf lh η U)
    (hdisk : ∀ n, ¬ g.Area n → disk' n = disk n) (hup : η'.stage.up = η.stage.up)
    (hun : ∀ n, n ∈ η.stage.unsynced lh → n ∈ η'.stage.unsynced lh') (hcur : η'.cur = η.cur)
    (hdev : ∀ q b u, U' q b = some u → u.dev = g.dev)
    (hund : ∀ b, ¬ g.Area (buf b).blockno → Undirty U' b → Undirty U b)
    (hstage : StageInv g disk' lh' η' (DirtyBlock g U')) : CrashInv g disk' buf lh' η' U' := by
  refine ⟨hdev, fun b hv hd ha hu hn => ?_, fun hu b hv hd ha => ?_, fun hu n ha hn => ?_, hstage⟩
  · rw [hdisk _ ha]
    exact h.clean b hv hd ha (hund b ha hu) fun hm => hn (hun _ hm)
  · rw [hcur]
    exact h.cached (hup ▸ hu) b hv hd ha
  · rw [hcur, hdisk n ha]
    exact h.uncached (hup ▸ hu) n ha hn

end Parts

section Whole

variable [Fintype ι] [DecidableEq ι] {g : LogGeom} {strict : Prop} {p₀ p : ι} {s s' : LogSys ι}
  {η η' : LogHist} {γ : ι → LogGhost}

lemma LogInv.jobStep (h : LogInv g p₀ strict s η γ) (hj : (γ p).job ≠ none) {y : LogGhost}
    (hU : update (fun q => (γ q).uses) p y.uses = U) (hop : y.op = (γ p).op)
    (hclient : y.client = (γ p).client) (hjob : y.job = some (η'.stage, s'.log.lh))
    (hs : s'.links = s.links ∧ s'.up = s.up ∧ s'.log = { s.log with lh := s'.log.lh })
    (hcache : CacheInv g s'.buf s.links (η'.stage.pins s'.log.lh) U) (hhead : HeadOk g s'.log.lh)
    (hup : η'.stage.up = η.stage.up)
    (hclear : η'.stage = .cleared ∨ η'.stage = .erased ∨ η'.stage = .boot ∨
      η'.stage = .rcleared ∨ η'.stage = .rerased → s'.log.lh = [])
    (huse : ∀ b u, y.uses b = some u →
      (γ p).uses b = some u ∨ (u.dev = g.dev ∧ u.dirty = false))
    (hslot : SlotInv g s'.disk s'.buf s'.log.lh η'.stage U)
    (hcrash : strict → CrashInv g s'.disk s'.buf s'.log.lh η' U) :
    LogInv g p₀ strict s' η' (update γ p y) := by
  have hU' : (fun q => (update γ p y q).uses) = U :=
    (component_update γ p LogGhost.uses y).trans hU
  have hO : (fun q => (update γ p y q).op) = fun q => (γ q).op :=
    component_update_of_eq γ p LogGhost.op hop
  have hC : (fun q => (update γ p y q).client) = fun q => (γ q).client :=
    component_update_of_eq γ p LogGhost.client hclient
  have hJ : (fun q => (update γ p y q).job) =
      update (fun q => (γ q).job) p (some (η'.stage, s'.log.lh)) := by
    rw [← hjob]
    exact component_update γ p LogGhost.job y
  obtain ⟨hlinks, hsup, hlog⟩ := hs
  refine ⟨?_, ?_, ?_, ?_, fun q hq => ?_, fun hu q hq => ?_, fun hs => ?_⟩
  · rw [hU', hlinks]
    exact hcache
  · rw [hO, hJ, hsup, hlog]
    exact h.ctl.restage hj hhead hup hclear
  · rw [hU', hO, hJ]
    have hall : ∀ q b u, U q b = some u → u.Allowed g η'.stage (γ q).op
        (update (fun q => (γ q).job) p (some (η'.stage, s'.log.lh)) q) := by
      intro q b u hu
      rw [← hU] at hu
      by_cases hq : q = p
      · subst hq
        rw [update_self] at hu ⊢
        rcases huse b u hu with hold | ⟨hdev, hclean⟩
        · have := h.uses.allowed hold
          exact ⟨fun ha => ⟨by simp, (this.area ha).2⟩, this.dirtyDev,
            fun hd ha => (this.dirtyHome hd ha).imp id fun hs => ⟨by simp, hup ▸ hs.2⟩⟩
        · exact ⟨fun _ => ⟨by simp, hdev⟩, by simp [hclean], by simp [hclean]⟩
      · rw [update_of_ne hq] at hu ⊢
        have := h.uses.allowed hu
        exact ⟨this.area, this.dirtyDev, fun hd ha => hup ▸ this.dirtyHome hd ha⟩
    exact ⟨fun q b u hu => (hall q b u hu).area, fun q b u hu => (hall q b u hu).dirtyDev,
      fun q b u hu => (hall q b u hu).dirtyHome⟩
  · rw [hU']
    exact hslot
  · rw [hsup]
    exact h.client q (by rw [← congrFun hC q]; exact hq)
  · have hqp : q = p := by
      by_contra hqp
      rw [congrFun hJ q, update_of_ne hqp] at hq
      exact hqp (h.ctl.uniq q p hq hj)
    exact hqp ▸ h.first (hsup ▸ hu) p hj
  · rw [hU']
    exact hcrash hs

end Whole

end Xv6
