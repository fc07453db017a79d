import Xv6Kernel.Virtio.Invariant

/-!
# The steps of the virtio disk driver

What the threads of the driver own, and how each action of the driver and of the device keeps the
invariant.
-/

namespace Xv6

open Function

variable {N : ℕ} {B : Type}
variable {i₀ i₁ i₂ : ℕ}
variable {disk : B → Bool} {l us : List ℕ}

inductive VdiskStage (B : Type) where
  | out
  | alloc (b : B) (l : List ℕ)
  | scanned (b : B) (l : List ℕ) (i : ℕ)
  | formatted (b : B) (i₀ i₁ i₂ : ℕ)
  | ringed (b : B) (i₀ i₁ i₂ : ℕ)
  | sent (b : B) (i₀ i₁ i₂ : ℕ)
  | done (b : B) (i₀ i₁ i₂ : ℕ)
  | freeing (b : B) (l : List ℕ)
  | seen
  | entry (i : ℕ)
  | found (i : ℕ) (b : B)
  | cleared (i : ℕ)

def Vdisk.IsChain (d : Vdisk N B) : List ℕ → Prop
  | [] => True
  | [i] => (d.desc i).flagNext = false
  | i :: j :: l => (d.desc i).flagNext = true ∧ (d.desc i).next = j ∧ d.IsChain (j :: l)

structure Vdisk.Request (d : Vdisk N B) (b : B) (i₀ i₁ i₂ : ℕ) : Prop where
  chain : d.IsChain [i₀, i₁, i₂]
  status : (d.desc i₂).addr = .status i₀
  buf : (d.info i₀).b = some b

namespace VdiskStage

def buf : VdiskStage B → Option B
  | .alloc b _ | .scanned b _ _ | .formatted b _ _ _ | .ringed b _ _ _ | .sent b _ _ _
  | .done b _ _ _ | .freeing b _ => some b
  | .out | .seen | .entry _ | .found _ _ | .cleared _ => none

def descs : VdiskStage B → List ℕ
  | .alloc _ l | .scanned _ l _ | .freeing _ l => l
  | .formatted _ i₀ i₁ i₂ | .ringed _ i₀ i₁ i₂ | .sent _ i₀ i₁ i₂ | .done _ i₀ i₁ i₂ => [i₀, i₁, i₂]
  | .out | .seen | .entry _ | .found _ _ | .cleared _ => []

def busy : VdiskStage B → Option B
  | .formatted b _ _ _ | .ringed b _ _ _ | .sent b _ _ _ => some b
  | _ => none

def sentNow (disk : B → Bool) : VdiskStage B → Option (ℕ × B)
  | .sent b i₀ _ _ => if disk b then some (i₀, b) else none
  | _ => none

def left : VdiskStage B → Option ℕ
  | .cleared i => some i
  | _ => none

/-- Where a thread without `vdisk_lock` stands. -/
def Quiet : VdiskStage B → Prop
  | .out | .sent _ _ _ _ => True
  | .alloc _ l => l = []
  | _ => False

def Good (d : Vdisk N B) (us : List ℕ) : VdiskStage B → Prop
  | .out | .alloc _ _ | .cleared _ => True
  | .scanned _ _ i => i < NUM ∧ d.free i = true
  | .formatted b i₀ i₁ i₂ => d.Request b i₀ i₁ i₂ ∧ d.disk b = true
  | .ringed b i₀ i₁ i₂ => d.Request b i₀ i₁ i₂ ∧ d.disk b = true ∧
    d.avail.ring (d.avail.idx % NUM) = i₀
  | .sent b i₀ i₁ i₂ | .done b i₀ i₁ i₂ => d.Request b i₀ i₁ i₂
  | .freeing _ l => d.IsChain l
  | .seen => us ≠ []
  | .entry i => us.head? = some i
  | .found i b => us.head? = some i ∧ (d.info i).b = some b

section

variable {x : VdiskStage B}

lemma eq_sent {i : ℕ} {b : B}
    (hx : x.sentNow disk = some (i, b)) : disk b = true ∧ ∃ i₁ i₂, x = .sent b i i₁ i₂ := by
  cases x with
  | sent b' i₀ i₁ i₂ =>
    simp only [sentNow] at hx
    split at hx
    · cases hx
      exact ⟨‹_›, i₁, i₂, rfl⟩
    · cases hx
  | _ => cases hx

lemma buf_of_busy {b : B} (hx : x.busy = some b) : x.buf = some b := by
  cases x <;> first | exact hx | cases hx

lemma sentNow_congr {disk' : B → Bool}
    (h : ∀ b, x.busy = some b → disk' b = disk b) : x.sentNow disk' = x.sentNow disk := by
  cases x with
  | sent b i₀ i₁ i₂ => simp only [sentNow, h b rfl]
  | _ => rfl

lemma sentNow_of_busy (hx : x.busy = none) (disk : B → Bool) :
    x.sentNow disk = none := by
  cases x <;> first | rfl | cases hx

lemma left_of_quiet (hx : x.Quiet) : x.left = none := by
  cases x <;> first | rfl | cases hx

end

end VdiskStage

lemma Vdisk.IsChain.congr {d d' : Vdisk N B} (h : d.IsChain l)
    (hd : ∀ i ∈ l, d'.desc i = d.desc i) : d'.IsChain l := by
  induction l with
  | nil => trivial
  | cons i l ih =>
    cases l with
    | nil =>
      rw [IsChain, hd i List.mem_cons_self]
      exact h
    | cons j l =>
      obtain ⟨h1, h2, h3⟩ := h
      rw [IsChain, hd i List.mem_cons_self]
      exact ⟨h1, h2, ih h3 fun k hk => hd k (List.mem_cons_of_mem i hk)⟩

lemma Vdisk.Request.congr {d d' : Vdisk N B} {b : B} (h : d.Request b i₀ i₁ i₂)
    (hd : ∀ i ∈ [i₀, i₁, i₂], d'.desc i = d.desc i ∧ (d'.info i).b = (d.info i).b) :
    d'.Request b i₀ i₁ i₂ := by
  refine ⟨h.chain.congr fun i hi => (hd i hi).1, ?_, ?_⟩
  · rw [(hd i₂ (by simp)).1]
    exact h.status
  · rw [(hd i₀ (by simp)).2]
    exact h.buf

lemma VdiskStage.Good.congr {d d' : Vdisk N B} {us' : List ℕ} {x : VdiskStage B} (h : x.Good d us)
    (hfree : d'.free = d.free) (hdisk : d'.disk = d.disk) (hdesc : d'.desc = d.desc)
    (havail : d'.avail = d.avail) (hinfo : ∀ j, (d'.info j).b = (d.info j).b)
    (hus : us <+: us') : x.Good d' us' := by
  obtain ⟨t, rfl⟩ := hus
  have hreq : ∀ b i₀ i₁ i₂, d.Request b i₀ i₁ i₂ → d'.Request b i₀ i₁ i₂ :=
    fun b i₀ i₁ i₂ hr => hr.congr fun j _ => ⟨by rw [hdesc], hinfo j⟩
  have hhead : ∀ j, us.head? = some j → (us ++ t).head? = some j := by
    intro j hj
    cases us with
    | nil => cases hj
    | cons k l => exact hj
  cases x with
  | out => trivial
  | alloc b l => trivial
  | cleared i => trivial
  | scanned b l i => exact ⟨h.1, by rw [hfree]; exact h.2⟩
  | formatted b i₀ i₁ i₂ => exact ⟨hreq _ _ _ _ h.1, by rw [hdisk]; exact h.2⟩
  | ringed b i₀ i₁ i₂ =>
    refine ⟨hreq _ _ _ _ h.1, by rw [hdisk]; exact h.2.1, ?_⟩
    rw [havail]
    exact h.2.2
  | sent b i₀ i₁ i₂ => exact hreq _ _ _ _ h
  | done b i₀ i₁ i₂ => exact hreq _ _ _ _ h
  | freeing b l => exact Vdisk.IsChain.congr h fun j _ => by rw [hdesc]
  | seen => exact fun hnil => h (List.append_eq_nil_iff.mp hnil).1
  | entry i => exact hhead i h
  | found i b => exact ⟨hhead i h.1, by rw [hinfo]; exact h.2⟩

structure VdiskInv (d : Vdisk N B) (η : VdiskHist N B) (γ : Fin N → VdiskStage B) : Prop where
  descs : DescInv d.free η.held
  held : ∀ p, η.held p = (γ p).descs
  bufs : ∀ p b, (γ p).buf = some b → d.lock b = some p
  sent : ∀ p, η.sent p = (γ p).sentNow d.disk
  flag : ∀ b, d.disk b = true → ∃ p, (γ p).busy = some b
  queue : ∃ av us c, QueueInv d η.sent av us c ∧ (∀ p, (γ p).Good d us) ∧
    (∀ p, (γ p).left = none ∨ (γ p).left = c) ∧ (c = none ∨ ∃ p, (γ p).left = c)

namespace VdiskInv

variable {d d' : Vdisk N B} {η η' : VdiskHist N B} {γ : Fin N → VdiskStage B} {p q : Fin N}
  {x : VdiskStage B} {b : B} {i : ℕ}

section

variable (h : VdiskInv d η γ)
include h

lemma mem_held (hq : η.sent q = some (i, b)) : i ∈ η.held q := by
  rw [h.sent q] at hq
  obtain ⟨-, i₁, i₂, hstage⟩ := VdiskStage.eq_sent hq
  rw [h.held q, hstage]
  exact List.mem_cons_self

lemma sent_unique {b' : B} {r : Fin N} (hq : η.sent q = some (i, b))
    (hr : η.sent r = some (i, b')) : r = q ∧ b' = b := by
  obtain rfl := h.descs.disj r q i (h.mem_held hr) (h.mem_held hq)
  rw [hq] at hr
  cases hr
  exact ⟨rfl, rfl⟩

lemma buf_unique (hp : (γ p).buf = some b) (hq : (γ q).buf = some b) : q = p :=
  Option.some.inj ((h.bufs q b hq).symm.trans (h.bufs p b hp))

section

variable (hquiet : ∀ q, q ≠ p → (γ q).Quiet)
include hquiet

lemma queue_of_locked :
    ∃ av us, QueueInv d η.sent av us (γ p).left ∧ ∀ q, (γ q).Good d us := by
  obtain ⟨av, us, c, hQ, hgood, hleft, hc⟩ := h.queue
  have hcp : c = (γ p).left := by
    rcases hc with rfl | ⟨q, hq⟩
    · exact ((hleft p).elim id id).symm
    by_cases hqp : q = p
    · rw [← hqp, hq]
    · rw [VdiskStage.left_of_quiet (hquiet q hqp)] at hq
      subst hq
      exact ((hleft p).elim id id).symm
  exact ⟨av, us, hcp ▸ hQ, hgood⟩

lemma locked (hdescs : DescInv d'.free η'.held)
    (hheld : η'.held = update η.held p x.descs)
    (hlock : d'.lock = d.lock) (hbuf : ∀ b, x.buf = some b → (γ p).buf = some b)
    (hsent : ∀ q, q ≠ p → η'.sent q = (γ q).sentNow d'.disk)
    (hsentp : η'.sent p = x.sentNow d'.disk)
    (hflag : ∀ b, d'.disk b = true → x.busy = some b ∨ d.disk b = true ∧ (γ p).busy ≠ some b)
    (hframe : ∀ q, q ≠ p → ∀ i ∈ η.held q, d'.desc i = d.desc i ∧ (d'.info i).b = (d.info i).b)
    (hqueue : ∃ av us, QueueInv d' η'.sent av us x.left ∧ x.Good d' us) :
    VdiskInv d' η' (update γ p x) := by
  refine ⟨hdescs, fun q => ?_, fun q b hq => ?_, fun q => ?_, fun b hb => ?_, ?_⟩
  · rw [hheld]
    by_cases hqp : q = p
    · subst hqp
      simp
    · simp only [ne_eq, hqp, not_false_eq_true, update_of_ne]
      exact h.held q
  · rw [hlock]
    by_cases hqp : q = p
    · subst hqp
      rw [update_self] at hq
      exact h.bufs q b (hbuf b hq)
    · rw [update_of_ne hqp] at hq
      exact h.bufs q b hq
  · by_cases hqp : q = p
    · subst hqp
      rw [update_self]
      exact hsentp
    · rw [update_of_ne hqp]
      exact hsent q hqp
  · rcases hflag b hb with hx | ⟨hd, hp⟩
    · exact ⟨p, by rw [update_self]; exact hx⟩
    · obtain ⟨q, hq⟩ := h.flag b hd
      have hqp : q ≠ p := fun he => hp (he ▸ hq)
      exact ⟨q, by rw [update_of_ne hqp]; exact hq⟩
  · obtain ⟨av, us, hQ, hgood⟩ := hqueue
    obtain ⟨av0, us0, -, hold⟩ := h.queue_of_locked hquiet
    refine ⟨av, us, x.left, hQ, fun q => ?_, fun q => ?_, ?_⟩
    · by_cases hqp : q = p
      · subst hqp
        rw [update_self]
        exact hgood
      rw [update_of_ne hqp]
      have hq := hquiet q hqp
      have hheldq := h.held q
      have hgoodq := hold q
      cases hstage : γ q with
      | sent b' i₀ i₁ i₂ =>
        rw [hstage] at hheldq hgoodq
        refine Vdisk.Request.congr hgoodq fun j hj => hframe q hqp j ?_
        rw [hheldq]
        exact hj
      | out => trivial
      | alloc b' l => trivial
      | _ =>
        rw [hstage] at hq
        cases hq
    · by_cases hqp : q = p
      · subst hqp
        rw [update_self]
        exact .inr rfl
      · rw [update_of_ne hqp]
        exact .inl (VdiskStage.left_of_quiet (hquiet q hqp))
    · exact .inr ⟨p, by rw [update_self]⟩

lemma restage (hdescs : x.descs = (γ p).descs) (hbuf : ∀ b, x.buf = some b → (γ p).buf = some b)
    (hsent : (γ p).sentNow d.disk = x.sentNow d.disk)
    (hbusy : ∀ b, d.disk b = true → (γ p).busy = some b → x.busy = some b)
    (hleft : x.left = (γ p).left)
    (hgood : ∀ av us, QueueInv d η.sent av us (γ p).left → (γ p).Good d us → x.Good d us) :
    VdiskInv d η (update γ p x) := by
  obtain ⟨av, us, hQ, hold⟩ := h.queue_of_locked hquiet
  refine h.locked hquiet h.descs ?_ rfl hbuf (fun q _ => h.sent q) ((h.sent p).trans hsent)
    (fun b hb => ?_) (fun q _ j _ => ⟨rfl, rfl⟩) ⟨av, us, hleft ▸ hQ, hgood av us hQ (hold p)⟩
  · rw [hdescs, ← h.held p, update_eq_self]
  · by_cases hp : (γ p).busy = some b
    · exact .inl (hbusy b hb hp)
    · exact .inr ⟨hb, hp⟩

end

lemma device (hfree : d'.free = d.free) (hlock : d'.lock = d.lock)
    (hdisk : d'.disk = d.disk) (hdesc : d'.desc = d.desc) (havail : d'.avail = d.avail)
    (hinfo : ∀ j, (d'.info j).b = (d.info j).b)
    (hqueue : ∀ av us c, QueueInv d η.sent av us c → ∃ av' us',
      QueueInv d' η.sent av' us' c ∧ us <+: us') : VdiskInv d' η γ := by
  refine ⟨hfree ▸ h.descs, h.held, hlock ▸ h.bufs, hdisk ▸ h.sent, hdisk ▸ h.flag, ?_⟩
  obtain ⟨av, us, c, hQ, hgood, hleft, hc⟩ := h.queue
  obtain ⟨av', us', hQ', t, rfl⟩ := hqueue av us c hQ
  refine ⟨av', us ++ t, c, hQ', fun q => ?_, hleft, hc⟩
  exact VdiskStage.Good.congr (hgood q) hfree hdisk hdesc havail hinfo (List.prefix_append us t)

lemma relock {lock : B → Option (Fin N)}
    (hp : γ p = .out ∨ ∃ b, γ p = .alloc b []) (hx : x = .out ∨ ∃ b, x = .alloc b [])
    (hlock : ∀ q b, (update γ p x q).buf = some b → lock b = some q) :
    VdiskInv { d with lock := lock } η (update γ p x) := by
  have hidle : ∀ y : VdiskStage B, (y = .out ∨ ∃ b, y = .alloc b []) →
      y.descs = [] ∧ y.busy = none ∧ y.left = none ∧ ∀ (e : Vdisk N B) us, y.Good e us := by
    rintro y (rfl | ⟨b, rfl⟩) <;> exact ⟨rfl, rfl, rfl, fun _ _ => trivial⟩
  obtain ⟨hp1, hp2, hp3, -⟩ := hidle _ hp
  obtain ⟨hx1, hx2, hx3, hx4⟩ := hidle _ hx
  obtain ⟨av, us, c, hQ, hgood, hleft, hc⟩ := h.queue
  refine ⟨h.descs, fun q => ?_, hlock, fun q => ?_, fun b hb => ?_, av, us, c,
    hQ.congr rfl rfl rfl rfl rfl (fun _ _ _ _ => rfl), fun q => ?_, fun q => ?_, ?_⟩
  · by_cases hqp : q = p
    · subst hqp
      rw [update_self, hx1, ← hp1]
      exact h.held q
    · rw [update_of_ne hqp]
      exact h.held q
  · by_cases hqp : q = p
    · subst hqp
      rw [update_self, VdiskStage.sentNow_of_busy hx2,
        ← VdiskStage.sentNow_of_busy hp2 d.disk]
      exact h.sent q
    · rw [update_of_ne hqp]
      exact h.sent q
  · obtain ⟨q, hq⟩ := h.flag b hb
    have hqp : q ≠ p := by
      rintro rfl
      rw [hp2] at hq
      cases hq
    exact ⟨q, by rw [update_of_ne hqp]; exact hq⟩
  · by_cases hqp : q = p
    · subst hqp
      rw [update_self]
      exact hx4 _ _
    · rw [update_of_ne hqp]
      exact (hgood q).congr rfl rfl rfl rfl (fun _ => rfl) (List.prefix_refl us)
  · by_cases hqp : q = p
    · subst hqp
      rw [update_self]
      exact .inl hx3
    · rw [update_of_ne hqp]
      exact hleft q
  · rcases hc with hc | ⟨q, hq⟩
    · exact .inl hc
    by_cases hqp : q = p
    · subst hqp
      exact .inl (hq.symm.trans hp3)
    · exact .inr ⟨q, by rw [update_of_ne hqp]; exact hq⟩

end

lemma lockBuf [DecidableEq B] (h : VdiskInv d η γ) (hp : γ p = .out) (hb : d.lock b = none) :
    VdiskInv { d with lock := update d.lock b (some p) } η
      (update γ p (.alloc b [])) := by
  refine h.relock (.inl hp) (.inr ⟨b, rfl⟩) fun q b' hq => ?_
  by_cases hqp : q = p
  · subst hqp
    rw [update_self] at hq
    cases hq
    rw [update_self]
  rw [update_of_ne hqp] at hq
  have hlock := h.bufs q b' hq
  have hne : b' ≠ b := by
    rintro rfl
    rw [hb] at hlock
    cases hlock
  rw [update_of_ne hne]
  exact hlock

lemma unlockBuf [DecidableEq B] (h : VdiskInv d η γ) (hp : γ p = .alloc b []) :
    VdiskInv { d with lock := update d.lock b none } η (update γ p .out) := by
  refine h.relock (.inr ⟨b, hp⟩) (.inl rfl) fun q b' hq => ?_
  by_cases hqp : q = p
  · subst hqp
    rw [update_self] at hq
    cases hq
  rw [update_of_ne hqp] at hq
  have hne : b' ≠ b := fun he => hqp (h.buf_unique (by rw [hp]; rfl) (he ▸ hq))
  rw [update_of_ne hne]
  exact h.bufs q b' hq

lemma inner (h : VdiskInv d η γ) (hquiet : ∀ q, q ≠ p → (γ q).Quiet)
    (hdescs : DescInv d'.free η'.held) (hheld : η'.held = update η.held p x.descs)
    (hsent : η'.sent = η.sent) (hbuf : ∀ b, x.buf = some b → (γ p).buf = some b)
    (hbusy : (γ p).busy = none ∧ x.busy = none) (hleft : (γ p).left = none ∧ x.left = none)
    (hlock : d'.lock = d.lock) (hdisk : d'.disk = d.disk) (havail : d'.avail = d.avail)
    (hused : d'.used = d.used) (hidx : d'.usedIdx = d.usedIdx)
    (hlast : d'.lastAvail = d.lastAvail) (hdev : d'.dev = d.dev)
    (hstatus : ∀ j, (d'.info j).status = (d.info j).status)
    (hframe : ∀ q, q ≠ p → ∀ i ∈ η.held q, d'.desc i = d.desc i ∧ (d'.info i).b = (d.info i).b)
    (hgood : ∀ us, (γ p).Good d us → x.Good d' us) : VdiskInv d' η' (update γ p x) := by
  obtain ⟨av, us, hQ, hold⟩ := h.queue_of_locked hquiet
  refine h.locked hquiet hdescs hheld hlock hbuf (fun q _ => ?_) ?_ (fun b hb => ?_) hframe
    ⟨av, us, ?_, hgood us (hold p)⟩
  · rw [hsent, hdisk]
    exact h.sent q
  · rw [hsent, h.sent p, VdiskStage.sentNow_of_busy hbusy.1, VdiskStage.sentNow_of_busy hbusy.2]
  · rw [hdisk] at hb
    exact .inr ⟨hb, by rw [hbusy.1]; simp⟩
  · rw [hsent, hleft.2, ← hleft.1]
    exact hQ.congr hdev hlast havail hused hidx fun j _ _ _ => hstatus j

section

variable [DecidableEq B] (h : VdiskInv d η γ)
include h

lemma alloc (hquiet : ∀ q, q ≠ p → (γ q).Quiet) (hp : γ p = .scanned b l i) :
    VdiskInv { d with free := update d.free i false } (η.upd p (.alloc i))
      (update γ p (.alloc b (l ++ [i]))) := by
  obtain ⟨av, us, -, hgood⟩ := h.queue_of_locked hquiet
  have hi := hgood p
  rw [hp] at hi
  refine h.inner hquiet (h.descs.alloc hi.1 hi.2) ?_ rfl (fun b' hb' => by rw [hp]; exact hb')
    ⟨by rw [hp]; rfl, rfl⟩ ⟨by rw [hp]; rfl, rfl⟩ rfl rfl rfl rfl rfl rfl rfl (fun _ => rfl)
    (fun q _ j _ => ⟨rfl, rfl⟩) fun us _ => trivial
  change update η.held p (η.held p ++ [i]) = update η.held p (l ++ [i])
  rw [h.held p, hp]
  rfl

omit [DecidableEq B] in
lemma freeDesc_eq (hi : i ∈ (γ p).descs) :
    d.freeDesc i = .done () { d with
      desc := update d.desc i ⟨.null, 0, false, false, 0⟩
      free := update d.free i true } := by
  rw [← h.held p] at hi
  obtain ⟨hlt, hfree⟩ := h.descs.bound p i hi
  rw [Vdisk.freeDesc, if_neg (by omega), hfree, if_neg Bool.false_ne_true]

lemma free (hquiet : ∀ q, q ≠ p → (γ q).Quiet)
    {l : List ℕ} (hp : (γ p).descs = i :: l) (hx : x.descs = l)
    (hbuf : ∀ b, x.buf = some b → (γ p).buf = some b)
    (hbusy : (γ p).busy = none ∧ x.busy = none) (hleft : (γ p).left = none ∧ x.left = none)
    (hgood : ∀ us, (γ p).Good d us → x.Good { d with
      desc := update d.desc i ⟨.null, 0, false, false, 0⟩
      free := update d.free i true } us) :
    VdiskInv { d with
      desc := update d.desc i ⟨.null, 0, false, false, 0⟩
      free := update d.free i true } (η.upd p (.free i)) (update γ p x) := by
  have hi : i ∈ η.held p := by rw [h.held p, hp]; exact List.mem_cons_self
  refine h.inner hquiet (h.descs.giveBack hi) ?_ rfl hbuf hbusy hleft rfl rfl rfl rfl rfl rfl rfl
    (fun _ => rfl) (fun q hqp j hj => ⟨?_, rfl⟩) hgood
  · change update η.held p ((η.held p).erase i) = update η.held p x.descs
    rw [h.held p, hp, hx, List.erase_cons_head]
  · have hji : j ≠ i := fun he => hqp (h.descs.disj q p i (he ▸ hj) hi)
    exact update_of_ne hji _ _

lemma format (hquiet : ∀ q, q ≠ p → (γ q).Quiet)
    {write : Bool} {blockno : ℕ} (hp : γ p = .alloc b [i₀, i₁, i₂]) :
    VdiskInv (d.format b write blockno i₀ i₁ i₂) η (update γ p (.formatted b i₀ i₁ i₂)) := by
  obtain ⟨av, us, hQ, -⟩ := h.queue_of_locked hquiet
  rw [hp] at hQ
  have hheld : η.held p = [i₀, i₁, i₂] := by rw [h.held p, hp]; rfl
  have hnodup := h.descs.nodup p
  rw [hheld] at hnodup
  obtain ⟨⟨h01, h02⟩, h12⟩ : (i₀ ≠ i₁ ∧ i₀ ≠ i₂) ∧ i₁ ≠ i₂ := by simpa using hnodup
  have hother : ∀ q, q ≠ p → ∀ j ∈ η.held q, j ≠ i₀ ∧ j ≠ i₁ ∧ j ≠ i₂ := by
    intro q hqp j hj
    have hno : j ∉ η.held p := fun hjp => hqp (h.descs.disj q p j hj hjp)
    rw [hheld] at hno
    simpa using hno
  have hsentp : η.sent p = none := by rw [h.sent p, hp]; rfl
  refine h.locked hquiet h.descs ?_ rfl (fun b' hb' => by rw [hp]; exact hb') (fun q hqp => ?_)
    hsentp (fun b' hb' => ?_) (fun q hqp j hj => ?_) ⟨av, us, ?_, ⟨⟨?_, ?_, ?_⟩, ?_⟩⟩
  · change η.held = update η.held p [i₀, i₁, i₂]
    rw [← hheld, update_eq_self]
  · rw [h.sent q]
    refine (VdiskStage.sentNow_congr fun b' hb' => ?_).symm
    have hne : b' ≠ b := fun he =>
      hqp (h.buf_unique (by rw [hp]; rfl) (he ▸ VdiskStage.buf_of_busy hb'))
    exact update_of_ne hne _ _
  · by_cases hne : b' = b
    · exact .inl (by rw [hne]; rfl)
    · have hd : update d.disk b true b' = true := hb'
      rw [update_of_ne hne] at hd
      exact .inr ⟨hd, by rw [hp]; simp [VdiskStage.busy]⟩
  · obtain ⟨h0, h1, h2⟩ := hother q hqp j hj
    simp [Vdisk.format, h0, h1, h2]
  · refine hQ.congr rfl rfl rfl rfl rfl fun j q b' hq => ?_
    have hqp : q ≠ p := by
      rintro rfl
      rw [hsentp] at hq
      cases hq
    simp [Vdisk.format, (hother q hqp j (h.mem_held hq)).1]
  · simp [Vdisk.IsChain, Vdisk.format, h01, h02, h12]
  · simp [Vdisk.format]
  · simp [Vdisk.format]
  · simp [Vdisk.format]

end

section

variable (h : VdiskInv d η γ)
include h

lemma not_sent (hi : i ∈ (γ p).descs) (hp : η.sent p = none) (q : Fin N)
    (b : B) : η.sent q ≠ some (i, b) := by
  intro hq
  rw [← h.held p] at hi
  obtain rfl := h.descs.disj q p i (h.mem_held hq) hi
  rw [hp] at hq
  cases hq

lemma lt_NUM (hi : i ∈ (γ p).descs) : i < NUM :=
  (h.descs.bound p i (by rw [h.held p]; exact hi)).1

lemma ring (hquiet : ∀ q, q ≠ p → (γ q).Quiet)
    (hp : γ p = .formatted b i₀ i₁ i₂) :
    VdiskInv { d with avail := ⟨d.avail.idx,
        update d.avail.ring (d.avail.idx % NUM) i₀⟩ } η
      (update γ p (.ringed b i₀ i₁ i₂)) := by
  obtain ⟨av, us, hQ, hgood⟩ := h.queue_of_locked hquiet
  have hreq := hgood p
  rw [hp] at hQ hreq
  have hmem : i₀ ∈ (γ p).descs := by rw [hp]; exact List.mem_cons_self
  have hsentp : η.sent p = none := by rw [h.sent p, hp]; rfl
  refine h.locked hquiet h.descs ?_ rfl (fun b' hb' => by rw [hp]; exact hb') (fun q _ => h.sent q)
    hsentp (fun b' hb' => ?_) (fun q _ j _ => ⟨rfl, rfl⟩)
    ⟨av, us, hQ.ring (h.lt_NUM hmem) (h.not_sent hmem hsentp),
      hreq.1.congr fun j _ => ⟨rfl, rfl⟩, hreq.2, update_self _ _ _⟩
  · change η.held = update η.held p [i₀, i₁, i₂]
    rw [eq_comm, update_eq_self_iff, h.held p, hp]
    rfl
  · by_cases hne : b' = b
    · exact .inl (by rw [hne]; rfl)
    · refine .inr ⟨hb', ?_⟩
      rw [hp]
      exact fun he => hne (Option.some.inj he).symm

lemma ring_slot (hp : γ p = .formatted b i₀ i₁ i₂) (k : ℕ)
    (hk : k < u16 (d.avail.idx + 2 ^ 16 - d.lastAvail)) :
    (d.lastAvail + k) % NUM ≠ d.avail.idx % NUM := by
  obtain ⟨av, us, c, hQ, -⟩ := h.queue
  have hmem : i₀ ∈ (γ p).descs := by rw [hp]; exact List.mem_cons_self
  have hsentp : η.sent p = none := by rw [h.sent p, hp]; rfl
  have hlen : av.length < 8 := hQ.length_av (h.lt_NUM hmem) (h.not_sent hmem hsentp)
  have hidx : d.avail.idx = (d.lastAvail + av.length) % 65536 := hQ.availIdx
  have hr : d.lastAvail < 65536 := hQ.range.1
  have hk' : k < (d.avail.idx + 65536 - d.lastAvail) % 65536 := hk
  change (d.lastAvail + k) % 8 ≠ d.avail.idx % 8
  omega

end

lemma publish [DecidableEq B] (h : VdiskInv d η γ) (hquiet : ∀ q, q ≠ p → (γ q).Quiet)
    (hp : γ p = .ringed b i₀ i₁ i₂) :
    VdiskInv { d with avail := ⟨u16 (d.avail.idx + 1), d.avail.ring⟩ } (η.upd p (.publish i₀ b))
      (update γ p (.sent b i₀ i₁ i₂)) := by
  obtain ⟨av, us, hQ, hgood⟩ := h.queue_of_locked hquiet
  have hreq := hgood p
  rw [hp] at hQ hreq
  have hmem : i₀ ∈ (γ p).descs := by rw [hp]; exact List.mem_cons_self
  have hsentp : η.sent p = none := by rw [h.sent p, hp]; rfl
  refine h.locked hquiet h.descs ?_ rfl (fun b' hb' => by rw [hp]; exact hb') (fun q hqp => ?_)
    ?_ (fun b' hb' => ?_) (fun q _ j _ => ⟨rfl, rfl⟩)
    ⟨av ++ [i₀], us, hQ.publish (h.lt_NUM hmem) (h.not_sent hmem hsentp) hsentp hreq.2.2,
      hreq.1.congr fun j _ => ⟨rfl, rfl⟩⟩
  · change η.held = update η.held p [i₀, i₁, i₂]
    rw [eq_comm, update_eq_self_iff, h.held p, hp]
    rfl
  · change update η.sent p (some (i₀, b)) q = _
    rw [update_of_ne hqp]
    exact h.sent q
  · change update η.sent p (some (i₀, b)) p = if d.disk b then some (i₀, b) else none
    rw [update_self, hreq.2.1, if_pos rfl]
  · by_cases hne : b' = b
    · exact .inl (by rw [hne]; rfl)
    · refine .inr ⟨hb', ?_⟩
      rw [hp]
      exact fun he => hne (Option.some.inj he).symm

lemma completed (h : VdiskInv d η γ) (hquiet : ∀ q, q ≠ p → (γ q).Quiet)
    (hp : γ p = .sent b i₀ i₁ i₂) (hb : d.disk b = false) :
    VdiskInv d η (update γ p (.done b i₀ i₁ i₂)) := by
  refine h.restage hquiet (by rw [hp]; rfl) (fun b' hb' => by rw [hp]; exact hb') ?_
    (fun b' hd hb' => ?_) (by rw [hp]; rfl) fun av us _ hgood => by rwa [hp] at hgood
  · rw [hp]
    simp [VdiskStage.sentNow, hb]
  · rw [hp] at hb'
    cases hb'
    rw [hb] at hd
    cases hd

lemma clearInfo (h : VdiskInv d η γ) (hquiet : ∀ q, q ≠ p → (γ q).Quiet)
    (hp : γ p = .done b i₀ i₁ i₂) :
    VdiskInv { d with info := update d.info i₀ { d.info i₀ with b := none } } η
      (update γ p (.freeing b [i₀, i₁, i₂])) := by
  have hheld : η.held p = [i₀, i₁, i₂] := by rw [h.held p, hp]; rfl
  refine h.inner hquiet h.descs ?_ rfl (fun b' hb' => by rw [hp]; exact hb')
    ⟨by rw [hp]; rfl, rfl⟩ ⟨by rw [hp]; rfl, rfl⟩ rfl rfl rfl rfl rfl rfl rfl (fun j => ?_)
    (fun q hqp j hj => ⟨rfl, ?_⟩) fun us hgood => ?_
  · change η.held = update η.held p [i₀, i₁, i₂]
    rw [← hheld, update_eq_self]
  · by_cases hj : j = i₀
    · subst hj
      simp
    · simp [hj]
  · have hne : j ≠ i₀ := by
      rintro rfl
      refine hqp (h.descs.disj q p j hj ?_)
      rw [hheld]
      exact List.mem_cons_self
    simp [hne]
  · rw [hp] at hgood
    exact hgood.chain.congr fun _ _ => rfl

lemma exists_sent (h : VdiskInv d η γ) {av : List ℕ} {c : Option ℕ}
    (hQ : QueueInv d η.sent av us c) (hgood : ∀ q, (γ q).Good d us)
    (hi : i ∈ av ∨ d.dev i ≠ .idle ∨ i ∈ us) :
    ∃ q b i₁ i₂, η.sent q = some (i, b) ∧ γ q = .sent b i i₁ i₂ ∧ d.Request b i i₁ i₂ := by
  obtain ⟨q, b, hq⟩ := hQ.live i hi
  have hstage := hq
  rw [h.sent q] at hstage
  obtain ⟨-, i₁, i₂, hstage⟩ := VdiskStage.eq_sent hstage
  have hreq := hgood q
  rw [hstage] at hreq
  exact ⟨q, b, i₁, i₂, hq, hstage, hreq⟩

lemma clear [DecidableEq B] (h : VdiskInv d η γ) (hquiet : ∀ q, q ≠ p → (γ q).Quiet)
    (hp : γ p = .found i b) :
    (∃ q, η.sent q = some (i, b)) ∧
      VdiskInv { d with disk := update d.disk b false } (η.upd p (.clear i b))
        (update γ p (.cleared i)) := by
  obtain ⟨av, us, hQ, hgood⟩ := h.queue_of_locked hquiet
  have hfound := hgood p
  rw [hp] at hQ hfound
  obtain ⟨hhead, hinfo⟩ := hfound
  obtain ⟨us, rfl⟩ : ∃ l, us = i :: l := by
    cases us with
    | nil => cases hhead
    | cons j l => exact ⟨l, by rw [Option.some.inj hhead]⟩
  obtain ⟨q, b', i₁, i₂, hq, hstage, hreq⟩ :=
    h.exists_sent hQ hgood (.inr (.inr List.mem_cons_self))
  obtain rfl : b = b' := Option.some.inj (hinfo.symm.trans hreq.buf)
  refine ⟨⟨q, hq⟩, h.locked hquiet h.descs ?_ rfl (fun b' hb' => by cases hb') (fun r hrp => ?_) ?_
    (fun b' hb' => ?_) (fun q _ j _ => ⟨rfl, rfl⟩)
    ⟨av, us, hQ.clear fun r b' hr => (h.sent_unique hq hr).2, trivial⟩⟩
  · change η.held = update η.held p []
    rw [eq_comm, update_eq_self_iff, h.held p, hp]
    rfl
  · change (if η.sent r = some (i, b) then none else η.sent r) = _
    by_cases hr : η.sent r = some (i, b)
    · obtain rfl := (h.sent_unique hq hr).1
      rw [if_pos hr, hstage]
      simp [VdiskStage.sentNow]
    rw [if_neg hr, h.sent r]
    refine (VdiskStage.sentNow_congr fun b' hb' => update_of_ne ?_ _ _).symm
    rintro rfl
    obtain rfl := h.buf_unique (p := q) (q := r) (by rw [hstage]; rfl)
      (VdiskStage.buf_of_busy hb')
    exact hr hq
  · have hsentp : η.sent p = none := by rw [h.sent p, hp]; rfl
    change (if η.sent p = some (i, b) then none else η.sent p) = none
    rw [hsentp]
    simp
  · have hd : update d.disk b false b' = true := hb'
    have hne : b' ≠ b := by
      rintro rfl
      simp at hd
    rw [update_of_ne hne] at hd
    exact .inr ⟨hd, by rw [hp]; simp [VdiskStage.busy]⟩

lemma advance (h : VdiskInv d η γ) (hquiet : ∀ q, q ≠ p → (γ q).Quiet) (hp : γ p = .cleared i) :
    VdiskInv { d with usedIdx := u16 (d.usedIdx + 1) } η (update γ p .out) := by
  obtain ⟨av, us, hQ, -⟩ := h.queue_of_locked hquiet
  rw [hp] at hQ
  refine h.locked hquiet h.descs ?_ rfl (fun b' hb' => by cases hb') (fun q _ => h.sent q)
    (by rw [h.sent p, hp]; rfl) (fun b' hb' => .inr ⟨hb', by rw [hp]; simp [VdiskStage.busy]⟩)
    (fun q _ j _ => ⟨rfl, rfl⟩) ⟨av, us, hQ.advance, trivial⟩
  change η.held = update η.held p []
  rw [eq_comm, update_eq_self_iff, h.held p, hp]
  rfl

lemma fetch (h : VdiskInv d η γ) (hne : d.lastAvail ≠ d.avail.idx) :
    (∃ q b, η.sent q = some (d.avail.ring (d.lastAvail % NUM), b)) ∧
      VdiskInv { d with
        dev := update d.dev (d.avail.ring (d.lastAvail % NUM)) .fetched
        lastAvail := u16 (d.lastAvail + 1) } η γ := by
  constructor
  · obtain ⟨av, us, c, hQ, -⟩ := h.queue
    obtain ⟨i, l, rfl, hi⟩ := hQ.exists_av hne
    rw [hi]
    exact hQ.live i (.inl List.mem_cons_self)
  · refine h.device rfl rfl rfl rfl rfl (fun _ => rfl) fun av us c hQ => ?_
    obtain ⟨i, l, rfl, hi⟩ := hQ.exists_av hne
    rw [hi]
    exact ⟨l, us, hQ.fetch, List.prefix_refl us⟩

lemma writeStatus [DecidableEq B] (h : VdiskInv d η γ) (hi : d.dev i = .fetched) :
    VdiskInv { d with info := d.writeStatus i, dev := update d.dev i .written } η γ := by
  have hinfo : d.writeStatus i = update d.info i { d.info i with status := 0 } := by
    obtain ⟨av, us, c, hQ, hgood, -⟩ := h.queue
    obtain ⟨q, b, i₁, i₂, -, -, hreq⟩ :=
      h.exists_sent hQ hgood (i := i) (.inr (.inl (by rw [hi]; simp)))
    obtain ⟨-, h1, -, h2, -⟩ := hreq.chain
    rw [Vdisk.writeStatus, h1, h2, hreq.status]
  rw [hinfo]
  refine h.device rfl rfl rfl rfl rfl (fun j => ?_)
    fun av us c hQ => ⟨av, us, hQ.writeStatus hi, List.prefix_refl us⟩
  by_cases hj : j = i
  · subst hj
    simp
  · simp [hj]

lemma complete (h : VdiskInv d η γ) (hi : d.dev i = .written) :
    VdiskInv { d with
      used := ⟨u16 (d.used.idx + 1), update d.used.ring (d.used.idx % NUM) i⟩
      dev := update d.dev i .idle } η γ :=
  h.device rfl rfl rfl rfl rfl (fun _ => rfl)
    fun _ us _ hQ => ⟨_, _, hQ.complete hi, List.prefix_append us [i]⟩

end VdiskInv

/-- What holds while `vdisk_lock` is free. -/
structure VdiskRest (η : VdiskHist N B) (d : Vdisk N B) : Prop where
  chain : ∀ p, η.held p = [] ∨ ∃ i₀ i₁ i₂, η.held p = [i₀, i₁, i₂] ∧ d.IsChain [i₀, i₁, i₂]
  free : ∀ i, i < NUM → (d.free i = true ↔ ∀ p, i ∉ η.held p)
  /-- The flag of a buffer is set while a request for it is not completed. -/
  flag : ∀ b, d.disk b = true ↔ ∃ p i, η.sent p = some (i, b)

lemma VdiskInv.rest {d : Vdisk N B} {η : VdiskHist N B} {γ : Fin N → VdiskStage B}
    (h : VdiskInv d η γ) (hquiet : ∀ p, (γ p).Quiet) : VdiskRest η d := by
  obtain ⟨av, us, c, -, hgood, -⟩ := h.queue
  refine ⟨fun p => ?_, fun i hi => ⟨fun hf p => h.descs.notMem_of_free hf p, fun hno => ?_⟩,
    fun b => ⟨fun hb => ?_, ?_⟩⟩
  · have hp := hquiet p
    have hg := hgood p
    rw [h.held p]
    cases hstage : γ p with
    | out => exact .inl rfl
    | alloc b l =>
      rw [hstage] at hp
      exact .inl hp
    | sent b i₀ i₁ i₂ =>
      rw [hstage] at hg
      exact .inr ⟨i₀, i₁, i₂, rfl, hg.chain⟩
    | _ =>
      rw [hstage] at hp
      cases hp
  · cases hfree : d.free i with
    | true => rfl
    | false =>
      obtain ⟨p, hp⟩ := h.descs.owner i hi hfree
      exact absurd hp (hno p)
  · obtain ⟨p, hp⟩ := h.flag b hb
    have hq := hquiet p
    have hsent := h.sent p
    cases hstage : γ p with
    | sent b' i₀ i₁ i₂ =>
      rw [hstage] at hp hsent
      cases hp
      refine ⟨p, i₀, ?_⟩
      rw [hsent]
      simp [VdiskStage.sentNow, hb]
    | out =>
      rw [hstage] at hp
      cases hp
    | alloc b' l =>
      rw [hstage] at hp
      cases hp
    | _ =>
      rw [hstage] at hq
      cases hq
  · rintro ⟨p, i, hp⟩
    rw [h.sent p] at hp
    exact (VdiskStage.eq_sent hp).1

end Xv6
