import Xv6Kernel.Virtio.Model

/-!
# The invariant of the virtio disk driver

The descriptors that a process has allocated and the requests that it has published are read off the
trace of its actions.  `DescInv` says that a descriptor is free if and only if no process has it.
-/

namespace Xv6

open Function

variable {N : ℕ} {B : Type}

/-! ## Histories -/

structure VdiskHist (N : ℕ) (B : Type) where
  /-- The descriptors that a process has allocated and not given back. -/
  held : Fin N → List ℕ
  /-- The head and the buffer of the request that a process has published and that is not
  completed. -/
  sent : Fin N → Option (ℕ × B)

def VdiskHist.upd [DecidableEq B] (η : VdiskHist N B) (p : Fin N) : VdiskAct B → VdiskHist N B
  | .alloc i => { η with held := update η.held p (η.held p ++ [i]) }
  | .free i => { η with held := update η.held p ((η.held p).erase i) }
  | .publish i b => { η with sent := update η.sent p (some (i, b)) }
  | .clear i b =>
    { η with sent := fun q => if η.sent q = some (i, b) then none else η.sent q }
  | _ => η

/-! ## Descriptors -/

structure DescInv (free : ℕ → Bool) (held : Fin N → List ℕ) : Prop where
  nodup : ∀ p, (held p).Nodup
  bound : ∀ p i, i ∈ held p → i < NUM ∧ free i = false
  disj : ∀ p q i, i ∈ held p → i ∈ held q → p = q
  owner : ∀ i, i < NUM → free i = false → ∃ p, i ∈ held p

namespace DescInv

variable {free : ℕ → Bool} {held : Fin N → List ℕ} {p : Fin N} {i : ℕ}

lemma notMem_of_free (h : DescInv free held) (hi : free i = true) (q : Fin N) : i ∉ held q := by
  intro hq
  rw [(h.bound q i hq).2] at hi
  cases hi

lemma alloc (h : DescInv free held) (hi : i < NUM) (hfree : free i = true) :
    DescInv (update free i false) (update held p (held p ++ [i])) := by
  have hno := h.notMem_of_free hfree
  have hmem : ∀ q j, j ∈ update held p (held p ++ [i]) q ↔
      j ∈ held q ∨ q = p ∧ j = i := by
    intro q j
    by_cases hq : q = p
    · subst hq
      simp
    · simp [hq]
  refine ⟨fun q => ?_, fun q j hj => ?_, fun q r j hq hr => ?_, fun j hj hjf => ?_⟩
  · by_cases hq : q = p
    · subst hq
      rw [update_self]
      exact List.Nodup.append (h.nodup q) (List.nodup_singleton i) (by simpa using hno q)
    · rw [update_of_ne hq]
      exact h.nodup q
  · rcases (hmem q j).mp hj with hj | ⟨-, rfl⟩
    · have hji : j ≠ i := fun he => hno q (he ▸ hj)
      rw [update_of_ne hji]
      exact h.bound q j hj
    · exact ⟨hi, update_self _ _ _⟩
  · rcases (hmem q j).mp hq with hq | ⟨hqp, hji⟩ <;>
      rcases (hmem r j).mp hr with hr | ⟨hrp, hji'⟩
    · exact h.disj q r j hq hr
    · exact absurd (hji' ▸ hq) (hno q)
    · exact absurd (hji ▸ hr) (hno r)
    · rw [hqp, hrp]
  · by_cases hji : j = i
    · exact ⟨p, (hmem p j).mpr (.inr ⟨rfl, hji⟩)⟩
    · rw [update_of_ne hji] at hjf
      obtain ⟨q, hq⟩ := h.owner j hj hjf
      exact ⟨q, (hmem q j).mpr (.inl hq)⟩

lemma giveBack (h : DescInv free held) (hi : i ∈ held p) :
    DescInv (update free i true) (update held p ((held p).erase i)) := by
  have hmem : ∀ q j, j ∈ update held p ((held p).erase i) q ↔ j ∈ held q ∧ j ≠ i := by
    intro q j
    by_cases hq : q = p
    · subst hq
      rw [update_self, (h.nodup q).mem_erase_iff, and_comm]
    · rw [update_of_ne hq]
      exact ⟨fun hj => ⟨hj, fun he => hq (h.disj q p i (he ▸ hj) hi)⟩, And.left⟩
  refine ⟨fun q => ?_, fun q j hj => ?_, fun q r j hq hr => ?_, fun j hj hjf => ?_⟩
  · by_cases hq : q = p
    · subst hq
      rw [update_self]
      exact (h.nodup q).erase i
    · rw [update_of_ne hq]
      exact h.nodup q
  · obtain ⟨hj, hji⟩ := (hmem q j).mp hj
    rw [update_of_ne hji]
    exact h.bound q j hj
  · exact h.disj q r j ((hmem q j).mp hq).1 ((hmem r j).mp hr).1
  · have hji : j ≠ i := by
      rintro rfl
      rw [update_self] at hjf
      cases hjf
    rw [update_of_ne hji] at hjf
    obtain ⟨q, hq⟩ := h.owner j hj hjf
    exact ⟨q, (hmem q j).mpr ⟨hq, hji⟩⟩

end DescInv

/-! ## The rings -/

/-- The device and the driver between the two rings.  The heads `av` are published and not fetched,
the heads `us` are completed and not seen by the driver.  The driver has cleared the buffer of the
request `c` and has not yet advanced `used_idx`. -/
structure QueueInv (d : Vdisk N B) (sent : Fin N → Option (ℕ × B)) (av us : List ℕ)
    (c : Option ℕ) : Prop where
  live : ∀ i, i ∈ av ∨ d.dev i ≠ .idle ∨ i ∈ us → ∃ p b, sent p = some (i, b)
  lt : ∀ p i b, sent p = some (i, b) → i < NUM
  avNodup : av.Nodup
  usNodup : us.Nodup
  avOnly : ∀ i, i ∈ av → d.dev i = .idle ∧ i ∉ us
  usOnly : ∀ i, i ∈ us → d.dev i = .idle
  range : d.lastAvail < 2 ^ 16 ∧ d.usedIdx < 2 ^ 16
  availIdx : d.avail.idx = u16 (d.lastAvail + av.length)
  availRing : ∀ k i, av[k]? = some i → d.avail.ring ((d.lastAvail + k) % NUM) = i
  usedIdx : d.used.idx = u16 (d.usedIdx + (c.toList ++ us).length)
  usedRing : ∀ k i, (c.toList ++ us)[k]? = some i → d.used.ring ((d.usedIdx + k) % NUM) = i
  status : ∀ i, d.dev i = .written ∨ i ∈ us → (d.info i).status = 0
  cleared : ∀ i, c = some i → i < NUM ∧ ∀ p b, sent p ≠ some (i, b)

lemma length_le_NUM {l : List ℕ} (hl : l.Nodup) (hlt : ∀ i ∈ l, i < NUM) : l.length ≤ NUM := by
  have hsub : l ⊆ List.range NUM := fun i hi => List.mem_range.mpr (hlt i hi)
  simpa using (List.subperm_of_subset hl hsub).length_le

namespace QueueInv

variable {d d' : Vdisk N B} {sent : Fin N → Option (ℕ × B)} {av us : List ℕ} {c : Option ℕ}
  {p : Fin N} {b : B} {i : ℕ}

section

variable (h : QueueInv d sent av us c)
include h

lemma lt_of_live (hi : i ∈ av ∨ d.dev i ≠ .idle ∨ i ∈ us) : i < NUM := by
  obtain ⟨q, b, hq⟩ := h.live i hi
  exact h.lt q i b hq

lemma length_av (hi : i < NUM) (hno : ∀ q b, sent q ≠ some (i, b)) : av.length < NUM := by
  have hnot : i ∉ av := fun hmem => by
    obtain ⟨q, b, hq⟩ := h.live i (.inl hmem)
    exact hno q b hq
  refine length_le_NUM (List.nodup_cons.mpr ⟨hnot, h.avNodup⟩) fun j hj => ?_
  rcases List.mem_cons.mp hj with rfl | hj
  · exact hi
  · exact h.lt_of_live (.inl hj)

lemma nodup_used : (c.toList ++ us).Nodup := by
  cases c with
  | none => exact h.usNodup
  | some j =>
    refine List.nodup_cons.mpr ⟨fun hj => ?_, h.usNodup⟩
    obtain ⟨q, b, hq⟩ := h.live j (.inr (.inr hj))
    exact (h.cleared j rfl).2 q b hq

lemma mem_used (hi : i ∈ c.toList ++ us) : i < NUM ∧ d.dev i = .idle := by
  rcases List.mem_append.mp hi with hi | hi
  · have hc := h.cleared i (Option.mem_toList.mp hi)
    refine ⟨hc.1, ?_⟩
    by_contra hne
    obtain ⟨q, b, hq⟩ := h.live i (.inr (.inl hne))
    exact hc.2 q b hq
  · exact ⟨h.lt_of_live (.inr (.inr hi)), h.usOnly i hi⟩

lemma length_used (hi : d.dev i ≠ .idle) : (c.toList ++ us).length < NUM := by
  refine length_le_NUM (List.nodup_cons.mpr ⟨fun hmem => hi (h.mem_used hmem).2, h.nodup_used⟩)
    fun j hj => ?_
  rcases List.mem_cons.mp hj with rfl | hj
  · exact h.lt_of_live (.inr (.inl hi))
  · exact (h.mem_used hj).1

lemma congr (hdev : d'.dev = d.dev)
    (hlast : d'.lastAvail = d.lastAvail) (hav : d'.avail = d.avail) (hused : d'.used = d.used)
    (hidx : d'.usedIdx = d.usedIdx)
    (hst : ∀ j q b, sent q = some (j, b) → (d'.info j).status = (d.info j).status) :
    QueueInv d' sent av us c := by
  refine ⟨?_, h.lt, h.avNodup, h.usNodup, ?_, ?_, ?_, ?_, ?_, ?_, ?_, fun j hj => ?_, h.cleared⟩
  · rw [hdev]
    exact h.live
  · rw [hdev]
    exact h.avOnly
  · rw [hdev]
    exact h.usOnly
  · rw [hlast, hidx]
    exact h.range
  · rw [hav, hlast]
    exact h.availIdx
  · rw [hav, hlast]
    exact h.availRing
  · rw [hused, hidx]
    exact h.usedIdx
  · rw [hused, hidx]
    exact h.usedRing
  · rw [hdev] at hj
    obtain ⟨q, b, hq⟩ := h.live j (.inr (hj.imp (fun hw => by rw [hw]; simp) id))
    rw [hst j q b hq]
    exact h.status j hj

lemma ring (hi : i < NUM) (hno : ∀ q b, sent q ≠ some (i, b)) :
    QueueInv { d with avail := ⟨d.avail.idx,
      update d.avail.ring (d.avail.idx % NUM) i⟩ } sent av us c := by
  have hlen : av.length < 8 := h.length_av hi hno
  refine ⟨h.live, h.lt, h.avNodup, h.usNodup, h.avOnly, h.usOnly, h.range, h.availIdx,
    fun k j hj => ?_, h.usedIdx, h.usedRing, h.status, h.cleared⟩
  have hk : k < av.length := (List.getElem?_eq_some_iff.mp hj).1
  have hidx : d.avail.idx = (d.lastAvail + av.length) % 65536 := h.availIdx
  have hne : (d.lastAvail + k) % 8 ≠ d.avail.idx % 8 := by omega
  change update d.avail.ring (d.avail.idx % NUM) i ((d.lastAvail + k) % NUM) = j
  rw [update_of_ne hne]
  exact h.availRing k j hj

end

lemma publish (h : QueueInv d sent av us none) (hi : i < NUM)
    (hno : ∀ q b, sent q ≠ some (i, b)) (hp : sent p = none)
    (hring : d.avail.ring (d.avail.idx % NUM) = i) :
    QueueInv { d with avail := ⟨u16 (d.avail.idx + 1), d.avail.ring⟩ }
      (update sent p (some (i, b))) (av ++ [i]) us none := by
  have hold : ∀ q j b', sent q = some (j, b') →
      update sent p (some (i, b)) q = some (j, b') := by
    intro q j b' hq
    have hqp : q ≠ p := by
      rintro rfl
      rw [hp] at hq
      cases hq
    rw [update_of_ne hqp]
    exact hq
  have hnot : ¬(i ∈ av ∨ d.dev i ≠ .idle ∨ i ∈ us) := by
    intro hlive
    obtain ⟨q, b', hq⟩ := h.live i hlive
    exact hno q b' hq
  rw [not_or, not_or, not_not] at hnot
  have hidx : d.avail.idx = (d.lastAvail + av.length) % 65536 := h.availIdx
  refine ⟨fun j hj => ?_, fun q j b' hq => ?_, ?_, h.usNodup, fun j hj => ?_, h.usOnly, h.range, ?_,
    fun k j hj => ?_, h.usedIdx, h.usedRing, h.status, fun j hj => (by cases hj)⟩
  · by_cases hji : j = i
    · exact ⟨p, b, by rw [update_self, hji]⟩
    · obtain ⟨q, b', hq⟩ := h.live j (hj.imp (fun hm => by simpa [hji] using hm) id)
      exact ⟨q, b', hold q j b' hq⟩
  · by_cases hqp : q = p
    · subst hqp
      rw [update_self] at hq
      cases hq
      exact hi
    · rw [update_of_ne hqp] at hq
      exact h.lt q j b' hq
  · exact List.Nodup.append h.avNodup (List.nodup_singleton i) (by simpa using hnot.1)
  · rcases List.mem_append.mp hj with hj | hj
    · exact h.avOnly j hj
    · obtain rfl := List.mem_singleton.mp hj
      exact hnot.2
  · change (d.avail.idx + 1) % 65536 = (d.lastAvail + (av ++ [i]).length) % 65536
    rw [List.length_append, List.length_singleton]
    omega
  · change d.avail.ring ((d.lastAvail + k) % NUM) = j
    rcases Nat.lt_trichotomy k av.length with hk | rfl | hk
    · rw [List.getElem?_append_left hk] at hj
      exact h.availRing k j hj
    · rw [List.getElem?_concat_length] at hj
      have hslot : (d.lastAvail + av.length) % 8 = d.avail.idx % 8 := by omega
      change d.avail.ring ((d.lastAvail + av.length) % 8) = j
      rw [hslot, ← Option.some.inj hj]
      exact hring
    · rw [List.getElem?_eq_none (by rw [List.length_append, List.length_singleton]; omega)] at hj
      cases hj

lemma clear [DecidableEq B] (h : QueueInv d sent av (i :: us) none)
    (hone : ∀ q b', sent q = some (i, b') → b' = b) {disk : B → Bool} :
    QueueInv { d with disk := disk }
      (fun q => if sent q = some (i, b) then none else sent q) av us (some i) := by
  have hkeep : ∀ q j b', j ≠ i → sent q = some (j, b') →
      (if sent q = some (i, b) then none else sent q) = some (j, b') := by
    intro q j b' hji hq
    rw [if_neg (by rw [hq]; intro he; cases he; exact hji rfl)]
    exact hq
  have hback : ∀ q j b', (if sent q = some (i, b) then none else sent q) = some (j, b') →
      sent q = some (j, b') := by
    intro q j b' hq
    split at hq
    · cases hq
    · exact hq
  obtain ⟨hius, hus⟩ := List.nodup_cons.mp h.usNodup
  have hidle := h.usOnly i List.mem_cons_self
  refine ⟨fun j hj => ?_, fun q j b' hq => h.lt q j b' (hback q j b' hq), h.avNodup, hus,
    fun j hj => ?_, fun j hj => h.usOnly j (List.mem_cons_of_mem i hj), h.range, h.availIdx,
    h.availRing, h.usedIdx, h.usedRing, fun j hj => h.status j (hj.imp id (List.mem_cons_of_mem i)),
    ?_⟩
  · have hji : j ≠ i := by
      rintro rfl
      rcases hj with hj | hj | hj
      · exact (h.avOnly j hj).2 List.mem_cons_self
      · exact hj hidle
      · exact hius hj
    obtain ⟨q, b', hq⟩ := h.live j (hj.imp id (Or.imp id (List.mem_cons_of_mem i)))
    exact ⟨q, b', hkeep q j b' hji hq⟩
  · obtain ⟨h1, h2⟩ := h.avOnly j hj
    exact ⟨h1, fun hm => h2 (List.mem_cons_of_mem i hm)⟩
  · rintro j hj
    cases hj
    refine ⟨h.lt_of_live (.inr (.inr List.mem_cons_self)), fun q b' hq => ?_⟩
    have hq' := hback q i b' hq
    rw [if_pos (by rw [hq', hone q b' hq'])] at hq
    cases hq

lemma advance (h : QueueInv d sent av us (some i)) :
    QueueInv { d with usedIdx := u16 (d.usedIdx + 1) } sent av us none := by
  have hidx : d.used.idx = (d.usedIdx + (us.length + 1)) % 65536 := h.usedIdx
  refine ⟨h.live, h.lt, h.avNodup, h.usNodup, h.avOnly, h.usOnly,
    ⟨h.range.1, Nat.mod_lt _ (by decide)⟩, h.availIdx, h.availRing, ?_, fun k j hj => ?_, h.status,
    fun j hj => (by cases hj)⟩
  · change d.used.idx = ((d.usedIdx + 1) % 65536 + us.length) % 65536
    omega
  · have hnext := h.usedRing (k + 1) j hj
    have hslot : ((d.usedIdx + 1) % 65536 + k) % 8 = (d.usedIdx + (k + 1)) % 8 := by omega
    change d.used.ring (((d.usedIdx + 1) % 65536 + k) % 8) = j
    rw [hslot]
    exact hnext

lemma exists_av (h : QueueInv d sent av us c) (hne : d.lastAvail ≠ d.avail.idx) :
    ∃ i l, av = i :: l ∧ d.avail.ring (d.lastAvail % NUM) = i := by
  cases av with
  | nil =>
    have hidx : d.avail.idx = d.lastAvail % 65536 := h.availIdx
    have hr : d.lastAvail < 65536 := h.range.1
    omega
  | cons i l => exact ⟨i, l, rfl, h.availRing 0 i rfl⟩

lemma exists_us (h : QueueInv d sent av us none) (hne : d.usedIdx ≠ d.used.idx) : us ≠ [] := by
  rintro rfl
  have hidx : d.used.idx = d.usedIdx % 65536 := h.usedIdx
  have hr : d.usedIdx < 65536 := h.range.2
  omega

lemma fetch (h : QueueInv d sent (i :: av) us c) :
    QueueInv { d with
      dev := update d.dev i .fetched
      lastAvail := u16 (d.lastAvail + 1) } sent av us c := by
  obtain ⟨hiav, hav⟩ := List.nodup_cons.mp h.avNodup
  obtain ⟨hidle, hius⟩ := h.avOnly i List.mem_cons_self
  have hidx : d.avail.idx = (d.lastAvail + (av.length + 1)) % 65536 := h.availIdx
  refine ⟨fun j hj => ?_, h.lt, hav, h.usNodup, fun j hj => ?_, fun j hj => ?_,
    ⟨Nat.mod_lt _ (by decide), h.range.2⟩, ?_, fun k j hj => ?_, h.usedIdx, h.usedRing,
    fun j hj => h.status j (hj.imp (fun hw => ?_) id), h.cleared⟩
  · by_cases hji : j = i
    · exact h.live j (.inl (hji ▸ List.mem_cons_self))
    · refine h.live j (hj.imp (List.mem_cons_of_mem i) (Or.imp (fun hd => ?_) id))
      simpa [hji] using hd
  · have hji : j ≠ i := fun he => hiav (he ▸ hj)
    obtain ⟨h1, h2⟩ := h.avOnly j (List.mem_cons_of_mem i hj)
    exact ⟨by simpa [hji] using h1, h2⟩
  · have hji : j ≠ i := fun he => hius (he ▸ hj)
    simpa [hji] using h.usOnly j hj
  · change d.avail.idx = ((d.lastAvail + 1) % 65536 + av.length) % 65536
    omega
  · have hnext := h.availRing (k + 1) j hj
    have hslot : ((d.lastAvail + 1) % 65536 + k) % 8 = (d.lastAvail + (k + 1)) % 8 := by omega
    change d.avail.ring (((d.lastAvail + 1) % 65536 + k) % 8) = j
    rw [hslot]
    exact hnext
  · by_cases hji : j = i
    · subst hji
      simp at hw
    · simpa [hji] using hw

lemma writeStatus (h : QueueInv d sent av us c) (hi : d.dev i = .fetched) :
    QueueInv { d with
      info := update d.info i { d.info i with status := 0 }
      dev := update d.dev i .written } sent av us c := by
  refine ⟨fun j hj => ?_, h.lt, h.avNodup, h.usNodup, fun j hj => ?_, fun j hj => ?_, h.range,
    h.availIdx, h.availRing, h.usedIdx, h.usedRing, fun j hj => ?_, h.cleared⟩
  · by_cases hji : j = i
    · exact h.live j (.inr (.inl (by rw [hji, hi]; simp)))
    · exact h.live j (by simpa [hji] using hj)
  · obtain ⟨h1, h2⟩ := h.avOnly j hj
    have hji : j ≠ i := by
      rintro rfl
      rw [hi] at h1
      cases h1
    exact ⟨by simpa [hji] using h1, h2⟩
  · have h1 := h.usOnly j hj
    have hji : j ≠ i := by
      rintro rfl
      rw [hi] at h1
      cases h1
    simpa [hji] using h1
  · by_cases hji : j = i
    · subst hji
      simp
    · simp only [ne_eq, hji, not_false_eq_true, update_of_ne] at hj ⊢
      exact h.status j hj

lemma complete (h : QueueInv d sent av us c) (hi : d.dev i = .written) :
    QueueInv { d with
      used := ⟨u16 (d.used.idx + 1), update d.used.ring (d.used.idx % NUM) i⟩
      dev := update d.dev i .idle } sent av (us ++ [i]) c := by
  have hbusy : d.dev i ≠ .idle := by rw [hi]; simp
  have hlen : (c.toList ++ us).length < 8 := h.length_used hbusy
  have hnot : i ∉ us := fun hm => hbusy (h.usOnly i hm)
  have hidx : d.used.idx = (d.usedIdx + (c.toList ++ us).length) % 65536 := h.usedIdx
  refine ⟨fun j hj => ?_, h.lt, h.avNodup, ?_, fun j hj => ?_, fun j hj => ?_, h.range, h.availIdx,
    h.availRing, ?_, fun k j hj => ?_, fun j hj => ?_, h.cleared⟩
  · by_cases hji : j = i
    · exact h.live j (.inr (.inl (hji ▸ hbusy)))
    · exact h.live j (by simpa [hji] using hj)
  · exact List.Nodup.append h.usNodup (List.nodup_singleton i) (by simpa using hnot)
  · obtain ⟨h1, h2⟩ := h.avOnly j hj
    have hji : j ≠ i := by
      rintro rfl
      exact hbusy h1
    exact ⟨by simpa [hji] using h1, by simpa [hji] using h2⟩
  · by_cases hji : j = i
    · subst hji
      simp
    · have hm : j ∈ us := by simpa [hji] using hj
      simpa [hji] using h.usOnly j hm
  · change (d.used.idx + 1) % 65536 = (d.usedIdx + (c.toList ++ (us ++ [i])).length) % 65536
    rw [← List.append_assoc, List.length_append, List.length_singleton]
    omega
  · rw [← List.append_assoc] at hj
    change update d.used.ring (d.used.idx % NUM) i ((d.usedIdx + k) % NUM) = j
    rcases Nat.lt_trichotomy k (c.toList ++ us).length with hk | rfl | hk
    · rw [List.getElem?_append_left hk] at hj
      have hne : (d.usedIdx + k) % 8 ≠ d.used.idx % 8 := by omega
      rw [update_of_ne hne]
      exact h.usedRing k j hj
    · rw [List.getElem?_concat_length] at hj
      have hslot : (d.usedIdx + (c.toList ++ us).length) % 8 = d.used.idx % 8 := by omega
      change update d.used.ring (d.used.idx % 8) i
        ((d.usedIdx + (c.toList ++ us).length) % 8) = j
      rw [hslot, update_self]
      exact Option.some.inj hj
    · rw [List.getElem?_eq_none (by rw [List.length_append, List.length_singleton]; omega)] at hj
      cases hj
  · by_cases hji : j = i
    · subst hji
      exact h.status j (.inl hi)
    · exact h.status j (by simpa [hji] using hj)

end QueueInv

end Xv6
