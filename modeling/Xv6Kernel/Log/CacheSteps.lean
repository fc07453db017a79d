import Xv6Kernel.Log.Invariant

/-!
# The buffers under the actions of the cache

Preservation of `CacheInv`, the part of the invariant that is about the buffers alone.
-/

namespace Xv6

open Function

variable {ι : Type}
variable {x y : Buf ι} {b c : Fin NBUF} {u : Use} {p q : ι}
variable {links' : Links (Option (Fin NBUF))}

/-! ## Uses -/

lemma Use.Ok.of_not_locked (h : u.Ok q x) (hl : x.lock ≠ some q) (hdev : y.dev = x.dev)
    (hno : y.blockno = x.blockno) : u.Ok q y := by
  have hst : ¬ (u.st = .locked ∨ u.st = .ready) := fun hst => hl (h.lock hst)
  refine ⟨hdev.trans h.dev, h.dev_ne, hno.trans h.blockno, h.blockno_lt, fun hs => absurd hs hst,
    fun hs => absurd (.inr hs) hst, fun d hd => absurd (.inr (h.known d hd).1) hst, h.dirty⟩

lemma Use.Ok.congr (h : u.Ok q x) (hdev : y.dev = x.dev) (hno : y.blockno = x.blockno)
    (hlock : y.lock = x.lock) (hvalid : y.valid = x.valid) (hdata : y.data = x.data) : u.Ok q y := by
  refine ⟨hdev.trans h.dev, h.dev_ne, hno.trans h.blockno, h.blockno_lt,
    fun hs => hlock.trans (h.lock hs), fun hs => hvalid.trans (h.valid hs), fun d hd => ?_, h.dirty⟩
  exact ⟨(h.known d hd).1, hdata.trans (h.known d hd).2⟩

@[simp] lemma Buf.pinned_iff {g : LogGeom} {pins : List ℕ} {x : Buf ι} :
    x.pinned g pins = true ↔ x.dev = g.dev ∧ x.blockno ∈ pins := by
  simp [Buf.pinned]

lemma Buf.pinned_congr {g : LogGeom} {pins : List ℕ} (hdev : y.dev = x.dev)
    (hno : y.blockno = x.blockno) : y.pinned g pins = x.pinned g pins := by
  simp only [Buf.pinned, hdev, hno]

section SetUse

variable [DecidableEq ι] {U : ι → Fin NBUF → Option Use}

/-- The uses after the use of the buffer `b` by the thread `p` has become `o`. -/
def setUse (U : ι → Fin NBUF → Option Use) (p : ι) (b : Fin NBUF) (o : Option Use) :
    ι → Fin NBUF → Option Use :=
  update U p (update (U p) b o)

@[simp] lemma setUse_self (p : ι) (b : Fin NBUF) (o : Option Use) : setUse U p b o p b = o := by
  simp [setUse]

lemma setUse_of_ne_buf (h : c ≠ b) (p q : ι) (o : Option Use) : setUse U p b o q c = U q c := by
  by_cases hq : q = p
  · subst hq
    simp [setUse, h]
  · simp [setUse, hq]

lemma setUse_of_ne (h : q ≠ p) (b c : Fin NBUF) (o : Option Use) : setUse U p b o q c = U q c := by
  simp [setUse, h]

lemma setUse_cases {o : Option Use} {v : Use} (h : setUse U p b o q c = some v) :
    (q = p ∧ c = b ∧ o = some v) ∨ ((q ≠ p ∨ c ≠ b) ∧ U q c = some v) := by
  by_cases hq : q = p
  · by_cases hc : c = b
    · subst hq hc
      rw [setUse_self] at h
      exact .inl ⟨rfl, rfl, h⟩
    · rw [setUse_of_ne_buf hc] at h
      exact .inr ⟨.inr hc, h⟩
  · rw [setUse_of_ne hq] at h
    exact .inr ⟨.inl hq, h⟩

variable [Fintype ι]

lemma users_setUse_of_ne (h : c ≠ b) (p : ι) (o : Option Use) :
    users (setUse U p b o) c = users U c := by
  simp only [users, setUse_of_ne_buf h]

lemma users_setUse_add (p : ι) (b : Fin NBUF) (o : Option Use) :
    users (setUse U p b o) b + (U p b).isSome.toNat = users U b + o.isSome.toNat := by
  have h := sum_update_add (fun f : Fin NBUF → Option Use => (f b).isSome.toNat) U p
    (update (U p) b o)
  simpa only [users, setUse, update_self] using h

end SetUse

section Steps

variable [Fintype ι] {g : LogGeom} {buf : Fin NBUF → Buf ι}
  {links : Links (Option (Fin NBUF))} {pins : List ℕ} {U : ι → Fin NBUF → Option Use}

lemma users_pos (h : U p b = some u) : 0 < users U b := by
  have hle : (U p b).isSome.toNat ≤ users U b :=
    Finset.single_le_sum (f := fun p => (U p b).isSome.toNat) (fun _ _ => Nat.zero_le _)
      (Finset.mem_univ p)
  rw [h] at hle
  exact hle

namespace CacheInv

section

variable (h : CacheInv g buf links pins U)
include h

/-- A change at one buffer that keeps its identity: only what concerns that buffer has to be
checked again. -/
lemma change {pins' : List ℕ} {U' : ι → Fin NBUF → Option Use}
    (hring : ∃ l : List (Fin NBUF), links'.Ring none (l.map some) ∧ ∀ b, b ∈ l)
    (hdev : x.dev = (buf b).dev) (hno : x.blockno = (buf b).blockno)
    (huse : ∀ q v, U' q b = some v → v.Ok q x)
    (hlock : ∀ q, x.lock = some q → ∃ u, U' q b = some u ∧ (u.st = .locked ∨ u.st = .ready))
    (href : x.refcnt = users U' b + (x.pinned g pins').toNat)
    (hother : ∀ q c, c ≠ b → U' q c = U q c)
    (hpins : ∀ c, c ≠ b → (buf c).pinned g pins' = (buf c).pinned g pins)
    (hpinned : ∀ n ∈ pins', n ∈ pins ∨ (x.dev = g.dev ∧ x.blockno = n))
    (hvalid : x.pinned g pins' = true → x.valid = true) :
    CacheInv g (update buf b x) links' pins' U' := by
  refine ⟨hring, fun c c' hne hd hn => ?_, fun q c v hv => ?_, fun q c hl => ?_, fun c => ?_,
    fun n hn => ?_⟩
  · have hid : ∀ c, (update buf b x c).dev = (buf c).dev ∧
        (update buf b x c).blockno = (buf c).blockno := fun c => by
      by_cases hc : c = b
      · subst hc
        rw [update_self]
        exact ⟨hdev, hno⟩
      · rw [update_of_ne hc]
        exact ⟨rfl, rfl⟩
    rw [(hid c).1] at hne hd
    rw [(hid c').1] at hd
    rw [(hid c).2, (hid c').2] at hn
    exact h.uniq c c' hne hd hn
  · by_cases hc : c = b
    · subst hc
      rw [update_self]
      exact huse q v hv
    · rw [update_of_ne hc]
      exact h.use q c v ((hother q c hc).symm.trans hv)
  · by_cases hc : c = b
    · subst hc
      rw [update_self] at hl
      exact hlock q hl
    · rw [update_of_ne hc] at hl
      rw [hother q c hc]
      exact h.lock q c hl
  · by_cases hc : c = b
    · subst hc
      rw [update_self]
      exact href
    · have hsame : users U' c = users U c := by simp only [users, hother _ c hc]
      rw [update_of_ne hc, h.refcnt c, hsame, hpins c hc]
  · by_cases hb : x.dev = g.dev ∧ x.blockno = n
    · refine ⟨b, ?_⟩
      rw [update_self]
      exact ⟨hb.1, hb.2, hvalid (Buf.pinned_iff.mpr ⟨hb.1, hb.2 ▸ hn⟩)⟩
    obtain ⟨c, hc⟩ := h.pinned n ((hpinned n hn).resolve_right hb)
    have hcb : c ≠ b := by
      rintro rfl
      exact hb ⟨hdev.trans hc.1, hno.trans hc.2.1⟩
    refine ⟨c, ?_⟩
    rw [update_of_ne hcb]
    exact hc

lemma valid_of_pinned (hp : (buf b).pinned g pins = true) : (buf b).valid = true := by
  rw [Buf.pinned_iff] at hp
  obtain ⟨c, hdev, hno, hvalid⟩ := h.pinned _ hp.2
  have hcb : b = c := h.uniq c b (by rw [hdev]; exact g.dev_ne) (hp.1.trans hdev.symm) hno.symm
  rw [hcb]
  exact hvalid

lemma ring_moveToFront (b : Fin NBUF) : ∃ l : List (Fin NBUF),
      ((links.unlink (some b)).pushFront none (some b)).Ring none (l.map some) ∧ ∀ c, c ∈ l := by
  obtain ⟨l, hring, hall⟩ := h.ring
  obtain ⟨l1, l2, rfl⟩ := List.append_of_mem (hall b)
  refine ⟨b :: (l1 ++ l2), ?_, fun c => ?_⟩
  · have hring' : links.Ring none (l1.map some ++ some b :: l2.map some) := by
      simpa using hring
    have hnodup := hring'.nodup
    have hun := hring'.unlink
    rw [← List.map_append] at hun
    refine hun.pushFront ?_
    simp only [List.mem_cons, reduceCtorEq, List.mem_map, Option.some.injEq, exists_eq_right,
      false_or]
    simp only [List.nodup_cons, List.nodup_append, List.mem_cons, List.mem_map] at hnodup
    simp only [List.mem_append, not_or]
    exact ⟨fun hb => hnodup.2.2.2 (some b) ⟨b, hb, rfl⟩ (some b) (.inl rfl) rfl,
      fun hb => hnodup.2.2.1.1 ⟨b, hb, rfl⟩⟩
  · have := hall c
    simp only [List.mem_append, List.mem_cons] at this ⊢
    tauto

end

variable [DecidableEq ι]

section

variable (h : CacheInv g buf links pins U)
include h

lemma setUse {p : ι} {b : Fin NBUF}
    {u v : Use} {x : Buf ι} (hu : U p b = some u) (hdev : x.dev = (buf b).dev)
    (hno : x.blockno = (buf b).blockno) (href : x.refcnt = (buf b).refcnt)
    (hvalid : (buf b).valid = true → x.valid = true) (hok : v.Ok p x)
    (hold : ∀ q, (buf b).lock = some q → q = p)
    (hnew : ∀ q, x.lock = some q → q = p ∧ (v.st = .locked ∨ v.st = .ready)) :
    CacheInv g (update buf b x) links pins (setUse U p b (some v)) := by
  have hpin : x.pinned g pins = (buf b).pinned g pins := Buf.pinned_congr hdev hno
  refine h.change h.ring hdev hno (fun q w hw => ?_) (fun q hl => ?_) ?_
    (fun q c hc => setUse_of_ne_buf hc p q _) (fun _ _ => rfl) (fun n hn => .inl hn)
    (fun hp => hvalid (h.valid_of_pinned (hpin ▸ hp)))
  · rcases setUse_cases hw with ⟨rfl, -, ho⟩ | ⟨hne, hw'⟩
    · cases ho
      exact hok
    · have hq : q ≠ p := hne.resolve_right (by simp)
      exact (h.use q b w hw').of_not_locked (fun hl => hq (hold q hl)) hdev hno
  · obtain ⟨rfl, hst⟩ := hnew q hl
    exact ⟨v, setUse_self q b _, hst⟩
  · have hcount := users_setUse_add (U := U) p b (some v)
    simp only [hu, Option.isSome_some, Bool.toNat_true] at hcount
    rw [href, h.refcnt b, hpin]
    omega

lemma addUse (hu : U p b = none) (hok : u.Ok p (buf b)) :
    CacheInv g (update buf b { buf b with refcnt := (buf b).refcnt + 1 }) links pins
      (Xv6.setUse U p b (some u)) := by
  refine h.change h.ring rfl rfl (fun q v hv => ?_) (fun q hl => ?_) ?_
    (fun q c hc => setUse_of_ne_buf hc p q _) (fun _ _ => rfl) (fun n hn => .inl hn)
    (fun hp => h.valid_of_pinned hp)
  · rcases setUse_cases hv with ⟨rfl, -, ho⟩ | ⟨-, hv'⟩
    · cases ho
      exact hok.congr rfl rfl rfl rfl rfl
    · exact (h.use q b v hv').congr rfl rfl rfl rfl rfl
  · obtain ⟨v, hv, hst⟩ := h.lock q b hl
    have hq : q ≠ p := by
      rintro rfl
      rw [hu] at hv
      cases hv
    exact ⟨v, by rw [setUse_of_ne hq]; exact hv, hst⟩
  · have hcount := users_setUse_add (U := U) p b (some u)
    simp only [hu, Option.isSome_none, Bool.toNat_false, Option.isSome_some,
      Bool.toNat_true] at hcount
    have href := h.refcnt b
    change (buf b).refcnt + 1 = users (Xv6.setUse U p b (some u)) b + ((buf b).pinned g pins).toNat
    omega

lemma dropUse (hu : U p b = some u) (hst : u.st = .releasing)
    (hring : ∃ l : List (Fin NBUF), links'.Ring none (l.map some) ∧ ∀ b, b ∈ l) :
    CacheInv g (update buf b { buf b with refcnt := (buf b).refcnt - 1 }) links' pins
      (Xv6.setUse U p b none) := by
  refine h.change hring rfl rfl (fun q v hv => ?_) (fun q hl => ?_) ?_
    (fun q c hc => setUse_of_ne_buf hc p q _) (fun _ _ => rfl) (fun n hn => .inl hn)
    (fun hp => h.valid_of_pinned hp)
  · rcases setUse_cases hv with ⟨-, -, ho⟩ | ⟨-, hv'⟩
    · cases ho
    · exact (h.use q b v hv').congr rfl rfl rfl rfl rfl
  · obtain ⟨v, hv, hst'⟩ := h.lock q b hl
    have hq : q ≠ p := by
      rintro rfl
      rw [hu] at hv
      cases hv
      simp [hst] at hst'
    exact ⟨v, by rw [setUse_of_ne hq]; exact hv, hst'⟩
  · have hcount := users_setUse_add (U := U) p b none
    simp only [hu, Option.isSome_none, Bool.toNat_false, Option.isSome_some,
      Bool.toNat_true] at hcount
    have href := h.refcnt b
    change (buf b).refcnt - 1 = users (Xv6.setUse U p b none) b + ((buf b).pinned g pins).toNat
    omega

lemma recycle (href : (buf b).refcnt = 0) (hdev : x.dev = u.dev)
    (hno : x.blockno = u.blockno) (hlock : x.lock = (buf b).lock) (hx : x.refcnt = 1)
    (hok : u.Ok p x) (hmiss : ∀ c, (buf c).dev = u.dev → (buf c).blockno ≠ u.blockno) :
    CacheInv g (update buf b x) links pins (Xv6.setUse U p b (some u)) := by
  have hzero : users U b = 0 ∧ ((buf b).pinned g pins).toNat = 0 := by
    have := h.refcnt b
    omega
  have hnone : ∀ q, U q b = none := fun q => by
    cases hq : U q b with
    | none => rfl
    | some v => exact absurd (users_pos hq) (by omega)
  have hfree : ∀ q, (buf b).lock ≠ some q := fun q hl => by
    obtain ⟨v, hv, -⟩ := h.lock q b hl
    rw [hnone q] at hv
    cases hv
  have hpin : x.pinned g pins = false := by
    rw [Bool.eq_false_iff, ne_eq, Buf.pinned_iff]
    rintro ⟨hxd, hxn⟩
    obtain ⟨c, hcd, hcn, -⟩ := h.pinned _ hxn
    exact hmiss c (hcd.trans (hxd.symm.trans hdev)) (hcn.trans hno)
  refine ⟨h.ring, fun c c' hne hd hn => ?_, fun q c v hv => ?_, fun q c hl => ?_, fun c => ?_,
    fun n hn => ?_⟩
  · -- no other buffer holds the new block, so a clash can only be between two unchanged buffers
    by_cases hc : c = b <;> by_cases hc' : c' = b
    · rw [hc, hc']
    · subst hc
      rw [update_self, update_of_ne hc'] at hd hn
      exact absurd (hn.trans hno) (hmiss c' (hd.trans hdev))
    · subst hc'
      rw [update_self, update_of_ne hc] at hd hn
      exact absurd (hn.symm.trans hno) (hmiss c (hd.symm.trans hdev))
    · rw [update_of_ne hc] at hne hd hn
      rw [update_of_ne hc'] at hd hn
      exact h.uniq c c' hne hd hn
  · rcases setUse_cases hv with ⟨rfl, rfl, ho⟩ | ⟨hne, hv'⟩
    · cases ho
      rw [update_self]
      exact hok
    have hc : c ≠ b := by
      rintro rfl
      rw [hnone q] at hv'
      cases hv'
    rw [update_of_ne hc]
    exact h.use q c v hv'
  · have hc : c ≠ b := by
      rintro rfl
      rw [update_self, hlock] at hl
      exact hfree q hl
    rw [update_of_ne hc] at hl
    rw [setUse_of_ne_buf hc]
    exact h.lock q c hl
  · by_cases hc : c = b
    · subst hc
      have hcount := users_setUse_add (U := U) p c (some u)
      simp only [hnone p, Option.isSome_none, Bool.toNat_false, Option.isSome_some,
        Bool.toNat_true] at hcount
      rw [update_self, hx, hpin, Bool.toNat_false]
      omega
    · rw [update_of_ne hc, h.refcnt c, users_setUse_of_ne hc]
  · obtain ⟨c, hc⟩ := h.pinned n hn
    have hcb : c ≠ b := by
      rintro rfl
      have hp : (buf c).pinned g pins = true := Buf.pinned_iff.mpr ⟨hc.1, hc.2.1 ▸ hn⟩
      simp [hp] at hzero
    refine ⟨c, ?_⟩
    rw [update_of_ne hcb]
    exact hc

omit [DecidableEq ι]

end

omit [DecidableEq ι] in
lemma pin (h : CacheInv g buf links pins U) (hdev : (buf b).dev = g.dev)
    (hvalid : (buf b).valid = true) (hnew : (buf b).blockno ∉ pins) :
    CacheInv g (update buf b { buf b with refcnt := (buf b).refcnt + 1 }) links
      (pins ++ [(buf b).blockno]) U := by
  refine h.change h.ring rfl rfl (fun q v hv => (h.use q b v hv).congr rfl rfl rfl rfl rfl)
    (fun q hl => h.lock q b hl) ?_ (fun _ _ _ => rfl) (fun c hc => ?_) (fun n hn => ?_)
    (fun _ => hvalid)
  · have href := h.refcnt b
    have hold : (buf b).pinned g pins = false := by
      simp [Buf.pinned, hnew]
    have hpin : (buf b).pinned g (pins ++ [(buf b).blockno]) = true := by
      simp [hdev]
    rw [hold, Bool.toNat_false] at href
    change (buf b).refcnt + 1 = users U b + ((buf b).pinned g (pins ++ [(buf b).blockno])).toNat
    rw [hpin, Bool.toNat_true]
    omega
  · have hne : (buf c).dev = g.dev → (buf c).blockno ≠ (buf b).blockno := fun hd hn =>
      hc (h.uniq b c (by rw [hdev]; exact g.dev_ne) (hd.trans hdev.symm) hn)
    simp only [Buf.pinned, List.mem_append, List.mem_singleton]
    by_cases hd : (buf c).dev = g.dev
    · simp [hne hd]
    · simp [hd]
  · rcases List.mem_append.mp hn with hn | hn
    · exact .inl hn
    · exact .inr ⟨hdev, (List.mem_singleton.mp hn).symm⟩

omit [DecidableEq ι] in
lemma unpin {n : ℕ} (h : CacheInv g buf links (n :: pins) U) (hn : n ∉ pins)
    (hdev : (buf b).dev = g.dev) (hno : (buf b).blockno = n) :
    CacheInv g (update buf b { buf b with refcnt := (buf b).refcnt - 1 }) links pins U := by
  subst hno
  refine h.change h.ring rfl rfl (fun q v hv => (h.use q b v hv).congr rfl rfl rfl rfl rfl)
    (fun q hl => h.lock q b hl) ?_ (fun _ _ _ => rfl) (fun c hc => ?_)
    (fun m hm => .inl (List.mem_cons_of_mem _ hm))
    (fun hp => absurd (Buf.pinned_iff.mp hp).2 hn)
  · have href := h.refcnt b
    have hold : (buf b).pinned g ((buf b).blockno :: pins) = true := by
      simp [hdev]
    have hpin : (buf b).pinned g pins = false := by
      simp [Buf.pinned, hn]
    rw [hold, Bool.toNat_true] at href
    change (buf b).refcnt - 1 = users U b + ((buf b).pinned g pins).toNat
    rw [hpin, Bool.toNat_false]
    omega
  · have hne : (buf c).dev = g.dev → (buf c).blockno ≠ (buf b).blockno := fun hd hn =>
      hc (h.uniq b c (by rw [hdev]; exact g.dev_ne) (hd.trans hdev.symm) hn)
    simp only [Buf.pinned, List.mem_cons]
    by_cases hd : (buf c).dev = g.dev
    · simp [hne hd]
    · simp [hd]

end CacheInv

end Steps

end Xv6
