import Xv6Kernel.Memory.Copy

/-!
# What the copies do

A copy goes up to the end of its range or to the first page that is not mapped as it should be, and
fails in the second case.
-/

namespace Xv6

open Function

variable {K : KernelImage} {pt : ℕ}
variable {s s' : KMem} {dst : List UInt8} {rounds srcva : ℕ} {src : ℕ → UInt8}
variable {pg : Page} {dstva a e x : ℕ} {mem' : ℕ → Page}

/-! ## How far a copy goes -/

/-- A copy of `len` bytes from the address `va` on has copied `k` of them: all, or those before the
first page that is not good. -/
structure Reached (good : ℕ → Prop) (va len k : ℕ) (r : Int) : Prop where
  ret : (r = 0 ∧ k = len) ∨
    (r = -1 ∧ k < len ∧ ¬good ((va + k) / PGSIZE) ∧ (k = 0 ∨ (va + k) % PGSIZE = 0))
  good : ∀ j < k, good ((va + j) / PGSIZE)

namespace Reached

variable {good : ℕ → Prop} {va len k : ℕ} {r : Int}

lemma le (h : Reached good va len k r) : k ≤ len := by
  rcases h.ret with ⟨-, rfl⟩ | ⟨-, hlt, -⟩
  · exact le_rfl
  · exact hlt.le

lemma eq_zero_iff (h : Reached good va len k r) : r = 0 ↔ ∀ j < len, good ((va + j) / PGSIZE) := by
  rcases h.ret with ⟨hr, hk⟩ | ⟨hr, hlt, hbad, -⟩
  · exact iff_of_true hr (hk ▸ h.good)
  · refine iff_of_false (by rw [hr]; decide) fun hall => hbad (hall k hlt)

lemma unique {k' : ℕ} {r' : Int} (h : Reached good va len k r) (h' : Reached good va len k' r') :
    k' = k ∧ r' = r := by
  have hzero : r' = 0 ↔ r = 0 := h'.eq_zero_iff.trans h.eq_zero_iff.symm
  rcases h.ret with ⟨hr, hk⟩ | ⟨hr, hlt, hbad, -⟩
  · rcases h'.ret with ⟨hr', hk'⟩ | ⟨hr', -⟩
    · exact ⟨hk'.trans hk.symm, hr'.trans hr.symm⟩
    · omega
  rcases h'.ret with ⟨hr', -⟩ | ⟨hr', hlt', hbad', -⟩
  · omega
  refine ⟨?_, hr'.trans hr.symm⟩
  rcases Nat.lt_trichotomy k' k with hkk | hkk | hkk
  · exact absurd (h.good k' hkk) hbad'
  · exact hkk
  · exact absurd (h'.good k hkk) hbad

lemma stop (hlen : 0 < len) (hbad : ¬good (va / PGSIZE)) : Reached good va len 0 (-1) :=
  ⟨.inr ⟨rfl, hlen, hbad, .inl rfl⟩, fun _ hj => absurd hj (Nat.not_lt_zero _)⟩

lemma none (good : ℕ → Prop) (va : ℕ) : Reached good va 0 0 0 :=
  ⟨.inl ⟨rfl, rfl⟩, fun _ hj => absurd hj (Nat.not_lt_zero _)⟩

lemma page {len' k' : ℕ} (hlen : 0 < len) (hgood : good (va / PGSIZE))
    (h : Reached good ((va / PGSIZE + 1) * PGSIZE) len' k' r)
    (hlen' : len' = len - min (PGSIZE - va % PGSIZE) len) :
    Reached good va len (min (PGSIZE - va % PGSIZE) len + k') r := by
  have hle := h.le
  obtain ⟨n, hn⟩ : ∃ n, n = min (PGSIZE - va % PGSIZE) len := ⟨_, rfl⟩
  have hn' : n = min (4096 - va % 4096) len := hn
  rw [← hn] at hlen' ⊢
  have hnext : 0 < len' → (va / PGSIZE + 1) * PGSIZE = va + n := by
    intro hpos
    change (va / 4096 + 1) * 4096 = va + n
    omega
  refine ⟨?_, fun j hj => ?_⟩
  · rcases h.ret with ⟨hr, hk⟩ | ⟨hr, hlt, hbad, hstart⟩
    · exact .inl ⟨hr, by omega⟩
    rw [hnext (by omega), Nat.add_assoc] at hbad hstart
    refine .inr ⟨hr, by omega, hbad, .inr ?_⟩
    rcases hstart with hk | hstart
    · subst hk
      change (va + (n + 0)) % 4096 = 0
      omega
    · exact hstart
  · by_cases hjn : j < n
    · have hsame : (va + j) / PGSIZE = va / PGSIZE := by
        change (va + j) / 4096 = va / 4096
        omega
      rwa [hsame]
    · have hg := h.good (j - n) (by omega)
      rw [hnext (by omega)] at hg
      rwa [show va + n + (j - n) = va + j by omega] at hg

end Reached

lemma pgrounddown_eq (a : ℕ) :
    pgrounddown a = a / PGSIZE * PGSIZE ∧ a - pgrounddown a = a % PGSIZE := by
  unfold pgrounddown PGSIZE
  omega

lemma pte2pa_aligned (pte : ℕ) : pte2pa pte % PGSIZE = 0 := by
  rw [pte2pa_eq]
  unfold PGSIZE
  omega

lemma translate_page (mem : ℕ → Page) (pt a : ℕ) :
    pgrounddown (translate mem pt a) = pte2pa (pteOf mem pt (a / PGSIZE)) ∧
      translate mem pt a % PGSIZE = a % PGSIZE := by
  have h := pte2pa_aligned (pteOf mem pt (a / PGSIZE))
  unfold translate pgrounddown PGSIZE at *
  omega

lemma physByte_update (mem : ℕ → Page) (x : ℕ) (pg : Page) (a : ℕ) :
    physByte (update mem x pg) a =
      if pgrounddown a = x then pageByte pg (a % PGSIZE) else physByte mem a := by
  unfold physByte
  split
  · rename_i h
    rw [h, update_self]
  · rename_i h
    rw [update_of_ne h]

/-! ## `copyout` -/

structure CopiedTo (mem : ℕ → Page) (pt va : ℕ) (src : ℕ → UInt8) (k : ℕ) (mem' : ℕ → Page) :
    Prop where
  new : ∀ j < k, physByte mem' (translate mem pt (va + j)) = src j
  old : ∀ a, (∀ j < k, a ≠ translate mem pt (va + j)) → physByte mem' a = physByte mem a
  table : ∀ x ∈ tablePages mem 2 pt, mem' x = mem x

lemma CopiedTo.none (mem : ℕ → Page) (pt va : ℕ) (src : ℕ → UInt8) :
    CopiedTo mem pt va src 0 mem :=
  ⟨fun _ hj => absurd hj (Nat.not_lt_zero _), fun _ _ => rfl, fun _ _ => rfl⟩

lemma CopiedTo.page {mem : ℕ → Page} {va n : ℕ} {src : ℕ → UInt8}
    (hx : pte2pa (pteOf mem pt (va / PGSIZE)) ∉ tablePages mem 2 pt)
    (hn : va % PGSIZE + n ≤ PGSIZE) :
    CopiedTo mem pt va src n (update mem (pte2pa (pteOf mem pt (va / PGSIZE)))
      (setBytes (mem (pte2pa (pteOf mem pt (va / PGSIZE)))) (va % PGSIZE) n src)) := by
  have hn' : va % 4096 + n ≤ 4096 := hn
  refine ⟨fun j hj => ?_, fun a ha => ?_, fun x hx' => ?_⟩
  · have hdiv : (va + j) / PGSIZE = va / PGSIZE := by
      change (va + j) / 4096 = va / 4096
      omega
    have hmod : (va + j) % PGSIZE = va % PGSIZE + j := by
      change (va + j) % 4096 = va % 4096 + j
      omega
    obtain ⟨hpage, hoff⟩ := translate_page mem pt (va + j)
    rw [hdiv] at hpage
    rw [physByte_update, if_pos hpage, hoff, hmod,
      pageByte_setBytes _ _ _ _ (by change va % 4096 + j < 4096; omega), if_pos (by omega),
      Nat.add_sub_cancel_left]
  · rw [physByte_update]
    split
    · rename_i hpage
      rw [pageByte_setBytes _ _ _ _ (Nat.mod_lt _ (by decide)), if_neg ?_, physByte, hpage]
      rintro ⟨hlo, hhi⟩
      refine ha (a % PGSIZE - va % PGSIZE) (by omega) ?_
      have hlo' : va % 4096 ≤ a % 4096 := hlo
      have hdiv : (va + (a % PGSIZE - va % PGSIZE)) / PGSIZE = va / PGSIZE := by
        change (va + (a % 4096 - va % 4096)) / 4096 = va / 4096
        omega
      have hoff : (va + (a % PGSIZE - va % PGSIZE)) % PGSIZE = a % PGSIZE := by
        change (va + (a % 4096 - va % 4096)) % 4096 = a % 4096
        omega
      rw [translate, hdiv, hoff, ← hpage]
      unfold pgrounddown PGSIZE
      omega
    · rfl
  · exact update_of_ne (ne_of_mem_of_not_mem hx' hx) _ _

lemma CopiedTo.append {mem mem1 : ℕ → Page} {va va' n k : ℕ} (h : CopiedTo mem pt va src n mem1)
    (h' : CopiedTo mem1 pt va' (fun j => src (n + j)) k mem') (hva : 0 < k → va' = va + n)
    (hne : ∀ i < n, ∀ j < k, translate mem pt (va + i) ≠ translate mem pt (va' + j)) :
    CopiedTo mem pt va src (n + k) mem' := by
  have htrans : translate mem1 pt = translate mem pt := by
    funext a
    unfold translate pteOf
    rw [entryOf_congr _ h.table]
  have htab : tablePages mem1 2 pt = tablePages mem 2 pt := tablePages_congr h.table
  refine ⟨fun j hj => ?_, fun a ha => ?_, fun x hx => ?_⟩
  · by_cases hjn : j < n
    · rw [h'.old, h.new j hjn]
      intro i hi
      rw [htrans]
      exact hne j hjn i hi
    · have hnew := h'.new (j - n) (by omega)
      rw [htrans, hva (by omega)] at hnew
      rwa [show va + n + (j - n) = va + j by omega, show n + (j - n) = j by omega] at hnew
  · rw [h'.old, h.old a fun j hj => ha j (by omega)]
    intro j hj
    rw [htrans, hva (by omega), Nat.add_assoc]
    exact ha (n + j) (by omega)
  · rw [h'.table x (by rwa [htab]), h.table x hx]

lemma runs_copyoutFrom_succ {len : ℕ} {r : Except String Int} (hlen : 0 < len) :
    (copyoutFrom pt (rounds + 1) dstva src len).Runs K s r s' ↔
      if WritablePage s.mem pt (dstva / PGSIZE) then
        (copyoutFrom pt rounds ((dstva / PGSIZE + 1) * PGSIZE)
          (fun j => src (min (PGSIZE - dstva % PGSIZE) len + j))
          (len - min (PGSIZE - dstva % PGSIZE) len)).Runs K
            (s.setPage (pte2pa (pteOf s.mem pt (dstva / PGSIZE)))
              (setBytes (s.mem (pte2pa (pteOf s.mem pt (dstva / PGSIZE)))) (dstva % PGSIZE)
                (min (PGSIZE - dstva % PGSIZE) len) src)) r s'
      else r = .ok (-1) ∧ s' = s := by
  obtain ⟨hround, hoff⟩ := pgrounddown_eq dstva
  rw [copyoutFrom, if_pos hlen]
  dsimp only
  rw [hoff, hround]
  by_cases hv : dstva / PGSIZE < MAXPN
  swap
  · rw [if_pos (maxva_le_of_not_lt hv), if_neg fun hw => hv hw.1.1]
    exact Iff.rfl
  rw [if_neg (Nat.not_le.mpr (page_lt_maxva hv)), runs_walk (page_lt_maxva hv), u64_next_page hv]
  have hentry := findPte_entry s.mem (dstva / PGSIZE * PGSIZE) 2 pt
  cases hfind : findPte s.mem (dstva / PGSIZE * PGSIZE) 2 pt with
  | none =>
    rw [hfind] at hentry
    have hno : ¬WritablePage s.mem pt (dstva / PGSIZE) := fun hw => not_isValid_zero (by
      have hvalid := hw.1.2.1
      rwa [pteOf, hentry] at hvalid)
    rw [if_neg hno]
    exact Iff.rfl
  | some ref =>
    rw [hfind] at hentry
    have hpte : s.mem ref.1 ref.2 = pteOf s.mem pt (dstva / PGSIZE) := hentry.symm
    change (if ¬IsValid (s.mem ref.1 ref.2) ∨ s.mem ref.1 ref.2 &&& PTE_U = 0 ∨
      s.mem ref.1 ref.2 &&& PTE_W = 0 then pure (-1) else _ : MProg Int).Runs K s r s' ↔ _
    rw [hpte]
    by_cases hw : WritablePage s.mem pt (dstva / PGSIZE)
    · rw [if_neg (by rintro (h | h | h); exacts [h hw.1.2.1, hw.1.2.2 h, hw.2 h]), if_pos hw]
      exact Iff.rfl
    rw [if_pos ?_, if_neg hw]
    · exact Iff.rfl
    · by_contra hno
      rw [not_or, not_or, not_not] at hno
      exact hw ⟨⟨hv, hno.1, hno.2.1⟩, hno.2.2⟩

lemma copyoutFrom_spec {len : ℕ} {r : Except String Int} (hsep : Separate s.mem pt)
    (hlen : len ≤ rounds) (hrun : (copyoutFrom pt rounds dstva src len).Runs K s r s') :
    ∃ n k, r = .ok n ∧ Reached (WritablePage s.mem pt) dstva len k n ∧
      CopiedTo s.mem pt dstva src k s'.mem ∧ s'.freelist = s.freelist := by
  induction rounds generalizing dstva len src s with
  | zero =>
    obtain rfl : len = 0 := by omega
    obtain ⟨rfl, rfl⟩ := hrun
    exact ⟨0, 0, rfl, .none _ _, .none _ _ _ _, rfl⟩
  | succ rounds ih =>
    rcases Nat.eq_zero_or_pos len with rfl | hpos
    · obtain ⟨rfl, rfl⟩ := hrun
      exact ⟨0, 0, rfl, .none _ _, .none _ _ _ _, rfl⟩
    rw [runs_copyoutFrom_succ hpos] at hrun
    split at hrun
    swap
    · rename_i hbad
      obtain ⟨rfl, rfl⟩ := hrun
      exact ⟨-1, 0, rfl, .stop hpos hbad, .none _ _ _ _, rfl⟩
    rename_i hgood
    obtain ⟨n, hn⟩ : ∃ n, n = min (PGSIZE - dstva % PGSIZE) len := ⟨_, rfl⟩
    have hn' : n = min (4096 - dstva % 4096) len := hn
    have happ := hsep.apart _ hgood
    have hfirst := @CopiedTo.page pt s.mem dstva n src happ (show dstva % PGSIZE + n ≤ PGSIZE by
      omega)
    rw [← hn] at hrun
    obtain ⟨m, k, hr, hreach, hcopy, hfree⟩ := ih (hsep.update happ _) (by omega) hrun
    have hsame : WritablePage (s.setPage (pte2pa (pteOf s.mem pt (dstva / PGSIZE)))
        (setBytes (s.mem (pte2pa (pteOf s.mem pt (dstva / PGSIZE)))) (dstva % PGSIZE) n src)).mem
        pt = WritablePage s.mem pt := by
      funext v
      unfold WritablePage UserPage
      rw [show (s.setPage _ _).mem = update s.mem _ _ from rfl, pteOf_update happ]
    rw [hsame] at hreach
    refine ⟨m, n + k, hr, ?_, hfirst.append hcopy (fun hk => ?_) fun i hi j hj heq => ?_, hfree⟩
    · rw [hn] at hreach ⊢
      exact hreach.page hpos hgood rfl
    · have hle := hreach.le
      change (dstva / 4096 + 1) * 4096 = dstva + n
      omega
    · -- the addresses lie on different pages
      have hwi : (dstva + i) / PGSIZE = dstva / PGSIZE := by
        change (dstva + i) / 4096 = dstva / 4096
        omega
      have hpages := congrArg pgrounddown heq
      rw [(translate_page _ _ _).1, (translate_page _ _ _).1, hwi] at hpages
      have hv := hsep.inj _ _ hgood (hreach.good j hj) hpages
      have : dstva / 4096 = ((dstva / 4096 + 1) * 4096 + j) / 4096 := hv
      omega

/-! ## `copyin` -/

def userBytes (mem : ℕ → Page) (pt va k : ℕ) : List UInt8 :=
  (List.range k).map fun j => physByte mem (translate mem pt (va + j))

lemma userBytes_add (mem : ℕ → Page) (pt va n k : ℕ) :
    userBytes mem pt va (n + k) = userBytes mem pt va n ++ userBytes mem pt (va + n) k := by
  unfold userBytes
  rw [List.range_add, List.map_append, List.map_map]
  refine congrArg₂ List.append rfl (List.map_congr_left fun j _ => ?_)
  rw [Function.comp_apply, Nat.add_assoc]

lemma physByte_translate {mem : ℕ → Page} {va j : ℕ} (hj : va % PGSIZE + j < PGSIZE) :
    physByte mem (translate mem pt (va + j)) =
      pageByte (mem (pte2pa (pteOf mem pt (va / PGSIZE)))) (va % PGSIZE + j) := by
  have hj' : va % 4096 + j < 4096 := hj
  have hdiv : (va + j) / PGSIZE = va / PGSIZE := by
    change (va + j) / 4096 = va / 4096
    omega
  have hmod : (va + j) % PGSIZE = va % PGSIZE + j := by
    change (va + j) % 4096 = va % 4096 + j
    omega
  obtain ⟨hpage, hoff⟩ := translate_page mem pt (va + j)
  rw [physByte, hpage, hoff, hdiv, hmod]

lemma pageBytes_eq {mem : ℕ → Page} {va n : ℕ} (hn : va % PGSIZE + n ≤ PGSIZE) :
    pageBytes (mem (pte2pa (pteOf mem pt (va / PGSIZE)))) (va % PGSIZE) n = userBytes mem pt va n := by
  refine List.map_congr_left fun j hj => ?_
  rw [List.mem_range] at hj
  rw [physByte_translate (by omega)]

lemma first_part (va len : ℕ) : va % PGSIZE + min (PGSIZE - va % PGSIZE) len ≤ PGSIZE ∧
      (0 < len - min (PGSIZE - va % PGSIZE) len →
        (va / PGSIZE + 1) * PGSIZE = va + min (PGSIZE - va % PGSIZE) len) ∧
      (0 < len → 0 < min (PGSIZE - va % PGSIZE) len) := by
  refine ⟨?_, fun h => ?_, fun h => ?_⟩
  · change va % 4096 + min (4096 - va % 4096) len ≤ 4096
    omega
  · have h' : 0 < len - min (4096 - va % 4096) len := h
    change (va / 4096 + 1) * 4096 = va + min (4096 - va % 4096) len
    omega
  · change 0 < min (4096 - va % 4096) len
    omega

/-- What `walkaddr` takes for a user page: physical page 0 counts as not mapped. -/
def Readable (mem : ℕ → Page) (pt v : ℕ) : Prop :=
  UserPage mem pt v ∧ pte2pa (pteOf mem pt v) ≠ 0

instance (mem : ℕ → Page) (pt v : ℕ) : Decidable (Readable mem pt v) :=
  inferInstanceAs (Decidable (_ ∧ _))

lemma runs_copyinFrom_succ {len : ℕ} {r : Except String (Int × List UInt8)} (hlen : 0 < len) :
    (copyinFrom pt (rounds + 1) srcva len dst).Runs K s r s' ↔
      if Readable s.mem pt (srcva / PGSIZE) then
        (copyinFrom pt rounds ((srcva / PGSIZE + 1) * PGSIZE)
          (len - min (PGSIZE - srcva % PGSIZE) len)
          (dst ++ userBytes s.mem pt srcva (min (PGSIZE - srcva % PGSIZE) len))).Runs K s r s'
      else r = .ok (-1, dst) ∧ s' = s := by
  obtain ⟨hround, hoff⟩ := pgrounddown_eq srcva
  rw [copyinFrom, if_pos hlen]
  dsimp only
  rw [hoff, hround, runs_walkaddr]
  by_cases hu : UserPage s.mem pt (srcva / PGSIZE)
  swap
  · rw [if_neg hu, if_pos rfl, if_neg fun h => hu h.1]
    exact Iff.rfl
  rw [if_pos hu]
  by_cases hz : pte2pa (pteOf s.mem pt (srcva / PGSIZE)) = 0
  · rw [if_pos hz, if_neg fun h => h.2 hz]
    exact Iff.rfl
  rw [if_neg hz, if_pos ⟨hu, hz⟩, u64_next_page hu.1, ← pageBytes_eq (first_part srcva len).1]
  exact Iff.rfl

lemma copyinFrom_spec {len : ℕ} {r : Except String (Int × List UInt8)} (hlen : len ≤ rounds)
    (hrun : (copyinFrom pt rounds srcva len dst).Runs K s r s') :
    s' = s ∧ ∃ n k, r = .ok (n, dst ++ userBytes s.mem pt srcva k) ∧
      Reached (Readable s.mem pt) srcva len k n := by
  induction rounds generalizing srcva len dst with
  | zero =>
    obtain rfl : len = 0 := by omega
    obtain ⟨rfl, rfl⟩ := hrun
    exact ⟨rfl, 0, 0, by simp [userBytes], .none _ _⟩
  | succ rounds ih =>
    rcases Nat.eq_zero_or_pos len with rfl | hpos
    · obtain ⟨rfl, rfl⟩ := hrun
      exact ⟨rfl, 0, 0, by simp [userBytes], .none _ _⟩
    rw [runs_copyinFrom_succ hpos] at hrun
    split at hrun
    swap
    · rename_i hbad
      obtain ⟨rfl, rfl⟩ := hrun
      exact ⟨rfl, -1, 0, by simp [userBytes], .stop hpos hbad⟩
    rename_i hgood
    obtain ⟨-, hnext, hmin⟩ := first_part srcva len
    obtain ⟨hs, n, k, hr, hreach⟩ := ih (by omega) hrun
    refine ⟨hs, n, _, ?_, hreach.page hpos hgood rfl⟩
    rw [hr, userBytes_add, List.append_assoc]
    rcases Nat.eq_zero_or_pos k with rfl | hk
    · simp [userBytes]
    · rw [hnext (lt_of_lt_of_le hk hreach.le)]

/-! ## `copyinstr` -/

lemma copyStr_spec (pg : Page) (n off : ℕ) (dst : List UInt8) :
    (∃ k < n, pageByte pg (off + k) = 0 ∧ (∀ j < k, pageByte pg (off + j) ≠ 0) ∧
      copyStr pg n off dst = (dst ++ pageBytes pg off (k + 1), true)) ∨
    ((∀ j < n, pageByte pg (off + j) ≠ 0) ∧
      copyStr pg n off dst = (dst ++ pageBytes pg off n, false)) := by
  induction n generalizing off dst with
  | zero => exact .inr ⟨fun _ hj => absurd hj (Nat.not_lt_zero _), by simp [copyStr, pageBytes]⟩
  | succ n ih =>
    rw [copyStr]
    by_cases hzero : pageByte pg off = 0
    · rw [if_pos hzero]
      refine .inl ⟨0, Nat.succ_pos n, hzero, fun _ hj => absurd hj (Nat.not_lt_zero _), ?_⟩
      simp [pageBytes, hzero]
    rw [if_neg hzero]
    have hcons : ∀ m, dst ++ [pageByte pg off] ++ pageBytes pg (off + 1) m =
        dst ++ pageBytes pg off (m + 1) := by
      intro m
      rw [pageBytes, pageBytes, List.range_succ_eq_map, List.map_cons, List.map_map,
        List.append_assoc]
      refine congrArg (fun l => dst ++ pageByte pg off :: l) (List.map_congr_left fun j _ => ?_)
      rw [Function.comp_apply, Nat.succ_eq_add_one, Nat.add_assoc, Nat.add_comm 1]
    have hbefore : ∀ m, (∀ j < m, pageByte pg (off + 1 + j) ≠ 0) →
        ∀ j < m + 1, pageByte pg (off + j) ≠ 0 := by
      intro m hm j hj
      cases j with
      | zero => exact hzero
      | succ j =>
        have := hm j (by omega)
        rwa [Nat.add_assoc, Nat.add_comm 1] at this
    rcases ih (off + 1) (dst ++ [pageByte pg off]) with ⟨k, hk, hz, hne, heq⟩ | ⟨hne, heq⟩
    · refine .inl ⟨k + 1, by omega, ?_, hbefore k hne, by rw [heq, hcons]⟩
      rwa [Nat.add_assoc, Nat.add_comm 1] at hz
    · exact .inr ⟨hbefore n hne, by rw [heq, hcons]⟩

def userByte (mem : ℕ → Page) (pt va : ℕ) : UInt8 := physByte mem (translate mem pt va)

structure IsStr (mem : ℕ → Page) (pt : ℕ) (good : ℕ → Prop) (va k : ℕ) : Prop where
  good : ∀ j ≤ k, good ((va + j) / PGSIZE)
  byte : ∀ j < k, userByte mem pt (va + j) ≠ 0
  nul : userByte mem pt (va + k) = 0

/-- What `copyinstr` returns: a string with its zero, or -1 and the bytes before the end or the
first page that is not good. -/
inductive StrResult (mem : ℕ → Page) (pt : ℕ) (good : ℕ → Prop) (va max : ℕ) :
    Int → List UInt8 → Prop
  | found {k : ℕ} (hk : k < max) (hstr : IsStr mem pt good va k) :
      StrResult mem pt good va max 0 (userBytes mem pt va (k + 1))
  | failed {k : ℕ} (hk : k ≤ max) (hgood : ∀ j < k, good ((va + j) / PGSIZE))
      (hbyte : ∀ j < k, userByte mem pt (va + j) ≠ 0)
      (hend : k = max ∨ ¬good ((va + k) / PGSIZE)) :
      StrResult mem pt good va max (-1) (userBytes mem pt va k)

namespace StrResult

variable {mem : ℕ → Page} {good : ℕ → Prop} {va max : ℕ} {n : Int} {out : List UInt8}

section

variable (h : StrResult mem pt good va max n out)
include h

lemma eq_zero_iff :
    n = 0 ↔ ∃ k < max, IsStr mem pt good va k := by
  cases h with
  | found hk hstr => exact iff_of_true rfl ⟨_, hk, hstr⟩
  | @failed k hk hgood hbyte hend =>
    refine iff_of_false (by decide) ?_
    rintro ⟨i, hi, hstr⟩
    by_cases hik : i < k
    · exact hbyte i hik hstr.nul
    · rcases hend with rfl | hbad
      · omega
      · exact hbad (hstr.good k (by omega))

lemma out_eq {k : ℕ} (hk : k < max)
    (hstr : IsStr mem pt good va k) : out = userBytes mem pt va (k + 1) := by
  have hzero : n = 0 := h.eq_zero_iff.mpr ⟨k, hk, hstr⟩
  cases h with
  | @found i hi hstr' =>
    rcases Nat.lt_trichotomy i k with hik | hik | hik
    · exact absurd hstr'.nul (hstr.byte i hik)
    · rw [hik]
    · exact absurd hstr.nul (hstr'.byte k hik)
  | failed => exact absurd hzero (by decide)

lemma length_le : out.length ≤ max := by
  cases h with
  | found hk _ => simpa [userBytes] using Nat.succ_le_of_lt hk
  | failed hk _ _ _ => simpa [userBytes] using hk

end

end StrResult

lemma runs_copyinstrFrom_succ {max : ℕ} {r : Except String (Int × List UInt8)} (hmax : 0 < max) :
    (copyinstrFrom pt (rounds + 1) srcva max dst).Runs K s r s' ↔
      if Readable s.mem pt (srcva / PGSIZE) then
        (let q := copyStr (s.mem (pte2pa (pteOf s.mem pt (srcva / PGSIZE))))
            (min (PGSIZE - srcva % PGSIZE) max) (srcva % PGSIZE) dst
          if q.2 then pure (0, q.1)
          else copyinstrFrom pt rounds ((srcva / PGSIZE + 1) * PGSIZE)
            (max - min (PGSIZE - srcva % PGSIZE) max) q.1 : MProg _).Runs K s r s'
      else r = .ok (-1, dst) ∧ s' = s := by
  obtain ⟨hround, hoff⟩ := pgrounddown_eq srcva
  rw [copyinstrFrom, if_pos hmax]
  dsimp only
  rw [hoff, hround, runs_walkaddr]
  by_cases hu : UserPage s.mem pt (srcva / PGSIZE)
  swap
  · rw [if_neg hu, if_pos rfl, if_neg fun h => hu h.1]
    exact Iff.rfl
  rw [if_pos hu]
  by_cases hz : pte2pa (pteOf s.mem pt (srcva / PGSIZE)) = 0
  · rw [if_pos hz, if_neg fun h => h.2 hz]
    exact Iff.rfl
  rw [if_neg hz, if_pos ⟨hu, hz⟩, u64_next_page hu.1]
  exact Iff.rfl

lemma first_part_page {va len j : ℕ} (hj : j < min (PGSIZE - va % PGSIZE) len) :
    va % PGSIZE + j < PGSIZE ∧ (va + j) / PGSIZE = va / PGSIZE := by
  have hj' : j < min (4096 - va % 4096) len := hj
  constructor
  · change va % 4096 + j < 4096
    omega
  · change (va + j) / 4096 = va / 4096
    omega

lemma StrResult.page {mem : ℕ → Page} {good : ℕ → Prop} {va max : ℕ} {n : Int} {out : List UInt8}
    (hgood : good (va / PGSIZE))
    (hbyte : ∀ j < min (PGSIZE - va % PGSIZE) max, userByte mem pt (va + j) ≠ 0)
    (h : StrResult mem pt good ((va / PGSIZE + 1) * PGSIZE)
      (max - min (PGSIZE - va % PGSIZE) max) n out) : StrResult mem pt good va max n
      (userBytes mem pt va (min (PGSIZE - va % PGSIZE) max) ++ out) := by
  obtain ⟨-, hnext, -⟩ := first_part va max
  have hpage := @first_part_page va max
  obtain ⟨m, hm⟩ : ∃ m, m = min (PGSIZE - va % PGSIZE) max := ⟨_, rfl⟩
  have hle : m ≤ max := hm ▸ min_le_right _ _
  rw [← hm] at hbyte h hnext hpage ⊢
  have hgood' : ∀ j < m, good ((va + j) / PGSIZE) := fun j hj => by
    rw [(hpage hj).2]
    exact hgood
  -- an address of the range lies in the first part or in the rest
  have hsplit : ∀ {P : ℕ → Prop} {k : ℕ}, (∀ j < m, P (va + j)) → (∀ j < k, P (va + m + j)) →
      ∀ j < m + k, P (va + j) := by
    intro P k h1 h2 j hj
    by_cases hjm : j < m
    · exact h1 j hjm
    · have := h2 (j - m) (by omega)
      rwa [show va + m + (j - m) = va + j by omega] at this
  cases h with
  | @found k hk hstr =>
    have hva := hnext (by omega)
    obtain ⟨hg, hb, hz⟩ := hstr
    rw [hva] at hg hb hz ⊢
    rw [← userBytes_add, ← Nat.add_assoc]
    refine .found (by omega) ⟨fun j hj => ?_,
      hsplit (P := fun a => userByte mem pt a ≠ 0) hbyte hb, by rwa [← Nat.add_assoc]⟩
    exact hsplit (P := fun a => good (a / PGSIZE)) hgood' (fun i hi => hg i (by omega)) j
      (show j < m + (k + 1) by omega)
  | @failed k hk hg hb hend =>
    rcases Nat.eq_zero_or_pos (max - m) with hzero | hpos
    · obtain rfl : k = 0 := by omega
      rw [show userBytes mem pt ((va / PGSIZE + 1) * PGSIZE) 0 = [] from rfl, List.append_nil]
      exact .failed hle hgood' hbyte (.inl (by omega))
    have hva := hnext hpos
    rw [hva] at hg hb hend ⊢
    rw [← userBytes_add]
    refine .failed (by omega) (hsplit (P := fun a => good (a / PGSIZE)) hgood' hg)
      (hsplit (P := fun a => userByte mem pt a ≠ 0) hbyte hb) ?_
    rw [← Nat.add_assoc]
    exact hend.imp (by omega) id

lemma copyinstrFrom_spec {max : ℕ} {r : Except String (Int × List UInt8)} (hmax : max ≤ rounds)
    (hrun : (copyinstrFrom pt rounds srcva max dst).Runs K s r s') :
    s' = s ∧ ∃ n out, r = .ok (n, dst ++ out) ∧
      StrResult s.mem pt (Readable s.mem pt) srcva max n out := by
  -- nothing is copied when the loop stops at once
  have hstop : ∀ {srcva max : ℕ}, (0 = max ∨ ¬Readable s.mem pt ((srcva + 0) / PGSIZE)) →
      StrResult s.mem pt (Readable s.mem pt) srcva max (-1) [] := fun hend =>
    .failed (k := 0) (Nat.zero_le _) (fun _ hj => absurd hj (Nat.not_lt_zero _))
      (fun _ hj => absurd hj (Nat.not_lt_zero _)) hend
  induction rounds generalizing srcva max dst with
  | zero =>
    obtain rfl : max = 0 := by omega
    obtain ⟨rfl, rfl⟩ := hrun
    exact ⟨rfl, -1, [], by rw [List.append_nil], hstop (.inl rfl)⟩
  | succ rounds ih =>
    rcases Nat.eq_zero_or_pos max with rfl | hpos
    · obtain ⟨rfl, rfl⟩ := hrun
      exact ⟨rfl, -1, [], by rw [List.append_nil], hstop (.inl rfl)⟩
    rw [runs_copyinstrFrom_succ hpos] at hrun
    split at hrun
    swap
    · rename_i hbad
      obtain ⟨rfl, rfl⟩ := hrun
      exact ⟨rfl, -1, [], by rw [List.append_nil], hstop (.inr hbad)⟩
    rename_i hgood
    obtain ⟨hfit, -, hmin⟩ := first_part srcva max
    have hbytes : ∀ j < min (PGSIZE - srcva % PGSIZE) max, userByte s.mem pt (srcva + j) =
        pageByte (s.mem (pte2pa (pteOf s.mem pt (srcva / PGSIZE)))) (srcva % PGSIZE + j) :=
      fun j hj => physByte_translate (first_part_page hj).1
    rcases copyStr_spec (s.mem (pte2pa (pteOf s.mem pt (srcva / PGSIZE))))
      (min (PGSIZE - srcva % PGSIZE) max) (srcva % PGSIZE) dst with
      ⟨k, hk, hzero, hne, heq⟩ | ⟨hne, heq⟩
    · simp only [heq, if_true] at hrun
      obtain ⟨rfl, rfl⟩ := hrun
      rw [pageBytes_eq (by omega)]
      refine ⟨rfl, 0, _, rfl, .found (by omega) ⟨fun j hj => ?_, fun j hj => ?_, ?_⟩⟩
      · rw [(first_part_page (lt_of_le_of_lt hj hk)).2]
        exact hgood
      · rw [hbytes j (by omega)]
        exact hne j hj
      · rw [hbytes k hk]
        exact hzero
    · simp only [heq, Bool.false_eq_true, if_false] at hrun
      rw [pageBytes_eq hfit] at hrun
      obtain ⟨hs, n, out, hr, hres⟩ := ih (by omega) hrun
      refine ⟨hs, n, _, by rw [hr, List.append_assoc], hres.page hgood fun j hj => ?_⟩
      rw [hbytes j hj]
      exact hne j hj

/-! ## The copies -/

def NoZeroPage (mem : ℕ → Page) (pt : ℕ) : Prop :=
  ∀ v, UserPage mem pt v → pte2pa (pteOf mem pt v) ≠ 0

lemma NoZeroPage.readable_eq {mem : ℕ → Page} (h : NoZeroPage mem pt) :
    Readable mem pt = UserPage mem pt :=
  funext fun v => propext ⟨fun hr => hr.1, fun hu => ⟨hu, h v hu⟩⟩

lemma copyin_always (hz : NoZeroPage s.mem pt) (va len : ℕ) :
    (copyin pt va len).Always K s fun r s' => s' = s ∧ ∃ n k,
      r = .ok (n, userBytes s.mem pt va k) ∧ Reached (UserPage s.mem pt) va len k n := by
  refine ⟨HProg.Runs.total K _ s, fun r s' hrun => ?_⟩
  obtain ⟨hs, n, k, hr, hreach⟩ := copyinFrom_spec le_rfl hrun
  rw [hz.readable_eq] at hreach
  exact ⟨hs, n, k, hr, hreach⟩

lemma userBytes_congr {mem : ℕ → Page} {va k : ℕ}
    (htab : ∀ x ∈ tablePages mem 2 pt, mem' x = mem x)
    (hbyte : ∀ j < k, physByte mem' (translate mem pt (va + j)) =
      physByte mem (translate mem pt (va + j))) :
    UserPage mem' pt = UserPage mem pt ∧ pteOf mem' pt = pteOf mem pt ∧
      userBytes mem' pt va k = userBytes mem pt va k := by
  have hpte : pteOf mem' pt = pteOf mem pt := funext fun v => entryOf_congr _ htab
  refine ⟨by funext v; unfold UserPage; rw [hpte], hpte, List.map_congr_left fun j hj => ?_⟩
  rw [← hbyte j (List.mem_range.mp hj)]
  unfold translate
  rw [hpte]

/-- `copyout` and `copyin` are exact and confined.  For every address and every length: if the user
pages lie on physical pages of their own, none of them a page of the table, every run of `copyout`
returns 0 if and only if all pages of the range can be written, has stored the bytes up to the end
of the range or to the first page that cannot be written, and has changed no other byte; if no user
page is the physical page 0, `copyin` returns 0 if and only if all pages of the range are user pages,
changes nothing, and has read just the bytes up to the end of the range or to the first page that is
none: its result is the same in every memory that agrees with the given one on the table and on
these bytes. -/
theorem copies_exact {s : KMem} (va len : ℕ) (src : ℕ → UInt8) :
    (Separate s.mem pt → (copyout pt va src len).Always K s fun r s' => ∃ n k, r = .ok n ∧
      (n = 0 ↔ ∀ j < len, WritablePage s.mem pt ((va + j) / PGSIZE)) ∧
      Reached (WritablePage s.mem pt) va len k n ∧ CopiedTo s.mem pt va src k s'.mem ∧
      s'.freelist = s.freelist) ∧
    (NoZeroPage s.mem pt → (copyin pt va len).Always K s fun r s' => s' = s ∧ ∃ n k,
      r = .ok (n, userBytes s.mem pt va k) ∧
      (n = 0 ↔ ∀ j < len, UserPage s.mem pt ((va + j) / PGSIZE)) ∧
      Reached (UserPage s.mem pt) va len k n ∧
      ∀ s₂ : KMem, (∀ x ∈ tablePages s.mem 2 pt, s₂.mem x = s.mem x) →
        (∀ j < k, physByte s₂.mem (translate s.mem pt (va + j)) =
          physByte s.mem (translate s.mem pt (va + j))) →
        (copyin pt va len).Always K s₂ fun r₂ s₂' => r₂ = r ∧ s₂' = s₂) := by
  constructor
  · intro hsep
    refine ⟨HProg.Runs.total K _ s, fun r s' hrun => ?_⟩
    obtain ⟨n, k, hr, hreach, hcopy, hfree⟩ := copyoutFrom_spec hsep le_rfl hrun
    exact ⟨n, k, hr, hreach.eq_zero_iff, hreach, hcopy, hfree⟩
  · intro hz
    refine ⟨HProg.Runs.total K _ s, fun r s' hrun => ?_⟩
    obtain ⟨hs, n, k, hr, hreach⟩ := (copyin_always hz va len).2 r s' hrun
    refine ⟨hs, n, k, hr, hreach.eq_zero_iff, hreach, fun s₂ htab hbyte => ?_⟩
    obtain ⟨huser, hpte, hbytes⟩ := userBytes_congr htab hbyte
    have hz2 : NoZeroPage s₂.mem pt := fun v hv => by
      rw [hpte]
      rw [huser] at hv
      exact hz v hv
    refine ⟨HProg.Runs.total K _ s₂, fun r₂ s₂' hrun2 => ?_⟩
    obtain ⟨hs2, n2, k2, hr2, hreach2⟩ := (copyin_always hz2 va len).2 r₂ s₂' hrun2
    rw [huser] at hreach2
    obtain ⟨rfl, rfl⟩ := hreach.unique hreach2
    exact ⟨by rw [hr2, hr, hbytes], hs2⟩

/-- `copyinstr` copies a string.  For every page table none of whose user pages is physical page 0,
every address and every `max`, every run of `copyinstr` ends; it returns 0 if and only if there is a
string of less than `max` bytes, and a zero, on user pages, and then has stored this string with its
zero; in any case it has stored at most `max` bytes, and the memory is as before. -/
theorem copyinstr_copies {s : KMem} (hz : NoZeroPage s.mem pt) (va max : ℕ) :
    (copyinstr pt va max).Always K s fun r s' => s' = s ∧ ∃ n out, r = .ok (n, out) ∧
      (n = 0 ↔ ∃ k < max, IsStr s.mem pt (UserPage s.mem pt) va k) ∧
      (∀ k < max, IsStr s.mem pt (UserPage s.mem pt) va k → out = userBytes s.mem pt va (k + 1)) ∧
      out.length ≤ max := by
  refine ⟨HProg.Runs.total K _ s, fun r s' hrun => ?_⟩
  obtain ⟨hs, n, out, hr, hres⟩ := copyinstrFrom_spec le_rfl hrun
  rw [hz.readable_eq] at hres
  refine ⟨hs, n, out, hr, hres.eq_zero_iff, fun k hk hstr => hres.out_eq hk hstr,
    hres.length_le⟩

/-! ## A table with one page -/

def tableMem (e : ℕ) (pg : Page) : KMem where
  mem a :=
    if a = 0x1000 then fun i => if i.val = 0 then pa2pte 0x2000 ||| PTE_V else 0
    else if a = 0x2000 then fun i => if i.val = 0 then pa2pte 0x3000 ||| PTE_V else 0
    else if a = 0x3000 then fun i => if i.val = 0 then e else 0
    else pg
  freelist := 0

lemma entryOf_below {mem : ℕ → Page} {va n a b : ℕ}
    (h : mem a (px (n + 1) va) = pa2pte b ||| PTE_V) (hb : pte2pa (pa2pte b ||| PTE_V) = b) :
    entryOf mem va (n + 1) a = entryOf mem va n b := by
  rw [entryOf, h, if_pos (isValid_table b), hb]

lemma entryOf_missing {mem : ℕ → Page} {va n : ℕ} (h : mem a (px (n + 1) va) = 0) :
    entryOf mem va (n + 1) a = 0 := by
  rw [entryOf, h]
  exact if_neg not_isValid_zero

lemma pteOf_tableMem_eq (e : ℕ) (pg : Page) (v : ℕ) :
    pteOf (tableMem e pg).mem 0x1000 v =
      if px 2 (v * PGSIZE) = 0 ∧ px 1 (v * PGSIZE) = 0 ∧ px 0 (v * PGSIZE) = 0 then e else 0 := by
  unfold pteOf
  by_cases h2 : px 2 (v * PGSIZE) = 0
  swap
  · rw [if_neg fun h => h2 h.1]
    exact entryOf_missing (by simp [tableMem, h2])
  rw [@entryOf_below _ _ 1 _ 0x2000 (by simp [tableMem, h2]) (by decide)]
  by_cases h1 : px 1 (v * PGSIZE) = 0
  swap
  · rw [if_neg fun h => h1 h.2.1]
    exact entryOf_missing (by simp [tableMem, h1])
  rw [@entryOf_below _ _ 0 _ 0x3000 (by simp [tableMem, h1]) (by decide)]
  simp [entryOf, tableMem, h2, h1]

lemma pteOf_tableMem (e : ℕ) (pg : Page) : pteOf (tableMem e pg).mem 0x1000 0 = e := by
  rw [pteOf_tableMem_eq, if_pos (by decide)]

lemma eq_zero_of_userPage {v : ℕ} (h : UserPage (tableMem e pg).mem 0x1000 v) : v = 0 := by
  obtain ⟨hv, hvalid, -⟩ := h
  rw [pteOf_tableMem_eq] at hvalid
  split at hvalid
  swap
  · exact absurd hvalid not_isValid_zero
  rename_i hpx
  have hzero : ∀ level ≤ 2, px level (0 * PGSIZE) = 0 := by decide
  refine page_eq_of_px (hv.trans (by decide)) (by decide) fun level hl => ?_
  rw [hzero level hl]
  interval_cases level
  exacts [hpx.2.2, hpx.2.1, hpx.1]

lemma mem_tablePages_succ {mem : ℕ → Page} {n : ℕ} : x ∈ tablePages mem (n + 1) a ↔
    x = a ∨ ∃ i, IsValid (mem a i) ∧ x ∈ tablePages mem n (pte2pa (mem a i)) := by
  simp only [tablePages, List.mem_cons, List.mem_flatMap, List.mem_finRange, true_and]
  refine or_congr_right (exists_congr fun i => ?_)
  split <;> simp_all

lemma tablePages_tableMem (hx : x ∈ tablePages (tableMem e pg).mem 2 0x1000) : x ≤ 0x3000 := by
  have hpa : pte2pa (pa2pte 0x2000 ||| PTE_V) = 0x2000 ∧
      pte2pa (pa2pte 0x3000 ||| PTE_V) = 0x3000 := by
    decide
  obtain rfl | ⟨i, hi, hx⟩ := mem_tablePages_succ.mp hx
  · decide
  have hi0 : i = 0 := by
    by_contra hne
    simp [tableMem, hne, not_isValid_zero] at hi
  subst hi0
  rw [show pte2pa ((tableMem e pg).mem 0x1000 0) = 0x2000 from hpa.1] at hx
  obtain rfl | ⟨j, hj, hx⟩ := mem_tablePages_succ.mp hx
  · decide
  have hj0 : j = 0 := by
    by_contra hne
    simp [tableMem, hne, not_isValid_zero] at hj
  subst hj0
  rw [show pte2pa ((tableMem e pg).mem 0x2000 0) = 0x3000 from hpa.2] at hx
  rw [tablePages, List.mem_singleton] at hx
  exact hx.le

def onePageTable (pg : Page) : KMem :=
  tableMem (pa2pte 0x5000 ||| (PTE_V ||| PTE_R ||| PTE_W ||| PTE_U)) pg

lemma onePageTable_pte (pg : Page) : pte2pa (pteOf (onePageTable pg).mem 0x1000 0) = 0x5000 := by
  rw [onePageTable, pteOf_tableMem]
  decide

lemma onePageTable_separate (pg : Page) :
    Separate (onePageTable pg).mem 0x1000 ∧ NoZeroPage (onePageTable pg).mem 0x1000 := by
  refine ⟨⟨fun v hv hmem => ?_, fun v w hv hw _ => ?_⟩, fun v hv => ?_⟩
  · obtain rfl := eq_zero_of_userPage hv.1
    rw [onePageTable_pte] at hmem
    exact absurd (tablePages_tableMem hmem) (by decide)
  · rw [eq_zero_of_userPage hv.1, eq_zero_of_userPage hw.1]
  · obtain rfl := eq_zero_of_userPage hv
    rw [onePageTable_pte]
    decide

/-- Two bytes at the end of the only page: the second one does not fit. -/
theorem copies_exact_one_page :
    (copyout 0x1000 4095 (fun _ => 7) 2).Always FivePages.image (onePageTable fun _ => 0)
      fun r s' => ∃ n k, r = .ok n ∧
        (n = 0 ↔ ∀ j < 2, WritablePage (onePageTable fun _ => 0).mem 0x1000 ((4095 + j) / PGSIZE)) ∧
        Reached (WritablePage (onePageTable fun _ => 0).mem 0x1000) 4095 2 k n ∧
        CopiedTo (onePageTable fun _ => 0).mem 0x1000 4095 (fun _ => 7) k s'.mem ∧
        s'.freelist = 0 :=
  (copies_exact 4095 2 fun _ => 7).1 (onePageTable_separate _).1

/-- A page that ends with a string of one byte. -/
def stringTable : KMem := onePageTable fun _ => 101 * 2 ^ 48

/-- The string in the only page is copied with its zero. -/
theorem copyinstr_copies_one_page :
    ((copyinstr 0x1000 4094 10).Always FivePages.image stringTable fun r s' => s' = stringTable ∧
      ∃ n out, r = .ok (n, out) ∧
        (n = 0 ↔ ∃ k < 10, IsStr stringTable.mem 0x1000 (UserPage stringTable.mem 0x1000) 4094 k) ∧
        (∀ k < 10, IsStr stringTable.mem 0x1000 (UserPage stringTable.mem 0x1000) 4094 k →
          out = userBytes stringTable.mem 0x1000 4094 (k + 1)) ∧ out.length ≤ 10) ∧
    ∃ s', (copyinstr 0x1000 4094 10).Runs FivePages.image stringTable (.ok (0, [101, 0])) s' :=
  ⟨copyinstr_copies (onePageTable_separate _).2 4094 10,
    HProg.exists_runs_of_run (by decide +kernel)⟩

/-- A page 0 on the physical page 0. -/
def zeroPageTable : KMem := tableMem (PTE_V ||| PTE_U) fun _ => 0

lemma zeroPageTable_userPage : UserPage zeroPageTable.mem 0x1000 0 := by
  refine ⟨by decide, ?_⟩
  rw [zeroPageTable, pteOf_tableMem]
  decide

lemma zeroPageTable_not_readable : ¬Readable zeroPageTable.mem 0x1000 (0 / PGSIZE) := by
  intro h
  refine h.2 ?_
  rw [Nat.zero_div, zeroPageTable, pteOf_tableMem]
  decide

/-- `copyin` fails on a page that is mapped to the physical page 0. -/
theorem copyin_zero_page : UserPage zeroPageTable.mem 0x1000 (0 / PGSIZE) ∧
    ∀ r s', (copyin 0x1000 0 1).Runs FivePages.image zeroPageTable r s' → r = .ok (-1, []) := by
  refine ⟨zeroPageTable_userPage, fun r s' hrun => ?_⟩
  rw [copyin, runs_copyinFrom_succ Nat.one_pos, if_neg zeroPageTable_not_readable] at hrun
  exact hrun.1

/-- So does `copyinstr`, although there is a string. -/
theorem copyinstr_zero_page :
    IsStr zeroPageTable.mem 0x1000 (UserPage zeroPageTable.mem 0x1000) 0 0 ∧
    ∀ r s', (copyinstr 0x1000 0 1).Runs FivePages.image zeroPageTable r s' → r = .ok (-1, []) := by
  refine ⟨⟨fun j hj => ?_, fun j hj => absurd hj (Nat.not_lt_zero _), ?_⟩, fun r s' hrun => ?_⟩
  · obtain rfl : j = 0 := by omega
    exact zeroPageTable_userPage
  · have htr : translate zeroPageTable.mem 0x1000 (0 + 0) = 0 := by
      have h0 : (0 + 0) / PGSIZE = 0 := by decide
      rw [translate, h0, zeroPageTable, pteOf_tableMem]
      decide
    rw [userByte, htr]
    decide
  · rw [copyinstr, runs_copyinstrFrom_succ Nat.one_pos, if_neg zeroPageTable_not_readable] at hrun
    exact hrun.1

end Xv6
