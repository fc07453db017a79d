import Xv6Kernel.Content.Run

/-!
# The rounds of `writei`

A round of the loop of `writei` that copies its chunk is a run over the chunk, and the loop is the
run over all chunks before the one at which it stops (`writeLoop_spec`).
-/

namespace Xv6

open Function

variable {off : ℕ} {f : ℕ → UInt8}

namespace Content

open Mkfs (IPB BPB Dinode)

/-! ## Copies from memory -/

section Copy

variable {mem : Memory}

def Memory.byte (mem : Memory) (user : Bool) (a : ℕ) : Option UInt8 :=
  if user then (mem.page (a / PGSIZE)).map (· (a % PGSIZE)) else some (mem.kernel a)

def Memory.val (mem : Memory) (user : Bool) (a : ℕ) : UInt8 := (mem.byte user a).getD 0

def Memory.Reaches (mem : Memory) (user : Bool) (a k : ℕ) : Prop :=
  ∀ j ≤ k, (mem.byte user (a + j)).isSome

lemma Memory.byte_page {a : ℕ} {p : ℕ → UInt8} (h : mem.page (a / PGSIZE) = some p) {j : ℕ}
    (hj : a % PGSIZE + j < PGSIZE) : mem.byte true (a + j) = some (p (a % PGSIZE + j)) := by
  have hj' : a % 4096 + j < 4096 := hj
  have hdiv : (a + j) / PGSIZE = a / PGSIZE := by
    change (a + j) / 4096 = a / 4096
    omega
  have hmod : (a + j) % PGSIZE = a % PGSIZE + j := by
    change (a + j) % 4096 = a % 4096 + j
    omega
  rw [Memory.byte, if_pos rfl, hdiv, hmod, h]
  rfl

lemma copyin_spec (fuel : ℕ) : ∀ (dst : Block) (o srcva len : ℕ), len ≤ fuel → o + len ≤ BSIZE →
    ((copyin mem fuel dst o srcva len).2 = true ↔ ∀ k < len, (mem.byte true (srcva + k)).isSome) ∧
    (∀ k < len, mem.Reaches true srcva k →
      (copyin mem fuel dst o srcva len).1.get (o + k) = mem.val true (srcva + k)) ∧
    ∀ i, (∀ k < len, i = o + k → ¬mem.Reaches true srcva k) →
      (copyin mem fuel dst o srcva len).1.get i = dst.get i := by
  induction fuel with
  | zero =>
    intro dst o srcva len hlen _
    exact ⟨⟨fun _ k hk => absurd hk (by omega), fun _ => rfl⟩, fun k hk => absurd hk (by omega),
      fun _ _ => rfl⟩
  | succ fuel ih =>
    intro dst o srcva len hlen ho
    by_cases hzero : 0 < len
    swap
    · rw [copyin, if_neg hzero]
      exact ⟨⟨fun _ k hk => absurd hk (by omega), fun _ => rfl⟩, fun k hk => absurd hk (by omega),
        fun _ _ => rfl⟩
    rw [copyin, if_pos hzero]
    cases hpage : mem.page (srcva / PGSIZE) with
    | none =>
      have hnone : (mem.byte true srcva).isSome = false := by
        rw [Memory.byte, if_pos rfl, hpage]
        rfl
      refine ⟨⟨fun h => (nomatch h), fun h => ?_⟩, fun k _ h => ?_, fun _ _ => rfl⟩
      · have h := h 0 hzero
        rw [Nat.add_zero, hnone] at h
        cases h
      · have h := h 0 (Nat.zero_le k)
        rw [Nat.add_zero, hnone] at h
        cases h
    | some p =>
      obtain ⟨n, hn⟩ : ∃ n, n = min (PGSIZE - srcva % PGSIZE) len := ⟨_, rfl⟩
      have hn' : n = min (4096 - srcva % 4096) len := hn
      simp only [← hn]
      obtain ⟨hok, hnew, hold⟩ := ih (dst.copy o n fun i => p (srcva % PGSIZE + i)) (o + n)
        (srcva + n) (len - n) (by omega) (by omega)
      have hfirst : ∀ k < n, mem.byte true (srcva + k) = some (p (srcva % PGSIZE + k)) :=
        fun k hk => Memory.byte_page hpage (by change srcva % 4096 + k < 4096; omega)
      have hreach : ∀ k, n ≤ k → mem.Reaches true srcva k →
          mem.Reaches true (srcva + n) (k - n) := by
        intro k hk h j hj
        have h := h (n + j) (by omega)
        rwa [← Nat.add_assoc] at h
      have hreach' : ∀ k, mem.Reaches true (srcva + n) k → mem.Reaches true srcva (n + k) := by
        intro k h j hj
        by_cases hjn : j < n
        · rw [hfirst j hjn]
          rfl
        · have h := h (j - n) (by omega)
          rwa [Nat.add_assoc, Nat.add_sub_cancel' (by omega)] at h
      have hget := Bytes.get_copy dst (fun i => p (srcva % PGSIZE + i))
        (show o + n ≤ BSIZE by omega)
      refine ⟨hok.trans ⟨fun h k hk => ?_, fun h k hk => ?_⟩, fun k hk hr => ?_, fun i hi => ?_⟩
      · by_cases hkn : k < n
        · rw [hfirst k hkn]
          rfl
        · have h := h (k - n) (by omega)
          rwa [Nat.add_assoc, Nat.add_sub_cancel' (by omega)] at h
      · rw [Nat.add_assoc]
        exact h (n + k) (by omega)
      · by_cases hkn : k < n
        · rw [hold (o + k) fun j _ hj => absurd hj (by omega), hget, if_pos (by omega),
            Nat.add_sub_cancel_left, Memory.val, hfirst k hkn]
          rfl
        · have hk' := hnew (k - n) (by omega) (hreach k (by omega) hr)
          rwa [Nat.add_assoc, Nat.add_sub_cancel' (by omega), Nat.add_assoc,
            Nat.add_sub_cancel' (by omega)] at hk'
      · rw [hold i fun k hk hik hr => hi (n + k) (by omega) (by omega) (hreach' k hr), hget,
          if_neg]
        rintro ⟨hlo, hhi⟩
        refine hi (i - o) (by omega) (by omega) fun j hj => ?_
        rw [hfirst j (by omega)]
        rfl

/-- `either_copyin` copies the bytes up to the first one that is not mapped, and it fails if there
is one. -/
lemma eitherCopyin_spec (mem : Memory) (dst : Block) (user : Bool) (src : ℕ) {o len : ℕ}
    (ho : o + len ≤ BSIZE) : ((eitherCopyin mem dst o user src len).2 = true ↔
      ∀ k < len, (mem.byte user (src + k)).isSome) ∧ (∀ k < len, mem.Reaches user src k →
      (eitherCopyin mem dst o user src len).1.get (o + k) = mem.val user (src + k)) ∧
    ∀ i, (∀ k < len, i = o + k → ¬mem.Reaches user src k) →
      (eitherCopyin mem dst o user src len).1.get i = dst.get i := by
  cases user with
  | true => exact copyin_spec len dst o src len le_rfl ho
  | false =>
    have hget := Bytes.get_copy dst (fun i => mem.kernel (src + i)) ho
    have heq : eitherCopyin mem dst o false src len =
        (dst.copy o len fun i => mem.kernel (src + i), true) := rfl
    rw [heq]
    refine ⟨⟨fun _ _ _ => rfl, fun _ => rfl⟩, fun k hk _ => ?_, fun i hi => ?_⟩
    · rw [hget, if_pos (by omega), Nat.add_sub_cancel_left]
      rfl
    · rw [hget, if_neg]
      rintro ⟨hlo, hhi⟩
      exact hi (i - o) (by omega) (by omega) fun _ _ => rfl

end Copy

/-! ## A block of the file is modified -/

section Write

variable {sb : Superblock} {fs fs' : Fs} {ip ip' : Inode} {bn : ℕ}

section

variable (hs : Slots sb fs ip) (hbn : bn < MAXFILE) (hne : lookup fs ip bn ≠ 0) {bp : Block}
    (hdata : fs'.data = update fs.data (lookup fs ip bn) bp)
include hs hbn hne hdata

lemma Slots.slot_put (s : ℕ) : slot fs' ip s = slot fs ip s := by
  refine slot_congr rfl (fun hind => ?_) s
  rw [hdata, update_of_ne]
  intro heq
  have hslot : slot fs ip NDIRECT = ip.addrs NDIRECT := if_pos le_rfl
  exact slotOf_ne bn (hs.once _ (slotOf_lt hbn) NDIRECT (by decide) hne
    (by rw [hslot]; exact heq.symm))

lemma Slots.isFree_put {b : ℕ} (hb : b < sb.size) : isFree sb fs' b = isFree sb fs b := by
  refine isFree_congr ?_
  have hlt := sb.bblock_lt hb
  have hle := hs.le _ (slotOf_lt hbn) hne
  rw [hdata, update_of_ne]
  change sb.bblock b ≠ slot fs ip (slotOf bn)
  omega

lemma Slots.put : Slots sb fs' ip :=
  hs.congr (fun s _ => hs.slot_put hbn hne hdata s) fun b hb hu => by
    rwa [hs.isFree_put hbn hne hdata hb]

lemma Slots.ext_put :
    Ext sb fs ip fs' ip :=
  ⟨(Fills.refl sb fs ip).congr (hs.slot_put hbn hne hdata) fun _ => hs.isFree_put hbn hne hdata, rfl⟩

lemma Slots.byteAt_put {i : ℕ}
    (hi : i < MAXFILE * BSIZE) (hne' : lookup fs ip (i / BSIZE) ≠ 0) :
    byteAt fs' ip i = if i / BSIZE = bn then bp.get (i % BSIZE) else byteAt fs ip i := by
  unfold byteAt
  rw [show lookup fs' ip (i / BSIZE) = lookup fs ip (i / BSIZE) from
    hs.slot_put hbn hne hdata _, hdata]
  by_cases heq : i / BSIZE = bn
  · rw [if_pos heq, heq, update_self]
  · rw [if_neg heq, update_of_ne]
    intro h
    exact heq (slotOf_inj (hs.once _ (slotOf_lt (div_lt_MAXFILE hi)) _ (slotOf_lt hbn) hne' h))

end

variable {mem : Memory} {user : Bool}

lemma chunk_div (off : ℕ) {k : ℕ} (hk : k < BSIZE - off % BSIZE) :
    (off + k) / BSIZE = off / BSIZE ∧ (off + k) % BSIZE = off % BSIZE + k := by
  have hk : k < 1024 - off % 1024 := hk
  have h1 : (off + k) / 1024 = off / 1024 := by omega
  have h2 : (off + k) % 1024 = off % 1024 + k := by omega
  exact ⟨h1, h2⟩

lemma chunk_le (left off : ℕ) : off % BSIZE + min left (BSIZE - off % BSIZE) ≤ BSIZE := by
  change off % 1024 + min left (1024 - off % 1024) ≤ 1024
  omega

lemma chunk_run (hs : Slots sb fs ip) {src m : ℕ} (hm : 0 < m) (hlt : off % BSIZE + m ≤ BSIZE)
    (hbound : off < MAXFILE * BSIZE) (hne : lookup fs ip (off / BSIZE) ≠ 0)
    (hf : ∀ i, off ≤ i → f i = mem.val user (src + (i - off)))
    (hok : (eitherCopyin mem (fs.data (lookup fs ip (off / BSIZE))) (off % BSIZE) user src m).2 =
      true) : Run sb f off (off + m) [lookup fs ip (off / BSIZE)] fs ip
      (logWrite (fs.put (lookup fs ip (off / BSIZE))
        (eitherCopyin mem (fs.data (lookup fs ip (off / BSIZE))) (off % BSIZE) user src m).1)
        (lookup fs ip (off / BSIZE))) ip := by
  have hbn := div_lt_MAXFILE hbound
  obtain ⟨hall, hnew, hold⟩ :=
    eitherCopyin_spec mem (fs.data (lookup fs ip (off / BSIZE))) user src hlt
  have hall := hall.mp hok
  generalize (eitherCopyin mem (fs.data (lookup fs ip (off / BSIZE))) (off % BSIZE) user src m).1 =
    bp at hnew hold
  have hdata : (logWrite (fs.put (lookup fs ip (off / BSIZE)) bp) (lookup fs ip (off / BSIZE))).data
      = update fs.data (lookup fs ip (off / BSIZE)) bp := rfl
  have hbyte := fun {i} => hs.byteAt_put hbn hne hdata (i := i)
  have hin : ∀ i, off ≤ i → i < off + m →
      i / BSIZE = off / BSIZE ∧ i % BSIZE = off % BSIZE + (i - off) := by
    intro i hlo hhi
    have h := chunk_div off (k := i - off) (by omega)
    rwa [Nat.add_sub_cancel' hlo] at h
  refine ⟨hs.put hbn hne hdata, hs.ext_put hbn hne hdata, Logged.put _ _ _, fun x hx => ?_,
    fun s _ hzero hne' => absurd (by rwa [hs.slot_put hbn hne hdata]) hne',
    fun i hlo hhi => ?_, fun i hi hout hne' => ?_⟩
  · rw [List.mem_singleton] at hx
    exact .inr (.inr (.inr ⟨off, le_rfl, by omega, by rwa [hx], hx⟩))
  · obtain ⟨hdiv, hmod⟩ := hin i hlo hhi
    have hne' : lookup fs ip (i / BSIZE) ≠ 0 := by rwa [hdiv]
    constructor
    · rw [show lookup _ ip (i / BSIZE) = lookup fs ip (i / BSIZE) from
        hs.slot_put hbn hne hdata _]
      exact hne'
    · have hi : i < MAXFILE * BSIZE := by
        have h : off / 1024 < 268 := hbn
        have hdiv : i / 1024 = off / 1024 := hdiv
        change i < 268 * 1024
        omega
      rw [hbyte hi hne', if_pos hdiv, hmod, hf i hlo]
      exact hnew (i - off) (by omega) fun j hj => hall j (by omega)
  · rw [hbyte hi hne']
    by_cases hdiv : i / BSIZE = off / BSIZE
    · rw [if_pos hdiv, hold (i % BSIZE), byteAt, hdiv]
      intro k hk hik
      have hdiv : i / 1024 = off / 1024 := hdiv
      have hik : i % 1024 = off % 1024 + k := hik
      exact absurd ⟨by omega, by omega⟩ hout
    · rw [if_neg hdiv]

/-- A round of the loop of `writei`. -/
lemma writeRound_spec (mem : Memory) (user : Bool) (hr : Reserved sb fs) (hs : Slots sb fs ip)
    (src : ℕ) {left : ℕ} (hleft : 0 < left) (hbound : off < MAXFILE * BSIZE)
    (hf : ∀ i, off ≤ i → f i = mem.val user (src + (i - off))) :
    ∃ addr ip' fs' l, Bmap sb fs ip (off / BSIZE) addr ip' fs' l ∧
      ((addr = 0 ∧ writeRound sb mem user fs ip src off left = some (.full ip' fs')) ∨
      (addr ≠ 0 ∧ ∃ m r, m = min left (BSIZE - off % BSIZE) ∧
        r = eitherCopyin mem (fs'.data addr) (off % BSIZE) user src m ∧ ((r.2 = false ∧
          writeRound sb mem user fs ip src off left = some (.fault ip' (fs'.put addr r.1))) ∨
        (r.2 = true ∧ writeRound sb mem user fs ip src off left =
            some (.wrote m ip' (logWrite (fs'.put addr r.1) addr)) ∧
          Run sb f off (off + m) (l ++ [addr]) fs ip (logWrite (fs'.put addr r.1) addr) ip')))) := by
  obtain ⟨addr, ip', fs', l, hmap, hspec⟩ := bmap_spec hr hs (div_lt_MAXFILE hbound)
  refine ⟨addr, ip', fs', l, hspec, ?_⟩
  unfold writeRound
  rw [hmap]
  by_cases haddr : addr = 0
  · exact .inl ⟨haddr, if_pos haddr⟩
  refine .inr ⟨haddr, _, _, rfl, rfl, ?_⟩
  have hmle := chunk_le left off
  have hmpos : 0 < min left (BSIZE - off % BSIZE) := by
    change 0 < min left (1024 - off % 1024)
    omega
  generalize min left (BSIZE - off % BSIZE) = m at hmle hmpos ⊢
  simp only [if_neg haddr]
  rcases hok : (eitherCopyin mem (fs'.data addr) (off % BSIZE) user src m).2 with _ | _
  · exact .inl ⟨rfl, rfl⟩
  refine .inr ⟨rfl, rfl, ?_⟩
  have hrun := hspec.run f off
  have hlook := hspec.lookup
  have hchunk := chunk_run hrun.slots hmpos hmle hbound (by rwa [hlook]) hf (by rwa [hlook])
  rw [hlook] at hchunk
  refine hrun.trans hchunk le_rfl (by omega) fun i hlo hhi => ?_
  have h : off / 1024 < 268 := div_lt_MAXFILE hbound
  have hmle : off % 1024 + m ≤ 1024 := hmle
  change i < 268 * 1024
  omega

/-! ## The loop -/

/-- How the loop ends, from the blocks `fs₁` before its last copy, with `left` bytes to write from
the address `src` to the offset `off`. -/
def Ending (sb : Superblock) (mem : Memory) (user : Bool) (fs₁ : Fs) (src off left : ℕ)
    (w : Written) : Prop :=
  match w.stop with
  | .done => left = 0 ∧ w.fs = fs₁
  | .full => 0 < left ∧ w.fs = fs₁ ∧ Full sb fs₁
  | .fault =>
    0 < left ∧ lookup fs₁ w.ip (off / BSIZE) ≠ 0 ∧
      ∃ r, r = eitherCopyin mem (fs₁.data (lookup fs₁ w.ip (off / BSIZE))) (off % BSIZE) user src
          (min left (BSIZE - off % BSIZE)) ∧
        r.2 = false ∧ w.fs = fs₁.put (lookup fs₁ w.ip (off / BSIZE)) r.1

/-- The loop of `writei` is a run over the bytes that it writes; a round that is not the first one
starts at the start of a block. -/
lemma writeLoop_spec (mem : Memory) (user : Bool) {n : ℕ} (fuel : ℕ) :
    ∀ (fs : Fs) (ip : Inode) (src off tot : ℕ), Reserved sb fs → Slots sb fs ip → tot ≤ n →
      n - tot ≤ fuel → off + (n - tot) ≤ MAXFILE * BSIZE →
      (∀ i, off ≤ i → f i = mem.val user (src + (i - off))) →
      ∃ w fs1 l d, writeLoop sb mem user n fuel fs ip src off tot = some w ∧ w.tot = tot + d ∧
        w.tot ≤ n ∧ Run sb f off (off + d) l fs ip fs1 w.ip ∧
        Ending sb mem user fs1 (src + d) (off + d) (n - w.tot) w ∧
        (d = 0 ∨ (off + d) % BSIZE = 0 ∨ w.tot = n) ∧ ∀ k < d, (mem.byte user (src + k)).isSome := by
  induction fuel with
  | zero =>
    intro fs ip src off tot _ hs htot hfuel _ _
    exact ⟨_, fs, [], 0, rfl, rfl, htot, .refl f off hs, ⟨Nat.le_zero.mp hfuel, rfl⟩, .inl rfl,
      fun k hk => absurd hk (by omega)⟩
  | succ fuel ih =>
    intro fs ip src off tot hr hs htot hfuel hbound hf
    rw [writeLoop]
    by_cases hlt : tot < n
    swap
    · rw [if_neg hlt]
      exact ⟨_, fs, [], 0, rfl, rfl, htot, .refl f off hs,
        ⟨Nat.sub_eq_zero_of_le (Nat.le_of_not_lt hlt), rfl⟩,
        .inl rfl, fun k hk => absurd hk (by omega)⟩
    rw [if_pos hlt]
    obtain ⟨addr, ip', fs', l, hmap, hround⟩ :=
      writeRound_spec mem user hr hs src (show 0 < n - tot by omega) (by omega) hf
    have hrun := hmap.run f off
    rcases hround with ⟨hzero, hround⟩ | ⟨hne, m, r, hm, hcopy, hround⟩
    · rw [hround]
      exact ⟨_, fs', l, 0, rfl, rfl, htot, hrun, ⟨Nat.sub_pos_of_lt hlt, rfl, hmap.full hzero⟩,
        .inl rfl, fun k hk => absurd hk (by omega)⟩
    rcases hround with ⟨hbad, hround⟩ | ⟨hok, hround, hwrote⟩
    · rw [hround]
      refine ⟨_, fs', l, 0, rfl, rfl, htot, hrun, ⟨Nat.sub_pos_of_lt hlt, ?_, r, ?_, hbad, ?_⟩,
        .inl rfl, fun k hk => absurd hk (by omega)⟩
      · rw [Nat.add_zero, hmap.lookup]
        exact hne
      · rw [Nat.add_zero, Nat.add_zero, hmap.lookup, hcopy, hm]
      · rw [Nat.add_zero, hmap.lookup]
    · rw [hround]
      have hm' : m = min (n - tot) (1024 - off % 1024) := hm
      obtain ⟨w, fs1, l', d, hw, hd, hn, hrun', hend, halign, hsome⟩ :=
        ih (logWrite (fs'.put addr r.1) addr) ip' (src + m) (off + m) (tot + m)
          (hwrote.reserved hr) hwrote.slots (by omega) (by omega) (by omega) (fun i hi => by
            rw [hf i (by omega)]
            congr 1
            omega)
      rw [Nat.add_assoc] at hd hrun' hend
      rw [Nat.add_assoc off] at hend halign
      refine ⟨w, fs1, _, m + d, hw, hd, hn, hwrote.trans hrun' (by omega) (by omega)
        (fun i _ hi => by omega), hend, .inr ?_, fun k hk => ?_⟩
      · by_cases hdone : w.tot = n
        · exact .inr hdone
        · have h : d = 0 ∨ (off + (m + d)) % 1024 = 0 ∨ w.tot = n := halign
          have hgoal : (off + (m + d)) % 1024 = 0 := by omega
          exact .inl hgoal
      · by_cases hkm : k < m
        · obtain ⟨hall, -⟩ := eitherCopyin_spec mem (fs'.data addr) user src
            (chunk_le (n - tot) off)
          rw [← hm, ← hcopy] at hall
          exact hall.mp hok k hkm
        · have hk' := hsome (k - m) (by omega)
          rwa [Nat.add_assoc, Nat.add_sub_cancel' (by omega)] at hk'

end Write

end Content

end Xv6
