import Xv6Kernel.Read.Exact

/-!
# A negative count reads the rest of the file

`fileread` hands its signed count to three readers.  `piperead` and `consoleread` treat it as signed
and return nothing for a negative one.  `readi` takes it as an unsigned number of 32 bits: with an
offset below `-n` the sum of the two does not wrap around, the end of the range lies behind the end
of the file, and the rest of the file is read.
-/

namespace Xv6.Read

open Content (Memory Stored Inode Superblock Fs)

variable {mem : Memory} {user : Bool} {sb : Superblock}
variable {src : Block} {f : File} {fs fs' : Fs} {ip ip' : Inode} {n : Int32}
  {bytes taken : List UInt8} {mem' : Memory} {addr dst len : ℕ} {r : ℤ}

/-! ## Successful copies -/

lemma writes_of_copyout (fuel : ℕ) : ∀ (mem : Memory) (dstva o len : ℕ),
    len ≤ fuel → (Content.copyout mem fuel dstva src o len).2 = true →
    ∀ k < len, mem.Writes true (dstva + k) := by
  induction fuel with
  | zero => exact fun _ _ _ len hlen _ k hk => absurd hk (by omega)
  | succ fuel ih =>
    intro mem dstva o len hlen hok k hk
    rw [Content.copyout, if_pos (by omega)] at hok
    split at hok
    swap
    · cases hok
    rename_i p hp hwr
    have hmod : dstva % 4096 < 4096 := Nat.mod_lt _ (by decide)
    obtain ⟨n, hn⟩ : ∃ n, n = min (PGSIZE - dstva % PGSIZE) len := ⟨_, rfl⟩
    have hn' : n = min (4096 - dstva % 4096) len := hn
    simp only [← hn] at hok
    have hpage := Stored.page hp (show dstva % PGSIZE + n ≤ PGSIZE by
      change dstva % 4096 + n ≤ 4096
      omega) fun i => src.get (o + i)
    by_cases hkn : k < n
    · -- the byte is on the first page
      have hsame : (dstva + k) / PGSIZE = dstva / PGSIZE := by
        change (dstva + k) / 4096 = dstva / 4096
        omega
      intro _
      rw [hsame, hp]
      exact ⟨rfl, hwr⟩
    · have hrest := ih _ _ _ _ (by omega) hok (k - n) (by omega)
      rw [hpage.writes] at hrest
      rwa [Nat.add_assoc, Nat.add_sub_cancel' (by omega)] at hrest

lemma stored_of_eitherCopyout {o : ℕ}
    (hok : (Content.eitherCopyout mem user dst src o len).2 = true) :
    Stored mem user dst len (fun k => src.get (o + k))
      (Content.eitherCopyout mem user dst src o len).1 := by
  refine (Content.eitherCopyout_spec src o fun k hk hu => ?_).2
  subst hu
  exact writes_of_copyout len mem dst o len le_rfl hok k hk rfl

lemma stored_congr {mem : Memory} {f g : ℕ → UInt8} (h : Stored mem user dst len f mem')
    (hfg : ∀ k < len, f k = g k) : Stored mem user dst len g mem' :=
  ⟨fun k hk => by rw [h.new k hk, hfg k hk], h.old, h.writes⟩

/-- The loop of `readi` returns at most what it was asked for, and stores as many bytes as it
returns; nothing is required of the inode. -/
lemma readLoop_stores {n : ℕ} (fuel : ℕ) : ∀ (fs : Fs) (ip : Inode) (mem : Memory)
    (dst off tot : ℕ) {r : ℤ} {mem' : Memory} {ip' : Inode} {fs' : Fs}, tot ≤ n →
    Content.readLoop sb user n fuel fs ip mem dst off tot = some (r, mem', ip', fs') → 0 ≤ r →
    ∃ m g, r = (tot + m : ℕ) ∧ tot + m ≤ n ∧ Stored mem user dst m g mem' := by
  induction fuel with
  | zero =>
    intro fs ip mem dst off tot r mem' ip' fs' htot hrun _
    cases hrun
    exact ⟨0, fun _ => 0, rfl, htot, .nil _ _ _ _⟩
  | succ fuel ih =>
    intro fs ip mem dst off tot r mem' ip' fs' htot hrun hr
    have hstop : ∃ m g, (tot : ℤ) = (tot + m : ℕ) ∧ tot + m ≤ n ∧ Stored mem user dst m g mem :=
      ⟨0, fun _ => 0, rfl, htot, .nil _ _ _ _⟩
    unfold Content.readLoop at hrun
    split at hrun
    swap
    · cases hrun
      exact hstop
    split at hrun
    · cases hrun
    rename_i addr ip1 fs1 hb
    split at hrun
    · cases hrun
      exact hstop
    dsimp only at hrun
    obtain ⟨m, hm⟩ : ∃ m, m = min (n - tot) (BSIZE - off % BSIZE) := ⟨_, rfl⟩
    have hm' : m ≤ n - tot := by omega
    rw [← hm] at hrun
    split at hrun
    · rename_i hok
      obtain ⟨m', g, rfl, hle, hst⟩ := ih _ _ _ _ _ _ (by omega) hrun hr
      have hfirst := stored_of_eitherCopyout hok
      refine ⟨m + m', fun k => if k < m then (fs1.data addr).get (off % BSIZE + k) else g (k - m),
        by push_cast; omega, by omega, ?_⟩
      refine (stored_congr hfirst fun k hk => (if_pos hk).symm).trans (stored_congr hst fun k _ => ?_)
      rw [if_neg (by omega), Nat.add_sub_cancel_left]
    · cases hrun
      exact absurd hr (by norm_num)

/-! ## The number of bytes -/

/-- The copying loop of `piperead` returns at most what it was asked for and stores as many bytes
as it returns. -/
lemma pipereadCopy_count {mem mem' : Memory} {addr k i : ℕ} {pi : Pipe} {taken bytes : List UInt8}
    (hi : i = bytes.length) (hst : Holds mem true addr bytes mem') :
    ∃ bytes', (pipereadCopy addr k i pi mem' taken).ret = bytes'.length ∧ bytes'.length ≤ i + k ∧
      Holds mem true addr bytes' (pipereadCopy addr k i pi mem' taken).mem := by
  induction k generalizing i pi mem' taken bytes with
  | zero => exact ⟨bytes, by rw [← hi]; rfl, by omega, hst⟩
  | succ k ih =>
    unfold pipereadCopy
    split
    · exact ⟨bytes, by rw [← hi], by omega, hst⟩
    by_cases hw : mem.Writes true (addr + bytes.length)
    · obtain ⟨hok, hst'⟩ := hst.snoc hw (UInt8.ofNat pi.head)
      rw [← hi] at hok hst'
      simp only [hok, if_true]
      have hlen : i + 1 = (bytes ++ [UInt8.ofNat pi.head]).length := by simp [hi]
      obtain ⟨bytes', hret, hle, hst''⟩ :=
        @ih _ _ pi.remove (taken ++ [UInt8.ofNat pi.head]) _ hlen hst'
      exact ⟨bytes', hret, by omega, hst''⟩
    · have hw' : ¬mem'.Writes true (addr + i) := by
        rw [hst.writes, hi]
        exact hw
      simp only [copyoutByte_of_not_writes hw', Bool.false_eq_true, if_false]
      exact ⟨bytes, by rw [← hi], by omega, hst⟩

/-- The loop of `consoleread` returns at most what it was asked for and stores as many bytes as it
returns. -/
lemma consolereadFrom_count {mem : Memory} {target n : ℕ} {wakes : List (Option Cons)} {s : Cons}
    {a : ℕ} {res : Result Cons} (hn : bytes.length + n = target) (ha : a = dst + bytes.length)
    (hst : Holds mem user dst bytes mem')
    (hres : consolereadFrom user target n wakes s a mem' taken = some res) (hret : 0 ≤ res.ret) :
    ∃ bytes', res.ret = bytes'.length ∧ bytes'.length ≤ target ∧
      Holds mem user dst bytes' res.mem := by
  induction n generalizing wakes s a mem' taken bytes with
  | zero =>
    cases hres
    exact ⟨bytes, by simp [← hn], by omega, hst⟩
  | succ n ih =>
    unfold consolereadFrom at hres
    have hcount : (target : ℤ) - (n + 1) = bytes.length := by omega
    split at hres
    · cases hres
    · cases hres
      exact absurd hret (by norm_num)
    rename_i wakes s' _
    dsimp only at hres
    split at hres
    · split at hres <;> cases hres <;> exact ⟨bytes, hcount, by omega, hst⟩
    by_cases hw : mem.Writes user (dst + bytes.length)
    · obtain ⟨hok, hst'⟩ := hst.snoc hw (s'.buf (s'.r % INPUT_BUF_SIZE))
      rw [← ha] at hok hst'
      rw [if_pos hok] at hres
      split at hres
      · cases hres
        refine ⟨_, ?_, ?_, hst'⟩ <;> simp only [List.length_append, List.length_singleton] <;> omega
      · exact ih (by simp; omega) (by simp [ha]; omega) hst' hres
    · have hw' : ¬mem'.Writes user a := by
        rw [hst.writes, ha]
        exact hw
      simp only [copyoutByte_of_not_writes hw', Bool.false_eq_true, if_false] at hres
      cases hres
      exact ⟨bytes, hcount, by omega, hst⟩

lemma toNat_toUInt32 (n : Int32) :
    (n.toUInt32.toNat : ℤ) = if 0 ≤ n.toInt then n.toInt else n.toInt + 2 ^ 32 := by
  have h : n.toInt = n.toBitVec.toInt := rfl
  have h' : n.toUInt32.toNat = n.toBitVec.toNat := rfl
  have hlt := n.toBitVec.isLt
  rw [h, h', BitVec.toInt_eq_toNat_cond]
  split <;> split <;> omega

/-- The count is negative, but the sum of the offset and the count does not wrap around, and there
are bytes behind the offset. -/
def Overreads (ip : Inode) (off : UInt32) (n : Int32) : Prop :=
  n.toInt < 0 ∧ (off.toNat : ℤ) < -n.toInt ∧ off.toNat < ip.size

lemma readi_stores {off : UInt32} (hsize : ip.size < 2 ^ 32)
    (hrun : Content.readi sb fs ip mem user addr off n.toUInt32 = some (r, mem', ip', fs'))
    (hr : 0 ≤ r) : (Overreads ip off n ∨ r ≤ max n.toInt 0) ∧ off.toNat + r.toNat < 2 ^ 32 ∧
      ∃ g, Stored mem user addr r.toNat g mem' := by
  have hn := toNat_toUInt32 n
  have hoff : off.toNat < 2 ^ 32 := off.toNat_lt
  unfold Content.readi at hrun
  split at hrun
  · cases hrun
    exact ⟨.inr (le_max_right _ _), by simpa using hoff, fun _ => 0, .nil _ _ _ _⟩
  rename_i hin
  rw [not_or, not_lt, Content.add_lt_iff, not_le] at hin
  obtain ⟨hle, hwrap⟩ := hin
  rw [Content.toNat_add_of_not_lt (by omega)] at hrun
  obtain ⟨m, hm⟩ : ∃ m, m = if ip.size < off.toNat + n.toUInt32.toNat then ip.size - off.toNat
      else n.toUInt32.toNat := ⟨_, rfl⟩
  simp only [← hm] at hrun
  obtain ⟨k, g, rfl, hk, hst⟩ := readLoop_stores m fs ip mem addr off.toNat 0 (Nat.zero_le _) hrun hr
  rw [Nat.zero_add] at hk ⊢
  refine ⟨?_, ?_, g, by simpa using hst⟩
  · by_cases hneg : 0 ≤ n.toInt
    · right
      rw [if_pos hneg] at hn
      split at hm <;> omega
    by_cases hbytes : off.toNat < ip.size
    · left
      rw [if_neg hneg] at hn
      exact ⟨by omega, by omega, hbytes⟩
    · right
      split at hm <;> omega
  · split at hm <;> omega

/-- The block of the offset can not be had: it is missing, and there is no free one. -/
def NoBlock (sb : Superblock) (fs : Fs) (ip : Inode) (off : UInt32) : Prop :=
  ∃ ip' fs', Content.bmap sb fs ip (off.toNat / BSIZE) = some (0, ip', fs')

/-- An overread returns bytes unless it finds no block. -/
lemma readi_eq_zero_iff {off : UInt32} (hover : Overreads ip off n)
    (hrun : Content.readi sb fs ip mem user addr off n.toUInt32 = some (r, mem', ip', fs'))
    (hr : 0 ≤ r) : r = 0 ↔ NoBlock sb fs ip off := by
  obtain ⟨hneg, hoff, hbytes⟩ := hover
  have hn := toNat_toUInt32 n
  have hmin : -2 ^ 31 ≤ n.toInt := n.toBitVec.le_toInt
  rw [if_neg (by omega)] at hn
  have hnowrap : ¬off + n.toUInt32 < off := by
    rw [Content.add_lt_iff]
    omega
  rw [Content.readi, if_neg (not_or.mpr ⟨by omega, hnowrap⟩),
    Content.toNat_add_of_not_lt (by omega)] at hrun
  obtain ⟨m, hm⟩ : ∃ m, m = if ip.size < off.toNat + n.toUInt32.toNat then ip.size - off.toNat
      else n.toUInt32.toNat := ⟨_, rfl⟩
  simp only [← hm] at hrun
  obtain ⟨k, rfl⟩ : ∃ k, m = k + 1 := Nat.exists_eq_succ_of_ne_zero (by split at hm <;> omega)
  rw [Content.readLoop, if_pos (Nat.succ_pos k)] at hrun
  split at hrun
  · cases hrun
  rename_i a ip1 fs1 hb
  split at hrun <;> rename_i ha
  · cases hrun
    exact iff_of_true rfl ⟨_, _, by rw [hb, ha]⟩
  refine iff_of_false (fun hzero => ?_) ?_
  · -- the first round has copied at least one byte
    dsimp only at hrun
    have hmod : off.toNat % BSIZE < BSIZE := Nat.mod_lt _ (by decide)
    split at hrun
    · obtain ⟨j, g, hj, -, -⟩ := readLoop_stores k _ _ _ _ _ _ (by omega) hrun hr
      omega
    · cases hrun
      exact absurd hr (by norm_num)
  · rintro ⟨_, _, hz⟩
    rw [hb] at hz
    cases hz
    exact ha rfl

/-! ## `fileread` -/

/-- What `read` promises: at most as many bytes as asked for, stored from `addr` on and nowhere else,
and the offset of an inode advances by their number. -/
structure Honest (f : File) (addr : ℕ) (n : Int32) (mem : Memory) (r : ℤ) (off : UInt32)
    (mem' : Memory) : Prop where
  count : r ≤ max n.toInt 0
  stored : ∃ g, Stored mem true addr r.toNat g mem'
  off_eq : ∀ ip, f.kind = .inode ip → off.toNat = f.off.toNat + r.toNat

lemma honest_of_holds (hkind : ∀ ip, f.kind ≠ .inode ip) (hr : r = bytes.length)
    (hle : bytes.length ≤ n.toInt.toNat) (hst : Holds mem true addr bytes mem') :
    Honest f addr n mem r f.off mem' where
  count := by omega
  stored := ⟨_, by rw [hr, Int.toNat_natCast]; exact hst⟩
  off_eq ip hip := absurd hip (hkind ip)

lemma honest_inode (hsize : ip.size < 2 ^ 32) (hkind : f.kind = .inode ip)
    (hrun : Content.readi sb fs ip mem true addr f.off n.toUInt32 = some (r, mem', ip', fs'))
    (hr : 0 ≤ r) :
    Honest f addr n mem r (if 0 < r then f.off + UInt32.ofNat r.toNat else f.off) mem' ↔
      ∀ jp, f.kind = .inode jp → Overreads jp f.off n → NoBlock sb fs jp f.off := by
  obtain ⟨hcount, hfit, hst⟩ := readi_stores hsize hrun hr
  constructor
  · intro h jp hjp hover
    obtain rfl : ip = jp := by simpa [hkind] using hjp
    refine (readi_eq_zero_iff hover hrun hr).mp ?_
    have hle := h.count
    have hneg := hover.1
    omega
  · intro h
    refine ⟨?_, hst, fun jp hjp => ?_⟩
    · rcases hcount with hover | hle
      · rw [(readi_eq_zero_iff hover hrun hr).mpr (h ip hkind hover)]
        exact le_max_right _ _
      · exact hle
    · split
      · have hr32 : (UInt32.ofNat r.toNat).toNat = r.toNat := by
          rw [UInt32.toNat_ofNat', Nat.mod_eq_of_lt (by omega)]
        rw [Content.toNat_add_of_not_lt (by omega), hr32]
      · omega

/-- A `read` that returns a number of bytes keeps its promise if and only if it is not an overread of
an inode, or one that finds no block at the offset. -/
theorem fileread_honest_iff {fs : Fs} {f : File} {addr : ℕ} {n : Int32} {r : ℤ} {off : UInt32}
    {mem' : Memory} (hsize : ∀ ip, f.kind = .inode ip → ip.size < 2 ^ 32)
    (hrun : fileread sb fs f addr n mem = some (r, off, mem')) (hr : 0 ≤ r) :
    Honest f addr n mem r off mem' ↔
      ∀ ip, f.kind = .inode ip → Overreads ip f.off n → NoBlock sb fs ip f.off := by
  unfold fileread at hrun
  split at hrun
  · cases hrun
    exact absurd hr (by norm_num)
  split at hrun
  · rename_i wakes pi hkind
    have hno : ∀ ip, f.kind ≠ .inode ip := fun ip h => by simp [hkind] at h
    refine iff_of_true ?_ fun ip hip => absurd hip (hno ip)
    obtain ⟨res, hres, hout⟩ := Option.map_eq_some_iff.mp hrun
    cases hout
    unfold piperead at hres
    split at hres
    · cases hres
    · cases hres
      exact absurd hr (by norm_num)
    cases hres
    obtain ⟨bytes, hret, hle, hst⟩ := pipereadCopy_count (k := n.toInt.toNat) (rfl : 0 = [].length)
      (Holds.nil mem true addr)
    exact honest_of_holds hno hret (by omega) hst
  · rename_i major wakes s hkind
    have hno : ∀ ip, f.kind ≠ .inode ip := fun ip h => by simp [hkind] at h
    refine iff_of_true ?_ fun ip hip => absurd hip (hno ip)
    split at hrun
    · obtain ⟨res, hres, hout⟩ := Option.map_eq_some_iff.mp hrun
      cases hout
      obtain ⟨bytes, hret, hle, hst⟩ := consolereadFrom_count (Nat.zero_add _) rfl
        (Holds.nil mem true addr) hres hr
      exact honest_of_holds hno hret hle hst
    · cases hrun
      exact absurd hr (by norm_num)
  · rename_i ip hkind
    obtain ⟨⟨r', mem1, ip', fs'⟩, hres, hout⟩ := Option.map_eq_some_iff.mp hrun
    cases hout
    exact honest_inode (hsize ip hkind) hkind hres hr
  · cases hrun

/-- A small disk. -/
def tinyDisk : Superblock where
  size := 100
  nblocks := 90
  ninodes := 10
  inodestart := 1
  bmapstart := 3
  inodestart_pos := by decide
  inodes_fit := by decide
  bitmap_fits := by decide
  size_lt := by decide

def oneByteFile : File where
  readable := true
  kind := .inode ⟨2, 2, 0, 0, 1, 1, fun k => if k = 0 then 50 else 0⟩
  off := 0

/-- Its block holds the byte 7. -/
def oneByteFs : Fs := ⟨fun _ _ => 7, [], []⟩

/-- Reading five bytes returns the only one. -/
theorem fileread_honest_iff_five : ∃ r off mem',
    fileread tinyDisk oneByteFs oneByteFile 0 5 onePage = some (r, off, mem') ∧ r = 1 ∧
      Honest oneByteFile 0 5 onePage r off mem' := by
  obtain ⟨mem', hrun⟩ : ∃ mem',
      fileread tinyDisk oneByteFs oneByteFile 0 5 onePage = some (1, 1, mem') := ⟨_, rfl⟩
  refine ⟨1, 1, mem', hrun, rfl, ?_⟩
  exact (fileread_honest_iff (fun _ h => by cases h; decide) hrun (by decide)).mpr
    fun _ _ h => absurd h.1 (by decide)

/-- Reading -1 bytes at the start of the file returns the whole file. -/
theorem fileread_negative_count : ∃ off mem',
    fileread tinyDisk oneByteFs oneByteFile 0 (-1) onePage = some (1, off, mem') ∧ off = 1 ∧
      ¬Honest oneByteFile 0 (-1) onePage 1 off mem' :=
  ⟨_, _, rfl, rfl, fun h => absurd h.count (by decide)⟩

end Xv6.Read
