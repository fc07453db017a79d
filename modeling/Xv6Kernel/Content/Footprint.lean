import Xv6Kernel.Content.Array

/-!
# The blocks that `filewrite` logs

`filewrite` reserves `MAXOPBLOCKS` blocks of the log for every chunk.
-/

namespace Xv6.Content

variable {sb : Superblock} {fs : Fs} {ip : Inode} {mem : Memory} {user : Bool}

def blocksOf (off left : ℕ) : ℕ :=
  if left = 0 then 0 else (off % BSIZE + left + (BSIZE - 1)) / BSIZE

lemma blocksOf_succ (off : ℕ) {left m : ℕ} (hleft : 0 < left)
    (hm : m = min left (BSIZE - off % BSIZE)) :
    blocksOf off left = 1 + blocksOf (off + m) (left - m) := by
  have hm : m = min left (1024 - off % 1024) := hm
  change (if left = 0 then 0 else (off % 1024 + left + 1023) / 1024) =
    1 + if left - m = 0 then 0 else ((off + m) % 1024 + (left - m) + 1023) / 1024
  rw [if_neg (by omega)]
  split <;> omega

/-- A block that a chunk logs: one of `G`, the indirect block, or its bitmap block. -/
def Counted (sb : Superblock) (ip : Inode) (G : Finset ℕ) (x : ℕ) : Prop :=
  x ∈ G ∨ (ip.addrs NDIRECT ≠ 0 ∧ (x = ip.addrs NDIRECT ∨ x = sb.bblock (ip.addrs NDIRECT)))

def roundBlocks (sb : Superblock) (addr : ℕ) (found : Prop) [Decidable found] : Finset ℕ :=
  if found then {addr} else {addr, sb.bblock addr}

lemma card_roundBlocks (sb : Superblock) (addr : ℕ) (found : Prop) [Decidable found] :
    (roundBlocks sb addr found).card + (if found then 1 else 0) ≤ 2 := by
  unfold roundBlocks
  split
  · rw [Finset.card_singleton]
  · exact Finset.card_le_two

lemma Bmap.counted {bn addr : ℕ} {ip' : Inode} {fs' : Fs} {l : List ℕ}
    (h : Bmap sb fs ip bn addr ip' fs' l) {x : ℕ} (hx : x ∈ l) :
    Counted sb ip' (roundBlocks sb addr (Content.lookup fs ip bn ≠ 0)) x := by
  have hzero : ¬Content.lookup fs ip bn ≠ 0 := fun hne => by
    rw [h.found hne] at hx
    cases hx
  rcases h.mapped x hx with ⟨-, hx⟩ | hx
  · rw [roundBlocks, if_neg hzero]
    exact .inl (by simpa using hx)
  · exact .inr hx

/-- The loop of `writei` logs two blocks for each block of the file, one if the first is there, and
the indirect block with its bitmap block. -/
lemma writeLoop_counted (mem : Memory) (user : Bool) {n : ℕ} (fuel : ℕ) :
    ∀ (fs : Fs) (ip : Inode) (src off tot : ℕ), Reserved sb fs → Slots sb fs ip → tot ≤ n →
      n - tot ≤ fuel → off + (n - tot) ≤ MAXFILE * BSIZE →
      ∃ w l G, writeLoop sb mem user n fuel fs ip src off tot = some w ∧
        w.fs.calls = fs.calls ++ l ∧ (∀ x ∈ l, Counted sb w.ip G x) ∧
        G.card + (if lookup fs ip (off / BSIZE) ≠ 0 ∧ tot < n then 1 else 0) ≤
          2 * blocksOf off (n - tot) ∧
        (ip.addrs NDIRECT ≠ 0 → w.ip.addrs NDIRECT = ip.addrs NDIRECT) := by
  induction fuel with
  | zero =>
    intro fs ip src off tot _ _ htot hfuel _
    refine ⟨_, [], ∅, rfl, (List.append_nil _).symm, fun x hx => (nomatch hx), ?_, fun _ => rfl⟩
    rw [if_neg (by omega), Finset.card_empty]
    exact Nat.zero_le _
  | succ fuel ih =>
    intro fs ip src off tot hr hs htot hfuel hbound
    rw [writeLoop]
    by_cases hlt : tot < n
    swap
    · rw [if_neg hlt]
      refine ⟨_, [], ∅, rfl, (List.append_nil _).symm, fun x hx => (nomatch hx), ?_, fun _ => rfl⟩
      rw [if_neg fun h => hlt h.2, Finset.card_empty]
      exact Nat.zero_le _
    rw [if_pos hlt]
    obtain ⟨addr, ip', fs', l, hmap, hround⟩ :=
      writeRound_spec mem user hr hs src (show 0 < n - tot by omega)
        (show off < MAXFILE * BSIZE by omega) (f := fun i => mem.val user (src + (i - off)))
        fun i _ => rfl
    have hrun := hmap.run (fun _ => 0) 0
    have hsucc := blocksOf_succ off (show 0 < n - tot by omega) rfl
    have hcard := card_roundBlocks sb addr (lookup fs ip (off / BSIZE) ≠ 0)
    have hind : ip.addrs NDIRECT ≠ 0 → ip'.addrs NDIRECT = ip.addrs NDIRECT := fun hne =>
      hrun.ext.keep NDIRECT (by decide) hne
    have hflag : (lookup fs ip (off / BSIZE) ≠ 0 ∧ tot < n) = (lookup fs ip (off / BSIZE) ≠ 0) :=
      propext ⟨And.left, fun h => ⟨h, hlt⟩⟩
    simp only [hflag]
    rcases hround with ⟨hzero, hround⟩ | ⟨hne, m, r, hm, -, hround⟩
    · rw [hround]
      exact ⟨_, l, _, rfl, hrun.logged.calls, fun x hx => hmap.counted hx, by omega, hind⟩
    rcases hround with ⟨-, hround⟩ | ⟨-, hround, hwrote⟩
    · rw [hround]
      exact ⟨_, l, _, rfl, hrun.logged.calls, fun x hx => hmap.counted hx, by omega, hind⟩
    rw [hround]
    have hm' : m = min (n - tot) (1024 - off % 1024) := hm
    obtain ⟨w, l', G, hw, hcalls, hl, hG, hind'⟩ :=
      ih (logWrite (fs'.put addr r.1) addr) ip' (src + m) (off + m) (tot + m)
        (hwrote.reserved hr) hwrote.slots (by omega) (by omega) (by omega)
    refine ⟨w, (l ++ [addr]) ++ l', roundBlocks sb addr (lookup fs ip (off / BSIZE) ≠ 0) ∪ G, hw,
      ?_, fun x hx => ?_, ?_, fun hne => ?_⟩
    · rw [hcalls, hwrote.logged.calls, List.append_assoc]
    · rcases List.mem_append.mp hx with hx | hx
      · rcases List.mem_append.mp hx with hx | hx
        · rcases hmap.counted hx with hx | ⟨hne', hx⟩
          · exact .inl (Finset.mem_union_left _ hx)
          · rw [← hind' hne'] at hx hne'
            exact .inr ⟨hne', hx⟩
        rw [List.mem_singleton] at hx
        refine .inl (Finset.mem_union_left _ ?_)
        rw [hx, roundBlocks]
        split <;> simp
      · rcases hl x hx with hx | hx
        · exact .inl (Finset.mem_union_right _ hx)
        · exact .inr hx
    · have hunion := Finset.card_union_le
        (roundBlocks sb addr (lookup fs ip (off / BSIZE) ≠ 0)) G
      rw [← hm, show n - tot - m = n - (tot + m) by omega] at hsucc
      omega
    · rw [hind' (by rwa [hind hne]), hind hne]

lemma chunkLen_le (n i : ℕ) : chunkLen n i ≤ 3072 := by
  change (if 3072 < n - i then 3072 else n - i) ≤ 3072
  split <;> omega

/-- **The transaction of a chunk of `filewrite` fits its reservation.**  It calls `log_write` for at
most `MAXOPBLOCKS` blocks, whatever the bitmap and the memory of the process are. -/
theorem filewriteChunk_fits (h : Wf sb fs ip) (addr : ℕ) {off : UInt32}
    (hoff : off.toNat ≤ ip.size) (n i : ℕ) :
    ∃ r off' ip' fs', filewriteChunk sb fs ip mem addr off n i = some (r, off', ip', fs') ∧
      fs'.calls.toFinset.card ≤ MAXOPBLOCKS := by
  have hlen := chunkLen_le n i
  have hnat : (UInt32.ofNat (chunkLen n i)).toNat = chunkLen n i :=
    UInt32.toNat_ofNat_of_lt (lt_of_le_of_lt hlen (by decide))
  unfold filewriteChunk writei
  by_cases hacc : Accepts ip off (UInt32.ofNat (chunkLen n i))
  swap
  · rw [if_neg hacc]
    exact ⟨_, _, _, _, rfl, Nat.zero_le _⟩
  obtain ⟨-, hbound⟩ := accepts_iff.mp hacc
  rw [hnat] at hbound
  have hr : Reserved sb { fs with calls := [] } := h.reserved
  have hs : Slots sb { fs with calls := [] } ip :=
    ⟨h.slots.le, h.slots.lt, h.slots.used, h.slots.once⟩
  obtain ⟨w, l, G, hloop, hcalls, hl, hG, -⟩ :=
    writeLoop_counted mem true (n := chunkLen n i) (chunkLen n i) _ ip (addr + i) off.toNat
      0 hr hs (Nat.zero_le _) (by omega) (by omega)
  rw [if_pos hacc, hnat, hloop]
  refine ⟨_, _, _, _, rfl, ?_⟩
  have hcard : G.card ≤ 7 := by
    by_cases hzero : chunkLen n i = 0
    · rw [hzero] at hG
      change G.card + _ ≤ 2 * 0 at hG
      omega
    have hblocks : blocksOf off.toNat (chunkLen n i - 0) =
        (off.toNat % 1024 + chunkLen n i + 1023) / 1024 := if_neg hzero
    by_cases hmod : off.toNat % 1024 = 0
    · omega
    · -- the first block is below the size
      have hlook : lookup fs ip (off.toNat / BSIZE) ≠ 0 := (h.blocks _ (by
        change off.toNat / 1024 * 1024 < ip.size
        omega)).2
      rw [if_pos ⟨hlook, by omega⟩] at hG
      omega
  have hsub : ((writeEnd sb off.toNat w).2.2.calls).toFinset ⊆ G ∪
      {w.ip.addrs NDIRECT, sb.bblock (w.ip.addrs NDIRECT),
        sb.iblock (writeEnd sb off.toNat w).2.1.inum} := by
    intro x hx
    have hx : x ∈ w.fs.calls ++ [sb.iblock (writeEnd sb off.toNat w).2.1.inum] :=
      List.mem_toFinset.mp hx
    rw [hcalls, List.mem_append, List.mem_append, List.mem_singleton] at hx
    rw [Finset.mem_union, Finset.mem_insert, Finset.mem_insert, Finset.mem_singleton]
    rcases hx with (hx | hx) | hx
    · cases hx
    · rcases hl x hx with hx | ⟨-, hx⟩
      · exact .inl hx
      · rcases hx with hx | hx
        · exact .inr (.inl hx)
        · exact .inr (.inr (.inl hx))
    · exact .inr (.inr (.inr hx))
  calc ((writeEnd sb off.toNat w).2.2.calls).toFinset.card
      ≤ _ := Finset.card_le_card hsub
    _ ≤ G.card + _ := Finset.card_union_le _ _
    _ ≤ 7 + 3 := Nat.add_le_add hcard Finset.card_le_three

/-- A chunk that starts within the last block of the small file. -/
theorem filewriteChunk_fits_small :
    ∃ r off' ip' fs', filewriteChunk mkfsSb smallFs smallFile (onePage 7) 0 10 5000 0 =
      some (r, off', ip', fs') ∧ fs'.calls.toFinset.card ≤ MAXOPBLOCKS :=
  filewriteChunk_fits smallFile_wf 0 (by decide) 5000 0

end Xv6.Content
