import Xv6Kernel.File.Offset
import Xv6Kernel.Shell.Model

/-!
# Appending to a file

A command whose output `>>` sends to a file: `sys_open` on the file with the mode that `parseredirs`
gives, then `filewrite` for each of the writes.
-/

namespace Xv6.Shell

/-- `O_RDWR`. -/
abbrev O_RDWR : ℕ := 0x002

/-- `sys_open` on a file of type `T_FILE`. -/
def sysOpen (omode size : ℕ) (block : ℕ → Bytes BSIZE) : SharedFile where
  readable := omode &&& O_WRONLY = 0
  writable := omode &&& O_WRONLY ≠ 0 ∨ omode &&& O_RDWR ≠ 0
  off := 0
  size := if omode &&& O_TRUNC ≠ 0 then 0 else size
  block := block

/-- A program that runs alone. -/
def runAlone {σ ℓ α : Type} : Prog σ ℓ α → σ → Option σ
  | .ret _, s => some s
  | .act _ f k, s =>
    match f s with
    | .done b s => runAlone (k b) s
    | _ => none
  | .pick k, s => runAlone (k 0) s

/-- Calls of `filewrite`, one after another. -/
def writes (bufs : List (List UInt8)) (s : SharedFile) : Option SharedFile :=
  bufs.foldlM (fun s buf => runAlone (filewrite buf fun _ => .none) s) s

def contents (size : ℕ) (block : ℕ → Bytes BSIZE) : List UInt8 :=
  (List.range size).map (SharedFile.byte block)

/-- The file after the bytes `o` are written from its start; it was `c`. -/
structure Overwritten (c o : List UInt8) (s : SharedFile) : Prop where
  writable : s.writable = true
  off : s.off = o.length
  size : s.size = max c.length o.length
  byte : ∀ x < s.size, SharedFile.byte s.block x =
    if x < o.length then o.getD x 0 else c.getD x 0

namespace Overwritten

variable {c o : List UInt8} {s : SharedFile}

lemma contents_eq (h : Overwritten c o s) :
    contents s.size s.block = o ++ c.drop o.length := by
  refine List.ext_getElem ?_ fun x hx _ => ?_
  · simp [contents, h.size]
    omega
  · have hlt : x < s.size := by simpa [contents] using hx
    have hmax := h.size
    simp only [contents, List.getElem_map, List.getElem_range, h.byte x hlt]
    by_cases hxo : x < o.length
    · rw [if_pos hxo, List.getElem_append_left hxo, List.getD_eq_getElem]
    have hxc : x < c.length := by omega
    rw [if_neg hxo, List.getElem_append_right (by omega), List.getElem_drop,
      List.getD_eq_getElem _ _ hxc]
    congr 1
    omega

lemma writeChunk (h : Overwritten c o s) (src : List UInt8)
    (hmax : o.length + src.length ≤ MAXFILE * BSIZE) :
    ∃ s', s.writeChunk src .none = ((src.length : ℤ), s') ∧ Overwritten c (o ++ src) s' := by
  have hsize := h.size
  obtain ⟨block', hw, hbyte⟩ := SharedFile.writeChunk_none s src
    (by rw [h.off, hsize]; exact Nat.le_max_right _ _) (by rw [h.off]; exact hmax)
  refine ⟨_, hw, h.writable, ?_, ?_, fun x hx => ?_⟩
  · rw [List.length_append, ← h.off]
  · change max s.size (s.off + src.length) = _
    rw [List.length_append, h.off, hsize]
    omega
  · change SharedFile.byte block' x = _
    have hx : x < max s.size (s.off + src.length) := hx
    rw [hbyte, h.off, List.length_append]
    rw [h.off] at hx
    by_cases hxo : x < o.length
    · rw [if_neg (by omega), if_pos (by omega), h.byte x (by omega), if_pos hxo,
        List.getD_append _ _ _ _ hxo]
    · by_cases hxs : x < o.length + src.length
      · rw [if_pos ⟨by omega, hxs⟩, if_pos hxs, List.getD_append_right _ _ _ _ (by omega)]
      · rw [if_neg (by omega), if_neg hxs, h.byte x (by omega), if_neg hxo]

end Overwritten

lemma filewriteLoop_alone (buf c : List UInt8) (fuel i : ℕ) (hi : i ≤ buf.length)
    (hfuel : buf.length - i ≤ fuel) {o : List UInt8} {s : SharedFile} (h : Overwritten c o s)
    (hmax : o.length + (buf.length - i) ≤ MAXFILE * BSIZE) :
    ∃ s', runAlone (filewriteLoop buf (fun _ => .none) fuel i) s = some s' ∧
      Overwritten c (o ++ buf.drop i) s' := by
  induction fuel generalizing i o s with
  | zero =>
    have hnil : buf.drop i = [] := List.drop_eq_nil_of_le (by omega)
    exact ⟨s, rfl, by rwa [hnil, List.append_nil]⟩
  | succ fuel ih =>
    rw [filewriteLoop]
    by_cases hlt : i < buf.length
    · have hlen : ((buf.drop i).take maxChunk).length = min 3072 (buf.length - i) := by
        rw [List.length_take, List.length_drop]
        rfl
      have hsplit : (buf.drop i).take maxChunk ++
          buf.drop (i + ((buf.drop i).take maxChunk).length) = buf.drop i := by
        rw [← List.drop_drop]
        exact List.prefix_iff_eq_append.mp (List.take_prefix _ _)
      obtain ⟨s₁, hw, h₁⟩ := h.writeChunk ((buf.drop i).take maxChunk) (by omega)
      obtain ⟨s', hrun, hs'⟩ := ih (i + ((buf.drop i).take maxChunk).length) (by omega) (by omega)
        h₁ (by rw [List.length_append]; omega)
      refine ⟨s', ?_, ?_⟩
      · rw [if_pos hlt]
        simpa [Prog.atomic, runAlone, hw] using hrun
      · rwa [List.append_assoc, hsplit] at hs'
    · have hnil : buf.drop i = [] := List.drop_eq_nil_of_le (by omega)
      rw [if_neg hlt]
      exact ⟨s, rfl, by rwa [hnil, List.append_nil]⟩

lemma writes_overwrite (c : List UInt8) (bufs : List (List UInt8)) {o : List UInt8}
    {s : SharedFile} (h : Overwritten c o s)
    (hmax : o.length + bufs.flatten.length ≤ MAXFILE * BSIZE) :
    ∃ s', writes bufs s = some s' ∧ Overwritten c (o ++ bufs.flatten) s' := by
  induction bufs generalizing o s with
  | nil => exact ⟨s, rfl, by rwa [List.flatten_nil, List.append_nil]⟩
  | cons buf bufs ih =>
    rw [List.flatten_cons, List.length_append] at hmax
    obtain ⟨s₁, hrun, h₁⟩ := filewriteLoop_alone buf c buf.length 0 (Nat.zero_le _) le_rfl h
      (by omega)
    rw [List.drop_zero] at h₁
    obtain ⟨s', hw, hs'⟩ := ih h₁ (by rw [List.length_append]; omega)
    refine ⟨s', ?_, by rwa [List.flatten_cons, ← List.append_assoc]⟩
    have hcall : runAlone (filewrite buf fun _ => .none) s = some s₁ := by
      simpa [filewrite, Prog.atomic, runAlone, h.writable] using hrun
    rw [writes, List.foldlM_cons, hcall]
    exact hw

/-- After `>>` the bytes `o` are written over the contents `c` from the start: they stand behind `c`
if and only if one of the two is empty. -/
theorem append_iff (file : Word) (size : ℕ) (block : ℕ → Bytes BSIZE) (bufs : List (List UInt8))
    (hmax : size + bufs.flatten.length ≤ MAXFILE * BSIZE) :
    ∃ s', writes bufs (sysOpen (redirection appendTok file).mode size block) = some s' ∧
      contents s'.size s'.block = bufs.flatten ++ (contents size block).drop bufs.flatten.length ∧
      (contents s'.size s'.block = contents size block ++ bufs.flatten ↔
        size = 0 ∨ bufs.flatten = []) := by
  have hlen : (contents size block).length = size := by simp [contents]
  have hmode : (redirection appendTok file).mode = O_WRONLY ||| O_CREATE := rfl
  rw [hmode]
  have hopen : Overwritten (contents size block) []
      (sysOpen (O_WRONLY ||| O_CREATE) size block) := by
    refine ⟨by simp [sysOpen], rfl, ?_, fun x hx => ?_⟩
    · rw [hlen, List.length_nil, Nat.max_zero]
      rfl
    · have hx : x < size := hx
      rw [if_neg (show ¬x < [].length from Nat.not_lt_zero x),
        List.getD_eq_getElem _ _ (by omega)]
      simp [contents, sysOpen]
  obtain ⟨s', hrun, hs'⟩ := writes_overwrite _ bufs hopen (by rw [List.length_nil]; omega)
  rw [List.nil_append] at hs'
  refine ⟨s', hrun, hs'.contents_eq, ?_⟩
  rw [hs'.contents_eq]
  refine ⟨fun heq => ?_, ?_⟩
  · have hl := congrArg List.length heq
    rw [List.length_append, List.length_append, List.length_drop, hlen] at hl
    by_cases hz : size = 0
    · exact .inl hz
    · exact .inr (List.length_eq_zero_iff.mp (by omega))
  · rintro (rfl | hnil)
    · simp [contents]
    · simp [hnil]

/-- Two writes to an empty file. -/
theorem append_iff_empty :
    ∃ s', writes [[1], [2, 3]] (sysOpen (redirection appendTok ([], [])).mode 0
        fun _ => Bytes.zero _) = some s' ∧ contents s'.size s'.block = [1, 2, 3] := by
  obtain ⟨s', hrun, heq, -⟩ := append_iff ([], []) 0 (fun _ => Bytes.zero _) [[1], [2, 3]]
    (by decide)
  exact ⟨s', hrun, heq⟩

/-- The byte `7` is written to a file that holds the byte `5`. -/
theorem append_overwrites :
    (writes [[7]] (sysOpen (redirection appendTok ([], [])).mode 1
      fun _ => (Bytes.zero _).blit 0 [5])).map (fun s => contents s.size s.block) = some [7] := by
  decide +kernel

end Xv6.Shell
