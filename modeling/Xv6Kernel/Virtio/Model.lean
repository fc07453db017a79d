import Xv6Kernel.Foundation.Monitor

/-!
# The virtio disk driver

The driver of `kernel/virtio_disk.c` and the device.  A request is a chain of three descriptors,
whose head it publishes in the ring `avail`; the device puts the head into the ring `used` when the
request is completed.  The positions in the rings are 16-bit numbers that wrap around.

The device fetches the heads in the order of the ring `avail`, and completes them in any order: it
writes the status 0 to the address in the last descriptor of the chain, and then puts the head into
the ring `used`.
-/

namespace Xv6

open Function

abbrev NUM : ℕ := 8

def u16 (n : ℕ) : ℕ := n % 2 ^ 16

inductive DescAddr (B : Type) where
  | null
  | ops (i : ℕ)
  | data (b : B)
  | status (i : ℕ)
  deriving DecidableEq

structure VirtqDesc (B : Type) where
  addr : DescAddr B
  len : ℕ
  flagNext : Bool
  flagWrite : Bool
  next : ℕ

structure VirtioBlkReq where
  /-- `VIRTIO_BLK_T_OUT`, and otherwise `VIRTIO_BLK_T_IN`. -/
  out : Bool
  reserved : ℕ
  sector : ℕ

/-- The entries of `disk.info`. -/
structure DiskInfo (B : Type) where
  b : Option B
  status : ℕ

structure Virtq where
  idx : ℕ
  ring : ℕ → ℕ

inductive DevState where
  | idle
  | fetched
  | written
  deriving DecidableEq

/-- The driver and the device, for processes `Fin N` and buffers `B`. -/
structure Vdisk (N : ℕ) (B : Type) where
  desc : ℕ → VirtqDesc B
  free : ℕ → Bool
  ops : ℕ → VirtioBlkReq
  info : ℕ → DiskInfo B
  avail : Virtq
  used : Virtq
  /-- `disk.used_idx`: how far the driver has looked into the ring of the device. -/
  usedIdx : ℕ
  disk : B → Bool
  lock : B → Option (Fin N)
  /-- How far the device has looked into the ring of the driver. -/
  lastAvail : ℕ
  dev : ℕ → DevState

inductive VdiskAct (B : Type) where
  | lockBuf (b : B)
  | unlockBuf (b : B)
  | scan
  | alloc (i : ℕ)
  | free (i : ℕ)
  | readDesc
  | format (b : B) (i : ℕ)
  | ring (i : ℕ)
  | publish (i : ℕ) (b : B)
  | testDisk (b : B)
  | clearInfo (i : ℕ)
  | testUsed
  | readUsed
  | check (i : ℕ)
  | clear (i : ℕ) (b : B)
  | advance
  | devFetch
  | devStatus (i : ℕ)
  | devUsed (i : ℕ)
  deriving DecidableEq

/-- Programs of the driver: processes sleep on `&disk.free[0]`, which is `none`, and on buffers. -/
abbrev VdiskProg (N : ℕ) (B α : Type) : Type 1 := MonProg N (Vdisk N B) (VdiskAct B) (Option B) α

namespace Vdisk

variable {N : ℕ} {B : Type} [DecidableEq B]

def freeDesc (d : Vdisk N B) (i : ℕ) : Outcome (Vdisk N B) Unit :=
  if NUM ≤ i then .panic "free_desc 1"
  else if d.free i then .panic "free_desc 2"
  else .done () { d with
    desc := update d.desc i ⟨.null, 0, false, false, 0⟩
    free := update d.free i true }

/-- `virtio_disk_rw` formats the three descriptors and records the buffer. -/
def format (d : Vdisk N B) (b : B) (write : Bool) (blockno i₀ i₁ i₂ : ℕ) : Vdisk N B :=
  { d with
    ops := update d.ops i₀ ⟨write, 0, blockno * (1024 / 512) % 2 ^ 32⟩
    desc := update (update (update d.desc
      i₀ ⟨.ops i₀, 16, true, false, i₁⟩)
      i₁ ⟨.data b, 1024, true, !write, i₂⟩)
      i₂ ⟨.status i₀, 1, false, true, 0⟩
    info := update d.info i₀ ⟨some b, 0xff⟩
    disk := update d.disk b true }

def writeStatus (d : Vdisk N B) (i : ℕ) : ℕ → DiskInfo B :=
  match (d.desc (d.desc (d.desc i).next).next).addr with
  | .status j => update d.info j { d.info j with status := 0 }
  | _ => d.info

end Vdisk

namespace VdiskProg

variable {N : ℕ} {B : Type} [DecidableEq B]

def allocDesc : VdiskProg N B (Option ℕ) := do
  match ← Monitor.act .scan fun d => .done ((List.range NUM).find? d.free) d with
  | none => return none
  | some i =>
    Monitor.act (.alloc i) fun d => .done () { d with free := update d.free i false }
    return some i

def freeDesc (p : Fin N) (i : ℕ) : VdiskProg N B Unit := do
  Monitor.act (.free i) fun d => d.freeDesc i
  Monitor.wakeup p none

def freeDescs (p : Fin N) : List ℕ → VdiskProg N B Unit
  | [] => return
  | i :: l => do
    freeDesc p i
    freeDescs p l

def allocLoop (p : Fin N) : ℕ → List ℕ → VdiskProg N B (Option (List ℕ))
  | 0, idx => return some idx
  | n + 1, idx => do
    match ← allocDesc with
    | none =>
      freeDescs p idx
      return none
    | some i => allocLoop p n (idx ++ [i])

def alloc3Desc (p : Fin N) : VdiskProg N B (Option (List ℕ)) := allocLoop p 3 []

/-- `free_chain(i)`.  A chain of more than the given number of descriptors would be a cycle. -/
def freeChain (p : Fin N) : ℕ → ℕ → VdiskProg N B Unit
  | 0, _ => Monitor.act .readDesc fun _ => .panic "free_chain"
  | n + 1, i => do
    let (flag, nxt) ← Monitor.act .readDesc fun d => .done ((d.desc i).flagNext, (d.desc i).next) d
    freeDesc p i
    if flag then freeChain p n nxt

/-- The first loop of `virtio_disk_rw`, with a number of rounds. -/
def allocWait (p : Fin N) : ℕ → VdiskProg N B (List ℕ)
  | 0 => Monitor.halt
  | rounds + 1 => do
    match ← alloc3Desc p with
    | some idx => return idx
    | none =>
      Monitor.sleep p none
      allocWait p rounds

/-- The second loop of `virtio_disk_rw`, with a number of rounds. -/
def diskWait (p : Fin N) (b : B) : ℕ → VdiskProg N B Unit
  | 0 => Monitor.halt
  | rounds + 1 => do
    if ← Monitor.act (.testDisk b) fun d => .done (d.disk b) d then
      Monitor.sleep p (some b)
      diskWait p b rounds

def virtioDiskRw (p : Fin N) (b : B) (write : Bool) (blockno rounds : ℕ) : VdiskProg N B Unit := do
  Monitor.acquire p
  let idx ← allocWait p rounds
  Monitor.act (.format b (idx.getD 0 0)) fun d =>
    .done () (d.format b write blockno (idx.getD 0 0) (idx.getD 1 0) (idx.getD 2 0))
  Monitor.act (.ring (idx.getD 0 0)) fun d =>
    .done () { d with
      avail := { d.avail with
        ring := update d.avail.ring (d.avail.idx % NUM) (idx.getD 0 0) } }
  Monitor.act (.publish (idx.getD 0 0) b) fun d =>
    .done () { d with avail := { d.avail with idx := u16 (d.avail.idx + 1) } }
  diskWait p b rounds
  Monitor.act (.clearInfo (idx.getD 0 0)) fun d =>
    .done () { d with
      info := update d.info (idx.getD 0 0) { d.info (idx.getD 0 0) with b := none } }
  freeChain p NUM (idx.getD 0 0)
  Monitor.release

def intrLoop (p : Fin N) : ℕ → VdiskProg N B Unit
  | 0 => Monitor.halt
  | rounds + 1 => do
    if ← Monitor.act .testUsed fun d => .done (decide (d.usedIdx ≠ d.used.idx)) d then
      let id ← Monitor.act .readUsed fun d => .done (d.used.ring (d.usedIdx % NUM)) d
      let b ← Monitor.act (.check id) fun d =>
        if (d.info id).status ≠ 0 then .panic "virtio_disk_intr status"
        else
          match (d.info id).b with
          | none => .panic "kerneltrap"
          | some b => .done b d
      Monitor.act (.clear id b) fun d => .done () { d with disk := update d.disk b false }
      Monitor.wakeup p (some b)
      Monitor.act .advance fun d => .done () { d with usedIdx := u16 (d.usedIdx + 1) }
      intrLoop p rounds

def virtioDiskIntr (p : Fin N) (rounds : ℕ) : VdiskProg N B Unit := do
  Monitor.acquire p
  intrLoop p rounds
  Monitor.release

/-- The device reads the next head in the ring of the driver. -/
def devFetch : VdiskProg N B Unit :=
  Monitor.act .devFetch fun d =>
    if d.lastAvail = d.avail.idx then .blocked
    else .done () { d with
      dev := update d.dev (d.avail.ring (d.lastAvail % NUM)) .fetched
      lastAvail := u16 (d.lastAvail + 1) }

def devStatus (i : ℕ) : VdiskProg N B Unit :=
  Monitor.act (.devStatus i) fun d =>
    if d.dev i = .fetched then
      .done () { d with info := d.writeStatus i, dev := update d.dev i .written }
    else .blocked

/-- The device puts a chain into its ring and advances `used->idx`. -/
def devUsed (i : ℕ) : VdiskProg N B Unit :=
  Monitor.act (.devUsed i) fun d =>
    if d.dev i = .written then
      .done () { d with
        used := ⟨u16 (d.used.idx + 1), update d.used.ring (d.used.idx % NUM) i⟩
        dev := update d.dev i .idle }
    else .blocked

end VdiskProg

inductive VdiskCall (B : Type) where
  /-- A process that holds `b->lock` calls `virtio_disk_rw`. -/
  | rw (b : B) (write : Bool) (blockno rounds : ℕ)
  | intr (rounds : ℕ)
  | fetch
  | status (i : ℕ)
  | used (i : ℕ)

def vdiskMachine (N : ℕ) (B : Type) [DecidableEq B] :
    Machine (Monitor N (Vdisk N B) (Option B)) (MonAct N (VdiskAct B) (Option B)) (Fin N) where
  Call := VdiskCall B
  body p
    | .rw b write blockno rounds => do
      Monitor.act (.lockBuf b) fun d =>
        if d.lock b = none then .done () { d with lock := update d.lock b (some p) }
        else .blocked
      VdiskProg.virtioDiskRw p b write blockno rounds
      Monitor.act (.unlockBuf b) fun d =>
        .done () { d with lock := update d.lock b none }
    | .intr rounds => VdiskProg.virtioDiskIntr p rounds
    | .fetch => VdiskProg.devFetch
    | .status i => VdiskProg.devStatus i
    | .used i => VdiskProg.devUsed i
  ready _ _ _ := True

instance (N : ℕ) (B : Type) [DecidableEq B] (s : Monitor N (Vdisk N B) (Option B)) (p : Fin N)
    (x : (vdiskMachine N B).Call) : Decidable ((vdiskMachine N B).ready s p x) :=
  inferInstanceAs (Decidable True)

def Vdisk.init (N : ℕ) (B : Type) : Vdisk N B where
  desc _ := ⟨.null, 0, false, false, 0⟩
  free _ := true
  ops _ := ⟨false, 0, 0⟩
  info _ := ⟨none, 0⟩
  avail := ⟨0, fun _ => 0⟩
  used := ⟨0, fun _ => 0⟩
  usedIdx := 0
  disk _ := false
  lock _ := none
  lastAvail := 0
  dev _ := .idle

end Xv6
