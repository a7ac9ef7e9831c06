import Yoctos.Tasks.Lifecycle

/-! # The template page directory (`tasks_init`, `boot/multiboot.c`)

The two `paging_mmap` calls of `tasks_init` take what the boot loader reports.
Nothing keeps their ranges away from the range of the tasks at `TASK_VIRT_ADDR`,
whose page directories start as copies of the template.
-/

namespace Yoctos.Tasks

open Yoctos.Common Yoctos.Memory

structure MultibootInfo where
  memLower : BitVec 32
  memUpper : BitVec 32

def multibootGetRamInKb (mbi : MultibootInfo) : BitVec 32 := mbi.memLower + mbi.memUpper

def ramBytes (mbi : MultibootInfo) : BitVec 32 := multibootGetRamInKb mbi * 1024

def ramMmap (mbi : MultibootInfo) : Mmap := ⟨0, 0, ramBytes mbi, .kernel⟩
def fbMmap (fbAddr fbSize : BitVec 32) : Mmap := ⟨fbAddr, fbAddr, fbSize, .user⟩

theorem Setup.templateMmaps_eq (setup : Setup) (mbi : MultibootInfo)
    (reported : setup.ramInKb = multibootGetRamInKb mbi) :
    setup.templateMmaps = [fbMmap setup.fbAddr setup.fbSize, ramMmap mbi] := by
  rw [Setup.templateMmaps, Setup.mmaps, Setup.ramSize, reported]
  rfl

def taskRange (addrSpaceSize argsSize : BitVec 32) : Mmap :=
  ⟨taskVirtAddr, 0, requestedSize addrSpaceSize argsSize, .user⟩

/-- Two ranges have no page-directory entry in common. -/
def Apart (left right : Mmap) : Prop :=
  ∀ a b, left.covers a = true → right.covers b = true → addrToPde a ≠ addrToPde b

/-- The template maps the RAM that is there and leaves the page-directory
entries of the tasks alone. -/
structure NeverCollides (mbi : MultibootInfo) (fbAddr fbSize addrSpaceSize argsSize : BitVec 32) :
    Prop where
  converts : (ramBytes mbi).toNat = (mbi.memLower.toNat + mbi.memUpper.toNat) * 1024
  exact : ∀ address : BitVec 32, (ramMmap mbi).covers address = true ↔
    address.toNat / 4096 * 4096 < (mbi.memLower.toNat + mbi.memUpper.toNat) * 1024
  ram : Apart (ramMmap mbi) (taskRange addrSpaceSize argsSize)
  fb : Apart (fbMmap fbAddr fbSize) (taskRange addrSpaceSize argsSize)

namespace Mmap

def extent (call : Mmap) : Nat := (pageCount call.size).toNat * 4096

def block (call : Mmap) : BitVec 32 := addrToPde call.virtAddr ++ 0#22

private theorem block_toNat (call : Mmap) :
    call.block.toNat = call.virtAddr.toNat / 4194304 * 4194304 := by
  have entry := addrToPde_toNat call.virtAddr
  rw [block, BitVec.toNat_append, Nat.shiftLeft_eq, entry]
  exact Nat.or_zero _

private theorem extent_lt (call : Mmap) : call.extent < 2 ^ 32 := by
  have bound := pageCount_lt call.size
  rw [extent]
  omega

private theorem extent_pos (call : Mmap) : 0 < call.extent ↔ pageCount call.size ≠ 0 := by
  have pages : pageCount call.size = 0 ↔ (pageCount call.size).toNat = 0 :=
    ⟨fun zero => by rw [zero]; rfl, fun zero => BitVec.eq_of_toNat_eq zero⟩
  rw [ne_eq, pages, extent]
  omega

/-- A range is apart from one that starts at a 4 MB boundary exactly when one of
the two has no page, or each ends before the 4 MB block that the other starts
in. Distances are taken around the address space, as the loops step. -/
theorem apart_iff {call task : Mmap} (aligned : task.virtAddr.toNat % 4194304 = 0) :
    Apart call task ↔ pageCount call.size = 0 ∨ pageCount task.size = 0 ∨
      (call.extent ≤ (task.virtAddr - call.virtAddr).toNat ∧
        task.extent ≤ (call.block - task.virtAddr).toNat) := by
  have callExtent := call.extent_lt
  have taskExtent := task.extent_lt
  have callBound := call.virtAddr.isLt
  have taskBound := task.virtAddr.isLt
  have block := call.block_toNat
  have blockEntry : addrToPde call.block = addrToPde call.virtAddr := by
    apply BitVec.eq_of_toNat_eq
    rw [addrToPde_toNat, addrToPde_toNat]
    omega
  constructor
  · intro apart
    by_contra overlap
    simp only [not_or, not_and_or, Nat.not_le] at overlap
    rcases overlap with ⟨some, someTask, meets⟩
    have pages := call.extent_pos.mpr some
    have taskPages := task.extent_pos.mpr someTask
    have starts : call.covers call.virtAddr = true := by
      rw [covers_iff, BitVec.sub_self]
      exact pages
    have taskStarts : task.covers task.virtAddr = true := by
      rw [covers_iff, BitVec.sub_self]
      exact taskPages
    rcases meets with reaches | reached
    · exact apart _ _ ((covers_iff ..).mpr reaches) taskStarts rfl
    · exact apart _ _ starts ((covers_iff ..).mpr reached) blockEntry.symm
  · intro separate a b inCall inTask same
    rw [covers_iff] at inCall inTask
    change _ < call.extent at inCall
    change _ < task.extent at inTask
    have entries := congrArg BitVec.toNat same
    rw [addrToPde_toNat, addrToPde_toNat] at entries
    have noPages := call.extent_pos
    have noTaskPages := task.extent_pos
    rcases separate with none | none | ⟨before, beyond⟩
    · exact absurd none (call.extent_pos.mp (by omega))
    · exact absurd none (task.extent_pos.mp (by omega))
    · have aBound := a.isLt
      have bBound := b.isLt
      rw [BitVec.toNat_sub] at inCall inTask before beyond
      omega

end Mmap

private theorem ramBytes_toNat (mbi : MultibootInfo) : (ramBytes mbi).toNat =
    (mbi.memLower.toNat + mbi.memUpper.toNat) % 2 ^ 32 * 1024 % 2 ^ 32 := by
  rw [ramBytes, multibootGetRamInKb, BitVec.toNat_mul, BitVec.toNat_add]
  rfl

private theorem pageCount_ramBytes {mbi : MultibootInfo}
    (fits : mbi.memLower.toNat + mbi.memUpper.toNat + 4 ≤ 2 ^ 22) :
    (pageCount (ramBytes mbi)).toNat = (mbi.memLower.toNat + mbi.memUpper.toNat + 3) / 4 := by
  have bytes := ramBytes_toNat mbi
  rw [pageCount_toNat (by omega), bytes]
  omega

private theorem ramMmap_covers {mbi : MultibootInfo} (address : BitVec 32) :
    (ramMmap mbi).covers address = true ↔ address.toNat < (ramMmap mbi).extent := by
  have distance : (address - 0).toNat = address.toNat := by simp
  rw [Mmap.covers_iff, Mmap.extent]
  change (address - 0).toNat < _ ↔ _
  rw [distance]

/-- The RAM is mapped exactly when the reported KB come to no more than the
address space without its last page. -/
theorem ram_exact_iff (mbi : MultibootInfo) :
    ((ramBytes mbi).toNat = (mbi.memLower.toNat + mbi.memUpper.toNat) * 1024 ∧
      ∀ address : BitVec 32, (ramMmap mbi).covers address = true ↔
        address.toNat / 4096 * 4096 < (mbi.memLower.toNat + mbi.memUpper.toNat) * 1024) ↔
      mbi.memLower.toNat + mbi.memUpper.toNat + 4 ≤ 2 ^ 22 := by
  constructor
  · rintro ⟨converts, exact⟩
    by_contra large
    have below := (ramBytes mbi).isLt
    have last : (0xffffffff : BitVec 32).toNat = 2 ^ 32 - 1 := rfl
    have pages := pageCount_lt (ramBytes mbi)
    have covered := (exact 0xffffffff).mpr (by omega)
    rw [ramMmap_covers, last] at covered
    change _ < (pageCount (ramBytes mbi)).toNat * 4096 at covered
    omega
  · intro fits
    have bytes := ramBytes_toNat mbi
    refine ⟨by omega, fun address => ?_⟩
    rw [ramMmap_covers]
    change _ < (pageCount (ramBytes mbi)).toNat * 4096 ↔ _
    rw [pageCount_ramBytes fits]
    omega

private theorem ram_apart_iff {mbi : MultibootInfo} {addrSpaceSize argsSize : BitVec 32}
    (fits : mbi.memLower.toNat + mbi.memUpper.toNat + 4 ≤ 2 ^ 22) :
    Apart (ramMmap mbi) (taskRange addrSpaceSize argsSize) ↔
      pageCount (requestedSize addrSpaceSize argsSize) = 0 ∨
        mbi.memLower.toNat + mbi.memUpper.toNat = 0 ∨
        (mbi.memLower.toNat + mbi.memUpper.toNat ≤ 2 ^ 20 ∧
          (taskRange addrSpaceSize argsSize).extent ≤ 3 * 2 ^ 30) := by
  have aligned : (taskRange addrSpaceSize argsSize).virtAddr.toNat % 4194304 = 0 := by
    change (0x40000000 : Nat) % 4194304 = 0
    decide
  have pages := pageCount_ramBytes fits
  have extent : (ramMmap mbi).extent = (pageCount (ramBytes mbi)).toNat * 4096 := rfl
  have noPages : pageCount (ramBytes mbi) = 0 ↔ mbi.memLower.toNat + mbi.memUpper.toNat = 0 := by
    constructor
    · intro none
      have zero : (pageCount (ramBytes mbi)).toNat = 0 := congrArg BitVec.toNat none
      omega
    · intro none
      apply BitVec.eq_of_toNat_eq
      change _ = 0
      omega
  have before : ((taskRange addrSpaceSize argsSize).virtAddr - (ramMmap mbi).virtAddr).toNat =
      2 ^ 30 := by
    change ((0x40000000 : BitVec 32) - 0).toNat = _
    decide
  have beyond : ((ramMmap mbi).block - (taskRange addrSpaceSize argsSize).virtAddr).toNat =
      3 * 2 ^ 30 := by
    change (addrToPde 0 ++ 0#22 - (0x40000000 : BitVec 32)).toNat = _
    decide
  rw [Mmap.apart_iff aligned, extent, before, beyond, pages]
  change pageCount (ramBytes mbi) = 0 ∨ pageCount (requestedSize addrSpaceSize argsSize) = 0 ∨ _ ↔ _
  have reaches : (mbi.memLower.toNat + mbi.memUpper.toNat + 3) / 4 * 4096 ≤ 2 ^ 30 ↔
      mbi.memLower.toNat + mbi.memUpper.toNat ≤ 2 ^ 20 := by omega
  rw [noPages, or_left_comm, reaches]

/-- The template stays off the tasks exactly when the reported RAM fits the
address space less a page, is at most 1 GB, the task ends by the end of the
address space, and neither the framebuffer nor the task reaches the other. -/
theorem neverCollides_iff (mbi : MultibootInfo) (fbAddr fbSize addrSpaceSize argsSize : BitVec 32) :
    NeverCollides mbi fbAddr fbSize addrSpaceSize argsSize ↔
      mbi.memLower.toNat + mbi.memUpper.toNat + 4 ≤ 2 ^ 22 ∧
      (pageCount (requestedSize addrSpaceSize argsSize) = 0 ∨
        mbi.memLower.toNat + mbi.memUpper.toNat = 0 ∨
        (mbi.memLower.toNat + mbi.memUpper.toNat ≤ 2 ^ 20 ∧
          (taskRange addrSpaceSize argsSize).extent ≤ 3 * 2 ^ 30)) ∧
      (pageCount fbSize = 0 ∨ pageCount (requestedSize addrSpaceSize argsSize) = 0 ∨
        ((fbMmap fbAddr fbSize).extent ≤ (taskVirtAddr - fbAddr).toNat ∧
          (taskRange addrSpaceSize argsSize).extent ≤
            ((fbMmap fbAddr fbSize).block - taskVirtAddr).toNat)) := by
  have aligned : (taskRange addrSpaceSize argsSize).virtAddr.toNat % 4194304 = 0 := by
    change (0x40000000 : Nat) % 4194304 = 0
    decide
  have fb : Apart (fbMmap fbAddr fbSize) (taskRange addrSpaceSize argsSize) ↔ _ :=
    Mmap.apart_iff aligned
  constructor
  · intro apart
    have fits := (ram_exact_iff mbi).mp ⟨apart.converts, apart.exact⟩
    exact ⟨fits, (ram_apart_iff fits).mp apart.ram, fb.mp apart.fb⟩
  · rintro ⟨fits, ramBelow, fbApart⟩
    rcases (ram_exact_iff mbi).mpr fits with ⟨converts, exact⟩
    exact ⟨converts, exact, (ram_apart_iff fits).mpr ramBelow, fb.mpr fbApart⟩

theorem not_neverCollides :
    ¬ ∀ (mbi : MultibootInfo) (fbAddr fbSize addrSpaceSize argsSize : BitVec 32),
      NeverCollides mbi fbAddr fbSize addrSpaceSize argsSize := by
  intro always
  have apart := (always ⟨640, 0x200000⟩ 0xe0000000 0x180000 1 4).ram
  exact apart taskVirtAddr taskVirtAddr (by decide +kernel) (by decide +kernel) rfl

end Yoctos.Tasks
