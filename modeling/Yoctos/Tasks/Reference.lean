import Yoctos.Memory.FirstFit
import Yoctos.Tasks.System

/-! # A reference machine

The addresses are those of the linked `kernel.elf`. The RAM is identity mapped
in steps of 4 MB, the framebuffer has 4 MB at 0xE0000000.
-/

namespace Yoctos.Tasks

open Yoctos.Common Yoctos.Memory Yoctos.Transition

def kernelLayout : Layout where
  kernelStart := 0x100000
  kernelEnd := 0x2e3000
  gdt := 0x105ee0
  idt := 0x1c1080
  tasks := 0x106000
  initialTss := 0x1ae000
  initialTssKernelStack := 0x1b0080
  kernelPagedir := 0x1e2000
  exceptionStore := 0x101296

private theorem kernelLayout_wellFormed : kernelLayout.WellFormed where
  image := by decide
  disjoint := by decide
  image_fits := by decide
  store_in_image := by decide

def fbTable : Privilege → Frame
  | .user => 0x2f0
  | .kernel => 0x2f1

/-- The page tables at frames 0x300, 0x301, … map the RAM. -/
def referenceTables : Frame → PageTable := fun frame entry =>
  if frame = fbTable .user then ⟨true, true, true, 0x380#10 ++ entry⟩
  else if frame = fbTable .kernel then ⟨true, true, false, 0x380#10 ++ entry⟩
  else ⟨true, true, false, (frame - 0x300).setWidth 10 ++ entry⟩

def referencePagedir (tables : Nat) (privilege : Privilege) : PageDirectory := fun index =>
  if index.toNat < tables then ⟨true, true, true, 0x300 + index.setWidth 20⟩
  else if index = 0x380 then ⟨true, true, true, fbTable privilege⟩
  else .null

def referenceSetup (tables lastAddress : Nat) (modules : List Module)
    (bytes : BitVec 32 → UInt8) : Setup where
  layout := kernelLayout
  modules := modules
  modulesLastAddress := lastAddress
  ramInKb := BitVec.ofNat 32 (tables * 4096)
  fbAddr := 0xe0000000
  fbSize := 0x400000
  source := firstFit (BitVec.ofNat 20 (lastAddress / 4096))
  ram :=
    { bytes := bytes
      tables := referenceTables
      frames := fun frame =>
        decide (frame.toNat * 4096 < lastAddress) ||
          decide (tables * 4194304 ≤ frame.toNat * 4096) }
  kernelPagedir := referencePagedir tables .kernel
  pagedirTempl := referencePagedir tables .user
  gdt := fun _ => gdtMakeNullSegment
  colors := ⟨0xffff, 0⟩
  registers := .zero
  stack := fun _ => 0

private theorem address_parts (address : BitVec 32) :
    (addrToPde address ++ addrToPte address) ++ pageOffset address = address := by
  simp only [addrToPde, addrToPte, pageOffset]
  ext index bound
  grind

section

variable {tables lastAddress : Nat} {modules : List Module} {bytes : BitVec 32 → UInt8}
variable (few : tables ≤ 512)

include few

private theorem referenceSetup_ramSize :
    (referenceSetup tables lastAddress modules bytes).ramSize.toNat = tables * 4194304 := by
  simp only [Setup.ramSize, referenceSetup, BitVec.toNat_mul, BitVec.toNat_ofNat]
  change tables * 4096 % 2 ^ 32 * 1024 % 2 ^ 32 = _
  omega

private theorem referenceSetup_mappedBy (privilege : Privilege) (address : BitVec 32) :
    mappedBy ((referenceSetup tables lastAddress modules bytes).mmaps privilege) address =
      if 0xe0000000 ≤ address.toNat ∧ address.toNat < 0xe0400000 then
        some ⟨address, privilege == .user, true⟩
      else if address.toNat < tables * 4194304 then some ⟨address, false, true⟩
      else none := by
  have size : (referenceSetup tables lastAddress modules bytes).ramSize.toNat = tables * 4194304 :=
    referenceSetup_ramSize few
  have count : (pageCount (referenceSetup tables lastAddress modules bytes).ramSize).toNat * 4096 =
      tables * 4194304 := by
    rw [pageCount_toNat (by omega), size]
    omega
  have maps : (referenceSetup tables lastAddress modules bytes).mmaps privilege =
      [⟨0xe0000000, 0xe0000000, 0x400000, privilege⟩,
        ⟨0, 0, (referenceSetup tables lastAddress modules bytes).ramSize, .kernel⟩] := rfl
  have fbCovers : Mmap.covers ⟨0xe0000000, 0xe0000000, 0x400000, privilege⟩ address =
      decide (0xe0000000 ≤ address.toNat ∧ address.toNat < 0xe0400000) := by
    have pages : (pageCount 0x400000).toNat = 1024 := by decide
    have start : (0xe0000000 : BitVec 32).toNat = 0xe0000000 := rfl
    have fits : (0xe0000000 : BitVec 32).toNat + (pageCount 0x400000).toNat * 4096 ≤ 2 ^ 32 := by
      rw [pages, start]
      decide
    rw [Bool.eq_iff_iff, decide_eq_true_iff, Mmap.covers_iff_of_fits fits]
    simp only [pages, start]
  have ramCovers : Mmap.covers ⟨0, 0, (referenceSetup tables lastAddress modules bytes).ramSize,
      .kernel⟩ address = decide (address.toNat < tables * 4194304) := by
    simp [Mmap.covers, count]
  rw [mappedBy, maps, List.find?_cons, List.find?_cons, fbCovers, ramCovers]
  by_cases inFb : 0xe0000000 ≤ address.toNat ∧ address.toNat < 0xe0400000
  · rw [decide_eq_true inFb, if_pos inFb]
    simp
  · rw [decide_eq_false inFb, if_neg inFb]
    by_cases inRam : address.toNat < tables * 4194304
    · rw [decide_eq_true inRam, if_pos inRam]
      simp
    · rw [decide_eq_false inRam, if_neg inRam]
      rfl

private theorem referencePagedir_maps (privilege : Privilege) (address : BitVec 32) :
    translate referenceTables (referencePagedir tables privilege) address =
      mappedBy ((referenceSetup tables lastAddress modules bytes).mmaps privilege) address := by
  have bound := address.isLt
  have index := addrToPde_toNat address
  rw [referenceSetup_mappedBy few]
  by_cases inRam : (addrToPde address).toNat < tables
  · have pde : referencePagedir tables privilege (addrToPde address) =
        ⟨true, true, true, 0x300 + (addrToPde address).setWidth 20⟩ := by
      rw [referencePagedir, if_pos inRam]
    have notFb : ∀ privilege, 0x300 + (addrToPde address).setWidth 20 ≠ fbTable privilege := by
      intro privilege equal
      have values := congrArg BitVec.toNat equal
      have below : (fbTable privilege).toNat < 0x300 := by cases privilege <;> decide
      rw [BitVec.toNat_add, BitVec.toNat_setWidth] at values
      change (0x300 + _) % 2 ^ 20 = _ at values
      omega
    have table : (0x300 + (addrToPde address).setWidth 20 - 0x300).setWidth 10 =
        addrToPde address := by
      rw [BitVec.add_comm, BitVec.add_sub_cancel, BitVec.setWidth_setWidth_of_le _ (by decide),
        BitVec.setWidth_eq]
    rw [if_neg (by omega), if_pos (by omega)]
    simp only [Memory.translate, pde, referenceTables, if_neg (notFb _), table, address_parts]
    rfl
  · by_cases inFb : addrToPde address = 0x380
    · have pde : referencePagedir tables privilege (addrToPde address) =
          ⟨true, true, true, fbTable privilege⟩ := by
        rw [referencePagedir, if_neg inRam, if_pos inFb]
      have parts := address_parts address
      rw [inFb] at index parts
      change 0x380 = _ at index
      change 0x380#10 ++ addrToPte address ++ pageOffset address = address at parts
      have entry : referenceTables (fbTable privilege) (addrToPte address) =
          ⟨true, true, privilege == .user, 0x380#10 ++ addrToPte address⟩ := by
        cases privilege <;> rfl
      rw [if_pos (by omega)]
      simp only [Memory.translate, pde, entry, parts]
      cases privilege <;> rfl
    · have pde : referencePagedir tables privilege (addrToPde address) = .null := by
        rw [referencePagedir, if_neg inRam, if_neg inFb]
      have notFb : (addrToPde address).toNat ≠ 0x380 := fun equal =>
        inFb (BitVec.eq_of_toNat_eq equal)
      rw [if_neg (by omega), if_neg (by omega)]
      simp only [Memory.translate, pde]
      rfl

theorem referenceSetup_wellFormed (tablesBelow : 0x500000 ≤ lastAddress)
    (lastBelow : lastAddress ≤ tables * 4194304)
    (modulesBelow : ∀ module ∈ modules,
      module.firstAddress.toNat + module.size.toNat ≤ lastAddress) :
    (referenceSetup tables lastAddress modules bytes).WellFormed := by
  have size : (referenceSetup tables lastAddress modules bytes).ramSize.toNat = tables * 4194304 :=
    referenceSetup_ramSize few
  have directory : ∀ privilege index, (referencePagedir tables privilege index).present = true →
      (referencePagedir tables privilege index).pagetableFrameNumber.toNat < 0x500 := by
    intro privilege index present
    simp only [referencePagedir] at present ⊢
    split at present
    next inRam =>
      rw [if_pos inRam, BitVec.toNat_add, BitVec.toNat_setWidth]
      change (0x300 + _) % 2 ^ 20 < _
      omega
    next notRam =>
      rw [if_neg notRam]
      split at present
      next inFb =>
        rw [if_pos inFb]
        cases privilege <;> decide
      next => cases present
  have tableFrame : ∀ privilege index,
      (referencePagedir tables privilege index).present = true →
      (referenceSetup tables lastAddress modules bytes).ram.frames
        (referencePagedir tables privilege index).pagetableFrameNumber = true := by
    intro privilege index present
    have below := directory privilege index present
    simp only [referenceSetup, Bool.or_eq_true, decide_eq_true_eq]
    omega
  constructor
  · exact kernelLayout_wellFormed
  · exact le_trans (show (0x2e3000 : Nat) ≤ 0x500000 by decide) tablesBelow
  · exact modulesBelow
  · rw [size]
    exact lastBelow
  · rw [size]
    change _ ≤ 0xe0000000
    omega
  · exact show (0xe0000000 : BitVec 32).toNat % 4096 = 0 by decide
  · exact show (0xe0000000 : BitVec 32).toNat + (pageCount 0x400000).toNat * 4096 ≤ 2 ^ 32 by decide
  · intro frame below
    simp only [referenceSetup, Bool.or_eq_true, decide_eq_true_eq] at below ⊢
    exact .inl below
  · intro frame beyond
    rw [size] at beyond
    simp only [referenceSetup, Bool.or_eq_true, decide_eq_true_eq]
    exact .inr beyond
  · exact tableFrame .user
  · exact tableFrame .kernel
  · exact referencePagedir_maps few .user
  · exact referencePagedir_maps few .kernel

end

/-! ## A machine with one program -/

def shellName : CString := ⟨"shell.exe".toList.map ch, by decide +kernel⟩

def noArguments : Arguments := ⟨0, [], rfl⟩

def lsName : CString := ⟨"ls".toList.map ch, by decide +kernel⟩

def lsArguments : Arguments := ⟨1, [⟨"ls".toList.map ch, by decide +kernel⟩], rfl⟩

/-- 64 MB of RAM and a shell of one byte, an `iret` that ends the task at once. -/
def shellMachine : Machine where
  toSetup := referenceSetup 16 0x501000 [⟨some shellName, 0x500000, 1⟩]
    fun address => if address = 0x500000 then 0xcf else 0
  wellFormed := referenceSetup_wellFormed (by decide) (by decide) (by decide) (by decide)

def shellStart : List Event :=
  .taskExec shellName noArguments :: (List.replicate 5 .copy ++ [.restore, .taskSwitch .zero])

private theorem shellStart_isSome :
    (execute (step shellMachine) (fun _ => true) (System.initial shellMachine) shellStart).isSome =
      true := by
  decide +kernel

def shellRunning : System :=
  (execute (step shellMachine) (fun _ => true) (System.initial shellMachine) shellStart).get
    shellStart_isSome

theorem shellRunning_reachable : Reachable shellMachine shellRunning :=
  ⟨shellStart, (run_of_execute (Option.some_get _).symm).widen fun _ _ => trivial⟩

end Yoctos.Tasks
