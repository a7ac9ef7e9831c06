import Yoctos.Tasks.Ownership
import Yoctos.Tasks.AddressSpace

/-! # What the page directories map

A task's directory shows its own pages from `TASK_VIRT_ADDR` on and the template
everywhere else. The template gives user code the framebuffer only.
-/

namespace Yoctos.Tasks

open Yoctos.Common Yoctos.Memory Yoctos.Transition

/-- The addresses a task sees, given what was allocated for it. -/
def Machine.view (machine : Machine) (grant : Grant) (address : BitVec 32) : Option Translation :=
  match grant.pages[(address - taskVirtAddr).toNat / 4096]? with
  | some page => some ⟨page ++ pageOffset address, true, true⟩
  | none =>
      if (address - taskVirtAddr).toNat / 4194304 < grant.tables.length then none
      else mappedBy machine.templateMmaps address

theorem mapTables_present {pagedir : PageDirectory} {virtAddr : BitVec 32} {tables : List Frame}
    {index : BitVec 10} (present : (mapTables pagedir virtAddr tables index).present = true) :
    (mapTables pagedir virtAddr tables index).pagetableFrameNumber ∈ tables ∨
      (mapTables pagedir virtAddr tables index = pagedir index ∧
        (pagedir index).present = true) := by
  cases found : tables[(index - addrToPde virtAddr).toNat]? with
  | some table =>
      simp only [mapTables, found]
      exact .inl (List.mem_of_getElem? found)
  | none =>
      simp only [mapTables, found] at present ⊢
      exact .inr ⟨trivial, present⟩

namespace Machine

variable (machine : Machine)

theorem ramSize_fits : machine.ramSize.toNat + 4095 < 2 ^ 32 := by
  have beyond := machine.wellFormed.fb_beyond
  have aligned := machine.wellFormed.fb_aligned
  have bound := machine.fbAddr.isLt
  omega

/-- User code reaches nothing but the framebuffer through the template. -/
theorem mappedBy_user {address : BitVec 32} {found : Translation}
    (maps : mappedBy machine.templateMmaps address = some found) (user : found.user = true) :
    machine.ramSize.toNat ≤ (addrToFrameNb found.physical).toNat * 4096 := by
  rw [mappedBy, Option.map_eq_some_iff] at maps
  rcases maps with ⟨call, called, rfl⟩
  have member := List.mem_of_find?_eq_some called
  have covers := List.find?_some called
  rcases List.mem_cons.mp member with rfl | member
  · have inFb := ((Mmap.covers_iff_of_fits machine.wellFormed.fb_fits address).mp covers).1
    have beyond := machine.wellFormed.fb_beyond
    have aligned := machine.wellFormed.fb_aligned
    change _ ≤ (addrToFrameNb (address - machine.fbAddr + machine.fbAddr)).toNat * 4096
    rw [BitVec.sub_add_cancel, addrToFrameNb_toNat]
    change machine.fbAddr.toNat ≤ _ at inFb
    omega
  · rw [List.mem_singleton.mp member] at user
    cases user

/-- Nothing is mapped for user code while the kernel's own directory is active. -/
theorem mappedBy_kernel {address : BitVec 32} {found : Translation}
    (maps : mappedBy machine.kernelMmaps address = some found) : found.user = false := by
  rw [mappedBy, Option.map_eq_some_iff] at maps
  rcases maps with ⟨call, called, rfl⟩
  rcases List.mem_pair.mp (List.mem_of_find?_eq_some called) with rfl | rfl <;> rfl

theorem mappedBy_ram {address : BitVec 32} (inRam : address.toNat < machine.ramSize.toNat) :
    mappedBy machine.templateMmaps address = some ⟨address, false, true⟩ := by
  have beyond := machine.wellFormed.fb_beyond
  have count := pageCount_toNat machine.ramSize_fits
  have notFb : Mmap.covers ⟨machine.fbAddr, machine.fbAddr, machine.fbSize, .user⟩ address =
      false := by
    rw [← Bool.not_eq_true, Mmap.covers_iff_of_fits machine.wellFormed.fb_fits]
    change ¬ (machine.fbAddr.toNat ≤ _ ∧ _)
    omega
  have ram : Mmap.covers ⟨0, 0, machine.ramSize, .kernel⟩ address = true := by
    have distance : (address - 0).toNat = address.toNat := by simp
    rw [Mmap.covers_iff, count, distance]
    omega
  rw [mappedBy, Setup.templateMmaps, Setup.mmaps, List.find?_cons, notFb, List.find?_cons, ram]
  simp

def templateEntry (table : Nat) : Pde :=
  machine.pagedirTempl (addrToPde taskVirtAddr + BitVec.ofNat 10 table)

/-- The template has no page table for `size` bytes at `TASK_VIRT_ADDR`. Where it
has one, the tables of the tasks are not their own: `paging_alloc` takes a table
only for an entry that has none. -/
def Unshared (size : BitVec 32) : Prop :=
  ∀ table < tableCount (pageCount size).toNat, (machine.templateEntry table).present = false

instance (size : BitVec 32) : Decidable (machine.Unshared size) :=
  inferInstanceAs (Decidable (∀ table < _, _))

/-- With more RAM the template has a page table for the first page already. -/
theorem Unshared.low {machine : Machine} {size : BitVec 32} (unshared : machine.Unshared size)
    (pages : 0 < (pageCount size).toNat) : machine.ramSize.toNat ≤ taskVirtAddr.toNat := by
  by_contra high
  have mapped := machine.mappedBy_ram (Nat.not_le.mp high)
  have absent := unshared 0 (by rw [tableCount]; omega)
  rw [← machine.wellFormed.templ_maps, Memory.translate] at mapped
  have first : addrToPde taskVirtAddr + BitVec.ofNat 10 0 = addrToPde taskVirtAddr := by simp
  rw [templateEntry, first] at absent
  rw [absent, Bool.false_and] at mapped
  cases mapped

end Machine

namespace Ownership

variable {machine : Machine} {system : System}

theorem task_table_taken (ownership : Ownership machine system) {slot : Slot}
    (member : slot ∈ system.created) {index : BitVec 10}
    (present : ((system.kernel.tasks slot).pagedir index).present = true) :
    system.kernel.ram.frames ((system.kernel.tasks slot).pagedir index).pagetableFrameNumber =
      true := by
  rw [ownership.pagedir slot member] at present ⊢
  rcases mapTables_present present with own | ⟨same, present⟩
  · exact ownership.taken member (List.mem_append_right _ own)
  · have template := machine.wellFormed.templ_tables index present
    rw [← same] at template
    exact (ownership.reserved _ template).1

theorem translate_task (ownership : Ownership machine system) {slot : Slot}
    (member : slot ∈ system.created) (address : BitVec 32) :
    translate system.kernel.ram.tables (system.kernel.tasks slot).pagedir address =
      machine.view (system.grant slot) address := by
  have kept : ∀ index, (machine.pagedirTempl index).present = true →
      (machine.pagedirTempl index).pagetableFrameNumber ∉ (system.grant slot).tables := by
    intro index present owned
    have template := machine.wellFormed.templ_tables index present
    exact (ownership.reserved _ template).2.1 slot member (List.mem_append_right _ owned)
  have same : translate system.kernel.ram.tables (system.kernel.tasks slot).pagedir address =
      translate (machine.mapping (system.grant slot)).ram.tables
        (machine.mapping (system.grant slot)).pagedir address := by
    rw [ownership.pagedir slot member]
    apply translate_congr
    intro index present
    rcases mapTables_present present with own | ⟨equal, present⟩
    · exact ownership.tables slot member _ own
    · have template := machine.wellFormed.templ_tables index present
      change system.kernel.ram.tables (mapTables _ _ _ index).pagetableFrameNumber =
        (Grant.apply _ _ _ _ _ _).ram.tables (mapTables _ _ _ index).pagetableFrameNumber
      rw [equal, Grant.apply_tables_of_not_mem (kept index present)]
      exact (ownership.reserved _ template).2.2
  have sized := ownership.sized slot member
  have nodup := ownership.tables_nodup member
  rw [same, Machine.view]
  by_cases inside : (address - taskVirtAddr).toNat / 4096 < (system.grant slot).pages.length
  · rw [List.getElem?_eq_getElem inside]
    exact Grant.translate_apply_inside taskVirtAddr_aligned sized nodup inside
  · rw [List.getElem?_eq_none (Nat.le_of_not_lt inside), ← machine.wellFormed.templ_maps]
    exact Grant.translate_apply_outside taskVirtAddr_aligned sized nodup kept
      (Nat.le_of_not_lt inside)

/-- What user code of a task reaches is a page of its own or the framebuffer. -/
theorem user_translation (ownership : Ownership machine system) {slot : Slot}
    (member : slot ∈ system.created) {address : BitVec 32} {found : Translation}
    (translated : translate system.kernel.ram.tables (system.kernel.tasks slot).pagedir address =
      some found) (user : found.user = true) :
    addrToFrameNb found.physical ∈ (system.grant slot).pages ∨
      machine.ramSize.toNat ≤ (addrToFrameNb found.physical).toNat * 4096 := by
  rw [ownership.translate_task member, Machine.view] at translated
  split at translated
  next page occurs =>
    cases translated
    rw [addrToFrameNb_append]
    exact .inl (List.mem_of_getElem? occurs)
  next =>
    split at translated
    next => cases translated
    next => exact .inr (machine.mappedBy_user translated user)

theorem translate_kernel (ownership : Ownership machine system) (address : BitVec 32) :
    translate system.kernel.ram.tables machine.kernelPagedir address =
      mappedBy machine.kernelMmaps address := by
  rw [← machine.wellFormed.kernel_maps]
  apply translate_congr
  intro index present
  exact (ownership.reserved _ (machine.wellFormed.kernel_tables index present)).2.2

end Ownership

/-! ## The active directory -/

theorem AddressSpaces.active_cases {machine : Machine} {system : System}
    (spaces : AddressSpaces machine system) :
    (∃ slot ∈ system.created, system.kernel.cpu.cr3 = machine.layout.task slot) ∨
      system.kernel.cpu.cr3 = machine.layout.kernelPagedir := by
  rw [spaces.cr3, System.pagedir]
  split
  next window copying =>
    exact .inl ⟨window.slot, by simp [System.created_of_copying copying], rfl⟩
  next =>
    cases stacked : system.stack with
    | nil => exact .inr rfl
    | cons activation rest =>
        exact .inl ⟨activation.slot, System.mem_created_of_suffix (by rw [stacked]), rfl⟩

theorem Kernel.translate_task {machine : Machine} {kernel : Kernel} {slot : Slot}
    (active : kernel.cpu.cr3 = machine.layout.task slot) (address : BitVec 32) :
    kernel.translate machine address =
      Memory.translate kernel.ram.tables (kernel.tasks slot).pagedir address := by
  rw [Kernel.translate, active, Kernel.pagedirAt, machine.wellFormed.layout.slotAt_task]
  rfl

theorem Kernel.translate_kernelPagedir {machine : Machine} {kernel : Kernel}
    (active : kernel.cpu.cr3 = machine.layout.kernelPagedir) (address : BitVec 32) :
    kernel.translate machine address =
      Memory.translate kernel.ram.tables machine.kernelPagedir address := by
  rw [Kernel.translate, active, Kernel.pagedirAt, machine.wellFormed.layout.slotAt_kernelPagedir]
  simp

theorem Ownership.beyond_taken {machine : Machine} {system : System}
    (ownership : Ownership machine system) {frame : Frame}
    (beyond : machine.ramSize.toNat ≤ frame.toNat * 4096) :
    system.kernel.ram.frames frame = true :=
  (ownership.reserved frame (machine.wellFormed.frames_beyond frame beyond)).1

theorem user_frame_taken {machine : Machine} {system : System}
    (reachable : Reachable machine system)
    {address : BitVec 32} {found : Translation}
    (translated : system.kernel.translate machine address = some found)
    (user : found.user = true) :
    system.kernel.ram.frames (addrToFrameNb found.physical) = true := by
  have ownership := Ownership.of_reachable reachable
  rcases (AddressSpaces.of_reachable reachable).active_cases with ⟨slot, member, active⟩ | active
  · rw [Kernel.translate_task active] at translated
    rcases ownership.user_translation member translated user with own | beyond
    · exact ownership.taken member (List.mem_append_left _ own)
    · exact ownership.beyond_taken beyond
  · rw [Kernel.translate_kernelPagedir active, ownership.translate_kernel] at translated
    cases (machine.mappedBy_kernel translated).symm.trans user

end Yoctos.Tasks
