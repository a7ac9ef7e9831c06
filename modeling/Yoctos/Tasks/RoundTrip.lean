import Yoctos.Tasks.Loader

/-! # The loader's round trip

What the copying loop wrote is what the new task finds at `TASK_VIRT_ADDR`, and
its caller finds its own memory as it was.
-/

namespace Yoctos.Tasks

open Yoctos.Common Yoctos.Memory Yoctos.Stores Yoctos.Transition

/-! ## The pages of a task -/

/-- Where an address of the pages in `grant` lies in physical memory. -/
def physicalIn (grant : Grant) (address : BitVec 32) : BitVec 32 :=
  (grant.pages[(address - taskVirtAddr).toNat / 4096]?).getD 0 ++ pageOffset address

theorem offset_toNat {index : Nat} (fits : index < 2 ^ 32) :
    (taskVirtAddr + BitVec.ofNat 32 index - taskVirtAddr).toNat = index := by
  rw [BitVec.add_comm, BitVec.add_sub_cancel, BitVec.toNat_ofNat, Nat.mod_eq_of_lt fits]

private theorem pageOffset_add (index : Nat) :
    (pageOffset (taskVirtAddr + BitVec.ofNat 32 index)).toNat = index % 4096 := by
  have start : taskVirtAddr.toNat = 0x40000000 := rfl
  rw [pageOffset_toNat, BitVec.toNat_add, BitVec.toNat_ofNat]
  omega

section

variable {grant : Grant} {index : Nat} (inside : index < grant.pages.length * 4096)
variable (fits : taskVirtAddr.toNat + index < 2 ^ 32)

include inside fits

private theorem physicalIn_eq : ∃ page ∈ grant.pages, grant.pages[index / 4096]? = some page ∧
    physicalIn grant (taskVirtAddr + BitVec.ofNat 32 index) =
      page ++ pageOffset (taskVirtAddr + BitVec.ofNat 32 index) := by
  have occurs : index / 4096 < grant.pages.length := by omega
  have found := List.getElem?_eq_getElem occurs
  refine ⟨_, List.getElem_mem occurs, found, ?_⟩
  rw [physicalIn, offset_toNat (by omega), found, Option.getD_some]

private theorem view_inside (machine : Machine) :
    machine.view grant (taskVirtAddr + BitVec.ofNat 32 index) =
      some ⟨physicalIn grant (taskVirtAddr + BitVec.ofNat 32 index), true, true⟩ := by
  rcases physicalIn_eq inside fits with ⟨page, _, found, physical⟩
  rw [Machine.view, offset_toNat (by omega), found, physical]

end

private theorem physicalIn_injective {grant : Grant} (nodup : grant.pages.Nodup) {left right : Nat}
    (leftInside : left < grant.pages.length * 4096)
    (rightInside : right < grant.pages.length * 4096)
    (leftFits : taskVirtAddr.toNat + left < 2 ^ 32)
    (rightFits : taskVirtAddr.toNat + right < 2 ^ 32)
    (equal : physicalIn grant (taskVirtAddr + BitVec.ofNat 32 left) =
      physicalIn grant (taskVirtAddr + BitVec.ofNat 32 right)) : left = right := by
  rcases physicalIn_eq leftInside leftFits with ⟨leftPage, _, leftFound, leftPhysical⟩
  rcases physicalIn_eq rightInside rightFits with ⟨rightPage, _, rightFound, rightPhysical⟩
  rw [leftPhysical, rightPhysical] at equal
  have offsets := congrArg (fun address => (pageOffset address).toNat) equal
  simp only [pageOffset_append, pageOffset_add] at offsets
  have pages := congrArg addrToFrameNb equal
  rw [addrToFrameNb_append, addrToFrameNb_append] at pages
  have leftOccurs : left / 4096 < grant.pages.length := by omega
  have quotients : left / 4096 = right / 4096 := by
    apply (List.getElem?_inj leftOccurs nodup).mp
    rw [leftFound, rightFound, pages]
  omega

/-! ## What the loader should do -/

def Kernel.userByte (kernel : Kernel) (slot : Slot) (address : BitVec 32) : Option UInt8 :=
  (Memory.translate kernel.ram.tables (kernel.tasks slot).pagedir address).bind fun found =>
    if found.user then some (kernel.ram.bytes found.physical) else none

def Kernel.userMemory (kernel : Kernel) (slot : Slot) (address : Nat) : UInt8 :=
  (kernel.userByte slot (BitVec.ofNat 32 address)).getD 0

def loadGrant (machine : Machine) (kernel : Kernel) (filename : CString) (args : Arguments) :
    Grant :=
  grantFor machine kernel (moduleSizeByName machine kernel filename) (argsSize args)

/-- What a program, its arguments and the memory have to be like. -/
structure Loadable (machine : Machine) (kernel : Kernel) (filename : CString) (args : Arguments) :
    Prop where
  size : (moduleSizeByName machine kernel filename).toNat + taskStackSize.toNat +
    (argsSize args).toNat < 2 ^ 31
  count : 0 ≤ args.argc.toInt ∧ args.argc.toInt ≤ maxArgs
  lengths : ∀ s ∈ args.argv, strlen s ≤ maxArgsLength - 2
  /-- `paging_alloc` maps as many pages as it was asked for. -/
  granted : (loadGrant machine kernel filename args).pages.length =
    (pageCount (requestedSize (moduleSizeByName machine kernel filename) (argsSize args))).toNat

/-- The new task in `slot` of `next` finds the image, the arguments and its
stack; the caller's address space is as it was in `kernel`. -/
structure RoundTrip (machine : Machine) (kernel : Kernel) (filename : CString) (args : Arguments)
    (slot : Slot) (next : Kernel) : Prop where
  image : ∀ index, (occurs : index < (loadImage machine kernel filename args).length) →
    next.userByte slot (taskVirtAddr + BitVec.ofNat 32 index) =
      some (loadImage machine kernel filename args)[index]
  decoded : decodeArguments (next.userMemory slot)
    (taskVirtAddr.toNat + (moduleSizeByName machine kernel filename).toNat) =
      (args.argc, args.argv.map CString.bytes)
  /-- The stack area starts where the image ends. -/
  esp : (next.tasks slot).tss.registers.esp.toNat = taskVirtAddr.toNat +
    (loadImage machine kernel filename args).length + taskStackSize.toNat
  ebp : (next.tasks slot).tss.registers.ebp = (next.tasks slot).tss.registers.esp
  mapped : ∀ address : BitVec 32, taskVirtAddr.toNat ≤ address.toNat →
    address.toNat < (next.tasks slot).tss.registers.esp.toNat →
    ∃ page ∈ (loadGrant machine kernel filename args).pages,
      Memory.translate next.ram.tables (next.tasks slot).pagedir address =
        some ⟨page ++ pageOffset address, true, true⟩
  cpu : next.cpu = kernel.cpu
  callerMapping : ∀ address, next.translate machine address = kernel.translate machine address
  callerBytes : ∀ address found, kernel.translate machine address = some found →
    found.user = true → next.ram.bytes found.physical = kernel.ram.bytes found.physical
  allocated : ∀ physical, kernel.ram.frames (addrToFrameNb physical) = true →
    next.ram.bytes physical = kernel.ram.bytes physical

/-! ## Sizes -/

theorem Loadable.fit {machine : Machine} {kernel : Kernel} {filename : CString} {args : Arguments}
    (loadable : Loadable machine kernel filename args) : args.Fit :=
  args.fit_iff.mpr ⟨loadable.count.2, loadable.lengths⟩

private theorem taskStackSize_toNat : taskStackSize.toNat = 2097152 := by decide

private theorem requestedSize_toNat {addrSpaceSize argsSize : BitVec 32}
    (size : addrSpaceSize.toNat + 2097152 + argsSize.toNat < 2 ^ 31)
    (short : argsSize.toNat ≤ 249) :
    (requestedSize addrSpaceSize argsSize).toNat =
      addrSpaceSize.toNat + argsSize.toNat + 2097152 + argsSize.toNat := by
  rw [requestedSize, BitVec.toNat_add, BitVec.toNat_add, BitVec.toNat_add, taskStackSize_toNat]
  omega

/-- The RAM, and with it every module, ends where the pages of the task begin. -/
theorem Loadable.low {machine : Machine} {kernel : Kernel} {filename : CString} {args : Arguments}
    (loadable : Loadable machine kernel filename args)
    (unshared : machine.Unshared
      (requestedSize (moduleSizeByName machine kernel filename) (argsSize args))) :
    machine.ramSize.toNat ≤ taskVirtAddr.toNat := by
  have size := loadable.size
  rw [taskStackSize_toNat] at size
  have sized := argsSize_toNat loadable.fit
  have requested := requestedSize_toNat size (by omega)
  apply unshared.low
  rw [pageCount_toNat (by omega), requested]
  omega

theorem Loadable.room {machine : Machine} {kernel : Kernel} {filename : CString} {args : Arguments}
    (loadable : Loadable machine kernel filename args) :
    (loadImage machine kernel filename args).length =
        (moduleSizeByName machine kernel filename).toNat + (argsSize args).toNat ∧
      (loadImage machine kernel filename args).length + 2097152 ≤
        (loadGrant machine kernel filename args).pages.length * 4096 ∧
      taskVirtAddr.toNat + (loadGrant machine kernel filename args).pages.length * 4096 <
        2 ^ 32 := by
  have size := loadable.size
  rw [taskStackSize_toNat] at size
  rcases argsSize_toNat loadable.fit with ⟨argsLength, short⟩
  have requested := requestedSize_toNat size (by omega)
  have fits : (requestedSize (moduleSizeByName machine kernel filename) (argsSize args)).toNat +
      4095 < 2 ^ 32 := by omega
  have start : taskVirtAddr.toNat = 0x40000000 := rfl
  rw [loadable.granted, pageCount_toNat fits, requested, loadImage_length, ← argsLength, start]
  omega

/-! ## The new task when copying begins -/

structure Opening (machine : Machine) (system : System) (filename : CString) (args : Arguments)
    (opened : Kernel) (window : Window) : Prop where
  created : Ownership.Created machine system
    { system with kernel := opened, phase := .copying window }
    window.slot (loadGrant machine system.kernel filename args)
  view : ∀ address, opened.translate machine address =
    machine.view (loadGrant machine system.kernel filename args) address
  slotView : ∀ address,
    Memory.translate opened.ram.tables (opened.tasks window.slot).pagedir address =
      machine.view (loadGrant machine system.kernel filename args) address
  tasks : ∀ other ∈ system.created, opened.tasks other = system.kernel.tasks other
  registers : (opened.tasks window.slot).tss.registers = initialRegisters taskVirtAddr
    (taskStackSize + argsSize args + moduleSizeByName machine system.kernel filename)
  cpu : (opened.loadPagedir window.pagedir).cpu = system.kernel.cpu
  pending : window.pending = copies (writeAll machine.stack (tmpArgvStores 0 args.argv))
    (moduleAddrByName machine system.kernel filename)
    (moduleSizeByName machine system.kernel filename) args

section

variable {machine : Machine} {system : System} {filename : CString} {args : Arguments}
variable {opened copied : Kernel} {window : Window}

theorem opening_of_begun (reachable : Reachable machine system) (running : system.phase = .running)
    (begun : taskLoadBegin machine system.kernel filename args = some (.copying opened window)) :
    Opening machine system filename args opened window := by
  have opens : step machine system (.taskExec filename args) =
      some { system with kernel := opened, phase := .copying window } := by
    simp only [step, running, begun, Option.map_some]
  have ownership := Ownership.of_reachable (reachable.step_to opens)
  have spaces := AddressSpaces.of_reachable (reachable.step_to opens)
  have created := (Ownership.of_reachable reachable).created_of_begun (.of_reachable reachable)
    running begun
  have member : window.slot ∈
      System.created { system with kernel := opened, phase := .copying window } := by
    simp [System.created_begun running]
  have slotView := ownership.translate_task member
  rw [created.grantNew] at slotView
  have view : ∀ address, opened.translate machine address =
      machine.view (loadGrant machine system.kernel filename args) address := by
    intro address
    have active : opened.cpu.cr3 = machine.layout.task window.slot := spaces.cr3
    rw [Kernel.translate, active, Kernel.pagedirAt, machine.wellFormed.layout.slotAt_task]
    exact slotView address
  have begun := Begun.of_copying begun
  refine ⟨created, view, slotView, fun other old => ?_, ?_, ?_, begun.pending⟩
  · exact begun.others other fun same => created.new (same ▸ old)
  · rw [begun.created]
    exact createdTask_registers ..
  · rw [Kernel.loadPagedir, begun.cpu, begun.saved]

namespace Opening

variable (opening : Opening machine system filename args opened window)

include opening

theorem bytes {physical : BitVec 32}
    (outside : addrToFrameNb physical ∉ (loadGrant machine system.kernel filename args).pages) :
    opened.ram.bytes physical = system.kernel.ram.bytes physical := by
  have ram := congrArg Ram.bytes opening.created.ram
  exact (congrFun ram physical).trans (if_neg outside)

theorem not_page {frame : Frame} (taken : system.kernel.ram.frames frame = true) :
    frame ∉ (loadGrant machine system.kernel filename args).pages := fun page =>
  opening.created.taken_not_granted taken (List.mem_append_left _ page)

/-- The module is read where the boot loader left it. -/
theorem module_source (reachable : Reachable machine system)
    (loadable : Loadable machine system.kernel filename args)
    (low : machine.ramSize.toNat ≤ taskVirtAddr.toNat) {index : Nat} {found : Translation}
    (inside : index < (moduleSizeByName machine system.kernel filename).toNat)
    (translated : opened.translate machine
      (moduleAddrByName machine system.kernel filename + BitVec.ofNat 32 index) = some found) :
    found.physical = moduleAddrByName machine system.kernel filename + BitVec.ofNat 32 index ∧
      addrToFrameNb found.physical ∉ (loadGrant machine system.kernel filename args).pages := by
  have below : (moduleAddrByName machine system.kernel filename).toNat +
      (moduleSizeByName machine system.kernel filename).toNat ≤ machine.modulesLastAddress := by
    have size := loadable.size
    rw [moduleSizeByName] at size ⊢
    rw [moduleAddrByName]
    split
    next missing =>
      rw [missing] at size
      exact absurd size (by
        rw [taskStackSize_toNat]
        change ¬ (2 ^ 32 - 1 + 2097152 + _ < 2 ^ 31)
        omega)
    next module named =>
      exact machine.wellFormed.modules_below module (List.mem_of_find?_eq_some named)
  have inRam := machine.wellFormed.last_in_ram
  have room := loadable.room
  have start : taskVirtAddr.toNat = 0x40000000 := rfl
  have ramBound := machine.ramSize_fits
  have position : (moduleAddrByName machine system.kernel filename +
      BitVec.ofNat 32 index).toNat =
      (moduleAddrByName machine system.kernel filename).toNat + index := by
    rw [BitVec.toNat_add, BitVec.toNat_ofNat]
    omega
  have notPage : ¬ (moduleAddrByName machine system.kernel filename + BitVec.ofNat 32 index -
      taskVirtAddr).toNat / 4096 <
        (loadGrant machine system.kernel filename args).pages.length := by
    rw [BitVec.toNat_sub, position]
    omega
  rw [opening.view, Machine.view, List.getElem?_eq_none (Nat.le_of_not_lt notPage)] at translated
  simp only at translated
  split at translated
  next => cases translated
  next =>
    rw [machine.mappedBy_ram (by omega)] at translated
    cases translated
    refine ⟨rfl, opening.not_page ?_⟩
    have reserved := machine.wellFormed.frames_below
      (addrToFrameNb (moduleAddrByName machine system.kernel filename + BitVec.ofNat 32 index))
      (by rw [addrToFrameNb_toNat, position]; omega)
    exact ((Ownership.of_reachable reachable).reserved _ reserved).1

private theorem copied_eq (reachable : Reachable machine system)
    (loadable : Loadable machine system.kernel filename args)
    (low : machine.ramSize.toNat ≤ taskVirtAddr.toNat)
    (folded : window.pending.foldlM (copyByte machine) opened = some copied) :
    copied = opened.withBytes (writeAll opened.ram.bytes
      ((memcpy taskVirtAddr (loadImage machine system.kernel filename args)).map
        (Prod.map (physicalIn (loadGrant machine system.kernel filename args)) id))) := by
  have room := loadable.room
  rw [← copies_stores machine system.kernel filename loadable.lengths, ← opening.pending]
  rw [opening.pending] at folded
  have agree : ∀ physical : BitVec 32,
      ¬ addrToFrameNb physical ∈ (loadGrant machine system.kernel filename args).pages →
      opened.ram.bytes physical = system.kernel.ram.bytes physical := fun _ => opening.bytes
  rw [opening.pending]
  refine foldlM_copyByte (fun copy member found translated => ?_)
    (fun copy member address found source translated => ?_) agree folded
  · rcases copies_dst loadable.lengths member with ⟨index, occurs, dst⟩
    have inside : index < (loadGrant machine system.kernel filename args).pages.length * 4096 := by
      omega
    have fits : taskVirtAddr.toNat + index < 2 ^ 32 := by omega
    rw [dst, opening.view, view_inside inside fits] at translated
    rcases physicalIn_eq inside fits with ⟨page, member, _, physical⟩
    cases translated
    rw [dst]
    refine ⟨rfl, ?_⟩
    change addrToFrameNb (physicalIn _ _) ∈ _
    rwa [physical, addrToFrameNb_append]
  · rcases copies_memory member source with ⟨index, inside, rfl⟩
    exact opening.module_source reachable loadable low inside translated

private theorem writeAll_outside {physical : BitVec 32}
    (loadable : Loadable machine system.kernel filename args)
    (outside : addrToFrameNb physical ∉ (loadGrant machine system.kernel filename args).pages) :
    writeAll opened.ram.bytes
      ((memcpy taskVirtAddr (loadImage machine system.kernel filename args)).map
        (Prod.map (physicalIn (loadGrant machine system.kernel filename args)) id)) physical =
      system.kernel.ram.bytes physical := by
  have room := loadable.room
  rw [writeAll_of_not_mem, opening.bytes outside]
  intro member
  rw [List.map_map] at member
  rcases List.mem_map.mp member with ⟨store, stored, equal⟩
  have position : store.1 ∈ _ := List.mem_map_of_mem stored
  rw [memcpy_fst] at position
  rcases List.mem_map.mp position with ⟨index, occurs, dst⟩
  have below := List.mem_range.mp occurs
  have inside : index < (loadGrant machine system.kernel filename args).pages.length * 4096 := by
    omega
  rcases physicalIn_eq inside (by omega) with ⟨page, member, _, physicalEq⟩
  apply outside
  rw [← equal]
  change addrToFrameNb (physicalIn _ store.1) ∈ _
  rwa [← dst, physicalEq, addrToFrameNb_append]

private theorem writeAll_inside {index : Nat}
    (loadable : Loadable machine system.kernel filename args)
    (occurs : index < (loadImage machine system.kernel filename args).length) :
    writeAll opened.ram.bytes
      ((memcpy taskVirtAddr (loadImage machine system.kernel filename args)).map
        (Prod.map (physicalIn (loadGrant machine system.kernel filename args)) id))
      (physicalIn (loadGrant machine system.kernel filename args)
        (taskVirtAddr + BitVec.ofNat 32 index)) =
      (loadImage machine system.kernel filename args)[index] := by
  have room := loadable.room
  have nodup := opening.created.valid.nodup
  rw [Grant.all, List.nodup_append] at nodup
  apply writeAll_of_mem
  · have positions : ((memcpy taskVirtAddr (loadImage machine system.kernel filename args)).map
        (Prod.map (physicalIn (loadGrant machine system.kernel filename args)) id)).map Prod.fst =
        (List.range (loadImage machine system.kernel filename args).length).map fun index =>
          physicalIn (loadGrant machine system.kernel filename args)
            (taskVirtAddr + BitVec.ofNat 32 index) := by
      rw [List.map_map]
      change List.map (physicalIn _ ∘ Prod.fst) _ = _
      rw [← List.map_map, memcpy_fst, List.map_map]
      rfl
    rw [positions]
    refine List.Nodup.map_on (fun left leftMember right rightMember equal => ?_) List.nodup_range
    have leftBelow := List.mem_range.mp leftMember
    have rightBelow := List.mem_range.mp rightMember
    exact physicalIn_injective nodup.1 (by omega) (by omega) (by omega) (by omega) equal
  · exact List.mem_map.mpr ⟨_, mem_memcpy taskVirtAddr _ occurs, rfl⟩

end Opening

private theorem callerMapping (reachable : Reachable machine system)
    (opening : Opening machine system filename args opened window) {next : Kernel}
    (cpu : next.cpu = system.kernel.cpu) (tasks : next.tasks = opened.tasks)
    (tables : next.ram.tables = opened.ram.tables) (address : BitVec 32) :
    next.translate machine address = system.kernel.translate machine address := by
  have ownership := Ownership.of_reachable reachable
  rcases (AddressSpaces.of_reachable reachable).active_cases with ⟨slot, member, active⟩ | active
  · rw [Kernel.translate_task active, Kernel.translate_task (cpu ▸ active), tasks, tables,
      opening.tasks slot member]
    apply translate_congr
    intro index present
    exact opening.created.tables_of_taken (ownership.task_table_taken member present)
  · rw [Kernel.translate_kernelPagedir active, Kernel.translate_kernelPagedir (cpu ▸ active),
      tables]
    apply translate_congr
    intro index present
    have reserved := machine.wellFormed.kernel_tables index present
    exact opening.created.tables_of_taken (ownership.reserved _ reserved).1

private theorem roundTrip_of_folded (reachable : Reachable machine system)
    (running : system.phase = .running)
    (begun : taskLoadBegin machine system.kernel filename args = some (.copying opened window))
    (folded : window.pending.foldlM (copyByte machine) opened = some copied)
    (loadable : Loadable machine system.kernel filename args)
    (low : machine.ramSize.toNat ≤ taskVirtAddr.toNat) :
    RoundTrip machine system.kernel filename args window.slot
      (copied.loadPagedir window.pagedir) := by
  have opening := opening_of_begun reachable running begun
  have room := loadable.room
  have start : taskVirtAddr.toNat = 0x40000000 := rfl
  have copiedEq := opening.copied_eq reachable loadable low folded
  have slotView : ∀ address, Memory.translate copied.ram.tables
      (copied.tasks window.slot).pagedir address =
      machine.view (loadGrant machine system.kernel filename args) address := by
    rw [copiedEq]
    exact opening.slotView
  have image : ∀ index, (occurs : index < (loadImage machine system.kernel filename args).length) →
      (copied.loadPagedir window.pagedir).userByte window.slot
        (taskVirtAddr + BitVec.ofNat 32 index) =
        some (loadImage machine system.kernel filename args)[index] := by
    intro index occurs
    have found := (slotView (taskVirtAddr + BitVec.ofNat 32 index)).trans
      (view_inside (by omega) (by omega) machine)
    change (Memory.translate copied.ram.tables (copied.tasks window.slot).pagedir _).bind _ = _
    rw [found]
    change some (copied.ram.bytes _) = _
    rw [copiedEq]
    exact congrArg some (opening.writeAll_inside loadable occurs)
  have holds : Holds ((copied.loadPagedir window.pagedir).userMemory window.slot)
      taskVirtAddr.toNat (loadImage machine system.kernel filename args) := by
    intro index occurs
    rw [Kernel.userMemory, BitVec.ofNat_add, BitVec.ofNat_toNat, BitVec.setWidth_eq,
      image index occurs]
    rfl
  have arguments := holds
  rw [loadImage, List.append_assoc, holds_append, moduleImage, List.length_map,
    List.length_range] at arguments
  have tasks : copied.tasks = opened.tasks := by rw [copiedEq]; rfl
  have cpu : (copied.loadPagedir window.pagedir).cpu = system.kernel.cpu := by
    rw [copiedEq]
    exact opening.cpu
  have outside : ∀ physical, system.kernel.ram.frames (addrToFrameNb physical) = true →
      (copied.loadPagedir window.pagedir).ram.bytes physical =
        system.kernel.ram.bytes physical := by
    intro physical taken
    rw [copiedEq]
    exact opening.writeAll_outside loadable (opening.not_page taken)
  have registers : ((copied.loadPagedir window.pagedir).tasks window.slot).tss.registers =
      initialRegisters taskVirtAddr
        (taskStackSize + argsSize args + moduleSizeByName machine system.kernel filename) := by
    change (copied.tasks window.slot).tss.registers = _
    rw [tasks]
    exact opening.registers
  have esp : ((copied.loadPagedir window.pagedir).tasks window.slot).tss.registers.esp.toNat =
      taskVirtAddr.toNat + (loadImage machine system.kernel filename args).length +
        taskStackSize.toNat := by
    rw [registers]
    change (taskVirtAddr + (taskStackSize + argsSize args +
      moduleSizeByName machine system.kernel filename)).toNat = _
    rw [BitVec.toNat_add, BitVec.toNat_add, BitVec.toNat_add, room.1, taskStackSize_toNat]
    omega
  refine ⟨image, decodeArguments_of_holds loadable.lengths arguments.2, esp, ?_, ?_, cpu, ?_, ?_,
    outside⟩
  · rw [registers]
    rfl
  · intro address above below
    rw [esp, taskStackSize_toNat] at below
    have position : address =
        taskVirtAddr + BitVec.ofNat 32 (address.toNat - taskVirtAddr.toNat) := by
      apply BitVec.eq_of_toNat_eq
      rw [BitVec.toNat_add, BitVec.toNat_ofNat]
      omega
    have inside : address.toNat - taskVirtAddr.toNat <
        (loadGrant machine system.kernel filename args).pages.length * 4096 := by omega
    rcases physicalIn_eq inside (by omega) with ⟨page, member, _, physical⟩
    refine ⟨page, member, (slotView address).trans ?_⟩
    have found := view_inside inside (by omega) machine
    rw [physical, ← position] at found
    exact found
  · exact callerMapping reachable opening cpu tasks (by rw [copiedEq]; rfl)
  · intro address found translated user
    exact outside _ (user_frame_taken reachable translated user)

end

/-- After a successful `task_load` the new task finds its program, its arguments
and its stack, when its pages are in page tables of its own. -/
theorem taskLoad_roundTrip {machine : Machine} {system : System} {filename : CString}
    {args : Arguments} {slot : Slot} {next : Kernel} (reachable : Reachable machine system)
    (running : system.phase = .running)
    (loaded : taskLoad machine system.kernel filename args = some (some slot, next))
    (loadable : Loadable machine system.kernel filename args)
    (unshared : machine.Unshared
      (requestedSize (moduleSizeByName machine system.kernel filename) (argsSize args))) :
    RoundTrip machine system.kernel filename args slot next := by
  rcases taskLoad_some loaded with ⟨opened, window, copied, begun, folded, rfl, rfl⟩
  exact roundTrip_of_folded reachable running begun folded loadable (loadable.low unshared)

theorem taskLoad_roundTrip_ls : ∃ next,
    taskLoad shellMachine (tasksInit shellMachine) shellName lsArguments = some (some 0, next) ∧
    RoundTrip shellMachine (tasksInit shellMachine) shellName lsArguments 0 next := by
  have slot : (taskLoad shellMachine (tasksInit shellMachine) shellName lsArguments).map Prod.fst =
      some (some 0) := by decide +kernel
  rcases Option.map_eq_some_iff.mp slot with ⟨⟨_, next⟩, loaded, rfl⟩
  refine ⟨next, loaded, taskLoad_roundTrip .refl rfl loaded ⟨?_, ?_, ?_, ?_⟩ ?_⟩
  all_goals decide +kernel

def largeMachine : Machine where
  toSetup := referenceSetup 512 0x40001000 [⟨some shellName, 0x40000000, 1⟩]
    fun address => if address = 0x40000000 then 0xcf else 0
  wellFormed := referenceSetup_wellFormed (by decide) (by decide) (by decide) (by decide)

/-- There the copy reads the task's own page instead of the module. -/
theorem not_taskLoad_roundTrip :
    ¬ ∀ (machine : Machine) (system : System) (filename : CString) (args : Arguments) (slot : Slot)
      (next : Kernel), Reachable machine system → system.phase = .running →
      taskLoad machine system.kernel filename args = some (some slot, next) →
      Loadable machine system.kernel filename args →
      RoundTrip machine system.kernel filename args slot next := by
  intro always
  have byte : ((taskLoad largeMachine (tasksInit largeMachine) shellName noArguments).bind
      fun result => result.1.bind fun slot => result.2.userByte slot taskVirtAddr) = some 0 := by
    decide +kernel
  rcases Option.bind_eq_some_iff.mp byte with ⟨⟨slot, next⟩, loaded, found⟩
  rcases Option.bind_eq_some_iff.mp found with ⟨slot, rfl, found⟩
  have loadable : Loadable largeMachine (tasksInit largeMachine) shellName noArguments := by
    refine ⟨?_, ?_, ?_, ?_⟩
    all_goals decide +kernel
  have trip : RoundTrip largeMachine (tasksInit largeMachine) shellName noArguments slot next :=
    always largeMachine (System.initial largeMachine) shellName noArguments slot next .refl rfl
      loaded loadable
  have first := trip.image 0 (by decide +kernel)
  rw [BitVec.add_zero, found] at first
  have stored : (loadImage largeMachine (tasksInit largeMachine) shellName noArguments)[0]? =
      some 0xcf := by decide +kernel
  rw [List.getElem?_eq_getElem (by decide +kernel), ← first] at stored
  cases stored

end Yoctos.Tasks
