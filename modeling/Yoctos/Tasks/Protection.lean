import Yoctos.Tasks.RoundTrip

/-! # What a call of `task_exec` leaves alone

Nothing that was allocated before the call is written while it lasts: the loader
and the programs it starts reach the new tasks' pages and the framebuffer only.
The RAM must end where the pages of a task begin, or its identity mapping shows
through the gaps that a short allocation leaves.
-/

namespace Yoctos.Tasks

open Yoctos.Common Yoctos.Memory Yoctos.Stores Yoctos.Transition

/-! ## Where `task_load` copies to -/

private theorem length_stringAt_le {memory : Nat → UInt8} {address length fuel : Nat}
    (terminated : memory (address + length) = 0) :
    (stringAt memory address fuel).length ≤ length := by
  induction fuel generalizing address length with
  | zero => exact Nat.zero_le _
  | succ fuel induction =>
      rw [stringAt]
      split
      next => exact Nat.zero_le _
      next nonzero =>
        cases length with
        | zero => exact absurd terminated nonzero
        | succ length =>
            rw [List.length_cons]
            apply Nat.succ_le_succ
            apply induction
            rwa [Nat.add_right_comm, Nat.add_assoc]

/-- The last argument's terminator is inside `tmp_argv` when all stores are, and
ends every row before it. -/
theorem exists_terminator {args : Arguments} (stays : staysInTmpArgv args = true)
    (memory : Nat → UInt8) {i : Nat} (counted : i < args.argv.length) :
    ∃ last, i * maxArgsLength ≤ last ∧ last < sizeofTmpArgv ∧
      writeAll memory (tmpArgvStores 0 args.argv) last = 0 := by
  have split : ∀ (argv : List CString) (s : CString) (first : Nat),
      tmpArgvStores first (argv ++ [s]) =
        tmpArgvStores first argv ++ rowStores (first + argv.length) s := by
    intro argv s
    induction argv with
    | nil => intro first; simp [tmpArgvStores]
    | cons head tail induction =>
        intro first
        rw [List.cons_append, tmpArgvStores, induction, tmpArgvStores, List.append_assoc,
          List.length_cons, Nat.add_assoc, Nat.add_comm 1]
  rw [staysInTmpArgv, List.all_eq_true] at stays
  rcases List.eq_nil_or_concat args.argv with none | ⟨argv, s, some⟩
  · rw [none] at counted
    cases counted
  · rw [List.concat_eq_append] at some
    rw [some, List.length_append, List.length_singleton] at counted
    rw [some, split] at stays ⊢
    refine ⟨(0 + argv.length) * maxArgsLength + (strlen s + 1), ?_, ?_, ?_⟩
    · simp only [maxArgsLength]
      omega
    · exact of_decide_eq_true (stays _ (List.mem_append_right _ (terminator_mem_rowStores _ s)))
    · rw [rowStores, writeAll_append, writeAll_append]
      exact Function.update_self ..

private theorem memcpyArgs_dst {tmpArgv : Nat → UInt8} {dst offset : BitVec 32} {first count : Nat}
    (short : ∀ i < count, strlenAt tmpArgv ((first + i) * maxArgsLength) < sizeofTmpArgv)
    {copy : Copy} (member : copy ∈ memcpyArgs tmpArgv dst first count offset) :
    ∃ index < count * sizeofTmpArgv, copy.dst = dst + offset + BitVec.ofNat 32 index := by
  induction count generalizing first offset with
  | zero => cases member
  | succ count induction =>
      have row := short 0 (Nat.succ_pos _)
      rw [Nat.add_zero] at row
      rw [Nat.succ_mul]
      rcases List.mem_append.mp member with now | later
      · rcases List.mem_map.mp now with ⟨store, stored, rfl⟩
        have position : store.1 ∈ (memcpy _ _).map Prod.fst := List.mem_map_of_mem stored
        rw [memcpy_fst, List.length_map, List.length_range] at position
        rcases List.mem_map.mp position with ⟨index, below, equal⟩
        have bound := List.mem_range.mp below
        exact ⟨index, by omega, equal.symm⟩
      · have rest : ∀ i < count,
            strlenAt tmpArgv ((first + 1 + i) * maxArgsLength) < sizeofTmpArgv := by
          intro i below
          have shifted := short (i + 1) (Nat.succ_lt_succ below)
          rwa [← Nat.add_assoc, Nat.add_right_comm] at shifted
        rcases induction rest later with ⟨index, below, equal⟩
        refine ⟨strlenAt tmpArgv (first * maxArgsLength) + 1 + index, by omega, ?_⟩
        rw [equal, BitVec.ofNat_add _ index]
        simp only [BitVec.add_assoc]

private theorem moduleSize_le {machine : Machine} {kernel : Kernel} {filename : CString}
    (found : moduleAddrByName machine kernel filename ≠ 0) :
    (moduleSizeByName machine kernel filename).toNat ≤ machine.ramSize.toNat := by
  have inRam := machine.wellFormed.last_in_ram
  rw [moduleAddrByName] at found
  rw [moduleSizeByName]
  split at found
  next => exact absurd rfl found
  next module named =>
    have below := machine.wellFormed.modules_below module (List.mem_of_find?_eq_some named)
    omega

private theorem copies_high {machine : Machine} {kernel next : Kernel} {filename : CString}
    {args : Arguments} {window : Window} (low : machine.ramSize.toNat ≤ taskVirtAddr.toNat)
    (begun : taskLoadBegin machine kernel filename args = some (.copying next window)) :
    ∀ copy ∈ window.pending, taskVirtAddr.toNat ≤ copy.dst.toNat := by
  have found : moduleAddrByName machine kernel filename ≠ 0 := by
    intro missing
    simp only [taskLoadBegin, missing, if_true] at begun
    split at begun <;> cases begun
  have size := moduleSize_le found
  have begun := Begun.of_copying begun
  have start : taskVirtAddr.toNat = 0x40000000 := rfl
  have limit : sizeofTmpArgv = 250 := rfl
  have short : ∀ i < args.argv.length, strlenAt (writeAll machine.stack
      (tmpArgvStores 0 args.argv)) ((0 + i) * maxArgsLength) < sizeofTmpArgv := by
    intro i counted
    rcases exists_terminator begun.stays machine.stack counted with ⟨last, first, below, zero⟩
    rw [Nat.zero_add]
    have length : strlenAt (writeAll machine.stack (tmpArgvStores 0 args.argv))
        (i * maxArgsLength) ≤ last - i * maxArgsLength := by
      apply length_stringAt_le
      rwa [Nat.add_sub_of_le first]
    omega
  have count : args.argv.length ≤ maxArgs := by
    by_contra tooMany
    rcases exists_terminator begun.stays machine.stack (Nat.lt_of_not_le tooMany) with
      ⟨last, first, below, _⟩
    exact absurd below (Nat.not_lt.mpr first)
  simp only [maxArgs] at count
  intro copy member
  rw [begun.pending, copies, List.mem_append, List.mem_append] at member
  rcases member with (module | argc) | strings
  · rcases List.mem_map.mp module with ⟨index, below, rfl⟩
    have inside := List.mem_range.mp below
    change _ ≤ (taskVirtAddr + BitVec.ofNat 32 index).toNat
    simp only [BitVec.toNat_add, BitVec.toNat_ofNat]
    omega
  · rcases List.mem_map.mp argc with ⟨store, stored, rfl⟩
    have position : store.1 ∈ (memcpy _ _).map Prod.fst := List.mem_map_of_mem stored
    rw [memcpy_fst] at position
    rcases List.mem_map.mp position with ⟨index, below, equal⟩
    have inside : index < 4 := List.mem_range.mp below
    change _ ≤ store.1.toNat
    rw [← equal]
    simp only [BitVec.toNat_add, BitVec.toNat_ofNat]
    omega
  · rcases memcpyArgs_dst short strings with ⟨index, below, equal⟩
    have argc : (4 + (0 : BitVec 32)).toNat = 4 := rfl
    rw [limit] at below
    rw [equal, BitVec.add_assoc _ 4]
    simp only [BitVec.toNat_add _ (BitVec.ofNat _ _), BitVec.toNat_add _ (4 + 0), argc,
      BitVec.toNat_add taskVirtAddr, BitVec.toNat_ofNat]
    omega

def CopiesHigh (system : System) : Prop :=
  ∀ window, system.phase = .copying window →
    ∀ copy ∈ window.pending, taskVirtAddr.toNat ≤ copy.dst.toNat

private theorem copiesHigh_of_reachable {machine : Machine} {system : System}
    (low : machine.ramSize.toNat ≤ taskVirtAddr.toNat) (reachable : Reachable machine system) :
    CopiesHigh system := by
  have notCopying : ∀ {state : System}, (∀ window, state.phase ≠ .copying window) →
      CopiesHigh state := fun other window copying => absurd copying (other window)
  have same : ∀ {before after : System}, after.phase = before.phase → CopiesHigh before →
      CopiesHigh after := by
    intro before after phase high window copying
    exact high window (phase ▸ copying)
  refine reachable.preserves (fun before event after high stepped => ?_) (notCopying nofun)
  cases step_cases stepped with
  | execFailed running begun => exact same rfl high
  | execLoading running begun =>
      intro window copying
      cases copying
      exact copies_high low begun
  | copy copying copied =>
      intro window stillCopying
      cases stillCopying
      exact fun copy member => high _ copying copy (List.mem_cons_of_mem _ member)
  | restore copying => exact notCopying nofun
  | taskSwitch loaded switched => exact notCopying nofun
  | iret running stacked switched => exact notCopying nofun
  | taskFree returned => exact notCopying nofun
  | termSetcolors running => exact same rfl high
  | store running nested stored => exact same rfl high
  | compute running nested => exact same rfl high

/-! ## What a step writes -/

private theorem Machine.view_high {machine : Machine}
    (low : machine.ramSize.toNat ≤ taskVirtAddr.toNat)
    {grant : Grant} {address : BitVec 32} {found : Translation}
    (high : taskVirtAddr.toNat ≤ address.toNat) (viewed : machine.view grant address = some found) :
    addrToFrameNb found.physical ∈ grant.pages ∨
      machine.ramSize.toNat ≤ (addrToFrameNb found.physical).toNat * 4096 := by
  rw [Machine.view] at viewed
  split at viewed
  next page occurs =>
    cases viewed
    rw [addrToFrameNb_append]
    exact .inl (List.mem_of_getElem? occurs)
  next =>
    split at viewed
    next => cases viewed
    next =>
      refine .inr (machine.mappedBy_user viewed ?_)
      rw [mappedBy, Option.map_eq_some_iff] at viewed
      rcases viewed with ⟨call, called, rfl⟩
      have covers := List.find?_some called
      rcases List.mem_cons.mp (List.mem_of_find?_eq_some called) with rfl | member
      · rfl
      · -- The identity mapping of the RAM ends before the pages of a task begin.
        rw [List.mem_singleton.mp member] at covers
        have count := pageCount_toNat machine.ramSize_fits
        have distance : (address - 0).toNat = address.toNat := by simp
        rw [Mmap.covers_iff, count, distance] at covers
        have start : taskVirtAddr.toNat = 0x40000000 := rfl
        omega

/-- Only the task on top of the stack is written to, and the framebuffer. -/
theorem step_writes {machine : Machine} {system next : System} {event : Event}
    (low : machine.ramSize.toNat ≤ taskVirtAddr.toNat) (reachable : Reachable machine system)
    (stepped : step machine system event = some next) (same : next.created = system.created)
    {physical : BitVec 32}
    (changed : next.kernel.ram.bytes physical ≠ system.kernel.ram.bytes physical) :
    (∃ slot rest, system.created = slot :: rest ∧
      addrToFrameNb physical ∈ (system.grant slot).pages) ∨
        machine.ramSize.toNat ≤ (addrToFrameNb physical).toNat * 4096 := by
  have ownership := Ownership.of_reachable reachable
  have spaces := AddressSpaces.of_reachable reachable
  have setByte : ∀ {found : Translation} {value : UInt8},
      (system.kernel.setByte found.physical value).ram.bytes physical ≠
        system.kernel.ram.bytes physical → physical = found.physical := by
    intro found value changed
    by_contra other
    exact changed (Function.update_of_ne other ..)
  cases step_cases stepped with
  | execFailed running begun =>
      rcases taskLoadBegin_failed begun with ⟨console, rfl⟩
      exact absurd rfl changed
  | execLoading running begun =>
      rw [System.created_begun running] at same
      exact absurd same (List.cons_ne_self _ _)
  | copy copying copied =>
      rcases copyByte_some copied with ⟨value, found, read, translated, plain, rfl⟩
      rcases setByte changed with rfl
      have active := spaces.cr3
      rw [System.pagedir, copying] at active
      have createdEq := System.created_of_copying copying
      have member : _ ∈ system.created := createdEq ▸ List.mem_cons_self ..
      rw [Kernel.translate_task active, ownership.translate_task member] at translated
      have high := copiesHigh_of_reachable low reachable _ copying _ (List.mem_cons_self ..)
      exact (Machine.view_high low high translated).imp_left fun own => ⟨_, _, createdEq, own⟩
  | restore copying => exact absurd rfl changed
  | taskSwitch loaded switched =>
      rcases Kernel.farCall_some switched with ⟨_, _, _, _, _, _, _, _, frame⟩
      rw [frame.ram] at changed
      exact absurd rfl changed
  | iret running stacked switched =>
      rcases Kernel.iret_some switched with ⟨_, _, _, _, _, _, _, _, frame⟩
      rw [frame.ram] at changed
      exact absurd rfl changed
  | taskFree returned =>
      rw [System.created_of_returned returned] at same
      exact absurd same.symm (List.cons_ne_self _ _)
  | termSetcolors running => exact absurd rfl changed
  | store running nested stored =>
      rcases userStore_some stored with ⟨found, translated, user, rfl⟩
      rcases setByte changed with rfl
      have active := spaces.cr3
      rw [System.pagedir, running] at active
      have createdEq := System.created_of_running running
      cases stacked : system.stack with
      | nil => exact absurd stacked nested
      | cons activation rest =>
          rw [stacked] at active createdEq
          have member : activation.slot ∈ system.created := createdEq ▸ List.mem_cons_self ..
          rw [Kernel.translate_task active] at translated
          exact (ownership.user_translation member translated user).imp_left
            fun own => ⟨_, _, createdEq, own⟩
  | compute running nested => exact absurd rfl changed

/-! ## Whole calls -/

/-- Everything that is allocated in `before` is in `after` as it was: the frames,
the page tables and the bytes. What the tasks since then own was free. -/
structure Protected (machine : Machine) (before after : System) : Prop where
  below : before.created <:+ after.created
  frames : ∀ frame, before.kernel.ram.frames frame = true → after.kernel.ram.frames frame = true
  pageTables : ∀ frame, before.kernel.ram.frames frame = true →
    after.kernel.ram.tables frame = before.kernel.ram.tables frame
  bytes : ∀ physical : BitVec 32, before.kernel.ram.frames (addrToFrameNb physical) = true →
    (addrToFrameNb physical).toNat * 4096 < machine.ramSize.toNat →
    after.kernel.ram.bytes physical = before.kernel.ram.bytes physical
  fresh : ∀ slot ∈ after.created, slot ∉ before.created → ∀ frame ∈ (after.grant slot).all,
    before.kernel.ram.frames frame = false

namespace Protected

variable {machine : Machine} {before system next : System} {event : Event}

theorem refl (machine : Machine) (system : System) : Protected machine system system :=
  ⟨List.suffix_rfl, fun _ taken => taken, fun _ _ => rfl, fun _ _ _ => rfl,
    fun _ member new => absurd member new⟩

/-- The innermost task, if it was not there before, owns nothing that was. -/
theorem top_fresh (guard : Protected machine before system) (nodup : system.created.Nodup)
    (above : before.depth < system.depth) {slot : Slot} {rest : List Slot}
    (top : system.created = slot :: rest) :
    before.created <:+ rest ∧ ∀ frame ∈ (system.grant slot).all,
      before.kernel.ram.frames frame = false := by
  have below := guard.below
  rw [top, List.suffix_cons_iff] at below
  have onRest : before.created <:+ rest := by
    rcases below with whole | onRest
    · simp only [System.depth, top, whole] at above
      exact absurd above (lt_irrefl _)
    · exact onRest
  refine ⟨onRest, guard.fresh slot (top ▸ List.mem_cons_self ..) fun old => ?_⟩
  rw [top, List.nodup_cons] at nodup
  exact nodup.1 (onRest.subset old)

theorem create (reachable : Reachable machine system) (guard : Protected machine before system)
    {filename : CString} {args : Arguments} {kernel : Kernel} {window : Window}
    (running : system.phase = .running)
    (begun : taskLoadBegin machine system.kernel filename args = some (.copying kernel window)) :
    Protected machine before { system with kernel := kernel, phase := .copying window } := by
  have created := (Ownership.of_reachable reachable).created_of_begun (.of_reachable reachable)
    running begun
  have opening := opening_of_begun reachable running begun
  refine ⟨?_, ?_, ?_, ?_, ?_⟩
  · rw [created.created]
    exact guard.below.trans (List.suffix_cons _ _)
  · exact fun frame taken => (created.mem_frames frame).mpr (.inl (guard.frames frame taken))
  · intro frame taken
    rw [created.tables_of_taken (guard.frames frame taken), guard.pageTables frame taken]
  · intro physical taken inRam
    rw [← guard.bytes physical taken inRam]
    exact opening.bytes (opening.not_page (guard.frames _ taken))
  · intro slot member new frame owned
    rcases created.mem member with rfl | old
    · rw [created.grantNew] at owned
      have free := created.valid.fresh frame owned
      by_contra taken
      rw [guard.frames frame (by simpa using taken)] at free
      cases free
    · rw [created.grantOld slot old] at owned
      exact guard.fresh slot old new frame owned

theorem free (reachable : Reachable machine system) (guard : Protected machine before system)
    (above : before.depth < system.depth) {activation : Activation}
    (returned : system.phase = .returned activation) :
    Protected machine before
      { system with
        kernel := taskFree (system.kernel.termSetcolors activation.cols) activation.slot
        phase := .running } := by
  have table := TaskTable.of_reachable reachable
  have ownership := Ownership.of_reachable reachable
  have freed := ownership.freed_of_returned table returned
  have member : activation.slot ∈ system.created := freed.created ▸ List.mem_cons_self ..
  rcases guard.top_fresh table.nodup above freed.created with ⟨below, free⟩
  have notOwned : ∀ frame, before.kernel.ram.frames frame = true →
      frame ∉ (system.grant activation.slot).all := by
    intro frame taken owned
    cases taken.symm.trans (free frame owned)
  refine ⟨below, ?_, ?_, ?_, ?_⟩
  · intro frame taken
    refine (freed.frames frame).mpr ⟨guard.frames frame taken, fun page => ?_⟩
    exact notOwned frame taken (List.mem_append_left _ page)
  · intro frame taken
    rw [freed.tables frame fun inTables =>
      notOwned frame taken (List.mem_append_right _ inTables), guard.pageTables frame taken]
  · intro physical taken inRam
    rw [← guard.bytes physical taken inRam]
    exact congrFun (ownership.released member).bytes physical
  · intro slot remains new
    rw [freed.grants slot remains]
    exact guard.fresh slot (freed.mem remains) new

theorem same (low : machine.ramSize.toNat ≤ taskVirtAddr.toNat)
    (reachable : Reachable machine system) (guard : Protected machine before system)
    (above : before.depth < system.depth) (stepped : Tasks.step machine system event = some next)
    (same : SameTable system next) : Protected machine before next := by
  refine ⟨same.created ▸ guard.below, ?_, ?_, ?_, ?_⟩
  · rw [same.frames]
    exact guard.frames
  · rw [same.tables]
    exact guard.pageTables
  · intro physical taken inRam
    rw [← guard.bytes physical taken inRam]
    by_contra changed
    rcases step_writes low reachable stepped same.created changed with
      ⟨slot, rest, top, own⟩ | beyond
    · have free := (guard.top_fresh (TaskTable.of_reachable reachable).nodup above top).2 _
        (List.mem_append_left _ own)
      cases taken.symm.trans free
    · omega
  · intro slot member new
    rw [Ownership.grant_of_same same]
    exact guard.fresh slot (same.created ▸ member) new

theorem step (low : machine.ramSize.toNat ≤ taskVirtAddr.toNat)
    (reachable : Reachable machine system) (guard : Protected machine before system)
    (above : before.depth < system.depth) (stepped : Tasks.step machine system event = some next) :
    Protected machine before next := by
  cases tableStep stepped with
  | same same => exact guard.same low reachable above stepped same
  | create called running begun equal =>
      subst equal
      exact guard.create reachable running begun
  | free returned equal =>
      subst equal
      exact guard.free reachable above returned

theorem run (low : machine.ramSize.toNat ≤ taskVirtAddr.toNat)
    (reachable : Reachable machine system) (guard : Protected machine before system)
    {events : List Event}
    (run : Run (Tasks.step machine) (fun state => before.depth < state.depth) system events next) :
    Protected machine before next := by
  have preserved : ∀ state event after, before.depth < state.depth → before.depth < after.depth →
      Reachable machine state ∧ Protected machine before state →
      Tasks.step machine state event = some after →
      Reachable machine after ∧ Protected machine before after :=
    fun _ _ _ above _ kept stepped =>
      ⟨kept.1.step_to stepped, kept.2.step low kept.1 above stepped⟩
  exact (run.preserves preserved ⟨reachable, guard⟩).2

theorem userByte (guard : Protected machine before next) (earlier : Reachable machine before)
    (later : Reachable machine next) {slot : Slot} (member : slot ∈ before.created)
    (record : (next.kernel.tasks slot).record = (before.kernel.tasks slot).record)
    {address : BitVec 32} (inRam : ∀ found,
      Memory.translate before.kernel.ram.tables (before.kernel.tasks slot).pagedir address =
        some found → (addrToFrameNb found.physical).toNat * 4096 < machine.ramSize.toNat) :
    next.kernel.userByte slot address = before.kernel.userByte slot address := by
  have ownership := Ownership.of_reachable earlier
  have grants : next.grant slot = before.grant slot := by
    apply System.grant_congr (Task.fields_of_record record).pageTables
    intro table inTables
    exact guard.pageTables table (ownership.taken member (List.mem_append_right _ inTables))
  have mapping : Memory.translate next.kernel.ram.tables (next.kernel.tasks slot).pagedir address =
      Memory.translate before.kernel.ram.tables (before.kernel.tasks slot).pagedir address := by
    rw [ownership.translate_task member,
      (Ownership.of_reachable later).translate_task (guard.below.subset member), grants]
  rw [Kernel.userByte, Kernel.userByte, mapping]
  cases translated : Memory.translate before.kernel.ram.tables
      (before.kernel.tasks slot).pagedir address with
  | none => rfl
  | some found =>
      rw [Option.bind_some, Option.bind_some]
      split
      next user =>
        have inside := inRam found translated
        rcases ownership.user_translation member translated user with own | beyond
        · rw [guard.bytes _ (ownership.taken member (List.mem_append_left _ own)) inside]
        · omega
      next => rfl

end Protected

namespace Execution

variable {machine : Machine} {system : System}

section

variable (low : machine.ramSize.toNat ≤ taskVirtAddr.toNat) (reachable : Reachable machine system)
variable (exec : Execution machine system)

include low reachable

private theorem protects_during {events : List Event} {state : System}
    (run : Run (step machine) (fun state => system.depth < state.depth) exec.opened events state) :
    Protected machine system state := by
  have opened : Protected machine system exec.opened := by
    rcases create_of_pushed exec.opens exec.pushed with
      ⟨running, _, _, _, _, _, begun, equal⟩
    rw [equal]
    exact (Protected.refl machine system).create reachable running begun
  exact opened.run low (reachable.step_to exec.opens) run

theorem protects_after : Protected machine system exec.next := by
  have inner := exec.protects_during low reachable exec.run
  have innerReachable := (reachable.step_to exec.opens).extend exec.run
  exact inner.step low innerReachable exec.run.final_inside exec.closes

theorem userByte_after {slot : Slot} (member : slot ∈ system.created) {address : BitVec 32}
    (inRam : ∀ found, Memory.translate system.kernel.ram.tables
      (system.kernel.tasks slot).pagedir address = some found →
        (addrToFrameNb found.physical).toNat * 4096 < machine.ramSize.toNat) :
    exec.next.kernel.userByte slot address = system.kernel.userByte slot address := by
  have record := (TaskTable.of_reachable reachable).run_keeps_record exec.call.run
    List.suffix_rfl slot member
  exact (exec.protects_after low reachable).userByte reachable (reachable.extend exec.call.run)
    member record inRam

end

end Execution

/-- While a program runs that `task_exec` was called for, and the programs that it
starts in turn, and when they have returned, all that was allocated at the call
is untouched, and each task that existed finds its memory as it was. -/
theorem execution_protects {machine : Machine} {system : System}
    (low : machine.ramSize.toNat ≤ taskVirtAddr.toNat) (reachable : Reachable machine system)
    (exec : Execution machine system) :
    (∀ events state, Run (step machine) (fun state => system.depth < state.depth) exec.opened
      events state → Protected machine system state) ∧
    Protected machine system exec.next ∧
    ∀ slot ∈ system.created, ∀ address, (∀ found,
      Memory.translate system.kernel.ram.tables (system.kernel.tasks slot).pagedir address =
        some found → (addrToFrameNb found.physical).toNat * 4096 < machine.ramSize.toNat) →
      exec.next.kernel.userByte slot address = system.kernel.userByte slot address :=
  ⟨fun _ _ run => exec.protects_during low reachable run, exec.protects_after low reachable,
    fun _ member _ inRam => exec.userByte_after low reachable member inRam⟩

theorem execution_protects_shell :
    ∃ exec : Execution shellMachine (System.initial shellMachine), exec.events = shellEvents ∧
      Protected shellMachine (System.initial shellMachine) exec.inner ∧
      Protected shellMachine (System.initial shellMachine) exec.next ∧
      exec.next.kernel.ram.bytes 0x500000 = 0xcf := by
  rcases Execution.exists_of_completes shell_completes with ⟨exec, events⟩
  have protects := execution_protects (by decide) .refl exec
  refine ⟨exec, events, protects.1 _ _ exec.run, protects.2.1, ?_⟩
  exact protects.2.1.bytes 0x500000 (by decide +kernel) (by decide +kernel)

end Yoctos.Tasks
