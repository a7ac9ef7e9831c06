import Yoctos.Foundation.Ledger
import Yoctos.Tasks.TaskTable
import Yoctos.Tasks.Release

/-! # Who owns which frame

The frame bitmap and the page tables of the tasks, seen as a ledger of nested
owners: a task's share is what `paging_alloc` took for it, and `task_free` gives
back its pages.
-/

namespace Yoctos.Tasks

open Yoctos.Common Yoctos.Memory Yoctos.Transition

/-! ## The ledger of a state -/

/-- The allocation of a task, as its page tables record it. -/
def System.grant (system : System) (slot : Slot) : Grant where
  pages := mappedFrames system.kernel.ram.tables (system.kernel.tasks slot)
  tables := tableFrames (system.kernel.tasks slot)

/-- The pages return at `task_free`; the page tables do not. -/
def Grant.share (grant : Grant) : Ledger.Share Frame := ⟨grant.pages, grant.tables⟩

def System.account (system : System) : Ledger.Account Frame where
  taken := {frame | system.kernel.ram.frames frame = true}
  shares := system.created.map fun slot => Grant.share (system.grant slot)

def Machine.mapping (machine : Machine) (grant : Grant) : PagingAlloc :=
  grant.apply machine.ram machine.pagedirTempl (fun _ => 0) taskVirtAddr .user

structure Ownership (machine : Machine) (system : System) : Prop where
  sound : system.account.Sound
  sized : ∀ slot ∈ system.created,
    (system.grant slot).tables.length = tableCount (system.grant slot).pages.length
  pagedir : ∀ slot ∈ system.created,
    (system.kernel.tasks slot).pagedir = (machine.mapping (system.grant slot)).pagedir
  tables : ∀ slot ∈ system.created, ∀ table ∈ (system.grant slot).tables,
    system.kernel.ram.tables table = (machine.mapping (system.grant slot)).ram.tables table
  /-- Frames that were allocated at the start stay so, outside every task. -/
  reserved : ∀ frame, machine.ram.frames frame = true →
    system.kernel.ram.frames frame = true ∧
    (∀ slot ∈ system.created, frame ∉ (system.grant slot).all) ∧
    system.kernel.ram.tables frame = machine.ram.tables frame

theorem taskVirtAddr_aligned : taskVirtAddr.toNat % 4194304 = 0 := by decide

@[simp] theorem Grant.share_all (grant : Grant) : (Grant.share grant).all = grant.all := rfl

@[simp] theorem System.mem_taken (system : System) (frame : Frame) :
    frame ∈ system.account.taken ↔ system.kernel.ram.frames frame = true := Iff.rfl

private theorem System.mem_shares (system : System) {slot : Slot} (member : slot ∈ system.created) :
    Grant.share (system.grant slot) ∈ system.account.shares :=
  List.mem_map.mpr ⟨slot, member, rfl⟩

namespace Ownership

variable {machine : Machine} {system next : System}

theorem taken (ownership : Ownership machine system) {slot : Slot} (member : slot ∈ system.created)
    {frame : Frame} (owned : frame ∈ (system.grant slot).all) :
    system.kernel.ram.frames frame = true := by
  rw [← System.mem_taken]
  apply ownership.sound.held _ (system.mem_shares member)
  rwa [Grant.share_all]

theorem nodup (ownership : Ownership machine system) {slot : Slot}
    (member : slot ∈ system.created) : (system.grant slot).all.Nodup := by
  rw [← Grant.share_all]
  exact (List.nodup_flatMap.mp ownership.sound.distinct).1 _ (system.mem_shares member)

theorem tables_nodup (ownership : Ownership machine system) {slot : Slot}
    (member : slot ∈ system.created) : (system.grant slot).tables.Nodup := by
  have distinct := ownership.nodup member
  rw [Grant.all, List.nodup_append] at distinct
  exact distinct.2.1

theorem disjoint (ownership : Ownership machine system) {left right : Slot}
    (leftMember : left ∈ system.created) (rightMember : right ∈ system.created)
    (different : left ≠ right) {frame : Frame} (owned : frame ∈ (system.grant left).all) :
    frame ∉ (system.grant right).all := by
  have pairs : system.created.Pairwise fun left right =>
      List.Disjoint (system.grant left).all (system.grant right).all := by
    have shares := (List.nodup_flatMap.mp ownership.sound.distinct).2
    simpa only [System.account, List.pairwise_map, Function.onFun, Grant.share_all] using shares
  have : Std.Symm fun left right =>
      List.Disjoint (system.grant left).all (system.grant right).all :=
    ⟨fun _ _ apart => apart.symm⟩
  exact pairs.forall leftMember rightMember different owned

end Ownership

/-! ## Allocation -/

def tablesTaken (machine : Machine) (system : System) : Event → List Frame
  | .taskExec filename args =>
      match taskLoadBegin machine system.kernel filename args with
      | some (.copying _ _) =>
          (grantFor machine system.kernel (moduleSizeByName machine system.kernel filename)
            (argsSize args)).tables
      | _ => []
  | _ => []

private theorem Machine.frame_zero (machine : Machine) : machine.ram.frames 0 = true := by
  apply machine.wellFormed.frames_below
  have inside := machine.wellFormed.layout.image (machine.layout.idt, 256 * 8)
    (by simp [Layout.objects])
  have below := machine.wellFormed.kernel_below
  change 0 * 4096 < _
  omega

/-- What the allocator guarantees of a grant for the state it was asked in. -/
structure Grant.Valid (grant : Grant) (system : System) : Prop where
  nodup : grant.all.Nodup
  fresh : ∀ frame ∈ grant.all, system.kernel.ram.frames frame = false
  sized : grant.tables.length = tableCount grant.pages.length
  length : grant.tables.length ≤ 1024
  nonzero : 0 ∉ grant.tables

theorem Grant.Valid.tables_nodup {grant : Grant} {system : System}
    (valid : Grant.Valid grant system) : grant.tables.Nodup := by
  have distinct := valid.nodup
  rw [Grant.all, List.nodup_append] at distinct
  exact distinct.2.1

theorem System.grant_congr {before after : System} {slot : Slot}
    (same : (after.kernel.tasks slot).pageTables = (before.kernel.tasks slot).pageTables)
    (agree : ∀ table ∈ (before.grant slot).tables,
      after.kernel.ram.tables table = before.kernel.ram.tables table) :
    after.grant slot = before.grant slot := by
  have tables := tableFrames_congr same
  have pages := mappedFrames_congr same fun table member => agree table (by
    rwa [tables] at member)
  simp only [System.grant, tables, pages]

namespace Ownership

variable {machine : Machine} {system next : System}

private theorem valid_grantFor (ownership : Ownership machine system)
    (addrSpaceSize argsSize : BitVec 32) :
    Grant.Valid (grantFor machine system.kernel addrSpaceSize argsSize) system := by
  have fresh := machine.source.fresh system.kernel.ram.frames
    (pageCount (requestedSize addrSpaceSize argsSize)).toNat
  refine ⟨machine.source.nodup _ _, fresh, machine.source.tables_length _ _,
    grant_tables_length _ _ _, fun zero => ?_⟩
  have free := fresh 0 (List.mem_append_right _ zero)
  rw [(ownership.reserved 0 machine.frame_zero).1] at free
  cases free

section

variable {filename : CString} {args : Arguments} {kernel : Kernel} {window : Window}

/-- A created task owns what was granted; the others own what they did. -/
structure Created (machine : Machine) (system next : System) (slot : Slot) (grant : Grant) :
    Prop where
  created : next.created = slot :: system.created
  new : slot ∉ system.created
  valid : Grant.Valid grant system
  grantNew : next.grant slot = grant
  grantOld : ∀ other ∈ system.created, next.grant other = system.grant other
  ram : next.kernel.ram = (grant.apply system.kernel.ram machine.pagedirTempl (fun _ => 0)
    taskVirtAddr .user).ram
  pagedirNew : (next.kernel.tasks slot).pagedir = (machine.mapping grant).pagedir
  pagedirOld : ∀ other ∈ system.created,
    (next.kernel.tasks other).pagedir = (system.kernel.tasks other).pagedir

theorem created_of_begun (ownership : Ownership machine system) (table : TaskTable system)
    (running : system.phase = .running)
    (begun : taskLoadBegin machine system.kernel filename args = some (.copying kernel window)) :
    Created machine system { system with kernel := kernel, phase := .copying window } window.slot
      (grantFor machine system.kernel (moduleSizeByName machine system.kernel filename)
        (argsSize args)) := by
  have begun := Begun.of_copying begun
  have new := table.slot_new begun
  have old : ∀ other ∈ system.created, kernel.tasks other = system.kernel.tasks other :=
    fun other member => begun.others other fun same => new (same ▸ member)
  have valid := ownership.valid_grantFor (moduleSizeByName machine system.kernel filename)
    (argsSize args)
  refine ⟨System.created_begun running kernel window, new, valid, ?_, ?_, begun.ram, ?_, ?_⟩
  · have stored : (kernel.tasks window.slot).pageTables = ((grantFor machine system.kernel
        (moduleSizeByName machine system.kernel filename) (argsSize args)).apply system.kernel.ram
          machine.pagedirTempl (fun _ => 0) taskVirtAddr .user).pageTables := by
      rw [begun.created]
      rfl
    have pages :=
      mappedFrames_apply valid.length valid.nonzero valid.sized valid.tables_nodup stored
    have tables := tableFrames_apply valid.length valid.nonzero stored
    rw [System.grant, begun.ram]
    exact congrArg₂ Grant.mk pages tables
  · intro other member
    apply System.grant_congr (congrArg Task.pageTables (old other member))
    intro frame inTables
    have outside : frame ∉ (grantFor machine system.kernel
        (moduleSizeByName machine system.kernel filename) (argsSize args)).tables := by
      intro granted
      have free := valid.fresh frame (List.mem_append_right _ granted)
      rw [ownership.taken member (List.mem_append_right _ inTables)] at free
      cases free
    rw [begun.ram]
    exact Grant.apply_tables_of_not_mem outside
  · rw [begun.created]
    rfl
  · intro other member
    rw [old other member]

end

namespace Created

variable {slot : Slot} {grant : Grant} (created : Created machine system next slot grant)

include created

theorem mem {other : Slot} (member : other ∈ next.created) :
    other = slot ∨ other ∈ system.created := by
  rw [created.created] at member
  exact List.mem_cons.mp member

theorem mem_frames (frame : Frame) : next.kernel.ram.frames frame = true ↔
    system.kernel.ram.frames frame = true ∨ frame ∈ grant.all := by
  rw [created.ram]
  exact Grant.apply_frames

theorem taken_not_granted {frame : Frame} (taken : system.kernel.ram.frames frame = true) :
    frame ∉ grant.all := by
  intro granted
  rw [created.valid.fresh frame granted] at taken
  cases taken

theorem tables_of_taken {frame : Frame} (taken : system.kernel.ram.frames frame = true) :
    next.kernel.ram.tables frame = system.kernel.ram.tables frame := by
  rw [created.ram]
  apply Grant.apply_tables_of_not_mem
  exact fun member => created.taken_not_granted taken (List.mem_append_right _ member)

theorem account_eq : next.account =
    ⟨system.account.taken ∪ {frame | frame ∈ (Grant.share grant).all},
      Grant.share grant :: system.account.shares⟩ := by
  have taken : next.account.taken =
      system.account.taken ∪ {frame | frame ∈ (Grant.share grant).all} := by
    ext frame
    exact created.mem_frames frame
  have shares : next.account.shares = Grant.share grant :: system.account.shares := by
    simp only [System.account, created.created, List.map_cons, created.grantNew]
    congr 1
    apply List.map_congr_left
    intro other member
    rw [created.grantOld other member]
  rw [← taken, ← shares]

theorem move : Ledger.Move system.account grant.tables next.account := by
  have distinct : (Grant.share grant).all.Nodup := created.valid.nodup
  rw [created.account_eq]
  exact .acquire distinct fun frame granted taken => created.taken_not_granted taken granted

theorem ownership (before : Ownership machine system) : Ownership machine next where
  sound := created.move.sound before.sound
  sized other member := by
    rcases created.mem member with rfl | old
    · rw [created.grantNew]
      exact created.valid.sized
    · rw [created.grantOld other old]
      exact before.sized other old
  pagedir other member := by
    rcases created.mem member with rfl | old
    · rw [created.grantNew]
      exact created.pagedirNew
    · rw [created.grantOld other old, created.pagedirOld other old]
      exact before.pagedir other old
  tables other member table inTables := by
    rcases created.mem member with rfl | old
    · rw [created.grantNew] at inTables ⊢
      rcases List.getElem_of_mem inTables with ⟨index, occurs, rfl⟩
      rw [created.ram, Grant.apply_tables_get created.valid.tables_nodup occurs]
      exact (Grant.apply_tables_get created.valid.tables_nodup occurs).symm
    · rw [created.grantOld other old] at inTables ⊢
      rw [created.tables_of_taken (before.taken old (List.mem_append_right _ inTables))]
      exact before.tables other old table inTables
  reserved frame allocated := by
    rcases before.reserved frame allocated with ⟨taken, outside, tables⟩
    refine ⟨(created.mem_frames frame).mpr (.inl taken), fun other member => ?_, ?_⟩
    · rcases created.mem member with rfl | old
      · rw [created.grantNew]
        exact created.taken_not_granted taken
      · rw [created.grantOld other old]
        exact outside other old
    · rw [created.tables_of_taken taken]
      exact tables

end Created

/-! ## Release -/

private theorem firstPresent (ownership : Ownership machine system) {slot : Slot}
    (member : slot ∈ system.created) {table : Frame}
    (inTables : table ∈ (system.grant slot).tables) :
    (system.kernel.ram.tables table 0).present = true := by
  rw [ownership.tables slot member table inTables]
  exact firstPresent_apply (ownership.sized slot member) (ownership.tables_nodup member) inTables

theorem released (ownership : Ownership machine system) {slot : Slot}
    (member : slot ∈ system.created) :
    Released ⟨system.kernel.ram, 0, 0, []⟩ (storedTables (system.kernel.tasks slot).pageTables)
      (releaseTask system.kernel slot) := by
  apply released_foldl
  · exact ownership.tables_nodup member
  · intro pointer inTables
    exact ownership.firstPresent member (List.mem_map_of_mem inTables)

private theorem mem_freed (ownership : Ownership machine system) {slot : Slot}
    (member : slot ∈ system.created) (frame : Frame) :
    frame ∈ (releaseTask system.kernel slot).freed ↔ frame ∈ (system.grant slot).pages := by
  rw [(ownership.released member).freed, List.nil_append, List.mem_flatMap]
  simp only [System.grant, mappedFrames, tableFrames, List.mem_flatMap, List.mem_map,
    exists_exists_and_eq_and, freedOf, List.mem_append, List.mem_singleton]
  constructor
  · rintro ⟨pointer, inTables, present | rfl⟩
    · exact ⟨pointer, inTables, present⟩
    · exact ⟨pointer, inTables, first_mem_presentFrames
        (ownership.firstPresent member (List.mem_map_of_mem inTables))⟩
  · rintro ⟨pointer, inTables, present⟩
    exact ⟨pointer, inTables, .inl present⟩

/-- A freed task's pages return; the other tasks keep what they own. -/
structure Freed (system next : System) (slot : Slot) : Prop where
  created : system.created = slot :: next.created
  frames : ∀ frame, next.kernel.ram.frames frame = true ↔
    system.kernel.ram.frames frame = true ∧ frame ∉ (system.grant slot).pages
  tables : ∀ frame, frame ∉ (system.grant slot).tables →
    next.kernel.ram.tables frame = system.kernel.ram.tables frame
  grants : ∀ other ∈ next.created, next.grant other = system.grant other
  pagedirs : ∀ other ∈ next.created,
    (next.kernel.tasks other).pagedir = (system.kernel.tasks other).pagedir

theorem freed_of_returned (ownership : Ownership machine system) (table : TaskTable system)
    {activation : Activation} (returned : system.phase = .returned activation) :
    Freed system
      { system with
        kernel := taskFree (system.kernel.termSetcolors activation.cols) activation.slot
        phase := .running } activation.slot := by
  have createdEq := System.created_of_returned returned
  have member : activation.slot ∈ system.created := by simp [createdEq]
  have nodup := table.nodup
  rw [createdEq, List.nodup_cons] at nodup
  have released := ownership.released member
  refine ⟨createdEq, fun frame => ?_, released.tables, fun other otherMember => ?_,
    fun other _ => by rw [taskFree_tasks, Kernel.termSetcolors_tasks]⟩
  · have kept := released.frames frame
    rw [← List.nil_append (List.flatMap _ _), ← released.freed] at kept
    change (releaseTask system.kernel activation.slot).ram.frames frame = true ↔ _
    rw [kept, Bool.and_eq_true, decide_eq_true_eq, ownership.mem_freed member]
  · apply System.grant_congr (by rw [taskFree_tasks, Kernel.termSetcolors_tasks])
    intro frame inTables
    apply released.tables
    have old : other ∈ system.created := by
      rw [createdEq]
      exact List.mem_cons_of_mem _ otherMember
    have different : other ≠ activation.slot := fun same => nodup.1 (same ▸ otherMember)
    exact fun inFreed => ownership.disjoint old member different (List.mem_append_right _ inTables)
      (List.mem_append_right _ inFreed)

namespace Freed

variable {slot : Slot} (freed : Freed system next slot)

include freed

theorem mem {other : Slot} (member : other ∈ next.created) : other ∈ system.created := by
  rw [freed.created]
  exact List.mem_cons_of_mem _ member

theorem account_eq : system.account =
      ⟨system.account.taken, Grant.share (system.grant slot) :: next.account.shares⟩ ∧
    next.account =
      ⟨system.account.taken \ {frame | frame ∈ (Grant.share (system.grant slot)).returned},
        next.account.shares⟩ := by
  have shares : system.account.shares =
      Grant.share (system.grant slot) :: next.account.shares := by
    simp only [System.account, freed.created, List.map_cons]
    congr 1
    apply List.map_congr_left
    intro other member
    rw [freed.grants other member]
  have taken : next.account.taken =
      system.account.taken \ {frame | frame ∈ (Grant.share (system.grant slot)).returned} := by
    ext frame
    exact freed.frames frame
  exact ⟨by rw [← shares], by rw [← taken]⟩

theorem move : Ledger.Move system.account [] next.account := by
  rw [freed.account_eq.1, freed.account_eq.2]
  exact .release

theorem ownership (table : TaskTable system) (before : Ownership machine system) :
    Ownership machine next where
  sound := freed.move.sound before.sound
  sized other member := by
    rw [freed.grants other member]
    exact before.sized other (freed.mem member)
  pagedir other member := by
    rw [freed.grants other member, freed.pagedirs other member]
    exact before.pagedir other (freed.mem member)
  tables other member frame inTables := by
    have nodup := table.nodup
    rw [freed.created, List.nodup_cons] at nodup
    have different : other ≠ slot := fun same => nodup.1 (same ▸ member)
    have slotMember : slot ∈ system.created := by simp [freed.created]
    rw [freed.grants other member] at inTables ⊢
    have outside : frame ∉ (system.grant slot).tables := fun inFreed =>
      before.disjoint (freed.mem member) slotMember different (List.mem_append_right _ inTables)
        (List.mem_append_right _ inFreed)
    rw [freed.tables frame outside]
    exact before.tables other (freed.mem member) frame inTables
  reserved frame allocated := by
    rcases before.reserved frame allocated with ⟨taken, outside, tables⟩
    have slotMember : slot ∈ system.created := by simp [freed.created]
    have apart := outside slot slotMember
    refine ⟨(freed.frames frame).mpr ⟨taken, fun page => apart (List.mem_append_left _ page)⟩,
      fun other member => ?_, ?_⟩
    · rw [freed.grants other member]
      exact outside other (freed.mem member)
    · rw [freed.tables frame fun inTables => apart (List.mem_append_right _ inTables)]
      exact tables

end Freed

/-! ## Runs -/

theorem initial (machine : Machine) : Ownership machine (System.initial machine) := by
  have none : (System.initial machine).created = [] := rfl
  refine ⟨⟨?_, ?_⟩, ?_, ?_, ?_, ?_⟩
  · simp [System.account, none]
  · simp [System.account, none]
  · simp [none]
  · simp [none]
  · simp [none]
  · intro frame allocated
    exact ⟨allocated, by simp [none], rfl⟩

theorem grant_of_same (same : SameTable system next) (slot : Slot) :
    next.grant slot = system.grant slot :=
  System.grant_congr (Task.fields_of_record (same.record slot)).pageTables
    fun table _ => congrFun same.tables table

private theorem account_of_same (same : SameTable system next) : next.account = system.account := by
  simp only [System.account, same.created, same.frames, grant_of_same same]

theorem of_same (ownership : Ownership machine system) (same : SameTable system next) :
    Ownership machine next where
  sound := account_of_same same ▸ ownership.sound
  sized slot member := by
    rw [grant_of_same same]
    exact ownership.sized slot (same.created ▸ member)
  pagedir slot member := by
    rw [grant_of_same same, (Task.fields_of_record (same.record slot)).pagedir]
    exact ownership.pagedir slot (same.created ▸ member)
  tables slot member := by
    rw [grant_of_same same, same.tables]
    exact ownership.tables slot (same.created ▸ member)
  reserved frame allocated := by
    simp only [same.frames, same.tables, same.created, grant_of_same same]
    exact ownership.reserved frame allocated

private theorem tablesTaken_eq_nil {event : Event}
    (stepped : Tasks.step machine system event = some next)
    (notPushed : next.created.length ≠ system.created.length + 1) :
    tablesTaken machine system event = [] := by
  cases step_cases stepped with
  | execFailed running begun => simp only [tablesTaken, begun]
  | execLoading running begun =>
      apply absurd _ notPushed
      rw [System.created_begun running, List.length_cons]
  | copy _ _ => rfl
  | restore _ => rfl
  | taskSwitch _ _ => rfl
  | iret _ _ _ => rfl
  | taskFree _ => rfl
  | termSetcolors _ => rfl
  | store _ _ _ => rfl
  | compute _ _ => rfl

/-- Every step is a step of the ledger: the kernel refines it. -/
theorem step {event : Event} (ownership : Ownership machine system) (table : TaskTable system)
    (stepped : Tasks.step machine system event = some next) :
    Ownership machine next ∧
      Ledger.Move system.account (tablesTaken machine system event) next.account := by
  cases tableStep stepped with
  | same same =>
      rw [tablesTaken_eq_nil stepped (by simp [same.created]), account_of_same same]
      exact ⟨ownership.of_same same, .idle⟩
  | create called running begun equal =>
      subst equal called
      have created := ownership.created_of_begun table running begun
      refine ⟨created.ownership ownership, ?_⟩
      simp only [tablesTaken, begun]
      exact created.move
  | free returned equal =>
      subst equal
      have freed := ownership.freed_of_returned table returned
      have notPushed := congrArg List.length freed.created
      rw [tablesTaken_eq_nil stepped (by rw [notPushed, List.length_cons]; omega)]
      exact ⟨freed.ownership table ownership, freed.move⟩

theorem of_reachable (reachable : Reachable machine system) : Ownership machine system := by
  have preserved : ∀ before event after, TaskTable before ∧ Ownership machine before →
      Tasks.step machine before event = some after →
      TaskTable after ∧ Ownership machine after := by
    intro before event after invariant stepped
    exact ⟨invariant.1.step stepped, (invariant.2.step invariant.1 stepped).1⟩
  exact (reachable.preserves preserved ⟨.initial machine, .initial machine⟩).2

end Ownership

end Yoctos.Tasks
