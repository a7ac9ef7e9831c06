import Yoctos.Tasks.Failure
import Yoctos.Tasks.RoundTrip

/-! # Starting a task when memory runs out

`task_create` prints what `paging_alloc` returns and never compares it with what
it asked for.
-/

namespace Yoctos.Tasks

open Yoctos.Common Yoctos.Memory

/-! ## Counting frames -/

def allFrames : List Frame := (List.range 1048576).map (BitVec.ofNat 20)

def freeFrames (frames : Frame → Bool) : Nat := allFrames.countP fun frame => !frames frame

private theorem mem_allFrames (frame : Frame) : frame ∈ allFrames :=
  List.mem_map.mpr ⟨frame.toNat, List.mem_range.mpr frame.isLt, BitVec.ofNat_toNat ..⟩

private theorem length_le_freeFrames {frames : Frame → Bool} {found : List Frame}
    (nodup : found.Nodup)
    (fresh : ∀ frame ∈ found, frames frame = false) : found.length ≤ freeFrames frames := by
  rw [freeFrames, List.countP_eq_length_filter]
  refine (nodup.subperm fun frame member => List.mem_filter.mpr ⟨mem_allFrames frame, ?_⟩).length_le
  simp [fresh frame member]

/-! ## What a program needs -/

section

variable (machine : Machine) (kernel : Kernel) (filename : CString) (args : Arguments)

def requestedPages : Nat :=
  (pageCount (requestedSize (moduleSizeByName machine kernel filename) (argsSize args))).toNat

/-- The page tables of that range which the template does not have. -/
def neededTables : Nat :=
  (List.range (tableCount (requestedPages machine kernel filename args))).countP fun table =>
    !(machine.templateEntry table).present

def neededFrames : Nat :=
  requestedPages machine kernel filename args + neededTables machine kernel filename args

variable {machine kernel filename args}

private theorem neededTables_eq (unshared : machine.Unshared
      (requestedSize (moduleSizeByName machine kernel filename) (argsSize args))) :
    neededTables machine kernel filename args =
      tableCount (requestedPages machine kernel filename args) := by
  rw [neededTables, List.countP_eq_length.mpr, List.length_range]
  intro table member
  rw [unshared table (List.mem_range.mp member), Bool.not_false]

end

/-- A task that starts has a frame of its own for every page asked for; with
too few free frames the call fails and takes no slot and no frame. -/
structure Backed (machine : Machine) (system : System) (filename : CString) (args : Arguments) :
    Prop where
  mapped : ∀ opened window,
    taskLoadBegin machine system.kernel filename args = some (.copying opened window) →
    ∀ index < requestedPages machine system.kernel filename args, ∃ found,
      Memory.translate opened.ram.tables (opened.tasks window.slot).pagedir
        (taskVirtAddr + BitVec.ofNat 32 (index * 4096)) = some found ∧ found.user = true ∧
      system.kernel.ram.frames (addrToFrameNb found.physical) = false ∧
      opened.ram.frames (addrToFrameNb found.physical) = true
  exhausted : freeFrames system.kernel.ram.frames <
      neededFrames machine system.kernel filename args →
    ∃ next, TaskExec machine system [.taskExec filename args] false next ∧
      next.kernel.ram.frames = system.kernel.ram.frames ∧
      ∀ slot, (next.kernel.tasks slot).inUse = (system.kernel.tasks slot).inUse

section

variable {machine : Machine} {system : System} {filename : CString} {args : Arguments}
variable {opened : Kernel} {window : Window}

private theorem neededFrames_le_of_granted
    (unshared : machine.Unshared
      (requestedSize (moduleSizeByName machine system.kernel filename) (argsSize args)))
    (granted : (loadGrant machine system.kernel filename args).pages.length =
      requestedPages machine system.kernel filename args) :
    neededFrames machine system.kernel filename args ≤ freeFrames system.kernel.ram.frames := by
  have all := length_le_freeFrames
    (machine.source.nodup system.kernel.ram.frames
      (requestedPages machine system.kernel filename args))
    (machine.source.fresh _ _)
  have tables := machine.source.tables_length system.kernel.ram.frames
    (requestedPages machine system.kernel filename args)
  have pages : (machine.source.grant system.kernel.ram.frames
      (requestedPages machine system.kernel filename args)).pages.length =
      requestedPages machine system.kernel filename args := granted
  rw [Grant.all, List.length_append, tables, pages] at all
  rwa [neededFrames, neededTables_eq unshared]

/-- Where the pages end, user code of the new task has no frame of its own. -/
theorem granted_of_mapped (reachable : Reachable machine system)
    (opening : Opening machine system filename args opened window)
    (mapped : ∀ index < requestedPages machine system.kernel filename args, ∃ found,
      Memory.translate opened.ram.tables (opened.tasks window.slot).pagedir
        (taskVirtAddr + BitVec.ofNat 32 (index * 4096)) = some found ∧ found.user = true ∧
      system.kernel.ram.frames (addrToFrameNb found.physical) = false) :
    (loadGrant machine system.kernel filename args).pages.length =
      requestedPages machine system.kernel filename args := by
  have most : (loadGrant machine system.kernel filename args).pages.length ≤
      requestedPages machine system.kernel filename args := machine.source.pages_length _ _
  by_contra short
  have below : requestedPages machine system.kernel filename args < 1048576 := pageCount_lt _
  rcases mapped (loadGrant machine system.kernel filename args).pages.length (by omega) with
    ⟨found, translated, user, free⟩
  rw [opening.slotView, Machine.view, offset_toNat (by omega),
    Nat.mul_div_cancel _ (by decide), List.getElem?_eq_none (Nat.le_refl _)] at translated
  simp only at translated
  split at translated
  next => cases translated
  next =>
    have beyond := machine.mappedBy_user translated user
    cases ((Ownership.of_reachable reachable).beyond_taken beyond).symm.trans free

private theorem mapped_of_granted (opening : Opening machine system filename args opened window)
    (granted : (loadGrant machine system.kernel filename args).pages.length =
      requestedPages machine system.kernel filename args) :
    ∀ index < requestedPages machine system.kernel filename args, ∃ found,
      Memory.translate opened.ram.tables (opened.tasks window.slot).pagedir
        (taskVirtAddr + BitVec.ofNat 32 (index * 4096)) = some found ∧ found.user = true ∧
      system.kernel.ram.frames (addrToFrameNb found.physical) = false ∧
      opened.ram.frames (addrToFrameNb found.physical) = true := by
  intro index requested
  have below : requestedPages machine system.kernel filename args < 1048576 := pageCount_lt _
  have occurs : index < (loadGrant machine system.kernel filename args).pages.length := by
    rwa [granted]
  have page := List.getElem_mem occurs
  have own := List.mem_append_left (loadGrant machine system.kernel filename args).tables page
  refine ⟨⟨(loadGrant machine system.kernel filename args).pages[index] ++
    pageOffset (taskVirtAddr + BitVec.ofNat 32 (index * 4096)), true, true⟩, ?_, rfl, ?_, ?_⟩
  · rw [opening.slotView, Machine.view, offset_toNat (by omega),
      Nat.mul_div_cancel _ (by decide), List.getElem?_eq_getElem occurs]
  · rw [addrToFrameNb_append]
    exact machine.source.fresh _ _ _ own
  · rw [addrToFrameNb_append]
    exact (opening.created.mem_frames _).mpr (.inr own)

/-- Every task that starts is backed by memory exactly when the load fails for
another reason or there are enough free frames, where tasks have page tables of
their own. `frame_alloc` is assumed to succeed while frames are free. -/
theorem backed_iff (reachable : Reachable machine system) (running : system.phase = .running)
    (stays : staysInTmpArgv args = true)
    (unshared : machine.Unshared
      (requestedSize (moduleSizeByName machine system.kernel filename) (argsSize args)))
    (available : neededFrames machine system.kernel filename args ≤
      freeFrames system.kernel.ram.frames →
      (loadGrant machine system.kernel filename args).pages.length =
        requestedPages machine system.kernel filename args) :
    Backed machine system filename args ↔ Unloadable machine system.kernel filename ∨
      neededFrames machine system.kernel filename args ≤ freeFrames system.kernel.ram.frames := by
  constructor
  · intro backed
    by_cases loadable : Unloadable machine system.kernel filename
    · exact .inl loadable
    · rcases taskLoadBegin_copying_of_loadable stays loadable with ⟨opened, window, begun⟩
      refine .inr (neededFrames_le_of_granted unshared (granted_of_mapped reachable
        (opening_of_begun reachable running begun) fun index requested => ?_))
      rcases backed.mapped opened window begun index requested with
        ⟨found, translated, user, free, _⟩
      exact ⟨found, translated, user, free⟩
  · rintro (unloadable | enough)
    · rcases (taskLoadBegin_failed_iff stays).mpr unloadable with ⟨kernel, failed⟩
      refine ⟨fun opened window begun => ?_, fun _ => ?_⟩
      · cases failed.symm.trans begun
      · rcases taskLoadBegin_failed failed with ⟨console, rfl⟩
        have stepped : step machine system (.taskExec filename args) =
            some { system with kernel := { system.kernel with console := console } } := by
          simp only [step, running, failed, Option.map_some]
        exact ⟨_, .failed stepped running, rfl, fun _ => rfl⟩
    · refine ⟨fun opened window begun => ?_, fun few => absurd enough (Nat.not_le.mpr few)⟩
      exact mapped_of_granted (opening_of_begun reachable running begun) (available enough)

end

private theorem shell_granted : (loadGrant shellMachine (tasksInit shellMachine) shellName
    noArguments).pages.length =
      requestedPages shellMachine (tasksInit shellMachine) shellName noArguments := by
  decide +kernel

theorem backed_shell :
    Backed shellMachine (System.initial shellMachine) shellName noArguments := by
  have running : (System.initial shellMachine).phase = .running := rfl
  have stays : staysInTmpArgv noArguments = true := rfl
  have unshared : shellMachine.Unshared
      (requestedSize (moduleSizeByName shellMachine (tasksInit shellMachine) shellName)
        (argsSize noArguments)) := by decide +kernel
  exact (backed_iff .refl running stays unshared fun _ => shell_granted).mpr
    (.inr (neededFrames_le_of_granted unshared shell_granted))

def fullMachine : Machine where
  toSetup := referenceSetup 2 0x800000 [⟨some shellName, 0x500000, 1⟩] fun _ => 0
  wellFormed := referenceSetup_wellFormed (by decide) (by decide) (by decide) (by decide)

private theorem fullMachine_taken (frame : Frame) : fullMachine.ram.frames frame = true := by
  simp only [fullMachine, referenceSetup, Bool.or_eq_true, decide_eq_true_eq]
  omega

private theorem fullMachine_freeFrames : freeFrames fullMachine.ram.frames = 0 :=
  List.countP_eq_zero.mpr fun frame _ => by simp [fullMachine_taken frame]

/-- Without a free frame the shell is started all the same. -/
theorem not_backed :
    ¬ ∀ (machine : Machine) (system : System) (filename : CString) (args : Arguments),
      Reachable machine system → system.phase = .running → staysInTmpArgv args = true →
      machine.Unshared
        (requestedSize (moduleSizeByName machine system.kernel filename) (argsSize args)) →
      (neededFrames machine system.kernel filename args ≤ freeFrames system.kernel.ram.frames →
        (loadGrant machine system.kernel filename args).pages.length =
          requestedPages machine system.kernel filename args) →
      Backed machine system filename args := by
  intro always
  have few : freeFrames (System.initial fullMachine).kernel.ram.frames <
      neededFrames fullMachine (tasksInit fullMachine) shellName noArguments := by
    change freeFrames fullMachine.ram.frames < _
    rw [fullMachine_freeFrames]
    decide +kernel
  have unshared : fullMachine.Unshared
      (requestedSize (moduleSizeByName fullMachine (tasksInit fullMachine) shellName)
        (argsSize noArguments)) := by decide +kernel
  have backed := always fullMachine (System.initial fullMachine) shellName noArguments .refl rfl rfl
    unshared fun enough => absurd enough (Nat.not_le.mpr few)
  rcases backed.exhausted few with ⟨next, exec, _⟩
  rcases begun_of_failed exec with ⟨_, _, console, failed, _⟩
  rcases (taskLoadBegin_failed_iff rfl).mp ⟨_, failed⟩ with noAddr | noSize | used
  · exact absurd noAddr (by decide +kernel)
  · exact absurd noSize (by decide +kernel)
  · cases used 0

end Yoctos.Tasks
