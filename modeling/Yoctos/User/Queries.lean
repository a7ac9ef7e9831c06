import Yoctos.Syscall.Isolation

/-! # Query system calls (`user/ulibc.c`)

The numbers 9 and 10 have entries in the kernel's table, but the dispatcher
stops below 9. What the library returns is what its stack held before.
-/

namespace Yoctos.User

open Yoctos.Common Yoctos.Memory Yoctos.Tasks Yoctos.Syscall

section

variable (machine : Machine) (devices : Devices) (kernel : Kernel)

/-- `syscall`, for numbers that start no task: the kernel it leaves. -/
def syscall (nb arg1 arg2 arg3 arg4 : BitVec 32) : Option Kernel :=
  match syscallHandler machine devices kernel nb arg1 arg2 arg3 arg4 with
  | some (.returned _ _ kernel) => some kernel
  | _ => none

def getModSize (filename size : BitVec 32) : Option (BitVec 32 × Kernel) := do
  let kernel ← syscall machine devices kernel 9 filename size 0 0
  let value ← loadPointer machine kernel size
  some (value, kernel)

/-- `get_task_addr_by_id`, given the address of its parameter `addr`. It is a
`void` function that says `return addr;`: the value here is the one it names,
and compiled code drops it. A caller that gets none is no better off. -/
def getTaskAddrById (id addr : BitVec 32) : Option (BitVec 32 × Kernel) := do
  let kernel ← syscall machine devices kernel 10 id addr 0 0
  let value ← loadPointer machine kernel addr
  some (value, kernel)

end

structure Query (machine : Machine) (kernel : Kernel) where
  filename : BitVec 32
  name : CString
  named : loadString machine kernel filename addressSpace = some name
  /-- The address of the uninitialised `size`, and what lies there. -/
  size : BitVec 32
  garbage : BitVec 32
  uninitialised : loadPointer machine kernel size = some garbage
  id : BitVec 32
  /-- The address of the parameter `addr`, and the pointer passed in it. -/
  addr : BitVec 32
  pointer : BitVec 32
  passed : loadPointer machine kernel addr = some pointer

/-- A caller has an address in a pointer, or in the word to which it points. -/
def Has (machine : Machine) (kernel : Kernel) (pointer address : BitVec 32) : Prop :=
  pointer = address ∨ loadPointer machine kernel pointer = some address

section

variable {machine : Machine} {kernel : Kernel}

structure Delivers (devices : Devices) (query : Query machine kernel) : Prop where
  size : ∃ next, getModSize machine devices kernel query.filename query.size =
    some (moduleSizeByName machine kernel query.name, next)
  address : ∃ pointer next, getTaskAddrById machine devices kernel query.id query.addr =
    some (pointer, next) ∧ Has machine next pointer
      ((Tasks.getTaskAddrById machine kernel query.id).getD 0)

/-- The caller's memory holds the answers before the calls. -/
structure AlreadyHeld (query : Query machine kernel) : Prop where
  size : query.garbage = moduleSizeByName machine kernel query.name
  address : Has machine kernel query.pointer
    ((Tasks.getTaskAddrById machine kernel query.id).getD 0)

theorem syscall_of_large (devices : Devices) {nb : BitVec 32} (large : 9 ≤ nb.toInt)
    (arg1 arg2 arg3 arg4 : BitVec 32) :
    syscall machine devices kernel nb arg1 arg2 arg3 arg4 = some kernel := by
  rw [syscall, syscallHandler, if_neg (by omega)]

private theorem getModSize_eq (devices : Devices) (query : Query machine kernel) :
    getModSize machine devices kernel query.filename query.size =
      some (query.garbage, kernel) := by
  rw [getModSize, syscall_of_large devices (by decide), Option.bind_eq_bind, Option.bind_some,
    query.uninitialised]
  rfl

theorem getTaskAddrById_eq (devices : Devices) (query : Query machine kernel) :
    getTaskAddrById machine devices kernel query.id query.addr = some (query.pointer, kernel) := by
  rw [getTaskAddrById, syscall_of_large devices (by decide), Option.bind_eq_bind,
    Option.bind_some, query.passed]
  rfl

/-- The answers arrive exactly when the caller's memory held them all along. -/
theorem delivers_iff (devices : Devices) (query : Query machine kernel) :
    Delivers devices query ↔ AlreadyHeld query := by
  constructor
  · rintro ⟨⟨next, size⟩, pointer, later, address, has⟩
    rw [getModSize_eq] at size
    rw [getTaskAddrById_eq] at address
    cases address
    exact ⟨congrArg Prod.fst (Option.some.inj size), has⟩
  · rintro ⟨size, address⟩
    refine ⟨⟨kernel, ?_⟩, query.pointer, kernel, getTaskAddrById_eq devices query, address⟩
    rw [getModSize_eq, size]

end

/-! ## A query of the shell -/

/-- The shell asks for the size of a file without a name and for the address of
task 0. Its stack holds zeros. -/
def shellQuery : Query shellMachine shellRunning.kernel where
  filename := taskVirtAddr + 1
  name := .empty
  named := by decide +kernel
  size := taskVirtAddr + 8
  garbage := 0
  uninitialised := by decide +kernel
  id := 0
  addr := taskVirtAddr + 12
  pointer := 0
  passed := by decide +kernel

theorem not_delivers :
    ¬ ∀ (machine : Machine) (devices : Devices) (system : System)
      (query : Query machine system.kernel), Reachable machine system →
      Delivers devices query := by
  intro always
  have delivered := always shellMachine shellDevices shellRunning shellQuery shellRunning_reachable
  rcases delivered.size with ⟨next, arrived⟩
  rw [getModSize_eq] at arrived
  have missing : moduleSizeByName shellMachine shellRunning.kernel .empty = -1 := by decide +kernel
  have same : shellQuery.garbage = moduleSizeByName shellMachine shellRunning.kernel .empty :=
    congrArg Prod.fst (Option.some.inj arrived)
  rw [missing] at same
  exact absurd same (by decide)

end Yoctos.User
