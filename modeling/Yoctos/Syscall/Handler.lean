import Yoctos.Tasks.Loader

/-! # System calls (`syscall/syscall.c`)

What the drivers know is read from `Devices`; what they are asked to do is a
list of calls. `task_exec` goes on as an event of the system.
-/

namespace Yoctos.Syscall

open Yoctos.Common Yoctos.Memory Yoctos.Tasks

/-! ## The drivers -/

structure VbeFb where
  addr : BitVec 32
  size : BitVec 32
  pitchInBytes : BitVec 32
  pitchInPix : BitVec 32
  width : BitVec 32
  height : BitVec 32
  bpp : UInt8
  padding : Fin 3 → UInt8

def VbeFb.bytes (fb : VbeFb) : List UInt8 :=
  littleEndian fb.addr ++ littleEndian fb.size ++ littleEndian fb.pitchInBytes ++
    littleEndian fb.pitchInPix ++ littleEndian fb.width ++ littleEndian fb.height ++
      [fb.bpp, fb.padding 0, fb.padding 1, fb.padding 2]

/-- What `keyb_get_key`, `timer_get_freq`, `timer_get_ticks` and `vbe_get_fb`
return. -/
structure Devices where
  key : BitVec 32
  freq : BitVec 32
  ticks : BitVec 32
  fb : VbeFb

inductive DriverCall
  | termPuts (s : CString)
  | termPutc (c : UInt8)
  | timerSleep (ms : BitVec 32)

/-- A handler has returned, without a value where it has no `return`; or it has
called `task_exec`. -/
inductive Outcome
  | returned (value : Option (BitVec 32)) (calls : List DriverCall) (kernel : Kernel)
  | execs (filename : CString) (args : Arguments)

/-! ## The caller's memory -/

section

variable (machine : Machine) (kernel : Kernel)

def loadByte (address : BitVec 32) : Option UInt8 := do
  let found ← kernel.translate machine address
  if kernel.holdsRecord machine found.physical then none else some (kernel.ram.bytes found.physical)

def loadString (address : BitVec 32) : (fuel : Nat) → Option CString
  | 0 => none
  | fuel + 1 => do
      let byte ← loadByte machine kernel address
      if nonzero : byte = 0 then some .empty
      else
        let rest ← loadString (address + 1) fuel
        some ⟨byte :: rest.bytes, List.forall_mem_cons.mpr ⟨nonzero, rest.nonzero⟩⟩

def loadPointer (address : BitVec 32) : Option (BitVec 32) := do
  let b0 ← loadByte machine kernel address
  let b1 ← loadByte machine kernel (address + 1)
  let b2 ← loadByte machine kernel (address + 2)
  let b3 ← loadByte machine kernel (address + 3)
  some (ofLittleEndian b0 b1 b2 b3)

def loadArguments (argc argv : BitVec 32) : Option Arguments := do
  let strings ← (List.range argc.toInt.toNat).mapM fun i => do
    let pointer ← loadPointer machine kernel (argv + BitVec.ofNat 32 (i * 4))
    loadString machine kernel pointer addressSpace
  if counted : strings.length = argc.toInt.toNat then some ⟨argc, strings, counted⟩ else none

def storeBytes (address : BitVec 32) (values : List UInt8) : Option Kernel :=
  (memcpyStack address values).foldlM (copyByte machine) kernel

/-- Where `vbe_setpixel` puts a pixel. Nothing keeps it on the screen. -/
def VbeFb.pixel (fb : VbeFb) (x y : BitVec 32) : BitVec 32 := fb.addr + (y * fb.pitchInPix + x) * 2

def vbeSetpixel (fb : VbeFb) (x y : BitVec 32) (color : BitVec 16) : Option Kernel :=
  storeBytes machine kernel (fb.pixel x y)
    [UInt8.ofBitVec (color.extractLsb' 0 8), UInt8.ofBitVec (color.extractLsb' 8 8)]

end

/-! ## The handlers -/

section

variable (machine : Machine) (devices : Devices) (kernel : Kernel) (arg1 arg2 arg3 : BitVec 32)

def syscallTermPuts : Option Outcome := do
  let s ← loadString machine kernel arg1 addressSpace
  some (.returned (some 0) [.termPuts s] kernel)

def syscallTermSetColors : Option Outcome :=
  some (.returned (some 0) [] (kernel.termSetcolors ⟨arg1.setWidth 16, arg2.setWidth 16⟩))

def syscallKeybGetKey : Option Outcome := do
  let kernel ← storeBytes machine kernel arg1 (littleEndian devices.key)
  some (.returned (some 0) [] kernel)

def syscallTimerInfo : Option Outcome := do
  let kernel ← storeBytes machine kernel arg1 (littleEndian devices.freq)
  let kernel ← storeBytes machine kernel arg2 (littleEndian devices.ticks)
  some (.returned (some 0) [] kernel)

def syscallTimerSleep : Option Outcome := some (.returned (some 0) [.timerSleep arg1] kernel)

def syscallVbeFbInfo : Option Outcome := do
  let kernel ← storeBytes machine kernel arg1 devices.fb.bytes
  some (.returned (some 0) [] kernel)

/-- The function ends without a `return`. -/
def syscallVbeSetpix : Option Outcome := do
  let kernel ← vbeSetpixel machine kernel devices.fb arg1 arg2 (arg3.setWidth 16)
  some (.returned none [] kernel)

def syscallTaskExec : Option Outcome := do
  let filename ← loadString machine kernel arg1 addressSpace
  let args ← loadArguments machine kernel arg2 arg3
  some (.execs filename args)

def syscallPutc : Option Outcome :=
  some (.returned (some 0) [.termPutc (UInt8.ofBitVec (arg1.setWidth 8))] kernel)

/-- The size is assigned to a single `char`. -/
def syscallModSize : Option Outcome := do
  let filename ← loadString machine kernel arg1 addressSpace
  let kernel ← storeBytes machine kernel arg2
    [UInt8.ofBitVec ((moduleSizeByName machine kernel filename).setWidth 8)]
  some (.returned (some 0) [] kernel)

/-- The address found is assigned to a local and lost. -/
def syscallTaskAddrById : Option Outcome := some (.returned (some 0) [] kernel)

end

def syscallFunc (machine : Machine) (devices : Devices) (kernel : Kernel) (nb : Nat)
    (arg1 arg2 arg3 : BitVec 32) : Option Outcome :=
  match nb with
  | 0 => syscallTermPuts machine kernel arg1
  | 1 => syscallTermSetColors kernel arg1 arg2
  | 2 => syscallKeybGetKey machine devices kernel arg1
  | 3 => syscallTimerInfo machine devices kernel arg1 arg2
  | 4 => syscallTimerSleep kernel arg1
  | 5 => syscallVbeFbInfo machine devices kernel arg1
  | 6 => syscallVbeSetpix machine devices kernel arg1 arg2 arg3
  | 7 => syscallTaskExec machine kernel arg1 arg2 arg3
  | 8 => syscallPutc kernel arg1
  | 9 => syscallModSize machine kernel arg1 arg2
  | 10 => syscallTaskAddrById kernel
  | _ => none

/-- `syscall_handler`. No function uses `arg4`. The result is `none` when a
pointer leads to no page or to a record of the kernel. -/
def syscallHandler (machine : Machine) (devices : Devices) (kernel : Kernel)
    (nb arg1 arg2 arg3 _arg4 : BitVec 32) : Option Outcome :=
  if 0 ≤ nb.toInt ∧ nb.toInt < 9 then
    syscallFunc machine devices kernel nb.toInt.toNat arg1 arg2 arg3
  else some (.returned (some (-1)) [] kernel)

def syscallStep (machine : Machine) (devices : Devices) (system : System)
    (nb arg1 arg2 arg3 arg4 : BitVec 32) : Option System := do
  match ← syscallHandler machine devices system.kernel nb arg1 arg2 arg3 arg4 with
  | .returned _ _ kernel => some { system with kernel := kernel }
  | .execs filename args => step machine system (.taskExec filename args)

theorem syscallStep_cases {machine : Machine} {devices : Devices} {system next : System}
    {nb arg1 arg2 arg3 arg4 : BitVec 32}
    (stepped : syscallStep machine devices system nb arg1 arg2 arg3 arg4 = some next) :
    (∃ value calls kernel, syscallHandler machine devices system.kernel nb arg1 arg2 arg3 arg4 =
      some (.returned value calls kernel) ∧ next = { system with kernel := kernel }) ∨
    ∃ filename args, syscallHandler machine devices system.kernel nb arg1 arg2 arg3 arg4 =
      some (.execs filename args) ∧ step machine system (.taskExec filename args) = some next := by
  simp only [syscallStep, Option.bind_eq_bind, Option.bind_eq_some_iff] at stepped
  rcases stepped with ⟨outcome, handled, continued⟩
  cases outcome with
  | returned value calls kernel =>
      exact .inl ⟨value, calls, kernel, handled, (Option.some.inj continued).symm⟩
  | execs filename args => exact .inr ⟨filename, args, handled, continued⟩

end Yoctos.Syscall
