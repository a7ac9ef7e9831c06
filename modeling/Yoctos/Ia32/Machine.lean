import Yoctos.Ia32.Memory

/-! # IA-32 programs that call C functions

The instructions of interrupt and system-call stubs, and what the CPU does on an
interrupt. A C function is a change of the whole state, made in one step.
-/

namespace Yoctos.Ia32

inductive Reg
  | eax | ebx | ecx | edx | esi | edi | ebp | esp
  deriving DecidableEq

inductive Seg
  | cs | ss | ds | es | fs | gs
  deriving DecidableEq

structure State where
  regs : Reg → BitVec 32
  segs : Seg → BitVec 16
  eip : BitVec 32
  eflags : BitVec 32
  memory : Memory

/-! ## Flags -/

def nestedTask : BitVec 32 := 1 <<< 14
def interruptEnable : BitVec 32 := 1 <<< 9

/-- CF, PF, AF, ZF, SF and OF. -/
def arithmeticFlags : BitVec 32 := 0x8d5

/-- TF, NT, RF and VM, which every interrupt clears. -/
def interruptedFlags : BitVec 32 := 0x34100

/-! ## Instructions -/

inductive Source
  | imm (value : BitVec 32)
  | reg (reg : Reg)
  | seg (seg : Seg)
  deriving DecidableEq

inductive Target
  | reg (reg : Reg)
  | seg (seg : Seg)
  deriving DecidableEq

inductive Op
  | push (source : Source)
  | pop (target : Target)
  | mov (dst src : Reg)
  /-- `mov dst,[base+offset]` -/
  | load (dst base : Reg) (offset : BitVec 32)
  /-- `mov dst,value` with the 16-bit name of `dst`. -/
  | movLow (dst : Reg) (value : BitVec 16)
  /-- `mov dst,src` with the 16-bit name of `src`. -/
  | movSeg (dst : Seg) (src : Reg)
  | add (dst : Reg) (value : BitVec 32)
  | cli

inductive Instr
  | op (op : Op)
  | jmp (target : BitVec 32)
  | call (target : BitVec 32)
  | ret
  | int (vector : BitVec 8)
  | iret

structure Gate where
  selector : BitVec 16
  offset : BitVec 32
  trap : Bool
  dpl : BitVec 2

/-- What an address holds: an instruction, with the address of the next one, or
the entry of a C function. -/
inductive Content
  | instr (instr : Instr) (after : BitVec 32)
  | function (call : State → State)

/-- What stays as it is while the program runs. `ss0` and `esp0` are those of
the current TSS. Of the word that a push of a segment register leaves, the
manuals promise only the low half; the flags an addition leaves do not matter
here. -/
structure Platform where
  content : BitVec 32 → Option Content
  gate : BitVec 8 → Option Gate
  ss0 : BitVec 16
  esp0 : BitVec 32
  segmentWord : BitVec 32 → BitVec 16 → BitVec 32
  segmentWord_low : ∀ old selector, (segmentWord old selector).setWidth 16 = selector
  addFlags : BitVec 32 → BitVec 32 → BitVec 32

namespace State

def set (s : State) (reg : Reg) (value : BitVec 32) : State :=
  { s with regs := Function.update s.regs reg value }

def setSeg (s : State) (seg : Seg) (value : BitVec 16) : State :=
  { s with segs := Function.update s.segs seg value }

def push (s : State) (value : BitVec 32) : State :=
  { s with
    regs := Function.update s.regs .esp (s.regs .esp - 4)
    memory := s.memory.setWord (s.regs .esp - 4) value }

def top (s : State) : BitVec 32 := s.memory.word (s.regs .esp)
def drop (s : State) : State := s.set .esp (s.regs .esp + 4)

/-- The word that `push` of a segment register stores. -/
def segmentWord (p : Platform) (s : State) (selector : BitVec 16) : BitVec 32 :=
  p.segmentWord (s.memory.word (s.regs .esp - 4)) selector

def cpl (s : State) : BitVec 2 := (s.segs .cs).setWidth 2

end State

section

variable (p : Platform)

def Source.value (s : State) : Source → BitVec 32
  | .imm value => value
  | .reg name => s.regs name
  | .seg name => s.segmentWord p (s.segs name)

def Target.assign (s : State) (value : BitVec 32) : Target → State
  | .reg name => s.set name value
  | .seg name => s.setSeg name (value.setWidth 16)

def Op.exec (s : State) : Op → State
  | .push source => s.push (source.value p s)
  | .pop target => target.assign s.drop s.top
  | .mov dst src => s.set dst (s.regs src)
  | .load dst base offset => s.set dst (s.memory.word (s.regs base + offset))
  | .movLow dst value => s.set dst ((s.regs dst).extractLsb' 16 16 ++ value)
  | .movSeg dst src => s.setSeg dst ((s.regs src).setWidth 16)
  | .add dst value =>
      { s.set dst (s.regs dst + value) with
        eflags := (s.eflags &&& ~~~arithmeticFlags) |||
          (p.addFlags (s.regs dst) value &&& arithmeticFlags) }
  | .cli => { s with eflags := s.eflags &&& ~~~interruptEnable }

/-! ## Interrupts -/

/-- The exceptions with an error code: #DF, #TS, #NP, #SS, #GP, #PF, #AC and
#CP. -/
def errorCodeVectors : List Nat := [8, 10, 11, 12, 13, 14, 17, 21]

def State.switchStack (s : State) : State :=
  let switched := (s.set .esp p.esp0).setSeg .ss p.ss0
  (switched.push (switched.segmentWord p (s.segs .ss))).push (s.regs .esp)

def State.pushContext (s : State) (returnEip : BitVec 32) : State :=
  let flags := s.push s.eflags
  (flags.push (flags.segmentWord p (s.segs .cs))).push returnEip

/-- An interrupt through a gate of the kernel. Its frame starts with the stack
of the interrupted code when that was less privileged. -/
def State.interrupt (s : State) (gate : Gate) (errorCode : Option (BitVec 32))
    (returnEip : BitVec 32) : State :=
  let inner := if s.cpl = 0 then s else s.switchStack p
  let framed := inner.pushContext p returnEip
  let coded := match errorCode with
    | none => framed
    | some code => framed.push code
  let flags := s.eflags &&& ~~~interruptedFlags
  { coded.setSeg .cs gate.selector with
    eip := gate.offset
    eflags := if gate.trap then flags else flags &&& ~~~interruptEnable }

/-- `iret` without a return along a task link. A return to a less privileged
level restores that level's stack. -/
def State.iret (s : State) : Option State :=
  let esp := s.regs .esp
  let selector : BitVec 16 := (s.memory.word (esp + 4)).setWidth 16
  let level : BitVec 2 := selector.setWidth 2
  let resumed : State :=
    { s with
      segs := Function.update s.segs .cs selector
      eip := s.memory.word esp
      eflags := s.memory.word (esp + 4 + 4) }
  if s.eflags &&& nestedTask ≠ 0 then none
  else if level = s.cpl then some (resumed.set .esp (esp + 4 + 4 + 4))
  else if s.cpl < level then
    some ((resumed.set .esp (s.memory.word (esp + 4 + 4 + 4))).setSeg .ss
      ((s.memory.word (esp + 4 + 4 + 4 + 4)).setWidth 16))
  else none

/-- `int` needs a gate that the code that runs may use. -/
def Instr.exec (after : BitVec 32) (s : State) : Instr → Option State
  | .op operation => some { operation.exec p s with eip := after }
  | .jmp target => some { s with eip := target }
  | .call target => some { s.push after with eip := target }
  | .ret => some { s.drop with eip := s.top }
  | .int vector =>
      match p.gate vector with
      | none => none
      | some gate => if gate.dpl < s.cpl then none else some (s.interrupt p gate none after)
  | .iret => s.iret

/-! ## Runs -/

/-- A run, with the states in which it entered C functions. -/
inductive Runs : State → List State → State → Prop
  | nil {s : State} : Runs s [] s
  | instr {s next final : State} {calls : List State} {instr : Instr} {after : BitVec 32}
      (fetched : p.content s.eip = some (.instr instr after))
      (executed : instr.exec p after s = some next) (rest : Runs next calls final) :
      Runs s calls final
  | call {s final : State} {calls : List State} {function : State → State}
      (fetched : p.content s.eip = some (.function function))
      (rest : Runs (function s) calls final) : Runs s (s :: calls) final

def Loaded (address : BitVec 32) : (instrs : List Instr) → Prop
  | [] => True
  | instr :: rest => ∃ after, p.content address = some (.instr instr after) ∧ Loaded after rest

def execAll (s : State) (ops : List Op) : State := ops.foldl (fun s op => op.exec p s) s

end

variable {p : Platform}

theorem Runs.append {first middle final : State} {calls later : List State}
    (run : Runs p first calls middle) (rest : Runs p middle later final) :
    Runs p first (calls ++ later) final := by
  induction run with
  | nil => exact rest
  | instr fetched executed _ induction => exact .instr fetched executed (induction rest)
  | call fetched _ induction => exact .call fetched (induction rest)

theorem Op.exec_eip (op : Op) (s : State) (eip : BitVec 32) :
    op.exec p { s with eip := eip } = { op.exec p s with eip := eip } := by
  cases op with
  | push source => cases source <;> rfl
  | pop target => cases target <;> rfl
  | mov dst src => rfl
  | load dst base offset => rfl
  | movLow dst value => rfl
  | movSeg dst src => rfl
  | add dst value => rfl
  | cli => rfl

theorem execAll_eip (ops : List Op) (s : State) (eip : BitVec 32) :
    execAll p { s with eip := eip } ops = { execAll p s ops with eip := eip } := by
  induction ops generalizing s with
  | nil => rfl
  | cons op rest induction =>
      rw [execAll, List.foldl_cons, Op.exec_eip]
      exact induction (op.exec p s)

theorem execAll_append (s : State) (first second : List Op) :
    execAll p s (first ++ second) = execAll p (execAll p s first) second := List.foldl_append

theorem Loaded.runs {ops : List Op} {tail : List Instr} {address : BitVec 32}
    (loaded : Loaded p address (ops.map .op ++ tail)) : ∃ after, Loaded p after tail ∧
      ∀ s : State, s.eip = address → Runs p s [] { execAll p s ops with eip := after } := by
  induction ops generalizing address with
  | nil =>
      refine ⟨address, loaded, fun s at_address => ?_⟩
      rw [← at_address]
      exact .nil
  | cons op rest induction =>
      rcases loaded with ⟨next, fetched, loaded⟩
      rcases induction loaded with ⟨after, ends, runs⟩
      refine ⟨after, ends, fun s at_address => ?_⟩
      have later := runs { op.exec p s with eip := next } rfl
      rw [execAll_eip] at later
      rw [← at_address] at fetched
      exact .instr fetched rfl later

theorem Loaded.runs_then {ops : List Op} {instr : Instr} {tail : List Instr}
    {address : BitVec 32} (loaded : Loaded p address (ops.map .op ++ instr :: tail)) :
    ∃ last after, Loaded p after tail ∧ ∀ s next : State, s.eip = address →
      instr.exec p after { execAll p s ops with eip := last } = some next → Runs p s [] next := by
  rcases loaded.runs with ⟨last, ⟨after, fetched, rest⟩, runs⟩
  exact ⟨last, after, rest, fun s next at_address executed =>
    (runs s at_address).append (.instr fetched executed .nil)⟩

end Yoctos.Ia32
