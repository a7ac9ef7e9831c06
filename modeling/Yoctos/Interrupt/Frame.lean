import Yoctos.Interrupt.Idt
import Yoctos.Ia32.Interrupt

/-! # The frames of interrupt handlers

The stubs and `isr_wrapper` build a `regs_t` around what the CPU has pushed, and
take it apart again.
-/

namespace Yoctos.Interrupt

open Yoctos.Ia32 Yoctos.Memory

structure RegsT where
  gs : BitVec 32
  fs : BitVec 32
  es : BitVec 32
  ds : BitVec 32
  ebp : BitVec 32
  edi : BitVec 32
  esi : BitVec 32
  edx : BitVec 32
  ecx : BitVec 32
  ebx : BitVec 32
  eax : BitVec 32
  number : BitVec 32
  errorCode : BitVec 32
  eip : BitVec 32
  cs : BitVec 32
  eflags : BitVec 32
  esp : BitVec 32
  ss : BitVec 32

def RegsT.read (memory : Ia32.Memory) (address : BitVec 32) : RegsT :=
  let field (index : Nat) := memory.word (address + BitVec.ofNat 32 (4 * index))
  { gs := field 0, fs := field 1, es := field 2, ds := field 3
    ebp := field 4, edi := field 5, esi := field 6
    edx := field 7, ecx := field 8, ebx := field 9, eax := field 10
    number := field 11, errorCode := field 12
    eip := field 13, cs := field 14, eflags := field 15, esp := field 16, ss := field 17 }

def sizeofRegsT : Nat := 18 * 4

/-! ## Events -/

inductive Event
  | exception (number : Fin 21) (code : BitVec 32)
  | irq (number : Fin 16)

namespace Event

def vector : Event → BitVec 8
  | .exception number _ => BitVec.ofNat 8 number
  | .irq number => BitVec.ofNat 8 (irqRemapOffset + number)

def number : Event → BitVec 32
  | .exception number _ => BitVec.ofNat 32 number
  | .irq number => BitVec.ofNat 32 number

/-- What the CPU pushes, for the exceptions that have a code. -/
def errorCode : Event → Option (BitVec 32)
  | .exception number code => if number.val ∈ errorCodeVectors then some code else none
  | .irq _ => none

section

variable (symbols : Symbols)

def stub : Event → BitVec 32
  | .exception number _ => symbols.exception number
  | .irq number => symbols.irq number

def wrapper : Event → BitVec 32
  | .exception _ _ => symbols.exceptionWrapper
  | .irq _ => symbols.irqWrapper

def handler : Event → BitVec 32
  | .exception _ _ => symbols.exceptionHandler
  | .irq _ => symbols.irqHandler

end

end Event

variable {p : Platform} {symbols : Symbols}

theorem gate_event (installed : Installed p symbols) (event : Event) :
    p.gate event.vector = some ⟨gdtKernelCodeSelector, event.stub symbols, false, 0⟩ := by
  rw [installed.gate]
  cases event with
  | exception number code =>
      have small : number.val ≤ lastException := Nat.le_of_lt_succ number.isLt
      have same : (Event.exception number code).vector.toNat = number := by
        rw [Event.vector, BitVec.toNat_ofNat, Nat.mod_eq_of_lt (by omega)]
      rw [same]
      exact gate_exception symbols small
  | irq number =>
      have small : number.val ≤ irqLast := Nat.le_of_lt_succ number.isLt
      have same : (Event.irq number).vector.toNat = irqRemapOffset + number := by
        rw [Event.vector, BitVec.toNat_ofNat, irqRemapOffset, Nat.mod_eq_of_lt (by omega)]
      rw [same]
      exact gate_irq symbols small

private theorem wrapper_loaded (installed : Installed p symbols) (event : Event) :
    Loaded p (event.wrapper symbols) (isrWrapper (event.handler symbols)) := by
  cases event with
  | exception number code => exact installed.exceptionWrapper
  | irq number => exact installed.irqWrapper

/-- The stubs agree with the CPU on which exceptions have an error code. -/
theorem withCode_iff (number : Fin 21) :
    number.val ∈ withCode ↔ number.val ∈ errorCodeVectors := by
  revert number
  decide

/-! ## The stubs -/

section

variable {s t : State} {selector : BitVec 16} {words : List (BitVec 32)}
  {address target : BitVec 32}

private theorem stub_pushes_dummy {number : BitVec 32} (inside : Interrupted p s selector words t)
    (short : words.length ≤ 5) (at_address : t.eip = address)
    (loaded : Loaded p address
      [.op .cli, .op (.push (.imm 0)), .op (.push (.imm number)), .jmp target]) :
    ∃ u, Runs p t [] u ∧ u.eip = target ∧ Interrupted p s selector (number :: 0 :: words) u := by
  have code : Loaded p address
      ([.cli, .push (.imm 0), .push (.imm number)].map .op ++ [.jmp target]) := loaded
  rcases code.runs_then with ⟨_, _, _, runs⟩
  have pushed := (inside.cli.push (by omega) 0).push (by simp only [List.length_cons]; omega) number
  exact ⟨_, runs t _ at_address rfl, rfl, pushed.setFlags target pushed.nested⟩

private theorem stub_pushes_number {number : BitVec 32} (inside : Interrupted p s selector words t)
    (short : words.length ≤ 6) (at_address : t.eip = address)
    (loaded : Loaded p address [.op .cli, .op (.push (.imm number)), .jmp target]) :
    ∃ u, Runs p t [] u ∧ u.eip = target ∧ Interrupted p s selector (number :: words) u := by
  have code : Loaded p address ([.cli, .push (.imm number)].map .op ++ [.jmp target]) := loaded
  rcases code.runs_then with ⟨_, _, _, runs⟩
  have pushed := inside.cli.push (by omega) number
  exact ⟨_, runs t _ at_address rfl, rfl, pushed.setFlags target pushed.nested⟩

private theorem stub_runs (installed : Installed p symbols) (event : Event)
    (inside : Interrupted p s selector (event.errorCode.toList ++ words) t)
    (short : words.length ≤ 5) (at_stub : t.eip = event.stub symbols) :
    ∃ u, Runs p t [] u ∧ u.eip = event.wrapper symbols ∧
      Interrupted p s selector (event.number :: event.errorCode.getD 0 :: words) u := by
  cases event with
  | exception number code =>
      have loaded := installed.exception number (Nat.le_of_lt_succ number.isLt)
      rw [exceptionStub] at loaded
      by_cases coded : number.val ∈ withCode
      · have pushes : (Event.exception number code).errorCode = some code :=
          if_pos ((withCode_iff number).mp coded)
        rw [if_pos coded] at loaded
        rw [pushes] at inside ⊢
        have counted : ((some code).toList ++ words).length ≤ 6 := Nat.succ_le_succ short
        exact stub_pushes_number inside counted at_stub loaded
      · have nothing : (Event.exception number code).errorCode = none :=
          if_neg fun member => coded ((withCode_iff number).mpr member)
        rw [if_neg coded] at loaded
        rw [nothing] at inside ⊢
        exact stub_pushes_dummy inside short at_stub loaded
  | irq number =>
      exact stub_pushes_dummy inside short at_stub
        (installed.irq number (Nat.le_of_lt_succ number.isLt))

/-! ## The wrappers -/

/-- The wrapper calls the handler with a pointer to the saved registers. -/
theorem wrapper_calls {handler : BitVec 32} (inside : Interrupted p s selector words t)
    (short : words.length ≤ 7) (at_address : t.eip = address)
    (loaded : Loaded p address (isrWrapper handler)) :
    ∃ entry returnTo saved, Runs p t [] entry ∧ entry.eip = handler ∧
      Loaded p returnTo (isrAfterCall.map .op ++ [.iret]) ∧
      List.Forall₂ (Source.Stores s) isrSaved saved ∧
      InKernel p s selector
        (returnTo :: [entry.regs .esp + 8] ++ (saved.reverse ++ words)) entry := by
  rw [isrWrapper, List.append_assoc, List.append_assoc] at loaded
  rcases loaded.runs_then with ⟨last, returnTo, rest, runs⟩
  have bound : 4 * (isrSaved.length + words.length) ≤ 2 ^ 32 := by
    rw [show isrSaved.length = 11 from rfl]
    omega
  have noEsp : .reg .esp ∉ isrSaved := by decide
  rcases execAll_pushes noEsp inside.stack bound with ⟨saved, stored, stack, pushed⟩
  generalize reached : execAll p t (isrSaved.map .push) = k at stack pushed
  have length : saved.reverse.length = isrSaved.length := by
    rw [List.length_reverse, stored.length_eq]
  have saving : InKernel p s selector (saved.reverse ++ words) k :=
    inside.toInKernel.pushes (length ▸ pushed) stack
  generalize prepared : execAll p k (loadKernelSegments ++ [.mov .eax .esp]) = l
  have loading : InKernel p s selector (saved.reverse ++ words) l := by
    rw [← prepared]
    exact saving.congr rfl rfl rfl rfl rfl
  have pointer : l.regs .eax = l.regs .esp := by
    rw [← prepared]
    rfl
  have all : execAll p t isrBeforeCall = l.push (l.regs .eax) := by
    rw [← prepared, ← reached]
    rfl
  have counted : (saved.reverse ++ words).length ≤ 18 := by
    rw [List.length_append, length, show isrSaved.length = 11 from rfl]
    omega
  have called := (loading.push (by omega) (l.regs .eax)).push
    (by rw [List.length_cons]; omega) returnTo
  have above : ((l.push (l.regs .eax)).push returnTo).regs .esp + 8 = l.regs .eax := by
    rw [State.push_esp, State.push_esp, pointer]
    bv_omega
  refine ⟨{ (l.push (l.regs .eax)).push returnTo with eip := handler }, returnTo, saved,
    runs t _ at_address (by rw [all]; rfl), rfl, rest,
    inside.stores (by decide) (by decide) (by decide) stored, ?_⟩
  rw [show _ + 8 = l.regs .eax from above]
  exact called.congr rfl rfl rfl rfl rfl

private theorem isrRestored_mirrors : isrSaved.reverse = isrRestored.map Target.source := by decide

private theorem wrapper_returns {returnEip returnTo arg number code : BitVec 32}
    {saved : List (BitVec 32)} (context : Context s returnEip words)
    (inside : InKernel p s selector ([arg] ++ (saved.reverse ++ ([number, code] ++ words))) t)
    (privileged : selector.setWidth 2 = 0#2)
    (stored : List.Forall₂ (Source.Stores s) isrSaved saved) (at_return : t.eip = returnTo)
    (loaded : Loaded p returnTo (isrAfterCall.map .op ++ [.iret])) :
    ∃ final, Runs p t [] final ∧ Resumes s returnEip final := by
  rcases loaded.runs_then with ⟨last, after, -, runs⟩
  have noArgument : InKernel p s selector (saved.reverse ++ ([number, code] ++ words))
      (execAll p t ([.reg .eax].map .pop)) :=
    inside.pops (execAll_pops t (by decide)) rfl (by decide) (by decide)
  generalize popped : execAll p t ([.reg .eax].map .pop) = u at noArgument
  have agrees : ∀ target ∈ isrRestored,
      target.Agrees s (execAll p u (isrRestored.map .pop)) := fun target member =>
    execAll_pops_agrees (by decide) (restored_of_stored isrRestored_mirrors stored)
      noArgument.stack member
  have onFrame : InKernel p s selector ([number, code] ++ words)
      (execAll p u (isrRestored.map .pop)) :=
    noArgument.pops (execAll_pops u (by decide))
      (by rw [List.length_reverse, ← stored.length_eq]; rfl) (by decide) (by decide)
  generalize back : execAll p u (isrRestored.map .pop) = v at agrees onFrame
  have all : execAll p t isrAfterCall = Op.exec p v (.add .esp 8) := by
    rw [← back, ← popped]
    rfl
  have onContext : InKernel p s selector words
      { Op.exec p v (.add .esp 8) with eip := last } := by
    refine onFrame.drop rfl ?_ rfl rfl ?_
    · exact v.set_self .esp _
    · exact add_nestedTask v.eflags _
  have regs : ∀ reg, reg ≠ .esp → (Op.exec p v (.add .esp 8)).regs reg = s.regs reg := by
    intro reg other
    have member : .reg reg ∈ isrRestored := by
      cases reg <;> first | exact absurd rfl other | decide
    exact (Function.update_of_ne other _ _).trans (agrees _ member)
  have segs : ∀ seg, seg ≠ .cs → seg ≠ .ss → v.segs seg = s.segs seg := by
    intro seg noCs noSs
    have member : .seg seg ∈ isrRestored := by
      cases seg <;> first | exact absurd rfl noCs | exact absurd rfl noSs | decide
    exact agrees _ member
  rcases State.iret_returned onContext context privileged with ⟨final, executed, returned⟩
  exact ⟨final, runs t final at_return (by rw [all]; exact executed), returned.resumes regs segs⟩

/-! ## The handlers' view -/

structure RegsT.Saves (regs : RegsT) (s : State) : Prop where
  eax : regs.eax = s.regs .eax
  ebx : regs.ebx = s.regs .ebx
  ecx : regs.ecx = s.regs .ecx
  edx : regs.edx = s.regs .edx
  esi : regs.esi = s.regs .esi
  edi : regs.edi = s.regs .edi
  ebp : regs.ebp = s.regs .ebp
  ds : regs.ds.setWidth 16 = s.segs .ds
  es : regs.es.setWidth 16 = s.segs .es
  fs : regs.fs.setWidth 16 = s.segs .fs
  gs : regs.gs.setWidth 16 = s.segs .gs

/-- `regs` says how `s` was interrupted; `t` is the state in which the CPU starts
the stub. -/
structure RegsT.Describes (regs : RegsT) (event : Event) (s t : State) (returnEip : BitVec 32) :
    Prop where
  number : regs.number = event.number
  errorCode : regs.errorCode = event.errorCode.getD 0
  registers : regs.Saves s
  pushed : t.Stack (event.errorCode.toList ++ [regs.eip, regs.cs, regs.eflags])
  context : regs.eip = returnEip ∧ regs.cs.setWidth 16 = s.segs .cs ∧ regs.eflags = s.eflags
  pushedStack : s.cpl ≠ 0 →
    t.Stack (event.errorCode.toList ++ [regs.eip, regs.cs, regs.eflags, regs.esp, regs.ss])
  stack : s.cpl ≠ 0 → regs.esp = s.regs .esp ∧ regs.ss.setWidth 16 = s.segs .ss

private theorem describes_of_holds {event : Event} {returnEip pointer : BitVec 32}
    {saved : List (BitVec 32)} {memory : Ia32.Memory} (context : Context s returnEip words)
    (stack : t.Stack (event.errorCode.toList ++ words))
    (stored : List.Forall₂ (Source.Stores s) isrSaved saved)
    (holds : memory.Holds pointer
      (saved.reverse ++ ([event.number, event.errorCode.getD 0] ++ words))) :
    (RegsT.read memory pointer).Describes event s t returnEip := by
  have restored := restored_of_stored isrRestored_mirrors stored
  have saving : ∀ index (bound : index < isrRestored.length),
      isrRestored[index].source.Stores s
        (memory.word (pointer + BitVec.ofNat 32 (4 * index))) := by
    intro index bound
    have inBlock := restored.length_eq ▸ bound
    rw [holds.of_append.word_eq inBlock]
    exact restored.get bound inBlock
  have length : saved.reverse.length = 11 := restored.length_eq.symm
  have above : ∀ index (bound : index < (event.number :: event.errorCode.getD 0 :: words).length),
      memory.word (pointer + BitVec.ofNat 32 (4 * (11 + index))) =
        (event.number :: event.errorCode.getD 0 :: words)[index] := by
    intro index bound
    have inBlock : 11 + index <
        (saved.reverse ++ ([event.number, event.errorCode.getD 0] ++ words)).length := by
      rw [List.length_append, length]
      exact Nat.add_lt_add_left bound 11
    rw [holds.word_eq inBlock, List.getElem_append_right (by omega)]
    simp [length]
  have registers : (RegsT.read memory pointer).Saves s :=
    ⟨saving 10 (by decide), saving 9 (by decide), saving 8 (by decide), saving 7 (by decide),
      saving 6 (by decide), saving 5 (by decide), saving 4 (by decide), saving 3 (by decide),
      saving 2 (by decide), saving 1 (by decide), saving 0 (by decide)⟩
  have number : (RegsT.read memory pointer).number = event.number := above 0 (by simp)
  have errorCode : (RegsT.read memory pointer).errorCode = event.errorCode.getD 0 :=
    above 1 (by simp)
  cases context with
  | @kernel cs level code =>
      have eip : (RegsT.read memory pointer).eip = returnEip := above 2 (by simp)
      have selector : (RegsT.read memory pointer).cs = cs := above 3 (by simp)
      have flags : (RegsT.read memory pointer).eflags = s.eflags := above 4 (by simp)
      generalize RegsT.read memory pointer = regs at *
      rw [← eip, ← selector, ← flags] at stack
      exact ⟨number, errorCode, registers, stack, ⟨eip, selector ▸ code, flags⟩,
        fun user => absurd level user, fun user => absurd level user⟩
  | @user cs ss level code oldSs =>
      have eip : (RegsT.read memory pointer).eip = returnEip := above 2 (by simp)
      have selector : (RegsT.read memory pointer).cs = cs := above 3 (by simp)
      have flags : (RegsT.read memory pointer).eflags = s.eflags := above 4 (by simp)
      have esp : (RegsT.read memory pointer).esp = s.regs .esp := above 5 (by simp)
      have stackSegment : (RegsT.read memory pointer).ss = ss := above 6 (by simp)
      generalize RegsT.read memory pointer = regs at *
      rw [← eip, ← selector, ← flags, ← esp, ← stackSegment] at stack
      have whole : t.Stack ((event.errorCode.toList ++ [regs.eip, regs.cs, regs.eflags]) ++
          [regs.esp, regs.ss]) := by
        rw [List.append_assoc]
        exact stack
      exact ⟨number, errorCode, registers, whole.of_append, ⟨eip, selector ▸ code, flags⟩,
        fun _ => stack, fun _ => ⟨esp, stackSegment ▸ oldSs⟩⟩

/-- Every event reaches its handler with a description of the interrupted
code, and from wherever a handler returns that left the description alone, the
interrupted code goes on as it was. -/
theorem interrupt_faithful (installed : Installed p symbols) (event : Event) (s : State)
    (returnEip : BitVec 32) : ∃ gate entry, p.gate event.vector = some gate ∧
      Runs p (s.interrupt p gate event.errorCode returnEip) [] entry ∧
      entry.eip = event.handler symbols ∧
      let pointer := entry.memory.word (entry.regs .esp + 4)
      (RegsT.read entry.memory pointer).Describes event s
        (s.interrupt p gate event.errorCode returnEip) returnEip ∧
      ∀ exit, Cdecl (fun address => (address - pointer).toNat < sizeofRegsT) entry exit →
        ∃ final, Runs p exit [] final ∧ Resumes s returnEip final := by
  rcases State.interrupted p s ⟨gdtKernelCodeSelector, event.stub symbols, false, 0⟩
    event.errorCode returnEip with ⟨words, context, inside⟩
  have short := context.length_le
  rcases stub_runs installed event inside short rfl with ⟨u, toWrapper, at_wrapper, inWrapper⟩
  rcases wrapper_calls inWrapper (by simp only [List.length_cons]; omega) at_wrapper
    (wrapper_loaded installed event) with
    ⟨entry, returnTo, saved, toHandler, at_handler, rest, stored, called⟩
  have pointer : entry.memory.word (entry.regs .esp + 4) = entry.regs .esp + 8 := called.stack.2.1
  have block := called.stack.2.2
  rw [BitVec.add_assoc] at block
  refine ⟨_, entry, gate_event installed event, toWrapper.append toHandler, at_handler, ?_⟩
  simp only [pointer]
  refine ⟨describes_of_holds context inside.stack stored block, fun exit kept => ?_⟩
  have blockLength : (saved.reverse ++ (event.number :: event.errorCode.getD 0 :: words)).length ≤
      18 := by
    rw [List.length_append, List.length_reverse, ← stored.length_eq]
    simp only [isrSaved, List.length_cons, List.length_nil]
    omega
  have alive : ∀ index < (saved.reverse ++ (event.number :: event.errorCode.getD 0 :: words)).length
      * 4, (entry.regs .esp + BitVec.ofNat 32 (4 * ([entry.regs .esp + 8].length + 1)) +
        BitVec.ofNat 32 index - (entry.regs .esp + 8)).toNat < sizeofRegsT := by
    intro index bound
    rw [List.length_singleton, sizeofRegsT]
    bv_omega
  have privileged : gdtKernelCodeSelector.setWidth 2 = 0#2 := by decide
  rcases called.returned kept alive with ⟨left, length, returned⟩
  rcases List.length_eq_one_iff.mp length with ⟨arg, rfl⟩
  exact wrapper_returns context returned privileged stored (kept.eip.trans called.stack.top_eq) rest

end

/-! A platform with this code, and a page fault of user code on it. -/

def placedRoutine (index : Nat) : List Instr :=
  if index ≤ lastException then exceptionStub placedSymbols index
  else if index ≤ 47 then irqStub placedSymbols (index - 32)
  else if index = 49 then isrWrapper placedSymbols.exceptionHandler
  else if index = 50 then isrWrapper placedSymbols.irqHandler
  else []

def placedPlatform : Platform :=
  placed placedRoutine (fun _ => none) (fun vector => (idtInit placedSymbols vector.toNat).gate)
    0x10 0x9000

theorem placedPlatform_loaded {index : Nat} {code : List Instr} (bound : index < 64)
    (same : placedRoutine index = code) (short : code.length ≤ 64) :
    Loaded placedPlatform (slot index) code := by
  have content : placedPlatform.content = placedContent placedRoutine fun _ => none := rfl
  rw [← same] at short ⊢
  exact loaded_slot content rfl (by omega) short

theorem placedPlatform_installed : Installed placedPlatform placedSymbols where
  gate _ := rfl
  exception number known := by
    have small : number ≤ 20 := known
    refine placedPlatform_loaded (by omega) (if_pos known) ?_
    unfold exceptionStub
    split <;> simp [exceptionWithCode, exceptionWoutCode]
  irq number known := by
    have small : number ≤ 15 := known
    refine placedPlatform_loaded (by omega) ?_ (by simp [irqStub])
    rw [placedRoutine, if_neg (by rw [lastException]; omega), if_pos (by omega),
      Nat.add_sub_cancel_left]
  exceptionWrapper := placedPlatform_loaded (by decide) rfl (by decide)
  irqWrapper := placedPlatform_loaded (by decide) rfl (by decide)

def faultingShell : State where
  regs _ := 0x1234
  segs
    | .cs => 0x1b
    | _ => 0x23
  eip := 0x40000010
  eflags := 0x202
  memory _ := 0

theorem interrupt_faithful_pageFault : ∃ gate entry,
    placedPlatform.gate (Event.exception 14 4).vector = some gate ∧
      Runs placedPlatform (faultingShell.interrupt placedPlatform gate
        (Event.exception 14 4).errorCode 0x40000010) [] entry ∧
      entry.eip = (Event.exception 14 4).handler placedSymbols ∧
      let pointer := entry.memory.word (entry.regs .esp + 4)
      (RegsT.read entry.memory pointer).Describes (Event.exception 14 4) faultingShell
        (faultingShell.interrupt placedPlatform gate (Event.exception 14 4).errorCode 0x40000010)
        0x40000010 ∧
      ∀ exit, Cdecl (fun address => (address - pointer).toNat < sizeofRegsT) entry exit →
        ∃ final, Runs placedPlatform exit [] final ∧ Resumes faultingShell 0x40000010 final :=
  interrupt_faithful placedPlatform_installed (.exception 14 4) faultingShell 0x40000010

end Yoctos.Interrupt
