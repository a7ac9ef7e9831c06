import Yoctos.Ia32.Interrupt
import Yoctos.Interrupt.Idt

/-! # System calls between the two stacks (`user/syscall_asm.s`, `syscall/syscall_asm.s`)

The arguments travel in registers, because the trap gate switches stacks.
-/

namespace Yoctos.Syscall

open Yoctos.Ia32 Yoctos.Interrupt Yoctos.Memory

/-! ## The user's routine -/

def syscallSaved : List Reg := [.ebx, .ecx, .edx, .esi, .edi]

def syscallRestored : List Target := [.reg .edi, .reg .esi, .reg .edx, .reg .ecx, .reg .ebx]

def argumentLoads : List Op :=
  [.load .eax .ebp 8, .load .ebx .ebp 12, .load .ecx .ebp 16, .load .edx .ebp 20,
    .load .esi .ebp 24]

def syscallBefore : List Op :=
  [.push (.reg .ebp), .mov .ebp .esp] ++ (syscallSaved.map .reg).map .push ++ argumentLoads

def syscallAfter : List Op :=
  syscallRestored.map .pop ++ [.mov .esp .ebp, .pop (.reg .ebp)]

def syscall : List Instr :=
  syscallBefore.map .op ++ [.int 48] ++ syscallAfter.map .op ++ [.ret]

/-! ## The kernel's routine -/

def handlerSaved : List Source := [.seg .ds, .seg .es, .seg .fs, .seg .gs]

def handlerRestored : List Target := [.seg .gs, .seg .fs, .seg .es, .seg .ds]

def handlerArguments : List Reg := [.esi, .edx, .ecx, .ebx, .eax]

/-- The arguments are popped into a register that the user's routine restores. -/
def handlerDropped : List Target := List.replicate 5 (.reg .ebx)

def handlerLoads : List Op := [.push (.reg .eax)] ++ loadKernelSegments ++ [.pop (.reg .eax)]

def handlerBefore : List Op :=
  handlerSaved.map .push ++ handlerLoads ++ (handlerArguments.map .reg).map .push

def handlerAfter : List Op := handlerDropped.map .pop ++ handlerRestored.map .pop

def syscallEntry (syscallHandler : BitVec 32) : List Instr :=
  handlerBefore.map .op ++ [.call syscallHandler] ++ handlerAfter.map .op ++ [.iret]

/-- The code is where the linker puts it: `user` is the address of `syscall`,
`syscallHandler` that of the C function. -/
structure Linked (p : Platform) (symbols : Symbols) (user syscallHandler : BitVec 32) : Prop where
  gate : p.gate 48 = (idtInit symbols 48).gate
  user : Loaded p user syscall
  kernel : Loaded p symbols.syscallEntry (syscallEntry syscallHandler)

/-! ## Before the interrupt -/

section

variable {p : Platform} {s t : State} {nb arg1 arg2 arg3 arg4 after address : BitVec 32}

def userFrame (s : State) (address : BitVec 32) : Prop :=
  (address - (s.regs .esp - 28)).toNat < 28

/-- What the user's routine has done when it reaches `int 48`. -/
structure Prepared (s : State) (after nb arg1 arg2 arg3 arg4 : BitVec 32) (t : State) : Prop where
  eax : t.regs .eax = nb
  ebx : t.regs .ebx = arg1
  ecx : t.regs .ecx = arg2
  edx : t.regs .edx = arg3
  esi : t.regs .esi = arg4
  ebp : t.regs .ebp = s.regs .esp - 8
  esp : t.regs .esp = s.regs .esp - 28
  segs : t.segs = s.segs
  frame : t.Stack [s.regs .edi, s.regs .esi, s.regs .edx, s.regs .ecx, s.regs .ebx, s.regs .ebp,
    after]

private theorem Prepared.setEip (prepared : Prepared s after nb arg1 arg2 arg3 arg4 t)
    (eip : BitVec 32) : Prepared s after nb arg1 arg2 arg3 arg4 { t with eip := eip } :=
  ⟨prepared.eax, prepared.ebx, prepared.ecx, prepared.edx, prepared.esi, prepared.ebp,
    prepared.esp, prepared.segs, prepared.frame⟩

theorem prepared (args : s.Stack [nb, arg1, arg2, arg3, arg4]) (eip : BitVec 32) :
    Prepared s after nb arg1 arg2 arg3 arg4
      (execAll p { s.push after with eip := eip } syscallBefore) := by
  have called := (args.push (by simp) after).push (by simp) (s.regs .ebp)
  generalize framed : execAll p { s.push after with eip := eip }
    [.push (.reg .ebp), .mov .ebp .esp] = v
  have onFrame : v.Stack [s.regs .ebp, after, nb, arg1, arg2, arg3, arg4] := by
    rw [← framed]
    exact called
  have vSegs : v.segs = s.segs := by rw [← framed]; rfl
  have vEbp : v.regs .ebp = v.regs .esp := by rw [← framed]; rfl
  have vEsp : v.regs .esp = s.regs .esp - 4 - 4 := by rw [← framed]; rfl
  have vSaved : syscallSaved.map v.regs = syscallSaved.map s.regs := by rw [← framed]; rfl
  have noEsp : .reg .esp ∉ syscallSaved.map Source.reg := by decide
  rcases execAll_pushes noEsp onFrame (by simp [syscallSaved]) with ⟨saved, stored, stack, pushed⟩
  rw [stores_regs stored, vSaved] at stack
  generalize reached : execAll p v ((syscallSaved.map .reg).map .push) = w at stack pushed
  have all : execAll p { s.push after with eip := eip } syscallBefore =
      execAll p w argumentLoads := by
    rw [syscallBefore, execAll_append, execAll_append, framed, reached]
  rw [all]
  have wEbp : w.regs .ebp = w.regs .esp + 20 := by
    rw [pushed.regs _ (by decide), vEbp, pushed.esp]
    simp [syscallSaved]
  have frame : w.memory.Holds (w.regs .ebp) [s.regs .ebp, after, nb, arg1, arg2, arg3, arg4] := by
    rw [wEbp]
    exact stack.drop_left
  rcases frame with ⟨-, -, first, second, third, fourth, fifth, -⟩
  rw [BitVec.add_assoc] at first
  rw [BitVec.add_assoc, BitVec.add_assoc] at second
  rw [BitVec.add_assoc, BitVec.add_assoc, BitVec.add_assoc] at third
  rw [BitVec.add_assoc, BitVec.add_assoc, BitVec.add_assoc, BitVec.add_assoc] at fourth
  rw [BitVec.add_assoc, BitVec.add_assoc, BitVec.add_assoc, BitVec.add_assoc, BitVec.add_assoc]
    at fifth
  refine ⟨first, second, third, fourth, fifth, ?_, ?_, pushed.segs.trans vSegs, ?_⟩
  · exact (pushed.regs _ (by decide)).trans (vEbp.trans (vEsp.trans (by bv_omega)))
  · exact pushed.esp.trans ((congrArg (· - _) vEsp).trans (by simp [syscallSaved]; bv_omega))
  · have whole : w.Stack ([s.regs .edi, s.regs .esi, s.regs .edx, s.regs .ecx, s.regs .ebx,
        s.regs .ebp, after] ++ [nb, arg1, arg2, arg3, arg4]) := stack
    exact whole.of_append

variable {symbols : Symbols} {user syscallHandler : BitVec 32} {selector : BitVec 16}
  {words : List (BitVec 32)} {x : State}

private theorem syscall_traps (linked : Linked p symbols user syscallHandler)
    (calling : p.content s.eip = some (.instr (.call user) after)) (level : s.cpl = 3)
    (args : s.Stack [nb, arg1, arg2, arg3, arg4]) :
    ∃ x next words t, Prepared s after nb arg1 arg2 arg3 arg4 x ∧
      Loaded p next (syscallAfter.map .op ++ [.ret]) ∧ x.cpl ≠ 0 ∧ Context x next words ∧
      Runs p s [] t ∧ t.eip = symbols.syscallEntry ∧
      Interrupted p x gdtKernelCodeSelector words t := by
  have inUser := linked.user
  rw [syscall, List.append_assoc, List.append_assoc] at inUser
  rcases inUser.runs_then with ⟨last, next, rest, runs⟩
  have before : Prepared s after nb arg1 arg2 arg3 arg4
      { execAll p { s.push after with eip := user } syscallBefore with eip := last } :=
    (prepared args user).setEip last
  have trapping := runs { s.push after with eip := user }
  generalize ({ execAll p { s.push after with eip := user } syscallBefore with
    eip := last } : State) = x at before trapping
  have user3 : x.cpl = 3 := by
    rw [State.cpl, before.segs]
    exact level
  have unprivileged : x.cpl ≠ 0 := by
    rw [user3]
    decide
  have trap : p.gate 48 = some ⟨gdtKernelCodeSelector, symbols.syscallEntry, true, 3⟩ :=
    linked.gate.trans (gate_syscall symbols)
  rcases State.interrupted p x ⟨gdtKernelCodeSelector, symbols.syscallEntry, true, 3⟩ none next
    with ⟨words, context, inside⟩
  have allowed : ¬(3 : BitVec 2) < x.cpl := by
    rw [user3]
    decide
  have trapped : Runs p s [] (x.interrupt p
      ⟨gdtKernelCodeSelector, symbols.syscallEntry, true, 3⟩ none next) := by
    refine .instr calling rfl (trapping _ rfl ?_)
    rw [Instr.exec, trap]
    exact if_neg allowed
  exact ⟨x, next, words, _, before, rest, unprivileged, context, trapped, rfl, inside⟩

/-! ## In the kernel -/

/-- `eax` takes part in the loads, and comes back from the stack. -/
theorem segments_loaded (inside : Interrupted p x selector words t) (short : words.length ≤ 9) :
    InKernel p x selector words (execAll p t handlerLoads) ∧
      (∀ reg, reg ≠ .esp → (execAll p t handlerLoads).regs reg = x.regs reg) ∧
      (execAll p t handlerLoads).memory = (t.push (t.regs .eax)).memory := by
  have pushed := inside.toInKernel.push (by omega) (t.regs .eax)
  generalize loaded : execAll p (t.push (t.regs .eax)) loadKernelSegments = u
  have loading : InKernel p x selector ([t.regs .eax] ++ words) u := by
    rw [← loaded]
    exact pushed.congr rfl rfl rfl rfl rfl
  have others : ∀ reg, reg ≠ .eax → u.regs reg = (t.push (t.regs .eax)).regs reg := by
    intro reg other
    rw [← loaded]
    exact Function.update_of_ne other _ _
  have all : execAll p t handlerLoads = u.drop.set .eax (t.regs .eax) := by
    rw [← loading.stack.top_eq, ← loaded]
    rfl
  rw [all]
  refine ⟨loading.drop rfl ?_ rfl rfl rfl, fun reg noEsp => ?_, by rw [← loaded]; rfl⟩
  · simp [State.set, State.drop]
  · by_cases isEax : reg = .eax
    · rw [isEax, State.set_self, inside.regs _ (by decide)]
    · simp only [State.set, State.drop, Function.update_of_ne isEax, Function.update_of_ne noEsp]
      rw [others reg isEax, t.push_regs _ noEsp, inside.regs reg noEsp]

/-- The arguments of the C function come from the registers, in the order of its
parameters. -/
theorem handler_entered (inside : Interrupted p x selector words t) (length : words.length = 5)
    (at_entry : t.eip = address) (loaded : Loaded p address (syscallEntry syscallHandler)) :
    ∃ entry returnTo saved, Runs p t [] entry ∧ entry.eip = syscallHandler ∧
      Loaded p returnTo (handlerAfter.map .op ++ [.iret]) ∧
      List.Forall₂ (Source.Stores x) handlerSaved saved ∧
      InKernel p x selector
        (returnTo :: [x.regs .eax, x.regs .ebx, x.regs .ecx, x.regs .edx, x.regs .esi] ++
          (saved.reverse ++ words)) entry ∧
      entry.regs .ebp = x.regs .ebp ∧
      Memory.ChangesOnly (entry.regs .esp) 60 x.memory entry.memory := by
  rw [syscallEntry, List.append_assoc, List.append_assoc] at loaded
  rcases loaded.runs_then with ⟨last, returnTo, rest, runs⟩
  have noSegments : .reg .esp ∉ handlerSaved := by decide
  rcases execAll_pushes noSegments inside.stack (by simp [handlerSaved, length]) with
    ⟨saved, stored, stack, pushed⟩
  generalize reached : execAll p t (handlerSaved.map .push) = k at stack pushed
  have savedLength : saved.reverse.length = handlerSaved.length := by
    rw [List.length_reverse, stored.length_eq]
  have saving : Interrupted p x selector (saved.reverse ++ words) k :=
    inside.pushes (savedLength ▸ pushed) stack
  have counted : (saved.reverse ++ words).length = 9 := by
    rw [List.length_append, savedLength, length]
    rfl
  rcases segments_loaded saving counted.le with ⟨loading, regs, memory⟩
  generalize prepared : execAll p k handlerLoads = l at loading regs memory
  have noArguments : .reg .esp ∉ handlerArguments.map Source.reg := by decide
  rcases execAll_pushes noArguments loading.stack (by rw [counted]; decide) with
    ⟨args, argsStored, argsStack, argsPushed⟩
  generalize argued : execAll p l ((handlerArguments.map .reg).map .push) = m
    at argsStack argsPushed
  have all : execAll p t handlerBefore = m := by
    rw [handlerBefore, execAll_append, execAll_append, reached, prepared, argued]
  have values : (handlerArguments.map l.regs).reverse =
      [x.regs .eax, x.regs .ebx, x.regs .ecx, x.regs .edx, x.regs .esi] := by
    simp [handlerArguments, regs]
  rw [stores_regs argsStored, values] at argsStack
  have five : Pushed l m
      [x.regs .eax, x.regs .ebx, x.regs .ecx, x.regs .edx, x.regs .esi].length := argsPushed
  have calling := loading.pushes five argsStack
  have entered := calling.push (by simp only [List.length_append, List.length_cons,
    List.length_nil] at counted ⊢; omega) returnTo
  have ebp : m.regs .ebp = x.regs .ebp := by
    rw [argsPushed.regs _ (by decide), regs _ (by decide)]
  refine ⟨{ m.push returnTo with eip := syscallHandler }, returnTo, saved,
    runs t _ at_entry (by rw [all]; rfl), rfl, rest,
    inside.stores (by decide) (by decide) (by decide) stored,
    entered.congr rfl rfl rfl rfl rfl,
    (m.push_regs returnTo (by decide)).trans ebp, ?_⟩
  have kEsp : k.regs .esp = x.interruptTop p - 36 := by rw [saving.esp, counted]; rfl
  have lEsp : l.regs .esp = x.interruptTop p - 36 := by rw [loading.esp, counted]; rfl
  have mEsp : m.regs .esp = x.interruptTop p - 56 := by
    rw [argsPushed.esp, lEsp]
    simp only [handlerArguments, List.map_cons, List.map_nil, List.length_cons, List.length_nil]
    bv_omega
  have saves := saving.memory
  have argues := argsPushed.memory
  rw [counted] at saves
  rw [memory, List.length_map, show handlerArguments.length = 5 from rfl] at argues
  have toKernel : Memory.ChangesOnly (m.regs .esp - 4) 60 x.memory k.memory :=
    saves.widen (by rw [kEsp, mEsp]; bv_omega)
  have withEax : Memory.ChangesOnly (m.regs .esp - 4) 60 x.memory
      (k.push (k.regs .eax)).memory :=
    State.push_changesOnly toKernel _ (by rw [kEsp, mEsp]; bv_omega)
  have withArgs := withEax.trans (argues.widen (by bv_omega))
  rw [show State.regs _ .esp = m.regs .esp - 4 from m.push_esp returnTo]
  exact withArgs.setWord returnTo (by rw [BitVec.sub_self]; decide)

private theorem handler_returned {returnEip returnTo : BitVec 32} {left saved : List (BitVec 32)}
    (context : Context x returnEip words)
    (inside : InKernel p x selector (left ++ (saved.reverse ++ words)) t)
    (length : left.length = 5) (privileged : selector.setWidth 2 = 0#2)
    (stored : List.Forall₂ (Source.Stores x) handlerSaved saved) (at_return : t.eip = returnTo)
    (loaded : Loaded p returnTo (handlerAfter.map .op ++ [.iret])) :
    ∃ u, Runs p t [] u ∧ u.eip = returnEip ∧ u.regs .esp = x.regs .esp ∧
      u.regs .eax = t.regs .eax ∧ u.regs .ebp = t.regs .ebp ∧ u.segs = x.segs ∧
      u.memory = t.memory := by
  rcases loaded.runs_then with ⟨last, after, -, runs⟩
  have dropped : Popped handlerDropped t (execAll p t (handlerDropped.map .pop)) :=
    execAll_pops t (by decide)
  generalize reached : execAll p t (handlerDropped.map .pop) = k at dropped
  have dropping : InKernel p x selector (saved.reverse ++ words) k :=
    inside.pops dropped length (by decide) (by decide)
  have restored : Popped handlerRestored k (execAll p k (handlerRestored.map .pop)) :=
    execAll_pops k (by decide)
  have agrees : ∀ target ∈ handlerRestored,
      target.Agrees x (execAll p k (handlerRestored.map .pop)) := fun target member =>
    execAll_pops_agrees (by decide) (restored_of_stored (by decide) stored) dropping.stack member
  generalize back : execAll p k (handlerRestored.map .pop) = l at restored agrees
  have restoring : InKernel p x selector words { l with eip := last } :=
    (dropping.pops restored (by rw [List.length_reverse, ← stored.length_eq]; rfl) (by decide)
      (by decide)).congr rfl rfl rfl rfl rfl
  have all : execAll p t handlerAfter = l := by
    rw [handlerAfter, execAll_append, reached, back]
  rcases State.iret_returned restoring context privileged with ⟨u, executed, returned⟩
  have kept : ∀ reg, reg ≠ .esp → reg ≠ .ebx → u.regs reg = t.regs reg := by
    intro reg noEsp noEbx
    have absent : .reg reg ∉ handlerDropped := fun member =>
      noEbx (Target.reg.inj (List.eq_of_mem_replicate member))
    have untouched : .reg reg ∉ handlerRestored := by simp [handlerRestored]
    rw [returned.regs reg noEsp]
    exact (restored.regs reg noEsp untouched).trans (dropped.regs reg noEsp absent)
  refine ⟨u, runs t u at_return (by rw [all]; exact executed), returned.eip, returned.esp,
    kept _ (by decide) (by decide), kept _ (by decide) (by decide), ?_,
    returned.memory.trans (restored.memory.trans dropped.memory)⟩
  refine returned.segs_eq fun seg noCs noSs => ?_
  have member : .seg seg ∈ handlerRestored := by
    cases seg <;> first | exact absurd rfl noCs | exact absurd rfl noSs | decide
  exact agrees _ member

/-! ## After the interrupt -/

private theorem user_returned (at_address : t.eip = address)
    (loaded : Loaded p address (syscallAfter.map .op ++ [.ret]))
    (esp : t.regs .esp = s.regs .esp - 28) (ebp : t.regs .ebp = s.regs .esp - 8)
    (frame : t.Stack [s.regs .edi, s.regs .esi, s.regs .edx, s.regs .ecx, s.regs .ebx,
      s.regs .ebp, after]) :
    ∃ final, Runs p t [] final ∧ final.eip = after ∧ final.regs .eax = t.regs .eax ∧
      (∀ reg, reg ≠ .eax → final.regs reg = s.regs reg) ∧ final.segs = t.segs := by
  rcases loaded.runs_then with ⟨last, next, -, runs⟩
  have popped : Popped syscallRestored t (execAll p t (syscallRestored.map .pop)) :=
    execAll_pops t (by decide)
  have stored : List.Forall₂ (fun target => target.source.Stores s) syscallRestored
      [s.regs .edi, s.regs .esi, s.regs .edx, s.regs .ecx, s.regs .ebx] :=
    .cons rfl (.cons rfl (.cons rfl (.cons rfl (.cons rfl .nil))))
  have agrees : ∀ target ∈ syscallRestored,
      target.Agrees s (execAll p t (syscallRestored.map .pop)) := fun target member =>
    execAll_pops_agrees (by decide) stored frame member
  generalize reached : execAll p t (syscallRestored.map .pop) = u at popped agrees
  have uEsp : u.regs .esp = s.regs .esp - 8 := by
    rw [popped.esp, esp]
    simp only [syscallRestored, List.length_cons, List.length_nil]
    bv_omega
  have uEbp : u.regs .ebp = u.regs .esp := by
    rw [popped.regs _ (by decide) (by decide), ebp, uEsp]
  have five : [s.regs .edi, s.regs .esi, s.regs .edx, s.regs .ecx, s.regs .ebx].length =
      syscallRestored.length := rfl
  have saved : u.Stack [s.regs .ebp, after] := popped.stack five frame
  have balanced : (u.set .esp (u.regs .ebp)).Stack [s.regs .ebp, after] := by
    rw [State.Stack, State.set_self, uEbp]
    exact saved
  generalize moved : u.set .esp (u.regs .ebp) = v at balanced
  have vEsp : v.regs .esp = s.regs .esp - 8 := by rw [← moved, State.set_self, uEbp, uEsp]
  have all : execAll p t syscallAfter = v.drop.set .ebp (s.regs .ebp) := by
    rw [syscallAfter, execAll_append, reached, ← balanced.top_eq, ← moved]
    rfl
  have onReturn : (v.drop.set .ebp (s.regs .ebp)).Stack [after] := balanced.drop
  have others : ∀ reg, reg ≠ .esp → reg ≠ .ebp →
      (v.drop.set .ebp (s.regs .ebp)).drop.regs reg = u.regs reg := by
    intro reg noEsp noEbp
    rw [State.drop_regs _ noEsp, State.set_other _ noEbp, State.drop_regs _ noEsp, ← moved,
      State.set_other _ noEsp]
  refine ⟨{ (v.drop.set .ebp (s.regs .ebp)).drop with eip := after }, runs t _ at_address ?_, rfl,
    ?_, fun reg noEax => ?_, ?_⟩
  · rw [all]
    exact congrArg (fun eip => some { (v.drop.set .ebp (s.regs .ebp)).drop with eip := eip })
      onReturn.top_eq
  · exact (others .eax (by decide) (by decide)).trans (popped.regs _ (by decide) (by decide))
  · by_cases isEsp : reg = .esp
    · rw [isEsp, State.drop_esp, State.set_other _ (by decide), State.drop_esp, vEsp]
      bv_omega
    · by_cases isEbp : reg = .ebp
      · rw [isEbp, State.drop_regs _ (by decide), State.set_self]
      · have member : .reg reg ∈ syscallRestored := by
          cases reg <;> first | exact absurd rfl noEax | exact absurd rfl isEsp |
            exact absurd rfl isEbp | decide
        exact (others reg isEsp isEbp).trans (agrees _ member)
  · funext seg
    rw [← popped.segs seg (by simp [syscallRestored]), ← moved]
    rfl

/-! ## The whole call -/

def kernelFrame (p : Platform) (address : BitVec 32) : Prop :=
  (address - (p.esp0 - 60)).toNat < 60

def callersFrames (p : Platform) (s : State) (address : BitVec 32) : Prop :=
  userFrame s address ∨ (address - (p.esp0 - 36)).toNat < 36

/-- A call of `syscall` is one call of `syscall_handler` with the same arguments
in the same order, and returns what that returns with all other registers as
they were. User code has no access to the kernel's stack. -/
theorem syscall_transports (linked : Linked p symbols user syscallHandler)
    {function : State → State} (handler : p.content syscallHandler = some (.function function))
    (calling : p.content s.eip = some (.instr (.call user) after)) (level : s.cpl = 3)
    (args : s.Stack [nb, arg1, arg2, arg3, arg4])
    (apart : ∀ address, userFrame s address → ¬ kernelFrame p address) :
    ∃ entry, Runs p s [] entry ∧ entry.eip = syscallHandler ∧
      entry.memory.Holds (entry.regs .esp + 4) [nb, arg1, arg2, arg3, arg4] ∧
      (Cdecl (callersFrames p s) entry (function entry) →
        ∃ final, Runs p s [entry] final ∧ final.eip = after ∧
          final.regs .eax = (function entry).regs .eax ∧
          (∀ reg, reg ≠ .eax → final.regs reg = s.regs reg) ∧ final.segs = s.segs) := by
  rcases syscall_traps linked calling level args with
    ⟨x, next, words, t, before, afterTrap, unprivileged, context, trapped, at_entry, inside⟩
  have length := context.length_of_user unprivileged
  rcases handler_entered inside length at_entry linked.kernel with
    ⟨entry, returnTo, saved, toHandler, at_handler, fromHandler, stored, called, ebp, changes⟩
  have top : x.interruptTop p = p.esp0 := if_neg unprivileged
  have savedLength : saved.length = 4 := stored.length_eq.symm
  have entryEsp : entry.regs .esp = p.esp0 - 60 := by
    rw [called.esp, top]
    simp [savedLength, length]
  refine ⟨entry, trapped.append toHandler, at_handler, ?_, fun kept => ?_⟩
  · have words := called.stack.2.of_append
    rwa [before.eax, before.ebx, before.ecx, before.edx, before.esi] at words
  · have alive : ∀ index < (saved.reverse ++ words).length * 4, callersFrames p s
        (entry.regs .esp + BitVec.ofNat 32 (4 * ([x.regs .eax, x.regs .ebx, x.regs .ecx,
          x.regs .edx, x.regs .esi].length + 1)) + BitVec.ofNat 32 index) := by
      intro index bound
      right
      rw [List.length_append, List.length_reverse, savedLength, length] at bound
      rw [entryEsp]
      simp only [List.length_cons, List.length_nil]
      bv_omega
    rcases called.returned kept alive with ⟨left, leftLength, returned⟩
    have privileged : gdtKernelCodeSelector.setWidth 2 = 0#2 := by decide
    rcases handler_returned context returned leftLength privileged stored
      (kept.eip.trans called.stack.top_eq) fromHandler with
      ⟨u, back, at_next, uEsp, uEax, uEbp, uSegs, uMemory⟩
    have frame : u.Stack [s.regs .edi, s.regs .esi, s.regs .edx, s.regs .ecx, s.regs .ebx,
        s.regs .ebp, after] := by
      rw [State.Stack, uEsp]
      refine Memory.Holds.congr before.frame fun index bound => ?_
      have inFrame : userFrame s (x.regs .esp + BitVec.ofNat 32 index) := by
        rw [userFrame, before.esp]
        simp only [List.length_cons, List.length_nil] at bound
        bv_omega
      have outside := apart _ inFrame
      rw [kernelFrame, ← entryEsp, Nat.not_lt] at outside
      rw [uMemory, kept.memory _ (.inl inFrame), changes _ outside]
    rcases user_returned at_next afterTrap (uEsp.trans before.esp)
      (uEbp.trans (kept.ebp.trans (ebp.trans before.ebp))) frame with
      ⟨final, ends, at_after, eax, regs, segs⟩
    have toFunction : p.content entry.eip = some (.function function) := at_handler ▸ handler
    refine ⟨final, ?_, at_after, eax.trans uEax, regs, segs.trans (uSegs.trans before.segs)⟩
    exact (trapped.append toHandler).append (.call toFunction (back.append ends))

end

/-! A platform with this code and a handler that returns 42, and a call on it. -/

def returns42 (entry : State) : State := { entry.drop.set .eax 42 with eip := entry.top }

def placedRoutine : Nat → List Instr
  | 48 => syscallEntry (slot 53)
  | 54 => syscall
  | 55 => [.call (slot 54)]
  | _ => []

def placedFunction (index : Nat) : Option (State → State) :=
  if index = 53 then some returns42 else none

def placedPlatform : Platform :=
  placed placedRoutine placedFunction (fun vector => (idtInit placedSymbols vector.toNat).gate)
    0x10 0x9000

theorem placedPlatform_loaded {index : Nat} {code : List Instr} (bound : index < 64)
    (same : placedRoutine index = code) (routine : placedFunction index = none)
    (short : code.length ≤ 64) : Loaded placedPlatform (slot index) code := by
  have content : placedPlatform.content = placedContent placedRoutine placedFunction := rfl
  rw [← same] at short ⊢
  exact loaded_slot content routine (by omega) short

private theorem placedPlatform_linked :
    Linked placedPlatform placedSymbols (slot 54) (slot 53) where
  gate := rfl
  user := placedPlatform_loaded (by decide) rfl rfl (by decide)
  kernel := placedPlatform_loaded (by decide) rfl rfl (by decide)

def idleShell : State where
  regs _ := 0x50000000
  segs
    | .cs => 0x1b
    | _ => 0x23
  eip := slot 55
  eflags := 0x202
  memory _ := 0

def callingShell : State := ((((idleShell.push 40).push 30).push 20).push 10).push 2

private theorem callingShell_stack : callingShell.Stack [2, 10, 20, 30, 40] := by
  have nothing : idleShell.Stack [] := trivial
  exact ((((nothing.push (by simp) 40).push (by simp) 30).push (by simp) 20).push (by simp)
    10).push (by simp) 2

private theorem callingShell_apart (address : BitVec 32) (used : userFrame callingShell address) :
    ¬ kernelFrame placedPlatform address := by
  have esp : callingShell.regs .esp = 0x50000000 - 20 := rfl
  have esp0 : placedPlatform.esp0 = 0x9000 := rfl
  rw [userFrame, esp] at used
  rw [kernelFrame, esp0]
  bv_omega

theorem syscall_transports_shell : ∃ entry final,
    Runs placedPlatform callingShell [entry] final ∧ entry.eip = slot 53 ∧
      entry.memory.Holds (entry.regs .esp + 4) [2, 10, 20, 30, 40] ∧ final.eip = slot 55 + 1 ∧
      final.regs .eax = 42 ∧ (∀ reg, reg ≠ .eax → final.regs reg = callingShell.regs reg) ∧
      final.segs = callingShell.segs := by
  have handler : placedPlatform.content (slot 53) = some (.function returns42) := rfl
  have calling : placedPlatform.content callingShell.eip =
      some (.instr (.call (slot 54)) (slot 55 + 1)) := rfl
  rcases syscall_transports placedPlatform_linked handler calling rfl callingShell_stack
    callingShell_apart with ⟨entry, -, at_handler, args, returns⟩
  rcases returns (cdecl_of_value _ entry 42) with ⟨final, run, at_after, eax, regs, segs⟩
  have value : (returns42 entry).regs .eax = 42 := entry.drop.set_self .eax 42
  exact ⟨entry, final, run, at_handler, args, at_after, eax.trans value, regs, segs⟩

end Yoctos.Syscall
