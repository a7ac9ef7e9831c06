import Yoctos.Ia32.Stack

/-! # Interrupts and their return

What the CPU leaves on the kernel's stack, and that `iret` resumes from it.
-/

namespace Yoctos.Ia32

/-- The words that an interrupt saves to resume `s` at `returnEip`, with the
stack only when less privileged code was interrupted. -/
inductive Context (s : State) (returnEip : BitVec 32) : List (BitVec 32) → Prop
  | kernel {cs : BitVec 32} (level : s.cpl = 0) (code : cs.setWidth 16 = s.segs .cs) :
      Context s returnEip [returnEip, cs, s.eflags]
  | user {cs ss : BitVec 32} (level : s.cpl ≠ 0) (code : cs.setWidth 16 = s.segs .cs)
      (stack : ss.setWidth 16 = s.segs .ss) :
      Context s returnEip [returnEip, cs, s.eflags, s.regs .esp, ss]

theorem Context.length_le {s : State} {returnEip : BitVec 32} {words : List (BitVec 32)}
    (context : Context s returnEip words) : words.length ≤ 5 := by
  cases context <;> simp

theorem Context.length_of_user {s : State} {returnEip : BitVec 32} {words : List (BitVec 32)}
    (context : Context s returnEip words) (level : s.cpl ≠ 0) : words.length = 5 := by
  cases context with
  | kernel kernel code => exact absurd kernel level
  | user user code stack => rfl

def State.interruptTop (p : Platform) (s : State) : BitVec 32 :=
  if s.cpl = 0 then s.regs .esp else p.esp0

/-- `t` runs in the code segment `selector` because of an interrupt of `s`, and
`words` are all that lies on the kernel's stack since. -/
structure InKernel (p : Platform) (s : State) (selector : BitVec 16)
    (words : List (BitVec 32)) (t : State) : Prop where
  stack : t.Stack words
  esp : t.regs .esp = s.interruptTop p - BitVec.ofNat 32 (4 * words.length)
  cs : t.segs .cs = selector
  ss : t.segs .ss = if s.cpl = 0 then s.segs .ss else p.ss0
  nested : t.eflags &&& nestedTask = 0

structure Interrupted (p : Platform) (s : State) (selector : BitVec 16)
    (words : List (BitVec 32)) (t : State) : Prop extends InKernel p s selector words t where
  regs : ∀ reg, reg ≠ .esp → t.regs reg = s.regs reg
  segs : ∀ seg, seg ≠ .cs → seg ≠ .ss → t.segs seg = s.segs seg
  memory : Memory.ChangesOnly (t.regs .esp) (4 * words.length) s.memory t.memory

structure Resumes (s : State) (returnEip : BitVec 32) (t : State) : Prop where
  eip : t.eip = returnEip
  eflags : t.eflags = s.eflags
  regs : t.regs = s.regs
  segs : t.segs = s.segs

structure Returned (s : State) (returnEip : BitVec 32) (t u : State) : Prop where
  eip : u.eip = returnEip
  eflags : u.eflags = s.eflags
  esp : u.regs .esp = s.regs .esp
  cs : u.segs .cs = s.segs .cs
  ss : u.segs .ss = s.segs .ss
  regs : ∀ reg, reg ≠ .esp → u.regs reg = t.regs reg
  segs : ∀ seg, seg ≠ .cs → seg ≠ .ss → u.segs seg = t.segs seg
  memory : u.memory = t.memory

variable {p : Platform} {s : State}

/-! ## Entry -/

theorem Pushed.push {t : State} {count : Nat} (pushed : Pushed s t count)
    (short : 4 * (count + 1) ≤ 2 ^ 32) (value : BitVec 32) :
    Pushed s (t.push value) (count + 1) := pushed.trans (pushed_push t value) short

namespace State

def enterKernel (p : Platform) (s : State) : State :=
  if s.cpl = 0 then s else (s.set .esp p.esp0).setSeg .ss p.ss0

theorem enterKernel_esp (p : Platform) (s : State) :
    (s.enterKernel p).regs .esp = s.interruptTop p := by
  unfold enterKernel interruptTop
  split
  · rfl
  · simp [set, setSeg]

theorem enterKernel_regs (p : Platform) (s : State) {reg : Reg} (other : reg ≠ .esp) :
    (s.enterKernel p).regs reg = s.regs reg := by
  unfold enterKernel
  split
  · rfl
  · simp [set, setSeg, other]

theorem enterKernel_segs (p : Platform) (s : State) {seg : Seg} (other : seg ≠ .ss) :
    (s.enterKernel p).segs seg = s.segs seg := by
  unfold enterKernel
  split
  · rfl
  · simp [set, setSeg, other]

theorem enterKernel_ss (p : Platform) (s : State) :
    (s.enterKernel p).segs .ss = if s.cpl = 0 then s.segs .ss else p.ss0 := by
  unfold enterKernel
  split
  · rfl
  · simp [set, setSeg]

theorem enterKernel_memory (p : Platform) (s : State) : (s.enterKernel p).memory = s.memory := by
  unfold enterKernel
  split <;> rfl

theorem pushContext_stack {below : List (BitVec 32)} (stack : s.Stack below)
    (short : below.length ≤ 2) (returnEip : BitVec 32) : ∃ cs : BitVec 32,
    cs.setWidth 16 = s.segs .cs ∧
      (s.pushContext p returnEip).Stack (returnEip :: cs :: s.eflags :: below) := by
  have flags := stack.push (by omega) s.eflags
  have code := flags.push (by simp only [List.length_cons]; omega)
    ((s.push s.eflags).segmentWord p (s.segs .cs))
  have all := code.push (by simp only [List.length_cons]; omega) returnEip
  exact ⟨_, segmentWord_low p _ _, all⟩

theorem pushContext_pushed (s : State) (returnEip : BitVec 32) :
    Pushed s (s.pushContext p returnEip) 3 :=
  ((pushed_push s _).push (by decide) _).push (by decide) returnEip

theorem context_of_interrupt (p : Platform) (s : State) (returnEip : BitVec 32) :
    ∃ words, let framed := (if s.cpl = 0 then s else s.switchStack p).pushContext p returnEip
      Context s returnEip words ∧ framed.Stack words ∧
        Pushed (s.enterKernel p) framed words.length := by
  have nothing : ∀ t : State, t.Stack [] := fun _ => trivial
  by_cases level : s.cpl = 0
  · rcases pushContext_stack (nothing s) (by simp) returnEip with ⟨cs, code, stack⟩
    rw [if_pos level, enterKernel, if_pos level]
    exact ⟨_, .kernel level code, stack, s.pushContext_pushed returnEip⟩
  · rw [if_neg level, enterKernel, if_neg level]
    generalize entered : (s.set .esp p.esp0).setSeg .ss p.ss0 = inner
    have switched : s.switchStack p =
        (inner.push (inner.segmentWord p (s.segs .ss))).push (s.regs .esp) := by
      rw [← entered]
      rfl
    have saved := ((nothing inner).push (by simp) (inner.segmentWord p (s.segs .ss))).push
      (by simp) (s.regs .esp)
    rw [← switched] at saved
    have stacked : Pushed inner (s.switchStack p) 2 := by
      rw [switched]
      exact (pushed_push inner _).push (by decide) _
    have selector : (s.switchStack p).segs .cs = s.segs .cs := by
      rw [stacked.segs, ← entered]
      simp [set, setSeg]
    rcases pushContext_stack saved (by simp) returnEip with ⟨cs, code, stack⟩
    rw [selector] at code
    exact ⟨_, .user level code (segmentWord_low p inner _), stack,
      stacked.trans ((s.switchStack p).pushContext_pushed returnEip) (by decide)⟩

theorem clears_nestedTask (flags : BitVec 32) :
    (flags &&& ~~~interruptedFlags) &&& nestedTask = 0 := by
  rw [BitVec.and_assoc, show ~~~interruptedFlags &&& nestedTask = 0#32 by decide]
  exact BitVec.and_zero

theorem interrupted_of_pushed {t : State} {words : List (BitVec 32)} (stack : t.Stack words)
    (pushed : Pushed (s.enterKernel p) t words.length) {selector : BitVec 16}
    {eip eflags : BitVec 32} (nested : eflags &&& nestedTask = 0) :
    Interrupted p s selector words { t.setSeg .cs selector with eip := eip, eflags := eflags } where
  stack := stack
  esp := pushed.esp.trans (by rw [enterKernel_esp])
  regs reg other := (pushed.regs reg other).trans (enterKernel_regs p s other)
  segs seg noCs noSs := by
    rw [← s.enterKernel_segs p noSs, ← pushed.segs]
    exact Function.update_of_ne noCs ..
  cs := by simp [setSeg]
  ss := by
    rw [← enterKernel_ss, ← pushed.segs]
    simp [setSeg]
  nested := nested
  memory := by
    rw [← s.enterKernel_memory p]
    exact pushed.memory

/-- An interrupt saves a context, with the error code on top of it. -/
theorem interrupted (p : Platform) (s : State) (gate : Gate) (errorCode : Option (BitVec 32))
    (returnEip : BitVec 32) : ∃ words, Context s returnEip words ∧
      Interrupted p s gate.selector (errorCode.toList ++ words)
        (s.interrupt p gate errorCode returnEip) := by
  rcases context_of_interrupt p s returnEip with ⟨words, context, stack, pushed⟩
  have short := context.length_le
  have flags := clears_nestedTask s.eflags
  have nested : (if gate.trap then s.eflags &&& ~~~interruptedFlags
      else (s.eflags &&& ~~~interruptedFlags) &&& ~~~interruptEnable) &&& nestedTask = 0 := by
    split
    · exact flags
    · rw [BitVec.and_assoc, BitVec.and_comm (~~~interruptEnable), ← BitVec.and_assoc, flags]
      exact BitVec.zero_and
  refine ⟨words, context, ?_⟩
  cases errorCode with
  | none => exact interrupted_of_pushed stack pushed nested
  | some code =>
      exact interrupted_of_pushed (stack.push (by omega) code) (pushed.push (by omega) code) nested

end State

/-! ## In the kernel -/

namespace InKernel

variable {selector : BitVec 16} {words more : List (BitVec 32)} {t u : State}

theorem pushes (inside : InKernel p s selector words t) (pushed : Pushed t u more.length)
    (stack : u.Stack (more ++ words)) : InKernel p s selector (more ++ words) u where
  stack := stack
  esp := by
    rw [pushed.esp, inside.esp, List.length_append, Nat.mul_add, BitVec.ofNat_add]
    bv_omega
  cs := by rw [pushed.segs, inside.cs]
  ss := by rw [pushed.segs, inside.ss]
  nested := by rw [pushed.eflags, inside.nested]

theorem push (inside : InKernel p s selector words t) (short : words.length * 4 + 4 ≤ 2 ^ 32)
    (value : BitVec 32) : InKernel p s selector (value :: words) (t.push value) :=
  have one : Pushed t (t.push value) [value].length := pushed_push t value
  inside.pushes one (inside.stack.push short value)

theorem drop (inside : InKernel p s selector (more ++ words) t) (memory : u.memory = t.memory)
    (esp : u.regs .esp = t.regs .esp + BitVec.ofNat 32 (4 * more.length))
    (cs : u.segs .cs = t.segs .cs) (ss : u.segs .ss = t.segs .ss)
    (nested : u.eflags &&& nestedTask = t.eflags &&& nestedTask) :
    InKernel p s selector words u where
  stack := by
    rw [State.Stack, memory, esp]
    exact inside.stack.drop_left
  esp := by
    rw [esp, inside.esp, List.length_append, Nat.mul_add, BitVec.ofNat_add]
    bv_omega
  cs := by rw [cs, inside.cs]
  ss := by rw [ss, inside.ss]
  nested := by rw [nested, inside.nested]

theorem congr (inside : InKernel p s selector words t) (memory : u.memory = t.memory)
    (esp : u.regs .esp = t.regs .esp) (cs : u.segs .cs = t.segs .cs)
    (ss : u.segs .ss = t.segs .ss) (nested : u.eflags &&& nestedTask = t.eflags &&& nestedTask) :
    InKernel p s selector words u :=
  have nothing : InKernel p s selector ([] ++ words) t := inside
  nothing.drop memory (by simpa using esp) cs ss nested

theorem pops {targets : List Target} (inside : InKernel p s selector (more ++ words) t)
    (popped : Popped targets t u) (length : more.length = targets.length)
    (noCs : .seg .cs ∉ targets) (noSs : .seg .ss ∉ targets) :
    InKernel p s selector words u :=
  inside.drop popped.memory (by rw [popped.esp, length]) (popped.segs _ noCs)
    (popped.segs _ noSs) (by rw [popped.eflags])

theorem returned {live : BitVec 32 → Prop} {returnTo : BitVec 32} {args : List (BitVec 32)}
    (inside : InKernel p s selector (returnTo :: args ++ words) t) (kept : Cdecl live t u)
    (alive : ∀ index < words.length * 4,
      live (t.regs .esp + BitVec.ofNat 32 (4 * (args.length + 1)) + BitVec.ofNat 32 index)) :
    ∃ left, left.length = args.length ∧ InKernel p s selector (left ++ words) u := by
  rcases u.memory.exists_holds (u.regs .esp) args.length with ⟨left, length, onTop⟩
  have beyond := inside.stack.drop_left
  rw [List.length_cons] at beyond
  have rest : u.memory.Holds (u.regs .esp + BitVec.ofNat 32 (4 * left.length)) words := by
    rw [kept.esp, length, BitVec.add_assoc, show (4 : BitVec 32) = BitVec.ofNat 32 4 from rfl,
      ← BitVec.ofNat_add, show 4 + 4 * args.length = 4 * (args.length + 1) by omega]
    exact beyond.congr fun index bound => kept.memory _ (alive index bound)
  refine ⟨left, length, onTop.append rest, ?_, ?_, ?_, ?_⟩
  · rw [kept.esp, inside.esp]
    simp only [List.length_append, List.length_cons, length]
    bv_omega
  · rw [kept.segs, inside.cs]
  · rw [kept.segs, inside.ss]
  · rw [kept.nested, inside.nested]

end InKernel

namespace Interrupted

variable {selector : BitVec 16} {words more : List (BitVec 32)} {t u : State}

theorem pushes (inside : Interrupted p s selector words t) (pushed : Pushed t u more.length)
    (stack : u.Stack (more ++ words)) :
    Interrupted p s selector (more ++ words) u where
  toInKernel := inside.toInKernel.pushes pushed stack
  regs reg other := (pushed.regs reg other).trans (inside.regs reg other)
  segs seg noCs noSs := by rw [pushed.segs, inside.segs seg noCs noSs]
  memory := by
    have esp := pushed.esp
    rw [List.length_append]
    refine (inside.memory.widen ?_).trans (pushed.memory.widen ?_)
    · bv_omega
    · rw [BitVec.sub_self, BitVec.toNat_zero]
      omega

theorem push (inside : Interrupted p s selector words t) (short : 4 * (words.length + 1) ≤ 2 ^ 32)
    (value : BitVec 32) : Interrupted p s selector (value :: words) (t.push value) :=
  have one : Pushed t (t.push value) [value].length := pushed_push t value
  inside.pushes one (inside.stack.push (by omega) value)

theorem setFlags (inside : Interrupted p s selector words t) (eip : BitVec 32)
    {eflags : BitVec 32} (nested : eflags &&& nestedTask = 0) :
    Interrupted p s selector words { t with eip := eip, eflags := eflags } :=
  ⟨⟨inside.stack, inside.esp, inside.cs, inside.ss, nested⟩, inside.regs, inside.segs,
    inside.memory⟩

theorem cli (inside : Interrupted p s selector words t) :
    Interrupted p s selector words (Op.cli.exec p t) := by
  refine inside.setFlags t.eip ?_
  rw [BitVec.and_assoc, BitVec.and_comm (~~~interruptEnable), ← BitVec.and_assoc, inside.nested]
  exact BitVec.zero_and

/-- Words stored for registers that the interrupt kept are stored for `s`. -/
theorem stores {sources : List Source} (inside : Interrupted p s selector more t)
    (noEsp : .reg .esp ∉ sources) (noCs : .seg .cs ∉ sources) (noSs : .seg .ss ∉ sources)
    (stored : List.Forall₂ (Source.Stores t) sources words) :
    List.Forall₂ (Source.Stores s) sources words := by
  induction stored with
  | nil => exact .nil
  | @cons source word rest words first _ induction =>
      simp only [List.mem_cons, not_or] at noEsp noCs noSs
      refine .cons ?_ (induction noEsp.2 noCs.2 noSs.2)
      cases source with
      | imm value => exact first
      | reg name =>
          exact Eq.trans first (inside.regs name fun same => noEsp.1 (by rw [same]))
      | seg name =>
          have kept := inside.segs name (fun same => noCs.1 (by rw [same]))
            (fun same => noSs.1 (by rw [same]))
          exact Eq.trans first kept

end Interrupted

theorem add_nestedTask (flags added : BitVec 32) :
    ((flags &&& ~~~arithmeticFlags) ||| (added &&& arithmeticFlags)) &&& nestedTask =
      flags &&& nestedTask := by
  rw [BitVec.and_or_distrib_right, BitVec.and_assoc, BitVec.and_assoc,
    show ~~~arithmeticFlags &&& nestedTask = nestedTask by decide,
    show arithmeticFlags &&& nestedTask = 0#32 by decide]
  exact (congrArg _ BitVec.and_zero).trans BitVec.or_zero

namespace State

/-! ## Return -/

theorem iret_of_same {t : State} {eip cs eflags : BitVec 32} (stack : t.Stack [eip, cs, eflags])
    (nested : t.eflags &&& nestedTask = 0)
    (level : (BitVec.setWidth 16 cs).setWidth 2 = t.cpl) :
    t.iret = some ({ t with
      segs := Function.update t.segs .cs (cs.setWidth 16)
      eip := eip
      eflags := eflags : State }.set .esp (t.regs .esp + 4 + 4 + 4)) := by
  rcases stack with ⟨eipWord, csWord, flagsWord, -⟩
  simp only [iret, eipWord, csWord, flagsWord, ne_eq, nested, not_true, if_false, level, if_true]

theorem iret_of_outer {t : State} {eip cs eflags esp ss : BitVec 32}
    (stack : t.Stack [eip, cs, eflags, esp, ss]) (nested : t.eflags &&& nestedTask = 0)
    (level : t.cpl < (BitVec.setWidth 16 cs).setWidth 2) :
    t.iret = some (({ t with
      segs := Function.update t.segs .cs (cs.setWidth 16)
      eip := eip
      eflags := eflags : State }.set .esp esp).setSeg .ss (ss.setWidth 16)) := by
  rcases stack with ⟨eipWord, csWord, flagsWord, espWord, ssWord, -⟩
  have deeper : (BitVec.setWidth 16 cs).setWidth 2 ≠ t.cpl := fun same =>
    BitVec.lt_irrefl _ (same ▸ level)
  simp only [iret, eipWord, csWord, flagsWord, espWord, ssWord, ne_eq, nested, not_true, if_false,
    if_neg deeper, if_pos level]

theorem iret_returned {t : State} {words : List (BitVec 32)} {returnEip : BitVec 32}
    {selector : BitVec 16} (inside : InKernel p s selector words t)
    (context : Context s returnEip words) (privileged : selector.setWidth 2 = 0#2) :
    ∃ u, t.iret = some u ∧ Returned s returnEip t u := by
  have level : t.cpl = 0 := by
    rw [cpl, inside.cs]
    exact privileged
  rcases inside with ⟨stack, esp, -, ss, nested⟩
  cases context with
  | kernel kernel code =>
      rw [interruptTop, if_pos kernel] at esp
      rw [if_pos kernel] at ss
      have back := iret_of_same stack nested (by rw [code, level]; exact kernel)
      refine ⟨_, back, rfl, rfl, ?_, ?_, ?_, fun reg other => ?_, fun seg noCs _ => ?_, rfl⟩
      · rw [set_self, esp, List.length_cons, List.length_cons, List.length_cons, List.length_nil]
        bv_omega
      · simp [set, code]
      · simp [set, ss]
      · simp [set, other]
      · simp [set, noCs]
  | user user code saved =>
      have outer : t.cpl < s.cpl := by
        rw [level]
        exact (BitVec.pos_iff_ne_zero _).mpr user
      have back := iret_of_outer stack nested (by rw [code]; exact outer)
      refine ⟨_, back, rfl, rfl, ?_, ?_, ?_, fun reg other => ?_, fun seg noCs noSs => ?_, rfl⟩
      · simp [set, setSeg]
      · simp [set, setSeg, code]
      · simp [setSeg, saved]
      · simp [set, setSeg, other]
      · simp [set, setSeg, noCs, noSs]

end State

theorem Returned.segs_eq {t u : State} {returnEip : BitVec 32}
    (returned : Returned s returnEip t u)
    (segs : ∀ seg, seg ≠ .cs → seg ≠ .ss → t.segs seg = s.segs seg) : u.segs = s.segs := by
  funext seg
  by_cases codeSegment : seg = .cs
  · rw [codeSegment, returned.cs]
  · by_cases stackSegment : seg = .ss
    · rw [stackSegment, returned.ss]
    · rw [returned.segs seg codeSegment stackSegment, segs seg codeSegment stackSegment]

theorem Returned.resumes {t u : State} {returnEip : BitVec 32} (returned : Returned s returnEip t u)
    (regs : ∀ reg, reg ≠ .esp → t.regs reg = s.regs reg)
    (segs : ∀ seg, seg ≠ .cs → seg ≠ .ss → t.segs seg = s.segs seg) : Resumes s returnEip u := by
  refine ⟨returned.eip, returned.eflags, ?_, returned.segs_eq segs⟩
  funext reg
  by_cases stackPointer : reg = .esp
  · rw [stackPointer, returned.esp]
  · rw [returned.regs reg stackPointer, regs reg stackPointer]

end Yoctos.Ia32
