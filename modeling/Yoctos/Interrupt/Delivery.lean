import Yoctos.Interrupt.Acknowledge

/-! # The delivery of hardware interrupts

Devices, the controllers and the CPU take turns in any order: a device may raise
its line, or drop it too early, between any two writes of the kernel.
-/

namespace Yoctos.Interrupt

open Yoctos.Ia32 Yoctos.Transition

variable {Func : Type u}

/-- `irq_handler` has been called for the IRQs in `calls`, each time with the
function of its handler, if any. -/
structure Delivery (Func : Type u) where
  pics : Pics
  handlers : Fin 16 → IrqHandler Func
  enabled : Bool
  calls : List (Fin 16 × Option Func)

/-- `todo` is what is left of the kernel code that runs without interrupts. -/
structure IrqState (Func : Type u) where
  delivery : Delivery Func
  todo : List (Action Func)

/-- Line 2 is the slave's. An interrupt may come although nothing requests it
any more. -/
inductive Signal
  | raise (irq : Fin 16)
  | withdraw (irq : Fin 16)
  | instruction
  | interrupt
  | exception
  deriving DecidableEq

def Delivery.silent (delivery : Delivery Func) : Delivery Func :=
  { delivery with pics := delivery.pics.silent }

def Action.exec (delivery : Delivery Func) : Action Func → Delivery Func
  | .outb port value => { delivery with pics := delivery.pics.outb port value }
  | .irqInit => { delivery with handlers := Interrupt.irqInit }
  | .install irq handler =>
      { delivery with handlers := irqInstallHandler delivery.handlers irq handler }
  | .call irq =>
      { delivery with
        calls := delivery.calls ++ [(irq, (irqGetHandler delivery.handlers irq).func)] }
  | .sti => { delivery with enabled := true }
  | .iret => { delivery with enabled := true }

def IrqState.boot (pics : Pics) (installs : List (Fin 16 × IrqHandler Func)) : IrqState Func :=
  ⟨⟨pics, irqInit, false, []⟩, kernelMain installs⟩

namespace IrqState

/-- A device that owns the slave's line cannot withdraw what the slave requests. -/
def step (state : IrqState Func) : Signal → Option (IrqState Func)
  | .raise irq =>
      if irq = cascadeIrq then none
      else
        some { state with delivery.pics := state.delivery.pics.setLine irq true }
  | .withdraw irq =>
      if irq = cascadeIrq ∧ state.delivery.pics.slave.next.isSome = true then none
      else
        some { state with delivery.pics := state.delivery.pics.setLine irq false }
  | .instruction =>
      match state.todo with
      | [] => none
      | action :: rest => some ⟨action.exec state.delivery, rest⟩
  | .interrupt =>
      if state.delivery.enabled then
        let (vector, _, pics) := state.delivery.pics.acknowledge
        match route vector with
        | none => none
        | some (.exception _ _) =>
            some ⟨{ state.delivery with pics := pics, enabled := false }, .iret :: state.todo⟩
        | some (.irq irq) =>
            some ⟨{ state.delivery with pics := pics, enabled := false },
              irqHandler irq ++ state.todo⟩
      else none
  | .exception =>
      if state.delivery.enabled then
        some ⟨{ state.delivery with enabled := false }, .iret :: state.todo⟩
      else none

def finished (state : IrqState Func) : Delivery Func :=
  state.todo.foldl Action.exec state.delivery

end IrqState

/-! ## Every state -/

def keepsLinked (linked : Bool) : Action Func → Bool
  | .outb port value =>
      if value.getLsbD 4 then if port = pic2Cmd then true else if port = pic1Cmd then false else linked
      else linked
  | _ => linked

def Action.enables : Action Func → Bool
  | .sti => true
  | .iret => true
  | _ => false

/-- The code that is left always ends with interrupts enabled, the controllers
in order and every handler installed. -/
structure IrqInvariant (installs : List (Fin 16 × IrqHandler Func)) (state : IrqState Func) :
    Prop where
  ready : Ready state.finished.pics
  handlers : state.finished.handlers = installed installs
  enabled : state.finished.enabled = true
  waits : state.delivery.enabled = true → state.todo = []
  last : ∀ action ∈ state.todo.dropLast, action.enables = false
  linked : ∃ linked, (linked = true → state.delivery.pics.Linked) ∧
    state.todo.foldl keepsLinked linked = true

section

variable {delivery : Delivery Func} {linked : Bool}

private theorem exec_linked (action : Action Func) (before : linked = true → delivery.pics.Linked)
    (kept : keepsLinked linked action = true) : (action.exec delivery).pics.Linked := by
  cases action with
  | outb port value =>
      simp only [keepsLinked] at kept
      split at kept
      next start =>
          split at kept
          next slave =>
              rw [slave]
              exact delivery.pics.linked_of_start start
          next =>
              split at kept
              next => cases kept
              next other => exact (before kept).outb fun master => absurd master other
      next noStart => exact (before kept).outb fun _ => Bool.eq_false_of_not_eq_true noStart
  | irqInit => exact before kept
  | install irq handler => exact before kept
  | call irq => exact before kept
  | sti => exact before kept
  | iret => exact before kept

/-- What is written has the same effect whatever is requested. -/
theorem exec_silent (delivery : Delivery Func) (action : Action Func) :
    (action.exec delivery).silent = action.exec delivery.silent := by
  cases action with
  | outb port value =>
      rw [Action.exec, Action.exec, Delivery.silent, Delivery.silent, ← Pics.silent_outb]
  | irqInit => rfl
  | install irq handler => rfl
  | call irq => rfl
  | sti => rfl
  | iret => rfl

private theorem foldl_exec_silent (delivery : Delivery Func) (actions : List (Action Func)) :
    (actions.foldl Action.exec delivery).silent = actions.foldl Action.exec delivery.silent := by
  induction actions generalizing delivery with
  | nil => rfl
  | cons action rest induction => rw [List.foldl_cons, List.foldl_cons, induction, exec_silent]

private theorem foldl_exec_outb (delivery : Delivery Func) (writes : List (BitVec 16 × BitVec 8)) :
    (writes.map fun write => Action.outb write.1 write.2).foldl Action.exec delivery =
      { delivery with pics := outbAll delivery.pics writes } := by
  induction writes generalizing delivery with
  | nil => rfl
  | cons write rest induction => exact induction _

theorem foldl_exec_irqHandler (delivery : Delivery Func) (irq : Fin 16) :
    (irqHandler irq).foldl Action.exec delivery =
      { pics := outbAll delivery.pics (picEoi irq)
        handlers := delivery.handlers
        enabled := true
        calls := delivery.calls ++ [(irq, (delivery.handlers irq).func)] } := by
  rw [irqHandler, List.foldl_append, foldl_exec_outb]
  rfl

private theorem foldl_exec_install (delivery : Delivery Func)
    (installs : List (Fin 16 × IrqHandler Func)) :
    (installs.map fun install => Action.install install.1 install.2).foldl Action.exec delivery =
      { delivery with
        handlers := installs.foldl
          (fun handlers install => irqInstallHandler handlers install.1 install.2)
          delivery.handlers } := by
  induction installs generalizing delivery with
  | nil => rfl
  | cons install rest induction => exact induction _

private theorem foldl_exec_kernelMain (delivery : Delivery Func)
    (installs : List (Fin 16 × IrqHandler Func)) :
    (kernelMain installs).foldl Action.exec delivery =
      { pics := outbAll delivery.pics picInit
        handlers := installed installs
        enabled := true
        calls := delivery.calls } := by
  rw [kernelMain, List.foldl_append, foldl_exec_outb, List.foldl_cons, List.foldl_append,
    foldl_exec_install]
  simp only [Action.exec, List.foldl_cons, List.foldl_nil, installed]

private theorem exec_enabled (delivery : Delivery Func) (action : Action Func) :
    (action.exec delivery).enabled = (delivery.enabled || action.enables) := by
  cases action <;> simp [Action.exec, Action.enables]

private theorem enables_irqHandler (irq : Fin 16) :
    ∀ action ∈ (irqHandler irq : List (Action Func)).dropLast, action.enables = false := by
  have last : (irqHandler irq : List (Action Func)).dropLast =
      (picEoi irq).map (fun write => .outb write.1 write.2) ++ [.call irq] := by
    rw [irqHandler, List.dropLast_append_of_ne_nil (List.cons_ne_nil _ _)]
    rfl
  rw [last]
  intro action member
  simp only [List.mem_append, List.mem_map, List.mem_singleton] at member
  rcases member with ⟨write, _, rfl⟩ | rfl <;> rfl

private theorem enables_kernelMain (installs : List (Fin 16 × IrqHandler Func)) :
    ∀ action ∈ (kernelMain installs).dropLast, action.enables = false := by
  rw [kernelMain, ← List.cons_append, ← List.append_assoc, List.dropLast_concat]
  intro action member
  simp only [List.mem_append, List.mem_map, List.mem_cons] at member
  rcases member with ⟨write, _, rfl⟩ | rfl | ⟨install, _, rfl⟩ <;> rfl

private theorem keepsLinked_irqHandler (irq : Fin 16) :
    (irqHandler irq : List (Action Func)).foldl keepsLinked true = true := by
  unfold irqHandler picEoi
  split <;> rfl

private theorem keepsLinked_kernelMain (installs : List (Fin 16 × IrqHandler Func)) :
    (kernelMain installs).foldl keepsLinked false = true := by
  have kept : ∀ linked, (installs.map fun install => Action.install install.1 install.2).foldl
      keepsLinked linked = linked := by
    intro linked
    induction installs generalizing linked with
    | nil => rfl
    | cons install rest induction => exact induction linked
  rw [kernelMain, List.foldl_append, List.foldl_cons, List.foldl_append, kept]
  simp [picInit, pic1Cmd, pic1Data, pic2Cmd, pic2Data, keepsLinked]

end

section

variable {installs : List (Fin 16 × IrqHandler Func)} {state next : IrqState Func}

theorem finished_boot (pics : Pics) (installs : List (Fin 16 × IrqHandler Func)) :
    (IrqState.boot pics installs).finished =
      { pics := outbAll pics picInit, handlers := installed installs, enabled := true
        calls := [] } := by
  rw [IrqState.boot, IrqState.finished, foldl_exec_kernelMain]

theorem IrqInvariant.boot {pics : Pics} (master : pics.master.inService = fun _ => false)
    (slave : pics.slave.inService = fun _ => false) :
    IrqInvariant installs (IrqState.boot pics installs) := by
  constructor
  · rw [finished_boot]
    dsimp only
    exact picInit_ready master slave
  · rw [finished_boot]
  · rw [finished_boot]
  · intro enabled
    cases enabled
  · exact enables_kernelMain installs
  · exact ⟨false, fun impossible => (Bool.false_ne_true impossible).elim,
      keepsLinked_kernelMain installs⟩

theorem finished_silent {state next : IrqState Func} (todo : next.todo = state.todo)
    (silent : next.delivery.silent = state.delivery.silent) :
    next.finished.silent = state.finished.silent := by
  rw [IrqState.finished, IrqState.finished, foldl_exec_silent, foldl_exec_silent, todo, silent]

theorem IrqInvariant.setLine (invariant : IrqInvariant installs state) {irq : Fin 16}
    {requested : Bool} (allowed : irq = cascadeIrq → state.delivery.pics.slave.next = none) :
    IrqInvariant installs
      { state with delivery.pics := state.delivery.pics.setLine irq requested } := by
  generalize changed : ({ state with
    delivery.pics := state.delivery.pics.setLine irq requested } : IrqState Func) = next
  have todo : next.todo = state.todo := by rw [← changed]
  have enabled : next.delivery.enabled = state.delivery.enabled := by rw [← changed]
  have pics : next.delivery.pics = state.delivery.pics.setLine irq requested := by rw [← changed]
  have silent : next.delivery.silent = state.delivery.silent := by
    rw [← changed, Delivery.silent, Delivery.silent, Pics.setLine_silent]
  have same := finished_silent todo silent
  constructor
  · have ready := ready_iff.mp invariant.ready
    rw [ready_iff]
    exact (congrArg Delivery.pics same).trans ready
  · exact (congrArg Delivery.handlers same).trans invariant.handlers
  · exact (congrArg Delivery.enabled same).trans invariant.enabled
  · rw [todo, enabled]
    exact invariant.waits
  · rw [todo]
    exact invariant.last
  · rcases invariant.linked with ⟨linked, known, ends⟩
    refine ⟨linked, fun holds => ?_, todo ▸ ends⟩
    rw [pics]
    exact (known holds).setLine allowed

theorem IrqInvariant.idle (invariant : IrqInvariant installs state)
    (enabled : state.delivery.enabled = true) :
    state.todo = [] ∧ state.finished = state.delivery ∧ Ready state.delivery.pics ∧
      state.delivery.pics.Linked := by
  have todo := invariant.waits enabled
  have finished : state.finished = state.delivery := by rw [IrqState.finished, todo, List.foldl_nil]
  refine ⟨todo, finished, finished ▸ invariant.ready, ?_⟩
  rcases invariant.linked with ⟨linked, known, ends⟩
  rw [todo] at ends
  exact known ends

theorem IrqInvariant.interrupted (invariant : IrqInvariant installs state)
    (enabled : state.delivery.enabled = true) : ∃ irq,
    route state.delivery.pics.acknowledge.1 = some (.irq irq) ∧
    Acknowledged state.delivery.pics irq state.delivery.pics.acknowledge.2.1
      state.delivery.pics.acknowledge.2.2 ∧
    state.step .interrupt =
      some ⟨{ state.delivery with
        pics := state.delivery.pics.acknowledge.2.2, enabled := false }, irqHandler irq⟩ := by
  rcases invariant.idle enabled with ⟨todo, _, ready, linked⟩
  rcases ready.acknowledge linked with ⟨irq, routed, acknowledged⟩
  refine ⟨irq, routed, acknowledged, ?_⟩
  simp only [IrqState.step, if_pos enabled, routed, todo, List.append_nil]

theorem IrqInvariant.instruction (invariant : IrqInvariant installs state)
    {action : Action Func} {rest : List (Action Func)} (todo : state.todo = action :: rest) :
    IrqInvariant installs ⟨action.exec state.delivery, rest⟩ := by
  have disabled : state.delivery.enabled ≠ true := by
    intro enabled
    cases (invariant.waits enabled).symm.trans todo
  have finished : state.finished = (⟨action.exec state.delivery, rest⟩ : IrqState Func).finished := by
    rw [IrqState.finished, todo, List.foldl_cons]
    rfl
  constructor
  · exact finished ▸ invariant.ready
  · exact finished ▸ invariant.handlers
  · exact finished ▸ invariant.enabled
  · intro enabled
    rw [exec_enabled, Bool.eq_false_of_not_eq_true disabled, Bool.false_or] at enabled
    cases rest with
    | nil => rfl
    | cons following rest =>
        have early := invariant.last action (by simp [todo])
        cases early.symm.trans enabled
  · intro other member
    apply invariant.last
    rw [todo]
    cases rest with
    | nil => cases member
    | cons following rest => exact List.mem_cons_of_mem _ member
  · rcases invariant.linked with ⟨linked, known, ends⟩
    rw [todo, List.foldl_cons] at ends
    exact ⟨keepsLinked linked action, exec_linked action known, ends⟩

theorem IrqInvariant.irqHandler (invariant : IrqInvariant installs state)
    (enabled : state.delivery.enabled = true) {irq : Fin 16} {accepted : Option (Fin 16)}
    {after : Pics} (acknowledged : Acknowledged state.delivery.pics irq accepted after) :
    IrqInvariant installs
      ⟨{ state.delivery with pics := after, enabled := false }, Interrupt.irqHandler irq⟩ := by
  have handlers := invariant.handlers
  rw [(invariant.idle enabled).2.1] at handlers
  constructor
  · rw [IrqState.finished, foldl_exec_irqHandler]
    exact acknowledged.ends
  · rw [IrqState.finished, foldl_exec_irqHandler]
    exact handlers
  · rw [IrqState.finished, foldl_exec_irqHandler]
  · intro impossible
    cases impossible
  · exact enables_irqHandler irq
  · exact ⟨true, fun _ => acknowledged.linked, keepsLinked_irqHandler irq⟩

theorem IrqInvariant.exception (invariant : IrqInvariant installs state)
    (enabled : state.delivery.enabled = true) :
    IrqInvariant installs
      ⟨{ state.delivery with enabled := false }, .iret :: state.todo⟩ := by
  rcases invariant.idle enabled with ⟨todo, finished, ready, linked⟩
  have handlers := invariant.handlers
  rw [finished] at handlers
  rw [todo]
  exact ⟨ready, handlers, rfl, fun impossible => (Bool.false_ne_true impossible).elim,
    fun _ member => absurd member List.not_mem_nil, true, fun _ => linked, rfl⟩

theorem IrqInvariant.step (invariant : IrqInvariant installs state) {signal : Signal}
    (stepped : state.step signal = some next) : IrqInvariant installs next := by
  cases signal with
  | raise irq =>
      simp only [IrqState.step] at stepped
      split at stepped
      next => cases stepped
      next other =>
          cases stepped
          exact invariant.setLine fun same => absurd same other
  | withdraw irq =>
      simp only [IrqState.step] at stepped
      split at stepped
      next => cases stepped
      next free =>
          cases stepped
          refine invariant.setLine fun same => ?_
          simpa [same] using free
  | instruction =>
      simp only [IrqState.step] at stepped
      split at stepped
      next => cases stepped
      next action rest todo =>
          cases stepped
          exact invariant.instruction todo
  | interrupt =>
      by_cases enabled : state.delivery.enabled = true
      · rcases invariant.interrupted enabled with ⟨irq, _, acknowledged, taken⟩
        cases taken.symm.trans stepped
        exact invariant.irqHandler enabled acknowledged
      · simp only [IrqState.step, if_neg enabled] at stepped
        cases stepped
  | exception =>
      by_cases enabled : state.delivery.enabled = true
      · simp only [IrqState.step, if_pos enabled] at stepped
        cases stepped
        exact invariant.exception enabled
      · simp only [IrqState.step, if_neg enabled] at stepped
        cases stepped

end

end Yoctos.Interrupt
