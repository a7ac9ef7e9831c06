import Yoctos.Interrupt.Delivery

/-! # Hardware interrupts are served

Every IRQ reaches its stub, nothing stays in service, and each request that the
controllers accept is handled once.
-/

namespace Yoctos.Interrupt

open Yoctos.Ia32 Yoctos.Memory Yoctos.Transition

variable {Func : Type u} {installs : List (Fin 16 × IrqHandler Func)}

section

variable {pics : Pics} {state : IrqState Func}

private theorem irqInvariant_of_reachable (master : pics.master.inService = fun _ => false)
    (slave : pics.slave.inService = fun _ => false)
    (reachable : Reachable IrqState.step (IrqState.boot pics installs) state) :
    IrqInvariant installs state :=
  reachable.preserves (fun _ _ _ invariant stepped => invariant.step stepped)
    (.boot master slave)

/-- An interrupt that the CPU takes comes through the gate of one of the IRQ
stubs, and no handler is missing by then. -/
theorem interrupt_reaches_stub {p : Platform} {symbols : Symbols} (code : Installed p symbols)
    (master : pics.master.inService = fun _ => false)
    (slave : pics.slave.inService = fun _ => false)
    (reachable : Reachable IrqState.step (IrqState.boot pics installs) state)
    (enabled : state.delivery.enabled = true) :
    state.delivery.handlers = installed installs ∧ ∃ irq : Fin 16,
      p.gate state.delivery.pics.acknowledge.1 =
        some ⟨gdtKernelCodeSelector, symbols.irq irq, false, 0⟩ ∧
      Loaded p (symbols.irq irq) (irqStub symbols irq) ∧
      (state.delivery.pics.acknowledge.2.1 = some irq ∨
        (state.delivery.pics.acknowledge.2.1 = none ∧ (irq = 7 ∨ irq = 15))) ∧
      state.step .interrupt =
        some ⟨{ state.delivery with
          pics := state.delivery.pics.acknowledge.2.2, enabled := false }, irqHandler irq⟩ := by
  have invariant := irqInvariant_of_reachable master slave reachable
  rcases invariant.interrupted enabled with ⟨irq, routed, acknowledged, stepped⟩
  have handlers := invariant.handlers
  rw [(invariant.idle enabled).2.1] at handlers
  exact ⟨handlers, irq, route_gate code routed, code.irq irq (Nat.le_of_lt_succ irq.isLt),
    acknowledged.genuine.imp And.left id, stepped⟩

/-! ## Serving what is due -/

private theorem run_finished (state : IrqState Func) :
    Run IrqState.step (fun _ => True) state (List.replicate state.todo.length .instruction)
      ⟨state.finished, []⟩ := by
  rcases state with ⟨delivery, todo⟩
  induction todo generalizing delivery with
  | nil => exact .nil trivial
  | cons action rest induction => exact .cons trivial rfl (induction (action.exec delivery))

theorem filter_of_find? {α : Type v} [DecidableEq α] {list : List α} {keep : α → Bool} {first : α}
    (distinct : list.Nodup) (found : list.find? keep = some first) :
    list.filter keep = first :: list.filter (Function.update keep first false) := by
  induction list with
  | nil => cases found
  | cons head rest induction =>
      rcases List.nodup_cons.mp distinct with ⟨fresh, distinct⟩
      by_cases kept : keep head = true
      · rw [List.find?_cons_of_pos kept] at found
        cases found
        rw [List.filter_cons_of_pos kept, List.filter_cons_of_neg (by simp)]
        congr 1
        apply List.filter_congr
        intro other member
        have different : other ≠ first := by
          rintro rfl
          exact fresh member
        rw [Function.update_of_ne different]
      · rw [List.find?_cons_of_neg kept] at found
        have different : head ≠ first := fun same => kept (same ▸ List.find?_some found)
        rw [List.filter_cons_of_neg kept, induction distinct found,
          List.filter_cons_of_neg (by rwa [Function.update_of_ne different])]

/-- The steps in which the kernel serves interrupts, as long as no device does
anything. -/
def Serves (signal : Signal) : Prop := signal = .interrupt ∨ signal = .instruction

def callFor (installs : List (Fin 16 × IrqHandler Func)) (irq : Fin 16) : Fin 16 × Option Func :=
  (irq, (installed installs irq).func)

private theorem serve_first (invariant : IrqInvariant installs state)
    (enabled : state.delivery.enabled = true) {irq : Fin 16}
    (first : priority.find? (due state.delivery.pics) = some irq) :
    ∃ signals next, Run IrqState.step (fun _ => True) state signals next ∧
      (∀ signal ∈ signals, Serves signal) ∧ IrqInvariant installs next ∧
      next.delivery.enabled = true ∧
      due next.delivery.pics = Function.update (due state.delivery.pics) irq false ∧
      next.delivery.calls = state.delivery.calls ++ [callFor installs irq] := by
  rcases invariant.interrupted enabled with ⟨taken, _, acknowledged, stepped⟩
  have same : taken = irq := by
    have isFirst := acknowledged.first
    rw [first] at isFirst
    split at isFirst <;> cases isFirst
    rfl
  subst same
  have handlers := invariant.handlers
  rw [(invariant.idle enabled).2.1] at handlers
  have finished := run_finished (⟨{ state.delivery with
    pics := state.delivery.pics.acknowledge.2.2, enabled := false }, irqHandler taken⟩ :
      IrqState Func)
  have whole := finished.cons trivial stepped
  have kept : IrqInvariant installs _ :=
    whole.preserves (fun _ _ _ _ _ invariant stepped => invariant.step stepped) invariant
  refine ⟨_, _, whole, ?_, kept, ?_⟩
  · intro signal member
    rcases List.mem_cons.mp member with rfl | member
    · exact .inl rfl
    · exact .inr (List.eq_of_mem_replicate member)
  · simp only [IrqState.finished, foldl_exec_irqHandler]
    refine ⟨trivial, ?_, ?_⟩
    · rw [due_outbAll_picEoi, acknowledged.due]
    · rw [callFor, handlers]

private theorem serve_due {irqs : List (Fin 16)} (invariant : IrqInvariant installs state)
    (enabled : state.delivery.enabled = true)
    (isDue : priority.filter (due state.delivery.pics) = irqs) :
    ∃ signals final, Run IrqState.step (fun _ => True) state signals final ∧
      (∀ signal ∈ signals, Serves signal) ∧ IrqInvariant installs final ∧
      final.delivery.enabled = true ∧ priority.filter (due final.delivery.pics) = [] ∧
      final.delivery.calls = state.delivery.calls ++ irqs.map (callFor installs) := by
  induction irqs generalizing state with
  | nil =>
      exact ⟨[], state, .nil trivial, fun _ member => absurd member List.not_mem_nil, invariant,
        enabled, isDue, (List.append_nil _).symm⟩
  | cons irq rest induction =>
      have first : priority.find? (due state.delivery.pics) = some irq := by
        rw [← List.head?_filter, isDue, List.head?_cons]
      rcases serve_first invariant enabled first with
        ⟨signals, next, run, serves, kept, stillEnabled, left, called⟩
      have fewer : priority.filter (due next.delivery.pics) = rest := by
        have served := filter_of_find? (by decide) first
        rw [isDue, ← left] at served
        exact (List.cons.inj served).2.symm
      rcases induction kept stillEnabled fewer with
        ⟨more, final, later, laterServes, finalKept, finalEnabled, nothing, calls⟩
      refine ⟨signals ++ more, final, run.append later, ?_, finalKept, finalEnabled, nothing, ?_⟩
      · intro signal member
        rcases List.mem_append.mp member with now | later
        · exact serves signal now
        · exact laterServes signal later
      · rw [calls, called, List.map_cons, List.append_assoc, List.singleton_append]

/-- With nothing due the controllers have forgotten every request. -/
theorem requests_of_nothing_due {pics : Pics} (nothing : priority.filter (due pics) = [])
    (irq : Fin 16) : pics.requests irq = false := by
  have none : ∀ other : Fin 16, other ≠ cascadeIrq → due pics other = false := by
    intro other device
    have member : other ∈ priority := by
      revert other
      decide
    exact Bool.eq_false_of_not_eq_true (List.filter_eq_nil_iff.mp nothing other member)
  have slave : ∀ line, pics.slave.requests line = false := by
    intro line
    have own := none (slaveIrq line) (masterIrq_ne_slaveIrq cascadeLine line).symm
    rw [due_slaveIrq, Bool.or_eq_false_iff] at own
    exact own.1
  rcases irq_cases irq with ⟨line, rfl⟩ | ⟨line, rfl⟩
  · by_cases cascade : line = cascadeLine
    · have last := none (slaveIrq 7) (masterIrq_ne_slaveIrq cascadeLine 7).symm
      simpa [slave, cascade] using last
    · have own := none (masterIrq line) fun same => cascade (masterIrq_inj.mp same)
      simpa [cascade] using own
  · exact (pics.requests_slaveIrq line).trans (slave line)

/-- With interrupts enabled nothing is in service, and the kernel serves all
that is due in the order of priority, each IRQ once. -/
theorem serve_all (master : pics.master.inService = fun _ => false)
    (slave : pics.slave.inService = fun _ => false)
    (reachable : Reachable IrqState.step (IrqState.boot pics installs) state)
    (enabled : state.delivery.enabled = true) :
    Ready state.delivery.pics ∧
    ∃ signals final, Run IrqState.step (fun _ => True) state signals final ∧
      (∀ signal ∈ signals, Serves signal) ∧ final.delivery.enabled = true ∧
      (∀ irq, final.delivery.pics.requests irq = false) ∧
      final.delivery.calls = state.delivery.calls ++
        (priority.filter (due state.delivery.pics)).map (callFor installs) := by
  have invariant := irqInvariant_of_reachable master slave reachable
  rcases serve_due invariant enabled rfl with
    ⟨signals, final, run, serves, _, stillEnabled, nothing, calls⟩
  exact ⟨(invariant.idle enabled).2.2.1, signals, final, run, serves, stillEnabled,
    requests_of_nothing_due nothing, calls⟩

end

/-! ## Nothing is lost or served twice -/

/-- What became of the requests for each IRQ. A request is merged with one that
is still pending; what is taken for a request that is gone is spurious. -/
structure IrqLedger where
  raised : Fin 16 → Nat
  merged : Fin 16 → Nat
  withdrawn : Fin 16 → Nat
  accepted : Fin 16 → Nat
  spurious : Fin 16 → Nat

def IrqLedger.empty : IrqLedger :=
  ⟨fun _ => 0, fun _ => 0, fun _ => 0, fun _ => 0, fun _ => 0⟩

def routedIrq (pics : Pics) : Option (Fin 16) :=
  match route pics.acknowledge.1 with
  | some (.irq irq) => some irq
  | _ => none

def IrqLedger.record (ledger : IrqLedger) (pics : Pics) (signal : Signal) : IrqLedger where
  raised irq := ledger.raised irq + (decide (signal = .raise irq)).toNat
  merged irq := ledger.merged irq + (decide (signal = .raise irq) && pics.requests irq).toNat
  withdrawn irq :=
    ledger.withdrawn irq + (decide (signal = .withdraw irq) && pics.requests irq).toNat
  accepted irq := ledger.accepted irq +
    (decide (signal = .interrupt) && decide (pics.acknowledge.2.1 = some irq)).toNat
  spurious irq := ledger.spurious irq +
    (decide (signal = .interrupt) && decide (pics.acknowledge.2.1 = none) &&
      decide (routedIrq pics = some irq)).toNat

def trackedStep (tracked : IrqState Func × IrqLedger) (signal : Signal) :
    Option (IrqState Func × IrqLedger) :=
  (tracked.1.step signal).map fun next =>
    (next, tracked.2.record tracked.1.delivery.pics signal)

def Action.starts : Action Func → Bool
  | .outb _ value => value.getLsbD 4
  | _ => false

def callCount (delivery : Delivery Func) (irq : Fin 16) : Nat :=
  delivery.calls.countP fun call => call.1 = irq

/-- Of `first` on, every request is accounted for, and so is every call that has
been made or will be made by the code that is left. -/
structure Accounted (installs : List (Fin 16 × IrqHandler Func)) (first : Delivery Func)
    (tracked : IrqState Func × IrqLedger) : Prop where
  invariant : IrqInvariant installs tracked.1
  running : ∀ action ∈ tracked.1.todo, action.starts = false
  requests : ∀ irq, irq ≠ cascadeIrq →
    (first.pics.requests irq).toNat + tracked.2.raised irq =
      tracked.2.merged irq + tracked.2.withdrawn irq + tracked.2.accepted irq +
        (tracked.1.delivery.pics.requests irq).toNat
  calls : ∀ irq, callCount first irq + tracked.2.accepted irq + tracked.2.spurious irq =
    callCount tracked.1.finished irq
  noise : ∀ irq, irq ≠ 7 → irq ≠ 15 → tracked.2.spurious irq = 0
  functions : ∃ irqs : List (Fin 16),
    tracked.1.finished.calls = first.calls ++ irqs.map (callFor installs)

section

variable {first : Delivery Func} {tracked : IrqState Func × IrqLedger}

private theorem starts_irqHandler (irq : Fin 16) :
    ∀ action ∈ (irqHandler irq : List (Action Func)), action.starts = false := by
  intro action member
  simp only [irqHandler, List.mem_append, List.mem_map, List.mem_cons, List.not_mem_nil,
    or_false] at member
  rcases member with ⟨write, written, rfl⟩ | rfl | rfl
  · rw [Action.starts, picEoi_value written]
    rfl
  · rfl
  · rfl

private theorem routed_once {pics after : Pics} {irq : Fin 16} {accepted : Option (Fin 16)}
    (acknowledged : Acknowledged pics irq accepted after) (other : Fin 16) :
    (decide (accepted = some other)).toNat + (decide (accepted = none) &&
      decide (some irq = some other)).toNat = if irq = other then 1 else 0 := by
  rcases acknowledged.genuine with ⟨rfl, _⟩ | ⟨rfl, _⟩
  · by_cases same : irq = other <;> simp [same]
  · by_cases same : irq = other <;> simp [same]

private theorem callCount_append (delivery : Delivery Func) (call : Fin 16 × Option Func)
    (irq : Fin 16) :
    callCount { delivery with calls := delivery.calls ++ [call] } irq =
      callCount delivery irq + if call.1 = irq then 1 else 0 := by
  rw [callCount, callCount, List.countP_append, List.countP_singleton]
  simp

theorem Accounted.start {state : IrqState Func} (invariant : IrqInvariant installs state)
    (enabled : state.delivery.enabled = true) :
    Accounted installs state.delivery (state, IrqLedger.empty) where
  invariant := invariant
  running := by
    rw [invariant.waits enabled]
    exact fun _ member => absurd member List.not_mem_nil
  requests _ _ := by simp [IrqLedger.empty]
  calls _ := by simp [IrqLedger.empty, (invariant.idle enabled).2.1]
  noise _ _ _ := rfl
  functions := ⟨[], by simp [(invariant.idle enabled).2.1]⟩

private theorem finished_calls_setLine (state : IrqState Func) (irq : Fin 16) (requested : Bool) :
    ({ state with delivery.pics := state.delivery.pics.setLine irq requested } :
      IrqState Func).finished.calls = state.finished.calls := by
  have silent : ({ state.delivery with
      pics := state.delivery.pics.setLine irq requested } : Delivery Func).silent =
        state.delivery.silent := by
    rw [Delivery.silent, Delivery.silent, Pics.setLine_silent]
  have same := congrArg Delivery.calls (@finished_silent _ state
    { state with delivery.pics := state.delivery.pics.setLine irq requested } rfl silent)
  exact same

theorem Accounted.setLine (accounted : Accounted installs first tracked) {irq : Fin 16}
    {requested : Bool} {ledger : IrqLedger}
    (allowed : irq = cascadeIrq → tracked.1.delivery.pics.slave.next = none)
    (accepted : ledger.accepted = tracked.2.accepted)
    (spurious : ledger.spurious = tracked.2.spurious)
    (requests : ∀ other, other ≠ cascadeIrq →
      (first.pics.requests other).toNat + ledger.raised other =
        ledger.merged other + ledger.withdrawn other + ledger.accepted other +
          ((tracked.1.delivery.pics.setLine irq requested).requests other).toNat) :
    Accounted installs first
      ({ tracked.1 with delivery.pics := tracked.1.delivery.pics.setLine irq requested },
        ledger) where
  invariant := accounted.invariant.setLine allowed
  running := accounted.running
  requests := requests
  calls other := by
    rw [accepted, spurious, accounted.calls]
    exact congrArg (List.countP fun call => decide (call.1 = other))
      (finished_calls_setLine tracked.1 irq requested).symm
  functions := by
    rcases accounted.functions with ⟨irqs, calls⟩
    exact ⟨irqs, (finished_calls_setLine tracked.1 irq requested).trans calls⟩
  noise other notMaster notSlave := by
    rw [spurious]
    exact accounted.noise other notMaster notSlave

private theorem exec_requests {delivery : Delivery Func} {action : Action Func}
    (harmless : action.starts = false) {irq : Fin 16} (device : irq ≠ cascadeIrq) :
    (action.exec delivery).pics.requests irq = delivery.pics.requests irq := by
  cases action with
  | outb port value => exact Pics.outb_requests _ _ harmless device
  | irqInit => rfl
  | install other handler => rfl
  | call other => rfl
  | sti => rfl
  | iret => rfl

private theorem record_instruction (ledger : IrqLedger) (pics : Pics) :
    ledger.record pics .instruction = ledger := by
  simp [IrqLedger.record]

private theorem record_exception (ledger : IrqLedger) (pics : Pics) :
    ledger.record pics .exception = ledger := by
  simp [IrqLedger.record]

theorem Accounted.instruction (accounted : Accounted installs first tracked)
    {action : Action Func} {rest : List (Action Func)} (todo : tracked.1.todo = action :: rest) :
    Accounted installs first (⟨action.exec tracked.1.delivery, rest⟩, tracked.2) where
  invariant := accounted.invariant.instruction todo
  running other member := by
    apply accounted.running
    rw [todo]
    exact List.mem_cons_of_mem _ member
  requests irq device := by
    have harmless := accounted.running action (todo ▸ List.mem_cons_self)
    rw [exec_requests harmless device]
    exact accounted.requests irq device
  calls irq := by
    rw [accounted.calls irq, IrqState.finished, todo, List.foldl_cons]
    rfl
  noise := accounted.noise
  functions := by
    have functions := accounted.functions
    rwa [IrqState.finished, todo, List.foldl_cons] at functions

theorem Accounted.interrupt (accounted : Accounted installs first tracked)
    (enabled : tracked.1.delivery.enabled = true) {irq : Fin 16}
    (routed : routedIrq tracked.1.delivery.pics = some irq)
    (acknowledged : Acknowledged tracked.1.delivery.pics irq
      tracked.1.delivery.pics.acknowledge.2.1 tracked.1.delivery.pics.acknowledge.2.2) :
    Accounted installs first
      (⟨{ tracked.1.delivery with
          pics := tracked.1.delivery.pics.acknowledge.2.2, enabled := false }, irqHandler irq⟩,
        tracked.2.record tracked.1.delivery.pics .interrupt) where
  invariant := accounted.invariant.irqHandler enabled acknowledged
  running := starts_irqHandler irq
  requests other device := by
    have before := accounted.requests other device
    have taken := acknowledged.requests other device
    simp only [IrqLedger.record, reduceCtorEq, decide_false, Bool.false_and, Bool.toNat_false,
      Nat.add_zero, decide_true, Bool.true_and]
    rw [taken]
    by_cases own : tracked.1.delivery.pics.acknowledge.2.1 = some other
    · rcases acknowledged.genuine with ⟨accepted, requested⟩ | ⟨nothing, _⟩
      · cases own.symm.trans accepted
        rw [requested, Bool.toNat_true] at before
        simp [own, requested]
        omega
      · cases own.symm.trans nothing
    · simp [own]
      omega
  calls other := by
    have before := accounted.calls other
    have once := routed_once acknowledged other
    rw [(accounted.invariant.idle enabled).2.1] at before
    rw [IrqState.finished, foldl_exec_irqHandler]
    have more : callCount _ other = _ :=
      callCount_append tracked.1.delivery
        (irq, (tracked.1.delivery.handlers irq).func) other
    simp only [callCount] at more before ⊢
    rw [more]
    simp only [IrqLedger.record, decide_true, Bool.true_and, routed]
    omega
  noise other notMaster notSlave := by
    have before := accounted.noise other notMaster notSlave
    have other_ne : tracked.1.delivery.pics.acknowledge.2.1 = none → irq ≠ other := by
      intro nothing same
      rcases acknowledged.genuine with ⟨accepted, _⟩ | ⟨_, last⟩
      · cases nothing.symm.trans accepted
      · rcases last with rfl | rfl
        · exact notMaster same.symm
        · exact notSlave same.symm
    simp only [IrqLedger.record, before, routed, Option.some.injEq]
    by_cases nothing : tracked.1.delivery.pics.acknowledge.2.1 = none
    · simp [other_ne nothing]
    · simp [nothing]
  functions := by
    have handlers := accounted.invariant.handlers
    rcases accounted.functions with ⟨irqs, calls⟩
    rw [(accounted.invariant.idle enabled).2.1] at calls handlers
    refine ⟨irqs ++ [irq], ?_⟩
    rw [IrqState.finished, foldl_exec_irqHandler]
    simp only [calls, handlers, List.map_append, List.map_cons, List.map_nil, List.append_assoc,
      callFor]

theorem Accounted.step (accounted : Accounted installs first tracked) {signal : Signal}
    {next : IrqState Func} (stepped : tracked.1.step signal = some next) :
    Accounted installs first (next, tracked.2.record tracked.1.delivery.pics signal) := by
  have kept := accounted.requests
  cases signal with
  | raise irq =>
      simp only [IrqState.step] at stepped
      split at stepped
      next => cases stepped
      next other =>
          cases stepped
          refine accounted.setLine (fun same => absurd same other) ?_ ?_ fun line device => ?_
          · simp [IrqLedger.record]
          · simp [IrqLedger.record]
          · have before := kept line device
            rw [Pics.setLine_requests _ _ _ device]
            by_cases same : irq = line
            · simp [IrqLedger.record, same]
              omega
            · simpa [IrqLedger.record, same, Ne.symm same] using before
  | withdraw irq =>
      simp only [IrqState.step] at stepped
      split at stepped
      next => cases stepped
      next free =>
          cases stepped
          refine accounted.setLine (fun same => ?_) ?_ ?_ fun line device => ?_
          · simpa [same] using free
          · simp [IrqLedger.record]
          · simp [IrqLedger.record]
          · have before := kept line device
            rw [Pics.setLine_requests _ _ _ device]
            by_cases same : irq = line
            · simp [IrqLedger.record, same]
              omega
            · simpa [IrqLedger.record, same, Ne.symm same] using before
  | instruction =>
      simp only [IrqState.step] at stepped
      split at stepped
      next => cases stepped
      next action rest todo =>
          cases stepped
          rw [record_instruction]
          exact accounted.instruction todo
  | interrupt =>
      by_cases enabled : tracked.1.delivery.enabled = true
      · rcases accounted.invariant.interrupted enabled with ⟨irq, routed, acknowledged, taken⟩
        cases taken.symm.trans stepped
        exact accounted.interrupt enabled (by rw [routedIrq, routed]) acknowledged
      · simp only [IrqState.step, if_neg enabled] at stepped
        cases stepped
  | exception =>
      by_cases enabled : tracked.1.delivery.enabled = true
      · simp only [IrqState.step, if_pos enabled] at stepped
        cases stepped
        rw [record_exception]
        rcases accounted.invariant.idle enabled with ⟨todo, finished, _, _⟩
        refine ⟨accounted.invariant.exception enabled, ?_, kept, ?_, accounted.noise, ?_⟩
        · intro action member
          rcases List.mem_cons.mp member with rfl | member
          · rfl
          · exact accounted.running action member
        · intro irq
          have calls := accounted.calls irq
          rw [finished] at calls
          rw [todo]
          exact calls
        · have functions := accounted.functions
          rw [finished] at functions
          rw [todo]
          exact functions
      · simp only [IrqState.step, if_neg enabled] at stepped
        cases stepped

/-- From any state of the running kernel on: no request is lost, and each one
that the controllers accepted is handled exactly once, by the function that is
installed for it. -/
theorem requests_handled_once {pics : Pics} {start : IrqState Func}
    (master : pics.master.inService = fun _ => false)
    (slave : pics.slave.inService = fun _ => false)
    (started : Reachable IrqState.step (IrqState.boot pics installs) start)
    (enabled : start.delivery.enabled = true) {ledger : IrqLedger} {state : IrqState Func}
    (reachable : Reachable trackedStep (start, IrqLedger.empty) (state, ledger)) :
    (∀ irq, irq ≠ cascadeIrq →
      (start.delivery.pics.requests irq).toNat + ledger.raised irq =
        ledger.merged irq + ledger.withdrawn irq + ledger.accepted irq +
          (state.delivery.pics.requests irq).toNat) ∧
    (∀ irq, callCount start.delivery irq + ledger.accepted irq + ledger.spurious irq =
      callCount state.finished irq) ∧
    (∀ irq, irq ≠ 7 → irq ≠ 15 → ledger.spurious irq = 0) ∧
    (∃ irqs : List (Fin 16), state.finished.calls =
      start.delivery.calls ++ irqs.map (callFor installs)) ∧
    (state.delivery.enabled = true → state.finished = state.delivery) := by
  have accounted : Accounted installs start.delivery (state, ledger) := by
    refine reachable.preserves (fun before signal after accounted stepped => ?_)
      (.start (irqInvariant_of_reachable master slave started) enabled)
    rcases Option.map_eq_some_iff.mp stepped with ⟨next, taken, rfl⟩
    exact accounted.step taken
  exact ⟨accounted.requests, accounted.calls, accounted.noise, accounted.functions,
    fun enabled => (accounted.invariant.idle enabled).2.1⟩

end

/-! The keyboard's and the timer's handlers, with a request for the keyboard and
one of the slave. -/

def firmwarePics : Pics :=
  let setup : PicSetup := ⟨.mask, 0x11, 0x08, 0x04, 0x01, 0xff⟩
  ⟨⟨setup, fun _ => false, fun _ => false⟩, ⟨setup, fun _ => true, fun _ => false⟩⟩

def keyboardIrq : Fin 16 := masterIrq ⟨1, by decide⟩
def timerIrq : Fin 16 := masterIrq ⟨0, by decide⟩
def mouseIrq : Fin 16 := slaveIrq ⟨4, by decide⟩

def driverInstalls : List (Fin 16 × IrqHandler Bool) :=
  [(keyboardIrq, ⟨some true, fun _ => 0⟩), (timerIrq, ⟨some false, fun _ => 0⟩)]

def booted : IrqState Bool := ⟨(IrqState.boot firmwarePics driverInstalls).finished, []⟩

def raised (state : IrqState Bool) (irq : Fin 16) : IrqState Bool :=
  { state with delivery.pics := state.delivery.pics.setLine irq true }

def busy : IrqState Bool := raised (raised booted mouseIrq) keyboardIrq

private theorem booted_reachable :
    Reachable IrqState.step (IrqState.boot firmwarePics driverInstalls) booted :=
  ⟨_, run_finished _⟩

private theorem booted_enabled : booted.delivery.enabled = true := by
  rw [booted, finished_boot]

private theorem busy_reachable :
    Reachable IrqState.step (IrqState.boot firmwarePics driverInstalls) busy := by
  have raises : ∀ (state : IrqState Bool) (irq : Fin 16), irq ≠ cascadeIrq →
      state.step (.raise irq) = some (raised state irq) := fun _ _ device => if_neg device
  exact (booted_reachable.step_to (raises _ mouseIrq (by decide))).step_to
    (raises _ keyboardIrq (by decide))

private theorem busy_enabled : busy.delivery.enabled = true := booted_enabled

theorem interrupt_reaches_stub_busy :
    busy.delivery.handlers = installed driverInstalls ∧ ∃ irq : Fin 16,
      placedPlatform.gate busy.delivery.pics.acknowledge.1 =
        some ⟨gdtKernelCodeSelector, placedSymbols.irq irq, false, 0⟩ ∧
      Loaded placedPlatform (placedSymbols.irq irq) (irqStub placedSymbols irq) ∧
      (busy.delivery.pics.acknowledge.2.1 = some irq ∨
        (busy.delivery.pics.acknowledge.2.1 = none ∧ (irq = 7 ∨ irq = 15))) ∧
      busy.step .interrupt =
        some ⟨{ busy.delivery with
          pics := busy.delivery.pics.acknowledge.2.2, enabled := false }, irqHandler irq⟩ :=
  interrupt_reaches_stub placedPlatform_installed rfl rfl busy_reachable busy_enabled

theorem serve_all_busy :
    Ready busy.delivery.pics ∧
    ∃ signals final, Run IrqState.step (fun _ => True) busy signals final ∧
      (∀ signal ∈ signals, Serves signal) ∧ final.delivery.enabled = true ∧
      (∀ irq, final.delivery.pics.requests irq = false) ∧
      final.delivery.calls = busy.delivery.calls ++
        (priority.filter (due busy.delivery.pics)).map (callFor driverInstalls) :=
  serve_all rfl rfl busy_reachable busy_enabled

def keyboardServed : List Signal :=
  .raise keyboardIrq :: .interrupt ::
    List.replicate (irqHandler keyboardIrq : List (Action Bool)).length .instruction

theorem requests_handled_once_keyboard : ∃ state ledger,
    Run trackedStep (fun _ => True) (booted, IrqLedger.empty) keyboardServed (state, ledger) ∧
    ledger.raised keyboardIrq = 1 ∧ ledger.accepted keyboardIrq = 1 ∧
    state.delivery.pics.requests keyboardIrq = false ∧
    callCount state.finished keyboardIrq = 1 ∧
    ∃ irqs : List (Fin 16), state.finished.calls = irqs.map (callFor driverInstalls) := by
  have served : (execute trackedStep (fun _ => true) (booted, IrqLedger.empty)
      keyboardServed).any (fun tracked => decide (tracked.2.raised keyboardIrq = 1 ∧
        tracked.2.accepted keyboardIrq = 1 ∧ tracked.2.merged keyboardIrq = 0 ∧
        tracked.2.withdrawn keyboardIrq = 0)) = true := by decide +kernel
  rcases (Option.any_eq_true ..).mp served with ⟨⟨state, ledger⟩, executed, counted⟩
  rcases of_decide_eq_true counted with ⟨raised, accepted, merged, withdrawn⟩
  have run : Run trackedStep (fun _ => True) _ _ _ :=
    (run_of_execute executed).widen fun _ _ => trivial
  have quiet : (booted.delivery.pics.requests keyboardIrq).toNat = 0 ∧
      booted.delivery.calls = [] := by decide +kernel
  rcases requests_handled_once rfl rfl booted_reachable booted_enabled ⟨_, run⟩ with
    ⟨requests, calls, noise, ⟨irqs, functions⟩, _⟩
  have kept := requests keyboardIrq (by decide)
  have once := calls keyboardIrq
  rw [quiet.1, raised, merged, withdrawn, accepted] at kept
  rw [callCount, quiet.2, accepted, noise keyboardIrq (by decide) (by decide)] at once
  rw [quiet.2, List.nil_append] at functions
  refine ⟨state, ledger, run, raised, accepted, ?_, once.symm, irqs, functions⟩
  exact Bool.toNat_eq_zero.mp (by omega)

end Yoctos.Interrupt
