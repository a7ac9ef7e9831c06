import Yoctos.Tasks.AddressSpace

/-! # The context of a task

`task_switch` is a call that goes through the processor: it cannot fault, and
what comes back to it is the context it was made from.
-/

namespace Yoctos.Tasks

open Yoctos.Common Yoctos.Memory Yoctos.Transition

/-! ## Busy bits -/

def System.Busy (system : System) (ref : TssRef) : Prop :=
  ref = .initial ∨ ∃ activation ∈ system.stack, ref = .task activation.slot

/-- The descriptors of these segments are the busy ones. -/
structure BusyBits (system : System) : Prop where
  busy : ∀ ref, system.Busy ref → (system.kernel.gdt ref.entry).type = Kernel.busyTss
  available : ∀ slot ∈ system.phase.created,
    (system.kernel.gdt (TssRef.task slot).entry).type = Kernel.availableTss

theorem System.Busy.live {system : System} {ref : TssRef} (busy : system.Busy ref) :
    system.Live ref := by
  rcases busy with rfl | ⟨activation, member, rfl⟩
  · trivial
  · exact List.mem_append_right _ (List.mem_map_of_mem member)

private theorem System.busy_context (system : System) : system.Busy (contextTss system.stack) := by
  cases stacked : system.stack with
  | nil => exact .inl rfl
  | cons activation rest => exact .inr ⟨activation, stacked ▸ List.mem_cons_self .., rfl⟩

namespace BusyBits

variable {machine : Machine} {system next : System}

private theorem type_of_update {gdt : Nat → GdtEntry} {target ref : TssRef} {value : GdtEntry}
    (other : ref ≠ target) :
    (Function.update gdt target.entry value ref.entry).type = (gdt ref.entry).type := by
  rw [Function.update_of_ne fun equal => other (TssRef.entry_injective equal)]

private theorem type_of_update_self {gdt : Nat → GdtEntry} {target : TssRef} {value : GdtEntry} :
    (Function.update gdt target.entry value target.entry).type = value.type := by
  rw [Function.update_self]

theorem initial (machine : Machine) : BusyBits (System.initial machine) where
  busy ref busy := by
    rcases busy with rfl | ⟨activation, member, _⟩
    · have entry : (System.initial machine).kernel.gdt TssRef.initial.entry =
          setBusy (gdtMakeTss machine.layout.initialTss dplKernel) := by
        simp only [System.initial, tasksInit, TssRef.entry, Function.update_self]
      rw [entry]
      change Kernel.availableTss ||| 2 = _
      rfl
    · cases member
  available slot member := by cases member

theorem of_unchanged (bits : BusyBits system) (stack : next.stack = system.stack)
    (created : next.phase.created = system.phase.created)
    (gdt : next.kernel.gdt = system.kernel.gdt) : BusyBits next where
  busy ref busy := by
    rw [gdt]
    exact bits.busy ref (by rwa [System.Busy, stack] at busy)
  available slot member := by
    rw [gdt]
    exact bits.available slot (created ▸ member)

theorem step {event : Event} (bits : BusyBits system) (table : TaskTable system)
    (descriptors : Descriptors machine system)
    (stepped : Tasks.step machine system event = some next) : BusyBits next := by
  have nodup := table.nodup
  cases step_cases stepped with
  | execFailed running begun =>
      rcases taskLoadBegin_failed begun with ⟨console, rfl⟩
      exact bits.of_unchanged rfl rfl rfl
  | @execLoading filename args kernel window running begun =>
      have begun := Begun.of_copying begun
      have new := table.slot_new begun
      constructor
      · intro ref busy
        have other : ref ≠ .task window.slot := by
          rintro rfl
          have inSystem : system.Busy (.task window.slot) := busy
          exact new inSystem.live
        rw [begun.gdt]
        exact (type_of_update other).trans (bits.busy ref busy)
      · intro slot member
        cases List.mem_singleton.mp member
        rw [begun.gdt]
        exact type_of_update_self
  | copy copying copied =>
      rcases copyByte_some copied with ⟨_, _, _, _, _, rfl⟩
      exact bits.of_unchanged rfl (by rw [copying]; rfl) rfl
  | restore copying => exact bits.of_unchanged rfl (by rw [copying]; rfl) rfl
  | @taskSwitch slot registers kernel loaded switched =>
      have createdEq := System.created_of_loaded loaded
      have member : slot ∈ system.created := createdEq ▸ List.mem_cons_self ..
      rw [createdEq, List.nodup_cons] at nodup
      rw [descriptors.selector slot member] at switched
      rcases Kernel.farCall_some switched with ⟨_, _, _, _, gdt, _, _, _, _⟩
      rw [TssRef.selectorIndex_selector] at gdt
      refine ⟨fun ref busy => ?_, fun _ none => absurd none List.not_mem_nil⟩
      rw [gdt]
      by_cases same : ref = .task slot
      · subst same
        have available := bits.available slot (by rw [loaded]; exact List.mem_singleton_self _)
        refine type_of_update_self.trans ?_
        change (system.kernel.gdt (TssRef.task slot).entry).type ||| 2 = _
        rw [available]
        rfl
      · refine (type_of_update same).trans (bits.busy ref ?_)
        rcases busy with rfl | ⟨activation, stacked, rfl⟩
        · exact .inl rfl
        · refine .inr ⟨activation, ?_, rfl⟩
          rcases List.mem_cons.mp stacked with rfl | older
          · exact absurd rfl same
          · exact older
  | @iret activation rest kernel running stacked switched =>
      have createdEq := System.created_of_running running
      rw [createdEq, stacked, List.map_cons, List.nodup_cons] at nodup
      rcases Kernel.iret_some switched with ⟨_, _, _, _, gdt, _, _, _, _⟩
      rw [descriptors.tr_of_stacked stacked, TssRef.selectorIndex_selector] at gdt
      constructor
      · intro ref busy
        have other : ref ≠ .task activation.slot := by
          rcases busy with rfl | ⟨waiting, older, rfl⟩
          · exact nofun
          · intro same
            exact nodup.1 (TssRef.task.inj same ▸ List.mem_map_of_mem older)
        rw [gdt]
        refine (type_of_update other).trans (bits.busy ref ?_)
        rcases busy with rfl | ⟨waiting, older, rfl⟩
        · exact .inl rfl
        · exact .inr ⟨waiting, stacked ▸ List.mem_cons_of_mem _ older, rfl⟩
      · intro slot member
        cases List.mem_singleton.mp member
        have busy := bits.busy (.task activation.slot)
          (.inr ⟨activation, stacked ▸ List.mem_cons_self .., rfl⟩)
        rw [gdt]
        refine type_of_update_self.trans ?_
        change (system.kernel.gdt (TssRef.task activation.slot).entry).type &&& 13 = _
        rw [busy]
        rfl
  | taskFree returned =>
      refine ⟨bits.busy, fun _ none => absurd none List.not_mem_nil⟩
  | termSetcolors running => exact bits.of_unchanged rfl rfl rfl
  | store running nested stored =>
      rcases userStore_some stored with ⟨_, _, _, rfl⟩
      exact bits.of_unchanged rfl rfl rfl
  | compute running nested => exact bits.of_unchanged rfl rfl rfl

theorem of_reachable (reachable : Reachable machine system) : BusyBits system := by
  have preserved : ∀ before event after,
      (TaskTable before ∧ Descriptors machine before) ∧ BusyBits before →
      Tasks.step machine before event = some after →
      (TaskTable after ∧ Descriptors machine after) ∧ BusyBits after := by
    rintro before event after ⟨⟨table, descriptors⟩, bits⟩ stepped
    exact ⟨⟨table.step stepped, descriptors.step table stepped⟩,
      bits.step table descriptors stepped⟩
  exact (reachable.preserves preserved
    ⟨⟨.initial machine, .initial machine⟩, .initial machine⟩).2

end BusyBits

theorem Descriptors.tssOf_some {machine : Machine} {system : System}
    (descriptors : Descriptors machine system) {ref : TssRef} (live : system.Live ref)
    {type : BitVec 4} (typed : (system.kernel.gdt ref.entry).type = type) :
    system.kernel.tssOf machine type ref.selector = some ref := by
  have bound := ref.entry_lt
  rw [Kernel.tssOf, ref.selectorIndex_selector]
  rcases (descriptors.entry ref live).descriptor with ⟨found, _, decoded⟩
  have same : found = type := by
    have field := congrArg SegmentDescriptor.type decoded
    rw [GdtEntry.descriptor_eq] at field
    exact field.symm.trans typed
  subst same
  simp only [decoded]
  rw [if_pos ⟨bound, trivial, trivial, trivial⟩]
  exact machine.wellFormed.layout.tssAt_address ref

namespace BusyBits

variable {machine : Machine} {system : System}
variable (bits : BusyBits system) (descriptors : Descriptors machine system)

include bits descriptors

theorem tssOf_tr : system.kernel.tssOf machine Kernel.busyTss system.kernel.cpu.tr =
    some (contextTss system.stack) := by
  rw [descriptors.tr]
  exact descriptors.tssOf_some (Descriptors.live_context system) (bits.busy _ system.busy_context)

theorem tssOf_link {activation : Activation} {rest : List Activation}
    (stacked : system.stack = activation :: rest) :
    system.kernel.tssOf machine Kernel.busyTss
      (system.kernel.getTss (.task activation.slot)).previousTaskLink =
        some (contextTss rest) := by
  have busy : system.Busy (contextTss rest) := by
    cases rest with
    | nil => exact .inl rfl
    | cons waiting older =>
        exact .inr ⟨waiting, stacked ▸ List.mem_cons_of_mem _ (List.mem_cons_self ..), rfl⟩
  rw [descriptors.linked activation rest (by rw [stacked])]
  exact descriptors.tssOf_some busy.live (bits.busy _ busy)

private theorem farCall_isSome {slot : Slot} (loaded : system.phase = .loaded slot)
    (registers : Registers) : ((system.kernel.setRegisters registers).farCall machine
      (system.kernel.tasks slot).tssSelector).isSome = true := by
  have member : slot ∈ system.created := by simp [System.created_of_loaded loaded]
  have outgoing := bits.tssOf_tr descriptors
  have live : system.Live (.task slot) := member
  have incoming : system.kernel.tssOf machine Kernel.availableTss (TssRef.task slot).selector =
      some (.task slot) := descriptors.tssOf_some live
    (bits.available slot (by rw [loaded]; exact List.mem_singleton_self _))
  rw [descriptors.selector slot member]
  change (Option.bind (system.kernel.tssOf machine Kernel.busyTss system.kernel.cpu.tr) fun _ =>
    Option.bind (system.kernel.tssOf machine Kernel.availableTss _) _).isSome = true
  rw [outgoing, incoming]
  rfl

theorem iret_isSome {activation : Activation} {rest : List Activation}
    (stacked : system.stack = activation :: rest)
    (nested : system.kernel.cpu.registers.eflags &&& eflagsNt ≠ 0) :
    (system.kernel.iret machine).isSome = true := by
  have outgoing := bits.tssOf_tr descriptors
  have incoming := bits.tssOf_link descriptors stacked
  rw [stacked] at outgoing
  simp only [Kernel.iret, outgoing, contextTss, incoming, Option.bind_eq_bind, Option.bind_some,
    if_neg nested]
  rfl

end BusyBits

/-! ## Saved registers -/

private theorem farCall_registers {machine : Machine} {kernel next : Kernel} {selector : BitVec 16}
    {outgoing : TssRef} (called : kernel.farCall machine selector = some next)
    (leaves : kernel.tssOf machine Kernel.busyTss kernel.cpu.tr = some outgoing) (ref : TssRef) :
    (next.getTss ref).registers =
      if ref = outgoing then kernel.cpu.registers else (kernel.getTss ref).registers := by
  simp only [Kernel.farCall, leaves, Option.bind_eq_bind, Option.bind_some,
    Option.bind_eq_some_iff] at called
  rcases called with ⟨incoming, _, equal⟩
  cases equal
  change (Kernel.getTss (Kernel.setTss _ _ _) ref).registers = _
  simp only [Kernel.getTss_setTss]
  by_cases target : ref = incoming
  · subst target
    by_cases source : ref = outgoing <;> simp [source]
  · rw [if_neg target]
    by_cases source : ref = outgoing <;> simp [source]

theorem iret_registers {machine : Machine} {kernel next : Kernel} {outgoing incoming : TssRef}
    (returned : kernel.iret machine = some next)
    (leaves : kernel.tssOf machine Kernel.busyTss kernel.cpu.tr = some outgoing)
    (enters : kernel.tssOf machine Kernel.busyTss (kernel.getTss outgoing).previousTaskLink =
      some incoming) (different : incoming ≠ outgoing) :
    next.cpu.registers = (kernel.getTss incoming).registers ∧
      ∀ ref, ref ≠ outgoing → (next.getTss ref).registers = (kernel.getTss ref).registers := by
  simp only [Kernel.iret, leaves, enters, Option.bind_eq_bind, Option.bind_some] at returned
  split at returned
  next => cases returned
  next =>
    cases returned
    constructor
    · simp only [Kernel.getTss_setTss, if_neg different]
    · intro ref other
      change (Kernel.getTss (Kernel.setTss _ _ _) ref).registers = _
      simp only [Kernel.getTss_setTss, if_neg other]

/-- The context of the call that is suspended above `lower`: saved, or restored
after the return. -/
inductive Suspended (registers : Registers) (lower : List Activation) (system : System) : Prop
  | saved {activation : Activation} (below : activation :: lower <:+ system.stack)
      (kept : (system.kernel.getTss (contextTss lower)).registers = registers)
  | restored {activation : Activation} (stack : system.stack = lower)
      (phase : system.phase = .returned activation)
      (loaded : system.kernel.cpu.registers = registers)

theorem contextTss_ne {stack lower : List Activation} {activation : Activation}
    (nodup : (stack.map Activation.slot).Nodup) (below : activation :: lower <:+ stack) :
    contextTss lower ≠ contextTss stack := by
  have apart : ∀ {slot : Slot}, slot ∈ lower.map Activation.slot → contextTss stack ≠ .task slot := by
    intro slot member same
    cases stack with
    | nil => cases same
    | cons top rest =>
        cases TssRef.task.inj same
        rw [List.map_cons, List.nodup_cons] at nodup
        rcases List.suffix_cons_iff.mp below with whole | older
        · cases whole
          exact nodup.1 member
        · apply nodup.1
          have inRest := (List.suffix_cons _ lower).trans older
          exact (List.map_subset _ inRest.subset) member
  cases lower with
  | nil =>
      cases stack with
      | nil => cases List.suffix_nil.mp below
      | cons top rest => exact nofun
  | cons waiting older => exact (apart (List.mem_cons_self ..)).symm

namespace Suspended

variable {machine : Machine} {registers : Registers} {lower : List Activation}
variable {before after : System} {event : Event}

theorem of_running (suspended : Suspended registers lower before)
    (running : before.phase = .running) :
    (∃ activation, activation :: lower <:+ before.stack) ∧
      (before.kernel.getTss (contextTss lower)).registers = registers := by
  cases suspended with
  | saved below kept => exact ⟨⟨_, below⟩, kept⟩
  | restored stack phase loaded => cases running.symm.trans phase

theorem of_same (suspended : Suspended registers lower before)
    (notReturned : ∀ activation, before.phase ≠ .returned activation)
    (stack : after.stack = before.stack)
    (tss : after.kernel.getTss (contextTss lower) = before.kernel.getTss (contextTss lower)) :
    Suspended registers lower after := by
  cases suspended with
  | saved below kept => exact .saved (stack ▸ below) (by rw [tss, kept])
  | restored _ phase _ => exact absurd phase (notReturned _)

theorem step (suspended : Suspended registers lower before) (table : TaskTable before)
    (descriptors : Descriptors machine before) (bits : BusyBits before)
    (high : lower.length < after.created.length)
    (stepped : Tasks.step machine before event = some after) :
    Suspended registers lower after := by
  have nodup := table.nodup
  have notReturned : ∀ {phase : Phase}, before.phase = phase → (∀ activation,
      phase ≠ .returned activation) → ∀ activation, before.phase ≠ .returned activation :=
    fun same other activation returned => other activation (same.symm.trans returned)
  have leaves := bits.tssOf_tr descriptors
  cases step_cases stepped with
  | execFailed running begun =>
      rcases taskLoadBegin_failed begun with ⟨console, rfl⟩
      exact suspended.of_same (notReturned running nofun) rfl (by cases contextTss lower <;> rfl)
  | @execLoading filename args kernel window running begun =>
      have begun := Begun.of_copying begun
      have new := table.slot_new begun
      rcases suspended.of_running running with ⟨⟨activation, below⟩, _⟩
      refine suspended.of_same (notReturned running nofun) rfl ?_
      cases lower with
      | nil => exact begun.initialTss
      | cons waiting older =>
          have member : waiting.slot ∈ before.created :=
            System.mem_created_of_suffix ((List.suffix_cons _ _).trans below)
          exact congrArg Task.tss (begun.others _ fun same => new (same ▸ member))
  | copy copying copied =>
      rcases copyByte_some copied with ⟨_, _, _, _, _, rfl⟩
      exact suspended.of_same (notReturned copying nofun) rfl (by cases contextTss lower <;> rfl)
  | restore copying =>
      exact suspended.of_same (notReturned copying nofun) rfl (by cases contextTss lower <;> rfl)
  | @taskSwitch slot values kernel loaded switched =>
      cases suspended with
      | saved below kept =>
          rw [System.created_of_loaded loaded, List.nodup_cons] at nodup
          refine .saved (below.trans (List.suffix_cons _ _)) ?_
          rw [farCall_registers switched leaves, if_neg (contextTss_ne nodup.2 below)]
          refine Eq.trans ?_ kept
          cases contextTss lower <;> rfl
      | restored stack phase _ => cases loaded.symm.trans phase
  | @iret top rest kernel running stacked switched =>
      rcases suspended.of_running running with ⟨⟨activation, below⟩, kept⟩
      rw [System.created_of_running running, stacked] at nodup
      rw [stacked] at leaves below
      have different : contextTss rest ≠ contextTss (top :: rest) :=
        contextTss_ne nodup (List.suffix_refl _)
      rcases iret_registers switched leaves (bits.tssOf_link descriptors stacked) different with
        ⟨loaded, others⟩
      rcases List.suffix_cons_iff.mp below with whole | older
      · cases whole
        exact .restored rfl rfl (loaded.trans kept)
      · exact .saved older ((others _ (contextTss_ne nodup below)).trans kept)
  | taskFree returned =>
      cases suspended with
      | saved below kept =>
          refine .saved below (Eq.trans ?_ kept)
          cases contextTss lower with
          | initial => rfl
          | task slot =>
              simp only [Kernel.getTss, taskFree_tasks, Kernel.termSetcolors_tasks]
      | restored stack phase _ =>
          rw [System.created_of_running rfl, List.length_map, stack] at high
          exact absurd high (lt_irrefl _)
  | termSetcolors running =>
      exact suspended.of_same (notReturned running nofun) rfl (by cases contextTss lower <;> rfl)
  | store running nested stored =>
      rcases userStore_some stored with ⟨_, _, _, rfl⟩
      exact suspended.of_same (notReturned running nofun) rfl (by cases contextTss lower <;> rfl)
  | compute running nested =>
      exact suspended.of_same (notReturned running nofun) rfl (by cases contextTss lower <;> rfl)

end Suspended

/-! ## Calls through the processor -/

section

variable {machine : Machine} {system : System}

/-- No task switch of the kernel faults: the far call finds the new task's
segment available, and the `iret` of a task that runs nested finds its caller's
busy. -/
theorem switches_succeed (reachable : Reachable machine system) :
    (∀ slot registers, system.phase = .loaded slot → ∃ next,
      step machine system (.taskSwitch registers) = some next ∧ next.phase = .running ∧
        next.stack = ⟨slot, system.kernel.colors⟩ :: system.stack) ∧
    (∀ activation rest, system.phase = .running → system.stack = activation :: rest →
      system.kernel.cpu.registers.eflags &&& eflagsNt ≠ 0 → ∃ next,
        step machine system .iret = some next ∧ next.phase = .returned activation ∧
          next.stack = rest) ∧
    (∀ ref, system.Live ref →
      ((system.kernel.gdt ref.entry).type = Kernel.busyTss ↔ system.Busy ref)) := by
  have descriptors := Descriptors.of_reachable reachable
  have bits := BusyBits.of_reachable reachable
  refine ⟨fun slot registers loaded => ?_, fun activation rest running stacked nested => ?_,
    fun ref live => ⟨fun busy => ?_, bits.busy ref⟩⟩
  · rcases Option.isSome_iff_exists.mp (bits.farCall_isSome descriptors loaded registers) with
      ⟨kernel, switched⟩
    refine ⟨⟨kernel, .running, ⟨slot, system.kernel.colors⟩ :: system.stack⟩, ?_, rfl, rfl⟩
    simp only [step, loaded, switched, Option.map_some]
  · rcases Option.isSome_iff_exists.mp (bits.iret_isSome descriptors stacked nested) with
      ⟨kernel, switched⟩
    refine ⟨⟨kernel, .returned activation, rest⟩, ?_, rfl, rfl⟩
    simp only [step, running, stacked, switched, Option.map_some]
  · cases ref with
    | initial => exact .inl rfl
    | task slot =>
        rcases List.mem_append.mp live with inPhase | onStack
        · rw [bits.available slot inPhase] at busy
          cases busy
        · rcases List.mem_map.mp onStack with ⟨activation, member, rfl⟩
          exact .inr ⟨activation, member, rfl⟩

private theorem suspended_of_switched {registers : Registers} {switched inner : System}
    {events : List Event} (reachable : Reachable machine system)
    (stepped : step machine system (.taskSwitch registers) = some switched)
    (run : Run (step machine) (fun state => system.stack.length < state.depth) switched events
      inner) :
    Suspended registers system.stack inner ∧
      Remembers system.kernel.colors system.stack inner := by
  have preserved : ∀ before event after, system.stack.length < System.depth before →
      system.stack.length < System.depth after →
      (Reachable machine before ∧ Suspended registers system.stack before ∧
        Remembers system.kernel.colors system.stack before) →
      step machine before event = some after →
      Reachable machine after ∧ Suspended registers system.stack after ∧
        Remembers system.kernel.colors system.stack after := by
    rintro before event after _ high ⟨reachable, suspended, remembers⟩ stepped
    exact ⟨reachable.step_to stepped, suspended.step (.of_reachable reachable)
      (.of_reachable reachable) (.of_reachable reachable) high stepped,
      remembers.step high stepped⟩
  refine (run.preserves preserved ⟨reachable.step_to stepped, ?_⟩).2
  have leaves := (BusyBits.of_reachable reachable).tssOf_tr (.of_reachable reachable)
  cases step_cases stepped with
  | @taskSwitch slot _ kernel loaded farCalled =>
      refine ⟨.saved (List.suffix_refl _) ?_, .suspended (List.suffix_refl _)⟩
      rw [farCall_registers farCalled leaves, if_pos rfl]
      rfl

/-- However many tasks have run in between, `task_switch` returns with the
registers, the task register and the page directory of its far call, and
`task_exec` with the colors it had read. -/
theorem taskSwitch_returns {registers : Registers} {switched inner : System} {events : List Event}
    {activation : Activation} (reachable : Reachable machine system)
    (stepped : step machine system (.taskSwitch registers) = some switched)
    (run : Run (step machine) (fun state => system.stack.length < state.depth) switched events
      inner)
    (returned : inner.phase = .returned activation) (stack : inner.stack = system.stack) :
    inner.kernel.cpu = ⟨system.kernel.cpu.tr, system.kernel.cpu.cr3, registers⟩ ∧
      activation.cols = system.kernel.colors := by
  have innerReachable := (reachable.step_to stepped).extend run
  have notDeeper : ∀ {top : Activation}, ¬ top :: system.stack <:+ inner.stack := by
    intro top below
    have length := below.length_le
    rw [stack, List.length_cons] at length
    omega
  rcases suspended_of_switched reachable stepped run with ⟨suspended, remembers⟩
  constructor
  · have values : inner.kernel.cpu.registers = registers := by
      cases suspended with
      | saved below kept => exact absurd below notDeeper
      | restored _ _ loaded => exact loaded
    have tr := (Descriptors.of_reachable innerReachable).tr
    rw [stack, ← (Descriptors.of_reachable reachable).tr] at tr
    have cr3 := (AddressSpaces.of_reachable innerReachable).cr3
    rw [System.pagedir, returned, stack] at cr3
    have before := (AddressSpaces.of_reachable reachable).cr3
    cases step_cases stepped with
    | taskSwitch loaded _ =>
        rw [System.pagedir, loaded, ← cr3] at before
        rw [before, ← tr, ← values]
  · cases remembers with
    | loading _ _ phase => simp [returned] at phase
    | suspended below => exact absurd below notDeeper
    | returned _ phase =>
        rw [returned] at phase
        cases phase
        rfl

end

/-! ## The shell -/

theorem switches_succeed_shell : ∃ activation next,
    step shellMachine shellRunning .iret = some next ∧ next.phase = .returned activation := by
  have length : shellRunning.stack.length = 1 := by decide +kernel
  rcases List.length_eq_one_iff.mp length with ⟨activation, stacked⟩
  have nested : shellRunning.kernel.cpu.registers.eflags &&& eflagsNt ≠ 0 := by decide +kernel
  rcases (switches_succeed shellRunning_reachable).2.1 activation [] shellRunning_running stacked
    nested with ⟨next, stepped, returned, _⟩
  exact ⟨activation, next, stepped, returned⟩

def shellLoading : List Event :=
  .taskExec shellName noArguments :: (List.replicate 5 .copy ++ [.restore])

private theorem shellLoading_isSome :
    (execute (step shellMachine) (fun _ => true) (System.initial shellMachine)
      shellLoading).isSome = true := by
  decide +kernel

def shellLoaded : System :=
  (execute (step shellMachine) (fun _ => true) (System.initial shellMachine) shellLoading).get
    shellLoading_isSome

theorem shellLoaded_reachable : Reachable shellMachine shellLoaded :=
  ⟨shellLoading, (run_of_execute (Option.some_get _).symm).widen fun _ _ => trivial⟩

theorem taskSwitch_returns_shell : ∃ switched inner,
    step shellMachine shellLoaded (.taskSwitch shellMachine.registers) = some switched ∧
    step shellMachine switched .iret = some inner ∧
    inner.kernel.cpu.registers = shellMachine.registers := by
  have succeeds : ((step shellMachine shellLoaded (.taskSwitch shellMachine.registers)).bind
      fun switched => step shellMachine switched .iret).isSome = true := by decide +kernel
  rcases Option.isSome_iff_exists.mp succeeds with ⟨inner, both⟩
  rcases Option.bind_eq_some_iff.mp both with ⟨switched, stepped, returned⟩
  refine ⟨switched, inner, stepped, returned, ?_⟩
  have reachable := shellLoaded_reachable
  generalize shellLoaded = system, shellMachine.registers = registers at *
  cases step_cases stepped with
  | @taskSwitch slot _ kernel loaded _ =>
      cases step_cases returned with
      | iret running stacked _ =>
          cases stacked
          have above : system.stack.length < System.depth
              ⟨kernel, .running, ⟨slot, system.kernel.colors⟩ :: system.stack⟩ := by
            simp [System.depth, System.created, Phase.created]
          have run : Run (step shellMachine) (fun state => system.stack.length < state.depth) _ _ _ :=
            .single above returned (by simp [System.depth, System.created, Phase.created])
          rw [(taskSwitch_returns reachable stepped run rfl rfl).1]

end Yoctos.Tasks
