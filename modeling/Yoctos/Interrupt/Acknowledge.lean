import Yoctos.Interrupt.Irq

/-! # Acknowledged interrupts

What `pic_init` makes of the controllers, what the CPU gets from them, and what
`pic_eoi` leaves.
-/

namespace Yoctos.Interrupt

open Yoctos.Ia32

/-! ## Controllers in order -/

def masterSetup : PicSetup := ⟨.mask, 0x11, 32, 0x04, 0x01, 0⟩
def slaveSetup : PicSetup := ⟨.mask, 0x11, 40, 0x02, 0x01, 0⟩

structure Ready (pics : Pics) : Prop where
  master : pics.master.setup = masterSetup
  slave : pics.slave.setup = slaveSetup
  masterIdle : pics.master.inService = fun _ => false
  slaveIdle : pics.slave.inService = fun _ => false

def readyPics : Pics where
  master := ⟨masterSetup, fun _ => false, fun _ => false⟩
  slave := ⟨slaveSetup, fun _ => false, fun _ => false⟩

theorem ready_iff {pics : Pics} : Ready pics ↔ pics.silent = readyPics := by
  constructor
  · intro ready
    rw [Pics.silent, Pic.silent, Pic.silent, ready.master, ready.slave, ready.masterIdle,
      ready.slaveIdle]
    rfl
  · intro silent
    have master := congrArg Pics.master silent
    have slave := congrArg Pics.slave silent
    exact ⟨congrArg Pic.setup master, congrArg Pic.setup slave, congrArg Pic.inService master,
      congrArg Pic.inService slave⟩

def outbAll (pics : Pics) (writes : List (BitVec 16 × BitVec 8)) : Pics :=
  writes.foldl (fun pics write => pics.outb write.1 write.2) pics

private theorem outbAll_silent (pics : Pics) (writes : List (BitVec 16 × BitVec 8)) :
    (outbAll pics writes).silent =
      writes.foldl (fun pics write => pics.write write.1 write.2) pics.silent := by
  induction writes generalizing pics with
  | nil => rfl
  | cons write rest induction =>
      rw [List.foldl_cons, ← Pics.outb_silent]
      exact induction (pics.outb write.1 write.2)

/-- Whatever the firmware left in the setups, unless it left an interrupt
unfinished. -/
theorem picInit_ready {pics : Pics} (master : pics.master.inService = fun _ => false)
    (slave : pics.slave.inService = fun _ => false) : Ready (outbAll pics picInit) := by
  rw [ready_iff, outbAll_silent, Pics.silent, Pic.silent, Pic.silent, master, slave]
  simp [picInit, pic1Cmd, pic1Data, pic2Cmd, pic2Data, Pics.write, Pic.command, Pic.data,
    PicSetup.start, PicSetup.data, PicSetup.afterCascade, readyPics, masterSetup, slaveSetup]

private theorem picEoi_ready {pics : Pics} {irq : Fin 16}
    (ready : Ready ⟨pics.master.endOfInterrupt,
      if irq.val > 7 then pics.slave.endOfInterrupt else pics.slave⟩) :
    Ready (outbAll pics (picEoi irq)) := by
  rw [ready_iff] at ready ⊢
  rw [← ready, outbAll_silent, picEoi]
  split <;> simp [pic1Cmd, pic2Cmd, picEoiCommand, Pics.write, Pic.command, Pics.silent,
    Pic.endOfInterrupt_silent]

/-! ## Acknowledged interrupts -/

namespace Ready

variable {pics : Pics}

private theorem master_next (ready : Ready pics) :
    pics.master.next = Fin.find? pics.master.requests :=
  Pic.next_of_idle (by rw [ready.master]; rfl) ready.masterIdle

private theorem slave_next (ready : Ready pics) : pics.slave.next = Fin.find? pics.slave.requests :=
  Pic.next_of_idle (by rw [ready.slave]; rfl) ready.slaveIdle

private theorem master_normal (ready : Ready pics) : pics.master.setup.icw4.getLsbD 1 = false := by
  rw [ready.master]
  rfl

private theorem slave_normal (ready : Ready pics) : pics.slave.setup.icw4.getLsbD 1 = false := by
  rw [ready.slave]
  rfl

private theorem master_vector (ready : Ready pics) (line : Fin 8) :
    pics.master.vector line = BitVec.ofNat 8 (irqRemapOffset + line) := by
  rw [Pic.vector, ready.master]
  revert line
  decide

private theorem slave_vector (ready : Ready pics) (line : Fin 8) :
    pics.slave.vector line = BitVec.ofNat 8 (irqRemapOffset + (8 + line)) := by
  rw [Pic.vector, ready.slave]
  revert line
  decide

theorem cascade (ready : Ready pics) (line : Fin 8) :
    pics.master.setup.icw3.getLsbD line = decide (line = cascadeLine) := by
  rw [ready.master]
  revert line
  decide

end Ready

/-! ## What is due -/

def priority : List (Fin 16) := [0, 1, 8, 9, 10, 11, 12, 13, 14, 15, 3, 4, 5, 6, 7]

/-- The IRQs the kernel has yet to serve. For a request of the slave that is gone
again the slave answers with its last line. -/
def due (pics : Pics) (irq : Fin 16) : Bool :=
  decide (irq ≠ cascadeIrq) && (pics.requests irq ||
    (decide (irq = 15) && pics.master.requests cascadeLine &&
      decide (∀ line, pics.slave.requests line = false)))

theorem find?_priority {lines : Fin 16 → Bool} {irq : Fin 16} (own : irq ≠ cascadeIrq)
    (isDue : lines irq = true)
    (higher : ∀ other ∈ priority.takeWhile (· ≠ irq), lines other = false) :
    priority.find? lines = some irq := by
  have parts : ∀ irq : Fin 16, irq ≠ cascadeIrq → priority =
      priority.takeWhile (· ≠ irq) ++ irq :: (priority.dropWhile (· ≠ irq)).tail := by
    decide
  have nothing : (priority.takeWhile (· ≠ irq)).find? lines = none :=
    List.find?_eq_none.mpr fun other member => by simp [higher other member]
  rw [parts irq own, List.find?_append, nothing, Option.none_or, List.find?_cons_of_pos isDue]

private theorem higher_masterIrq : ∀ line ≠ cascadeLine,
    ∀ other ∈ priority.takeWhile (· ≠ masterIrq line), (∃ lower < line, other = masterIrq lower) ∨
      (cascadeLine < line ∧ ∃ own, other = slaveIrq own) := by
  decide

private theorem higher_slaveIrq :
    ∀ (line : Fin 8), ∀ other ∈ priority.takeWhile (· ≠ slaveIrq line),
    (∃ lower < cascadeLine, other = masterIrq lower) ∨ ∃ lower < line, other = slaveIrq lower := by
  decide

section

variable {pics after : Pics}

@[simp] theorem due_masterIrq (pics : Pics) (line : Fin 8) :
    due pics (masterIrq line) = (decide (line ≠ cascadeLine) && pics.master.requests line) := by
  have cascade : masterIrq line = cascadeIrq ↔ line = cascadeLine := @masterIrq_inj _ cascadeLine
  have notLast : masterIrq line ≠ 15 := masterIrq_ne_slaveIrq line 7
  simp [due, cascade, notLast]

@[simp] theorem due_slaveIrq (pics : Pics) (line : Fin 8) :
    due pics (slaveIrq line) = (pics.slave.requests line || (decide (line = 7) &&
      pics.master.requests cascadeLine && decide (∀ line, pics.slave.requests line = false))) := by
  have device : slaveIrq line ≠ cascadeIrq := (masterIrq_ne_slaveIrq cascadeLine line).symm
  have last : slaveIrq line = 15 ↔ line = 7 := @slaveIrq_inj _ 7
  simp [due, device, last]

private theorem due_congr (master : after.master.requests = pics.master.requests)
    (slave : after.slave.requests = pics.slave.requests) : due after = due pics := by
  funext irq
  rcases irq_cases irq with ⟨line, rfl⟩ | ⟨line, rfl⟩ <;> simp [master, slave]

private theorem due_latch (before after : Pics) : due (before.latch after) = due after := by
  unfold Pics.latch
  split
  next rises =>
      simp only [Bool.and_eq_true] at rises
      rcases Option.isSome_iff_exists.mp rises.2 with ⟨passed, isPassed⟩
      have requested := (Pic.next_eq_some_iff.mp isPassed).1.1
      have some : ¬ ∀ line, after.slave.requests line = false := fun nothing =>
        Bool.false_ne_true ((nothing passed).symm.trans requested)
      funext irq
      rcases irq_cases irq with ⟨line, rfl⟩ | ⟨line, rfl⟩
      · by_cases cascade : line = cascadeLine
        · simp [cascade]
        · simp [cascade, Pic.setRequest]
      · simp [some]
  next => rfl

theorem due_outbAll_picEoi (pics : Pics) (irq : Fin 16) :
    due (outbAll pics (picEoi irq)) = due pics := by
  have kept : ∀ (pics : Pics) (port : BitVec 16), due (pics.outb port picEoiCommand) = due pics := by
    intro pics port
    have written := pics.write_requests port (show picEoiCommand.getLsbD 4 = false from rfl)
    rw [Pics.outb, due_latch, due_congr written.1 written.2]
  unfold picEoi
  split
  · exact (kept _ _).trans (kept _ _)
  · exact kept _ _

end

/-- `irq` is what the kernel takes an acknowledged interrupt for, `accepted` the
request that went into service. -/
structure Acknowledged (pics : Pics) (irq : Fin 16) (accepted : Option (Fin 16)) (after : Pics) :
    Prop where
  own : irq ≠ cascadeIrq
  genuine : (accepted = some irq ∧ pics.requests irq = true) ∨
    (accepted = none ∧ (irq = 7 ∨ irq = 15))
  requests : ∀ other, other ≠ cascadeIrq →
    after.requests other = (pics.requests other && !decide (accepted = some other))
  linked : after.Linked
  ends : Ready (outbAll after (picEoi irq))
  due : Interrupt.due after = Function.update (Interrupt.due pics) irq false
  first : priority.find? (Interrupt.due pics) = if Interrupt.due pics irq then some irq else none

namespace Ready

variable {pics : Pics}

private theorem slave_nothing (ready : Ready pics) (gone : pics.slave.next = none) (line : Fin 8) :
    pics.slave.requests line = false := by
  rw [ready.slave_next] at gone
  exact Fin.find?_eq_none_iff.mp gone line

private theorem due_nothing (ready : Ready pics) (linked : pics.Linked)
    (nothing : pics.master.next = none) : due pics = fun _ => false := by
  rw [ready.master_next] at nothing
  have master := Fin.find?_eq_none_iff.mp nothing
  have slave : pics.slave.next = none := by
    cases passed : pics.slave.next with
    | none => rfl
    | some line =>
        have latched := linked (by rw [passed]; rfl)
        cases (master cascadeLine).symm.trans latched
  funext irq
  rcases irq_cases irq with ⟨line, rfl⟩ | ⟨line, rfl⟩
  · simp [master]
  · simp [master, ready.slave_nothing slave]

private theorem acknowledged_noise (ready : Ready pics) (linked : pics.Linked)
    (nothing : pics.master.next = none) : Acknowledged pics 7 none pics where
  own := by decide
  genuine := .inr ⟨rfl, .inl rfl⟩
  requests := by simp
  linked := linked
  ends := by
    apply picEoi_ready
    rw [Pic.endOfInterrupt_idle ready.masterIdle]
    exact ready
  due := by
    rw [Function.eq_update_self_iff, ready.due_nothing linked nothing]
  first := by
    rw [ready.due_nothing linked nothing]
    rfl

private theorem acknowledged_master (ready : Ready pics) (linked : pics.Linked) {line : Fin 8}
    (own : line ≠ cascadeLine) (passed : pics.master.next = some line) :
    Acknowledged pics (masterIrq line) (some (masterIrq line))
      { pics with master := pics.master.accept line } where
  own same := own (masterIrq_inj.mp same)
  genuine := .inl ⟨rfl, (pics.requests_masterIrq line).trans (Pic.next_eq_some_iff.mp passed).1.1⟩
  requests other _ := by
    rcases irq_cases other with ⟨other, rfl⟩ | ⟨other, rfl⟩
    · by_cases same : line = other
      · simp [same]
      · simp [same, Function.update_of_ne (Ne.symm same)]
    · simp
  linked passed := by
    have latched := linked passed
    rwa [← Function.update_of_ne own.symm false pics.master.requests] at latched
  ends := by
    apply picEoi_ready
    have low : ¬ (masterIrq line).val > 7 := by
      rw [masterIrq_val]
      omega
    rw [if_neg low, Pic.endOfInterrupt_accept ready.master_normal ready.masterIdle]
    exact ⟨ready.master, ready.slave, ready.masterIdle, ready.slaveIdle⟩
  due := by
    funext other
    rcases irq_cases other with ⟨other, rfl⟩ | ⟨other, rfl⟩
    · by_cases same : other = line
      · simp [same]
      · simp [same]
    · simp [Function.update_of_ne own.symm, (masterIrq_ne_slaveIrq line other).symm]
  first := by
    rcases Pic.next_eq_some_iff.mp passed with ⟨⟨requested, _⟩, before, _⟩
    have isDue : Interrupt.due pics (masterIrq line) = true := by simp [own, requested]
    rw [if_pos isDue]
    rw [ready.master_next] at passed
    have lower := (Fin.find?_eq_some_iff.mp passed).2
    refine find?_priority (fun same => own (masterIrq_inj.mp same)) isDue fun other higher => ?_
    rcases higher_masterIrq line own other higher with ⟨other, less, rfl⟩ | ⟨above, other, rfl⟩
    · simp [lower other less]
    · have silent : pics.slave.next = none := by
        cases output : pics.slave.next with
        | none => rfl
        | some own =>
            have latched := linked (by rw [output]; rfl)
            cases (lower cascadeLine above).symm.trans latched
      simp [ready.slave_nothing silent, lower cascadeLine above]

private theorem acknowledged_gone (ready : Ready pics)
    (latched : pics.master.next = some cascadeLine) (gone : pics.slave.next = none) :
    Acknowledged pics 15 none { pics with master := pics.master.accept cascadeLine } where
  own := by decide
  genuine := .inr ⟨rfl, .inr rfl⟩
  requests other device := by
    rcases irq_cases other with ⟨other, rfl⟩ | ⟨other, rfl⟩
    · have different : other ≠ cascadeLine := fun same => device (masterIrq_inj.mpr same)
      simp [different]
    · simp
  linked passed := by
    rw [show _ = none from gone] at passed
    cases passed
  ends := by
    apply picEoi_ready
    rw [if_pos (by decide), Pic.endOfInterrupt_accept ready.master_normal ready.masterIdle,
      Pic.endOfInterrupt_idle ready.slaveIdle]
    exact ⟨ready.master, ready.slave, ready.masterIdle, ready.slaveIdle⟩
  due := by
    have nothing := ready.slave_nothing gone
    rw [show (15 : Fin 16) = slaveIrq 7 from rfl]
    funext other
    rcases irq_cases other with ⟨other, rfl⟩ | ⟨other, rfl⟩
    · by_cases cascade : other = cascadeLine
      · simp [cascade]
      · simp [cascade]
    · by_cases last : other = 7
      · simp [nothing, last]
      · simp [nothing, last]
  first := by
    have nothing := ready.slave_nothing gone
    rw [ready.master_next] at latched
    rcases Fin.find?_eq_some_iff.mp latched with ⟨requested, lower⟩
    have isDue : Interrupt.due pics (slaveIrq 7) = true := by simp [requested, nothing]
    rw [show (15 : Fin 16) = slaveIrq 7 from rfl, if_pos isDue]
    refine find?_priority (masterIrq_ne_slaveIrq cascadeLine 7).symm isDue fun other higher => ?_
    rcases higher_slaveIrq 7 other higher with ⟨other, less, rfl⟩ | ⟨other, less, rfl⟩
    · simp [lower other less]
    · simp [nothing, less.ne]

private theorem acknowledged_slave (ready : Ready pics)
    (latched : pics.master.next = some cascadeLine)
    {line : Fin 8} (passed : pics.slave.next = some line) :
    Acknowledged pics (slaveIrq line) (some (slaveIrq line))
      ⟨pics.master.accept cascadeLine, pics.slave.accept line⟩ where
  own same := absurd same (masterIrq_ne_slaveIrq cascadeLine line).symm
  genuine := .inl ⟨rfl, (pics.requests_slaveIrq line).trans (Pic.next_eq_some_iff.mp passed).1.1⟩
  requests other device := by
    rcases irq_cases other with ⟨other, rfl⟩ | ⟨other, rfl⟩
    · have different : other ≠ cascadeLine := fun same => device (masterIrq_inj.mpr same)
      simp [different, (masterIrq_ne_slaveIrq other line).symm]
    · by_cases same : line = other
      · simp [same]
      · simp [same, Function.update_of_ne (Ne.symm same)]
  linked again := by
    rw [show _ = none from Pic.next_accept passed ready.slave_normal] at again
    cases again
  ends := by
    apply picEoi_ready
    have high : (slaveIrq line).val > 7 := by
      rw [slaveIrq_val]
      omega
    rw [if_pos high, Pic.endOfInterrupt_accept ready.master_normal ready.masterIdle,
      Pic.endOfInterrupt_accept ready.slave_normal ready.slaveIdle]
    exact ⟨ready.master, ready.slave, ready.masterIdle, ready.slaveIdle⟩
  due := by
    have requested := (Pic.next_eq_some_iff.mp passed).1.1
    have some : ¬ ∀ line, pics.slave.requests line = false := fun nothing =>
      Bool.false_ne_true ((nothing line).symm.trans requested)
    funext other
    rcases irq_cases other with ⟨other, rfl⟩ | ⟨other, rfl⟩
    · have different := masterIrq_ne_slaveIrq other line
      by_cases cascade : other = cascadeLine
      · simp [cascade]
      · simp [cascade]
    · by_cases same : other = line
      · simp [same]
      · simp [same, some]
  first := by
    rw [ready.slave_next] at passed
    rw [ready.master_next] at latched
    have lower := (Fin.find?_eq_some_iff.mp latched).2
    rcases Fin.find?_eq_some_iff.mp passed with ⟨requested, before⟩
    have some : ¬ ∀ line, pics.slave.requests line = false := fun nothing =>
      Bool.false_ne_true ((nothing line).symm.trans requested)
    have isDue : Interrupt.due pics (slaveIrq line) = true := by simp [requested]
    rw [if_pos isDue]
    refine find?_priority (masterIrq_ne_slaveIrq cascadeLine line).symm isDue
      fun other higher => ?_
    rcases higher_slaveIrq line other higher with ⟨other, less, rfl⟩ | ⟨other, less, rfl⟩
    · simp [lower other less]
    · simp [before other less, some]

/-- Every interrupt is one of the sixteen to the kernel. -/
theorem acknowledge (ready : Ready pics) (linked : pics.Linked) : ∃ irq,
    route pics.acknowledge.1 = some (.irq irq) ∧
      Acknowledged pics irq pics.acknowledge.2.1 pics.acknowledge.2.2 := by
  unfold Pics.acknowledge
  cases passed : pics.master.next with
  | none =>
      refine ⟨7, ?_, ready.acknowledged_noise linked passed⟩
      rw [ready.master_vector]
      exact route_irq 7
  | some line =>
      by_cases cascade : line = cascadeLine
      · subst cascade
        have answers : ¬ pics.slave.setup.icw3.setWidth 3 ≠ BitVec.ofNat 3 cascadeLine := by
          rw [ready.slave]
          decide
        simp only [ready.cascade, decide_true, Bool.not_true, Bool.false_eq_true, if_false,
          if_neg answers]
        cases own : pics.slave.next with
        | none =>
            refine ⟨15, ?_, ready.acknowledged_gone passed own⟩
            rw [ready.slave_vector]
            exact route_irq 15
        | some line =>
            refine ⟨slaveIrq line, ?_, ready.acknowledged_slave passed own⟩
            dsimp only
            rw [ready.slave_vector]
            exact route_irq (slaveIrq line)
      · simp only [ready.cascade, cascade, decide_false, Bool.not_false, if_true]
        refine ⟨masterIrq line, ?_, ready.acknowledged_master linked cascade passed⟩
        rw [ready.master_vector]
        exact route_irq (masterIrq line)

end Ready

end Yoctos.Interrupt
