import Mathlib.Order.Fin.Clamp
import Mathlib.Logic.Function.Basic

/-! # The interrupt controllers of a PC

Two 8259 chips. The slave's output is the master's line 2. Lines are edge
triggered, and of the operation words the plain end of interrupt is here.
-/

namespace Yoctos.Ia32

inductive Awaited
  | offset | cascade | mode | mask
  deriving DecidableEq

structure PicSetup where
  awaited : Awaited
  icw1 : BitVec 8
  icw2 : BitVec 8
  icw3 : BitVec 8
  icw4 : BitVec 8
  mask : BitVec 8
  deriving DecidableEq

structure Pic where
  setup : PicSetup
  requests : Fin 8 → Bool
  inService : Fin 8 → Bool

namespace PicSetup

/-- The first word starts an initialization and clears the mask. -/
def start (setup : PicSetup) (value : BitVec 8) : PicSetup :=
  { setup with
    awaited := .offset
    icw1 := value
    icw4 := if value.getLsbD 0 then setup.icw4 else 0
    mask := 0 }

def afterCascade (setup : PicSetup) : Awaited := if setup.icw1.getLsbD 0 then .mode else .mask

def data (setup : PicSetup) (value : BitVec 8) : PicSetup :=
  match setup.awaited with
  | .offset =>
      { setup with
        icw2 := value
        awaited := if setup.icw1.getLsbD 1 then setup.afterCascade else .cascade }
  | .cascade => { setup with icw3 := value, awaited := setup.afterCascade }
  | .mode => { setup with icw4 := value, awaited := .mask }
  | .mask => { setup with mask := value }

end PicSetup

namespace Pic

/-- The end of the interrupt of highest priority in service. -/
def endOfInterrupt (pic : Pic) : Pic :=
  match Fin.find? pic.inService with
  | none => pic
  | some line => { pic with inService := Function.update pic.inService line false }

def command (pic : Pic) (value : BitVec 8) : Pic :=
  if value.getLsbD 4 then
    { pic with setup := pic.setup.start value, requests := fun _ => false }
  else if value = 0x20 then pic.endOfInterrupt
  else pic

def data (pic : Pic) (value : BitVec 8) : Pic := { pic with setup := pic.setup.data value }

/-- The request the chip passes on: no line of its priority or a higher one is
in service. -/
def next (pic : Pic) : Option (Fin 8) :=
  (Fin.find? fun line => pic.requests line && !pic.setup.mask.getLsbD line).filter
    fun line => ∀ other ≤ line, pic.inService other = false

/-- A line goes into service, unless interrupts end by themselves. -/
def accept (pic : Pic) (line : Fin 8) : Pic :=
  { pic with
    requests := Function.update pic.requests line false
    inService :=
      if pic.setup.icw4.getLsbD 1 then pic.inService
      else Function.update pic.inService line true }

@[simp] theorem accept_requests (pic : Pic) (line : Fin 8) :
    (pic.accept line).requests = Function.update pic.requests line false := rfl

def vector (pic : Pic) (line : Fin 8) : BitVec 8 :=
  (pic.setup.icw2 &&& 0xf8) ||| BitVec.ofNat 8 line

def setRequest (pic : Pic) (line : Fin 8) (requested : Bool) : Pic :=
  { pic with requests := Function.update pic.requests line requested }

end Pic

structure Pics where
  master : Pic
  slave : Pic

def masterIrq (line : Fin 8) : Fin 16 := ⟨line, by omega⟩
def slaveIrq (line : Fin 8) : Fin 16 := ⟨8 + line, by omega⟩

def chipLine (irq : Fin 16) : Fin 8 := ⟨irq % 8, Nat.mod_lt _ (by decide)⟩

def cascadeLine : Fin 8 := ⟨2, by decide⟩

def cascadeIrq : Fin 16 := masterIrq cascadeLine

/-- The line that a chip answers for when it has nothing to pass on any more. -/
def spuriousLine : Fin 8 := ⟨7, by decide⟩

namespace Pics

/-- The master sees a request when the slave's output rises. -/
def latch (before after : Pics) : Pics :=
  if before.slave.next.isNone && after.slave.next.isSome then
    { after with master := after.master.setRequest cascadeLine true }
  else after

def write (pics : Pics) (port : BitVec 16) (value : BitVec 8) : Pics :=
  if port = 0x20 then { pics with master := pics.master.command value }
  else if port = 0x21 then { pics with master := pics.master.data value }
  else if port = 0xa0 then { pics with slave := pics.slave.command value }
  else if port = 0xa1 then { pics with slave := pics.slave.data value }
  else pics

def outb (pics : Pics) (port : BitVec 16) (value : BitVec 8) : Pics :=
  pics.latch (pics.write port value)

def requests (pics : Pics) (irq : Fin 16) : Bool :=
  if irq.val < 8 then pics.master.requests (chipLine irq) else pics.slave.requests (chipLine irq)

/-- A device's line rises, or falls before its request was accepted. -/
def setLine (pics : Pics) (irq : Fin 16) (requested : Bool) : Pics :=
  pics.latch <|
    if irq.val < 8 then { pics with master := pics.master.setRequest (chipLine irq) requested }
    else { pics with slave := pics.slave.setRequest (chipLine irq) requested }

/-- What the CPU gets that acknowledges an interrupt: a vector, and the IRQ that
went into service, if any. For a slave that is not there nobody answers. -/
def acknowledge (pics : Pics) : BitVec 8 × Option (Fin 16) × Pics :=
  match pics.master.next with
  | none => (pics.master.vector spuriousLine, none, pics)
  | some line =>
      let master := pics.master.accept line
      if !pics.master.setup.icw3.getLsbD line then
        (pics.master.vector line, some (masterIrq line), { pics with master := master })
      else if pics.slave.setup.icw3.setWidth 3 ≠ BitVec.ofNat 3 line then
        (0xff, none, { pics with master := master })
      else match pics.slave.next with
        | none => (pics.slave.vector spuriousLine, none, { pics with master := master })
        | some own =>
            (pics.slave.vector own, some (slaveIrq own), ⟨master, pics.slave.accept own⟩)

def Linked (pics : Pics) : Prop :=
  pics.slave.next.isSome = true → pics.master.requests cascadeLine = true

end Pics

/-! ## Lines -/

theorem irq_cases (irq : Fin 16) : (∃ line, irq = masterIrq line) ∨ ∃ line, irq = slaveIrq line := by
  rcases Nat.lt_or_ge irq 8 with low | high
  · exact .inl ⟨⟨irq, low⟩, rfl⟩
  · exact .inr ⟨⟨irq - 8, by omega⟩, Fin.ext (Nat.add_sub_cancel' high).symm⟩

@[simp] theorem masterIrq_val (line : Fin 8) : (masterIrq line).val = line := rfl
@[simp] theorem slaveIrq_val (line : Fin 8) : (slaveIrq line).val = 8 + line := rfl

@[simp] theorem masterIrq_inj {line other : Fin 8} :
    masterIrq line = masterIrq other ↔ line = other := by
  simp [masterIrq, Fin.ext_iff]

@[simp] theorem slaveIrq_inj {line other : Fin 8} :
    slaveIrq line = slaveIrq other ↔ line = other := by
  simp [slaveIrq, Fin.ext_iff]

@[simp] theorem masterIrq_ne_slaveIrq (line other : Fin 8) : masterIrq line ≠ slaveIrq other := by
  simp only [masterIrq, slaveIrq, ne_eq, Fin.ext_iff]
  omega

@[simp] theorem chipLine_masterIrq (line : Fin 8) : chipLine (masterIrq line) = line :=
  Fin.ext (Nat.mod_eq_of_lt line.isLt)

@[simp] theorem chipLine_slaveIrq (line : Fin 8) : chipLine (slaveIrq line) = line := by
  simp only [chipLine, slaveIrq, Fin.ext_iff]
  omega

namespace Pics

@[simp] theorem requests_masterIrq (pics : Pics) (line : Fin 8) :
    pics.requests (masterIrq line) = pics.master.requests line := by
  rw [requests, if_pos (show (masterIrq line).val < 8 from line.isLt), chipLine_masterIrq]

@[simp] theorem requests_slaveIrq (pics : Pics) (line : Fin 8) :
    pics.requests (slaveIrq line) = pics.slave.requests line := by
  rw [requests, if_neg (show ¬ (slaveIrq line).val < 8 from by simp [slaveIrq]), chipLine_slaveIrq]

theorem setLine_masterIrq (pics : Pics) (line : Fin 8) (requested : Bool) :
    pics.setLine (masterIrq line) requested =
      pics.latch { pics with master := pics.master.setRequest line requested } := by
  rw [setLine, if_pos (show (masterIrq line).val < 8 from line.isLt), chipLine_masterIrq]

theorem setLine_slaveIrq (pics : Pics) (line : Fin 8) (requested : Bool) :
    pics.setLine (slaveIrq line) requested =
      pics.latch { pics with slave := pics.slave.setRequest line requested } := by
  rw [setLine, if_neg (show ¬ (slaveIrq line).val < 8 from by simp [slaveIrq]), chipLine_slaveIrq]

end Pics

/-! ## Without requests

What the CPU writes changes setups and lines in service whatever is requested.
-/

def Pic.silent (pic : Pic) : Pic := { pic with requests := fun _ => false }

def Pics.silent (pics : Pics) : Pics := ⟨pics.master.silent, pics.slave.silent⟩

namespace Pic

theorem next_eq_some_iff {pic : Pic} {line : Fin 8} :
    pic.next = some line ↔
      (pic.requests line = true ∧ pic.setup.mask.getLsbD line = false) ∧
      (∀ other < line, pic.requests other = true → pic.setup.mask.getLsbD other = true) ∧
      ∀ other ≤ line, pic.inService other = false := by
  unfold next
  rw [Option.filter_eq_some_iff, Fin.find?_eq_some_iff, Bool.and_eq_true, Bool.not_eq_true',
    decide_eq_true_iff, and_assoc]
  simp only [Bool.and_eq_false_imp, Bool.not_eq_false']

theorem next_of_nothing {pic : Pic} (nothing : ∀ line, pic.requests line = false) :
    pic.next = none := by
  apply Option.eq_none_iff_forall_ne_some.mpr
  intro line passed
  cases (nothing line).symm.trans (next_eq_some_iff.mp passed).1.1

theorem next_of_idle {pic : Pic} (unmasked : pic.setup.mask = 0)
    (idle : pic.inService = fun _ => false) : pic.next = Fin.find? pic.requests := by
  have all : (fun line : Fin 8 => pic.requests line && !pic.setup.mask.getLsbD line) =
      pic.requests := by
    funext line
    simp [unmasked]
  rw [next, all]
  cases Fin.find? pic.requests with
  | none => rfl
  | some line => simp [idle]

theorem accept_inService {pic : Pic} (normal : pic.setup.icw4.getLsbD 1 = false) (line : Fin 8) :
    (pic.accept line).inService = Function.update pic.inService line true := by
  rw [accept, normal]
  rfl

/-- Once a line is in service, none of the requests there were is passed on. -/
theorem next_accept {pic : Pic} {line : Fin 8} (passed : pic.next = some line)
    (normal : pic.setup.icw4.getLsbD 1 = false) : (pic.accept line).next = none := by
  apply Option.eq_none_iff_forall_ne_some.mpr
  intro other again
  rcases next_eq_some_iff.mp passed with ⟨_, before, _⟩
  rcases next_eq_some_iff.mp again with ⟨⟨requested, unmasked⟩, _, free⟩
  rcases lt_or_ge other line with less | atLeast
  · have still : pic.requests other = true := by
      have other_ne : other ≠ line := less.ne
      simpa [accept, other_ne] using requested
    have masked := before other less still
    rw [show pic.setup.mask.getLsbD other = false from unmasked] at masked
    cases masked
  · have inService := free line atLeast
    rw [accept_inService normal, Function.update_self] at inService
    cases inService

theorem endOfInterrupt_idle {pic : Pic} (idle : pic.inService = fun _ => false) :
    pic.endOfInterrupt = pic := by
  have none : Fin.find? pic.inService = none := by
    rw [idle]
    exact Fin.find?_eq_none_iff.mpr fun _ => rfl
  rw [endOfInterrupt, none]

theorem endOfInterrupt_accept {pic : Pic} (normal : pic.setup.icw4.getLsbD 1 = false)
    (idle : pic.inService = fun _ => false) (line : Fin 8) :
    (pic.accept line).endOfInterrupt = pic.setRequest line false := by
  have inService := accept_inService normal line
  have only : Fin.find? (pic.accept line).inService = some line := by
    rw [inService, idle, Fin.find?_eq_some_iff, Function.update_self]
    refine ⟨rfl, fun other before => ?_⟩
    rw [Function.update_of_ne before.ne]
  have cleared : Function.update (pic.accept line).inService line false = pic.inService := by
    rw [inService, Function.update_idem, Function.update_eq_self_iff, idle]
  rw [endOfInterrupt, only]
  simp only [cleared]
  rfl

theorem endOfInterrupt_requests (pic : Pic) : pic.endOfInterrupt.requests = pic.requests := by
  unfold endOfInterrupt
  split <;> rfl

theorem command_requests {pic : Pic} {value : BitVec 8} (noStart : value.getLsbD 4 = false) :
    (pic.command value).requests = pic.requests := by
  unfold command
  rw [noStart]
  simp only [Bool.false_eq_true, if_false]
  split
  · exact pic.endOfInterrupt_requests
  · rfl

theorem endOfInterrupt_silent (pic : Pic) :
    pic.endOfInterrupt.silent = pic.silent.endOfInterrupt := by
  unfold endOfInterrupt
  cases found : Fin.find? pic.inService with
  | none => simp [silent, found]
  | some line => simp [silent, found]

theorem command_silent (pic : Pic) (value : BitVec 8) :
    (pic.command value).silent = pic.silent.command value := by
  unfold command
  split
  · rfl
  · split
    · exact pic.endOfInterrupt_silent
    · rfl

end Pic

namespace Pics

theorem latch_silent (before after : Pics) : (before.latch after).silent = after.silent := by
  unfold latch
  split <;> rfl

theorem write_silent (pics : Pics) (port : BitVec 16) (value : BitVec 8) :
    (pics.write port value).silent = pics.silent.write port value := by
  unfold write
  split
  · rw [silent, Pic.command_silent]
    rfl
  · split
    · rfl
    · split
      · rw [silent, Pic.command_silent]
        rfl
      · split <;> rfl

theorem write_requests (pics : Pics) (port : BitVec 16) {value : BitVec 8}
    (noStart : value.getLsbD 4 = false) :
    (pics.write port value).master.requests = pics.master.requests ∧
      (pics.write port value).slave.requests = pics.slave.requests := by
  unfold write
  split
  · exact ⟨Pic.command_requests noStart, rfl⟩
  · split
    · exact ⟨rfl, rfl⟩
    · split
      · exact ⟨rfl, Pic.command_requests noStart⟩
      · split <;> exact ⟨rfl, rfl⟩

theorem outb_silent (pics : Pics) (port : BitVec 16) (value : BitVec 8) :
    (pics.outb port value).silent = pics.silent.write port value := by
  rw [outb, latch_silent, write_silent]

theorem silent_outb (pics : Pics) (port : BitVec 16) (value : BitVec 8) :
    pics.silent.outb port value = (pics.outb port value).silent := by
  have down : (pics.silent.write port value).slave.next = none := by
    rw [← write_silent]
    exact Pic.next_of_nothing fun _ => rfl
  rw [outb_silent, outb, latch, down, Option.isSome_none, Bool.and_false]
  rfl

theorem setLine_silent (pics : Pics) (irq : Fin 16) (requested : Bool) :
    (pics.setLine irq requested).silent = pics.silent := by
  rw [setLine, latch_silent]
  split <;> rfl

/-- The slave's output may rise, but not unseen. -/
theorem Linked.latch {before after : Pics} (linked : before.Linked)
    (kept : before.master.requests cascadeLine = true →
      after.master.requests cascadeLine = true) :
    (before.latch after).Linked := by
  unfold Pics.latch
  split
  next =>
      intro _
      exact Function.update_self cascadeLine true after.master.requests
  next notRisen =>
      intro passed
      apply kept
      apply linked
      cases before : before.slave.next with
      | none => simp [before, passed] at notRisen
      | some line => rfl

theorem latch_slave (before after : Pics) : (before.latch after).slave = after.slave := by
  unfold Pics.latch
  split <;> rfl

/-- To initialize the slave withdraws what it has requested of the master. -/
theorem linked_of_start (pics : Pics) {value : BitVec 8} (start : value.getLsbD 4 = true) :
    (pics.outb 0xa0 value).Linked := by
  intro passed
  have written : (pics.outb 0xa0 value).slave = pics.slave.command value := latch_slave _ _
  have nothing : (pics.slave.command value).next = none := by
    apply Pic.next_of_nothing
    intro line
    rw [Pic.command, if_pos start]
  rw [written, nothing] at passed
  cases passed

/-- Only to initialize the master loses the slave's request. -/
theorem Linked.outb {pics : Pics} (linked : pics.Linked) {port : BitVec 16} {value : BitVec 8}
    (harmless : port = 0x20 → value.getLsbD 4 = false) : (pics.outb port value).Linked := by
  apply linked.latch
  unfold Pics.write
  split
  next master =>
      rw [Pic.command_requests (harmless master)]
      exact id
  next =>
      split
      · exact id
      · split
        · exact id
        · split <;> exact id

theorem Linked.setLine {pics : Pics} (linked : pics.Linked) {irq : Fin 16} {requested : Bool}
    (allowed : irq = cascadeIrq → pics.slave.next = none) : (pics.setLine irq requested).Linked := by
  rcases irq_cases irq with ⟨line, rfl⟩ | ⟨line, rfl⟩
  · rw [setLine_masterIrq]
    by_cases cascade : line = cascadeLine
    · intro passed
      rw [latch_slave] at passed
      rw [show pics.slave.next = none from allowed (masterIrq_inj.mpr cascade)] at passed
      cases passed
    · apply linked.latch
      intro latched
      rwa [← Function.update_of_ne (Ne.symm cascade) requested pics.master.requests] at latched
  · rw [setLine_slaveIrq]
    exact linked.latch id

theorem latch_requests (before after : Pics) {irq : Fin 16} (device : irq ≠ cascadeIrq) :
    (before.latch after).requests irq = after.requests irq := by
  unfold latch
  split
  next =>
      rcases irq_cases irq with ⟨line, rfl⟩ | ⟨line, rfl⟩
      · have different : line ≠ cascadeLine := fun same => device (masterIrq_inj.mpr same)
        simp [Pic.setRequest, different]
      · simp
  next => rfl

theorem setLine_requests (pics : Pics) (irq : Fin 16) (requested : Bool) {other : Fin 16}
    (device : other ≠ cascadeIrq) :
    (pics.setLine irq requested).requests other =
      if other = irq then requested else pics.requests other := by
  rcases irq_cases irq with ⟨line, rfl⟩ | ⟨line, rfl⟩
  · rw [setLine_masterIrq, latch_requests _ _ device]
    rcases irq_cases other with ⟨other, rfl⟩ | ⟨other, rfl⟩
    · simp [Pic.setRequest, Function.update_apply]
    · simp [(masterIrq_ne_slaveIrq line other).symm]
  · rw [setLine_slaveIrq, latch_requests _ _ device]
    rcases irq_cases other with ⟨other, rfl⟩ | ⟨other, rfl⟩
    · simp
    · simp [Pic.setRequest, Function.update_apply]

theorem outb_requests (pics : Pics) (port : BitVec 16) {value : BitVec 8}
    (noStart : value.getLsbD 4 = false) {irq : Fin 16} (device : irq ≠ cascadeIrq) :
    (pics.outb port value).requests irq = pics.requests irq := by
  have written := pics.write_requests port noStart
  rw [outb, latch_requests _ _ device, requests, written.1, written.2]
  rfl

end Pics

end Yoctos.Ia32
