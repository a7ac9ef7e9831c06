import Yoctos.Tasks.Reference

/-! # Module lookup (`boot/module_by_name.c`)

`module_cmdline` gives `NULL` for a module without a command line, and the scan
passes it to `strcmp`.
-/

namespace Yoctos.Boot

open Yoctos.Common Yoctos.Memory Yoctos.Tasks

/-- How a call of `mod_by_name` ends: its result, `none` for -1, and whether
`strcmp` has read through `NULL`. -/
structure Scan where
  index : Option Nat
  nullRead : Bool

/-- The loop of `mod_by_name` over the modules from index `i` on. There are
fewer than 2 ^ 31 of them, so `i` stays an `int`. -/
def scan (atNull : List UInt8) (name : CString) (i : Nat) : (modules : List Module) → Scan
  | [] => ⟨none, false⟩
  | module :: rest =>
      let line := (module.cmdline.map CString.bytes).getD atNull
      if strcmp name.bytes line = 0 then ⟨some i, module.cmdline.isNone⟩
      else
        let later := scan atNull name (i + 1) rest
        ⟨later.index, module.cmdline.isNone || later.nullRead⟩

variable {atNull : List UInt8} {name : CString}

theorem scan_index (i : Nat) (modules : List Module) :
    (scan atNull name i modules).index.bind (fun index => modules[index - i]?) =
      modByName atNull modules name := by
  have counts : ∀ (i : Nat) (modules : List Module) {index : Nat},
      (scan atNull name i modules).index = some index → i ≤ index := by
    intro i modules
    induction modules generalizing i with
    | nil => simp [scan]
    | cons head tail induction =>
        intro index found
        rw [scan] at found
        split at found
        next => cases found; exact Nat.le_refl i
        next => exact (Nat.le_succ i).trans (induction (i + 1) found)
  induction modules generalizing i with
  | nil => rfl
  | cons head tail induction =>
      rw [modByName, List.find?_cons]
      by_cases same : strcmp name.bytes ((head.cmdline.map CString.bytes).getD atNull) = 0
      · rw [scan, if_pos same, beq_iff_eq.mpr same]
        simp
      · rw [scan, if_neg same, beq_eq_false_iff_ne.mpr same]
        change Option.bind (scan atNull name (i + 1) tail).index _ = modByName atNull tail name
        rw [← induction (i + 1)]
        cases found : (scan atNull name (i + 1) tail).index with
        | none => rfl
        | some index =>
            have later := counts (i + 1) tail found
            have position : index - i = index - (i + 1) + 1 := by omega
            simp only [Option.bind_some, position, List.getElem?_cons_succ]

def isNamed (name : CString) (module : Module) : Bool := decide (module.cmdline = some name)

def scanned (name : CString) (modules : List Module) : List Module :=
  modules.takeWhile fun module => !isNamed name module

private theorem strcmp_cmdline (atNull : List UInt8) (name : CString) {module : Module}
    {line : CString} (cmdline : module.cmdline = some line) :
    strcmp name.bytes ((module.cmdline.map CString.bytes).getD atNull) = 0 ↔
      isNamed name module = true := by
  rw [isNamed, decide_eq_true_eq, cmdline]
  simp only [Option.map_some, Option.getD_some, Option.some.injEq]
  rw [CString.strcmp_eq_zero_iff]
  exact eq_comm

/-- `strcmp` reads through `NULL` exactly when a module without a command line
stands before the first that has the name. -/
theorem scan_nullRead (i : Nat) (modules : List Module) :
    (scan atNull name i modules).nullRead = false ↔
      ∀ module ∈ scanned name modules, module.cmdline ≠ none := by
  induction modules generalizing i with
  | nil => simp [scan, scanned]
  | cons head tail induction =>
      cases cmdline : head.cmdline with
      | none =>
          have unnamed : isNamed name head = false := by simp [isNamed, cmdline]
          have read : (scan atNull name i (head :: tail)).nullRead = true := by
            rw [scan]
            split <;> simp [cmdline]
          simp [read, scanned, unnamed, cmdline]
      | some line =>
          have compared := strcmp_cmdline atNull name cmdline
          rw [scan]
          cases named : isNamed name head with
          | true =>
              rw [if_pos (compared.mpr named)]
              simp [scanned, named, cmdline]
          | false =>
              have different := mt compared.mp (by simp [named])
              rw [if_neg different]
              simp only [cmdline, Option.isNone_some, Bool.false_or]
              rw [induction (i + 1)]
              simp [scanned, named, cmdline]

theorem modByName_eq_find? {modules : List Module}
    (clear : ∀ module ∈ scanned name modules, module.cmdline ≠ none) :
    modByName atNull modules name = modules.find? (isNamed name) := by
  induction modules with
  | nil => rfl
  | cons head tail induction =>
      rw [modByName, List.find?_cons, List.find?_cons]
      cases named : isNamed name head with
      | true =>
          have cmdline : head.cmdline = some name := of_decide_eq_true named
          rw [beq_iff_eq.mpr ((strcmp_cmdline atNull name cmdline).mpr named)]
      | false =>
          have clear : ∀ module ∈ head :: scanned name tail, module.cmdline ≠ none := by
            simpa [scanned, named] using clear
          cases cmdline : head.cmdline with
          | none => exact absurd cmdline (clear head (by simp))
          | some line =>
              have different := mt (strcmp_cmdline atNull name cmdline).mp (by simp [named])
              rw [← cmdline, beq_eq_false_iff_ne.mpr different]
              exact induction fun module member => clear module (List.mem_cons_of_mem _ member)

theorem scan_index_eq_findIdx? (i : Nat) {modules : List Module}
    (clear : ∀ module ∈ scanned name modules, module.cmdline ≠ none) :
    (scan atNull name i modules).index = (modules.findIdx? (isNamed name)).map (· + i) := by
  induction modules generalizing i with
  | nil => rfl
  | cons head tail induction =>
      rw [scan, List.findIdx?_cons]
      cases named : isNamed name head with
      | true =>
          have cmdline : head.cmdline = some name := of_decide_eq_true named
          rw [if_pos ((strcmp_cmdline atNull name cmdline).mpr named)]
          simp
      | false =>
          have clear : ∀ module ∈ head :: scanned name tail, module.cmdline ≠ none := by
            simpa [scanned, named] using clear
          cases cmdline : head.cmdline with
          | none => exact absurd cmdline (clear head (by simp))
          | some line =>
              have different := mt (strcmp_cmdline atNull name cmdline).mp (by simp [named])
              rw [← cmdline, if_neg different]
              have later := induction (i + 1) fun module member =>
                clear module (List.mem_cons_of_mem _ member)
              rw [later, if_neg (by simp), Option.map_map]
              congr 1
              funext index
              exact Nat.add_right_comm index i 1

/-! ## The two lookups -/

def modByNameScan (machine : Machine) (kernel : Kernel) (name : CString) : Scan :=
  scan (stringAtNull kernel) name 0 machine.modules

/-- Both lookups find the first module that has the name, without reading
through `NULL`, and report a failure exactly when there is none. -/
structure LookupCorrect (machine : Machine) (kernel : Kernel) (name : CString) : Prop where
  noNullRead : (modByNameScan machine kernel name).nullRead = false
  index : (modByNameScan machine kernel name).index = machine.modules.findIdx? (isNamed name)
  found : ∀ module, machine.modules.find? (isNamed name) = some module →
    moduleAddrByName machine kernel name = module.firstAddress ∧
      moduleSizeByName machine kernel name = module.size
  noAddr : moduleAddrByName machine kernel name = 0 ↔
    ∀ module ∈ machine.modules, module.cmdline ≠ some name
  noSize : moduleSizeByName machine kernel name = -1 ↔
    ∀ module ∈ machine.modules, module.cmdline ≠ some name

/-- No module without a command line stands before the first that has the name,
whose address is not `NULL` and whose size is not that of a failure. -/
structure Findable (modules : List Module) (name : CString) : Prop where
  clear : ∀ module ∈ scanned name modules, module.cmdline ≠ none
  placed : ∀ module, modules.find? (isNamed name) = some module →
    module.firstAddress ≠ 0 ∧ module.size ≠ -1

theorem find?_isNamed_eq_none {modules : List Module} :
    modules.find? (isNamed name) = none ↔ ∀ module ∈ modules, module.cmdline ≠ some name := by
  simp [List.find?_eq_none, isNamed]

theorem Findable.lookupCorrect {machine : Machine} (kernel : Kernel)
    (findable : Findable machine.modules name) : LookupCorrect machine kernel name := by
  have lookup : modByName (stringAtNull kernel) machine.modules name =
      machine.modules.find? (isNamed name) := modByName_eq_find? findable.clear
  have index : (scan (stringAtNull kernel) name 0 machine.modules).index =
      (machine.modules.findIdx? (isNamed name)).map (· + 0) :=
    scan_index_eq_findIdx? 0 findable.clear
  constructor
  · exact (scan_nullRead 0 machine.modules).mpr findable.clear
  · rw [modByNameScan, index]
    simp
  · intro module found
    simp [moduleAddrByName, moduleSizeByName, lookup, found]
  · rw [← find?_isNamed_eq_none, moduleAddrByName, lookup]
    cases found : machine.modules.find? (isNamed name) with
    | none => simp
    | some module => exact iff_of_false (findable.placed module found).1 (by simp)
  · rw [← find?_isNamed_eq_none, moduleSizeByName, lookup]
    cases found : machine.modules.find? (isNamed name) with
    | none => simp
    | some module => exact iff_of_false (findable.placed module found).2 (by simp)

/-- The lookups are correct exactly for the tables and names of `Findable`. -/
theorem lookupCorrect_iff (machine : Machine) (kernel : Kernel) (name : CString) :
    LookupCorrect machine kernel name ↔ Findable machine.modules name := by
  refine ⟨fun correct => ?_, Findable.lookupCorrect kernel⟩
  refine ⟨(scan_nullRead 0 machine.modules).mp correct.noNullRead, fun module found => ?_⟩
  have named : ¬ ∀ module ∈ machine.modules, module.cmdline ≠ some name := by
    rw [← find?_isNamed_eq_none, found]
    exact Option.some_ne_none module
  rcases correct.found module found with ⟨addr, size⟩
  rw [← addr, ← size]
  exact ⟨mt correct.noAddr.mp named, mt correct.noSize.mp named⟩

def unnamedMachine : Machine where
  toSetup := referenceSetup 16 0x501000 [⟨none, 0x500000, 1⟩, ⟨some shellName, 0x500000, 1⟩]
    fun _ => 0
  wellFormed := referenceSetup_wellFormed (by decide) (by decide) (by decide) (by decide)

theorem not_lookupCorrect : ¬ ∀ (machine : Machine) (kernel : Kernel) (name : CString),
    LookupCorrect machine kernel name := by
  intro always
  have correct := always unnamedMachine (tasksInit unnamedMachine) shellName
  have clear := (scan_nullRead 0 unnamedMachine.modules).mp correct.noNullRead
  exact clear ⟨none, 0x500000, 1⟩ (by simp [scanned, unnamedMachine, referenceSetup, isNamed]) rfl

end Yoctos.Boot
