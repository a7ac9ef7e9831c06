import Yoctos.Tasks.Arguments
import Mathlib.Algebra.Order.BigOperators.Group.List

/-! # What `task_load` puts into a new address space

The module, `argc`, and the strings one after the other, at `TASK_VIRT_ADDR`.
-/

namespace Yoctos.Tasks

open Yoctos.Common Yoctos.Memory Yoctos.Stores

/-! ## The image -/

def moduleImage (machine : Machine) (kernel : Kernel) (filename : CString) : List UInt8 :=
  (List.range (moduleSizeByName machine kernel filename).toNat).map fun index =>
    kernel.ram.bytes (moduleAddrByName machine kernel filename + BitVec.ofNat 32 index)

def stringsImage (argv : List CString) : List UInt8 := argv.flatMap fun s => s.bytes ++ [0]

private theorem stringsImage_cons (s : CString) (rest : List CString) :
    stringsImage (s :: rest) = (s.bytes ++ [0]) ++ stringsImage rest := List.flatMap_cons

/-- Everything a new task finds at `TASK_VIRT_ADDR`. -/
def loadImage (machine : Machine) (kernel : Kernel) (filename : CString) (args : Arguments) :
    List UInt8 :=
  moduleImage machine kernel filename ++ littleEndian args.argc ++ stringsImage args.argv

def decodeStrings (memory : Nat → UInt8) : (count address : Nat) → List (List UInt8)
  | 0, _ => []
  | count + 1, address =>
      let s := stringAt memory address addressSpace
      s :: decodeStrings memory count (address + s.length + 1)

def decodeArguments (memory : Nat → UInt8) (address : Nat) : BitVec 32 × List (List UInt8) :=
  let argc := ofLittleEndian (memory address) (memory (address + 1)) (memory (address + 2))
    (memory (address + 3))
  (argc, decodeStrings memory argc.toInt.toNat (address + 4))

def Holds (memory : Nat → UInt8) (base : Nat) (values : List UInt8) : Prop :=
  ∀ index, (occurs : index < values.length) → memory (base + index) = values[index]

theorem holds_append {memory : Nat → UInt8} {base : Nat} {left right : List UInt8} :
    Holds memory base (left ++ right) ↔
      Holds memory base left ∧ Holds memory (base + left.length) right := by
  constructor
  · intro holds
    constructor
    · intro index occurs
      have found := holds index (by rw [List.length_append]; omega)
      rwa [List.getElem_append_left occurs] at found
    · intro index occurs
      have found := holds (left.length + index) (by rw [List.length_append]; omega)
      rw [List.getElem_append_right (Nat.le_add_right _ _), ← Nat.add_assoc] at found
      simpa only [Nat.add_sub_cancel_left] using found
  · rintro ⟨first, second⟩ index occurs
    by_cases before : index < left.length
    · rw [List.getElem_append_left before]
      exact first index before
    · have found := second (index - left.length) (by rw [List.length_append] at occurs; omega)
      rw [List.getElem_append_right (Nat.le_of_not_lt before), ← found]
      congr 1
      omega

private theorem strlen_lt_addressSpace {s : CString} (short : strlen s ≤ maxArgsLength - 2) :
    s.bytes.length < addressSpace := by
  simp only [strlen, maxArgsLength] at short
  simp only [addressSpace]
  omega

private theorem decodeStrings_of_holds {memory : Nat → UInt8} {argv : List CString} {address : Nat}
    (short : ∀ s ∈ argv, strlen s ≤ maxArgsLength - 2)
    (holds : Holds memory address (stringsImage argv)) :
    decodeStrings memory argv.length address = argv.map CString.bytes := by
  induction argv generalizing address with
  | nil => rfl
  | cons s rest induction =>
      rw [stringsImage_cons] at holds
      rcases holds_append.mp holds with ⟨now, later⟩
      rcases holds_append.mp now with ⟨characters, terminator⟩
      have first : stringAt memory address addressSpace = s.bytes :=
        stringAt_of_stored s.nonzero (strlen_lt_addressSpace (short s (List.mem_cons_self ..)))
          characters (terminator 0 (by decide))
      rw [List.length_append, List.length_singleton, ← Nat.add_assoc] at later
      rw [List.length_cons, decodeStrings, first, List.map_cons]
      congr 1
      exact induction (fun s member => short s (List.mem_cons_of_mem _ member)) later

theorem decodeArguments_of_holds {memory : Nat → UInt8} {args : Arguments} {address : Nat}
    (short : ∀ s ∈ args.argv, strlen s ≤ maxArgsLength - 2)
    (holds : Holds memory address (littleEndian args.argc ++ stringsImage args.argv)) :
    decodeArguments memory address = (args.argc, args.argv.map CString.bytes) := by
  rcases holds_append.mp holds with ⟨argc, strings⟩
  have decoded : ofLittleEndian (memory address) (memory (address + 1)) (memory (address + 2))
      (memory (address + 3)) = args.argc := by
    have byte0 := argc 0 (by simp [littleEndian])
    have byte1 := argc 1 (by simp [littleEndian])
    have byte2 := argc 2 (by simp [littleEndian])
    have byte3 := argc 3 (by simp [littleEndian])
    rw [Nat.add_zero] at byte0
    rw [byte0, byte1, byte2, byte3]
    exact ofLittleEndian_littleEndian args.argc
  rw [decodeArguments, decoded, ← args.counted]
  exact congrArg _ (decodeStrings_of_holds short strings)

/-! ## Sizes -/

private theorem stringsImage_length (argv : List CString) :
    (stringsImage argv).length = (argv.map fun s => strlen s + 1).sum := by
  rw [stringsImage, List.length_flatMap]
  simp [strlen]

/-- `args_size` is the size of the arguments, modulo 2 ^ 32. -/
theorem argsSize_eq (args : Arguments) :
    argsSize args = BitVec.ofNat 32 (4 + (stringsImage args.argv).length) := by
  have sum : ∀ (argv : List CString) (start : Nat),
      argv.foldl (fun size s => size + (BitVec.ofNat 32 (strlen s) + 1)) (BitVec.ofNat 32 start) =
        BitVec.ofNat 32 (start + (stringsImage argv).length) := by
    intro argv
    induction argv with
    | nil => intro start; simp [stringsImage]
    | cons s rest induction =>
        intro start
        have next : BitVec.ofNat 32 start + (BitVec.ofNat 32 (strlen s) + 1) =
            BitVec.ofNat 32 (start + (strlen s + 1)) := by
          rw [BitVec.ofNat_add, BitVec.ofNat_add]
          rfl
        rw [List.foldl_cons, next, induction, stringsImage_length, stringsImage_length,
          List.map_cons, List.sum_cons, Nat.add_assoc]
  exact sum args.argv 4

theorem loadImage_length (machine : Machine) (kernel : Kernel) (filename : CString)
    (args : Arguments) : (loadImage machine kernel filename args).length =
      (moduleSizeByName machine kernel filename).toNat +
        (4 + (stringsImage args.argv).length) := by
  simp only [loadImage, moduleImage, littleEndian, List.length_append, List.length_map,
    List.length_range, List.length_cons, List.length_nil]
  omega

theorem argsSize_toNat {args : Arguments} (fit : args.Fit) :
    (argsSize args).toNat = 4 + (stringsImage args.argv).length ∧
      (stringsImage args.argv).length ≤ 245 := by
  rcases args.fit_iff.mp fit with ⟨count, lengths⟩
  have counted := args.counted
  have bound : (stringsImage args.argv).length ≤ args.argv.length * 49 := by
    rw [stringsImage_length]
    have each : ∀ length ∈ args.argv.map fun s => strlen s + 1, length ≤ 49 := by
      intro length member
      rcases List.mem_map.mp member with ⟨s, inArgv, rfl⟩
      exact Nat.succ_le_succ (lengths s inArgv)
    have sum := List.sum_le_card_nsmul _ 49 each
    rwa [List.length_map] at sum
  simp only [maxArgs] at count
  rw [argsSize_eq, BitVec.toNat_ofNat]
  omega

/-! ## The copies -/

def Copy.store (bytes : BitVec 32 → UInt8) (copy : Copy) : BitVec 32 × UInt8 :=
  match copy.src with
  | .memory address => (copy.dst, bytes address)
  | .stack value => (copy.dst, value)

@[simp] theorem Copy.store_fst (bytes : BitVec 32 → UInt8) (copy : Copy) :
    (copy.store bytes).1 = copy.dst := by
  rw [Copy.store]
  split <;> rfl

private theorem memcpyStack_stores (bytes : BitVec 32 → UInt8) (dst : BitVec 32)
    (values : List UInt8) :
    (memcpyStack dst values).map (Copy.store bytes) = memcpy dst values := by
  rw [memcpyStack, List.map_map]
  exact List.map_id _

private theorem memcpyMemory_stores (bytes : BitVec 32 → UInt8) (dst src : BitVec 32)
    (count : Nat) :
    (memcpyMemory dst src count).map (Copy.store bytes) =
      memcpy dst ((List.range count).map fun index => bytes (src + BitVec.ofNat 32 index)) := by
  induction count with
  | zero => rfl
  | succ count induction =>
      rw [memcpyMemory, List.range_succ, List.map_append, List.map_append, List.map_append,
        memcpy_append, List.length_map, List.length_range, ← induction]
      rfl

/-- The last loop copies the rows without the gaps between them. -/
theorem memcpyArgs_stores {tmpArgv : Nat → UInt8} {first : Nat} {argv : List CString}
    (short : ∀ s ∈ argv, strlen s ≤ maxArgsLength - 2)
    (rows : ∀ i s, argv[i]? = some s →
      Holds tmpArgv ((first + i) * maxArgsLength) (s.bytes ++ [0]))
    (bytes : BitVec 32 → UInt8) (dst offset : BitVec 32) :
    (memcpyArgs tmpArgv dst first argv.length offset).map (Copy.store bytes) =
      memcpy (dst + offset) (stringsImage argv) := by
  induction argv generalizing first offset with
  | nil => rfl
  | cons s rest induction =>
      have row : Holds tmpArgv (first * maxArgsLength) (s.bytes ++ [0]) := rows 0 s rfl
      rcases holds_append.mp row with ⟨characters, terminator⟩
      have length : strlenAt tmpArgv (first * maxArgsLength) = s.bytes.length :=
        congrArg List.length (stringAt_of_stored s.nonzero
          (strlen_lt_addressSpace (short s (List.mem_cons_self ..))) characters
          (terminator 0 (by decide)))
      have whole : ((List.range (s.bytes.length + 1)).map fun index =>
          tmpArgv (first * maxArgsLength + index)) = s.bytes ++ [0] := by
        apply List.ext_getElem (by simp)
        intro index _ occurs
        rw [List.getElem_map, List.getElem_range]
        exact row index occurs
      have later := induction (fun other member => short other (List.mem_cons_of_mem _ member))
        (fun i other occurs => by
          have shifted := rows (i + 1) other occurs
          rwa [← Nat.add_assoc, Nat.add_right_comm] at shifted)
        (offset + BitVec.ofNat 32 (s.bytes.length + 1))
      rw [List.length_cons, memcpyArgs, length, whole, List.map_append, memcpyStack_stores, later,
        stringsImage_cons, memcpy_append _ (s.bytes ++ [0]), List.length_append,
        List.length_singleton, BitVec.add_assoc]

theorem copies_stores (machine : Machine) (kernel : Kernel) (filename : CString)
    {args : Arguments} (short : ∀ s ∈ args.argv, strlen s ≤ maxArgsLength - 2) :
    (copies (writeAll machine.stack (tmpArgvStores 0 args.argv))
        (moduleAddrByName machine kernel filename) (moduleSizeByName machine kernel filename)
        args).map (Copy.store kernel.ram.bytes) =
      memcpy taskVirtAddr (loadImage machine kernel filename args) := by
  have moduleLength : (moduleImage machine kernel filename).length =
      (moduleSizeByName machine kernel filename).toNat := by simp [moduleImage]
  have rows : ∀ i s, args.argv[i]? = some s →
      Holds (writeAll machine.stack (tmpArgvStores 0 args.argv)) ((0 + i) * maxArgsLength)
        (s.bytes ++ [0]) :=
    fun i s occurs index inside => tmpArgv_get short occurs inside
  have strings := memcpyArgs_stores short rows kernel.ram.bytes
    (taskVirtAddr + moduleSizeByName machine kernel filename + 4) 0
  rw [add_zero] at strings
  rw [copies, List.map_append, List.map_append, memcpyMemory_stores, memcpyStack_stores, strings,
    loadImage, memcpy_append, memcpy_append, List.length_append, moduleLength, BitVec.ofNat_add,
    BitVec.ofNat_toNat, BitVec.setWidth_eq, ← BitVec.add_assoc]
  rfl

theorem copies_dst {machine : Machine} {kernel : Kernel} {filename : CString} {args : Arguments}
    (short : ∀ s ∈ args.argv, strlen s ≤ maxArgsLength - 2) {copy : Copy}
    (member : copy ∈ copies (writeAll machine.stack (tmpArgvStores 0 args.argv))
      (moduleAddrByName machine kernel filename) (moduleSizeByName machine kernel filename) args) :
    ∃ index < (loadImage machine kernel filename args).length,
      copy.dst = taskVirtAddr + BitVec.ofNat 32 index := by
  have stored : copy.store kernel.ram.bytes ∈ _ := List.mem_map_of_mem member
  rw [copies_stores machine kernel filename short] at stored
  have position : (copy.store kernel.ram.bytes).1 ∈ _ := List.mem_map_of_mem stored
  rw [memcpy_fst, Copy.store_fst] at position
  rcases List.mem_map.mp position with ⟨index, below, equal⟩
  exact ⟨index, List.mem_range.mp below, equal.symm⟩

private theorem not_memory_of_mem_memcpyArgs {tmpArgv : Nat → UInt8} {dst offset : BitVec 32}
    {first count : Nat} {copy : Copy} (member : copy ∈ memcpyArgs tmpArgv dst first count offset)
    (address : BitVec 32) : copy.src ≠ .memory address := by
  induction count generalizing first offset with
  | zero => cases member
  | succ count induction =>
      rcases List.mem_append.mp member with now | later
      · rcases List.mem_map.mp now with ⟨store, _, rfl⟩
        exact Source.noConfusion
      · exact induction later

theorem copies_memory {tmpArgv : Nat → UInt8} {moduleAddr modSize : BitVec 32} {args : Arguments}
    {copy : Copy} (member : copy ∈ copies tmpArgv moduleAddr modSize args) {address : BitVec 32}
    (source : copy.src = .memory address) :
    ∃ index < modSize.toNat, address = moduleAddr + BitVec.ofNat 32 index := by
  rw [copies, List.mem_append, List.mem_append] at member
  rcases member with (module | argc) | strings
  · rcases List.mem_map.mp module with ⟨index, below, rfl⟩
    cases source
    exact ⟨index, List.mem_range.mp below, rfl⟩
  · rcases List.mem_map.mp argc with ⟨store, _, rfl⟩
    cases source
  · exact absurd source (not_memory_of_mem_memcpyArgs strings address)

end Yoctos.Tasks
