import Yoctos.Tasks.Reference

/-! # The argument buffer of `task_load`

`tmp_argv` has `MAX_ARGS` rows of `MAX_ARGS_LENGTH` bytes. Neither the number of
arguments nor their lengths are checked against it.
-/

namespace Yoctos.Tasks

open Yoctos.Common Yoctos.Memory Yoctos.Stores

/-! ## Where the stores go -/

/-- The string, the terminator of `strncpy` and the explicit one after it. -/
theorem rowStores_eq (i : Nat) (s : CString) :
    rowStores i s = consecutive (i * maxArgsLength) (s.bytes ++ [0, 0]) := by
  have copied : strncpy (i * maxArgsLength) s.bytes (strlen s + 1) =
      consecutive (i * maxArgsLength) (s.bytes ++ [0]) := strncpy_of_length_le (Nat.le_succ _)
  have split : s.bytes ++ [0, 0] = (s.bytes ++ [0]) ++ [(0 : UInt8)] := by simp
  rw [rowStores, copied, split, consecutive_append _ (s.bytes ++ [0]), List.length_append]
  rfl

private theorem rowStores_bounds {i : Nat} {s : CString} {store : Nat × UInt8}
    (member : store ∈ rowStores i s) :
    i * maxArgsLength ≤ store.1 ∧ store.1 ≤ i * maxArgsLength + strlen s + 1 := by
  rw [rowStores_eq] at member
  have bounds := mem_consecutive_bounds member
  rw [List.length_append, List.length_cons, List.length_singleton] at bounds
  simp only [strlen]
  omega

theorem terminator_mem_rowStores (i : Nat) (s : CString) :
    (i * maxArgsLength + (strlen s + 1), 0) ∈ rowStores i s :=
  List.mem_append_right _ (List.mem_singleton_self _)

private theorem mem_tmpArgvStores {first : Nat} {argv : List CString} {store : Nat × UInt8} :
    store ∈ tmpArgvStores first argv ↔
      ∃ i s, argv[i]? = some s ∧ store ∈ rowStores (first + i) s := by
  induction argv generalizing first with
  | nil => simp [tmpArgvStores]
  | cons head tail induction =>
      rw [tmpArgvStores, List.mem_append, induction]
      constructor
      · rintro (now | ⟨i, s, occurs, later⟩)
        · exact ⟨0, head, rfl, now⟩
        · refine ⟨i + 1, s, occurs, ?_⟩
          rwa [Nat.add_right_comm] at later
      · rintro ⟨i, s, occurs, stored⟩
        cases i with
        | zero =>
            cases occurs
            exact .inl stored
        | succ i =>
            refine .inr ⟨i, s, occurs, ?_⟩
            rwa [Nat.add_right_comm]

/-! ## Arguments that fit -/

/-- The argument has a row, and the row has room for both terminators. -/
def Fits (i : Nat) (s : CString) : Prop := i < maxArgs ∧ strlen s ≤ maxArgsLength - 2

def Arguments.Fit (args : Arguments) : Prop := ∀ i s, args.argv[i]? = some s → Fits i s

theorem Arguments.fit_iff (args : Arguments) :
    args.Fit ↔ args.argc.toInt ≤ maxArgs ∧ ∀ s ∈ args.argv, strlen s ≤ maxArgsLength - 2 := by
  have counted := args.counted
  constructor
  · intro fit
    refine ⟨?_, fun s member => ?_⟩
    · by_contra tooMany
      have row : maxArgs < args.argv.length := by omega
      have fits := fit maxArgs _ (List.getElem?_eq_getElem row)
      exact absurd fits.1 (lt_irrefl _)
    · rcases List.getElem?_of_mem member with ⟨i, occurs⟩
      exact (fit i s occurs).2
  · rintro ⟨count, lengths⟩ i s occurs
    refine ⟨?_, lengths s (List.mem_of_getElem? occurs)⟩
    have bound := (List.getElem?_eq_some_iff.mp occurs).1
    omega

/-- What `task_load` should do with its arguments: store each in its own row,
and store none and fail when some argument does not fit. -/
structure ArgumentsConfined (machine : Machine) (kernel : Kernel) (filename : CString)
    (args : Arguments) : Prop where
  ownRow : ∀ i s, args.argv[i]? = some s → ∀ store ∈ rowStores i s,
    i * maxArgsLength ≤ store.1 ∧ store.1 < (i + 1) * maxArgsLength ∧ store.1 < sizeofTmpArgv
  rejected : ¬ args.Fit → tmpArgvStores 0 args.argv = [] ∧
    ∀ next window, taskLoadBegin machine kernel filename args ≠ some (.copying next window)

theorem argumentsConfined_iff (machine : Machine) (kernel : Kernel) (filename : CString)
    (args : Arguments) :
    ArgumentsConfined machine kernel filename args ↔
      args.argc.toInt ≤ maxArgs ∧ ∀ s ∈ args.argv, strlen s ≤ maxArgsLength - 2 := by
  rw [← args.fit_iff]
  constructor
  · intro confined i s occurs
    have bounds := confined.ownRow i s occurs _ (terminator_mem_rowStores i s)
    simp only [sizeofTmpArgv, maxArgs, maxArgsLength] at bounds
    simp only [Fits, maxArgs, maxArgsLength]
    omega
  · intro fit
    refine ⟨fun i s occurs store stored => ?_, fun unfit => absurd fit unfit⟩
    have bounds := rowStores_bounds stored
    have fits := fit i s occurs
    simp only [Fits, maxArgs, maxArgsLength] at fits
    simp only [maxArgsLength] at bounds
    simp only [sizeofTmpArgv, maxArgs, maxArgsLength]
    omega

theorem not_argumentsConfined :
    ¬ ∀ machine kernel filename args, ArgumentsConfined machine kernel filename args := by
  intro always
  have confined := always shellMachine (tasksInit shellMachine) shellName
    ⟨1, [⟨List.replicate 49 (ch 'a'), by decide +kernel⟩], rfl⟩
  have bounds := confined.ownRow 0 _ rfl _ (terminator_mem_rowStores 0 _)
  exact absurd bounds.2.1 (by decide)

/-! ## Reading the rows back -/

namespace Arguments

variable {args : Arguments} (fit : args.Fit)

include fit

theorem Fit.staysInTmpArgv : staysInTmpArgv args = true := by
  rw [Tasks.staysInTmpArgv, List.all_eq_true]
  intro store member
  rcases mem_tmpArgvStores.mp member with ⟨i, s, occurs, stored⟩
  rw [Nat.zero_add] at stored
  have bounds := rowStores_bounds stored
  have fits := fit i s occurs
  simp only [Fits, maxArgs, maxArgsLength] at fits
  simp only [maxArgsLength] at bounds
  apply decide_eq_true
  simp only [sizeofTmpArgv, maxArgs, maxArgsLength]
  omega

end Arguments

theorem tmpArgv_get {memory : Nat → UInt8} {first : Nat} {argv : List CString}
    (short : ∀ s ∈ argv, strlen s ≤ maxArgsLength - 2) {i : Nat} {s : CString}
    (occurs : argv[i]? = some s) {index : Nat} (inside : index < (s.bytes ++ [0]).length) :
    writeAll memory (tmpArgvStores first argv) ((first + i) * maxArgsLength + index) =
      (s.bytes ++ [0])[index] := by
  induction argv generalizing memory first i with
  | nil => cases occurs
  | cons head tail induction =>
      rw [tmpArgvStores, writeAll_append]
      cases i with
      | zero =>
          cases occurs
          have length := short s (List.mem_cons_self ..)
          simp only [strlen, maxArgsLength] at length
          rw [List.length_append, List.length_singleton] at inside
          have own : writeAll memory (rowStores first s) (first * maxArgsLength + index) =
              (s.bytes ++ [0])[index] := by
            rw [rowStores_eq, writeAll_consecutive_get _ _ _ _ (by simp; omega)]
            by_cases character : index < s.bytes.length
            · rw [List.getElem_append_left character, List.getElem_append_left character]
            · have last : index = s.bytes.length := by omega
              subst last
              simp
          change writeAll _ _ (first * maxArgsLength + index) = _
          rw [writeAll_of_not_mem _ _ _ fun later => ?_, own]
          rcases List.mem_map.mp later with ⟨store, stored, position⟩
          rcases mem_tmpArgvStores.mp stored with ⟨other, s, _, stored⟩
          have bounds := (rowStores_bounds stored).1
          simp only [maxArgsLength] at bounds position
          omega
      | succ i =>
          have later : writeAll (writeAll memory (rowStores first head))
              (tmpArgvStores (first + 1) tail) ((first + 1 + i) * maxArgsLength + index) = _ :=
            induction (fun s member => short s (List.mem_cons_of_mem _ member)) occurs
          rwa [Nat.add_right_comm, Nat.add_assoc] at later

end Yoctos.Tasks
