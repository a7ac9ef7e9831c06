import Yoctos.Foundation.Loops
import Yoctos.Foundation.Region
import Yoctos.User.Shell

/-! # `trim` in memory (`user/ulibc.c`)

`trim` works in place. It is a machine with a step for each turn of its loops,
and it logs what it reads and stores.
-/

namespace Yoctos.User

open Yoctos.Common Yoctos.Loops Yoctos.Stores
open StateTransition

namespace Trim

inductive Phase
  | heading
  | length (n : Nat)
  | trailing (s : Int) (cut : Bool)
  | returned

structure State where
  phase : Phase
  memory : Int → UInt8
  line : Int
  reads : List Int
  stores : List (Int × UInt8)

namespace State

def read (st : State) (address : Int) : State := { st with reads := st.reads ++ [address] }

def store (st : State) (address : Int) (value : UInt8) : State :=
  { st with
    memory := write st.memory (address, value)
    stores := st.stores ++ [(address, value)] }

/-- `len` is an `int`: the unsigned result of `strlen` may become negative. -/
def measured (st : State) (n : Nat) : State :=
  let len := (BitVec.ofNat 32 n).toInt
  if 0 < len then { st with phase := .trailing (st.line + len - 1) false }
  else { st with phase := .returned }

def scanned (st : State) (s : Int) (cut : Bool) : State :=
  if cut then { st.store (s + 1) 0 with phase := .returned } else { st with phase := .returned }

end State

def step (st : State) : Option State :=
  match st.phase with
  | .heading =>
      if st.memory st.line = ch ' ' then some { st.read st.line with line := st.line + 1 }
      else some { st.read st.line with phase := .length 0 }
  | .length n =>
      if st.memory (st.line + n) ≠ 0 then
        some { st.read (st.line + n) with phase := .length (n + 1) }
      else some ((st.read (st.line + n)).measured n)
  | .trailing s cut =>
      if st.memory s = ch ' ' then some { st.read s with phase := .trailing (s - 1) true }
      else some ((st.read s).scanned s cut)
  | .returned => none

end Trim

def trimAt (memory : Int → UInt8) (line : Int) : Trim.State :=
  ⟨.heading, memory, line, [], []⟩

/-! ## What is kept -/

/-- `kept` is `bytes` without its leading and trailing spaces. -/
structure Trimmed (bytes : List UInt8) (heading : Nat) (kept : List UInt8) (trailing : Nat) :
    Prop where
  split : bytes = List.replicate heading (ch ' ') ++ kept ++ List.replicate trailing (ch ' ')
  first : kept.head? ≠ some (ch ' ')
  last : kept.getLast? ≠ some (ch ' ')

namespace Trim

/-! ## The invariant -/

/-- The parts of the string that the loops have told apart. -/
structure Scan (start : Int) (bytes : List UInt8) (heading : Nat) (kept : List UInt8)
    (trailing : Nat) (st : State) : Prop where
  split : bytes = List.replicate heading (ch ' ') ++ kept ++ List.replicate trailing (ch ' ')
  line : st.line = start + heading
  reads : ∀ address ∈ st.reads, start ≤ address ∧ address ≤ start + bytes.length

/-- Where the function stands. -/
inductive Progress (memory : Int → UInt8) (start : Int) (bytes : List UInt8) (st : State) : Prop
  | heading (phase : st.phase = .heading) {heading : Nat} {kept : List UInt8}
      (scan : Scan start bytes heading kept 0 st)
      (unchanged : st.memory = memory ∧ st.stores = [])
  | length {n : Nat} (phase : st.phase = .length n) {heading : Nat} {kept : List UInt8}
      (scan : Scan start bytes heading kept 0 st)
      (unchanged : st.memory = memory ∧ st.stores = [])
      (first : kept.head? ≠ some (ch ' ')) (within : n ≤ kept.length)
  | trailing {s : Int} {cut : Bool} (phase : st.phase = .trailing s cut) {heading : Nat}
      {kept : List UInt8} {trailing : Nat} (scan : Scan start bytes heading kept trailing st)
      (unchanged : st.memory = memory ∧ st.stores = [])
      (first : kept.head? ≠ some (ch ' ')) (nonempty : kept ≠ [])
      (position : s = st.line + kept.length - 1) (cuts : cut = decide (trailing ≠ 0))
  | returned (phase : st.phase = .returned) {heading : Nat} {kept : List UInt8} {trailing : Nat}
      (scan : Scan start bytes heading kept trailing st)
      (trimmed : Trimmed bytes heading kept trailing)
      (memory : st.memory = writeAll memory st.stores)
      (stores : st.stores = if trailing = 0 then [] else [(st.line + kept.length, 0)])

private theorem toInt_ofNat_of_lt {n : Nat} (short : n < 2 ^ 31) :
    (BitVec.ofNat 32 n).toInt = n := by
  have same : (BitVec.ofNat 32 n).toNat = n := by
    rw [BitVec.toNat_ofNat, Nat.mod_eq_of_lt (by omega)]
  rw [BitVec.toInt_eq_toNat_of_lt (by omega), same]

section

variable {memory : Int → UInt8} {start : Int} {bytes kept : List UInt8} {heading trailing : Nat}
variable {st next : State}

namespace Scan

theorem holds (scan : Scan start bytes heading kept trailing st)
    (stored : HoldsAt memory start (bytes ++ [0])) :
    HoldsAt memory st.line (kept ++ (List.replicate trailing (ch ' ') ++ [0])) := by
  rw [scan.split, List.append_assoc, List.append_assoc, holdsAt_append,
    List.length_replicate] at stored
  rw [scan.line]
  exact stored.2

theorem length_eq (scan : Scan start bytes heading kept trailing st) :
    bytes.length = heading + kept.length + trailing := by
  rw [scan.split, List.length_append, List.length_append, List.length_replicate,
    List.length_replicate]

private theorem mem_bytes (scan : Scan start bytes heading kept trailing st) {byte : UInt8}
    (member : byte ∈ kept) : byte ∈ bytes := by
  rw [scan.split]
  simp [member]

theorem read (scan : Scan start bytes heading kept trailing st) {address : Int}
    (lower : st.line ≤ address) (upper : address ≤ start + bytes.length) :
    Scan start bytes heading kept trailing (st.read address) where
  split := scan.split
  line := scan.line
  reads other member := by
    rcases List.mem_append.mp member with earlier | now
    · exact scan.reads other earlier
    · rw [List.mem_singleton.mp now]
      have line := scan.line
      omega

theorem congr {other : State} (scan : Scan start bytes heading kept trailing st)
    (line : other.line = st.line) (reads : other.reads = st.reads) :
    Scan start bytes heading kept trailing other :=
  ⟨scan.split, line ▸ scan.line, reads ▸ scan.reads⟩

end Scan

private theorem heading_step (stored : HoldsAt memory start (bytes ++ [0]))
    (phase : st.phase = .heading)
    (scan : Scan start bytes heading kept 0 st) (unchanged : st.memory = memory ∧ st.stores = [])
    (turn : step st = some next) : Progress memory start bytes next := by
  have holds := scan.holds stored
  have total := scan.length_eq
  have line := scan.line
  have scanned := scan.read (Int.le_refl st.line) (by omega)
  simp only [step, phase, unchanged.1] at turn
  cases kept with
  | nil =>
      have ends : memory st.line = 0 := (holdsAt_cons.mp holds).1
      rw [ends, if_neg (by decide)] at turn
      cases turn
      exact .length rfl (scanned.congr rfl rfl) unchanged (by simp) (Nat.le_refl 0)
  | cons byte kept =>
      have first : memory st.line = byte := (holdsAt_cons.mp holds).1
      rw [first] at turn
      split at turn
      next space =>
        cases turn
        subst space
        have advanced : Scan start bytes (heading + 1) kept 0
            { st.read st.line with line := st.line + 1 } := by
          refine ⟨?_, ?_, scanned.reads⟩
          · rw [scan.split, List.replicate_succ']
            simp
          · simp only [line]
            omega
        exact .heading phase advanced unchanged
      next other =>
        cases turn
        exact .length rfl (scanned.congr rfl rfl) unchanged (by simpa using other) (Nat.zero_le _)

private theorem length_step (nonzero : ∀ byte ∈ bytes, byte ≠ 0) (short : bytes.length < 2 ^ 31)
    (stored : HoldsAt memory start (bytes ++ [0])) {n : Nat} (phase : st.phase = .length n)
    (scan : Scan start bytes heading kept 0 st) (unchanged : st.memory = memory ∧ st.stores = [])
    (first : kept.head? ≠ some (ch ' ')) (within : n ≤ kept.length)
    (turn : step st = some next) : Progress memory start bytes next := by
  have holds := scan.holds stored
  have total := scan.length_eq
  have line := scan.line
  have scanned : Scan start bytes heading kept 0 (st.read (st.line + n)) :=
    scan.read (by omega) (by omega)
  simp only [step, phase, unchanged.1] at turn
  rcases Nat.lt_or_eq_of_le within with inside | rfl
  · have found : memory (st.line + n) = kept[n] := by
      rw [holds n (by simp; omega), List.getElem_append_left inside]
    have notEnd : kept[n] ≠ 0 := nonzero _ (scan.mem_bytes (List.getElem_mem inside))
    rw [found, if_pos notEnd] at turn
    cases turn
    exact .length rfl (scanned.congr rfl rfl) unchanged first inside
  · have ends : memory (st.line + kept.length) = 0 := by
      rw [holds kept.length (by simp)]
      simp
    rw [ends, if_neg (by simp)] at turn
    cases turn
    simp only [State.measured, toInt_ofNat_of_lt (show kept.length < 2 ^ 31 by omega)]
    split
    next positive =>
      exact .trailing rfl (scanned.congr rfl rfl) unchanged first
        (List.ne_nil_of_length_pos (by omega)) rfl rfl
    next empty =>
      have nil : kept = [] := List.length_eq_zero_iff.mp (by omega)
      subst nil
      refine .returned rfl (scanned.congr rfl rfl) ⟨scan.split, first, by simp⟩ ?_ unchanged.2
      simp only [State.read, unchanged]
      rfl

private theorem trailing_step (stored : HoldsAt memory start (bytes ++ [0])) {s : Int} {cut : Bool}
    (phase : st.phase = .trailing s cut) (scan : Scan start bytes heading kept trailing st)
    (unchanged : st.memory = memory ∧ st.stores = []) (first : kept.head? ≠ some (ch ' '))
    (nonempty : kept ≠ []) (position : s = st.line + kept.length - 1)
    (cuts : cut = decide (trailing ≠ 0)) (turn : step st = some next) :
    Progress memory start bytes next := by
  have holds := scan.holds stored
  have total := scan.length_eq
  have line := scan.line
  rcases List.eq_nil_or_concat' kept with rfl | ⟨front, byte, rfl⟩
  · exact absurd rfl nonempty
  have size : (front ++ [byte]).length = front.length + 1 := by simp
  have atLast : s = st.line + front.length := by omega
  have last : memory s = byte := by
    rw [atLast, holds front.length (by simp)]
    simp
  have scanned : Scan start bytes heading (front ++ [byte]) trailing (st.read s) :=
    scan.read (by omega) (by omega)
  simp only [step, phase, unchanged.1, last] at turn
  split at turn
  next space =>
    cases turn
    subst space
    have frontNonempty : front ≠ [] := by
      rintro rfl
      exact first rfl
    have advanced : Scan start bytes heading front (trailing + 1)
        { st.read s with phase := .trailing (s - 1) true } := by
      refine ⟨?_, line, scanned.reads⟩
      rw [scan.split, List.replicate_succ]
      simp
    rw [List.head?_append_of_ne_nil _ frontNonempty] at first
    exact .trailing rfl advanced unchanged first frontNonempty
      (by simp only [State.read]; omega) (by simp)
  next other =>
    cases turn
    have trimmed : Trimmed bytes heading (front ++ [byte]) trailing :=
      ⟨scan.split, first, by simpa using other⟩
    by_cases none : trailing = 0
    · rw [State.scanned, if_neg (by simp [cuts, none])]
      refine .returned rfl (scanned.congr rfl rfl) trimmed ?_ ?_
      · simp only [State.read, unchanged]
        rfl
      · rw [if_pos none]
        exact unchanged.2
    · have behind : s + 1 = st.line + (front ++ [byte]).length := by omega
      rw [State.scanned, if_pos (by simp [cuts, none]), behind]
      refine .returned rfl (scanned.congr rfl rfl) trimmed ?_ ?_
      · simp only [State.store, State.read, unchanged]
        rfl
      · rw [if_neg none]
        simp only [State.store, State.read, unchanged]
        rfl

theorem Progress.step (nonzero : ∀ byte ∈ bytes, byte ≠ 0) (short : bytes.length < 2 ^ 31)
    (stored : HoldsAt memory start (bytes ++ [0])) (progress : Progress memory start bytes st)
    (turn : Trim.step st = some next) : Progress memory start bytes next := by
  cases progress with
  | heading phase scan unchanged => exact heading_step stored phase scan unchanged turn
  | length phase scan unchanged first within =>
      exact length_step nonzero short stored phase scan unchanged first within turn
  | trailing phase scan unchanged first nonempty position cuts =>
      exact trailing_step stored phase scan unchanged first nonempty position cuts turn
  | returned phase => simp [Trim.step, phase] at turn

/-! ## Termination -/

def remaining (start : Int) (bytes : List UInt8) (st : State) : Nat :=
  let rest := (start + bytes.length + 1 - st.line).toNat
  match st.phase with
  | .heading => 2 * (bytes.length + 3) + rest
  | .length n => bytes.length + 3 + (rest - n)
  | .trailing s _ => (s - st.line + 2).toNat
  | .returned => 0

private theorem remaining_step (short : bytes.length < 2 ^ 31)
    (progress : Progress memory start bytes st)
    (turn : Trim.step st = some next) : remaining start bytes next < remaining start bytes st := by
  cases progress with
  | heading phase scan unchanged =>
      have total := scan.length_eq
      have line := scan.line
      simp only [Trim.step, phase] at turn
      split at turn <;> cases turn <;> simp only [remaining, State.read, phase] <;> omega
  | @length n phase heading kept scan unchanged first within =>
      have total := scan.length_eq
      have line := scan.line
      simp only [Trim.step, phase] at turn
      split at turn <;> cases turn
      · simp only [remaining, State.read, phase]
        omega
      · simp only [State.measured, toInt_ofNat_of_lt (show n < 2 ^ 31 by omega)]
        split <;> simp only [remaining, State.read, phase] <;> omega
  | trailing phase scan unchanged first nonempty position cuts =>
      have positive := List.length_pos_of_ne_nil nonempty
      simp only [Trim.step, phase] at turn
      split at turn <;> cases turn
      · simp only [remaining, State.read, phase]
        omega
      · rw [State.scanned]
        split <;> simp only [remaining, phase] <;> omega
  | returned phase => simp [Trim.step, phase] at turn

end

end Trim

/-! ## What `trim` does -/

/-- The whole effect of a call on the string at `start`. -/
structure TrimResult (memory : Int → UInt8) (start : Int) (bytes : List UInt8)
    (final : Trim.State) : Prop where
  returned : final.phase = .returned
  string : ∃ heading kept trailing, Trimmed bytes heading kept trailing ∧
    final.line = start + heading ∧ HoldsAt final.memory final.line (kept ++ [0]) ∧
    final.stores = if trailing = 0 then [] else [(final.line + kept.length, 0)]
  reads : ∀ address ∈ final.reads, start ≤ address ∧ address ≤ start + bytes.length
  stores : ∀ store ∈ final.stores, start ≤ store.1 ∧ store.1 ≤ start + bytes.length
  once : final.stores.length ≤ 1
  memory : final.memory = writeAll memory final.stores

def AboveLine (st : Trim.State) : Prop := ∀ s cut, st.phase = .trailing s cut → st.line ≤ s

section

variable {memory : Int → UInt8} {start : Int} {bytes : List UInt8} {st : Trim.State}

private theorem Trim.Progress.aboveLine (progress : Trim.Progress memory start bytes st) :
    AboveLine st := by
  intro s cut scanning
  cases progress with
  | trailing phase scan unchanged first nonempty position cuts =>
      have positive := List.length_pos_of_ne_nil nonempty
      cases phase.symm.trans scanning
      omega
  | heading phase | length phase | returned phase => cases phase.symm.trans scanning

theorem Trim.Progress.result (progress : Trim.Progress memory start bytes st)
    (stored : HoldsAt memory start (bytes ++ [0])) (halted : Trim.step st = none) :
    TrimResult memory start bytes st := by
  cases progress with
  | @returned phase heading kept trailing scan trimmed rewritten stores =>
      have holds := scan.holds stored
      have total := scan.length_eq
      have line := scan.line
      have keeps : HoldsAt memory st.line kept := (holdsAt_append.mp holds).1
      refine ⟨phase, ⟨heading, kept, trailing, trimmed, line, ?_, stores⟩, scan.reads, ?_, ?_,
        rewritten⟩
      · rw [rewritten, stores]
        split
        next none =>
          subst none
          simpa [writeAll] using holds
        next => exact keeps.concat 0
      all_goals
        rw [stores]
        split
      · simp
      · simp only [List.mem_singleton, forall_eq]
        omega
      · simp
      · simp
  | heading phase | length phase | trailing phase =>
      simp only [Trim.step, phase] at halted
      split at halted <;> cases halted

private theorem trimAt_progress (memory : Int → UInt8) (start : Int) (bytes : List UInt8) :
    Trim.Progress memory start bytes (trimAt memory start) := by
  have scan : Trim.Scan start bytes 0 bytes 0 (trimAt memory start) :=
    ⟨by simp, by simp [trimAt], by simp [trimAt]⟩
  exact .heading rfl scan ⟨rfl, rfl⟩

private theorem trimAt_returns (nonzero : ∀ byte ∈ bytes, byte ≠ 0) (short : bytes.length < 2 ^ 31)
    (stored : HoldsAt memory start (bytes ++ [0])) :
    ∃ final, Reaches Trim.step (trimAt memory start) final ∧
      TrimResult memory start bytes final := by
  have keeps : ∀ {state next}, Trim.Progress memory start bytes state →
      Trim.step state = some next → Trim.Progress memory start bytes next :=
    fun progress turn => progress.step nonzero short stored turn
  have initially := trimAt_progress memory start bytes
  rcases exists_halted (Trim.remaining start bytes) keeps (Trim.remaining_step short) initially with
    ⟨final, run, halted⟩
  have progress : Trim.Progress memory start bytes final :=
    invariant_of_reaches keeps initially run
  exact ⟨final, run, progress.result stored halted⟩

end

/-! ## Trimmed strings -/

namespace Trimmed

variable {bytes kept : List UInt8} {heading trailing : Nat}

theorem subset (trimmed : Trimmed bytes heading kept trailing) : kept ⊆ bytes := by
  intro byte member
  rw [trimmed.split]
  simp [member]

theorem length_le (trimmed : Trimmed bytes heading kept trailing) : kept.length ≤ bytes.length := by
  rw [trimmed.split, List.length_append, List.length_append]
  omega

private theorem none_of_clean (trimmed : Trimmed bytes heading kept trailing)
    (first : bytes.head? ≠ some (ch ' ')) (last : bytes.getLast? ≠ some (ch ' ')) :
    heading = 0 ∧ trailing = 0 := by
  rw [trimmed.split] at first last
  constructor
  · cases heading with
    | zero => rfl
    | succ heading => exact absurd rfl first
  · cases trailing with
    | zero => rfl
    | succ trailing =>
        rw [List.replicate_succ', ← List.append_assoc, List.getLast?_concat] at last
        exact absurd rfl last

theorem eq_trim {text : CString} (trimmed : Trimmed text.bytes heading kept trailing) :
    (trim text).bytes = kept := by
  have spaces : ∀ byte ∈ List.replicate heading (ch ' '), (byte == ch ' ') = true := by
    intro byte member
    rw [List.eq_of_mem_replicate member]
    exact beq_self_eq_true _
  have back : ∀ count, (kept ++ List.replicate count (ch ' ')).rdropWhile (· == ch ' ') = kept := by
    intro count
    induction count with
    | zero =>
        rw [List.replicate_zero, List.append_nil, List.rdropWhile_eq_self_iff]
        intro nonempty space
        rw [beq_iff_eq] at space
        exact trimmed.last (by rw [List.getLast?_eq_some_getLast nonempty, space])
    | succ count induction =>
        rw [List.replicate_succ', ← List.append_assoc, List.rdropWhile_concat_pos _ _ _ (by simp)]
        exact induction
  change (text.bytes.dropWhile (· == ch ' ')).rdropWhile (· == ch ' ') = kept
  rw [trimmed.split, List.append_assoc, List.dropWhile_append_of_pos spaces]
  cases kept with
  | nil => simp
  | cons byte kept =>
      have first : byte ≠ ch ' ' := by simpa using trimmed.first
      rw [List.cons_append, List.dropWhile_cons, if_neg (by simpa using first)]
      exact back trailing

end Trimmed

/-- `trim` removes exactly the spaces at both ends, within the bounds of the
string, and a second call changes nothing. -/
theorem trim_exact (memory : Int → UInt8) (start : Int) (text : CString)
    (short : text.bytes.length < 2 ^ 31) (stored : HoldsAt memory start (text.bytes ++ [0])) :
    (∀ st, Reaches Trim.step (trimAt memory start) st → AboveLine st) ∧
    ∃ final, Reaches Trim.step (trimAt memory start) final ∧
      TrimResult memory start text.bytes final ∧
      ∃ again, Reaches Trim.step (trimAt final.memory final.line) again ∧
        again.phase = .returned ∧ again.line = final.line ∧ again.memory = final.memory ∧
        again.stores = [] := by
  constructor
  · intro st run
    have progress : Trim.Progress memory start text.bytes st :=
      invariant_of_reaches (fun progress turn => progress.step text.nonzero short stored turn)
        (trimAt_progress memory start text.bytes) run
    exact progress.aboveLine
  · rcases trimAt_returns text.nonzero short stored with ⟨final, run, result⟩
    refine ⟨final, run, result, ?_⟩
    rcases result.string with ⟨heading, kept, trailing, trimmed, _, string, _⟩
    have nonzero : ∀ byte ∈ kept, byte ≠ 0 :=
      fun byte member => text.nonzero byte (trimmed.subset member)
    rcases trimAt_returns nonzero (Nat.lt_of_le_of_lt trimmed.length_le short) string with
      ⟨again, rerun, unchanged⟩
    rcases unchanged.string with ⟨more, rest, less, whole, line, _, stores⟩
    rcases whole.none_of_clean trimmed.first trimmed.last with ⟨rfl, rfl⟩
    rw [if_pos rfl] at stores
    refine ⟨again, rerun, unchanged.returned, by simpa using line, ?_, stores⟩
    rw [unchanged.memory, stores]
    rfl

def spacedText : CString := ⟨[ch ' ', ch 'a', ch ' '], by decide +kernel⟩

def spacedMemory (address : Int) : UInt8 :=
  if address = 1 then ch 'a' else if address = 3 then 0 else ch ' '

theorem trim_exact_spaced : ∃ final, Reaches Trim.step (trimAt spacedMemory 0) final ∧
    TrimResult spacedMemory 0 spacedText.bytes final := by
  have stored : HoldsAt spacedMemory 0 (spacedText.bytes ++ [0]) := by
    simp only [spacedText, List.cons_append, List.nil_append, holdsAt_cons]
    exact ⟨rfl, rfl, rfl, rfl, holdsAt_nil _ _⟩
  rcases (trim_exact spacedMemory 0 spacedText (by decide) stored).2 with ⟨final, run, result, _⟩
  exact ⟨final, run, result⟩

end Yoctos.User
