import Yoctos.User.Numerals
import Yoctos.User.Trim

/-! # The `sleep` command (`user/shell.c`) -/

namespace Yoctos.User

open Yoctos.Common Yoctos.Common.Stdio Yoctos.Stores
open StateTransition

/-! ## Printed text -/

/-- `printf` hands `text` to `puts`, whatever its arrays held before. -/
def Prints (fmt : CString) (args : List Arg) (text : List UInt8) : Prop :=
  ∀ scratch memory, ∃ final, Reaches Stdio.step (printf scratch fmt args) final ∧
    final.phase = .returned ∧ stringAt (writeAll memory final.stores) 0 addressSpace = text

private theorem Prints.unique {fmt : CString} {args : List Arg} {text other : List UInt8}
    (prints : Prints fmt args text) (printsOther : Prints fmt args other) : text = other := by
  rcases prints (fun _ => 0) (fun _ => 0) with ⟨final, run, returned, rfl⟩
  rcases printsOther (fun _ => 0) (fun _ => 0) with ⟨final', run', returned', rfl⟩
  rw [returned_unique run run' returned returned']

private theorem stringAt_consecutive {bytes : List UInt8} (memory : Nat → UInt8)
    (nonzero : ∀ byte ∈ bytes, byte ≠ 0) (short : bytes.length < addressSpace) :
    stringAt (writeAll memory (consecutive 0 (bytes ++ [0]))) 0 addressSpace = bytes := by
  refine stringAt_of_stored nonzero short (fun index occurs => ?_) ?_
  · rw [writeAll_consecutive_get memory 0 (bytes ++ [0]) index (by simp; omega),
      List.getElem_append_left occurs]
  · rw [writeAll_consecutive_get memory 0 (bytes ++ [0]) bytes.length (by simp)]
    simp

/-- A rendering that fits the buffer of `printf` is printed whole. -/
theorem prints_of_parse {fmt : CString} {args : List Arg} {pieces : List Piece}
    (parsed : parseFormat fmt.bytes args = some pieces)
    (nonzero : ∀ byte ∈ render pieces, byte ≠ 0) (fits : (render pieces).length ≤ bufferSize) :
    Prints fmt args (render pieces) := by
  intro scratch memory
  have outcome : Outcome (printf scratch fmt args) pieces := vsnprintf_outcome parsed
  rcases outcome.returns_iff.mpr (numbersFit_of_length_le fits) with ⟨final, run, returned⟩
  refine ⟨final, run, returned, ?_⟩
  rw [(stores_of_returned parsed run returned).1, Nat.min_eq_right fits, List.take_length]
  refine stringAt_consecutive memory nonzero (Nat.lt_of_le_of_lt fits ?_)
  decide

/-! ## The message -/

def sleepingFormat : CString := ⟨literal "Sleeping for %dms...\n", by decide +kernel⟩

def sleepingText (numeral : List UInt8) : List UInt8 :=
  literal "Sleeping for " ++ numeral ++ literal "ms...\n"

private theorem sleepingFormat_eq : sleepingFormat.bytes =
    literal "Sleeping for " ++ ch '%' :: ch 'd' :: (literal "ms...\n" ++ []) := by
  decide +kernel

def sleepingPieces (n : BitVec 32) : List Piece :=
  ((literal "Sleeping for ").map fun c => .text [c]) ++
    .number (signedNumeral n) (signedNumeral_ne_nil n) ::
      ((literal "ms...\n").map fun c => .text [c])

private theorem parse_sleepingFormat (n : BitVec 32) :
    parseFormat sleepingFormat.bytes [.int n] = some (sleepingPieces n) := by
  rw [sleepingFormat_eq, parseFormat_text (by decide +kernel), parseFormat_decimal,
    parseFormat_text (by decide +kernel)]
  simp [parseFormat, sleepingPieces]

private theorem render_sleepingPieces (n : BitVec 32) :
    render (sleepingPieces n) = sleepingText (signedNumeral n) := by
  rw [sleepingPieces, render_append, render_text, render_cons, render_text, sleepingText,
    List.append_assoc]
  rfl

private theorem prints_sleeping (n : BitVec 32) :
    Prints sleepingFormat [.int n] (sleepingText (signedNumeral n)) := by
  rw [← render_sleepingPieces]
  refine prints_of_parse (parse_sleepingFormat n) ?_ ?_
  · rw [render_sleepingPieces, sleepingText]
    simp only [List.mem_append, or_imp, forall_and]
    refine ⟨⟨?_, signedNumeral_nonzero n⟩, ?_⟩ <;> decide +kernel
  · have numeral := length_signedNumeral_le n
    have before : (literal "Sleeping for ").length = 13 := by decide +kernel
    have after : (literal "ms...\n").length = 6 := by decide +kernel
    rw [render_sleepingPieces, sleepingText, List.length_append, List.length_append, before, after,
      bufferSize]
    omega

/-! ## The command -/

/-- A line with the command: the word in any case, and a numeral. -/
structure SleepLine where
  heading : Nat
  word : List UInt8
  spelled : word.map lowerChar = literal "sleep"
  gap : Nat
  separated : 0 < gap
  digits : List UInt8
  nonempty : digits ≠ []
  decimal : ∀ c ∈ digits, isDigit c = true
  trailing : Nat
  value_lt : decimalValue digits < 2 ^ 32
  shorter : heading + word.length + gap + digits.length + trailing < 512

namespace SleepLine

variable (line : SleepLine)

def value : Nat := decimalValue line.digits

def kept : List UInt8 := line.word ++ List.replicate line.gap (ch ' ') ++ line.digits

private theorem word_shape : ∃ c word, line.word = c :: word ∧ lowerChar c = ch 's' := by
  have spelled := line.spelled
  cases shape : line.word with
  | nil =>
      rw [shape] at spelled
      exact absurd spelled (by decide +kernel)
  | cons c word =>
      rw [shape, List.map_cons] at spelled
      have first : literal "sleep" = ch 's' :: literal "leep" := by decide +kernel
      rw [first, List.cons.injEq] at spelled
      exact ⟨c, word, rfl, spelled.1⟩

private theorem word_nonzero : ∀ c ∈ line.word, c ≠ 0 := by
  rintro c member rfl
  have lowered : lowerChar 0 ∈ literal "sleep" :=
    line.spelled ▸ List.mem_map_of_mem member
  exact absurd lowered (by decide +kernel)

private theorem kept_nonzero : ∀ c ∈ line.kept, c ≠ 0 := by
  intro c member
  simp only [kept, List.mem_append, or_assoc] at member
  rcases member with inWord | space | digit
  · exact line.word_nonzero c inWord
  · rw [List.eq_of_mem_replicate space]
    decide
  · rintro rfl
    exact absurd (line.decimal 0 digit) (by decide)

def text : CString where
  bytes := List.replicate line.heading (ch ' ') ++ line.kept ++
    List.replicate line.trailing (ch ' ')
  nonzero c member := by
    simp only [List.mem_append, or_assoc] at member
    rcases member with space | inside | space
    · rw [List.eq_of_mem_replicate space]
      decide
    · exact line.kept_nonzero c inside
    · rw [List.eq_of_mem_replicate space]
      decide

private theorem last_digit {bytes : List UInt8} :
    (bytes ++ line.digits).getLast? ≠ some (ch ' ') := by
  rcases List.eq_nil_or_concat' line.digits with none | ⟨front, c, shape⟩
  · exact absurd none line.nonempty
  · have digit := line.decimal c (by simp [shape])
    rw [shape, ← List.append_assoc, List.getLast?_concat]
    rintro space
    cases space
    exact absurd digit (by decide)

theorem trimmed : Trimmed line.text.bytes line.heading line.kept line.trailing where
  split := rfl
  first := by
    rcases line.word_shape with ⟨c, word, shape, lower⟩
    rw [kept, shape]
    rintro space
    cases space
    exact absurd lower (by decide)
  last := line.last_digit

private theorem lowered_digits : line.digits.map lowerChar = line.digits := by
  conv_rhs => rw [← List.map_id line.digits]
  refine List.map_congr_left fun c member => ?_
  have bounds := isDigit_bounds (line.decimal c member)
  rw [lowerChar, if_neg]
  · rfl
  · rintro ⟨upper, _⟩
    rw [UInt8.le_iff_toNat_le] at upper
    change 65 ≤ c.toNat at upper
    omega

theorem typed : (tolower (trim line.text)).bytes =
    literal "sleep " ++ (List.replicate (line.gap - 1) (ch ' ') ++ line.digits) := by
  have gap : line.gap = (line.gap - 1) + 1 := by
    have separated := line.separated
    omega
  have word : literal "sleep " = literal "sleep" ++ [ch ' '] := by decide +kernel
  have space : lowerChar (ch ' ') = ch ' ' := by decide
  change (trim line.text).bytes.map lowerChar = _
  rw [line.trimmed.eq_trim, kept, List.map_append, List.map_append, line.spelled,
    List.map_replicate, space, line.lowered_digits, word, gap, List.replicate_succ]
  simp

private theorem trimmed_argument : Trimmed ((tolower (trim line.text)).bytes.drop 6) (line.gap - 1)
    line.digits 0 where
  split := by
    have six : (literal "sleep ").length = 6 := by decide +kernel
    rw [line.typed, List.drop_left' six]
    simp
  first := by
    cases shape : line.digits with
    | nil => exact absurd shape line.nonempty
    | cons c digits =>
        rintro space
        cases space
        exact absurd (line.decimal (ch ' ') (by simp [shape])) (by decide)
  last := by
    rw [← List.nil_append line.digits]
    exact line.last_digit

end SleepLine

private theorem startsWith_append (start rest : List UInt8) :
    startsWith start (start ++ rest) = true := by
  induction start with
  | nil => rfl
  | cons c start induction => simpa [startsWith] using induction

theorem runTurn_sleep (line : SleepLine) (freq ticks eax : BitVec 32) :
    runTurn line.text freq ticks eax =
      [.putc (ch '\n'), .printf "Sleeping for %dms...\n" [.int (BitVec.ofNat 32 line.value)],
        .sleep (BitVec.ofNat 32 line.value)] := by
  have typed := line.typed
  have letters : literal "sleep " = ch 's' :: literal "leep " := by decide +kernel
  have help : literal "help" = ch 'h' :: literal "elp" := by decide +kernel
  have nonempty : (tolower (trim line.text)).bytes ≠ [] := by
    rw [typed, letters]
    simp
  have other : strcmp (literal "help") (tolower (trim line.text)).bytes ≠ 0 := by
    rw [typed, letters, help, List.cons_append, strcmp, if_neg (by decide)]
    decide
  have sleeps : startsWith (literal "sleep ") (tolower (trim line.text)).bytes = true := by
    rw [typed]
    exact startsWith_append _ _
  have ms : ∀ nonzero, atoi 0 (trim ⟨(tolower (trim line.text)).bytes.drop 6, nonzero⟩).bytes =
      BitVec.ofNat 32 line.value := by
    intro nonzero
    have argument : (trim ⟨(tolower (trim line.text)).bytes.drop 6, nonzero⟩).bytes = line.digits :=
      Trimmed.eq_trim line.trimmed_argument
    have ends : NoDigitHead [] := by simp [NoDigitHead]
    have read := atoi_digits line.decimal ends
    rw [List.append_nil] at read
    rw [argument, read, SleepLine.value]
  simp only [runTurn, if_neg nonempty, if_neg other, sleeps, if_true, ms]

/-! ## What the command does -/

def LibraryCall.Printed (call : LibraryCall) (text : List UInt8) : Prop :=
  ∃ fmt args, call = .printf fmt args ∧
    ∃ format : CString, format.bytes = literal fmt ∧ Prints format args text

def LibraryCall.ms : LibraryCall → Option (BitVec 32)
  | .sleep ms => some ms
  | _ => none

structure Sleeps (n : Nat) (calls : List LibraryCall) : Prop where
  sleeps : (calls.filterMap LibraryCall.ms).map BitVec.toNat = [n]
  printed : ∃ call ∈ calls, call.Printed (sleepingText (numeral 10 n))

private theorem signedNumeral_eq_iff {n : Nat} (bound : n < 2 ^ 32) :
    signedNumeral (BitVec.ofNat 32 n) = numeral 10 n ↔ n < 2 ^ 31 := by
  have same : (BitVec.ofNat 32 n).toNat = n := by
    rw [BitVec.toNat_ofNat, Nat.mod_eq_of_lt bound]
  have signed := BitVec.toInt_eq_toNat_cond (BitVec.ofNat 32 n)
  rw [same] at signed
  constructor
  · intro equal
    by_contra large
    rw [if_neg (by omega)] at signed
    rw [signedNumeral, if_pos (by omega)] at equal
    have minus : ch '-' ∈ numeral 10 n := equal ▸ List.mem_cons_self
    exact absurd (numeral_isDigit n _ minus) (by decide)
  · intro small
    rw [if_pos (by omega)] at signed
    rw [signedNumeral, signed, if_neg (by omega), Int.natAbs_natCast]

private theorem sleepingText_injective {left right : List UInt8}
    (same : sleepingText left = sleepingText right) : left = right := by
  rw [sleepingText, sleepingText, List.append_left_inj, List.append_right_inj] at same
  exact same

section

variable {line : SleepLine} {freq ticks eax : BitVec 32}

/-- The message is right only for numbers that are not negative as an `int`. -/
theorem small_of_sleeps (sleeps : Sleeps line.value (runTurn line.text freq ticks eax)) :
    line.value < 2 ^ 31 := by
  rcases sleeps.printed with ⟨call, member, fmt, args, rfl, format, same, printed⟩
  rw [runTurn_sleep] at member
  simp only [List.mem_cons, List.not_mem_nil, or_false, reduceCtorEq, false_or,
    LibraryCall.printf.injEq] at member
  rcases member with ⟨rfl, rfl⟩
  have sameFormat : format = sleepingFormat := by
    cases format
    cases same
    rfl
  rw [sameFormat] at printed
  have prints := prints_sleeping (BitVec.ofNat 32 line.value)
  exact (signedNumeral_eq_iff line.value_lt).mp (sleepingText_injective (prints.unique printed))

private theorem sleeps_of_small (small : line.value < 2 ^ 31) :
    Sleeps line.value (runTurn line.text freq ticks eax) := by
  have value : (BitVec.ofNat 32 line.value).toNat = line.value := by
    rw [BitVec.toNat_ofNat, Nat.mod_eq_of_lt (by omega)]
  have shown := (signedNumeral_eq_iff (by omega)).mpr small
  have prints := prints_sleeping (BitVec.ofNat 32 line.value)
  rw [shown] at prints
  rw [runTurn_sleep]
  constructor
  · exact congrArg (fun ms => [ms]) value
  · refine ⟨.printf "Sleeping for %dms...\n" [.int (BitVec.ofNat 32 line.value)], by simp, ?_⟩
    exact ⟨_, _, rfl, sleepingFormat, rfl, prints⟩

end

/-- The command sleeps as long as it was told to; it says so below `2 ^ 31`
milliseconds, where `%d` shows the number as it is. -/
theorem sleeps_iff (line : SleepLine) (freq ticks eax : BitVec 32) :
    Sleeps line.value (runTurn line.text freq ticks eax) ↔ line.value < 2 ^ 31 :=
  ⟨small_of_sleeps, sleeps_of_small⟩

def longSleep : SleepLine where
  heading := 0
  word := literal "sleep"
  spelled := by decide +kernel
  gap := 1
  separated := by decide
  digits := literal "4294967295"
  nonempty := by decide +kernel
  decimal := by decide +kernel
  trailing := 0
  value_lt := by decide +kernel
  shorter := by decide +kernel

/-- There the shell says that it sleeps for -1 milliseconds. -/
theorem not_sleeps : ¬ ∀ (line : SleepLine) (freq ticks eax : BitVec 32),
    Sleeps line.value (runTurn line.text freq ticks eax) := by
  intro always
  have small := small_of_sleeps (always longSleep 0 0 0)
  exact absurd small (by decide +kernel)

end Yoctos.User
