import Yoctos.Syscall.Isolation
import Yoctos.Tasks.Failure
import Mathlib.Data.List.DropRight

/-! # The shell (`user/shell.c`, `user/ulibc.c`)

A program's failure to start has four functions to pass on its way back to the
shell. None of them passes it on.
-/

namespace Yoctos.User

open Yoctos.Common Yoctos.Memory Yoctos.Tasks Yoctos.Syscall

/-! ## Strings -/

def lowerChar (c : UInt8) : UInt8 := if ch 'A' ≤ c ∧ c ≤ ch 'Z' then c + 32 else c

private theorem lowerChar_ne_zero {c : UInt8} (nonzero : c ≠ 0) : lowerChar c ≠ 0 := by
  rw [lowerChar]
  split
  next upper =>
    intro zero
    have low : ch 'A' = 65 := rfl
    have high : ch 'Z' = 90 := rfl
    rw [low, high, UInt8.le_iff_toNat_le, UInt8.le_iff_toNat_le] at upper
    have sum := congrArg UInt8.toNat zero
    rw [UInt8.toNat_add] at sum
    change 65 ≤ c.toNat ∧ c.toNat ≤ 90 at upper
    change (c.toNat + 32) % 2 ^ 8 = 0 at sum
    omega
  next => exact nonzero

def tolower (s : CString) : CString where
  bytes := s.bytes.map lowerChar
  nonzero byte member := by
    rcases List.mem_map.mp member with ⟨c, occurs, rfl⟩
    exact lowerChar_ne_zero (s.nonzero c occurs)

def atoi (n : BitVec 32) : (s : List UInt8) → BitVec 32
  | [] => n
  | c :: s => if ch '0' ≤ c ∧ c ≤ ch '9' then atoi (n * 10 + c.toBitVec.setWidth 32 - 48) s else n

def trim (line : CString) : CString where
  bytes := (line.bytes.dropWhile (· == ch ' ')).rdropWhile (· == ch ' ')
  nonzero byte member :=
    line.nonzero byte
      (((List.rdropWhile_prefix _ _).sublist.trans (List.dropWhile_sublist _)).subset member)

def startsWith : (start str : List UInt8) → Bool
  | [], _ => true
  | _ :: _, [] => false
  | p :: start, s :: str => if s ≠ p then false else startsWith start str

def literal (text : String) : List UInt8 := text.toList.map ch

/-! ## The way back from `task_exec` -/

def syscallTaskExecStatus (_started : Bool) : BitVec 32 := 0

/-- `task_exec` of the library has no `return`: its caller finds in `al` what
`syscall` left there. -/
def taskExec (eax : BitVec 32) : BitVec 8 := eax.setWidth 8

/-! ## The loop of the shell -/

inductive LibraryCall
  | puts (str : String)
  | putc (c : UInt8)
  | printf (fmt : String) (args : List Stdio.Arg)
  | sleep (ms : BitVec 32)
  | timerInfo
  | taskExec (filename : CString) (argc argv : BitVec 32)
  | exit

def helpText : String :=
  "\nPROG      : execute program PROG\nexit      : exit this shell\n" ++
    "help      : display this help\nsleep N   : sleep N milliseconds (preemptive)\n" ++
    "ticks     : show the current ticks value and timer frequency\n"

def failedExecuting (line : CString) : LibraryCall :=
  .printf "Failed executing \"%s\"\n" [.str line]

/-- One turn of the loop in `run`, after `read_string`. `timer_info` and
`syscall` are given by what they leave. -/
def runTurn (buf : CString) (freq ticks : BitVec 32) (eax : BitVec 32) : List LibraryCall :=
  let line := tolower (trim buf)
  if line.bytes = [] then [.putc (ch '\n')]
  else if strcmp (literal "help") line.bytes = 0 then [.puts helpText]
  else if startsWith (literal "sleep ") line.bytes then
    let rest := trim ⟨line.bytes.drop 6, fun byte member =>
      line.nonzero byte (List.mem_of_mem_drop member)⟩
    let ms := atoi 0 rest.bytes
    [.putc (ch '\n'), .printf "Sleeping for %dms...\n" [.int ms], .sleep ms]
  else if strcmp (literal "ticks") line.bytes = 0 then
    [.putc (ch '\n'), .timerInfo, .printf "ticks=%d freq=%d\n" [.int ticks, .int freq]]
  else if strcmp (literal "exit") line.bytes = 0 then [.puts "\nBye.\n", .exit]
  else
    let id : BitVec 32 := (taskExec eax).setWidth 32
    [.putc (ch '\n'), .taskExec line 0 0] ++ if id = -1 then [failedExecuting line] else []

/-- The shell takes the line for the name of a program. -/
structure NamesProgram (line : CString) : Prop where
  nonempty : line.bytes ≠ []
  help : strcmp (literal "help") line.bytes ≠ 0
  sleep : startsWith (literal "sleep ") line.bytes = false
  ticks : strcmp (literal "ticks") line.bytes ≠ 0
  exit : strcmp (literal "exit") line.bytes ≠ 0

theorem syscallHandler_taskExec {machine : Machine} {kernel : Kernel} {pointer : BitVec 32}
    {line : CString} (devices : Devices)
    (stored : loadString machine kernel pointer addressSpace = some line) :
    syscallHandler machine devices kernel 7 pointer 0 0 0 = some (.execs line noArguments) := by
  have dispatched : syscallHandler machine devices kernel 7 pointer 0 0 0 =
      syscallTaskExec machine kernel pointer 0 0 := by
    rw [syscallHandler, if_pos (by decide)]
    rfl
  rw [dispatched, syscallTaskExec, stored]
  rfl

/-! ## Reports -/

section

variable {line buf : CString} {freq ticks eax : BitVec 32}

private theorem runTurn_of_program (typed : tolower (trim buf) = line)
    (program : NamesProgram line) :
    runTurn buf freq ticks eax = [.putc (ch '\n'), .taskExec line 0 0] ++
      if (taskExec eax).setWidth 32 = (-1 : BitVec 32) then [failedExecuting line] else [] := by
  simp only [runTurn, typed, if_neg program.nonempty, if_neg program.help, program.sleep,
    if_neg program.ticks, if_neg program.exit, Bool.false_eq_true, if_false]

private theorem taskExec_ne_neg_one (eax : BitVec 32) :
    (taskExec eax).setWidth 32 ≠ (-1 : BitVec 32) := by
  have bound := (taskExec eax).isLt
  intro same
  have values := congrArg BitVec.toNat same
  rw [BitVec.toNat_setWidth, Nat.mod_eq_of_lt (by omega)] at values
  change _ = 2 ^ 32 - 1 at values
  omega

theorem failedExecuting_not_mem (typed : tolower (trim buf) = line) (program : NamesProgram line) :
    failedExecuting line ∉ runTurn buf freq ticks eax := by
  rw [runTurn_of_program typed program, if_neg (taskExec_ne_neg_one eax)]
  simp [failedExecuting]

/-- The shell reports a program exactly when the kernel could not start it. -/
def Reports (buf : CString) (freq ticks : BitVec 32) (started : Bool) : Prop :=
  failedExecuting (tolower (trim buf)) ∈ runTurn buf freq ticks (syscallTaskExecStatus started) ↔
    started = false

/-- Since there are no reports, that is so exactly for the programs that start. -/
theorem reports_iff {machine : Machine} {system next : System} {events : List Event}
    {started : Bool} (program : NamesProgram (tolower (trim buf)))
    (exec : TaskExec machine system (.taskExec (tolower (trim buf)) noArguments :: events) started
      next) :
    Reports buf freq ticks started ↔
      ¬ Unloadable machine system.kernel (tolower (trim buf)) := by
  rw [Reports, iff_false_left (failedExecuting_not_mem rfl program),
    taskExec_result_iff rfl exec]

end

/-! ## Two lines -/

private theorem shellName_typed : tolower (trim shellName) = shellName := by decide +kernel

private theorem lsName_typed : tolower (trim lsName) = lsName := by decide +kernel

private theorem shellName_program : NamesProgram shellName := by
  constructor <;> decide +kernel

private theorem lsName_program : NamesProgram lsName := by
  constructor <;> decide +kernel

theorem reports_shell : Reports shellName 1000 7 true := by
  rcases Execution.exists_of_completes shell_completes with ⟨call, events⟩
  have exec : TaskExec shellMachine (System.initial shellMachine) call.events true call.next :=
    .returned call.call
  rw [events] at exec
  have started : ¬ Unloadable shellMachine (System.initial shellMachine).kernel shellName := by
    rw [← taskExec_result_iff rfl exec]
    simp
  have program := shellName_program
  rw [← shellName_typed] at exec program started
  exact (reports_iff program exec).mpr started

theorem not_reports :
    ¬ ∀ (machine : Machine) (system next : System) (buf : CString) (freq ticks : BitVec 32)
      (events : List Event) (started : Bool), Reachable machine system →
      NamesProgram (tolower (trim buf)) →
      TaskExec machine system (.taskExec (tolower (trim buf)) noArguments :: events) started next →
      Reports buf freq ticks started := by
  intro always
  have unloadable : Unloadable shellMachine shellRunning.kernel lsName := .inl (by decide +kernel)
  have stays : staysInTmpArgv noArguments = true := rfl
  rcases exists_taskExec_of_unloadable shellRunning_running stays unloadable with ⟨next, exec⟩
  have program := lsName_program
  rw [← lsName_typed] at exec program
  have reported := always shellMachine shellRunning next lsName 1000 7 [] false
    shellRunning_reachable program exec
  exact failedExecuting_not_mem rfl program (reported.mpr rfl)

end Yoctos.User
