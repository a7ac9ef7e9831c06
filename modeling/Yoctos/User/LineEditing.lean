import Yoctos.User.ReadString
import Yoctos.Common.Keycodes
import Yoctos.Syscall.Handler

/-! # Editing a line

What `read_string` leaves in its buffer and what its echo leaves on the screen.
-/

namespace Yoctos.User

open Yoctos.Common Yoctos.Memory Yoctos.Stores Yoctos.Tasks Yoctos.Syscall

/-! ## The line and the screen -/

/-- The line after one more key. -/
def editLine (line : List UInt8) (key : BitVec 32) : List UInt8 :=
  if key = 0 then line
  else if key = backspace then line.dropLast
  else if key = tab then line ++ List.replicate tabSize (ch ' ')
  else line ++ [toChar key]

def lineOf (keys : List (BitVec 32)) : List UInt8 := keys.foldl editLine []

def TypedLine.line (typed : TypedLine) : List UInt8 := lineOf typed.keys

/-- A screen line on which a backspace erases the last character. -/
def showByte (screen : List UInt8) (byte : UInt8) : List UInt8 :=
  if byte = toChar backspace then screen.dropLast else screen ++ [byte]

def shown (output : List UInt8) : List UInt8 := output.foldl showByte []

theorem syscallHandler_putc (machine : Machine) (devices : Devices) (kernel : Kernel) (c : UInt8) :
    syscallHandler machine devices kernel 8 (c.toBitVec.signExtend 32) 0 0 0 =
      some (.returned (some 0) [.termPutc c] kernel) := by
  have dispatched : syscallHandler machine devices kernel 8 (c.toBitVec.signExtend 32) 0 0 0 =
      syscallPutc kernel (c.toBitVec.signExtend 32) := by
    rw [syscallHandler, if_pos (by decide)]
    rfl
  have narrowed : (c.toBitVec.signExtend 32).setWidth 8 = c.toBitVec := by
    ext index bound
    simp only [BitVec.getElem_setWidth, BitVec.getLsbD_signExtend]
    grind
  rw [dispatched, syscallPutc, narrowed]

private theorem lineOf_concat (keys : List (BitVec 32)) (key : BitVec 32) :
    lineOf (keys ++ [key]) = editLine (lineOf keys) key := by
  rw [lineOf, List.foldl_append]
  rfl

private theorem editLine_backspace (line : List UInt8) :
    editLine line backspace = line.dropLast := by
  rw [editLine, if_neg (by decide), if_pos rfl]

private theorem editLine_insert {key : BitVec 32} (inserts : key ≠ backspace) (line : List UInt8) :
    editLine line key = line ++ inserted key := by
  by_cases none : key = 0
  · rw [editLine, if_pos none, inserted, if_pos (.inl none), List.append_nil]
  · rw [editLine, if_neg none, if_neg inserts, inserted, if_neg (not_or.mpr ⟨none, inserts⟩)]
    split <;> rfl

/-! ## The buffer -/

structure Edited (memory : Int → UInt8) (line : List UInt8) (st : Reading) : Prop where
  position : st.buf = line.length
  holds : HoldsAt (writeAll memory st.stores) 0 line

namespace Edited

variable {memory : Int → UInt8} {line : List UInt8} {st : Reading}

theorem store (edited : Edited memory line st) (c : UInt8) :
    HoldsAt (writeAll memory (st.stores ++ [(st.buf, c)])) 0 (line ++ [c]) := by
  have stored := edited.holds.concat c
  rw [Int.zero_add, ← edited.position] at stored
  rw [writeAll_append]
  exact stored

theorem append (edited : Edited memory line st) (c : UInt8) :
    Edited memory (line ++ [c]) (st.append c) where
  position := by
    simp only [Reading.append, edited.position, List.length_append, List.length_singleton]
    omega
  holds := edited.store c

private theorem appendAll (edited : Edited memory line st) (bytes : List UInt8) :
    Edited memory (line ++ bytes) (bytes.foldl Reading.append st) := by
  induction bytes generalizing line st with
  | nil => simpa using edited
  | cons byte bytes induction =>
      have stored := induction (edited.append byte)
      rwa [List.append_assoc] at stored

theorem turn (edited : Edited memory line st) (key : BitVec 32) :
    Edited memory (editLine line key) (st.turn key) := by
  by_cases erases : key = backspace
  · subst erases
    rw [Reading.turn_backspace, editLine_backspace]
    split
    next nonempty =>
      refine ⟨?_, edited.holds.dropLast⟩
      simp only [edited.position, List.length_dropLast] at nonempty ⊢
      omega
    next empty =>
      have nil : line = [] := by
        rw [edited.position] at empty
        exact List.length_eq_zero_iff.mp (by omega)
      subst nil
      exact edited
  · rw [Reading.turn_insert st erases, editLine_insert erases]
    exact edited.appendAll _

private theorem of_keys (memory : Int → UInt8) (keys : List (BitVec 32)) :
    Edited memory (lineOf keys) (keys.foldl Reading.turn .start) := by
  induction keys using List.reverseRecOn with
  | nil => exact ⟨rfl, holdsAt_nil _ _⟩
  | append_singleton keys key induction =>
      rw [List.foldl_append, lineOf_concat]
      exact induction.turn key

end Edited

private theorem TypedLine.holds_line (typed : TypedLine) (memory : Int → UInt8) :
    HoldsAt (writeAll memory typed.read.stores) 0 (typed.line ++ [0]) := by
  rw [typed.read_eq]
  exact (Edited.of_keys memory typed.keys).store 0

/-! ## The screen -/

/-- A key other than the backspace that `putc` takes for one. -/
def HiddenBackspace (key : BitVec 32) : Prop := key ≠ backspace ∧ toChar key = toChar backspace

instance : DecidablePred HiddenBackspace := fun key =>
  inferInstanceAs (Decidable (key ≠ backspace ∧ toChar key = toChar backspace))

/-- No hidden backspace since the line was last empty. -/
def NothingHidden (keys : List (BitVec 32)) : Prop :=
  ∃ before after, keys = before ++ after ∧ lineOf before = [] ∧ ∀ key ∈ after, ¬ HiddenBackspace key

private theorem nothingHidden_concat (keys : List (BitVec 32)) (key : BitVec 32) :
    NothingHidden (keys ++ [key]) ↔
      lineOf (keys ++ [key]) = [] ∨ NothingHidden keys ∧ ¬ HiddenBackspace key := by
  constructor
  · rintro ⟨before, after, split, empty, nothing⟩
    rcases List.eq_nil_or_concat' after with rfl | ⟨after, last, rfl⟩
    · rw [List.append_nil] at split
      exact .inl (split ▸ empty)
    · rw [← List.append_assoc] at split
      rcases List.append_inj' split rfl with ⟨rfl, same⟩
      cases same
      refine .inr ⟨⟨before, after, rfl, empty, fun other member => ?_⟩, ?_⟩
      · exact nothing other (List.mem_append_left [key] member)
      · exact nothing key List.mem_concat_self
  · rintro (empty | ⟨⟨before, after, rfl, empty, nothing⟩, visible⟩)
    · exact ⟨keys ++ [key], [], by simp, empty, by simp⟩
    · refine ⟨before, after ++ [key], by simp, empty, fun other member => ?_⟩
      rcases List.mem_append.mp member with earlier | last
      · exact nothing other earlier
      · rwa [List.mem_singleton.mp last]

private theorem shown_append (output bytes : List UInt8) (visible : toChar backspace ∉ bytes) :
    shown (output ++ bytes) = shown output ++ bytes := by
  induction bytes using List.reverseRecOn with
  | nil => simp
  | append_singleton bytes byte induction =>
      rw [List.mem_append, not_or, List.mem_singleton] at visible
      rw [← List.append_assoc, shown, List.foldl_append, ← shown, induction visible.1,
        ← List.append_assoc]
      exact if_neg (Ne.symm visible.2)

private theorem shown_backspace (output : List UInt8) :
    shown (output ++ [toChar backspace]) = (shown output).dropLast := by
  simp [shown, showByte]

private theorem inserted_visible {key : BitVec 32} (inserts : key ≠ backspace)
    (visible : ¬ HiddenBackspace key) : toChar backspace ∉ inserted key := by
  rw [inserted]
  split
  · simp
  · split
    · decide
    · rw [List.mem_singleton]
      exact fun same => visible ⟨inserts, same.symm⟩

private theorem inserted_hidden {key : BitVec 32} (hidden : HiddenBackspace key) :
    inserted key = [toChar backspace] := by
  have notZero : key ≠ 0 := fun zero => absurd hidden.2 (zero ▸ by decide)
  have notTab : key ≠ tab := fun isTab => absurd hidden.2 (isTab ▸ by decide)
  rw [inserted, if_neg (not_or.mpr ⟨notZero, hidden.1⟩), if_neg notTab, hidden.2]

/-- The screen follows the line, or has fallen behind it. -/
def Behind (screen line : List UInt8) : Prop := screen = line ∨ screen.length < line.length

private theorem behind_nil {screen : List UInt8} (behind : Behind screen []) : screen = [] := by
  rcases behind with same | shorter
  · exact same
  · simp at shorter

private theorem behind_dropLast {screen line : List UInt8} (behind : Behind screen line)
    (nonempty : line ≠ []) : Behind screen.dropLast line.dropLast ∧
      (screen.dropLast = line.dropLast ↔ line.dropLast = [] ∨ screen = line) := by
  have positive := List.length_pos_of_ne_nil nonempty
  rcases behind with rfl | shorter
  · exact ⟨.inl rfl, by simp⟩
  · have different : screen ≠ line := fun same => by simp [same] at shorter
    by_cases last : line.dropLast = []
    · have single := congrArg List.length last
      rw [List.length_dropLast, List.length_nil] at single
      have empty : screen = [] := List.length_eq_zero_iff.mp (by omega)
      rw [empty, last]
      exact ⟨.inl rfl, by simp⟩
    · have remains := List.length_pos_of_ne_nil last
      have still : screen.dropLast.length < line.dropLast.length := by
        rw [List.length_dropLast] at remains ⊢
        rw [List.length_dropLast]
        omega
      refine ⟨.inr still, iff_of_false (fun same => ?_) (not_or.mpr ⟨last, different⟩)⟩
      rw [same] at still
      exact Nat.lt_irrefl _ still

private theorem behind_append {screen line : List UInt8} (behind : Behind screen line)
    (bytes : List UInt8) : Behind (screen ++ bytes) (line ++ bytes) := by
  rcases behind with rfl | shorter
  · exact .inl rfl
  · exact .inr (by simpa using shorter)

private theorem append_eq_iff {screen line : List UInt8} (behind : Behind screen line)
    (bytes : List UInt8) :
    screen ++ bytes = line ++ bytes ↔ line ++ bytes = [] ∨ screen = line := by
  rw [List.append_left_inj]
  constructor
  · exact .inr
  · rintro (empty | same)
    · rw [(List.append_eq_nil_iff.mp empty).1] at behind ⊢
      exact behind_nil behind
    · exact same

/-- A hidden backspace erases on the screen and adds to the line. -/
theorem shorter_of_hidden {screen line : List UInt8} (behind : Behind screen line) (byte : UInt8) :
    screen.dropLast.length < (line ++ [byte]).length := by
  rw [List.length_dropLast, List.length_append, List.length_singleton]
  rcases behind with equal | below
  · rw [equal]
    omega
  · omega

private theorem shown_line (keys : List (BitVec 32)) :
    Behind (shown (keys.foldl Reading.turn .start).output) (lineOf keys) ∧
      (shown (keys.foldl Reading.turn .start).output = lineOf keys ↔ NothingHidden keys) := by
  induction keys using List.reverseRecOn with
  | nil => exact ⟨.inl rfl, iff_of_true rfl ⟨[], [], rfl, rfl, by simp⟩⟩
  | append_singleton keys key induction =>
      rcases induction with ⟨behind, same⟩
      have position := (Edited.of_keys (fun _ => 0) keys).position
      rw [nothingHidden_concat, lineOf_concat, List.foldl_append, List.foldl_cons, List.foldl_nil,
        ← same]
      by_cases erases : key = backspace
      · have visible : ¬ HiddenBackspace key := fun hidden => hidden.1 erases
        subst erases
        rw [Reading.turn_backspace, editLine_backspace, position, and_iff_left visible]
        by_cases empty : lineOf keys = []
        · rw [empty] at behind ⊢
          rw [if_neg (by simp), behind_nil behind]
          exact ⟨.inl rfl, by simp⟩
        · have positive := List.length_pos_of_ne_nil empty
          rw [if_pos (by omega)]
          simp only [Reading.putc, shown_backspace]
          exact behind_dropLast behind empty
      · rw [Reading.turn_insert _ erases, editLine_insert erases, Reading.foldl_append_output]
        by_cases hidden : HiddenBackspace key
        · have shorter := shorter_of_hidden behind (toChar backspace)
          rw [inserted_hidden hidden, shown_backspace]
          refine ⟨.inr shorter, iff_of_false (fun equal => ?_) (by simp [hidden])⟩
          rw [equal] at shorter
          exact Nat.lt_irrefl _ shorter
        · rw [shown_append _ _ (inserted_visible erases hidden), and_iff_left hidden]
          exact ⟨behind_append behind _, append_eq_iff behind _⟩

/-! ## The keys of the keymap -/

def TypedLine.OfKeymap (typed : TypedLine) : Prop :=
  ∀ key ∈ typed.keys, ∃ code, keymapFrCh.Has code ∧ key = code.setWidth 32

private theorem keymap_visible {code : BitVec 16} (has : keymapFrCh.Has code) :
    ¬ HiddenBackspace (code.setWidth 32) := by
  have visible := Keymap.Has.of_all (fun code => !decide (HiddenBackspace (code.setWidth 32))) has
    (by decide +kernel) (by decide +kernel) (by decide +kernel)
  simpa using visible

private theorem keymap_inserted {code : BitVec 16} (has : keymapFrCh.Has code) :
    (0 : UInt8) ∉ inserted (code.setWidth 32) := by
  have nonzero := Keymap.Has.of_all
    (fun code => !decide ((0 : UInt8) ∈ inserted (code.setWidth 32))) has
    (by decide +kernel) (by decide +kernel) (by decide +kernel)
  simpa using nonzero

private theorem mem_turn_stores {st : Reading} {key : BitVec 32} {store : Int × UInt8}
    (member : store ∈ (st.turn key).stores) : store ∈ st.stores ∨ store.2 ∈ inserted key := by
  by_cases erases : key = backspace
  · subst erases
    rw [Reading.turn_backspace] at member
    split at member <;> exact .inl member
  · rw [Reading.turn_insert st erases, Reading.mem_foldl_append_stores] at member
    rcases member with earlier | ⟨index, occurs, rfl⟩
    · exact .inl earlier
    · exact .inr (List.getElem_mem occurs)

private theorem stores_inserted {keys : List (BitVec 32)} {store : Int × UInt8}
    (member : store ∈ (keys.foldl Reading.turn .start).stores) :
    ∃ key ∈ keys, store.2 ∈ inserted key := by
  induction keys using List.reverseRecOn with
  | nil => cases member
  | append_singleton keys key induction =>
      rw [List.foldl_append] at member
      rcases mem_turn_stores member with earlier | now
      · rcases induction earlier with ⟨other, occurs, found⟩
        exact ⟨other, List.mem_append_left _ occurs, found⟩
      · exact ⟨key, by simp, now⟩

private theorem nothingHidden_of_visible {keys : List (BitVec 32)}
    (visible : ∀ key ∈ keys, ¬ HiddenBackspace key) : NothingHidden keys :=
  ⟨[], keys, rfl, rfl, visible⟩

/-- The buffer always receives the edited line. The screen shows that line
exactly when no key hides a backspace, and no key of the keymap does. -/
theorem readString_edits (memory : Int → UInt8) (typed : TypedLine) :
    HoldsAt (writeAll memory typed.read.stores) 0 (typed.line ++ [0]) ∧
    (shown typed.read.output = typed.line ↔ NothingHidden typed.keys) ∧
    (typed.OfKeymap → shown typed.read.output = typed.line ∧
      ∃ stores, typed.read.stores = stores ++ [((typed.line.length : Int), 0)] ∧
        ∀ store ∈ stores, store.2 ≠ 0) := by
  have screen : shown typed.read.output = typed.line ↔ NothingHidden typed.keys := by
    rw [typed.read_eq]
    exact (shown_line typed.keys).2
  refine ⟨typed.holds_line memory, screen, fun ofKeymap => ⟨screen.mpr ?_, ?_⟩⟩
  · refine nothingHidden_of_visible fun key member => ?_
    rcases ofKeymap key member with ⟨code, has, rfl⟩
    exact keymap_visible has
  · refine ⟨(typed.keys.foldl Reading.turn .start).stores, ?_, fun store member zero => ?_⟩
    · rw [typed.read_eq, TypedLine.line, ← (Edited.of_keys memory typed.keys).position]
      rfl
    · rcases stores_inserted member with ⟨key, occurs, found⟩
      rcases ofKeymap key occurs with ⟨code, has, rfl⟩
      exact keymap_inserted has (zero ▸ found)

def lsTyped : TypedLine := ⟨[108, 115, 9, 8], by decide⟩

theorem readString_edits_ls : shown lsTyped.read.output = "ls   ".toList.map ch := by
  have normal : ∀ scancode, keymapFrCh.Has (keymapFrCh.normal scancode) :=
    fun scancode => ⟨scancode, .inl rfl⟩
  have ofKeymap : lsTyped.OfKeymap := by
    intro key member
    simp only [lsTyped, List.mem_cons, List.not_mem_nil, or_false] at member
    rcases member with rfl | rfl | rfl | rfl
    · exact ⟨_, normal ⟨38, by decide⟩, by decide +kernel⟩
    · exact ⟨_, normal ⟨31, by decide⟩, by decide +kernel⟩
    · exact ⟨_, normal ⟨15, by decide⟩, by decide +kernel⟩
    · exact ⟨_, normal ⟨14, by decide⟩, by decide +kernel⟩
  have shows := ((readString_edits (fun _ => 0) lsTyped).2.2 ofKeymap).1
  rw [shows]
  decide +kernel

end Yoctos.User
