import Yoctos.Common.CString

/-! # Key codes (`common/keycodes.h`, `kernel/keymaps/`) -/

namespace Yoctos.Common

/-! ## Keys that are not characters -/

def keyEsc : BitVec 16 := 50000
def keyHome : BitVec 16 := 50005
def keyLeft : BitVec 16 := 50006
def keyRight : BitVec 16 := 50007
def keyUp : BitVec 16 := 50008
def keyDown : BitVec 16 := 50009
def keyEnd : BitVec 16 := 50010
def keyPgup : BitVec 16 := 50011
def keyPgdown : BitVec 16 := 50012
def keyInsert : BitVec 16 := 50013
def keyDel : BitVec 16 := 50014
def keyF1 : BitVec 16 := 50015
def keyF2 : BitVec 16 := 50016
def keyF3 : BitVec 16 := 50017
def keyF4 : BitVec 16 := 50018
def keyF5 : BitVec 16 := 50019
def keyF6 : BitVec 16 := 50020
def keyF7 : BitVec 16 := 50021
def keyF8 : BitVec 16 := 50022
def keyF9 : BitVec 16 := 50023
def keyF10 : BitVec 16 := 50024
def keyF11 : BitVec 16 := 50025
def keyF12 : BitVec 16 := 50026

def specialKeys : List (BitVec 16) :=
  [keyEsc, keyHome, keyLeft, keyRight, keyUp, keyDown, keyEnd, keyPgup, keyPgdown, keyInsert,
    keyDel, keyF1, keyF2, keyF3, keyF4, keyF5, keyF6, keyF7, keyF8, keyF9, keyF10, keyF11, keyF12]

/-! ## Characters of code page 437 -/

def keyADiaeresis : BitVec 16 := 0x84
def keyAGrave : BitVec 16 := 0x85
def keyCCedilla : BitVec 16 := 0x87
def keyEAcute : BitVec 16 := 0x82
def keyEGrave : BitVec 16 := 0x8A
def keyODiaeresis : BitVec 16 := 0x94
def keyUDiaeresis : BitVec 16 := 0x81
def keyParagraph : BitVec 16 := 0x15
def keyPound : BitVec 16 := 0x9C
def keyDegree : BitVec 16 := 0xF8

/-! ## The keymap -/

def keyIgnore : BitVec 16 := 0x0

def mapSize : Nat := 128

def code (character : Char) : BitVec 16 := (ch character).toBitVec.setWidth 16

structure Keymap where
  normal : Fin mapSize → BitVec 16
  shift : Fin mapSize → BitVec 16
  ctrl : Fin mapSize → BitVec 16
  alt : Fin mapSize → BitVec 16

/-- A row of the map from its initializer, which leaves the entries behind the
last one 0. -/
def mapRow (entries : List (BitVec 16)) : Fin mapSize → BitVec 16 :=
  fun scancode => entries.getD scancode 0

def normalFrCh : List (BitVec 16) :=
  [keyIgnore, keyEsc, code '1', code '2', code '3', code '4', code '5', code '6', code '7',
    code '8', code '9', code '0', code '\x27', code '^', code '\x08', code '\t', code 'q', code 'w',
    code 'e', code 'r', code 't', code 'z', code 'u', code 'i', code 'o', code 'p', keyEGrave,
    code '\x22', code '\n', keyIgnore, code 'a', code 's', code 'd', code 'f', code 'g', code 'h',
    code 'j', code 'k', code 'l', keyEAcute, keyAGrave, keyParagraph, keyIgnore, code '$', code 'y',
    code 'x', code 'c', code 'v', code 'b', code 'n', code 'm', code ',', code '.', code '-',
    keyIgnore, keyIgnore, keyIgnore, code ' ', keyIgnore, keyF1, keyF2, keyF3, keyF4, keyF5, keyF6,
    keyF7, keyF8, keyF9, keyF10, keyIgnore, keyIgnore, keyHome, keyUp, keyPgup, keyIgnore, keyLeft,
    keyIgnore, keyRight, keyIgnore, keyEnd, keyDown, keyPgdown, keyInsert, keyDel, keyIgnore,
    keyIgnore, code '<', keyF11, keyF12]

def shiftFrCh : List (BitVec 16) :=
  [keyIgnore, keyEsc, code '+', code '\x22', code '*', keyCCedilla, code '%', code '&', code '/',
    code '(', code ')', code '=', code '?', code '\x60', code '\x08', code '\t', code 'Q', code 'W',
    code 'E', code 'R', code 'T', code 'Z', code 'U', code 'I', code 'O', code 'P', keyUDiaeresis,
    code '!', code '\n', keyIgnore, code 'A', code 'S', code 'D', code 'F', code 'G', code 'H',
    code 'J', code 'K', code 'L', keyODiaeresis, keyADiaeresis, keyDegree, keyIgnore, keyPound,
    code 'Y', code 'X', code 'C', code 'V', code 'B', code 'N', code 'M', code ';', code ':',
    code '_', keyIgnore, keyIgnore, keyIgnore, code ' ', keyIgnore, keyF1, keyF2, keyF3, keyF4,
    keyF5, keyF6, keyF7, keyF8, keyF9, keyF10, keyIgnore, keyIgnore, keyHome, keyUp, keyPgup,
    keyIgnore, keyLeft, keyIgnore, keyRight, keyIgnore, keyEnd, keyDown, keyPgdown, keyInsert,
    keyDel, keyIgnore, keyIgnore, code '>', keyF11, keyF12]

def keymapFrCh : Keymap := ⟨mapRow normalFrCh, mapRow shiftFrCh, mapRow [], mapRow []⟩

namespace Keymap

def Has (keymap : Keymap) (key : BitVec 16) : Prop :=
  ∃ scancode, keymap.normal scancode = key ∨ keymap.shift scancode = key ∨
    keymap.ctrl scancode = key ∨ keymap.alt scancode = key

private theorem mapRow_cases (entries : List (BitVec 16)) (scancode : Fin mapSize) :
    mapRow entries scancode = keyIgnore ∨ mapRow entries scancode ∈ entries := by
  rw [mapRow, List.getD_eq_getElem?_getD]
  by_cases listed : scancode.val < entries.length
  · right
    rw [List.getElem?_eq_getElem listed, Option.getD_some]
    exact List.getElem_mem listed
  · left
    rw [List.getElem?_eq_none (Nat.le_of_not_lt listed)]
    rfl

/-- A test that the ignored entry and both initializers pass, every code passes. -/
theorem Has.of_all (test : BitVec 16 → Bool) {key : BitVec 16} (has : keymapFrCh.Has key)
    (ignored : test keyIgnore) (normal : normalFrCh.all test) (shift : shiftFrCh.all test) :
    test key := by
  have row : ∀ entries : List (BitVec 16), entries.all test →
      ∀ scancode, test (mapRow entries scancode) := by
    intro entries passed scancode
    rcases mapRow_cases entries scancode with isIgnored | member
    · rw [isIgnored]
      exact ignored
    · exact List.all_eq_true.mp passed _ member
  rcases has with ⟨scancode, rfl | rfl | rfl | rfl⟩
  · exact row normalFrCh normal scancode
  · exact row shiftFrCh shift scancode
  · exact row [] rfl scancode
  · exact row [] rfl scancode

end Keymap

end Yoctos.Common
