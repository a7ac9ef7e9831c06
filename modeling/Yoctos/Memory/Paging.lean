import Yoctos.Foundation.Stores
import Mathlib.Data.BitVec
import Mathlib.Data.UInt

/-! # Frames, page tables and translation (`mem/paging.h`, `mem/frame.h`)

`paging_alloc` and the frame allocator are linked in as object files. Which
frames the allocator picks is a parameter; what is done with them is what the
headers document.
-/

namespace Yoctos.Memory

open Yoctos.Stores

abbrev Frame := BitVec 20

/-- `PAGE_COUNT`, in the 32-bit arithmetic of the macro. -/
def pageCount (size : BitVec 32) : BitVec 32 := (size + 4096 - 1) / 4096

theorem pageCount_toNat {size : BitVec 32} (fits : size.toNat + 4095 < 2 ^ 32) :
    (pageCount size).toNat = (size.toNat + 4095) / 4096 := by
  have sum : (size + 4096 - 1).toNat = size.toNat + 4095 := by
    rw [BitVec.toNat_sub, BitVec.toNat_add]
    change (2 ^ 32 - 1 + (size.toNat + 4096) % 2 ^ 32) % 2 ^ 32 = _
    omega
  rw [pageCount, BitVec.toNat_udiv, sum]
  rfl

def frameNbToAddr (frame : Frame) : BitVec 32 := frame ++ 0#12

def addrToFrameNb (address : BitVec 32) : Frame := address.extractLsb' 12 20

def addrToPde (address : BitVec 32) : BitVec 10 := address.extractLsb' 22 10
def addrToPte (address : BitVec 32) : BitVec 10 := address.extractLsb' 12 10
def pageOffset (address : BitVec 32) : BitVec 12 := address.extractLsb' 0 12

theorem addrToFrameNb_append (frame : Frame) (offset : BitVec 12) :
    addrToFrameNb (frame ++ offset) = frame := by
  simp only [addrToFrameNb]
  ext index bound
  grind

theorem pageOffset_append (frame : Frame) (offset : BitVec 12) :
    pageOffset (frame ++ offset) = offset := by
  simp only [pageOffset]
  ext index bound
  grind

theorem addrToFrameNb_frameNbToAddr (frame : Frame) :
    addrToFrameNb (frameNbToAddr frame) = frame := addrToFrameNb_append frame 0

theorem frameNbToAddr_ne_zero {frame : Frame} (nonzero : frame ≠ 0) : frameNbToAddr frame ≠ 0 := by
  intro null
  apply nonzero
  rw [← addrToFrameNb_frameNbToAddr frame, null]
  rfl

theorem addrToFrameNb_toNat (address : BitVec 32) :
    (addrToFrameNb address).toNat = address.toNat / 4096 := by
  simp [addrToFrameNb, BitVec.extractLsb'_toNat, Nat.shiftRight_eq_div_pow]
  omega

theorem addrToPde_toNat (address : BitVec 32) :
    (addrToPde address).toNat = address.toNat / 4194304 := by
  simp [addrToPde, BitVec.extractLsb'_toNat, Nat.shiftRight_eq_div_pow]
  omega

theorem addrToPte_toNat (address : BitVec 32) :
    (addrToPte address).toNat = address.toNat / 4096 % 1024 := by
  simp [addrToPte, BitVec.extractLsb'_toNat, Nat.shiftRight_eq_div_pow]

theorem pageOffset_toNat (address : BitVec 32) :
    (pageOffset address).toNat = address.toNat % 4096 := by
  simp [pageOffset, BitVec.extractLsb'_toNat]

/-! ## Translation -/

/-- `PDE_t`: the fields the kernel and the CPU use. -/
structure Pde where
  present : Bool
  rw : Bool
  user : Bool
  pagetableFrameNumber : Frame
  deriving DecidableEq

structure Pte where
  present : Bool
  rw : Bool
  user : Bool
  frameNumber : Frame
  deriving DecidableEq

def Pde.null : Pde := ⟨false, false, false, 0⟩
def Pte.null : Pte := ⟨false, false, false, 0⟩

abbrev PageDirectory := BitVec 10 → Pde
abbrev PageTable := BitVec 10 → Pte

/-- Physical memory: its bytes, the page tables kept in its frames, and the
frame allocator's bitmap (`true` for an allocated frame). -/
structure Ram where
  bytes : BitVec 32 → UInt8
  tables : Frame → PageTable
  frames : Frame → Bool

structure Translation where
  physical : BitVec 32
  user : Bool
  rw : Bool
  deriving DecidableEq

def translate (tables : Frame → PageTable) (pagedir : PageDirectory) (address : BitVec 32) :
    Option Translation :=
  let pde := pagedir (addrToPde address)
  let pte := tables pde.pagetableFrameNumber (addrToPte address)
  if pde.present && pte.present then
    some
      { physical := pte.frameNumber ++ pageOffset address
        user := pde.user && pte.user
        rw := pde.rw && pte.rw }
  else none

theorem translate_congr {tables tables' : Frame → PageTable} {pagedir : PageDirectory}
    (agree : ∀ index, (pagedir index).present = true →
      tables' (pagedir index).pagetableFrameNumber = tables (pagedir index).pagetableFrameNumber)
    (address : BitVec 32) :
    translate tables' pagedir address = translate tables pagedir address := by
  simp only [translate]
  cases present : (pagedir (addrToPde address)).present with
  | false => rfl
  | true => rw [agree _ present]

/-! ## Allocation -/

/-- The frames one call of `paging_alloc` takes. -/
structure Grant where
  pages : List Frame
  tables : List Frame

def Grant.all (grant : Grant) : List Frame := grant.pages ++ grant.tables

def tableCount (count : Nat) : Nat := (count + 1023) / 1024

/-- The allocator's choice of frames for `count` pages: distinct free frames,
one for a page and one for every page table these need. -/
structure FrameSource where
  grant : (Frame → Bool) → Nat → Grant
  nodup : ∀ frames count, (grant frames count).all.Nodup
  fresh : ∀ frames count, ∀ frame ∈ (grant frames count).all, frames frame = false
  pages_length : ∀ frames count, (grant frames count).pages.length ≤ count
  tables_length : ∀ frames count,
    (grant frames count).tables.length = tableCount (grant frames count).pages.length

inductive Privilege
  | kernel
  | user
  deriving DecidableEq

def pageTableOf (pages : List Frame) (privilege : Privilege) (table : Nat) :
    PageTable := fun entry =>
  match pages[table * 1024 + entry.toNat]? with
  | some page => ⟨true, true, privilege == .user, page⟩
  | none => .null

def mapTables (pagedir : PageDirectory) (virtAddr : BitVec 32) (tables : List Frame) :
    PageDirectory := fun index =>
  match tables[(index - addrToPde virtAddr).toNat]? with
  | some table => ⟨true, true, true, table⟩
  | none => pagedir index

def tableStores (grant : Grant) (privilege : Privilege) : List (Frame × PageTable) :=
  grant.tables.zipIdx.map fun table => (table.1, pageTableOf grant.pages privilege table.2)

structure PagingAlloc where
  ram : Ram
  pagedir : PageDirectory
  pageTables : BitVec 10 → BitVec 32
  count : BitVec 32

/-- What the frames of `grant` are used for, in a directory that has no page
tables in the range. A table that is there would stay, and take no frame. -/
def Grant.apply (grant : Grant) (ram : Ram) (pagedir : PageDirectory)
    (pageTables : BitVec 10 → BitVec 32) (virtAddr : BitVec 32) (privilege : Privilege) :
    PagingAlloc where
  ram :=
    { bytes := fun physical =>
        if addrToFrameNb physical ∈ grant.pages then 0 else ram.bytes physical
      tables := writeAll ram.tables (tableStores grant privilege)
      frames := fun frame => ram.frames frame || decide (frame ∈ grant.all) }
  pagedir := mapTables pagedir virtAddr grant.tables
  pageTables := fun index =>
    match grant.tables[index.toNat]? with
    | some table => frameNbToAddr table
    | none => pageTables index
  count := BitVec.ofNat 32 grant.all.length

/-- `paging_alloc`, for a `virt_addr` that is a multiple of 4 MB and a directory
without page tables in the range. -/
def pagingAlloc (source : FrameSource) (ram : Ram) (pagedir : PageDirectory)
    (pageTables : BitVec 10 → BitVec 32) (virtAddr size : BitVec 32) (privilege : Privilege) :
    PagingAlloc :=
  (source.grant ram.frames (pageCount size).toNat).apply ram pagedir pageTables virtAddr privilege

def frameFree (ram : Ram) (frameAddr : BitVec 32) : Ram :=
  { ram with frames := Function.update ram.frames (addrToFrameNb frameAddr) false }

@[simp] theorem frameFree_tables (ram : Ram) (frameAddr : BitVec 32) :
    (frameFree ram frameAddr).tables = ram.tables := rfl

/-! ## What an allocation leaves behind -/

theorem tableStores_fst (grant : Grant) (privilege : Privilege) :
    (tableStores grant privilege).map Prod.fst = grant.tables := by
  simp [tableStores, Function.comp_def]

theorem addrToPde_sub {virtAddr : BitVec 32} (aligned : virtAddr.toNat % 4194304 = 0)
    (address : BitVec 32) :
    (addrToPde address - addrToPde virtAddr).toNat = (address - virtAddr).toNat / 4194304 := by
  rw [BitVec.toNat_sub, BitVec.toNat_sub, addrToPde_toNat, addrToPde_toNat]
  omega

theorem addrToPte_sub {virtAddr : BitVec 32} (aligned : virtAddr.toNat % 4194304 = 0)
    (address : BitVec 32) :
    (addrToPte address).toNat = (address - virtAddr).toNat / 4096 % 1024 := by
  rw [BitVec.toNat_sub, addrToPte_toNat]
  omega

namespace Grant

variable {grant : Grant} {ram : Ram} {pagedir : PageDirectory}
variable {pageTables : BitVec 10 → BitVec 32} {virtAddr : BitVec 32} {privilege : Privilege}

theorem apply_frames {frame : Frame} :
    (grant.apply ram pagedir pageTables virtAddr privilege).ram.frames frame = true ↔
      ram.frames frame = true ∨ frame ∈ grant.all := by
  simp [apply]

theorem apply_tables_of_not_mem {frame : Frame} (other : frame ∉ grant.tables) :
    (grant.apply ram pagedir pageTables virtAddr privilege).ram.tables frame =
      ram.tables frame := by
  apply writeAll_of_not_mem
  rwa [tableStores_fst]

theorem apply_tables_get (nodup : grant.tables.Nodup) {index : Nat}
    (occurs : index < grant.tables.length) :
    (grant.apply ram pagedir pageTables virtAddr privilege).ram.tables grant.tables[index] =
      pageTableOf grant.pages privilege index := by
  apply writeAll_of_mem
  · rwa [tableStores_fst]
  · refine List.mem_map.mpr ⟨(grant.tables[index], index), ?_, rfl⟩
    simp [List.mem_zipIdx_iff_getElem?, List.getElem?_eq_getElem occurs]

variable (aligned : virtAddr.toNat % 4194304 = 0)
variable (sized : grant.tables.length = tableCount grant.pages.length)

include aligned sized in
theorem translate_apply_inside (nodup : grant.tables.Nodup) {address : BitVec 32}
    (inside : (address - virtAddr).toNat / 4096 < grant.pages.length) :
    translate (grant.apply ram pagedir pageTables virtAddr privilege).ram.tables
        (grant.apply ram pagedir pageTables virtAddr privilege).pagedir address =
      some
        { physical := grant.pages[(address - virtAddr).toNat / 4096] ++ pageOffset address
          user := privilege == .user
          rw := true } := by
  have table : (addrToPde address - addrToPde virtAddr).toNat < grant.tables.length := by
    rw [addrToPde_sub aligned, sized, tableCount]
    omega
  have entry : (addrToPde address - addrToPde virtAddr).toNat * 1024 + (addrToPte address).toNat =
      (address - virtAddr).toNat / 4096 := by
    rw [addrToPde_sub aligned, addrToPte_sub aligned]
    omega
  have pde : (grant.apply ram pagedir pageTables virtAddr privilege).pagedir (addrToPde address) =
      ⟨true, true, true, grant.tables[(addrToPde address - addrToPde virtAddr).toNat]⟩ := by
    simp only [apply, mapTables, List.getElem?_eq_getElem table]
  simp only [translate, pde, apply_tables_get nodup table, pageTableOf, entry,
    List.getElem?_eq_getElem inside]
  rfl

include aligned sized in
/-- Everywhere else the directory's own entries remain, or nothing is mapped. -/
theorem translate_apply_outside {address : BitVec 32}
    (nodup : grant.tables.Nodup)
    (kept : ∀ index, (pagedir index).present = true →
      (pagedir index).pagetableFrameNumber ∉ grant.tables)
    (outside : grant.pages.length ≤ (address - virtAddr).toNat / 4096) :
    translate (grant.apply ram pagedir pageTables virtAddr privilege).ram.tables
        (grant.apply ram pagedir pageTables virtAddr privilege).pagedir address =
      if (address - virtAddr).toNat / 4194304 < grant.tables.length then none
      else translate ram.tables pagedir address := by
  have entry : (addrToPde address - addrToPde virtAddr).toNat * 1024 + (addrToPte address).toNat =
      (address - virtAddr).toNat / 4096 := by
    rw [addrToPde_sub aligned, addrToPte_sub aligned]
    omega
  split
  next within =>
    have table : (addrToPde address - addrToPde virtAddr).toNat < grant.tables.length := by
      rwa [addrToPde_sub aligned]
    have pde : (grant.apply ram pagedir pageTables virtAddr privilege).pagedir
        (addrToPde address) =
        ⟨true, true, true, grant.tables[(addrToPde address - addrToPde virtAddr).toNat]⟩ := by
      simp only [apply, mapTables, List.getElem?_eq_getElem table]
    simp only [translate, pde, apply_tables_get nodup table, pageTableOf, entry,
      List.getElem?_eq_none outside]
    rfl
  next beyond =>
    have noTable : grant.tables.length ≤ (addrToPde address - addrToPde virtAddr).toNat := by
      rw [addrToPde_sub aligned]
      omega
    have pde : (grant.apply ram pagedir pageTables virtAddr privilege).pagedir
        (addrToPde address) = pagedir (addrToPde address) := by
      simp only [apply, mapTables, List.getElem?_eq_none noTable]
    simp only [translate, pde]
    cases present : (pagedir (addrToPde address)).present with
    | false => rfl
    | true => rw [apply_tables_of_not_mem (kept _ present)]

end Grant

theorem pageCount_lt (size : BitVec 32) : (pageCount size).toNat < 1048576 := by
  have bound := (size + 4096 - 1).isLt
  simp only [pageCount, BitVec.toNat_udiv]
  change _ / 4096 < _
  omega

theorem grant_tables_length (source : FrameSource) (frames : Frame → Bool) (size : BitVec 32) :
    (source.grant frames (pageCount size).toNat).tables.length ≤ 1024 := by
  have pages := source.pages_length frames (pageCount size).toNat
  have count := pageCount_lt size
  rw [source.tables_length, tableCount]
  omega

end Yoctos.Memory
