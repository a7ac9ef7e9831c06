import Yoctos.Tasks.Effects

/-! # What an allocation stores and what `task_free` finds

The release loop walks the entries of `page_tables` and, in each table, the
present entries. These lemmas match the walk with what `paging_alloc` stored.
-/

namespace Yoctos.Tasks

open Yoctos.Common Yoctos.Memory

/-! ## The frames a task is found to own -/

def tableFrames (task : Task) : List Frame := (storedTables task.pageTables).map addrToFrameNb

def mappedFrames (tables : Frame → PageTable) (task : Task) : List Frame :=
  (tableFrames task).flatMap fun table => presentFrames (tables table)

theorem tableFrames_congr {left right : Task} (same : left.pageTables = right.pageTables) :
    tableFrames left = tableFrames right := by
  rw [tableFrames, tableFrames, same]

theorem mappedFrames_congr {tables tables' : Frame → PageTable} {left right : Task}
    (same : left.pageTables = right.pageTables)
    (agree : ∀ table ∈ tableFrames left, tables' table = tables table) :
    mappedFrames tables' left = mappedFrames tables right := by
  rw [mappedFrames, mappedFrames, ← tableFrames_congr same]
  apply List.flatMap_congr
  intro table member
  rw [agree table member]

/-! ## After an allocation -/

theorem filterMap_getElem?_range {Value : Type u} (values : List Value) (start count : Nat) :
    ((List.range count).filterMap fun index => values[start + index]?) =
      (values.drop start).take count := by
  induction count with
  | zero => simp
  | succ count induction =>
      rw [List.range_succ, List.filterMap_append, induction, List.take_add_one]
      congr 1
      rw [List.getElem?_drop]
      cases found : values[start + count]? <;> simp [found]

private theorem flatMap_drop_take {Value : Type u} (values : List Value) (size count : Nat) :
    ((List.range count).flatMap fun index => (values.drop (index * size)).take size) =
      values.take (count * size) := by
  induction count with
  | zero => simp
  | succ count induction =>
      rw [List.range_succ, List.flatMap_append, induction, Nat.add_mul, Nat.one_mul,
        List.take_add]
      simp

private theorem presentFrames_pageTableOf (pages : List Frame) (privilege : Privilege)
    (table : Nat) :
    presentFrames (pageTableOf pages privilege table) = (pages.drop (table * 1024)).take 1024 := by
  rw [← filterMap_getElem?_range]
  unfold presentFrames
  apply List.filterMap_congr
  intro index member
  have bound : index % 2 ^ 10 = index := Nat.mod_eq_of_lt (List.mem_range.mp member)
  simp only [pageTableOf, BitVec.toNat_ofNat, bound]
  cases pages[table * 1024 + index]? <;> rfl

private theorem storedTables_apply {grant : Grant} {ram : Ram} {pagedir : PageDirectory}
    {virtAddr : BitVec 32} {privilege : Privilege} (length : grant.tables.length ≤ 1024)
    (nonzero : 0 ∉ grant.tables) :
    storedTables (grant.apply ram pagedir (fun _ => 0) virtAddr privilege).pageTables =
      grant.tables.map frameNbToAddr := by
  have entries : ((List.range 1024).map fun pt =>
      (grant.apply ram pagedir (fun _ => 0) virtAddr privilege).pageTables (BitVec.ofNat 10 pt)) =
      grant.tables.map frameNbToAddr ++ List.replicate (1024 - grant.tables.length) 0 := by
    apply List.ext_getElem
    · simp
      omega
    · intro index bound _
      have below : index < 1024 := by simpa using bound
      have same : index % 2 ^ 10 = index := Nat.mod_eq_of_lt below
      simp only [List.getElem_map, List.getElem_range, Grant.apply, BitVec.toNat_ofNat, same]
      by_cases stored : index < grant.tables.length
      · rw [List.getElem?_eq_getElem stored, List.getElem_append_left (by simpa using stored)]
        simp
      · rw [List.getElem?_eq_none (by omega), List.getElem_append_right (by simpa using stored)]
        simp
  have positive : ∀ table ∈ grant.tables.map frameNbToAddr, decide (table ≠ 0) = true := by
    intro table member
    rcases List.mem_map.mp member with ⟨frame, frameMember, rfl⟩
    have frameNonzero : frame ≠ 0 := fun zero => nonzero (zero ▸ frameMember)
    simpa using frameNbToAddr_ne_zero frameNonzero
  unfold storedTables
  rw [entries, List.takeWhile_append_of_pos positive]
  simp

theorem tableFrames_apply {grant : Grant} {ram : Ram} {pagedir : PageDirectory}
    {virtAddr : BitVec 32} {privilege : Privilege} {task : Task}
    (length : grant.tables.length ≤ 1024) (nonzero : 0 ∉ grant.tables)
    (stored : task.pageTables =
      (grant.apply ram pagedir (fun _ => 0) virtAddr privilege).pageTables) :
    tableFrames task = grant.tables := by
  rw [tableFrames, stored, storedTables_apply length nonzero, List.map_map]
  simp [Function.comp_def, addrToFrameNb_frameNbToAddr]

/-- The walk finds the pages of an allocation, in order. -/
theorem mappedFrames_apply {grant : Grant} {ram : Ram} {pagedir : PageDirectory}
    {virtAddr : BitVec 32} {privilege : Privilege} {task : Task}
    (length : grant.tables.length ≤ 1024) (nonzero : 0 ∉ grant.tables)
    (sized : grant.tables.length = tableCount grant.pages.length) (nodup : grant.tables.Nodup)
    (stored : task.pageTables =
      (grant.apply ram pagedir (fun _ => 0) virtAddr privilege).pageTables) :
    mappedFrames (grant.apply ram pagedir (fun _ => 0) virtAddr privilege).ram.tables task =
      grant.pages := by
  rw [mappedFrames, tableFrames_apply length nonzero stored]
  have shares : (grant.tables.flatMap fun table => presentFrames
      ((grant.apply ram pagedir (fun _ => 0) virtAddr privilege).ram.tables table)) =
      (List.range grant.tables.length).flatMap fun index =>
        (grant.pages.drop (index * 1024)).take 1024 := by
    rw [List.flatMap_def, List.flatMap_def]
    congr 1
    apply List.ext_getElem (by simp)
    intro index bound _
    have occurs : index < grant.tables.length := by simpa using bound
    simp only [List.getElem_map, List.getElem_range]
    rw [Grant.apply_tables_get nodup occurs, presentFrames_pageTableOf]
  rw [shares, flatMap_drop_take, List.take_of_length_le]
  rw [sized, tableCount]
  omega

theorem firstPresent_apply {grant : Grant} {ram : Ram} {pagedir : PageDirectory}
    {pageTables : BitVec 10 → BitVec 32} {virtAddr : BitVec 32} {privilege : Privilege}
    (sized : grant.tables.length = tableCount grant.pages.length) (nodup : grant.tables.Nodup)
    {table : Frame} (member : table ∈ grant.tables) :
    ((grant.apply ram pagedir pageTables virtAddr privilege).ram.tables table 0).present =
      true := by
  rcases List.getElem_of_mem member with ⟨index, occurs, rfl⟩
  rw [Grant.apply_tables_get nodup occurs]
  have page : index * 1024 < grant.pages.length := by
    rw [sized, tableCount] at occurs
    omega
  simp [pageTableOf, List.getElem?_eq_getElem page]

/-! ## The release loop -/

private theorem freeAll (release : Release) (frames : List Frame) :
    frames.foldl Release.free release =
      { release with
        ram := { release.ram with
          frames := fun frame => release.ram.frames frame && decide (frame ∉ frames) }
        freed := release.freed ++ frames } := by
  induction frames generalizing release with
  | nil => simp
  | cons head tail induction =>
      rw [List.foldl_cons, induction]
      simp only [Release.free, frameFree, addrToFrameNb_frameNbToAddr, List.append_assoc,
        List.singleton_append]
      congr 2
      funext frame
      by_cases same : frame = head
      · subst same
        simp
      · simp [same]

theorem first_mem_presentFrames {table : PageTable} (present : (table 0).present = true) :
    (table 0).frameNumber ∈ presentFrames table := by
  unfold presentFrames
  refine List.mem_filterMap.mpr ⟨0, List.mem_range.mpr (by decide), ?_⟩
  change (if (table 0).present then some (table 0).frameNumber else none) = _
  rw [if_pos present]

/-- The calls of `frame_free` for one page table: its pages, then the page of
entry 0 once more. -/
def freedOf (table : PageTable) : List Frame := presentFrames table ++ [(table 0).frameNumber]

/-- What the loop has done after the tables at `pointers`. -/
structure Released (before : Release) (pointers : List (BitVec 32)) (after : Release) : Prop where
  freed : after.freed = before.freed ++
    pointers.flatMap fun pointer => freedOf (before.ram.tables (addrToFrameNb pointer))
  frames : ∀ frame, after.ram.frames frame =
    (before.ram.frames frame && decide (frame ∉ pointers.flatMap fun pointer =>
      freedOf (before.ram.tables (addrToFrameNb pointer))))
  tables : ∀ frame, frame ∉ pointers.map addrToFrameNb →
    after.ram.tables frame = before.ram.tables frame
  bytes : after.ram.bytes = before.ram.bytes

private theorem released_pageTable {release : Release} {pointer : BitVec 32}
    (present : (release.ram.tables (addrToFrameNb pointer) 0).present = true) :
    Released release [pointer] (release.pageTable pointer) := by
  rw [Release.pageTable, if_pos present, freeAll]
  constructor
  · simp [Release.free, freedOf]
  · intro frame
    simp only [Release.free, frameFree, addrToFrameNb_frameNbToAddr, List.flatMap_singleton,
      freedOf]
    by_cases first : frame = (release.ram.tables (addrToFrameNb pointer) 0).frameNumber
    · subst first
      simp
    · rw [Function.update_of_ne first]
      simp only [List.mem_append, List.mem_singleton, first, or_false]
  · intro frame other
    have different : frame ≠ addrToFrameNb pointer := by simpa using other
    simp [Release.free, Function.update_of_ne different]
  · rfl

theorem released_foldl {pointers : List (BitVec 32)} {release : Release}
    (nodup : (pointers.map addrToFrameNb).Nodup)
    (present : ∀ pointer ∈ pointers,
      (release.ram.tables (addrToFrameNb pointer) 0).present = true) :
    Released release pointers (pointers.foldl Release.pageTable release) := by
  induction pointers generalizing release with
  | nil => exact ⟨by simp, by simp, by simp, rfl⟩
  | cons pointer rest induction =>
      rw [List.map_cons, List.nodup_cons] at nodup
      have first := released_pageTable (present pointer (List.mem_cons_self ..))
      have same : ∀ other ∈ rest, (release.pageTable pointer).ram.tables (addrToFrameNb other) =
          release.ram.tables (addrToFrameNb other) := by
        intro other member
        apply first.tables
        rw [List.map_singleton, List.mem_singleton]
        intro equal
        exact nodup.1 (equal ▸ List.mem_map_of_mem member)
      have later := induction nodup.2 (fun other member => by
        rw [same other member]
        exact present other (List.mem_cons_of_mem _ member))
      have shares : (rest.flatMap fun other =>
          freedOf ((release.pageTable pointer).ram.tables (addrToFrameNb other))) =
          rest.flatMap fun other => freedOf (release.ram.tables (addrToFrameNb other)) :=
        List.flatMap_congr fun other member => by rw [same other member]
      constructor
      · rw [List.foldl_cons, later.freed, first.freed, shares]
        simp
      · intro frame
        rw [List.foldl_cons, later.frames, first.frames, shares]
        simp [not_or, Bool.and_assoc]
      · intro frame other
        rw [List.map_cons, List.mem_cons, not_or] at other
        rw [List.foldl_cons, later.tables frame other.2]
        exact first.tables frame (by simpa using other.1)
      · rw [List.foldl_cons, later.bytes, first.bytes]

end Yoctos.Tasks
