import Yoctos.Memory.Paging

/-! # The first-fit frame source

`frame_alloc` hands out the lowest free frame, and `paging_alloc` asks for a
page first and then, when no page table covers it yet, for the table.
-/

namespace Yoctos.Memory

def freeFrom (frames : Frame → Bool) (start : Nat) : (fuel : Nat) → List Frame
  | 0 => []
  | fuel + 1 =>
      if frames (BitVec.ofNat 20 start) then freeFrom frames (start + 1) fuel
      else BitVec.ofNat 20 start :: freeFrom frames (start + 1) fuel

/-- Deal free frames to the pages from number `page` on and to their tables. -/
def deal (page : Nat) (free : List Frame) : (count : Nat) → Grant
  | 0 => ⟨[], []⟩
  | count + 1 =>
      match decide (page % 1024 = 0), free with
      | true, frame :: table :: rest =>
          let later := deal (page + 1) rest count
          ⟨frame :: later.pages, table :: later.tables⟩
      | false, frame :: rest =>
          let later := deal (page + 1) rest count
          ⟨frame :: later.pages, later.tables⟩
      | _, _ => ⟨[], []⟩

private theorem mem_freeFrom {frames : Frame → Bool} {start fuel : Nat} {frame : Frame}
    (fits : start + fuel ≤ 2 ^ 20) (member : frame ∈ freeFrom frames start fuel) :
    start ≤ frame.toNat ∧ frames frame = false := by
  induction fuel generalizing start with
  | zero => cases member
  | succ fuel induction =>
      rw [freeFrom] at member
      split at member
      next =>
        have later := induction (by omega) member
        exact ⟨by omega, later.2⟩
      next free =>
        rcases List.mem_cons.mp member with rfl | member
        · refine ⟨?_, by simpa using free⟩
          rw [BitVec.toNat_ofNat]
          omega
        · have later := induction (by omega) member
          exact ⟨by omega, later.2⟩

private theorem nodup_freeFrom {frames : Frame → Bool} {start fuel : Nat}
    (fits : start + fuel ≤ 2 ^ 20) :
    (freeFrom frames start fuel).Nodup := by
  induction fuel generalizing start with
  | zero => exact List.nodup_nil
  | succ fuel induction =>
      rw [freeFrom]
      split
      next => exact induction (by omega)
      next =>
        refine List.nodup_cons.mpr ⟨fun member => ?_, induction (by omega)⟩
        have later := (mem_freeFrom (by omega) member).1
        rw [BitVec.toNat_ofNat] at later
        omega

private theorem deal_subperm (page : Nat) (free : List Frame) (count : Nat) :
    List.Subperm (deal page free count).all free := by
  fun_induction deal page free count with
  | case1 => exact List.nil_subperm
  | case2 page count frame table rest boundary later induction =>
      have swapped : List.Perm (Grant.all ⟨frame :: later.pages, table :: later.tables⟩)
          (frame :: table :: later.all) := List.Perm.cons frame List.perm_middle
      exact swapped.subperm.trans
        ((List.subperm_cons frame).mpr ((List.subperm_cons table).mpr induction))
  | case3 page count frame rest inside later induction =>
      exact (List.subperm_cons frame).mpr induction
  | case4 => exact List.nil_subperm

private theorem deal_pages_length (page : Nat) (free : List Frame) (count : Nat) :
    (deal page free count).pages.length ≤ count := by
  fun_induction deal page free count with
  | case1 => exact Nat.le_refl _
  | case2 page count frame table rest boundary later induction => exact Nat.succ_le_succ induction
  | case3 page count frame rest inside later induction => exact Nat.succ_le_succ induction
  | case4 => exact Nat.zero_le _

private theorem deal_tables_length (page : Nat) (free : List Frame) (count : Nat) :
    tableCount page + (deal page free count).tables.length =
      tableCount (page + (deal page free count).pages.length) := by
  fun_induction deal page free count with
  | case1 => rfl
  | case2 page count frame table rest boundary later induction =>
      have multiple : page % 1024 = 0 := of_decide_eq_true boundary
      have rest : tableCount (page + 1) + later.tables.length =
          tableCount (page + 1 + later.pages.length) := induction
      simp only [tableCount, List.length_cons] at rest ⊢
      omega
  | case3 page count frame rest inside later induction =>
      have between : page % 1024 ≠ 0 := of_decide_eq_false inside
      have rest : tableCount (page + 1) + later.tables.length =
          tableCount (page + 1 + later.pages.length) := induction
      simp only [tableCount, List.length_cons] at rest ⊢
      omega
  | case4 => rfl

/-- The frames `paging_alloc` takes when it finds `frames` allocated. Those below
`start` are never free. -/
def firstFitGrant (start : Frame) (frames : Frame → Bool) (count : Nat) : Grant :=
  deal 0 (freeFrom frames start.toNat (1048576 - start.toNat)) count

private theorem firstFitGrant_nodup (start : Frame) (frames : Frame → Bool) (count : Nat) :
    (firstFitGrant start frames count).all.Nodup := by
  have bound := start.isLt
  rcases deal_subperm 0 (freeFrom frames start.toNat (1048576 - start.toNat)) count with
    ⟨dealt, perm, sublist⟩
  exact perm.nodup_iff.mp (sublist.nodup (nodup_freeFrom (by omega)))

private theorem firstFitGrant_fresh (start : Frame) (frames : Frame → Bool) (count : Nat)
    {frame : Frame}
    (member : frame ∈ (firstFitGrant start frames count).all) : frames frame = false := by
  have bound := start.isLt
  exact (mem_freeFrom (by omega) ((deal_subperm 0 _ count).subset member)).2

def firstFit (start : Frame) : FrameSource where
  grant := firstFitGrant start
  nodup := firstFitGrant_nodup start
  fresh frames count _ member := firstFitGrant_fresh start frames count member
  pages_length frames count := deal_pages_length 0 _ count
  tables_length frames count := by
    have length := deal_tables_length 0 (freeFrom frames start.toNat (1048576 - start.toNat)) count
    rw [Nat.zero_add] at length
    exact (Nat.zero_add _).symm.trans length

end Yoctos.Memory
