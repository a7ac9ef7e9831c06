import Mathlib.Data.Set.Basic
import Mathlib.Data.List.Infix

/-! # Ledgers of nested owners

Resources are acquired by owners that live on a stack. An owner's release gives
back one part of its share and leaves the other taken for good. The laws say
what a balanced history has done to the set of taken resources.
-/

namespace Yoctos.Ledger

/-- What one owner acquires: the part its release gives back, and the rest. -/
structure Share (Resource : Type u) where
  returned : List Resource
  kept : List Resource

structure Account (Resource : Type u) where
  taken : Set Resource
  shares : List (Share Resource)

variable {Resource : Type u}

def Share.all (share : Share Resource) : List Resource := share.returned ++ share.kept

/-- One step of a history, with the resources it takes for good. -/
inductive Move : Account Resource → List Resource → Account Resource → Prop
  | idle {account : Account Resource} : Move account [] account
  | acquire {account : Account Resource} {share : Share Resource} (distinct : share.all.Nodup)
      (fresh : ∀ resource ∈ share.all, resource ∉ account.taken) :
      Move account share.kept
        ⟨account.taken ∪ {resource | resource ∈ share.all}, share :: account.shares⟩
  | release {taken : Set Resource} {share : Share Resource} {rest : List (Share Resource)} :
      Move ⟨taken, share :: rest⟩ [] ⟨taken \ {resource | resource ∈ share.returned}, rest⟩

inductive Moves (lower : List (Share Resource)) :
    Account Resource → List Resource → Account Resource → Prop
  | nil {account : Account Resource} (below : lower <:+ account.shares) :
      Moves lower account [] account
  | cons {before middle after : Account Resource} {kept more : List Resource}
      (below : lower <:+ before.shares) (move : Move before kept middle)
      (rest : Moves lower middle more after) : Moves lower before (kept ++ more) after

namespace Account

/-- No resource is in two places, and what an owner holds is taken. -/
structure Sound (account : Account Resource) : Prop where
  distinct : (account.shares.flatMap Share.all).Nodup
  held : ∀ share ∈ account.shares, ∀ resource ∈ share.all, resource ∈ account.taken

def retained (account : Account Resource) : Set Resource :=
  {resource | resource ∈ account.taken ∧ ∀ share ∈ account.shares, resource ∉ share.returned}

def returnable (shares : List (Share Resource)) : Set Resource :=
  {resource | ∃ share ∈ shares, resource ∈ share.returned}

theorem Sound.returned_taken {account : Account Resource} (sound : account.Sound)
    {share : Share Resource} (member : share ∈ account.shares) {resource : Resource}
    (returned : resource ∈ share.returned) : resource ∈ account.taken :=
  sound.held share member resource (List.mem_append_left _ returned)

theorem Sound.taken_eq {account : Account Resource} (sound : account.Sound) :
    account.taken = account.retained ∪ returnable account.shares := by
  ext resource
  constructor
  · intro taken
    by_cases returned : resource ∈ returnable account.shares
    · exact .inr returned
    · exact .inl ⟨taken, fun share member inShare => returned ⟨share, member, inShare⟩⟩
  · rintro (retained | ⟨share, member, returned⟩)
    · exact retained.1
    · exact sound.returned_taken member returned

end Account

open Account

variable {before after : Account Resource} {kept : List Resource}

theorem Move.sound (move : Move before kept after) (sound : before.Sound) : after.Sound := by
  cases move with
  | idle => exact sound
  | acquire distinct fresh =>
      constructor
      · rw [List.flatMap_cons, List.nodup_append]
        refine ⟨distinct, sound.distinct, fun left leftMember right rightMember equal => ?_⟩
        subst equal
        rcases List.mem_flatMap.mp rightMember with ⟨share, member, inShare⟩
        exact fresh _ leftMember (sound.held share member _ inShare)
      · intro share member resource inShare
        rcases List.mem_cons.mp member with rfl | member
        · exact .inr inShare
        · exact .inl (sound.held share member resource inShare)
  | release =>
      have distinct := sound.distinct
      rw [List.flatMap_cons, List.nodup_append] at distinct
      constructor
      · exact distinct.2.1
      · intro other member resource inShare
        refine ⟨sound.held other (List.mem_cons_of_mem _ member) resource inShare,
          fun returned => ?_⟩
        exact distinct.2.2 resource (List.mem_append_left _ returned) resource
          (List.mem_flatMap.mpr ⟨other, member, inShare⟩) rfl

theorem Move.retained_eq (move : Move before kept after) (sound : before.Sound) :
    after.retained = before.retained ∪ {resource | resource ∈ kept} := by
  cases move with
  | idle => simp
  | @acquire _ share distinct fresh =>
      ext resource
      constructor
      · rintro ⟨taken | acquired, notReturned⟩
        · exact .inl ⟨taken, fun other member =>
            notReturned other (List.mem_cons_of_mem _ member)⟩
        · rcases List.mem_append.mp acquired with returned | kept
          · exact absurd returned (notReturned share (List.mem_cons_self ..))
          · exact .inr kept
      · rintro (⟨taken, notReturned⟩ | kept)
        · refine ⟨.inl taken, fun other member returned => ?_⟩
          rcases List.mem_cons.mp member with rfl | member
          · exact fresh resource (List.mem_append_left _ returned) taken
          · exact notReturned other member returned
        · refine ⟨.inr (List.mem_append_right _ kept), fun other member returned => ?_⟩
          rcases List.mem_cons.mp member with rfl | member
          · exact (List.nodup_append.mp distinct).2.2 resource returned resource kept rfl
          · exact fresh resource (List.mem_append_right _ kept)
              (sound.returned_taken member returned)
  | @release taken share rest =>
      ext resource
      constructor
      · rintro ⟨⟨inTaken, notReturned⟩, others⟩
        exact .inl ⟨inTaken, List.forall_mem_cons.mpr ⟨notReturned, others⟩⟩
      · rintro (⟨inTaken, notReturned⟩ | kept)
        · rcases List.forall_mem_cons.mp notReturned with ⟨own, others⟩
          exact ⟨⟨inTaken, own⟩, others⟩
        · cases kept

theorem Move.kept_fresh (move : Move before kept after) (sound : before.Sound) {resource : Resource}
    (member : resource ∈ kept) : resource ∉ before.taken := by
  cases move with
  | idle => cases member
  | acquire distinct fresh => exact fresh resource (List.mem_append_right _ member)
  | release => cases member

variable {lower : List (Share Resource)}

theorem Move.suffix (move : Move before kept after) (below : lower <:+ before.shares)
    (high : lower.length ≤ after.shares.length) : lower <:+ after.shares := by
  cases move with
  | idle => exact below
  | acquire distinct fresh => exact below.trans (List.suffix_cons _ _)
  | release =>
      rcases List.suffix_cons_iff.mp below with whole | rest
      · rw [whole] at high
        exact absurd high (Nat.not_succ_le_self _)
      · exact rest

theorem Moves.suffix (moves : Moves lower before kept after) : lower <:+ after.shares := by
  induction moves with
  | nil below => exact below
  | cons _ _ _ induction => exact induction

theorem Moves.sound (moves : Moves lower before kept after) (sound : before.Sound) :
    after.Sound := by
  induction moves with
  | nil _ => exact sound
  | cons _ move _ induction => exact induction (move.sound sound)

theorem Moves.retained_eq (moves : Moves lower before kept after) (sound : before.Sound) :
    after.retained = before.retained ∪ {resource | resource ∈ kept} := by
  induction moves with
  | nil _ => simp
  | cons _ move _ induction =>
      rw [induction (move.sound sound), move.retained_eq sound, Set.union_assoc]
      congr 1
      ext resource
      simp

/-- When the same owners live before and after, what was taken for good is all
that has changed. -/
theorem Moves.balance (moves : Moves lower before kept after) (sound : before.Sound)
    (same : after.shares = before.shares) :
    after.taken = before.taken ∪ {resource | resource ∈ kept} := by
  rw [(moves.sound sound).taken_eq, moves.retained_eq sound, sound.taken_eq, same,
    Set.union_right_comm]

theorem Moves.kept_outside (moves : Moves lower before kept after) (sound : before.Sound)
    {resource : Resource} (member : resource ∈ kept) :
    resource ∉ before.retained ∧ resource ∉ returnable lower := by
  induction moves with
  | nil _ => cases member
  | cons below move _ induction =>
      rcases List.mem_append.mp member with now | later
      · have fresh := move.kept_fresh sound now
        refine ⟨fun retained => fresh retained.1, ?_⟩
        rintro ⟨share, inLower, returned⟩
        exact fresh (sound.returned_taken (below.subset inLower) returned)
      · have result := induction (move.sound sound) later
        rw [move.retained_eq sound] at result
        exact ⟨fun retained => result.1 (.inl retained), result.2⟩

theorem Moves.kept_fresh (moves : Moves before.shares before kept after) (sound : before.Sound)
    {resource : Resource} (member : resource ∈ kept) : resource ∉ before.taken := by
  have outside := moves.kept_outside sound member
  rw [sound.taken_eq]
  rintro (retained | returned)
  · exact outside.1 retained
  · exact outside.2 returned

/-- A balanced history conserves the taken resources exactly when it took none
for good. -/
theorem Moves.conserves_iff (moves : Moves before.shares before kept after) (sound : before.Sound)
    (same : after.shares = before.shares) : after.taken = before.taken ↔ kept = [] := by
  rw [moves.balance sound same]
  constructor
  · intro unchanged
    apply List.eq_nil_iff_forall_not_mem.mpr
    intro resource member
    apply moves.kept_fresh sound member
    rw [← unchanged]
    exact .inr member
  · rintro rfl
    simp

end Yoctos.Ledger
