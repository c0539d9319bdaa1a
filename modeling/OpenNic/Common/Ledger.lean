import Mathlib.Data.List.Nodup
import Mathlib.Data.List.Basic
import Mathlib.Data.List.Pairwise
import Mathlib.Logic.Function.Basic

namespace OpenNic

/-- Where everything is that has been allocated: allocations are numbered from 0 on; each has been
    freed, is in the hands of the code, belongs to a slot, or is lost. -/
structure Ledger (ι : Type) where
  next : Nat
  freed : List Nat
  hand : List Nat
  own : ι → List Nat
  lost : List Nat

namespace Ledger

variable {ι : Type} {slots : List ι}

/-- Each allocation is in one place. -/
def Balanced (slots : List ι) (L : Ledger ι) : Prop :=
  (L.freed ++ (L.hand ++ (slots.flatMap L.own ++ L.lost))).Perm (List.range L.next)

theorem flatMap_update [DecidableEq ι] (nodup : slots.Nodup) {i : ι} (here : i ∈ slots) (own : ι → List Nat)
    (x : List Nat) : (slots.flatMap (Function.update own i x) ++ own i).Perm (slots.flatMap own ++ x) := by
  induction slots with
  | nil => cases here
  | cons j rest ih =>
    rcases List.nodup_cons.mp nodup with ⟨away, nodup⟩
    rw [List.flatMap_cons, List.flatMap_cons]
    by_cases same : i = j
    · subst same
      have others : rest.flatMap (Function.update own i x) = rest.flatMap own := by
        apply List.flatMap_congr
        intro k mem
        have other : k ≠ i := fun same => away (same ▸ mem)
        rw [Function.update_of_ne other]
      rw [others, Function.update_self, List.perm_iff_count]
      intro a
      simp only [List.count_append]
      omega
    · have inRest : i ∈ rest := (List.mem_cons.mp here).resolve_left same
      have tail := ih nodup inRest
      rw [Function.update_of_ne (Ne.symm same)]
      rw [List.perm_iff_count] at tail ⊢
      intro a
      have counts := tail a
      simp only [List.count_append] at counts ⊢
      omega

namespace Balanced

variable {L : Ledger ι} (balanced : L.Balanced slots)
include balanced

theorem nodup : (L.freed ++ (L.hand ++ (slots.flatMap L.own ++ L.lost))).Nodup :=
  (List.Perm.nodup_iff balanced).mpr List.nodup_range

theorem hand_not_freed {m : Nat} (mem : m ∈ L.hand) : m ∉ L.freed :=
  fun freed => (List.nodup_append.mp balanced.nodup).2.2 m freed m (List.mem_append_left _ mem) rfl

theorem own_not_freed {i : ι} (slot : i ∈ slots) {m : Nat} (mem : m ∈ L.own i) : m ∉ L.freed := by
  intro freed
  have owned : m ∈ slots.flatMap L.own := List.mem_flatMap.mpr ⟨i, slot, mem⟩
  have rest := List.mem_append_right L.hand (List.mem_append_left L.lost owned)
  exact (List.nodup_append.mp balanced.nodup).2.2 m freed m rest rfl

theorem own_not_hand {i : ι} (slot : i ∈ slots) {m : Nat} (mem : m ∈ L.own i) : m ∉ L.hand := by
  intro hand
  have owned : m ∈ slots.flatMap L.own := List.mem_flatMap.mpr ⟨i, slot, mem⟩
  have rest := balanced.nodup.of_append_right
  exact (List.nodup_append.mp rest).2.2 m hand m (List.mem_append_left _ owned) rfl

/-- No two slots share an allocation. -/
theorem own_apart {i j : ι} (one : i ∈ slots) (two : j ∈ slots) {m : Nat} (first : m ∈ L.own i) (second : m ∈ L.own j) :
    i = j := by
  have owned := (balanced.nodup.of_append_right.of_append_right).of_append_left
  have apart := (List.nodup_flatMap.mp owned).2
  by_contra different
  have symm : Std.Symm (Function.onFun List.Disjoint L.own) := ⟨fun _ _ disjoint _ right left => disjoint left right⟩
  exact apart.forall one two different first second

theorem lt_next {m : Nat} (mem : m ∈ L.freed ++ (L.hand ++ (slots.flatMap L.own ++ L.lost))) : m < L.next :=
  List.mem_range.mp ((List.Perm.mem_iff balanced).mp mem)

theorem own_lt {i : ι} (slot : i ∈ slots) {m : Nat} (mem : m ∈ L.own i) : m < L.next := by
  have owned : m ∈ slots.flatMap L.own := List.mem_flatMap.mpr ⟨i, slot, mem⟩
  exact balanced.lt_next (List.mem_append_right _ (List.mem_append_right _ (List.mem_append_left _ owned)))

/-- The accounts are kept up to the order in the code's hands. -/
theorem hand_perm {hand : List Nat} (same : hand.Perm L.hand) : ({ L with hand := hand } : Ledger ι).Balanced slots :=
  ((same.append_right _).append_left _).trans balanced

theorem alloc : ({ L with next := L.next + 1, hand := L.hand ++ [L.next] } : Ledger ι).Balanced slots := by
  unfold Balanced at balanced ⊢
  rw [List.range_succ]
  rw [List.perm_iff_count] at balanced ⊢
  intro a
  have counts := balanced a
  simp only [List.count_append] at counts ⊢
  omega

theorem free {m : Nat} {rest : List Nat} (first : L.hand = m :: rest) :
    ({ L with freed := L.freed ++ [m], hand := rest } : Ledger ι).Balanced slots := by
  unfold Balanced at balanced ⊢
  rw [first] at balanced
  rw [List.perm_iff_count] at balanced ⊢
  intro a
  have counts := balanced a
  simp only [List.count_append, List.count_cons, List.count_nil] at counts ⊢
  omega

variable [DecidableEq ι] (nodup : slots.Nodup)
include nodup

/-- What is in hand goes to a slot; what the slot had is lost. -/
theorem give {i : ι} (slot : i ∈ slots) {x rest : List Nat} (parts : L.hand.Perm (x ++ rest)) :
    ({ L with hand := rest, own := Function.update L.own i x, lost := L.lost ++ L.own i } : Ledger ι).Balanced slots := by
  have moved := flatMap_update nodup slot L.own x
  unfold Balanced at balanced ⊢
  rw [List.perm_iff_count] at balanced moved parts ⊢
  intro a
  have counts := balanced a
  have there := moved a
  have inHand := parts a
  simp only [List.count_append] at counts there inHand ⊢
  omega

/-- What a slot has comes into the hands of the code. -/
theorem take {i : ι} (slot : i ∈ slots) :
    ({ L with hand := L.own i ++ L.hand, own := Function.update L.own i [] } : Ledger ι).Balanced slots := by
  have moved := flatMap_update nodup slot L.own []
  unfold Balanced at balanced ⊢
  rw [List.perm_iff_count] at balanced moved ⊢
  intro a
  have counts := balanced a
  have there := moved a
  simp only [List.count_append, List.count_nil] at counts there ⊢
  omega

end Balanced

end Ledger

end OpenNic
