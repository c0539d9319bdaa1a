import Mathlib.Data.Nat.ModEq
import Mathlib.Data.List.Basic
import Mathlib.Data.List.Nodup
import Mathlib.Logic.Function.Basic

namespace OpenNic.Cyclic

/-- How far `b` lies behind `a` on a cycle of `R` slots. -/
def dist (R a b : Nat) : Nat := (b + R - a) % R

/-- The slots from `a` up to `b`, without `b`. -/
def Between (R a b i : Nat) : Prop := dist R a i < dist R a b

def slotsBetween (R a b : Nat) : List Nat := (List.range (dist R a b)).map fun i => (a + i) % R

variable {R lo hi m n i : Nat}

/-- Positions of one window of `R` are told apart by their slots. -/
theorem mod_inj (low : lo ≤ m) (high : m < lo + R) (low' : lo ≤ n) (high' : n < lo + R)
    (same : m % R = n % R) : m = n := by
  have congruent : m ≡ n [MOD R] := same
  rcases Nat.le_total m n with le | le
  · have divides := (Nat.modEq_iff_dvd' le).mp congruent
    have none := Nat.eq_zero_of_dvd_of_lt divides (by omega)
    omega
  · have divides := (Nat.modEq_iff_dvd' le).mp congruent.symm
    have none := Nat.eq_zero_of_dvd_of_lt divides (by omega)
    omega

theorem dist_of_lt {a b : Nat} (first : a < R) (second : b < R) :
    dist R a b = if b < a then b + R - a else b - a := by
  rw [dist]
  split
  · exact Nat.mod_eq_of_lt (by omega)
  · rw [show b + R - a = b - a + R by omega, Nat.add_mod_right, Nat.mod_eq_of_lt (by omega)]

theorem dist_add {a : Nat} (first : a < R) (b n : Nat) : dist R a ((b + n) % R) = (dist R a b + n) % R := by
  rw [dist, dist, Nat.mod_add_mod, Nat.add_sub_assoc (by omega), Nat.add_sub_assoc (by omega), Nat.mod_add_mod]
  congr 1
  omega

theorem dist_mod (ordered : lo ≤ hi) (room : hi < lo + R) : dist R (lo % R) (hi % R) = hi - lo := by
  have small : lo % R < R := Nat.mod_lt _ (by omega)
  have later : hi % R = (lo % R + (hi - lo)) % R := by
    rw [Nat.mod_add_mod, Nat.add_sub_cancel' ordered]
  rw [dist, later]
  by_cases wraps : lo % R + (hi - lo) < R
  · rw [Nat.mod_eq_of_lt wraps, show lo % R + (hi - lo) + R - lo % R = hi - lo + R by omega,
      Nat.add_mod_right, Nat.mod_eq_of_lt (by omega)]
  · have once : (lo % R + (hi - lo)) % R = lo % R + (hi - lo) - R := by
      rw [Nat.mod_eq_sub_mod (by omega), Nat.mod_eq_of_lt (by omega)]
    rw [once, show lo % R + (hi - lo) - R + R - lo % R = hi - lo by omega, Nat.mod_eq_of_lt (by omega)]

theorem add_dist (small : i < R) : (lo + dist R (lo % R) i) % R = i := by
  have low : lo % R < R := Nat.mod_lt _ (by omega)
  rw [dist, Nat.add_mod, Nat.mod_mod, ← Nat.add_mod, ← Nat.mod_add_mod,
    show lo % R + (i + R - lo % R) = i + R by omega, Nat.add_mod_right, Nat.mod_eq_of_lt small]

theorem full_iff (ordered : lo ≤ n) (room : n < lo + R) :
    (n % R + 1) % R = lo % R ↔ n + 1 = lo + R := by
  rw [Nat.mod_add_mod]
  constructor
  · intro same
    rw [← Nat.add_mod_right lo R] at same
    exact mod_inj (show lo + 1 ≤ n + 1 by omega) (by omega) (show lo + 1 ≤ lo + R by omega) (by omega) same
  · intro full
    rw [full, Nat.add_mod_right]

theorem between_iff (ordered : lo ≤ hi) (room : hi < lo + R) (small : i < R) :
    Between R (lo % R) (hi % R) i ↔ ∃ n, lo ≤ n ∧ n < hi ∧ n % R = i := by
  rw [Between, dist_mod ordered room]
  constructor
  · intro near
    exact ⟨lo + dist R (lo % R) i, Nat.le_add_right _ _, by omega, add_dist small⟩
  · rintro ⟨n, low, high, rfl⟩
    rw [dist_mod low (by omega)]
    omega

theorem slotsBetween_mod (ordered : lo ≤ hi) (room : hi < lo + R) :
    slotsBetween R (lo % R) (hi % R) = (List.range (hi - lo)).map fun i => (lo + i) % R := by
  rw [slotsBetween, dist_mod ordered room]
  exact List.map_congr_left fun i _ => Nat.mod_add_mod lo R i

/-- A log of all entries ever put into a cycle of slots; those from `first` on are still
    held, and no slot holds anything else. -/
structure Slots {β : Type} (slots : Nat → Option β) (log : List β) (R first : Nat) : Prop where
  first_le : first ≤ log.length
  room : log.length < first + R
  held : ∀ n (h : n < log.length), first ≤ n → slots (n % R) = some log[n]
  free : ∀ i, (∀ n, first ≤ n → n < log.length → n % R ≠ i) → slots i = none

namespace Slots

variable {β : Type} {slots : Nat → Option β} {log : List β} {first : Nat}

theorem back (h : Slots slots log R first) : slots (log.length % R) = none := by
  refine h.free _ fun n low high same => ?_
  have here := mod_inj low (by have := h.room; omega) h.first_le h.room same
  omega

theorem front (h : Slots slots log R first) (more : first < log.length) :
    slots (first % R) = some log[first] := h.held first more (Nat.le_refl first)

theorem push (h : Slots slots log R first) (b : β) (room : log.length + 1 < first + R) :
    Slots (Function.update slots (log.length % R) (some b)) (log ++ [b]) R first where
  first_le := by
    have := h.first_le
    simp
    omega
  room := by simpa using room
  held n less low := by
    rw [List.length_append, List.length_singleton] at less
    by_cases old : n < log.length
    · have other : n % R ≠ log.length % R := by
        intro same
        have here := mod_inj low (by omega) h.first_le h.room same
        omega
      rw [Function.update_of_ne other, h.held n old low, List.getElem_append_left old]
    · have last : n = log.length := by omega
      subst last
      simp
  free i none := by
    have other : i ≠ log.length % R := fun is =>
      none log.length h.first_le (by simp) is.symm
    rw [Function.update_of_ne other]
    exact h.free i fun n low high => none n low (by simp; omega)

theorem pop (h : Slots slots log R first) (more : first < log.length) :
    Slots (Function.update slots (first % R) none) log R (first + 1) where
  first_le := more
  room := by
    have := h.room
    omega
  held n less low := by
    have other : n % R ≠ first % R := by
      intro same
      have room := h.room
      have here := mod_inj (show first ≤ n by omega) (by omega) (Nat.le_refl first) (by omega) same
      omega
    rw [Function.update_of_ne other]
    exact h.held n less (by omega)
  free i none := by
    by_cases here : i = first % R
    · rw [here, Function.update_self]
    · rw [Function.update_of_ne here]
      refine h.free i fun n low high same => ?_
      have : n ≠ first := by
        rintro rfl
        exact here same.symm
      exact none n (by omega) high same

theorem eq_some_iff (h : Slots slots log R first) {b : β} :
    slots i = some b ↔ ∃ n, ∃ less : n < log.length, first ≤ n ∧ n % R = i ∧ log[n] = b := by
  constructor
  · intro here
    by_contra absent
    have empty : slots i = none := h.free i fun n low high same => by
      have there := h.held n high low
      rw [same, here] at there
      exact absent ⟨n, high, low, same, (Option.some.inj there).symm⟩
    rw [empty] at here
    cases here
  · rintro ⟨n, less, low, rfl, rfl⟩
    exact h.held n less low

theorem isSome_iff (h : Slots slots log R first) (small : i < R) :
    (slots i).isSome = true ↔ Between R (first % R) (log.length % R) i := by
  rw [between_iff h.first_le h.room small]
  constructor
  · intro some
    by_contra absent
    have none := h.free i fun n low high is => absent ⟨n, low, high, is⟩
    rw [none] at some
    cases some
  · rintro ⟨n, low, high, rfl⟩
    rw [h.held n high low]
    rfl

theorem empty (h : Slots slots log R log.length) (i : Nat) : slots i = none :=
  h.free i fun _ low high => absurd low (Nat.not_le.mpr high)

theorem filterMap_range_update {b : β} (small : i < R) (here : slots i = some b) :
    ((List.range R).filterMap slots).Perm
      (b :: (List.range R).filterMap (Function.update slots i none)) := by
  have member : i ∈ List.range R := List.mem_range.mpr small
  have split := List.perm_cons_erase member
  have others : ((List.range R).erase i).filterMap (Function.update slots i none) =
      ((List.range R).erase i).filterMap slots := by
    apply List.filterMap_congr
    intro j mem
    have other : j ≠ i := fun same => List.nodup_range.not_mem_erase (same ▸ mem)
    rw [Function.update_of_ne other]
  have before := split.filterMap slots
  have after := split.filterMap (Function.update slots i none)
  rw [List.filterMap_cons, here] at before
  rw [List.filterMap_cons, Function.update_self, others] at after
  exact before.trans (after.symm.cons b)

theorem filterMap_range_split (f : Nat → Option β) (small : i < R) :
    ((List.range R).filterMap f).Perm ((f i).toList ++ (List.range R).filterMap (Function.update f i none)) := by
  cases here : f i with
  | none =>
    have same : Function.update f i none = f := by
      rw [← here]
      exact Function.update_eq_self i f
    rw [same]
    exact .refl _
  | some b => exact filterMap_range_update small here

/-- One slot is written; what it held and what it gets make the difference. -/
theorem filterMap_range_swap {f g : Nat → Option β} (small : i < R) (others : ∀ j, j ≠ i → g j = f j) :
    ((List.range R).filterMap g ++ (f i).toList).Perm ((List.range R).filterMap f ++ (g i).toList) := by
  have same : Function.update g i none = Function.update f i none := by
    funext j
    by_cases here : j = i
    · rw [here, Function.update_self, Function.update_self]
    · rw [Function.update_of_ne here, Function.update_of_ne here, others j here]
  have before := filterMap_range_split f small
  have after := filterMap_range_split g small
  rw [same] at after
  have turn (x y base : List β) : (y ++ base ++ x).Perm (x ++ base ++ y) := by
    rw [List.append_assoc]
    exact List.perm_append_comm.trans (List.perm_append_comm.append_right y)
  exact (after.append_right _).trans ((turn _ _ _).trans (before.append_right _).symm)

/-- What the slots hold is what was put in last; the induction is on how much that is. -/
theorem filterMap_range_perm (h : Slots slots log R first) :
    ((List.range R).filterMap slots).Perm (log.drop first) := by
  induction left : log.length - first generalizing slots first with
  | zero =>
    have all : first = log.length := by
      have := h.first_le
      omega
    subst all
    have nothing : (List.range R).filterMap slots = [] :=
      List.filterMap_eq_nil_iff.mpr fun i _ => h.empty i
    rw [nothing, List.drop_length]
  | succ left ih =>
    have more : first < log.length := by omega
    have small : first % R < R := Nat.mod_lt _ (by have := h.room; omega)
    rw [List.drop_eq_getElem_cons more]
    exact (filterMap_range_update small (h.front more)).trans ((ih (h.pop more) (by omega)).cons _)

end Slots

end OpenNic.Cyclic
