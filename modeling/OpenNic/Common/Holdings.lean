import Mathlib.Data.List.Nodup
import Mathlib.Logic.Function.Basic

namespace OpenNic

/-- Which resources are held, and which were acquired while they were held or released while
    they were not. -/
@[ext] structure Holdings (K : Type) where
  held : K → Bool
  misused : List K

namespace Holdings

variable {K : Type} [DecidableEq K] {h h' : Holdings K} {k : K} {l l' : List K}

def none : Holdings K := ⟨fun _ => false, []⟩

def acquire (h : Holdings K) (k : K) : Holdings K where
  held := Function.update h.held k true
  misused := if h.held k then h.misused ++ [k] else h.misused

def release (h : Holdings K) (k : K) : Holdings K where
  held := Function.update h.held k false
  misused := if h.held k then h.misused else h.misused ++ [k]

/-- Released if it is held. -/
def drop (h : Holdings K) (k : K) : Holdings K := { h with held := Function.update h.held k false }

def acquireAll (h : Holdings K) (l : List K) : Holdings K := l.foldl acquire h

def releaseAll (h : Holdings K) (l : List K) : Holdings K := l.foldl release h

theorem acquire_of_fresh (fresh : h.held k = false) : (h.acquire k).misused = h.misused := by
  simp [acquire, fresh]

theorem release_of_held (held : h.held k = true) : (h.release k).misused = h.misused := by
  simp [release, held]

theorem acquireAll_held (l : List K) : (h.acquireAll l).held = fun k => decide (k ∈ l) || h.held k := by
  induction l generalizing h with
  | nil => simp [acquireAll]
  | cons a l ih =>
    have rest : (h.acquireAll (a :: l)).held = ((h.acquire a).acquireAll l).held := rfl
    rw [rest, ih]
    funext k
    by_cases same : k = a
    · simp [acquire, same]
    · simp [acquire, same]

theorem acquireAll_misused (nodup : l.Nodup) (fresh : ∀ k ∈ l, h.held k = false) : (h.acquireAll l).misused = h.misused := by
  induction l generalizing h with
  | nil => rfl
  | cons a l ih =>
    have rest : (h.acquireAll (a :: l)).misused = ((h.acquire a).acquireAll l).misused := rfl
    rw [rest, ih nodup.of_cons, acquire_of_fresh (fresh a List.mem_cons_self)]
    intro k mem
    have ne : k ≠ a := fun same => (List.nodup_cons.mp nodup).1 (same ▸ mem)
    simp [acquire, ne, fresh k (List.mem_cons_of_mem a mem)]

theorem releaseAll_held (l : List K) : (h.releaseAll l).held = fun k => !decide (k ∈ l) && h.held k := by
  induction l generalizing h with
  | nil => simp [releaseAll]
  | cons a l ih =>
    have rest : (h.releaseAll (a :: l)).held = ((h.release a).releaseAll l).held := rfl
    rw [rest, ih]
    funext k
    by_cases same : k = a
    · simp [release, same]
    · simp [release, same]

theorem releaseAll_misused (nodup : l.Nodup) (held : ∀ k ∈ l, h.held k = true) : (h.releaseAll l).misused = h.misused := by
  induction l generalizing h with
  | nil => rfl
  | cons a l ih =>
    have rest : (h.releaseAll (a :: l)).misused = ((h.release a).releaseAll l).misused := rfl
    rw [rest, ih nodup.of_cons, release_of_held (held a List.mem_cons_self)]
    intro k mem
    have ne : k ≠ a := fun same => (List.nodup_cons.mp nodup).1 (same ▸ mem)
    simp [release, ne, held k (List.mem_cons_of_mem a mem)]

/-- What is acquired and released again, in whatever order, leaves no trace. -/
theorem releaseAll_acquireAll (perm : l'.Perm l) (nodup : l.Nodup) (fresh : ∀ k ∈ l, h.held k = false) :
    (h.acquireAll l).releaseAll l' = h := by
  have all : ∀ k ∈ l', (h.acquireAll l).held k = true := by
    intro k mem
    rw [acquireAll_held]
    simp [perm.mem_iff.mp mem]
  ext k
  · rw [releaseAll_held, acquireAll_held]
    by_cases mem : k ∈ l
    · simp [perm.mem_iff, mem, fresh k mem]
    · simp [perm.mem_iff, mem]
  · rw [releaseAll_misused (perm.nodup_iff.mpr nodup) all, acquireAll_misused nodup fresh]

theorem release_acquire (fresh : h.held k = false) : (h.acquire k).release k = h := by
  have trace := releaseAll_acquireAll (l := [k]) (List.Perm.refl _) (List.nodup_singleton k) (by simpa using fresh)
  exact trace

theorem drop_absent (fresh : h.held k = false) : h.drop k = h := by
  ext k'
  · by_cases same : k' = k
    · simp [drop, same, fresh]
    · simp [drop, same]
  · rfl

@[simp] theorem acquire_self (h : Holdings K) (k : K) : (h.acquire k).held k = true := by simp [acquire]

theorem acquire_other {k' : K} (ne : k' ≠ k) : (h.acquire k).held k' = h.held k' := by simp [acquire, ne]

/-- Released, which must not happen while anything that rests on it is held. -/
def giveBack (users : K → List K) (h : Holdings K) (k : K) : Holdings K :=
  if (users k).any h.held then { h.release k with misused := (h.release k).misused ++ [k] } else h.release k

theorem giveBack_last {users : K → List K} (last : ∀ u ∈ users k, h.held u = false) : h.giveBack users k = h.release k := by
  have unused : (users k).any h.held = false := by simpa using last
  rw [giveBack, unused]
  rfl

end Holdings

section

variable {S : Type} {fails : S → Nat}

/-- The first of the steps that fails. -/
def failing (fails : S → Nat) (steps : List S) : Option S := steps.find? fun st => fails st ≠ 0

theorem failing_none {steps : List S} : failing fails steps = none ↔ ∀ st ∈ steps, fails st = 0 := by
  simp [failing]

theorem failing_some {steps : List S} {st : S} (found : failing fails steps = some st) : st ∈ steps ∧ fails st ≠ 0 := by
  have failed := List.find?_some found
  exact ⟨List.mem_of_find?_eq_some found, by simpa using failed⟩

theorem failing_append {first second : List S} :
    failing fails (first ++ second) = (failing fails first).or (failing fails second) := List.find?_append

end

end OpenNic
