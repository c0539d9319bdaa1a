import OpenNic.Common.Cyclic

namespace OpenNic.Cyclic

variable {R : Nat}

/-- How far a doorbell has gone around a cycle of `R` slots that was set to these positions, one after
    another, from `start` on. -/
def told (R : Nat) (start : Nat) : List Nat → Nat
  | [] => 0
  | position :: rest => dist R start position + told R position rest

theorem told_concat (start next : Nat) (rung : List Nat) :
    told R start (rung ++ [next]) = told R start rung + dist R (rung.getLastD start) next := by
  induction rung generalizing start with
  | nil => simp [told]
  | cons position rest ih =>
    rw [List.cons_append, told, told, ih, List.getLastD_cons, Nat.add_assoc]

theorem dist_self (a : Nat) : dist R a a = 0 := by rw [dist, Nat.add_sub_cancel_left, Nat.mod_self]

/-- One position nearer. -/
theorem dist_next {a b : Nat} (first : a < R) (second : b < R) (apart : a ≠ b) :
    dist R ((a + 1) % R) b + 1 = dist R a b := by
  have next : (a + 1) % R < R := Nat.mod_lt _ (by omega)
  rw [dist_of_lt next second, dist_of_lt first second]
  by_cases wraps : a + 1 = R
  · rw [wraps, Nat.mod_self]
    split <;> split <;> omega
  · rw [Nat.mod_eq_of_lt (by omega)]
    split <;> split <;> omega

/-- A doorbell that was last set to `use` and the slots that were taken back before `clean`, `done` of
    them: never more than `R - 1` are outstanding. -/
structure Credits (R : Nat) (rung : List Nat) (use clean done : Nat) : Prop where
  last : rung.getLastD 0 = use
  use : use = told R 0 rung % R
  clean : clean = done % R
  done_le : done ≤ told R 0 rung
  room : told R 0 rung < done + R

namespace Credits

variable {rung : List Nat} {use clean done step : Nat}

theorem pos (c : Credits R rung use clean done) : 0 < R := by
  have low := c.done_le
  have high := c.room
  omega

theorem use_lt (c : Credits R rung use clean done) : use < R := by
  rw [c.use]
  exact Nat.mod_lt _ c.pos

theorem clean_lt (c : Credits R rung use clean done) : clean < R := by
  rw [c.clean]
  exact Nat.mod_lt _ c.pos

/-- What is outstanding is what lies between the two indices. -/
theorem outstanding (c : Credits R rung use clean done) : told R 0 rung = done + dist R clean use := by
  rw [c.clean, c.use, dist_mod c.done_le c.room]
  exact (Nat.add_sub_cancel' c.done_le).symm

/-- No position is told of again before it has been taken back. -/
theorem once (c : Credits R rung use clean done) {k k' : Nat} (later : k < k') (within : k' < told R 0 rung)
    (same : k % R = k' % R) : k < done := by
  by_contra still
  have high := c.room
  have lap := mod_inj (Nat.not_lt.mp still) (by omega) (show done ≤ k' by omega) (by omega) same
  omega

theorem start (small : 0 < R) : Credits R [] 0 0 0 :=
  ⟨rfl, (Nat.zero_mod R).symm, (Nat.zero_mod R).symm, Nat.le_refl _, by simpa [told] using small⟩

theorem receive (c : Credits R rung use clean done) (more : 0 < dist R clean use) :
    Credits R rung use ((clean + 1) % R) (done + 1) where
  last := c.last
  use := c.use
  clean := by rw [c.clean, Nat.mod_add_mod]
  done_le := by
    have all := c.outstanding
    omega
  room := by
    have high := c.room
    omega

theorem dist_receive (c : Credits R rung use clean done) (more : 0 < dist R clean use) :
    dist R ((clean + 1) % R) use + 1 = dist R clean use := by
  have before := c.outstanding
  have after := (c.receive more).outstanding
  omega

theorem dist_refill (c : Credits R rung use clean done) (room : dist R clean use + step < R) :
    dist R clean ((use + step) % R) = dist R clean use + step := by
  rw [dist_add c.clean_lt, Nat.mod_eq_of_lt room]

/-- The doorbell goes on by a step for which there is room. -/
theorem refill (c : Credits R rung use clean done) (room : dist R clean use + step < R) :
    Credits R (rung ++ [(use + step) % R]) ((use + step) % R) clean done :=
  have small : step < R := by omega
  have more : told R 0 (rung ++ [(use + step) % R]) = told R 0 rung + step := by
    rw [told_concat, c.last, dist_add c.use_lt, dist_self, Nat.zero_add, Nat.mod_eq_of_lt small]
  { last := by simp
    use := by rw [more, c.use, Nat.mod_add_mod]
    clean := c.clean
    done_le := by
      have low := c.done_le
      omega
    room := by
      have all := c.outstanding
      omega }

end Credits

end OpenNic.Cyclic
