import Mathlib.Tactic.NormNum

namespace OpenNic

abbrev Word := BitVec 32

/-- `k` is the index of the lowest set bit. -/
def LowestBit (x : BitVec 64) (k : Nat) : Prop :=
  x.getLsbD k = true ∧ ∀ j, j < k → x.getLsbD j = false

/-- One `if` of the portable `get_trailing_zeros`: `mask` covers `bits` bits. -/
def skipZeros (mask : BitVec 64) (bits : Nat) (state : Nat × BitVec 64) : Nat × BitVec 64 :=
  if state.2 &&& mask = 0 then (state.1 + bits, state.2 >>> bits) else state

def getTrailingZeros (x : BitVec 64) : Nat :=
  let state := skipZeros 0x3 2 (skipZeros 0xF 4 (skipZeros 0xFF 8 (skipZeros 0xFFFF 16
    (skipZeros 0xFFFFFFFF 32 (1, x)))))
  state.1 - (state.2 &&& 1).toNat

def fieldShift (mask : BitVec 64) : Nat := getTrailingZeros mask

/-- `FIELD_SET` -/
def fieldSet (mask val : BitVec 64) : BitVec 64 := (val <<< fieldShift mask) &&& mask

/-- `BITFIELD_GET` -/
def bitfieldGet (mask reg : BitVec 64) : BitVec 64 := (reg &&& mask) >>> fieldShift mask

/-- `GENMASK` -/
def genmask (high low : Nat) : BitVec 64 :=
  (BitVec.allOnes 64 <<< low) &&& (BitVec.allOnes 64 >>> (63 - high))

/-- `BIT` -/
def bit (n : Nat) : BitVec 64 := 1#64 <<< n

/-- Skipping `bits` zeros keeps the total and leaves the lowest bit below `bits`. -/
theorem skipZeros_lowest {mask : BitVec 64} {bits k : Nat} {state : Nat × BitVec 64}
    (covers : ∀ j, mask.getLsbD j = decide (j < bits)) (h : LowestBit state.2 k)
    (near : k < 2 * bits) :
    ∃ k', LowestBit (skipZeros mask bits state).2 k' ∧ k' < bits ∧
      (skipZeros mask bits state).1 + k' = state.1 + k := by
  by_cases zero : state.2 &&& mask = 0
  · have far : bits ≤ k := by
      by_contra less
      have bit := congrArg (fun v => v.getLsbD k) zero
      simp [BitVec.getLsbD_and, h.1, covers, Nat.lt_of_not_le less] at bit
    refine ⟨k - bits, ?_, by omega, by simp only [skipZeros, zero, ↓reduceIte]; omega⟩
    simp only [skipZeros, zero, ↓reduceIte, LowestBit, BitVec.getLsbD_ushiftRight]
    refine ⟨by rw [Nat.add_sub_cancel' far]; exact h.1, fun j less => h.2 _ (by omega)⟩
  · have close : k < bits := by
      by_contra more
      apply zero
      apply BitVec.eq_of_getLsbD_eq
      intro j _
      by_cases below : j < bits
      · simp [BitVec.getLsbD_and, h.2 j (by omega)]
      · simp [BitVec.getLsbD_and, covers, below]
    exact ⟨k, by simpa only [skipZeros, zero, ↓reduceIte] using h, close,
      by simp only [skipZeros, zero, ↓reduceIte]⟩

theorem lowMask_covers (mask : BitVec 64) (bits : Nat) (is : mask = BitVec.ofNat 64 (2 ^ bits - 1))
    (small : bits ≤ 64) (j : Nat) : mask.getLsbD j = decide (j < bits) := by
  rw [is, BitVec.getLsbD_ofNat, Nat.testBit_two_pow_sub_one]
  by_cases below : j < bits <;> simp [below]
  omega

theorem lastBit {x : BitVec 64} {k : Nat} (h : LowestBit x k) (near : k < 2) :
    (x &&& 1).toNat = 1 - k := by
  have parity : x.getLsbD 0 = decide (x.toNat % 2 = 1) := by
    simp [BitVec.getLsbD, Nat.testBit_zero]
  have value : (x &&& 1).toNat = x.toNat % 2 := by
    simp [BitVec.toNat_and, Nat.and_one_is_mod]
  have cases : k = 0 ∨ k = 1 := by omega
  rcases cases with rfl | rfl
  · have odd := h.1
    rw [parity, decide_eq_true_eq] at odd
    omega
  · have even := h.2 0 (by decide)
    rw [parity, decide_eq_false_iff_not] at even
    omega

/-- Each `if` halves the range the lowest bit can be in; the last subtraction tells
    the remaining two positions apart. -/
theorem getTrailingZeros_lowest {x : BitVec 64} {k : Nat} (h : LowestBit x k) :
    getTrailingZeros x = k := by
  have bound : k < 2 * 32 := BitVec.lt_of_getLsbD h.1
  have start : LowestBit ((1, x) : Nat × BitVec 64).2 k := h
  obtain ⟨k1, low1, near1, sum1⟩ :=
    skipZeros_lowest (lowMask_covers 0xFFFFFFFF 32 rfl (by decide)) start bound
  obtain ⟨k2, low2, near2, sum2⟩ :=
    skipZeros_lowest (lowMask_covers 0xFFFF 16 rfl (by decide)) low1 (by omega)
  obtain ⟨k3, low3, near3, sum3⟩ :=
    skipZeros_lowest (lowMask_covers 0xFF 8 rfl (by decide)) low2 (by omega)
  obtain ⟨k4, low4, near4, sum4⟩ :=
    skipZeros_lowest (lowMask_covers 0xF 4 rfl (by decide)) low3 (by omega)
  obtain ⟨k5, low5, near5, sum5⟩ :=
    skipZeros_lowest (lowMask_covers 0x3 2 rfl (by decide)) low4 (by omega)
  have last := lastBit low5 near5
  simp only [getTrailingZeros]
  omega

theorem lowestBit_exists {x : BitVec 64} (nonzero : x ≠ 0) : ∃ k, LowestBit x k := by
  have found : ∃ k, x.getLsbD k = true := by
    by_contra none
    apply nonzero
    apply BitVec.eq_of_getLsbD_eq
    intro i _
    have clear : ¬ x.getLsbD i = true := fun set => none ⟨i, set⟩
    simpa using clear
  refine ⟨Nat.find found, Nat.find_spec found, fun j less => ?_⟩
  have clear := Nat.find_min found less
  simpa using clear

/-- The set bits of `mask` are the `width` bits from `low` on. -/
def Contiguous (mask : BitVec 64) (low width : Nat) : Prop :=
  ∀ i, mask.getLsbD i = decide (low ≤ i ∧ i < low + width)

namespace Contiguous

variable {mask : BitVec 64} {low width : Nat}

theorem lowest (run : Contiguous mask low width) (some : 0 < width) : LowestBit mask low := by
  constructor
  · simp [run low, some]
  · intro j less
    simp [run j, Nat.not_le_of_lt less]

theorem fieldShift (run : Contiguous mask low width) (some : 0 < width) : fieldShift mask = low :=
  getTrailingZeros_lowest (run.lowest some)

theorem empty (run : Contiguous mask low 0) : mask = 0 := by
  apply BitVec.eq_of_getLsbD_eq
  intro i _
  have outside : ¬ (low ≤ i ∧ i < low + 0) := by omega
  rw [run i, decide_eq_false outside]
  exact BitVec.getLsbD_zero.symm

/-- The highest bit of the run is one of the 64. -/
theorem inside (run : Contiguous mask low width) {i : Nat} (less : i < width) : low + i < 64 := by
  have set : mask.getLsbD (low + i) = true := by simp [run (low + i), less]
  exact BitVec.lt_of_getLsbD set

theorem getLsbD_fieldSet (run : Contiguous mask low width) (some : 0 < width) (val : BitVec 64) (i : Nat) :
    (fieldSet mask val).getLsbD i = (decide (low ≤ i ∧ i < low + width) && val.getLsbD (i - low)) := by
  simp only [fieldSet, run.fieldShift some, BitVec.getLsbD_and, BitVec.getLsbD_shiftLeft, run i]
  by_cases above : low ≤ i
  · by_cases below : i < low + width
    · have bound := run.inside (i := i - low) (by omega)
      have small : i < 64 := by omega
      simp [above, below, small]
    · simp [below]
  · simp [above]

theorem getLsbD_bitfieldGet (run : Contiguous mask low width) (some : 0 < width) (reg : BitVec 64) (i : Nat) :
    (bitfieldGet mask reg).getLsbD i = (decide (i < width) && reg.getLsbD (low + i)) := by
  simp only [bitfieldGet, run.fieldShift some, BitVec.getLsbD_and, BitVec.getLsbD_ushiftRight, run (low + i)]
  by_cases below : i < width <;> simp [below]

end Contiguous

theorem getLsbD_genmask {high low : Nat} (small : high < 64) (i : Nat) :
    (genmask high low).getLsbD i = decide (low ≤ i ∧ i ≤ high) := by
  simp only [genmask, BitVec.getLsbD_and, BitVec.getLsbD_shiftLeft, BitVec.getLsbD_ushiftRight,
    BitVec.getLsbD_allOnes]
  by_cases above : low ≤ i
  · by_cases below : i ≤ high
    · simp [above, below]
      omega
    · simp [above, below]
      omega
  · simp [above]

theorem genmask_contiguous {high low : Nat} (small : high < 64) (ordered : low ≤ high) :
    Contiguous (genmask high low) low (high + 1 - low) := by
  intro i
  rw [getLsbD_genmask small]
  have same : i ≤ high ↔ i < low + (high + 1 - low) := by omega
  simp only [same]

theorem getLsbD_fieldSet {high low : Nat} (small : high < 64) (ordered : low ≤ high)
    (val : BitVec 64) (i : Nat) :
    (fieldSet (genmask high low) val).getLsbD i =
      (decide (low ≤ i ∧ i ≤ high) && val.getLsbD (i - low)) := by
  have same : i < low + (high + 1 - low) ↔ i ≤ high := by omega
  rw [(genmask_contiguous small ordered).getLsbD_fieldSet (by omega)]
  simp only [same]

theorem getLsbD_bitfieldGet {high low : Nat} (small : high < 64) (ordered : low ≤ high)
    (reg : BitVec 64) (i : Nat) :
    (bitfieldGet (genmask high low) reg).getLsbD i =
      (decide (low + i ≤ high) && reg.getLsbD (low + i)) := by
  have same : i < high + 1 - low ↔ low + i ≤ high := by omega
  rw [(genmask_contiguous small ordered).getLsbD_bitfieldGet (by omega)]
  simp only [same]

theorem bit_eq_genmask {n : Nat} (small : n < 64) : bit n = genmask n n := by
  apply BitVec.eq_of_getLsbD_eq
  intro i _
  rw [getLsbD_genmask small, bit, ← BitVec.twoPow_eq, BitVec.getLsbD_twoPow]
  by_cases same : n = i
  · subst same
    simp [small]
  · have apart : ¬ (n ≤ i ∧ i ≤ n) := by omega
    simp [same, apart]

theorem bitfieldGet_or (mask a b : BitVec 64) :
    bitfieldGet mask (a ||| b) = bitfieldGet mask a ||| bitfieldGet mask b := by
  simp only [bitfieldGet, BitVec.and_or_distrib_right, BitVec.ushiftRight_or_distrib]

theorem bitfieldGet_fieldSet {high low : Nat} (small : high < 64) (ordered : low ≤ high)
    (val : BitVec 64) (i : Nat) :
    (bitfieldGet (genmask high low) (fieldSet (genmask high low) val)).getLsbD i =
      (decide (low + i ≤ high) && val.getLsbD i) := by
  rw [getLsbD_bitfieldGet small ordered, getLsbD_fieldSet small ordered]
  by_cases below : low + i ≤ high <;> simp [below]

/-- A field wide enough for the value returns it. -/
theorem bitfieldGet_fieldSet_of_lt {high low : Nat} (small : high < 64) (ordered : low ≤ high)
    (val : BitVec 64) (fits : val.toNat < 2 ^ (high + 1 - low)) :
    bitfieldGet (genmask high low) (fieldSet (genmask high low) val) = val := by
  apply BitVec.eq_of_getLsbD_eq
  intro i _
  rw [bitfieldGet_fieldSet small ordered]
  by_cases below : low + i ≤ high
  · simp [below]
  · have clear : val.getLsbD i = false :=
      Nat.testBit_lt_two_pow (Nat.lt_of_lt_of_le fits (Nat.pow_le_pow_right (by decide) (by omega)))
    simp [below, clear]

theorem bitfieldGet_fieldSet_disjoint {high low high' low' : Nat} (small : high < 64)
    (ordered : low ≤ high) (small' : high' < 64) (ordered' : low' ≤ high')
    (apart : high < low' ∨ high' < low) (val : BitVec 64) :
    bitfieldGet (genmask high low) (fieldSet (genmask high' low') val) = 0 := by
  apply BitVec.eq_of_getLsbD_eq
  intro i _
  rw [getLsbD_bitfieldGet small ordered, getLsbD_fieldSet small' ordered']
  by_cases below : low + i ≤ high
  · have outside : ¬ (low' ≤ low + i ∧ low + i ≤ high') := by omega
    simp [outside]
  · simp [below]

/-- Storing the 64-bit value into a `u32` keeps the fields below bit 32. -/
theorem bitfieldGet_word {high low : Nat} (small : high < 32) (ordered : low ≤ high)
    (val : BitVec 64) :
    bitfieldGet (genmask high low) ((val.setWidth 32).setWidth 64) =
      bitfieldGet (genmask high low) val := by
  apply BitVec.eq_of_getLsbD_eq
  intro i _
  rw [getLsbD_bitfieldGet (by omega) ordered, getLsbD_bitfieldGet (by omega) ordered]
  by_cases below : low + i ≤ high
  · have inside : low + i < 32 := by omega
    have wide : low + i < 64 := by omega
    simp [inside, wide]
  · simp [below]

/-- `FIELD_SET` of several fields or-ed into `reg`. -/
def orFields (fields : List (BitVec 64 × BitVec 64)) (reg : BitVec 64) : BitVec 64 :=
  fields.foldl (fun reg f => reg ||| fieldSet f.1 f.2) reg

theorem fieldSet_within (mask val : BitVec 64) : fieldSet mask val &&& ~~~mask = 0 := by
  rw [fieldSet, BitVec.and_assoc, BitVec.and_not_self]
  exact BitVec.and_zero

theorem bitfieldGet_fieldSet_apart {mask other : BitVec 64} (apart : mask &&& other = 0) (val : BitVec 64) :
    bitfieldGet mask (fieldSet other val) = 0 := by
  have none : fieldSet other val &&& mask = 0 := by
    rw [fieldSet, BitVec.and_assoc, BitVec.and_comm other mask, apart]
    exact BitVec.and_zero
  rw [bitfieldGet, none]
  exact BitVec.zero_ushiftRight

theorem bitfieldGet_orFields {mask : BitVec 64} {fields : List (BitVec 64 × BitVec 64)}
    (apart : ∀ f ∈ fields, mask &&& f.1 = 0) (reg : BitVec 64) :
    bitfieldGet mask (orFields fields reg) = bitfieldGet mask reg := by
  induction fields generalizing reg with
  | nil => rfl
  | cons f fields ih =>
    have here : bitfieldGet mask (reg ||| fieldSet f.1 f.2) = bitfieldGet mask reg := by
      rw [bitfieldGet_or, bitfieldGet_fieldSet_apart (apart f List.mem_cons_self)]
      exact BitVec.or_zero
    exact (ih (fun g mem => apart g (List.mem_cons_of_mem f mem)) _).trans here

theorem Contiguous.bitfieldGet_fieldSet {mask : BitVec 64} {low width : Nat} (run : Contiguous mask low width)
    (val : BitVec 64) : (bitfieldGet mask (fieldSet mask val)).toNat = val.toNat % 2 ^ width := by
  rcases Nat.eq_zero_or_pos width with rfl | some
  · simp [bitfieldGet, fieldSet, run.empty, Nat.mod_one]
  · apply Nat.eq_of_testBit_eq
    intro i
    rw [Nat.testBit_mod_two_pow, BitVec.testBit_toNat, BitVec.testBit_toNat, run.getLsbD_bitfieldGet some,
      run.getLsbD_fieldSet some]
    by_cases below : i < width <;> simp [below]

theorem Contiguous.fieldSet_bitfieldGet {mask : BitVec 64} {low width : Nat} (run : Contiguous mask low width)
    (reg : BitVec 64) : fieldSet mask (bitfieldGet mask reg) = reg &&& mask := by
  rcases Nat.eq_zero_or_pos width with rfl | some
  · simp [fieldSet, run.empty]
  · apply BitVec.eq_of_getLsbD_eq
    intro i _
    rw [run.getLsbD_fieldSet some, run.getLsbD_bitfieldGet some, BitVec.getLsbD_and, run i]
    by_cases within : low ≤ i ∧ i < low + width
    · have offset : low + (i - low) = i := by omega
      have below : i - low < width := by omega
      simp [within, offset, below]
    · simp [within]

/-- `get_trailing_zeros` finds the lowest set bit, so a field of contiguous bits is read back as it was set,
    whatever is or-ed into the bits outside. -/
theorem bit_field_primitives :
    (∀ x : BitVec 64, x ≠ 0 → LowestBit x (getTrailingZeros x)) ∧
      ∀ (mask : BitVec 64) (low width : Nat), Contiguous mask low width →
        (∀ val, fieldSet mask val &&& ~~~mask = 0) ∧
        (∀ val, (bitfieldGet mask (fieldSet mask val)).toNat = val.toNat % 2 ^ width) ∧
        (∀ reg, fieldSet mask (bitfieldGet mask reg) = reg &&& mask) ∧
        ∀ fields : List (BitVec 64 × BitVec 64), (∀ f ∈ fields, mask &&& f.1 = 0) →
          ∀ val, bitfieldGet mask (orFields fields (fieldSet mask val)) = bitfieldGet mask (fieldSet mask val) := by
  constructor
  · intro x nonzero
    obtain ⟨k, lowest⟩ := lowestBit_exists nonzero
    rw [getTrailingZeros_lowest lowest]
    exact lowest
  · intro mask low width run
    exact ⟨fieldSet_within mask, run.bitfieldGet_fieldSet, run.fieldSet_bitfieldGet,
      fun fields apart val => bitfieldGet_orFields apart _⟩

/-- The 11 bits from bit 16 on next to a field of bits 0 to 10. -/
theorem bit_field_primitives_queue_base :
    LowestBit 0x7FF0000 (getTrailingZeros 0x7FF0000) ∧
      bitfieldGet 0x7FF0000 (orFields [(0x7FF, 0x45)] (fieldSet 0x7FF0000 0x123)) =
        bitfieldGet 0x7FF0000 (fieldSet 0x7FF0000 0x123) := by
  have run : Contiguous 0x7FF0000 16 11 := genmask_contiguous (by decide : 26 < 64) (by decide : 16 ≤ 26)
  have apart : ∀ f ∈ [((0x7FF, 0x45) : BitVec 64 × BitVec 64)], 0x7FF0000 &&& f.1 = 0 := by
    intro f mem
    rw [List.mem_singleton.mp mem]
    rfl
  exact ⟨bit_field_primitives.1 _ (by decide), (bit_field_primitives.2 _ _ _ run).2.2.2 _ apart 0x123⟩

end OpenNic
