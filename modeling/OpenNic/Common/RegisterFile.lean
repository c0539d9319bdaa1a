import OpenNic.Program.Resumption

namespace OpenNic

/-- The order in which the bytes of a word lie in memory. -/
inductive ByteOrder
  | little
  | big
  deriving DecidableEq

namespace ByteOrder

/-- The word whose bytes in memory are `bytes 0` to `bytes 3`. -/
def load : ByteOrder → (Nat → BitVec 8) → BitVec 32
  | .little, bytes => bytes 3 ++ bytes 2 ++ bytes 1 ++ bytes 0
  | .big, bytes => bytes 0 ++ bytes 1 ++ bytes 2 ++ bytes 3

/-- Byte `j` of `val` in memory. -/
def byte : ByteOrder → BitVec 32 → Nat → BitVec 8
  | .little, val, j => val.extractLsb' (8 * j) 8
  | .big, val, j => val.extractLsb' (8 * (3 - j)) 8

theorem extract_byte (bytes : Nat → BitVec 8) {j : Nat} (small : j < 4) :
    (bytes 3 ++ bytes 2 ++ bytes 1 ++ bytes 0).extractLsb' (8 * j) 8 = bytes j := by
  apply BitVec.eq_of_getLsbD_eq
  intro i less
  simp only [BitVec.getLsbD_extractLsb', BitVec.getLsbD_append, less, decide_true, Bool.true_and]
  have cases : j = 0 ∨ j = 1 ∨ j = 2 ∨ j = 3 := by omega
  rcases cases with rfl | rfl | rfl | rfl
  · simp [less]
  · simp [less]
  · have above : ¬ 16 + i < 8 := by omega
    have above' : ¬ 16 + i - 8 < 8 := by omega
    have offset : 16 + i - 8 - 8 = i := by omega
    simp [above, above', offset, less]
  · have above : ¬ 24 + i < 8 := by omega
    have above' : ¬ 24 + i - 8 < 8 := by omega
    have above'' : ¬ 24 + i - 8 - 8 < 8 := by omega
    have offset : 24 + i - 8 - 8 - 8 = i := by omega
    simp [above, above', above'', offset]

theorem byte_load (order : ByteOrder) (bytes : Nat → BitVec 8) {j : Nat} (small : j < 4) :
    order.byte (order.load bytes) j = bytes j := by
  cases order with
  | little => exact extract_byte bytes small
  | big =>
    have mirrored := extract_byte (fun j => bytes (3 - j)) (j := 3 - j) (by omega)
    have back : 3 - (3 - j) = j := by omega
    rw [back] at mirrored
    exact mirrored

end ByteOrder

namespace RegisterFile

variable {A V ι : Type} [DecidableEq A]

def readReg (addr : A) : Program (A → V) ι V := .read fun regs => regs addr

def writeReg (addr : A) (val : V) : Program (A → V) ι Unit := .modify fun regs => Function.update regs addr val

/-- The registers after `val i` has been written to `addr i` for the first `count` indices in turn. -/
def stored (addr : Nat → A) (val : Nat → V) : Nat → (A → V) → A → V
  | 0, regs => regs
  | count + 1, regs => Function.update (stored addr val count regs) (addr count) (val count)

variable {addr : Nat → A} {val : Nat → V} {regs : A → V}

theorem stored_outside {count : Nat} {a : A} (outside : ∀ i, i < count → a ≠ addr i) :
    stored addr val count regs a = regs a := by
  induction count with
  | zero => rfl
  | succ count ih =>
    rw [stored, Function.update_of_ne (outside count (Nat.lt_succ_self count))]
    exact ih fun i less => outside i (Nat.lt_succ_of_lt less)

theorem stored_at (apart : Function.Injective addr) {count i : Nat} (less : i < count) :
    stored addr val count regs (addr i) = val i := by
  induction count with
  | zero => omega
  | succ count ih =>
    by_cases last : i = count
    · rw [stored, last, Function.update_self]
    · have different : addr i ≠ addr count := fun same => last (apart same)
      rw [stored, Function.update_of_ne different]
      exact ih (by omega)

/-- Writing changes nothing exactly where every value was there before. -/
theorem stored_same_iff (apart : Function.Injective addr) {count : Nat} :
    (∀ i, i < count → regs (addr i) = val i) ↔ stored addr val count regs = regs := by
  constructor
  · intro there
    funext a
    by_cases inside : ∃ i, i < count ∧ a = addr i
    · rcases inside with ⟨i, less, rfl⟩
      rw [stored_at apart less, there i less]
    · exact stored_outside fun i less same => inside ⟨i, less, same⟩
  · intro same i less
    have here := congrFun same (addr i)
    rw [stored_at apart less] at here
    exact here.symm

/-- A loop that writes, run from the middle on. -/
theorem eval_writes (input : ι) (lo count : Nat) :
    (Program.fold (fun i _ => writeReg (addr i) (val i)) lo count ()).eval input (stored addr val lo regs) =
      some ((), stored addr val (lo + count) regs) := by
  induction count generalizing lo with
  | zero => rfl
  | succ count ih =>
    have rest := ih (lo + 1)
    rw [Nat.add_right_comm] at rest
    rw [Program.fold, Program.eval_bind]
    exact rest

section

variable {bad : Nat → Prop} [DecidablePred bad] {err : Int}

/-- The body of a loop that checks each value before it writes it. -/
def checkedWrite (bad : Nat → Prop) [DecidablePred bad] (err : Int) (addr : Nat → A) (val : Nat → V) (i : Nat) :
    Program (A → V) ι Int :=
  if bad i then .done err
  else do
    writeReg (addr i) (val i)
    .done 0

theorem eval_checkedWrites_good (input : ι) {lo count : Nat} (good : ∀ i, lo ≤ i → i < lo + count → ¬ bad i) :
    (Program.untilErr (checkedWrite bad err addr val) lo count).eval input (stored addr val lo regs) =
      some (0, stored addr val (lo + count) regs) := by
  induction count generalizing lo with
  | zero => rfl
  | succ count ih =>
    have first : ¬ bad lo := good lo (Nat.le_refl lo) (by omega)
    have rest := @ih (lo + 1) fun i above below => good i (by omega) (by omega)
    rw [Nat.add_right_comm] at rest
    rw [Program.untilErr, checkedWrite, if_neg first, Program.eval_bind]
    exact rest

/-- The loop stops at the first bad value; what it wrote before stays. -/
theorem eval_checkedWrites_bad (input : ι) (fails : err ≠ 0) {lo count p : Nat} (above : lo ≤ p) (below : p < lo + count)
    (first : bad p) (good : ∀ i, i < p → ¬ bad i) :
    (Program.untilErr (checkedWrite bad err addr val) lo count).eval input (stored addr val lo regs) =
      some (err, stored addr val p regs) := by
  induction count generalizing lo with
  | zero => omega
  | succ count ih =>
    rw [Program.untilErr, checkedWrite, Program.eval_bind]
    by_cases here : lo = p
    · subst here
      simp [first, fails]
    · have rest := @ih (lo + 1) (by omega) (by omega)
      have fine : ¬ bad lo := good lo (by omega)
      rw [if_neg fine]
      exact rest

end

omit [DecidableEq A] in
/-- A loop that reads one register after another into a buffer, of which `owner` says to which index a cell
    belongs. -/
theorem eval_reads {B : Type} {put : Nat → V → (Nat → B) → Nat → B} {owner : Nat → Nat} {cell : V → Nat → B}
    (puts : ∀ i val buf m, put i val buf m = if owner m = i then cell val m else buf m) (input : ι) (lo count : Nat)
    (buf : Nat → B) :
    (Program.fold (fun i buf => do
      let val ← readReg (addr i)
      .done (put i val buf)) lo count buf).eval input regs =
      some (fun m => if lo ≤ owner m ∧ owner m < lo + count then cell (regs (addr (owner m))) m else buf m, regs) := by
  induction count generalizing lo buf with
  | zero =>
    have none : ∀ m, ¬ (lo ≤ owner m ∧ owner m < lo + 0) := fun m => by omega
    simp only [Program.fold, Program.eval_done, none, if_false]
  | succ count ih =>
    rw [Program.fold, Program.eval_bind]
    refine (ih (lo + 1) (put lo (regs (addr lo)) buf)).trans ?_
    congr 2
    funext m
    by_cases here : owner m = lo
    · simp [puts, here]
    · have same : (lo + 1 ≤ owner m ∧ owner m < lo + 1 + count) ↔ (lo ≤ owner m ∧ owner m < lo + (count + 1)) := by omega
      simp only [puts, here, same, if_false]

end RegisterFile

end OpenNic
