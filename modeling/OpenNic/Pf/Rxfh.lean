import Mathlib.Data.Nat.Bitwise
import OpenNic.Common.Kernel
import OpenNic.Common.RegisterFile

namespace OpenNic

open RegisterFile

def qdmaSubsystemOffset : Nat := 0x1000

def qdmaFuncOffset (i : Nat) : Nat := qdmaSubsystemOffset + 0x1000 * i

def qdmaFuncOffsetQconf (i : Nat) : Nat := qdmaFuncOffset i + 0x0

def qdmaFuncOffsetIndirTable (i k : Nat) : Nat := qdmaFuncOffset i + 0x400 + k * 4

def qdmaFuncOffsetHashKey (i k : Nat) : Nat := qdmaFuncOffset i + 0x600 + k * 4

def indirectionTableSize : Nat := 0x80

def onicEnRssKeySize : Nat := 40

def ethRssHashNoChange : BitVec 8 := 0

def ethRssHashTop : BitVec 8 := 1

/-- The shell registers, which all functions of the card share, by their offset. -/
abbrev ShellRegs := Nat → Word

/-- What `struct onic_private` says here of one function. -/
structure RxfhPriv where
  devfn : BitVec 32
  numRxQueues : BitVec 16

/-- `PCI_FUNC(priv->pdev->devfn)` -/
def RxfhPriv.funcId (priv : RxfhPriv) : Nat := (priv.devfn &&& 0x07).toNat

def onicGetRxfhIndirSize : Nat := indirectionTableSize

/-- The arguments of `onic_set_rxfh`; `none` is a NULL pointer. -/
structure RxfhRequest where
  ringIndex : Option (Nat → Word)
  key : Option (Nat → BitVec 8)
  hfunc : BitVec 8

/-- The buffers of `onic_get_rxfh`; `none` is a NULL pointer. -/
structure RxfhOut where
  ringIndex : Option (Nat → Word)
  key : Option (Nat → BitVec 8)
  hfunc : Option (BitVec 8)

/-- `memcpy(&key[off], &val, 4)` -/
def memcpyWord (order : ByteOrder) (off : Nat) (val : Word) (key : Nat → BitVec 8) : Nat → BitVec 8 :=
  fun m => if off ≤ m ∧ m < off + 4 then order.byte val (m - off) else key m

/-- `if (ring_index)` in `onic_get_rxfh`. -/
def getRingIndex (priv : RxfhPriv) : Option (Nat → Word) → Program ShellRegs Unit (Option (Nat → Word))
  | none => .done none
  | some ringIndex => do
    let ringIndex ← .fold (fun i ringIndex => do
      let val ← readReg (qdmaFuncOffsetIndirTable priv.funcId i)
      .done (Function.update ringIndex i (0xFFFF &&& val))) 0 onicGetRxfhIndirSize ringIndex
    .done (some ringIndex)

/-- `if (key)` in `onic_get_rxfh`. -/
def getKey (order : ByteOrder) (priv : RxfhPriv) :
    Option (Nat → BitVec 8) → Program ShellRegs Unit (Option (Nat → BitVec 8))
  | none => .done none
  | some key => do
    let key ← .fold (fun i key => do
      let val ← readReg (qdmaFuncOffsetHashKey priv.funcId i)
      .done (memcpyWord order (i * 4) val key)) 0 (onicEnRssKeySize / 4) key
    .done (some key)

def onicGetRxfh (order : ByteOrder) (priv : RxfhPriv) (out : RxfhOut) : Program ShellRegs Unit (Int × RxfhOut) := do
  let ringIndex ← getRingIndex priv out.ringIndex
  let key ← getKey order priv out.key
  .done (0, ⟨ringIndex, key, out.hfunc.map fun _ => ethRssHashTop⟩)

/-- `if (ring_index)` in `onic_set_rxfh`. -/
def setRingIndex (priv : RxfhPriv) : Option (Nat → Word) → Program ShellRegs Unit Int
  | none => .done 0
  | some ringIndex =>
    .untilErr (fun i =>
      if priv.numRxQueues.toNat ≤ (ringIndex i).toNat then .done (- EINVAL)
      else do
        writeReg (qdmaFuncOffsetIndirTable priv.funcId i) (ringIndex i)
        .done 0) 0 onicGetRxfhIndirSize

/-- `if (key)` in `onic_set_rxfh`. -/
def setKey (order : ByteOrder) (priv : RxfhPriv) : Option (Nat → BitVec 8) → Program ShellRegs Unit Unit
  | none => .done ()
  | some key =>
    .fold (fun i _ => writeReg (qdmaFuncOffsetHashKey priv.funcId i) (order.load fun j => key (i * 4 + j))) 0
      (onicEnRssKeySize / 4) ()

def onicSetRxfh (order : ByteOrder) (priv : RxfhPriv) (req : RxfhRequest) : Program ShellRegs Unit Int := do
  if req.hfunc ≠ ethRssHashNoChange ∧ req.hfunc ≠ ethRssHashTop then .done (- EOPNOTSUPP)
  else do
    let rv ← setRingIndex priv req.ringIndex
    if rv ≠ 0 then .done rv
    else do
      setKey order priv req.key
      .done 0

theorem indirTable_injective (f : Nat) : Function.Injective (qdmaFuncOffsetIndirTable f) := by
  intro i j same
  simp only [qdmaFuncOffsetIndirTable] at same
  omega

theorem hashKey_injective (f : Nat) : Function.Injective (qdmaFuncOffsetHashKey f) := by
  intro i j same
  simp only [qdmaFuncOffsetHashKey] at same
  omega

theorem indirTable_ne_hashKey {f g i j : Nat} (entry : i < 128) (word : j < 10) :
    qdmaFuncOffsetIndirTable f i ≠ qdmaFuncOffsetHashKey g j := by
  simp only [qdmaFuncOffsetIndirTable, qdmaFuncOffsetHashKey, qdmaFuncOffset, qdmaSubsystemOffset]
  omega

theorem indirTable_ne_indirTable {f g i j : Nat} (apart : f ≠ g) (entry : i < 128) (entry' : j < 128) :
    qdmaFuncOffsetIndirTable f i ≠ qdmaFuncOffsetIndirTable g j := by
  simp only [qdmaFuncOffsetIndirTable, qdmaFuncOffset, qdmaSubsystemOffset]
  omega

theorem hashKey_ne_hashKey {f g i j : Nat} (apart : f ≠ g) (word : i < 10) (word' : j < 10) :
    qdmaFuncOffsetHashKey f i ≠ qdmaFuncOffsetHashKey g j := by
  simp only [qdmaFuncOffsetHashKey, qdmaFuncOffset, qdmaSubsystemOffset]
  omega

theorem qconf_ne_indirTable {f g i : Nat} (entry : i < 128) :
    qdmaFuncOffsetQconf f ≠ qdmaFuncOffsetIndirTable g i := by
  simp only [qdmaFuncOffsetQconf, qdmaFuncOffsetIndirTable, qdmaFuncOffset, qdmaSubsystemOffset]
  omega

theorem qconf_ne_hashKey {f g i : Nat} (word : i < 10) : qdmaFuncOffsetQconf f ≠ qdmaFuncOffsetHashKey g i := by
  simp only [qdmaFuncOffsetQconf, qdmaFuncOffsetHashKey, qdmaFuncOffset, qdmaSubsystemOffset]
  omega

/-- `hfunc` is one that `onic_set_rxfh` takes. -/
def RxfhRequest.HashTaken (req : RxfhRequest) : Prop := req.hfunc = ethRssHashNoChange ∨ req.hfunc = ethRssHashTop

instance (req : RxfhRequest) : Decidable req.HashTaken := inferInstanceAs (Decidable (_ ∨ _))

/-- The function has the queue that entry `i` names. -/
def RxfhPriv.HasQueue (priv : RxfhPriv) (ringIndex : Nat → Word) (i : Nat) : Prop :=
  (ringIndex i).toNat < priv.numRxQueues.toNat

/-- All entries name a queue. -/
def RxfhPriv.Fits (priv : RxfhPriv) (req : RxfhRequest) : Prop :=
  ∀ ringIndex, req.ringIndex = some ringIndex → ∀ i, i < indirectionTableSize → priv.HasQueue ringIndex i

/-- `p` is the first entry without a queue. -/
def RxfhPriv.FirstBad (priv : RxfhPriv) (ringIndex : Nat → Word) (p : Nat) : Prop :=
  p < indirectionTableSize ∧ ¬ priv.HasQueue ringIndex p ∧ ∀ i, i < p → priv.HasQueue ringIndex i

theorem RxfhPriv.fits_or_firstBad (priv : RxfhPriv) (req : RxfhRequest) :
    priv.Fits req ∨ ∃ ringIndex p, req.ringIndex = some ringIndex ∧ priv.FirstBad ringIndex p := by
  by_cases found : ∃ ringIndex p, req.ringIndex = some ringIndex ∧ priv.FirstBad ringIndex p
  · exact Or.inr found
  · left
    intro ringIndex table i below
    -- No entry is the first bad one, so by strong induction none is bad.
    induction i using Nat.strong_induction_on with
    | _ i ih =>
      by_contra bad
      exact found ⟨ringIndex, i, table, below, bad, fun j less => ih j less (Nat.lt_trans less below)⟩

/-- The registers with the table of a request stored in them. -/
def tableStored (f : Nat) (ringIndex : Option (Nat → Word)) (regs : ShellRegs) : ShellRegs :=
  match ringIndex with
  | none => regs
  | some ringIndex => stored (qdmaFuncOffsetIndirTable f) ringIndex indirectionTableSize regs

/-- The registers with the key of a request stored in them. -/
def keyStored (order : ByteOrder) (f : Nat) (key : Option (Nat → BitVec 8)) (regs : ShellRegs) : ShellRegs :=
  match key with
  | none => regs
  | some key =>
    stored (qdmaFuncOffsetHashKey f) (fun i => order.load fun j => key (i * 4 + j)) (onicEnRssKeySize / 4) regs

section

variable {order : ByteOrder} {priv : RxfhPriv} {req : RxfhRequest} {regs : ShellRegs}

theorem setRingIndex_fits (fits : priv.Fits req) :
    (setRingIndex priv req.ringIndex).eval () regs = some (0, tableStored priv.funcId req.ringIndex regs) := by
  cases table : req.ringIndex with
  | none => rfl
  | some ringIndex =>
    exact eval_checkedWrites_good () fun i _ below => Nat.not_le_of_lt (fits ringIndex table i (below.trans_eq (Nat.zero_add _)))

/-- The entries before the first one without a queue have been written by then. -/
theorem setRingIndex_stops {ringIndex : Nat → Word} {p : Nat} (first : priv.FirstBad ringIndex p) :
    (setRingIndex priv (some ringIndex)).eval () regs =
      some (- EINVAL, stored (qdmaFuncOffsetIndirTable priv.funcId) ringIndex p regs) := by
  rcases first with ⟨below, bad, good⟩
  have inside : p < 0 + indirectionTableSize := by omega
  exact eval_checkedWrites_bad () (by decide) (Nat.zero_le p) inside (Nat.le_of_not_lt bad)
    fun i less => Nat.not_le_of_lt (good i less)

theorem setKey_eval : (setKey order priv req.key).eval () regs = some ((), keyStored order priv.funcId req.key regs) := by
  cases req.key with
  | none => rfl
  | some key => exact eval_writes () 0 (onicEnRssKeySize / 4)

theorem set_refused (taken : ¬ req.HashTaken) : (onicSetRxfh order priv req).eval () regs = some (- EOPNOTSUPP, regs) := by
  have refused : req.hfunc ≠ ethRssHashNoChange ∧ req.hfunc ≠ ethRssHashTop := not_or.mp taken
  rw [onicSetRxfh, if_pos refused]
  rfl

theorem set_taken (taken : req.HashTaken) {rv : Int} {mid : ShellRegs}
    (table : (setRingIndex priv req.ringIndex).eval () regs = some (rv, mid)) :
    (onicSetRxfh order priv req).eval () regs =
      some (rv, if rv = 0 then keyStored order priv.funcId req.key mid else mid) := by
  have known : ¬ (req.hfunc ≠ ethRssHashNoChange ∧ req.hfunc ≠ ethRssHashTop) := fun refused => not_or.mpr refused taken
  rw [onicSetRxfh, if_neg known, Program.eval_bind, table]
  simp only [Option.bind_some]
  by_cases failed : rv = 0
  · subst failed
    simp [Program.eval_bind, setKey_eval]
  · simp [failed]

/-- What the call can do: refuse the hash function, stop at an entry without a queue, or store the request. -/
theorem set_cases (order : ByteOrder) (priv : RxfhPriv) (req : RxfhRequest) (regs : ShellRegs) :
    (¬ req.HashTaken ∧ (onicSetRxfh order priv req).eval () regs = some (- EOPNOTSUPP, regs)) ∨
    (req.HashTaken ∧ ∃ ringIndex p, req.ringIndex = some ringIndex ∧ priv.FirstBad ringIndex p ∧
      (onicSetRxfh order priv req).eval () regs =
        some (- EINVAL, stored (qdmaFuncOffsetIndirTable priv.funcId) ringIndex p regs)) ∨
    (req.HashTaken ∧ priv.Fits req ∧ (onicSetRxfh order priv req).eval () regs =
      some (0, keyStored order priv.funcId req.key (tableStored priv.funcId req.ringIndex regs))) := by
  by_cases taken : req.HashTaken
  · rcases priv.fits_or_firstBad req with fits | ⟨ringIndex, p, table, first⟩
    · exact Or.inr (Or.inr ⟨taken, fits, set_taken taken (setRingIndex_fits fits)⟩)
    · have stopped := @setRingIndex_stops priv regs ringIndex p first
      rw [← table] at stopped
      exact Or.inr (Or.inl ⟨taken, ringIndex, p, table, first, set_taken taken stopped⟩)
  · exact Or.inl ⟨taken, set_refused taken⟩

end

/-- The registers of the function are as they were if the call failed, and it has a queue for every entry
    written if the call returned 0. -/
def RxfhAtomic (priv : RxfhPriv) (req : RxfhRequest) (before : ShellRegs) (rv : Int) (after : ShellRegs) : Prop :=
  (rv ≠ 0 →
    (∀ k, k < indirectionTableSize →
      after (qdmaFuncOffsetIndirTable priv.funcId k) = before (qdmaFuncOffsetIndirTable priv.funcId k)) ∧
    ∀ k, k < onicEnRssKeySize / 4 →
      after (qdmaFuncOffsetHashKey priv.funcId k) = before (qdmaFuncOffsetHashKey priv.funcId k)) ∧
  (rv = 0 → req.ringIndex ≠ none → ∀ k, k < indirectionTableSize →
    (after (qdmaFuncOffsetIndirTable priv.funcId k)).toNat < priv.numRxQueues.toNat)

/-- The entries before the first one without a queue are in the table already. -/
def RxfhHarmless (priv : RxfhPriv) (req : RxfhRequest) (before : ShellRegs) : Prop :=
  req.HashTaken → ∀ ringIndex p, req.ringIndex = some ringIndex → priv.FirstBad ringIndex p →
    ∀ i, i < p → before (qdmaFuncOffsetIndirTable priv.funcId i) = ringIndex i

theorem RxfhPriv.FirstBad.unique {priv : RxfhPriv} {ringIndex : Nat → Word} {p q : Nat} (first : priv.FirstBad ringIndex p)
    (first' : priv.FirstBad ringIndex q) : p = q := by
  rcases Nat.lt_trichotomy p q with less | same | more
  · exact absurd (first'.2.2 p less) first.2.1
  · exact same
  · exact absurd (first.2.2 q more) first'.2.1

theorem RxfhPriv.Fits.not_firstBad {priv : RxfhPriv} {req : RxfhRequest} {ringIndex : Nat → Word} {p : Nat}
    (fits : priv.Fits req) (table : req.ringIndex = some ringIndex) : ¬ priv.FirstBad ringIndex p :=
  fun first => first.2.1 (fits ringIndex table p first.1)

theorem keyStored_other {order : ByteOrder} {f : Nat} {key : Option (Nat → BitVec 8)} {regs : ShellRegs} {off : Nat}
    (outside : ∀ i, i < onicEnRssKeySize / 4 → off ≠ qdmaFuncOffsetHashKey f i) :
    keyStored order f key regs off = regs off := by
  cases key with
  | none => rfl
  | some key => exact stored_outside outside

theorem tableStored_other {f : Nat} {ringIndex : Option (Nat → Word)} {regs : ShellRegs} {off : Nat}
    (outside : ∀ i, i < indirectionTableSize → off ≠ qdmaFuncOffsetIndirTable f i) :
    tableStored f ringIndex regs off = regs off := by
  cases ringIndex with
  | none => rfl
  | some ringIndex => exact stored_outside outside

/-- For every request and all registers: the update is atomic if and only if the hash function is refused, all
    entries have a queue, or those before the first one that has none are in the table already. -/
theorem rxfh_atomic_iff (order : ByteOrder) (priv : RxfhPriv) (req : RxfhRequest) (before : ShellRegs) :
    ∃ rv after, (onicSetRxfh order priv req).eval () before = some (rv, after) ∧
      (RxfhAtomic priv req before rv after ↔ RxfhHarmless priv req before) := by
  rcases set_cases order priv req before with
    ⟨refused, ran⟩ | ⟨taken, ringIndex, p, table, first, ran⟩ | ⟨taken, fits, ran⟩
  · refine ⟨_, _, ran, fun _ taken => absurd taken refused, fun _ => ⟨fun _ => ⟨fun _ _ => rfl, fun _ _ => rfl⟩, ?_⟩⟩
    exact fun zero => absurd zero (by decide)
  · refine ⟨_, _, ran, ?_, ?_⟩
    · rintro ⟨kept, -⟩ - ringIndex' q table' first' i less
      rw [table] at table'
      cases table'
      rw [first'.unique first] at less
      have same := (kept (by decide)).1 i (Nat.lt_trans less first.1)
      rw [stored_at (indirTable_injective _) less] at same
      exact same.symm
    · intro harmless
      have same := (stored_same_iff (indirTable_injective _)).mp (harmless taken ringIndex p table first)
      rw [same]
      exact ⟨fun _ => ⟨fun _ _ => rfl, fun _ _ => rfl⟩, fun zero => absurd zero (by decide)⟩
  · refine ⟨_, _, ran, fun _ _ ringIndex p table first => absurd first (fits.not_firstBad table), fun _ => ⟨?_, ?_⟩⟩
    · exact fun failed => absurd rfl failed
    · intro _ given k below
      rcases Option.ne_none_iff_exists'.mp given with ⟨ringIndex, table⟩
      rw [keyStored_other fun i less => indirTable_ne_hashKey below less, table]
      have written : tableStored priv.funcId (some ringIndex) before (qdmaFuncOffsetIndirTable priv.funcId k) = ringIndex k :=
        stored_at (indirTable_injective _) below
      rw [written]
      exact fits ringIndex table k below

/-- Two queues, the table alternating between them: a request whose second entry names queue 2 is refused with
    its first entry in the table. -/
theorem rxfh_update_torn : ¬ ∀ order priv req before rv after,
    (onicSetRxfh order priv req).eval () before = some (rv, after) → RxfhAtomic priv req before rv after := by
  intro all
  let before : ShellRegs := fun off => if off / 4 % 2 = 0 then 0 else 1
  let req : RxfhRequest := ⟨some fun i => if i = 0 then 1 else 2, none, ethRssHashTop⟩
  have ran : ((onicSetRxfh .little ⟨0, 2⟩ req).eval () before).map (fun r => (r.1, r.2 0x1400)) = some (-22, 1) := by
    decide
  rcases Option.map_eq_some_iff.mp ran with ⟨⟨rv, after⟩, ran, found⟩
  have entry : after 0x1400 = 1 := (Prod.mk.inj found).2
  have failed : rv = -22 := (Prod.mk.inj found).1
  have kept : after 0x1400 = before 0x1400 := ((all _ _ _ _ _ _ ran).1 (by omega)).1 0 (by decide)
  rw [kept] at entry
  exact absurd entry (by decide)

/-- The table and the key that a function hashes with. -/
@[ext] structure RssConfig where
  table : Fin indirectionTableSize → Word
  key : Fin onicEnRssKeySize → BitVec 8

/-- The parts that a request gives take the place of the stored ones. -/
def RssConfig.update (config : RssConfig) (req : RxfhRequest) : RssConfig where
  table k := (req.ringIndex.map fun ringIndex => ringIndex k).getD (config.table k)
  key m := (req.key.map fun key => key m).getD (config.key m)

/-- What the registers of function `f` hold. -/
def rssConfig (order : ByteOrder) (regs : ShellRegs) (f : Nat) : RssConfig where
  table k := 0xFFFF &&& regs (qdmaFuncOffsetIndirTable f k)
  key m := order.byte (regs (qdmaFuncOffsetHashKey f (m / 4))) (m % 4)

/-- The buffers that the caller gave, with the configuration in them. -/
structure RxfhOut.Tells (out filled : RxfhOut) (config : RssConfig) : Prop where
  ringIndex : filled.ringIndex.isSome = out.ringIndex.isSome
  table : ∀ ringIndex, filled.ringIndex = some ringIndex → ∀ k : Fin indirectionTableSize, ringIndex k = config.table k
  keyGiven : filled.key.isSome = out.key.isSome
  key : ∀ key, filled.key = some key → ∀ m : Fin onicEnRssKeySize, key m = config.key m
  hfunc : filled.hfunc = out.hfunc.map fun _ => ethRssHashTop

theorem getRingIndex_eval (priv : RxfhPriv) (ringIndex : Option (Nat → Word)) (regs : ShellRegs) :
    (getRingIndex priv ringIndex).eval () regs = some (ringIndex.map fun buf k =>
      if k < indirectionTableSize then 0xFFFF &&& regs (qdmaFuncOffsetIndirTable priv.funcId k) else buf k, regs) := by
  cases ringIndex with
  | none => rfl
  | some buf =>
    have puts (i : Nat) (val : Word) (buf : Nat → Word) (m : Nat) :
        Function.update buf i (0xFFFF &&& val) m = if id m = i then 0xFFFF &&& val else buf m :=
      Function.update_apply ..
    rw [getRingIndex, Program.eval_bind, eval_reads puts]
    simp [onicGetRxfhIndirSize]

theorem getKey_eval (order : ByteOrder) (priv : RxfhPriv) (key : Option (Nat → BitVec 8)) (regs : ShellRegs) :
    (getKey order priv key).eval () regs = some (key.map fun buf m =>
      if m < onicEnRssKeySize then order.byte (regs (qdmaFuncOffsetHashKey priv.funcId (m / 4))) (m % 4) else buf m, regs) := by
  cases key with
  | none => rfl
  | some buf =>
    have puts (i : Nat) (val : Word) (buf : Nat → BitVec 8) (m : Nat) :
        memcpyWord order (i * 4) val buf m = if m / 4 = i then order.byte val (m % 4) else buf m := by
      have same : (i * 4 ≤ m ∧ m < i * 4 + 4) ↔ m / 4 = i := by omega
      simp only [memcpyWord, same]
      split
      · have offset : m - i * 4 = m % 4 := by omega
        rw [offset]
      · rfl
    have within (m : Nat) : (0 ≤ m / 4 ∧ m / 4 < 0 + onicEnRssKeySize / 4) ↔ m < onicEnRssKeySize := by
      simp only [onicEnRssKeySize]
      omega
    rw [getKey, Program.eval_bind, eval_reads puts]
    simp only [within, Option.bind_some, Program.eval_done, Option.map_some]

theorem get_tells (order : ByteOrder) (priv : RxfhPriv) (out : RxfhOut) (regs : ShellRegs) :
    ∃ filled, (onicGetRxfh order priv out).eval () regs = some ((0, filled), regs) ∧
      out.Tells filled (rssConfig order regs priv.funcId) := by
  rw [onicGetRxfh, Program.eval_bind, getRingIndex_eval]
  simp only [Option.bind_some]
  rw [Program.eval_bind, getKey_eval]
  refine ⟨_, rfl, Option.isSome_map, ?_, Option.isSome_map, ?_, rfl⟩
  · intro ringIndex filled k
    rcases Option.map_eq_some_iff.mp filled with ⟨buf, -, rfl⟩
    exact if_pos k.isLt
  · intro key filled m
    rcases Option.map_eq_some_iff.mp filled with ⟨buf, -, rfl⟩
    exact if_pos m.isLt

theorem low_half {val : Word} (small : val.toNat < 2 ^ 16) : 0xFFFF &&& val = val := by
  apply BitVec.eq_of_toNat_eq
  rw [BitVec.and_comm, BitVec.toNat_and]
  exact (Nat.and_two_pow_sub_one_eq_mod val.toNat 16).trans (Nat.mod_eq_of_lt small)

section

variable {order : ByteOrder} {f : Nat} {ringIndex : Nat → Word} {key : Nat → BitVec 8} {regs : ShellRegs}

theorem tableStored_at {k : Nat} (below : k < indirectionTableSize) :
    tableStored f (some ringIndex) regs (qdmaFuncOffsetIndirTable f k) = ringIndex k :=
  stored_at (indirTable_injective f) below

theorem keyStored_at {k : Nat} (below : k < onicEnRssKeySize / 4) :
    keyStored order f (some key) regs (qdmaFuncOffsetHashKey f k) = order.load fun j => key (k * 4 + j) :=
  stored_at (hashKey_injective f) below

end

/-- The call changes no register but those of the function's own table and key. -/
theorem set_elsewhere {order : ByteOrder} {f : Nat} {req : RxfhRequest} {regs : ShellRegs} {off : Nat}
    (table : ∀ i, i < indirectionTableSize → off ≠ qdmaFuncOffsetIndirTable f i)
    (key : ∀ i, i < onicEnRssKeySize / 4 → off ≠ qdmaFuncOffsetHashKey f i) :
    keyStored order f req.key (tableStored f req.ringIndex regs) off = regs off :=
  (keyStored_other key).trans (tableStored_other table)

theorem rssConfig_congr {order : ByteOrder} {regs regs' : ShellRegs} {f : Nat}
    (table : ∀ k, k < indirectionTableSize → regs' (qdmaFuncOffsetIndirTable f k) = regs (qdmaFuncOffsetIndirTable f k))
    (key : ∀ k, k < onicEnRssKeySize / 4 → regs' (qdmaFuncOffsetHashKey f k) = regs (qdmaFuncOffsetHashKey f k)) :
    rssConfig order regs' f = rssConfig order regs f := by
  have entries : ∀ k : Fin indirectionTableSize, regs' (qdmaFuncOffsetIndirTable f k) = regs (qdmaFuncOffsetIndirTable f k) :=
    fun k => table k k.isLt
  have words : ∀ m : Fin onicEnRssKeySize, regs' (qdmaFuncOffsetHashKey f (m / 4)) = regs (qdmaFuncOffsetHashKey f (m / 4)) :=
    fun m => key (m / 4) (Nat.div_lt_div_of_lt_of_dvd (by decide) m.isLt)
  simp only [rssConfig, entries, words]

section

variable {order : ByteOrder} {priv : RxfhPriv} {req : RxfhRequest} {regs : ShellRegs}

/-- A successful call updates the configuration of its own function. -/
theorem set_updates (fits : priv.Fits req) :
    rssConfig order (keyStored order priv.funcId req.key (tableStored priv.funcId req.ringIndex regs)) priv.funcId =
      (rssConfig order regs priv.funcId).update req := by
  ext1
  · funext k
    simp only [rssConfig, RssConfig.update]
    rw [keyStored_other fun i less => indirTable_ne_hashKey k.isLt less]
    cases table : req.ringIndex with
    | none => rfl
    | some ringIndex =>
      have entry : (ringIndex k).toNat < 2 ^ 16 := Nat.lt_trans (fits ringIndex table k k.isLt) priv.numRxQueues.isLt
      rw [tableStored_at k.isLt, low_half entry]
      rfl
  · funext m
    have word : m.val / 4 < onicEnRssKeySize / 4 := Nat.div_lt_div_of_lt_of_dvd (by decide) m.isLt
    simp only [rssConfig, RssConfig.update]
    cases given : req.key with
    | none =>
      have apart : tableStored priv.funcId req.ringIndex regs (qdmaFuncOffsetHashKey priv.funcId (m / 4)) =
          regs (qdmaFuncOffsetHashKey priv.funcId (m / 4)) :=
        tableStored_other fun i less => (indirTable_ne_hashKey less word).symm
      simp [keyStored, apart]
    | some key =>
      have place : m.val / 4 * 4 + m.val % 4 = m.val := Nat.div_add_mod' m.val 4
      rw [keyStored_at word, ByteOrder.byte_load order _ (Nat.mod_lt _ (by decide)), place]
      rfl

theorem set_keeps_other {g : Nat} (other : g ≠ priv.funcId) :
    (∀ k, k < indirectionTableSize →
      keyStored order priv.funcId req.key (tableStored priv.funcId req.ringIndex regs) (qdmaFuncOffsetIndirTable g k) =
        regs (qdmaFuncOffsetIndirTable g k)) ∧
    ∀ k, k < onicEnRssKeySize / 4 →
      keyStored order priv.funcId req.key (tableStored priv.funcId req.ringIndex regs) (qdmaFuncOffsetHashKey g k) =
        regs (qdmaFuncOffsetHashKey g k) := by
  constructor
  · intro k below
    exact set_elsewhere (fun i less => indirTable_ne_indirTable other below less)
      fun i less => indirTable_ne_hashKey below less
  · intro k below
    exact set_elsewhere (fun i less => (indirTable_ne_hashKey less below).symm)
      fun i less => hashKey_ne_hashKey other below less

theorem set_keeps_qconf (g : Nat) :
    keyStored order priv.funcId req.key (tableStored priv.funcId req.ringIndex regs) (qdmaFuncOffsetQconf g) =
      regs (qdmaFuncOffsetQconf g) :=
  set_elsewhere (fun _ less => qconf_ne_indirTable less) fun _ less => qconf_ne_hashKey less

/-- A call that returns 0 has stored its request. -/
theorem set_succeeded {after : ShellRegs} (ran : (onicSetRxfh order priv req).eval () regs = some (0, after)) :
    priv.Fits req ∧ after = keyStored order priv.funcId req.key (tableStored priv.funcId req.ringIndex regs) := by
  rcases set_cases order priv req regs with ⟨-, ran'⟩ | ⟨-, ringIndex, p, -, -, ran'⟩ | ⟨-, fits, ran'⟩
  · rw [ran'] at ran
    have zero : - EOPNOTSUPP = 0 := congrArg Prod.fst (Option.some.inj ran)
    exact absurd zero (by decide)
  · rw [ran'] at ran
    have zero : - EINVAL = 0 := congrArg Prod.fst (Option.some.inj ran)
    exact absurd zero (by decide)
  · rw [ran'] at ran
    exact ⟨fits, (congrArg Prod.snd (Option.some.inj ran)).symm⟩

end

/-- One call of `onic_set_rxfh` on some function of the card. -/
structure RxfhCall where
  priv : RxfhPriv
  req : RxfhRequest

/-- Successful calls one after the other. -/
def RxfhRun (order : ByteOrder) : List RxfhCall → ShellRegs → ShellRegs → Prop
  | [], before, after => after = before
  | c :: calls, before, after =>
    ∃ mid, (onicSetRxfh order c.priv c.req).eval () before = some (0, mid) ∧ RxfhRun order calls mid after

/-- The last such part that a call on function `f` gave. -/
def lastGiven {α : Type} (f : Nat) (part : RxfhRequest → Option α) : List RxfhCall → Option α
  | [] => none
  | c :: calls => (lastGiven f part calls).or (if c.priv.funcId = f then part c.req else none)

/-- The last table and the last key that calls on function `f` gave. -/
def lastRequest (f : Nat) (calls : List RxfhCall) : RxfhRequest :=
  ⟨lastGiven f RxfhRequest.ringIndex calls, lastGiven f RxfhRequest.key calls, ethRssHashTop⟩

theorem update_update (config : RssConfig) (req : RxfhRequest) (table : Option (Nat → Word))
    (key : Option (Nat → BitVec 8)) (hfunc : BitVec 8) :
    (config.update req).update ⟨table, key, hfunc⟩ = config.update ⟨table.or req.ringIndex, key.or req.key, hfunc⟩ := by
  ext1
  · cases table <;> rfl
  · cases key <;> rfl

/-- Over a run each function's configuration becomes what the calls on it gave last. -/
theorem run_config {order : ByteOrder} {calls : List RxfhCall} {before after : ShellRegs}
    (ran : RxfhRun order calls before after) (f : Nat) :
    rssConfig order after f = (rssConfig order before f).update (lastRequest f calls) := by
  induction calls generalizing before with
  | nil =>
    rw [show after = before from ran]
    rfl
  | cons c calls ih =>
    rcases ran with ⟨mid, first, rest⟩
    obtain ⟨fits, rfl⟩ := set_succeeded first
    rw [ih rest]
    by_cases own : c.priv.funcId = f
    · subst own
      rw [set_updates fits, lastRequest, update_update]
      simp [lastRequest, lastGiven]
    · have kept := @set_keeps_other order c.priv c.req before f (Ne.symm own)
      rw [rssConfig_congr kept.1 kept.2]
      simp [lastRequest, lastGiven, own]

theorem run_keeps_qconf {order : ByteOrder} {calls : List RxfhCall} {before after : ShellRegs}
    (ran : RxfhRun order calls before after) (g : Nat) : after (qdmaFuncOffsetQconf g) = before (qdmaFuncOffsetQconf g) := by
  induction calls generalizing before with
  | nil => rw [show after = before from ran]
  | cons c calls ih =>
    rcases ran with ⟨mid, first, rest⟩
    obtain ⟨-, rfl⟩ := set_succeeded first
    exact (ih rest).trans (set_keeps_qconf g)

theorem run_keeps_other {order : ByteOrder} {calls : List RxfhCall} {before after : ShellRegs}
    (ran : RxfhRun order calls before after) {g : Nat} (other : ∀ c ∈ calls, g ≠ c.priv.funcId) :
    (∀ k, k < indirectionTableSize → after (qdmaFuncOffsetIndirTable g k) = before (qdmaFuncOffsetIndirTable g k)) ∧
    ∀ k, k < onicEnRssKeySize / 4 → after (qdmaFuncOffsetHashKey g k) = before (qdmaFuncOffsetHashKey g k) := by
  induction calls generalizing before with
  | nil =>
    rw [show after = before from ran]
    exact ⟨fun _ _ => rfl, fun _ _ => rfl⟩
  | cons c calls ih =>
    rcases ran with ⟨mid, first, rest⟩
    obtain ⟨-, rfl⟩ := set_succeeded first
    have later := ih rest fun d mem => other d (List.mem_cons_of_mem c mem)
    have here := @set_keeps_other order c.priv c.req before g (other c List.mem_cons_self)
    exact ⟨fun k below => (later.1 k below).trans (here.1 k below), fun k below => (later.2 k below).trans (here.2 k below)⟩

/-- A request whose entries name queues is taken. After any successful calls on any functions, each function reads
    back the table and the key that it was given last, or those it had before; the registers of functions not
    called, and every QCONF register, are as they were. -/
theorem rxfh_read_back (order : ByteOrder) :
    (∀ (priv : RxfhPriv) (req : RxfhRequest) (regs : ShellRegs), req.HashTaken → priv.Fits req →
      ∃ after, (onicSetRxfh order priv req).eval () regs = some (0, after)) ∧
    ∀ (calls : List RxfhCall) (before after : ShellRegs), RxfhRun order calls before after →
      (∀ (reader : RxfhPriv) (out : RxfhOut),
        ∃ filled, (onicGetRxfh order reader out).eval () after = some ((0, filled), after) ∧
          out.Tells filled ((rssConfig order before reader.funcId).update (lastRequest reader.funcId calls))) ∧
      (∀ g, (∀ c ∈ calls, g ≠ c.priv.funcId) →
        (∀ k, k < indirectionTableSize → after (qdmaFuncOffsetIndirTable g k) = before (qdmaFuncOffsetIndirTable g k)) ∧
        ∀ k, k < onicEnRssKeySize / 4 → after (qdmaFuncOffsetHashKey g k) = before (qdmaFuncOffsetHashKey g k)) ∧
      ∀ g, after (qdmaFuncOffsetQconf g) = before (qdmaFuncOffsetQconf g) := by
  constructor
  · intro priv req regs taken fits
    exact ⟨_, set_taken taken (setRingIndex_fits fits)⟩
  · intro calls before after ran
    refine ⟨fun reader out => ?_, fun g other => run_keeps_other ran other, run_keeps_qconf ran⟩
    rw [← run_config ran]
    exact get_tells order reader out after

/-- Function 0 sets a table over four queues; function 1 then sets a key. -/
def twoFunctions : List RxfhCall :=
  [⟨⟨0, 4⟩, ⟨some fun i => BitVec.ofNat 32 (i % 4), none, ethRssHashTop⟩⟩,
    ⟨⟨1, 2⟩, ⟨none, some fun i => BitVec.ofNat 8 i, ethRssHashNoChange⟩⟩]

theorem rxfh_read_back_two_functions :
    ∃ after filled, RxfhRun .little twoFunctions (fun _ => 7) after ∧
      (onicGetRxfh .little ⟨0, 4⟩ ⟨some fun _ => 0, none, none⟩).eval () after = some ((0, filled), after) ∧
      ∀ ringIndex, filled.ringIndex = some ringIndex →
        ∀ k : Fin indirectionTableSize, ringIndex k = BitVec.ofNat 32 (k % 4) := by
  have fits : RxfhPriv.Fits ⟨0, 4⟩ ⟨some fun i => BitVec.ofNat 32 (i % 4), none, ethRssHashTop⟩ := by
    rintro ringIndex ⟨⟩ i -
    have small : i % 4 < 4 := Nat.mod_lt i (by decide)
    have value : (BitVec.ofNat 32 (i % 4)).toNat = i % 4 := Nat.mod_eq_of_lt (Nat.lt_trans small (by decide))
    rw [RxfhPriv.HasQueue, value]
    exact small
  have none : RxfhPriv.Fits ⟨1, 2⟩ ⟨none, some fun i => BitVec.ofNat 8 i, ethRssHashNoChange⟩ := nofun
  have accepted := (rxfh_read_back .little).1
  obtain ⟨mid, first⟩ := accepted _ _ (fun _ => 7) (Or.inr rfl) fits
  obtain ⟨after, second⟩ := accepted _ _ mid (Or.inl rfl) none
  have ran : RxfhRun .little twoFunctions (fun _ => 7) after := ⟨mid, first, after, second, rfl⟩
  obtain ⟨filled, got, tells⟩ := ((rxfh_read_back .little).2 _ _ _ ran).1 ⟨0, 4⟩ ⟨some fun _ => 0, .none, .none⟩
  exact ⟨after, filled, ran, got, tells.table⟩

end OpenNic
