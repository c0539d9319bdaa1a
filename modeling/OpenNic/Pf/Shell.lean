import OpenNic.Pf.Rxfh
import OpenNic.Qdma.Queue

namespace OpenNic

open RegisterFile

def c2hTimerPool : List Nat := [10, 2, 4, 5, 8, 10, 15, 20, 25, 30, 50, 75, 100, 125, 150, 200]

def c2hThresPool : List Nat := [64, 2, 4, 8, 16, 24, 32, 48, 80, 96, 112, 128, 144, 160, 176, 192]

def onicRingCount (idx : BitVec 8) : Nat := if idx.toNat < 16 then rngcntPool.getD idx.toNat 0 else 0

def qdmaOffsetGlblRngSz : Nat := 0x204

def qdmaOffsetC2hBufSz : Nat := 0xAB0

def qdmaOffsetC2hTimerCnt : Nat := 0xA00

def qdmaOffsetC2hCntTh : Nat := 0xA40

def qdmaOffsetGlblErrMask : Nat := 0x24C

def qdmaOffsetGlblErrInt : Nat := 0xB04

/-- From here on every function has registers of its own. -/
def qdmaOffsetDmapSel : Nat := 0x18000

/-- `mask_reg_addr`, `leaf_err_mask` and `glbl_err_mask` of the leaf error aggregators. -/
def leafErrorAggregators : List (Nat × Word × BitVec 64) :=
  [(0x258, 0x1F9023F, bit 2), (0x268, 0xF, bit 3), (0xAF4, 0xFEDB, bit 8), (0xAFC, 0x7DF1B, bit 8), (0xE04, 0x1F, bit 11),
    (0xF0, 0xFFFFFF11, bit 0), (0xF8, 0xFFFFFF11, bit 1)]

/-- What a driver notes of its hardware, and its number of queues. -/
structure ShellPriv where
  numQueues : Nat
  addr : Bool
  qdma : Bool
  numCmacs : Nat
  errorIntr : Bool
  registered : Bool

/-- The registers of the shell and of the QDMA IP, and the PFs. `calibrated` is history: the master PF
    has been through `onic_qdma_init_csr`. -/
structure Shell where
  regs : ShellRegs
  csr : Option (Fin 4) × Nat → Word
  priv : Fin 4 → ShellPriv
  calibrated : Bool

/-- Whether something is obtained or a command succeeds, the errors and the vectors granted (less one). -/
structure ShellInput where
  flag : Bool
  errno : Fin 4095
  vectors : Fin 64

/-- The register that a function finds at an offset of its BAR 0. -/
def bar0 (f : Fin 4) (off : Nat) : Option (Fin 4) × Nat := (if off < qdmaOffsetDmapSel then none else some f, off)

namespace Shell

def setPriv (s : Shell) (f : Fin 4) (change : ShellPriv → ShellPriv) : Shell :=
  { s with priv := Function.update s.priv f (change (s.priv f)) }

def modPriv (f : Fin 4) (change : ShellPriv → ShellPriv) : Program Shell ShellInput Unit := .modify fun s => s.setPriv f change

def readPriv {α : Type} (f : Fin 4) (get : ShellPriv → α) : Program Shell ShellInput α := .read fun s => get (s.priv f)

def obtained : Program Shell ShellInput Bool := .access fun input s => some (input.flag, s)

/-- 0, or some error. -/
def outcome : Program Shell ShellInput Int :=
  .access fun input s => some (if input.flag then 0 else - (input.errno.val + 1 : Nat), s)

def onicReadReg (off : Nat) : Program Shell ShellInput Word := .read fun s => s.regs off

def onicWriteReg (off : Nat) (val : Word) : Program Shell ShellInput Unit :=
  .modify fun s => { s with regs := Function.update s.regs off val }

/-- The loop of reads that ends once the bits of `mask` are set. -/
def onicAwaitReg (off : Nat) (mask : Word) : Program Shell ShellInput Unit :=
  .access fun _ s => if s.regs off &&& mask = mask then some ((), s) else none

def qdmaReadReg (f : Fin 4) (off : Nat) : Program Shell ShellInput Word := .read fun s => s.csr (bar0 f off)

def qdmaWriteReg (f : Fin 4) (off : Nat) (val : Word) : Program Shell ShellInput Unit :=
  .modify fun s => { s with csr := Function.update s.csr (bar0 f off) val }

/-- `FIELD_SET` of the fields or-ed together, in a `u32`. -/
def fields (fs : List (BitVec 64 × BitVec 64)) : Word := (orFields fs 0).setWidth 32

section

variable (f : Fin 4)

def onicSetQPidx (c2h : Bool) (qid pidx : BitVec 16) (irqArm : BitVec 8) : Program Shell ShellInput Unit :=
  qdmaWriteReg f ((if c2h then 0x18008 else 0x18004) + qid.toNat * 16)
    (fields [(genmask 15 0, pidx.setWidth 64), (bit 16, irqArm.setWidth 64)])

def onicSetTxHead (qid head : BitVec 16) : Program Shell ShellInput Unit := onicSetQPidx f false qid head 0

def onicSetRxHead (qid head : BitVec 16) : Program Shell ShellInput Unit := onicSetQPidx f true qid head 0

def onicQdmaSetCmplCidx (qid cidx : BitVec 16) (counterIdx timerIdx trigMode statEn irqArm : BitVec 8) :
    Program Shell ShellInput Unit :=
  qdmaWriteReg f (0x1800C + qid.toNat * 16)
    (fields [(genmask 15 0, cidx.setWidth 64), (genmask 19 16, counterIdx.setWidth 64), (genmask 23 20, timerIdx.setWidth 64),
      (genmask 26 24, trigMode.setWidth 64), (bit 27, statEn.setWidth 64), (bit 28, irqArm.setWidth 64)])

def onicSetCompletionTail (qid tail : BitVec 16) (irqArm : BitVec 8) : Program Shell ShellInput Unit :=
  onicQdmaSetCmplCidx f qid tail 0 0 5 1 irqArm

/-- One loop of `onic_qdma_init_csr` over the values of a pool. -/
def writePool (base : Nat) (pool : List Nat) : Program Shell ShellInput Unit :=
  .fold (fun i _ => qdmaWriteReg f (base + i * 4) (BitVec.ofNat 32 (pool.getD i 0))) 0 16 ()

def onicQdmaInitCsr : Program Shell ShellInput Unit := do
  writePool f qdmaOffsetGlblRngSz rngcntPool
  writePool f qdmaOffsetC2hBufSz c2hBufszPool
  qdmaWriteReg f 0xB0C 25
  writePool f qdmaOffsetC2hTimerCnt c2hTimerPool
  writePool f qdmaOffsetC2hCntTh c2hThresPool
  qdmaWriteReg f 0x250 (fields [(genmask 5 3, 6), (genmask 2 0, 0)])
  let depth ← qdmaReadReg f 0xBE0
  qdmaWriteReg f 0xB08 (fields [(genmask 8 0, 256), (genmask 17 9, 8), (genmask 24 18, (depth >>> 1).setWidth 64),
    (genmask 31 25, ((depth >>> 1) - 2).setWidth 64)])
  let depth ← qdmaReadReg f 0xBE4
  qdmaWriteReg f 0xB50 (fields [(genmask 13 2, 5), (genmask 25 14, 25), (genmask 31 26, depth.setWidth 64)])
  qdmaWriteReg f 0xE24 (fields [(genmask 15 0, 0x4000), (bit 16, 1), (genmask 25 17, 0x60), (bit 31, 0)])

/-- One round of the loop over the leaf error aggregators. -/
def unmaskError (leaf : Nat × Word × BitVec 64) : Program Shell ShellInput Unit := do
  qdmaWriteReg f leaf.1 leaf.2.1
  let val ← qdmaReadReg f qdmaOffsetGlblErrMask
  qdmaWriteReg f qdmaOffsetGlblErrMask (val ||| (fieldSet leaf.2.2 1).setWidth 32)

def glblErrInt (vid : Nat) (arm : BitVec 64) : Word :=
  fields [(genmask 7 0, BitVec.ofNat 64 f), (genmask 22 12, BitVec.ofNat 64 vid), (bit 24, arm)]

def unmaskErrors : List (Nat × Word × BitVec 64) → Program Shell ShellInput Unit
  | [] => .done ()
  | leaf :: leaves => do
    unmaskError f leaf
    unmaskErrors leaves

def onicQdmaInitErrorInterrupt (vid : Nat) : Program Shell ShellInput Unit := do
  qdmaWriteReg f qdmaOffsetGlblErrInt (glblErrInt f vid 0)
  unmaskErrors f leafErrorAggregators
  qdmaWriteReg f qdmaOffsetGlblErrInt (glblErrInt f vid 1)

def onicQdmaClearErrorInterrupt : Program Shell ShellInput Unit := qdmaWriteReg f qdmaOffsetGlblErrInt 0

def cmacOffset (i : Nat) : Nat := if i = 0 then 0x8000 else 0xC000

/-- The registers after the reset, in the order they are written, and their values. -/
def cmacSettings : List (Nat × Word) :=
  [(0x14, 0x1), (0xC, 0x10), (0xC, 0x1), (0x84, 0x3DFF), (0x88, 0x1C631), (0x48, 0xFFFFFFFF), (0x4C, 0xFFFFFFFF),
    (0x50, 0xFFFFFFFF), (0x54, 0xFFFFFFFF), (0x58, 0xFFFF), (0x34, 0xFFFFFFFF), (0x38, 0xFFFFFFFF), (0x3C, 0xFFFFFFFF),
    (0x40, 0xFFFFFFFF), (0x44, 0xFFFF), (0x30, 0x1FF)]

def writeCmac (i : Nat) : List (Nat × Word) → Program Shell ShellInput Unit
  | [] => .done ()
  | (off, val) :: rest => do
    onicWriteReg (cmacOffset i + off) val
    writeCmac i rest

def onicEnableCmac (rsFec : Bool) (cmacId : Nat) : Program Shell ShellInput Int :=
  if cmacId ≠ 0 ∧ cmacId ≠ 1 then .done (-EINVAL)
  else do
    (if cmacId = 0 then do
      onicWriteReg 0xC 0x10
      onicAwaitReg 0x10 0x10
    else do
      onicWriteReg 0xC 0x100
      onicAwaitReg 0x10 0x100)
    (if rsFec then writeCmac cmacId [(0x107C, 0x3), (0x1000, 0x7)] else .done ())
    writeCmac cmacId cmacSettings
    .done 0

/-- The loop that counts the CMACs, with `left` of them still to look at. -/
def countCmacs (rsFec : Bool) : Nat → Nat → Program Shell ShellInput Nat
  | 0, i => .done i
  | left + 1, i => do
    let val ← onicReadReg (cmacOffset i + 0x24)
    if val ≠ 0x301 then .done i
    else
      (if f = 0 then do
        let _ ← onicEnableCmac rsFec i
      else .done ())
      countCmacs rsFec left (i + 1)

/-- Invalidating the function map changes none of this state. -/
def onicClearHardware : Program Shell ShellInput Unit := do
  (if ← readPriv f ShellPriv.addr then onicWriteReg (qdmaFuncOffsetQconf f) 0 else .done ())
  modPriv f fun priv => { priv with addr := false, qdma := false, numCmacs := 0 }

def qconf (n : Nat) : Word :=
  fields [(genmask 31 16, BitVec.ofNat 64 (f * 64)), (genmask 15 0, BitVec.ofNat 64 n)]

/-- From `inform shell about the function map` on. -/
def informShell (rsFec : Bool) (qmax : Nat) : Program Shell ShellInput Int := do
  onicWriteReg (qdmaFuncOffsetQconf f) (qconf f qmax)
  .fold (fun i _ => onicWriteReg (qdmaFuncOffsetIndirTable f i) (BitVec.ofNat 32 (i % qmax) &&& 0xFFFF)) 0 128 ()
  (if f = 0 then do
    onicQdmaInitCsr f
    .modify fun s => { s with calibrated := true }
  else .done ())
  let numCmacs ← countCmacs f rsFec 2 0
  modPriv f fun priv => { priv with numCmacs := numCmacs }
  .done 0

def onicInitHardware (rsFec : Bool) : Program Shell ShellInput Int := do
  if ← obtained then
    modPriv f fun priv => { priv with addr := true }
    if ← obtained then
      modPriv f fun priv => { priv with qdma := true }
      let qmax ← readPriv f ShellPriv.numQueues
      -- `qdma_clear_fmap_ctxt` and `qdma_write_fmap_ctxt`
      let rv ← outcome
      if rv < 0 then
        onicClearHardware f
        .done rv
      else
        let rv ← outcome
        if rv < 0 then
          onicClearHardware f
          .done rv
        else informShell f rsFec qmax
    else
      onicClearHardware f
      .done (-ENOMEM)
  else .done (-EINVAL)

/-- What it does to registers of the IP that all functions share. -/
def onicClearInterrupt : Program Shell ShellInput Unit := do
  if ← readPriv f ShellPriv.errorIntr then
    onicQdmaClearErrorInterrupt f
    modPriv f fun priv => { priv with errorIntr := false }
  else .done ()

def onicInitInterrupt : Program Shell ShellInput Int := do
  let rv ← outcome
  if rv < 0 then
    onicClearInterrupt f
    .done rv
  else if f = 0 then
    let numQueues ← readPriv f ShellPriv.numQueues
    onicQdmaInitErrorInterrupt f (numQueues + 1)
    modPriv f fun priv => { priv with errorIntr := true }
    .done 0
  else .done 0

def ShellPriv.zero : ShellPriv := ⟨0, false, false, 0, false, false⟩

/-- From the allocation of the vectors on; what comes before does not touch the registers. -/
def onicProbe (rsFec : Bool) : Program Shell ShellInput Int := do
  modPriv f fun _ => ShellPriv.zero
  let vectors ← .access fun input s => some (if input.flag then some input.vectors else none, s)
  match vectors with
  | none => .done (-ENOMEM)
  | some vectors =>
    modPriv f fun priv => { priv with numQueues := vectors.val + 1 }
    let rv ← onicInitHardware f rsFec
    if rv < 0 then
      modPriv f fun priv => { priv with numQueues := 0 }
      .done rv
    else
      let rv ← onicInitInterrupt f
      if rv < 0 then
        onicClearHardware f
        modPriv f fun priv => { priv with numQueues := 0 }
        .done rv
      else
        let rv ← outcome
        if rv < 0 then
          onicClearInterrupt f
          onicClearHardware f
          modPriv f fun priv => { priv with numQueues := 0 }
          .done rv
        else
          modPriv f fun priv => { priv with registered := true }
          .done 0

def onicRemove : Program Shell ShellInput Unit := do
  modPriv f fun priv => { priv with registered := false }
  onicClearInterrupt f
  onicClearHardware f
  modPriv f fun priv => { priv with numQueues := 0 }

/-- `onic_set_rxfh` of this function. -/
def setRxfh (order : ByteOrder) (priv : RxfhPriv) (req : RxfhRequest) : Program Shell ShellInput Unit := do
  let _ ← ((onicSetRxfh order priv req).comap fun _ => ()).lift Shell.regs fun regs s => { s with regs := regs }

end

end Shell

end OpenNic
