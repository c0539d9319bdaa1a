import OpenNic.Mailbox.PfDriver
import OpenNic.Common.ThreadedIrq

namespace OpenNic

/-- The `dev_id` of an interrupt: the device's private data, or the `struct onic_q_vector` of a number. -/
inductive IrqCookie
  | priv
  | vec (id : Nat)
  deriving DecidableEq

/-- What `onic_init_q_vector` allocates; every allocation has a new number. -/
inductive IntrMem
  | name (id : Nat)
  | qVector (id : Nat)
  deriving DecidableEq

def IntrMem.isName : IntrMem → Bool
  | .name _ => true
  | .qVector _ => false

/-- The places where the setup of the interrupts meets the kernel. -/
inductive IntrStep
  | irqName (vid : Nat)
  | qVector (vid : Nat)
  | queueIrq (vid : Nat)
  | userIrq
  | errorIrq
  deriving DecidableEq

/-- The error number of each step (0 where it succeeds), and what an access of the mailbox finds. -/
structure IntrInput where
  fails : IntrStep → Nat
  hw : Input

/-- A PF, its interrupt vectors and its mailbox. `phase` and `overtaken` are what the teardown leaves of the
    history of the mailbox interrupt, the lists after them what was allocated and requested. -/
structure PfIntr where
  mbox : PfSys
  masterPf : Bool
  numQVectors : Nat
  qVector : Nat → Option Nat
  userIntr : Bool
  errorIntr : Bool
  line : Nat → IrqLine IrqCookie
  mboxCtrl : Option Word
  mboxVec : Option Nat
  errorVec : Option Nat
  phase : TeardownPhase
  overtaken : Bool
  next : Nat
  allocated : List IntrMem
  released : List IntrMem
  requested : List (Nat × IrqCookie)
  freed : List (Nat × IrqCookie)

/-- The iterations left of the 256. -/
def onicPfMboxDropStaleRequests : Nat → Int → Program PfSys Input Int
  | 0, _ => .done (- EIO)
  | left + 1, dropped => do
    let status ← PfMbox.readSts
    if !status.has 0 then .done dropped
    else
      PfMbox.writeTargetFn (curSrcFn status)
      PfMbox.writeCmdRcv
      onicPfMboxDropStaleRequests left (dropped + 1)

namespace PfIntr

def onMbox {α : Type} (p : Program PfSys Input α) : Program PfIntr IntrInput α :=
  (p.comap IntrInput.hw).lift PfIntr.mbox fun mbox s => { s with mbox := mbox }

def alloc (step : IntrStep) (mem : Nat → IntrMem) : Program PfIntr IntrInput (Option Nat) :=
  .access fun input s =>
    if input.fails step = 0 then
      some (some s.next, { s with next := s.next + 1, allocated := s.allocated ++ [mem s.next] })
    else some (none, s)

def kfree (mem : IntrMem) : Program PfIntr IntrInput Unit := .modify fun s => { s with released := s.released ++ [mem] }

/-- The user interrupt is the one of the vector after those of the queues. -/
def requestIrq (step : IntrStep) (vid : Nat) (cookie : IrqCookie) : Program PfIntr IntrInput Int :=
  .access fun input s =>
    if (s.line vid).action.isSome then some (- EBUSY, s)
    else if input.fails step ≠ 0 then some (- (input.fails step : Int), s)
    else some (0, { s with
      line := Function.update s.line vid ((s.line vid).request cookie)
      requested := s.requested ++ [(vid, cookie)]
      phase := if vid = s.numQVectors then .up else s.phase
      overtaken := if vid = s.numQVectors then false else s.overtaken })

def freeIrq (vid : Nat) (cookie : IrqCookie) : Program PfIntr IntrInput Unit := do
  .modify fun s => { s with
    freed := s.freed ++ [(vid, cookie)]
    line := if (s.line vid).action = some cookie then Function.update s.line vid (s.line vid).shutDown else s.line }
  .access fun _ s => (s.line vid).drain.map fun l => ((), { s with line := Function.update s.line vid l })

def onicInitQVector (vid : Nat) : Program PfIntr IntrInput Int := do
  let name ← alloc (.irqName vid) .name
  match ← alloc (.qVector vid) .qVector with
  | none => .done (- ENOMEM)
  | some vec =>
    -- `snprintf` does not return from a NULL name
    .access fun (_ : IntrInput) s => if name.isSome then some ((), s) else none
    let rv ← requestIrq (.queueIrq vid) vid (.vec vec)
    if rv < 0 then .done rv
    else
      .modify fun s => { s with qVector := Function.update s.qVector vid (some vec) }
      .done 0

def onicClearQVector (vid : Nat) : Program PfIntr IntrInput Unit := do
  match ← .read fun s => s.qVector vid with
  | none => .done ()
  | some vec =>
    freeIrq vid (.vec vec)
    kfree (.qVector vec)
    .modify fun s => { s with qVector := Function.update s.qVector vid none }

/-- `while (vid--) onic_clear_q_vector(priv, vid);` -/
def clearQVectors : Nat → Program PfIntr IntrInput Unit
  | 0 => .done ()
  | vid + 1 => do
    onicClearQVector vid
    clearQVectors vid

/-- The interrupt of vector `n` with the register that enables the mailbox. -/
def source (n : Nat) (s : PfIntr) : IrqSource IrqCookie Word := ⟨s.line n, s.mboxCtrl, s.phase, s.overtaken⟩

def setSource (n : Nat) (x : IrqSource IrqCookie Word) (s : PfIntr) : PfIntr :=
  { s with
    line := Function.update s.line n x.line
    mboxCtrl := x.ctrl
    phase := x.phase
    overtaken := x.overtaken }

/-- Without a mapped device nothing is written. -/
def writeIntrCtrl (val : Word) : Program PfIntr IntrInput Unit :=
  .modify fun s => if s.mbox.qdevMapped then { s with mboxCtrl := some val } else s

def onicPfMboxIrqDisable : Program PfIntr IntrInput Unit := writeIntrCtrl 0

def onicPfMboxIrqEnable : Program PfIntr IntrInput Unit := writeIntrCtrl qdmaMboxIntrCtrlEn

/-- The `onic_pf_mbox_irq_disable` of the teardown. -/
def disableForTeardown : Program PfIntr IntrInput Unit :=
  .modify fun s => if s.mbox.qdevMapped then
    s.setSource s.numQVectors ((s.source s.numQVectors).switchOff 0) else s

/-- The last thing the teardown does is to return. -/
def finishTeardown : Program PfIntr IntrInput Unit := .modify fun s => { s with phase := .returned }

def onicClearInterrupt : Program PfIntr IntrInput Unit := do
  let masterPf ← .read PfIntr.masterPf
  let numQVectors ← .read PfIntr.numQVectors
  let vid := if masterPf then numQVectors + 1 else numQVectors
  (if masterPf then disableForTeardown else .done ())
  let vid ← (if masterPf then do
    (if ← .read PfIntr.errorIntr then do
      freeIrq vid .priv
      .modify fun s => { s with errorVec := none }
      .modify fun s => { s with errorIntr := false }
    else .done ())
    .done (vid - 1)
  else .done vid)
  (if ← .read PfIntr.userIntr then do
    freeIrq vid .priv
    .modify fun s => { s with userIntr := false }
  else .done ())
  clearQVectors vid
  finishTeardown

def onicPfMboxIrqInit (vector : Nat) : Program PfIntr IntrInput Int := do
  if !(← .read fun s => s.mbox.qdevMapped) then .done (- ENODEV)
  else
    onicPfMboxIrqDisable
    let dropped ← onMbox (onicPfMboxDropStaleRequests 256 0)
    if dropped < 0 then .done dropped
    else
      .modify fun s => { s with mboxVec := some vector }
      onicPfMboxIrqEnable
      .done 0

/-- What only the master PF sets up, from the vector of the user interrupt on. -/
def onicInitMasterInterrupt (vid : Nat) : Program PfIntr IntrInput Int := do
  let rv ← onicPfMboxIrqInit vid
  if rv < 0 then .done rv
  else
    let rv ← requestIrq .errorIrq (vid + 1) .priv
    if rv < 0 then .done rv
    else
      .modify fun s => { s with errorVec := some (vid + 1) }
      .modify fun s => { s with errorIntr := true }
      .done 0

/-- `onic_init_interrupt` without its label. -/
def onicInitVectors : Program PfIntr IntrInput Int := do
  let numQVectors ← .read PfIntr.numQVectors
  let rv ← .untilErr onicInitQVector 0 numQVectors
  if rv < 0 then .done rv
  else
    let rv ← requestIrq .userIrq numQVectors .priv
    if rv < 0 then .done rv
    else
      .modify fun s => { s with userIntr := true }
      if !(← .read PfIntr.masterPf) then .done 0 else onicInitMasterInterrupt numQVectors

def onicInitInterrupt : Program PfIntr IntrInput Int := do
  let rv ← onicInitVectors
  if rv < 0 then
    onicClearInterrupt
    .done rv
  else .done rv

end PfIntr

end OpenNic
