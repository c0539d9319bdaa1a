import OpenNic.Vf.Netdev
import OpenNic.Program.RelyGuarantee

namespace OpenNic

namespace VfNetdev

def onicVfQIrqHandler (vid : Nat) : Program VfNetdev VfInput Unit := do
  .modify fun s => if s.point = .nulling (.rx vid) then s.lapse .interrupt else s
  match ← readQueue (.rx vid) with
  | none => .done ()
  | some q => if q.napiEnabled then .modify (napiSchedule q.id) else .done ()

/-- `onic_vf_tx_clean` on the queue of an entry; what it does to the buffers is `onicVfTxClean`. -/
def cleanTxQueue (qid : Nat) : Program VfNetdev VfInput Unit := do
  match ← readQueue (.tx qid) with
  | none => .done ()
  | some q => .modify (touch q.mem)

def rxPoll (priv : VfQueues) (id budget : Nat) : Program VfNetdev VfInput Unit := do
  let q ← .access fun _ s => some (s.obj id, s.touch (s.obj id).mem)
  if q.qid < priv.numTxQueues then cleanTxQueue q.qid else .done ()
  let _ ← onRing id (onicVfRxPoll budget)
  .done ()

def onicVfRxCompletionPending (q : RxQueue) : Bool :=
  decide (q.cmplRing.nextToClean ≠ qdmaUnpackC2hCmplStatPidx q.cmplRing.wb)

def pollOnePending (qid : Nat) : Program VfNetdev VfInput Unit := do
  match ← readQueue (.rx qid) with
  | none => .done ()
  | some q =>
    if !q.napiEnabled then .done ()
    else if ← .access fun _ s => some (onicVfRxCompletionPending (s.ring q.id), s.touch q.mem) then
      .modify (napiSchedule q.id)
    else .done ()

def onicVfRxPollWorkFn (priv : VfQueues) : Program VfNetdev VfInput Unit := do
  if ← .read fun s => s.running then
    .fold (fun qid _ => pollOnePending qid) 0 priv.numRxQueues ()
    onicVfRxPollWorkStart
  else .modify fun s => { s with rxPollWork := false }

def onicVfTxCleanWorkFn (priv : VfQueues) : Program VfNetdev VfInput Unit := do
  if ← .read fun s => s.running then
    .fold (fun qid _ => cleanTxQueue qid) 0 priv.numTxQueues ()
    onicVfTxCleanWorkStart
  else .modify fun s => { s with txCleanWork := false }

def onicVfXmitFrame (priv : VfQueues) (mapping : Nat) : Program VfNetdev VfInput Unit :=
  if priv.numTxQueues = 0 then .done ()
  else cleanTxQueue (mapping % priv.numTxQueues)

end VfNetdev

/-- What happens besides the calls of the stack, each at one go: an interrupt, a poll of an instance
    that is enabled, a work that is due, a transmission while the netdev is up, a command that the PF
    executes late, a write of the hardware to a completion ring. -/
inductive VfEvent (priv : VfQueues) (s : VfNetdev) : VfNetdev → Prop
  | interrupt {s' : VfNetdev} (vid : Nat) (vector : vid < priv.numQVectors) (registered : s.qIrq = true)
      (ran : Program.Exec (VfNetdev.onicVfQIrqHandler vid) s () s') : VfEvent priv s s'
  | poll {s' : VfNetdev} (id budget : Nat) (enabled : s.napi id = true)
      (ran : Program.Exec (VfNetdev.rxPoll priv id budget) s () s') : VfEvent priv s s'
  | rxPollWork {s' : VfNetdev} (due : s.rxPollWork = true)
      (ran : Program.Exec (VfNetdev.onicVfRxPollWorkFn priv) s () s') : VfEvent priv s s'
  | txCleanWork {s' : VfNetdev} (due : s.txCleanWork = true)
      (ran : Program.Exec (VfNetdev.onicVfTxCleanWorkFn priv) s () s') : VfEvent priv s s'
  | xmit {s' : VfNetdev} (mapping : Nat) (up : s.up = true)
      (ran : Program.Exec (VfNetdev.onicVfXmitFrame priv mapping) s () s') : VfEvent priv s s'
  | late (before after : List VfCmd) (cmd : VfCmd) (waits : s.late = before ++ cmd :: after) :
      VfEvent priv s (VfNetdev.executeStray cmd { s with late := before ++ after })
  | completion (id : Nat) (desc : Nat → BitVec 64) :
      VfEvent priv s (s.setRing id { s.ring id with cmplRing := { (s.ring id).cmplRing with desc := desc } })

/-- The stack opens and closes the netdev, one after the other, until the driver is removed. -/
def vfRules (priv : VfQueues) : Pool.Rules Unit VfNetdev VfInput where
  calls _ s p :=
    (s.running = false ∧ s.qIrq = true ∧ p = VfNetdev.devOpen priv) ∨
    (s.running = true ∧ p = VfNetdev.devClose priv) ∨
    (s.qIrq = true ∧ p = VfNetdev.onicVfRemove priv)
  env := VfEvent priv

end OpenNic
