import OpenNic.Pf.Netdev
import OpenNic.Program.RelyGuarantee

namespace OpenNic

/-- The queues while handlers and polls run beside the calls. `qidOf` is `q->qid` of the receive queue objects,
    `filling` is the receive queue whose object is allocated and not in `priv->rx_queue` yet, `txUp` holds
    between the end of `onic_init_tx_resource` and the next stop or open, and `misuses` are the uses of memory
    that was not there by handlers and polls. -/
structure PfLive where
  dev : PfNetdev
  qidOf : Nat → Option Nat
  filling : Option Nat
  txUp : Bool
  misuses : List PfFault

namespace PfLive

def probed (numTxQueues numRxQueues : Nat) : PfLive where
  dev := .probed numTxQueues numRxQueues
  qidOf _ := none
  filling := none
  txUp := false
  misuses := []

def setDev (d : PfNetdev) (s : PfLive) : PfLive := { s with dev := d }

def onDev {α : Type} (p : Program PfNetdev PfFails α) : Program PfLive PfFails α := p.lift PfLive.dev setDev

def setTxUp (up : Bool) (s : PfLive) : PfLive := { s with txUp := up }

/-- `obj` is the new object of receive queue `qid`. -/
def startFilling (obj qid : Nat) (s : PfLive) : PfLive :=
  { s with qidOf := Function.update s.qidOf obj (some qid), filling := some qid }

def stopFilling (s : PfLive) : PfLive := { s with filling := none }

def onicInitRxQueue (qid : Nat) : Program PfLive PfFails Int := do
  if (← onDev (.read fun s => s.rxQueue qid)).isSome then onDev (PfNetdev.onicClearRxQueue qid) else .done ()
  match ← onDev (PfNetdev.kzalloc (.rxQueue qid)) with
  | none => .done (- ENOMEM)
  | some obj =>
    .modify (startFilling obj qid)
    let xdpProg ← onDev (.read fun s => s.xdpProg)
    let rv ← onDev (PfNetdev.onicFillRxQueue qid obj)
    if rv ≠ 0 then
      onDev (PfNetdev.onicClearRxQueue qid)
      .modify stopFilling
      .done rv
    else
      onDev (.modify (PfNetdev.arm qid true))
      .modify fun s =>
        (s.setDev (s.dev.setRx qid (some ⟨obj, true, true, true, true, xdpProg, 0, 0, 0, 0, 0⟩))).stopFilling
      .done 0

/-- The loop of `onic_init_rx_resource` from `qid` on. -/
def initRxQueues : Nat → Nat → Program PfLive PfFails Int
  | _, 0 => .done 0
  | qid, left + 1 => do
    let rv ← onicInitRxQueue qid
    if rv = 0 then initRxQueues (qid + 1) left
    else
      onDev (PfNetdev.clearDown PfNetdev.onicClearRxQueue qid)
      .done rv

def onicInitRxResource : Program PfLive PfFails Int := do
  let numRxQueues ← onDev (.read fun s => s.numRxQueues)
  initRxQueues 0 numRxQueues

def onicStopNetdev : Program PfLive PfFails Unit := do
  .modify (setTxUp false)
  onDev PfNetdev.onicStopNetdev

def onicOpenNetdev : Program PfLive PfFails Int := do
  .modify (setTxUp false)
  let rv ← onDev PfNetdev.onicInitTxResource
  if rv < 0 then
    onicStopNetdev
    .done rv
  else
    .modify (setTxUp true)
    let rv ← onicInitRxResource
    if rv < 0 then
      onicStopNetdev
      .done rv
    else .done 0

def onicSetupXdpProg (prog : Option Nat) : Program PfLive PfFails Int := do
  let running ← onDev (.read PfNetdev.running)
  let oldProg ← onDev (.access fun _ s => some (s.xdpProg, { s with xdpProg := prog }))
  let needReset := prog.isSome != oldProg.isSome
  (if needReset && running then onicStopNetdev else onDev PfNetdev.exchangeProgs)
  onDev (PfNetdev.bpfProgPut oldProg)
  if !needReset then .done 0
  else if running then do
    let _ ← onicOpenNetdev
    .done 0
  else .done 0

/-- The program does to the device what the driver's does; the rest of it are notes. -/
def Notes {α : Type} (p : Program PfLive PfFails α) (p' : Program PfNetdev PfFails α) : Prop :=
  ∀ s a d, p'.Exec s.dev a d ↔ ∃ s', p.Exec s a s' ∧ s'.dev = d

namespace Notes

variable {α β : Type} {p : Program PfLive PfFails α} {p' : Program PfNetdev PfFails α}

theorem done (a : α) : Notes (.done a) (.done a) := by
  intro s b d
  simp only [Program.exec_done]
  constructor
  · rintro ⟨rfl, rfl⟩
    exact ⟨s, ⟨rfl, rfl⟩, rfl⟩
  · rintro ⟨_, ⟨rfl, rfl⟩, rfl⟩
    exact ⟨rfl, rfl⟩

theorem onDev (p : Program PfNetdev PfFails α) : Notes (PfLive.onDev p) p := by
  have lens : Program.Lens PfLive.dev setDev := ⟨fun _ _ => rfl, fun _ => rfl, fun _ _ _ => rfl⟩
  intro s a d
  constructor
  · intro ran
    exact ⟨s.setDev d, (Program.exec_lift lens).mpr ⟨ran, rfl⟩, rfl⟩
  · rintro ⟨s', ran, rfl⟩
    exact ((Program.exec_lift lens).mp ran).1

theorem bind {f : α → Program PfLive PfFails β} {f' : α → Program PfNetdev PfFails β} (first : Notes p p')
    (rest : ∀ a, Notes (f a) (f' a)) : Notes (p >>= f) (p' >>= f') := by
  intro s b d
  simp only [Program.exec_bind]
  constructor
  · rintro ⟨a, mid, head, tail⟩
    rcases (first s a mid).mp head with ⟨s', ran, rfl⟩
    rcases (rest a s' b d).mp tail with ⟨s'', ran', same⟩
    exact ⟨s'', ⟨a, s', ran, ran'⟩, same⟩
  · rintro ⟨s'', ⟨a, s', ran, ran'⟩, same⟩
    exact ⟨a, s'.dev, (first s a _).mpr ⟨s', ran, rfl⟩, (rest a s' b d).mpr ⟨s'', ran', same⟩⟩

theorem modify {f : PfLive → PfLive} {g : PfNetdev → PfNetdev} (same : ∀ s, (f s).dev = g s.dev) :
    Notes (.modify f) (.modify g) := by
  intro s a d
  simp only [Program.exec_modify]
  constructor
  · rintro rfl
    exact ⟨f s, rfl, same s⟩
  · rintro ⟨_, rfl, rfl⟩
    exact same s

/-- A note before the program. -/
theorem note {f : PfLive → PfLive} (same : ∀ s, (f s).dev = s.dev) (rest : Notes p p') :
    Notes (.modify f >>= fun _ => p) p' := by
  intro s a d
  rw [← same s, rest (f s) a d]
  simp only [Program.exec_bind, Program.exec_modify]
  constructor
  · rintro ⟨s', ran, last⟩
    exact ⟨s', ⟨(), f s, rfl, ran⟩, last⟩
  · rintro ⟨s', ⟨_, _, rfl, ran⟩, last⟩
    exact ⟨s', ran, last⟩

theorem onicInitRxQueue (qid : Nat) : Notes (PfLive.onicInitRxQueue qid) (PfNetdev.onicInitRxQueue qid) := by
  apply (onDev _).bind
  intro there
  dsimp only
  split
  on_goal 1 => refine (onDev (PfNetdev.onicClearRxQueue qid)).bind fun _ => ?_
  all_goals
    apply (onDev (PfNetdev.kzalloc _)).bind
    intro made
    cases made with
    | none => exact done _
    | some obj =>
      refine note (fun _ => rfl) ?_
      apply (onDev _).bind
      intro xdpProg
      apply (onDev _).bind
      intro rv
      split
      · apply (onDev _).bind
        intro _
        exact note (fun _ => rfl) (done rv)
      · apply (onDev _).bind
        intro _
        exact (modify fun _ => rfl).bind fun _ => done 0

theorem initRxQueues (qid left : Nat) :
    Notes (PfLive.initRxQueues qid left)
      (PfNetdev.initResource PfNetdev.onicInitRxQueue PfNetdev.onicClearRxQueue qid left) := by
  induction left generalizing qid with
  | zero => exact done 0
  | succ left ih =>
    apply (onicInitRxQueue qid).bind
    intro rv
    split
    · exact ih (qid + 1)
    · exact (onDev _).bind fun _ => done rv

theorem onicStopNetdev : Notes PfLive.onicStopNetdev PfNetdev.onicStopNetdev := note (fun _ => rfl) (onDev _)

theorem onicOpenNetdev : Notes PfLive.onicOpenNetdev PfNetdev.onicOpenNetdev := by
  have stopped (rv : Int) :
      Notes (PfLive.onicStopNetdev >>= fun _ => .done rv) (PfNetdev.onicStopNetdev >>= fun _ => .done rv) :=
    onicStopNetdev.bind fun _ => done rv
  refine note (fun _ => rfl) ?_
  apply (onDev _).bind
  intro rv
  split
  · exact stopped rv
  · refine note (fun _ => rfl) ?_
    have rxResource : Notes PfLive.onicInitRxResource PfNetdev.onicInitRxResource := (onDev _).bind (initRxQueues 0)
    apply rxResource.bind
    intro rv
    split
    · exact stopped rv
    · exact done 0

theorem onicSetupXdpProg (prog : Option Nat) :
    Notes (PfLive.onicSetupXdpProg prog) (PfNetdev.onicSetupXdpProg prog) := by
  apply (onDev _).bind
  intro running
  apply (onDev _).bind
  intro old
  apply Notes.bind (by split <;> first | exact onicStopNetdev | exact onDev _)
  intro _
  apply (onDev _).bind
  intro _
  split
  · exact done 0
  · split
    · exact onicOpenNetdev.bind fun _ => done 0
    · exact done 0

end Notes

def misuse (f : PfFault) (s : PfLive) : PfLive := { s with misuses := s.misuses ++ [f] }

/-- The memory of a queue object is used. -/
def use (q : Option Nat) (s : PfLive) : PfLive :=
  match q with
  | none => s.misuse .null
  | some obj => if s.dev.hold.held ⟨obj, .queue⟩ then s else s.misuse (.freed obj)

/-- The hardware has the contexts of receive queue `qid`. -/
def programmed (s : PfLive) (qid : Nat) : Bool :=
  (List.range s.dev.next).any fun obj => s.qidOf obj = some qid && s.dev.hold.held ⟨obj, .context⟩

/-- The interrupt of receive queue `qid`, once it is armed. -/
def onicQHandler (qid : Nat) (s : PfLive) : PfLive :=
  if s.dev.armed qid then s.use ((s.dev.rxQueue qid).map PfRxQueue.obj) else s

/-- The transmit queues that a poll hands to `onic_tx_clean`. -/
def cleanTxQueues (s : PfLive) : PfLive :=
  (List.range s.dev.numTxQueues).foldl (fun s i => s.use ((s.dev.txQueue i).map PfTxQueue.obj)) s

/-- `onic_rx_poll` of the receive queue object `obj`, while its NAPI is enabled; `rearms` says whether it comes to
    write the completion doorbell, which takes effect where the hardware has the contexts. -/
def onicRxPoll (obj : Nat) (rearms : Bool) (s : PfLive) : PfLive :=
  match s.qidOf obj with
  | none => s
  | some qid =>
    if s.dev.hold.held ⟨obj, .napi⟩ then
      let s := s.cleanTxQueues
      if rearms && s.programmed qid then s.setDev (s.dev.arm qid true) else s
    else s

end PfLive

/-- What happens beside the calls. -/
inductive PfEvent
  | qHandler (qid : Nat)
  | rxPoll (obj : Nat) (rearms : Bool)

namespace PfEvent

def happen : PfEvent → PfLive → PfLive
  | .qHandler qid => PfLive.onicQHandler qid
  | .rxPoll obj rearms => PfLive.onicRxPoll obj rearms

/-- No interrupt of a queue that `onic_init_rx_queue` has not published yet, and no poll but between the end of
    `onic_init_tx_resource` and the next stop or open. -/
def Spared (e : PfEvent) (s : PfLive) : Prop :=
  match e with
  | .qHandler qid => s.filling ≠ some qid
  | .rxPoll _ _ => s.txUp = true

end PfEvent

namespace PfLive

/-- One thread that makes the calls in any order (`netif_running` may have changed before each); handlers and
    polls beside it. -/
def rules (spared : PfEvent → PfLive → Prop) : Pool.Rules Unit PfLive PfFails where
  calls _ _ p :=
    (p = do let _ ← onicOpenNetdev) ∨ p = onicStopNetdev ∨ (∃ prog, p = do let _ ← onicSetupXdpProg prog) ∨
      ∃ running, p = onDev (.modify fun d => { d with running := running })
  env s s' := ∃ e : PfEvent, spared e s ∧ s' = e.happen s

end PfLive

end OpenNic
