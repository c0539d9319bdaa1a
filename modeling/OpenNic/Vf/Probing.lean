import OpenNic.Program.Ladder
import OpenNic.Vf.Probe

namespace OpenNic

open Program VfDevice

/-- What the driver has acquired for its VF and not given back, `num_q_vectors`, and once they are set the
    numbers of its queues. -/
structure VfOwned where
  pciDevice : Bool
  memRegions : Bool
  netdev : Bool
  netdevStats : Bool
  drvdata : Bool
  bar0 : Bool
  bar2 : Bool
  msixVectors : Bool
  numQVectors : Nat
  mboxVector : Option Nat
  qdev : Bool
  numQueues : Option Nat
  irq : Nat → Bool
  qVector : Nat → Bool
  registered : Bool

namespace VfOwned

def holds (o : VfOwned) : VfRes → Bool
  | .pciDevice => o.pciDevice
  | .memRegions => o.memRegions
  | .netdev => o.netdev
  | .netdevStats => o.netdevStats
  | .drvdata => o.drvdata
  | .bar0 => o.bar0
  | .bar2 => o.bar2
  | .msixVectors => o.msixVectors
  | .irq index => decide (o.mboxVector = some index) || o.irq index
  | .qVector vid => o.qVector vid
  | .qdev => o.qdev
  | .registered => o.registered

def nothing : VfOwned where
  pciDevice := false
  memRegions := false
  netdev := false
  netdevStats := false
  drvdata := false
  bar0 := false
  bar2 := false
  msixVectors := false
  numQVectors := 0
  mboxVector := none
  qdev := false
  numQueues := none
  irq _ := false
  qVector _ := false
  registered := false

def device : VfOwned := { nothing with pciDevice := true }

/-- The device and its memory regions. -/
def regions : VfOwned := { device with memRegions := true }

def theNetdev (netdevStats drvdata : Bool) : VfOwned :=
  { regions with netdev := true, netdevStats := netdevStats, drvdata := drvdata }

/-- With the netdev and its statistics, known to the PCI core. -/
def withNetdev : VfOwned := theNetdev true true

def withBars (bar2 : Bool) : VfOwned := { withNetdev with bar0 := true, bar2 := bar2 }

def withVectors (bar2 : Bool) (n : Nat) : VfOwned := { withBars bar2 with msixVectors := true, numQVectors := n }

def withMbox (bar2 : Bool) (vector n : Nat) : VfOwned := { withVectors bar2 n with mboxVector := some vector }

def withQdma (bar2 : Bool) (vector n : Nat) : VfOwned := { withMbox bar2 vector n with qdev := true }

def sized (bar2 : Bool) (vector n : Nat) : VfOwned := { withQdma bar2 vector n with numQueues := some n }

def withQueues (bar2 : Bool) (vector n : Nat) (queues : Nat → Bool) : VfOwned :=
  { sized bar2 vector n with irq := queues, qVector := queues }

/-- The vectors before one of the queues. -/
def before (i v : Nat) : Bool := decide (v < i)

/-- All that a probe that has succeeded leaves the driver with. -/
def bound (bar2 : Bool) (vector n : Nat) : VfOwned :=
  { withQueues bar2 vector n (before n) with registered := true }

end VfOwned

/-- The pointers and flags of `struct onic_private` say what is owned. -/
structure VfDevice.Says (o : VfOwned) (s : VfDevice) : Prop where
  netdevStats : s.netdevStats = o.netdevStats
  bar0 : s.bar0 = o.bar0
  bar2 : s.bar2 = o.bar2
  numQVectors : s.numQVectors = o.numQVectors
  mboxIrqAllocated : s.mboxIrqAllocated = o.mboxVector.isSome
  mboxVector : ∀ v ∈ o.mboxVector, s.mboxVector = v
  qdev : s.qdev.isSome = o.qdev
  numQueues : ∀ m ∈ o.numQueues, s.numTxQueues = m ∧ s.numRxQueues = m
  qVector : ∀ vid, s.qVector vid = o.qVector vid

open VfOwned

/-- The driver holds just `h`, nothing has been acquired twice, given back twice or given back too soon;
    its variables, as long as there is a netdev, say `o`. -/
structure VfDevice.Stands (o h : VfOwned) (s : VfDevice) : Prop where
  hold : s.hold = ⟨h.holds, []⟩
  drvdata : s.drvdata = o.drvdata
  known : o.netdev = true → s.Says o

abbrev VfDevice.HasJust (o : VfOwned) (s : VfDevice) : Prop := s.Stands o o

section

variable {o o' h h' : VfOwned} {s : VfDevice} {A T Z : VfDevice → Prop}

theorem acquire_holds {res : VfRes} (hold : s.hold = ⟨h.holds, []⟩) (fresh : h.holds res = false)
    (more : ∀ res', h'.holds res' = if res' = res then true else h.holds res') : s.hold.acquire res = ⟨h'.holds, []⟩ := by
  rw [hold]
  apply Holdings.ext
  · funext res'
    exact (Function.update_apply ..).trans (more res').symm
  · exact Holdings.acquire_of_fresh fresh

theorem giveBack_holds {res : VfRes} (hold : s.hold = ⟨h.holds, []⟩) (held : h.holds res = true)
    (last : ∀ u ∈ res.users, h.holds u = false) (less : ∀ res', h'.holds res' = if res' = res then false else h.holds res') :
    s.hold.giveBack VfRes.users res = ⟨h'.holds, []⟩ := by
  rw [hold, Holdings.giveBack_last last]
  apply Holdings.ext
  · funext res'
    exact (Function.update_apply ..).trans (less res').symm
  · exact Holdings.release_of_held held

theorem check_climb : Climb A A A check := by
  refine Hoare.access ?_
  intro input s rv s' holds taken
  cases taken
  split
  · exact .inl ⟨rfl, holds⟩
  · refine .inr ⟨?_, holds⟩
    rw [VfProbeInput.err]
    omega

theorem request_climb {res : VfRes} (fresh : h.holds res = false)
    (more : ∀ res', h'.holds res' = if res' = res then true else h.holds res') :
    Climb (Stands o h) (Stands o h) (Stands o h') (request res) := by
  refine Hoare.access ?_
  intro input s rv s' here taken
  split at taken <;> cases taken
  · exact .inl ⟨rfl, acquire_holds here.hold fresh more, here.drvdata, fun there => { here.known there with }⟩
  · refine .inr ⟨?_, here⟩
    rw [VfProbeInput.err]
    omega

theorem alloc_hoare {res : VfRes} (fresh : h.holds res = false)
    (more : ∀ res', h'.holds res' = if res' = res then true else h.holds res') :
    Hoare (Stands o h) (alloc res) fun b s => b = true ∧ s.Stands o h' ∨ b = false ∧ s.Stands o h := by
  refine Hoare.access ?_
  intro input s b s' here taken
  split at taken <;> cases taken
  · exact .inl ⟨rfl, acquire_holds here.hold fresh more, here.drvdata, fun there => { here.known there with }⟩
  · exact .inr ⟨rfl, here⟩

theorem free_hoare {res : VfRes} (held : h.holds res = true) (last : ∀ u ∈ res.users, h.holds u = false)
    (less : ∀ res', h'.holds res' = if res' = res then false else h.holds res') :
    Hoare (Stands o h) (free res) fun _ => Stands o h' := by
  refine Hoare.modify ?_
  intro s here
  exact ⟨giveBack_holds here.hold held last less, here.drvdata, fun there => { here.known there with }⟩

/-- A variable of the driver says what is known. -/
theorem look_hoare {α : Type} {f : VfDevice → α} {v : α} (is : ∀ s, Stands o h s → f s = v) :
    Hoare (Stands o h) (.read f : Program VfDevice VfProbeInput α) fun a s => a = v ∧ s.Stands o h :=
  Hoare.read fun s here => ⟨is s here, here⟩

theorem known_hoare {α β : Type} {f : VfDevice → α} {p : α → Program VfDevice VfProbeInput β} {v : α} {post : β → VfDevice → Prop}
    (is : ∀ s, Stands o h s → f s = v) (rest : Hoare (Stands o h) (p v) post) : Hoare (Stands o h) (.read f >>= p) post := by
  refine Hoare.bind (look_hoare is) fun a => Hoare.pure_pre ?_
  rintro rfl
  exact rest

theorem disableDevice_fall : Fall (Stands .nothing .device) (HasJust .nothing) disableDevice := by
  refine Fall.above ?_ Fall.ground
  refine free_hoare rfl (by decide) fun res => ?_
  cases res <;> rfl

theorem releaseRegions_fall : Fall (Stands .nothing .regions) (HasJust .nothing) releaseRegions := by
  refine Fall.above ?_ disableDevice_fall
  refine free_hoare rfl (by decide) fun res => ?_
  cases res <;> rfl

theorem freeStats_hoare (netdevStats drvdata : Bool) :
    Hoare (HasJust (.theNetdev netdevStats drvdata)) freeStats fun _ => HasJust (.theNetdev false drvdata) := by
  refine known_hoare (fun s here => (here.known rfl).netdevStats) ?_
  cases netdevStats with
  | false => exact Hoare.done fun _ here => here
  | true =>
    refine Hoare.bind (M := fun _ => Stands (.theNetdev true drvdata) (.theNetdev false drvdata)) ?_ ?_
    · refine free_hoare rfl (by intro u mem; cases drvdata <;> revert u <;> decide) fun res => ?_
      cases res <;> rfl
    · intro _
      refine Hoare.modify fun s here => ⟨here.hold, here.drvdata, fun there => ?_⟩
      exact { here.known there with netdevStats := rfl }

theorem setDrvdata_false (netdevStats drvdata : Bool) :
    Hoare (HasJust (.theNetdev netdevStats drvdata)) (setDrvdata false) fun _ => HasJust (.theNetdev netdevStats false) := by
  refine Hoare.modify fun s here => ⟨?_, rfl, fun there => { here.known there with }⟩
  apply Holdings.ext
  · funext res
    show Function.update s.hold.held .drvdata false res = _
    rw [here.hold, Function.update_apply]
    cases res <;> rfl
  · show s.hold.misused = []
    rw [here.hold]

theorem unmapBar2_hoare (bar2 : Bool) : Hoare (HasJust (.withBars bar2)) unmapBar2 fun _ => HasJust (.withBars false) := by
  refine known_hoare (fun s here => (here.known rfl).bar2) ?_
  cases bar2 with
  | false => exact Hoare.done fun _ here => here
  | true =>
    refine Hoare.bind (M := fun _ => Stands (.withBars true) (.withBars false)) ?_ ?_
    · refine free_hoare rfl (by decide) fun res => ?_
      cases res <;> rfl
    · exact fun _ => Hoare.modify fun s here => ⟨here.hold, here.drvdata, fun there => { here.known there with bar2 := rfl }⟩

theorem onicVfUnmapBars_hoare (bar2 : Bool) : Hoare (HasJust (.withBars bar2)) onicVfUnmapBars fun _ => HasJust .withNetdev := by
  refine Hoare.bind (unmapBar2_hoare bar2) fun _ => ?_
  refine known_hoare (fun s here => (here.known rfl).bar0) ?_
  refine Hoare.bind (M := fun _ => Stands (.withBars false) .withNetdev) ?_ ?_
  · refine free_hoare rfl (by decide) fun res => ?_
    cases res <;> rfl
  · exact fun _ => Hoare.modify fun s here => ⟨here.hold, here.drvdata, fun there => { here.known there with bar0 := rfl }⟩

/-- Either both BARs that there are get mapped or none. -/
theorem onicVfMapBars_climb : Climb (HasJust .withNetdev) (HasJust .withNetdev) (fun s => ∃ bar2, s.HasJust (.withBars bar2)) onicVfMapBars := by
  refine Hoare.bind (M := fun _ => HasJust .withNetdev) ?_ fun _ => ?_
  · refine Hoare.access fun input s u s' here taken => ?_
    cases taken
    exact ⟨here.hold, here.drvdata, fun there => { here.known there with }⟩
  refine Hoare.bind (M := fun _ => HasJust .withNetdev) (Hoare.read fun s here => here) fun bar0Len => ?_
  split
  · exact Climb.failed (by decide) (Fall.ground _)
  refine Climb.obtained (B := Stands .withNetdev (.withBars false)) (alloc_hoare rfl fun res => by cases res <;> rfl) ?_ ?_
  · exact Climb.failed (by decide) (Fall.ground _)
  refine Hoare.bind (M := fun _ => HasJust (.withBars false)) ?_ fun _ => ?_
  · exact Hoare.modify fun s here => ⟨here.hold, here.drvdata, fun there => { here.known there with bar0 := rfl }⟩
  refine Hoare.bind (M := fun _ => HasJust (.withBars false)) (Hoare.read fun s here => here) fun bar2Len => ?_
  split
  · exact Hoare.done fun s here => .inl ⟨rfl, false, here⟩
  refine Climb.obtained (B := Stands (.withBars false) (.withBars true)) (alloc_hoare rfl fun res => by cases res <;> rfl) ?_ ?_
  · refine Climb.failed (by decide) (Fall.above (A := Stands (.withBars false) .withNetdev) ?_ (Fall.above ?_ Fall.ground) _)
    · refine free_hoare rfl (by decide) fun res => ?_
      cases res <;> rfl
    · refine Hoare.modify fun s here => ⟨here.hold, here.drvdata, fun there => { here.known there with bar0 := rfl }⟩
  · refine Hoare.bind (M := fun _ => HasJust (.withBars true)) ?_ fun _ => ?_
    · exact Hoare.modify fun s here => ⟨here.hold, here.drvdata, fun there => { here.known there with bar2 := rfl }⟩
    · exact Hoare.done fun s here => .inl ⟨rfl, true, here⟩

theorem freeNetdev_hoare : Hoare (HasJust (.theNetdev false false)) (free .netdev) fun _ => Stands .nothing .regions := by
  have back : Hoare (HasJust (.theNetdev false false)) (free .netdev) fun _ => Stands (.theNetdev false false) .regions :=
    free_hoare rfl (by decide) fun res => by cases res <;> rfl
  exact back.conseq (fun _ here => here) fun _ s here => ⟨here.hold, here.drvdata, nofun⟩

theorem freeNetdev_fall (netdevStats drvdata : Bool) :
    Fall (HasJust (.theNetdev netdevStats drvdata)) (HasJust .nothing) freeNetdev :=
  Fall.above (freeStats_hoare netdevStats drvdata)
    (Fall.above (setDrvdata_false false drvdata) (Fall.above freeNetdev_hoare releaseRegions_fall))

theorem unmapBars_fall (bar2 : Bool) : Fall (HasJust (.withBars bar2)) (HasJust .nothing) unmapBars :=
  Fall.above (onicVfUnmapBars_hoare bar2) (freeNetdev_fall true true)

variable {bar2 : Bool} {vector n : Nat} {queues : Nat → Bool}

theorem clearNumQVectors_hoare :
    Hoare (HasJust (.withVectors bar2 n)) clearNumQVectors fun _ => Stands (.withBars bar2) (.withVectors bar2 n) :=
  Hoare.modify fun _ here => ⟨here.hold, here.drvdata, fun there => { here.known there with numQVectors := rfl }⟩

theorem freeVectors_hoare :
    Hoare (Stands (.withBars bar2) (.withVectors bar2 n)) (free .msixVectors) fun _ => HasJust (.withBars bar2) := by
  refine free_hoare rfl ?_ fun res => ?_
  · intro u mem
    simp only [VfRes.users, VfRes.usedBy, VfRes.irqs, List.mem_cons, List.mem_map] at mem
    rcases mem with rfl | ⟨index, -, rfl⟩ <;> rfl
  · cases res <;> rfl

theorem freeIrqVectors_fall : Fall (HasJust (.withVectors bar2 n)) (HasJust .nothing) freeIrqVectors :=
  Fall.above clearNumQVectors_hoare (Fall.above freeVectors_hoare (unmapBars_fall bar2))

theorem irq_mbox (res : VfRes) : (VfOwned.withMbox bar2 vector n).holds res =
    if res = .irq vector then true else (VfOwned.withVectors bar2 n).holds res := by
  cases res with
  | irq index =>
    by_cases same : vector = index
    · simp [VfOwned.holds, VfOwned.withMbox, same]
    · simp [VfOwned.holds, VfOwned.withMbox, VfOwned.withVectors, VfOwned.withBars, VfOwned.withNetdev, VfOwned.theNetdev,
        VfOwned.regions, VfOwned.device, VfOwned.nothing, same, Ne.symm same]
  | _ => rfl

theorem onicVfMboxIrqInit_climb : Climb (HasJust (.withVectors bar2 n)) (HasJust (.withVectors bar2 n))
    (HasJust (.withMbox bar2 vector n)) (onicVfMboxIrqInit vector) := by
  refine Climb.stage (request_climb rfl irq_mbox) Fall.ground ?_
  refine Hoare.bind (M := fun _ => HasJust (.withMbox bar2 vector n)) ?_ fun _ => Hoare.done fun s here => .inl ⟨rfl, here⟩
  refine Hoare.modify fun s here => ⟨here.hold, here.drvdata, fun there => ?_⟩
  exact { here.known there with mboxIrqAllocated := rfl, mboxVector := fun v is => Option.some.inj is }

theorem onicVfMboxIrqClear_hoare :
    Hoare (HasJust (.withMbox bar2 vector n)) onicVfMboxIrqClear fun _ => HasJust (.withVectors bar2 n) := by
  refine known_hoare (fun s here => (here.known rfl).mboxIrqAllocated) ?_
  refine known_hoare (fun s here => (here.known rfl).mboxVector vector rfl) ?_
  refine Hoare.bind (M := fun _ => Stands (.withMbox bar2 vector n) (.withVectors bar2 n)) ?_ fun _ => ?_
  · refine free_hoare (by simp [VfOwned.holds, VfOwned.withMbox]) (fun u mem => ?_) fun res => ?_
    · rw [List.mem_singleton.mp mem]
      rfl
    · rw [irq_mbox]
      split
      · rename_i is
        rw [is]
        rfl
      · rfl
  · refine Hoare.modify fun s here => ⟨here.hold, here.drvdata, fun there => ?_⟩
    exact { here.known there with mboxIrqAllocated := rfl, mboxVector := nofun }

theorem clearMboxIrq_fall : Fall (HasJust (.withMbox bar2 vector n)) (HasJust .nothing) clearMboxIrq :=
  Fall.above onicVfMboxIrqClear_hoare freeIrqVectors_fall

theorem onicVfMboxGetQueueResource_climb : Climb (HasJust (.withMbox bar2 vector n)) (HasJust (.withMbox bar2 vector n))
    (HasJust (.withMbox bar2 vector n)) VfDevice.onicVfMboxGetQueueResource := by
  refine Hoare.access fun input s rv s' here taken => ?_
  split at taken
  · cases taken
    refine .inr ⟨?_, here⟩
    rw [VfProbeInput.err]
    omega
  split at taken <;> cases taken
  · exact .inr ⟨by decide, here⟩
  · exact .inl ⟨rfl, here.hold, here.drvdata, fun there => { here.known there with }⟩

/-- Reading does not change what is owned. -/
theorem reading {α : Type} {f : VfDevice → α} : Hoare (Stands o h) (.read f : Program VfDevice VfProbeInput α) fun _ => Stands o h :=
  Hoare.read fun _ here => here

theorem onicVfQdmaInit_climb : Climb (HasJust (.withMbox bar2 vector n)) (HasJust (.withMbox bar2 vector n))
    (HasJust (.withQdma bar2 vector n)) onicVfQdmaInit := by
  refine Hoare.bind reading fun valid => ?_
  split
  · exact Climb.failed (by decide) (Fall.ground _)
  refine Hoare.bind reading fun bar0 => ?_
  split
  · exact Climb.failed (by decide) (Fall.ground _)
  refine Hoare.bind reading fun qdev => ?_
  split
  · exact Climb.failed (by decide) (Fall.ground _)
  refine Climb.obtained (B := Stands (.withMbox bar2 vector n) (.withQdma bar2 vector n))
    (alloc_hoare rfl fun res => by cases res <;> rfl) (Climb.failed (by decide) (Fall.ground _)) ?_
  refine Hoare.bind (M := fun _ => HasJust (.withQdma bar2 vector n)) ?_ fun _ => Hoare.done fun s here => .inl ⟨rfl, here⟩
  exact Hoare.modify fun s here => ⟨here.hold, here.drvdata, fun there => { here.known there with qdev := rfl }⟩

theorem onicVfQdmaClear_hoare :
    Hoare (HasJust (.withQdma bar2 vector n)) onicVfQdmaClear fun _ => HasJust (.withMbox bar2 vector n) := by
  refine Hoare.bind (M := fun qdev s => qdev.isSome = true ∧ s.HasJust (.withQdma bar2 vector n)) ?_ fun qdev => Hoare.pure_pre fun is => ?_
  · exact Hoare.read fun s here => ⟨(here.known rfl).qdev, here⟩
  cases qdev with
  | none => cases is
  | some qdev =>
    refine Hoare.bind (M := fun _ => Stands (.withQdma bar2 vector n) (.withMbox bar2 vector n)) ?_ fun _ => ?_
    · refine free_hoare rfl (fun u mem => ?_) fun res => by cases res <;> rfl
      rw [List.mem_singleton.mp mem]
      rfl
    · exact Hoare.modify fun s here => ⟨here.hold, here.drvdata, fun there => { here.known there with qdev := rfl }⟩

theorem clearVfQdma_fall : Fall (HasJust (.withQdma bar2 vector n)) (HasJust .nothing) clearVfQdma :=
  Fall.above onicVfQdmaClear_hoare clearMboxIrq_fall

/-- A queue vector more and its interrupt more. -/
def VfOwned.withOneMore (o : VfOwned) (vid : Nat) : VfOwned := { o with qVector := fun v => o.qVector v || decide (v = vid) }

theorem vector_more (vid : Nat) (res : VfRes) : (h.withOneMore vid).holds res =
    if res = .qVector vid then true else h.holds res := by
  cases res with
  | qVector v =>
    by_cases same : v = vid
    · simp [VfOwned.holds, VfOwned.withOneMore, same]
    · simp [VfOwned.holds, VfOwned.withOneMore, same]
  | _ => rfl

/-- The queue vectors of `queues` and one more. -/
def oneMore (queues : Nat → Bool) (vid v : Nat) : Bool := queues v || decide (v = vid)

theorem irq_more (vid : Nat) (res : VfRes) : (VfOwned.withQueues bar2 vector n (oneMore queues vid)).holds res =
    if res = .irq vid then true else ((VfOwned.withQueues bar2 vector n queues).withOneMore vid).holds res := by
  cases res with
  | irq index =>
    by_cases same : index = vid
    · simp [VfOwned.holds, VfOwned.withQueues, oneMore, same]
    · have other : VfRes.irq index ≠ .irq vid := fun is => same (VfRes.irq.inj is)
      rw [if_neg other]
      show (_ || (queues index || decide (index = vid))) = _
      rw [decide_eq_false same, Bool.or_false]
      rfl
  | _ => rfl

variable {vid : Nat}

/-- The index of a queue vector that is not in use is not the mailbox's. -/
theorem irq_fresh (mbox : h.mboxVector = some vector) (unused : h.irq vid = false) (other : vid ≠ vector) :
    h.holds (.irq vid) = false := by
  simp [VfOwned.holds, mbox, unused, other.symm]

theorem freeQVector_hoare (unused : queues vid = false) (other : vid ≠ vector) :
    Hoare (Stands o ((VfOwned.withQueues bar2 vector n queues).withOneMore vid)) (free (.qVector vid))
      fun _ => Stands o (.withQueues bar2 vector n queues) := by
  refine free_hoare (by simp [VfOwned.holds, VfOwned.withOneMore]) (fun u mem => ?_) fun res => ?_
  · simp only [VfRes.users, VfRes.usedBy, List.mem_cons, List.not_mem_nil, or_false] at mem
    rcases mem with rfl | rfl
    · rfl
    · exact irq_fresh rfl unused other
  · rw [vector_more]
    split
    · rename_i is
      rw [is]
      exact unused
    · rfl

theorem onicVfInitOneQIrq_climb (unused : queues vid = false) (other : vid ≠ vector) :
    Climb (HasJust (.withQueues bar2 vector n queues)) (HasJust (.withQueues bar2 vector n queues))
      (HasJust (.withQueues bar2 vector n (oneMore queues vid))) (onicVfInitOneQIrq vid) := by
  have back : Fall (Stands (.withQueues bar2 vector n queues) ((VfOwned.withQueues bar2 vector n queues).withOneMore vid))
      (HasJust (.withQueues bar2 vector n queues)) fun rv => free (.qVector vid) >>= fun _ => .done rv :=
    Fall.above (freeQVector_hoare unused other) Fall.ground
  refine Climb.obtained (alloc_hoare unused (vector_more vid)) (Climb.failed (by decide) (Fall.ground _)) ?_
  refine Hoare.bind check_climb fun irq => ?_
  split
  · rename_i negative
    intro s rv s' ends ran
    rcases ends with ⟨rfl, -⟩ | ⟨-, here⟩
    · cases negative
    · obtain ⟨rfl, left⟩ := back irq s rv s' here ran
      exact .inr ⟨negative, left⟩
  rename_i fine
  have rest : Climb (Stands (.withQueues bar2 vector n queues) ((VfOwned.withQueues bar2 vector n queues).withOneMore vid))
      (HasJust (.withQueues bar2 vector n queues)) (HasJust (.withQueues bar2 vector n (oneMore queues vid))) (do
        let err ← request (.irq vid)
        if err ≠ 0 then
          free (.qVector vid)
          .done err
        else
          .modify fun s => { s with qVector := Function.update s.qVector vid true }
          .done 0) := by
    refine Climb.stage (request_climb (irq_fresh rfl unused other) (irq_more vid)) back ?_
    refine Hoare.bind (M := fun _ => HasJust (.withQueues bar2 vector n (oneMore queues vid))) ?_ fun _ => Hoare.done fun s here => .inl ⟨rfl, here⟩
    refine Hoare.modify fun s here => ⟨here.hold, here.drvdata, fun there => { here.known there with qVector := fun v => ?_ }⟩
    show Function.update s.qVector vid true v = oneMore queues vid v
    have before : s.qVector v = queues v := (here.known rfl).qVector v
    rw [Function.update_apply, oneMore, before]
    by_cases same : v = vid
    · simp [same]
    · simp [same]
  refine Hoare.conseq rest ?_ fun _ _ ends => ends
  rintro s (⟨-, here⟩ | ⟨negative, -⟩)
  · exact here
  · exact absurd negative fine

/-- The queue vectors of `queues` but for one. -/
def oneLess (queues : Nat → Bool) (vid v : Nat) : Bool := queues v && decide (v ≠ vid)

theorem oneMore_oneLess (used : queues vid = true) : oneMore (oneLess queues vid) vid = queues := by
  funext v
  by_cases same : v = vid
  · simp [oneMore, oneLess, same, used]
  · simp [oneMore, oneLess, same]

theorem oneLess_unused (unused : queues vid = false) : oneLess queues vid = queues := by
  funext v
  by_cases same : v = vid
  · simp [oneLess, same, unused]
  · simp [oneLess, same]

theorem onicVfClearOneQIrq_hoare (other : vid ≠ vector) :
    Hoare (HasJust (.withQueues bar2 vector n queues)) (onicVfClearOneQIrq vid)
      fun _ => HasJust (.withQueues bar2 vector n (oneLess queues vid)) := by
  refine known_hoare (v := queues vid) (fun s here => (here.known rfl).qVector vid) ?_
  cases used : queues vid with
  | false =>
    rw [oneLess_unused used]
    exact Hoare.done fun _ here => here
  | true =>
    have less : oneLess queues vid vid = false := by simp [oneLess]
    have more := @irq_more bar2 vector n (oneLess queues vid) vid
    rw [oneMore_oneLess used] at more
    refine Hoare.bind (M := fun _ => Stands (.withQueues bar2 vector n queues)
      ((VfOwned.withQueues bar2 vector n (oneLess queues vid)).withOneMore vid)) ?_ fun _ => ?_
    · refine free_hoare (by simp [VfOwned.holds, VfOwned.withQueues, used]) (fun u mem => ?_) fun res => ?_
      · rw [List.mem_singleton.mp mem]
        rfl
      · rw [more]
        split
        · rename_i is
          rw [is]
          exact irq_fresh rfl less other
        · rfl
    refine Hoare.bind (freeQVector_hoare less other) fun _ => ?_
    refine Hoare.modify fun s here => ⟨here.hold, here.drvdata, fun there => { here.known there with qVector := fun v => ?_ }⟩
    show Function.update s.qVector vid false v = oneLess queues vid v
    have before : s.qVector v = queues v := (here.known rfl).qVector v
    rw [Function.update_apply, oneLess, before]
    by_cases same : v = vid
    · simp [same]
    · simp [same]

theorem oneMore_before (i : Nat) : oneMore (before i) i = before (i + 1) := by
  funext v
  rw [oneMore, before, before, ← Bool.decide_or]
  exact decide_eq_decide.mpr (by omega)

theorem oneLess_before (i : Nat) : oneLess (before (i + 1)) i = before i := by
  funext v
  rw [oneLess, before, before, ← Bool.decide_and]
  exact decide_eq_decide.mpr (by omega)

theorem withQueues_none : VfOwned.withQueues bar2 vector n (before 0) = .sized bar2 vector n := by
  have none : before 0 = fun _ => false := by
    funext v
    exact decide_eq_false (Nat.not_lt_zero v)
  rw [none]
  rfl

theorem clearQIrqsBelow_hoare (within : vid ≤ vector) : Hoare (HasJust (.withQueues bar2 vector n (before vid))) (clearQIrqsBelow vid)
    fun _ => HasJust (.sized bar2 vector n) := by
  induction vid with
  | zero =>
    rw [withQueues_none]
    exact Hoare.done fun _ here => here
  | succ vid ih =>
    have one := @onicVfClearOneQIrq_hoare bar2 vector n (before (vid + 1)) vid (by omega)
    rw [oneLess_before] at one
    exact Hoare.bind one fun _ => ih (by omega)

theorem initQIrqs_climb (left : Nat) (within : vid + left ≤ vector) : Climb (HasJust (.withQueues bar2 vector n (before vid)))
    (HasJust (.sized bar2 vector n)) (HasJust (.withQueues bar2 vector n (before (vid + left)))) (initQIrqs vid left) := by
  induction left generalizing vid with
  | zero => exact Hoare.done fun s here => .inl ⟨rfl, here⟩
  | succ left ih =>
    have one := @onicVfInitOneQIrq_climb bar2 vector n (before vid) vid (by simp [before]) (by omega)
    rw [oneMore_before] at one
    have rest := @ih (vid + 1) (by omega)
    rw [Nat.add_right_comm] at rest
    exact Climb.stage one (Fall.above (clearQIrqsBelow_hoare (by omega)) Fall.ground) rest

theorem onicVfQIrqInit_climb (within : n ≤ vector) : Climb (HasJust (.sized bar2 vector n)) (HasJust (.sized bar2 vector n))
    (HasJust (.withQueues bar2 vector n (before n))) VfDevice.onicVfQIrqInit := by
  refine known_hoare (fun s here => (here.known rfl).numQVectors) ?_
  have climb := @initQIrqs_climb bar2 vector n 0 n (by omega)
  rwa [withQueues_none, Nat.zero_add] at climb

/-- The vectors of the queues from `i` on. -/
def fromOn (queues : Nat → Bool) (i v : Nat) : Bool := queues v && decide (i ≤ v)

theorem oneLess_fromOn (i : Nat) : oneLess (fromOn queues i) i = fromOn queues (i + 1) := by
  funext v
  rw [oneLess, fromOn, fromOn, Bool.and_assoc, ← Bool.decide_and]
  congr 1
  exact decide_eq_decide.mpr (by omega)

/-- The vectors that are not in use are passed over, the mailbox's among them. -/
theorem clearOne_fromOn (outside : queues vector = false) (i : Nat) :
    Hoare (HasJust (.withQueues bar2 vector n (fromOn queues i))) (onicVfClearOneQIrq i)
      fun _ => HasJust (.withQueues bar2 vector n (fromOn queues (i + 1))) := by
  rw [← oneLess_fromOn]
  by_cases mbox : i = vector
  · have unused : fromOn queues i i = false := by
      rw [fromOn, mbox, outside]
      rfl
    rw [oneLess_unused unused]
    refine known_hoare (v := false) (fun s here => ((here.known rfl).qVector i).trans unused) ?_
    exact Hoare.done fun _ here => here
  · exact onicVfClearOneQIrq_hoare mbox

theorem onicVfQIrqClear_hoare (within : n ≤ vector) (small : n ≤ onicMaxQueues) :
    Hoare (HasJust (.withQueues bar2 vector n (before n))) onicVfQIrqClear fun _ => HasJust (.sized bar2 vector n) := by
  have outside : before n vector = false := decide_eq_false (by omega)
  have all : Hoare (HasJust (.withQueues bar2 vector n (fromOn (before n) 0))) onicVfQIrqClear
      fun _ => HasJust (.withQueues bar2 vector n (fromOn (before n) (0 + onicMaxQueues))) :=
    Hoare.fold (I := fun i _ => HasJust (.withQueues bar2 vector n (fromOn (before n) i)))
      (fun i _ _ _ => clearOne_fromOn outside i) ()
  have first : fromOn (before n) 0 = before n := by
    funext v
    simp [fromOn]
  have last : fromOn (before n) (0 + onicMaxQueues) = before 0 := by
    funext v
    rw [fromOn, before, before, ← Bool.decide_and]
    exact decide_eq_decide.mpr (by omega)
  rw [first, last, withQueues_none] at all
  exact all

/-- What is known of the numbers of the queues is forgotten. -/
theorem sized_owns (here : s.HasJust (.sized bar2 vector n)) : s.HasJust (.withQdma bar2 vector n) :=
  ⟨here.hold, here.drvdata, fun there => { here.known there with numQueues := nofun }⟩

theorem clearQIrqs_fall (within : n ≤ vector) (small : n ≤ onicMaxQueues) :
    Fall (HasJust (.withQueues bar2 vector n (before n))) (HasJust .nothing) clearQIrqs :=
  Fall.above (onicVfQIrqClear_hoare within small) (clearVfQdma_fall.weaken fun _ => sized_owns)

/-- From the QDMA state on: between one queue and as many as there are vectors. -/
def Registered (bar2 : Bool) (vector : Nat) (s : VfDevice) : Prop := ∃ n, 1 ≤ n ∧ n ≤ vector ∧ s.HasJust (.bound bar2 vector n)

theorem register_climb : Climb (HasJust (.withQueues bar2 vector n (before n))) (HasJust (.withQueues bar2 vector n (before n)))
    (HasJust (.bound bar2 vector n)) (request .registered) := by
  have climb : Climb (HasJust (.withQueues bar2 vector n (before n))) (HasJust (.withQueues bar2 vector n (before n)))
      (Stands (.withQueues bar2 vector n (before n)) (.bound bar2 vector n)) (request .registered) :=
    request_climb rfl fun res => by cases res <;> rfl
  refine Hoare.conseq climb (fun _ here => here) ?_
  rintro rv s (⟨rfl, here⟩ | failed)
  · exact .inl ⟨rfl, here.hold, here.drvdata, fun there => { here.known there with }⟩
  · exact .inr failed

theorem probeQueues_climb (small : vector ≤ onicMaxQueues) :
    Climb (HasJust (.withQdma bar2 vector vector)) (HasJust .nothing) (Registered bar2 vector) probeQueues := by
  refine Hoare.bind (M := fun _ s => ∃ n, n ≤ vector ∧ s.HasJust (.withQdma bar2 vector n)) ?_ fun _ => ?_
  · refine Hoare.modify fun s here => ⟨min vector s.res.qmax.toNat, Nat.min_le_left .., here.hold, here.drvdata, fun there => ?_⟩
    have before := (here.known there).numQVectors
    exact { here.known there with numQVectors := congrArg (min · s.res.qmax.toNat) before }
  refine Climb.exists_pre fun n => Hoare.pure_pre fun within => ?_
  refine known_hoare (fun s here => (here.known rfl).numQVectors) ?_
  split
  · exact Climb.failed (by decide) (clearVfQdma_fall _)
  rename_i some
  have positive : n ≠ 0 := some
  refine Hoare.bind (M := fun _ => HasJust (.sized bar2 vector n)) ?_ fun _ => ?_
  · refine Hoare.modify fun s here => ⟨here.hold, here.drvdata, fun there => ?_⟩
    refine { here.known there with numQueues := fun m is => ?_ }
    cases is
    exact ⟨(here.known there).numQVectors, (here.known there).numQVectors⟩
  have down : Fall (HasJust (.sized bar2 vector n)) (HasJust .nothing) clearVfQdma := clearVfQdma_fall.weaken fun _ => sized_owns
  refine Climb.stage check_climb down (Climb.stage check_climb down (Climb.stage (onicVfQIrqInit_climb within) down ?_))
  refine Climb.stage register_climb (clearQIrqs_fall within (within.trans small)) ?_
  exact Hoare.done fun s here => .inl ⟨rfl, n, by omega, within, here⟩

/-- What the driver has of a VF that it is bound to: the interrupt of the mailbox is on the vector after
    those that the device has for queues. -/
def VfDevice.Serving (s : VfDevice) : Prop := ∃ bar2 vector, vector ≤ onicMaxQueues ∧ Registered bar2 vector s

/-- What comes of the request for vectors: some for the queues and one for the mailbox, or an error. -/
def Vectored (bar2 : Bool) (vectors : Int) (s : VfDevice) : Prop :=
  (∃ n ≤ onicMaxQueues, vectors = (n + 1 : Nat) ∧ s.Stands (.withBars bar2) (.withVectors bar2 n)) ∨ vectors < 0 ∧ s.HasJust (.withBars bar2)

theorem pciAllocIrqVectors_hoare : Hoare (HasJust (.withBars bar2))
    (pciAllocIrqVectors (onicVfNonQVectors + 1) (onicMaxQueues + onicVfNonQVectors)) (Vectored bar2) := by
  refine Hoare.access fun input s vectors s' here taken => ?_
  split at taken <;> cases taken
  · obtain ⟨n, is⟩ : ∃ n, max (onicVfNonQVectors + 1) (min input.vectors (onicMaxQueues + onicVfNonQVectors)) = n + 1 :=
      ⟨_, (Nat.sub_add_cancel (Nat.le_trans (Nat.le_add_left 1 onicVfNonQVectors) (Nat.le_max_left ..))).symm⟩
    rw [is]
    refine .inl ⟨n, ?_, rfl, acquire_holds here.hold rfl fun res => ?_, here.drvdata, fun there => { here.known there with }⟩
    · rw [onicVfNonQVectors, onicMaxQueues] at is
      rw [onicMaxQueues]
      omega
    · cases res <;> rfl
  · refine .inr ⟨?_, here⟩
    rw [VfProbeInput.err]
    omega

theorem probeVectors_climb : Climb (HasJust (.withBars bar2)) (HasJust .nothing) Serving probeVectors := by
  refine Hoare.bind pciAllocIrqVectors_hoare fun vectors => ?_
  split
  · rename_i negative
    refine Climb.failed negative (Hoare.conseq (unmapBars_fall bar2 vectors) ?_ fun _ _ ends => ends)
    rintro s (⟨n, -, is, -⟩ | ⟨-, here⟩)
    · omega
    · exact here
  rename_i fine
  refine Hoare.bind (M := fun _ s => ∃ n, n ≤ onicMaxQueues ∧ s.HasJust (.withVectors bar2 n)) ?_ fun _ => ?_
  · refine Hoare.modify ?_
    rintro s (⟨n, small, is, here⟩ | ⟨negative, -⟩)
    · refine ⟨n, small, here.hold, here.drvdata, fun there => { here.known there with numQVectors := ?_ }⟩
      show vectors.toNat - onicVfNonQVectors = n
      rw [is, onicVfNonQVectors]
      omega
    · exact absurd negative fine
  refine Climb.exists_pre fun n => Hoare.pure_pre fun small => ?_
  refine known_hoare (fun s here => (here.known rfl).numQVectors) ?_
  refine Climb.stage onicVfMboxIrqInit_climb freeIrqVectors_fall ?_
  refine Climb.stage onicVfMboxGetQueueResource_climb clearMboxIrq_fall ?_
  refine Climb.stage onicVfQdmaInit_climb clearMboxIrq_fall ?_
  exact Hoare.conseq (probeQueues_climb small) (fun _ here => here) fun rv s ends =>
    ends.imp_left fun ⟨zero, registered⟩ => ⟨zero, bar2, n, small, registered⟩

theorem probeNetdev_climb : Climb (Stands .nothing .regions) (HasJust .nothing) Serving probeNetdev := by
  refine Climb.obtained (B := Stands .nothing (.theNetdev false false)) (alloc_hoare rfl fun res => by cases res <;> rfl) ?_ ?_
  · exact Climb.failed (by decide) (releaseRegions_fall _)
  refine Hoare.bind (M := fun _ => HasJust (.theNetdev false false)) ?_ fun _ => ?_
  · exact Hoare.modify fun s here => ⟨here.hold, here.drvdata, fun _ => ⟨rfl, rfl, rfl, rfl, rfl, nofun, rfl, nofun, fun _ => rfl⟩⟩
  refine Climb.obtained (B := Stands (.theNetdev false false) (.theNetdev true false))
    (alloc_hoare rfl fun res => by cases res <;> rfl) (Climb.failed (by decide) (freeNetdev_fall false false _)) ?_
  refine Hoare.bind (M := fun _ => HasJust (.theNetdev true false)) ?_ fun _ => ?_
  · exact Hoare.modify fun s here => ⟨here.hold, here.drvdata, fun there => { here.known there with netdevStats := rfl }⟩
  refine Hoare.bind (M := fun _ => HasJust .withNetdev) ?_ fun _ => ?_
  · refine Hoare.modify fun s here => ⟨acquire_holds here.hold rfl fun res => ?_, rfl, fun there => { here.known there with }⟩
    cases res <;> rfl
  refine Climb.stage onicVfMapBars_climb (freeNetdev_fall true true) ?_
  exact Climb.exists_pre fun bar2 => probeVectors_climb

theorem dmaSetMask_climb : Climb A A A dmaSetMask := by
  refine Hoare.bind check_climb fun err => ?_
  split
  · rename_i failed
    refine Hoare.conseq check_climb ?_ fun _ _ ends => ends
    rintro s (⟨zero, -⟩ | ⟨-, here⟩)
    · exact absurd zero failed
    · exact here
  · rename_i fine
    refine Hoare.done ?_
    rintro s (⟨-, here⟩ | ⟨negative, -⟩)
    · exact .inl ⟨rfl, here⟩
    · omega

/-- Whatever step fails, the probe gives back all that it has acquired. -/
theorem onicVfProbe_climb : Climb (HasJust .nothing) (HasJust .nothing) Serving onicVfProbe := by
  refine Climb.stage (B := Stands .nothing .device) (request_climb rfl fun res => by cases res <;> rfl) Fall.ground ?_
  refine Climb.stage dmaSetMask_climb disableDevice_fall (Climb.stage check_climb disableDevice_fall ?_)
  refine Climb.stage (B := Stands .nothing .regions) (request_climb rfl fun res => by cases res <;> rfl) disableDevice_fall ?_
  exact probeNetdev_climb

theorem releaseDevice_hoare : Hoare (Stands .nothing .regions) releaseDevice fun _ => HasJust .nothing := by
  refine Hoare.bind (M := fun _ => Stands .nothing .device) ?_ fun _ => ?_
  · exact free_hoare rfl (by decide) fun res => by cases res <;> rfl
  · exact free_hoare rfl (by decide) fun res => by cases res <;> rfl

theorem onicVfRemove_hoare : Hoare Serving onicVfRemove fun _ => HasJust .nothing := by
  refine Hoare.exists_pre fun bar2 => Hoare.exists_pre fun vector => Hoare.pure_pre fun small => ?_
  refine Hoare.exists_pre fun n => Hoare.pure_pre fun _ => Hoare.pure_pre fun within => ?_
  refine known_hoare (fun s here => here.drvdata) ?_
  have unregister : Hoare (HasJust (.bound bar2 vector n)) (free .registered)
      fun _ => Stands (.bound bar2 vector n) (.withQueues bar2 vector n (before n)) :=
    free_hoare rfl nofun fun res => by cases res <;> rfl
  refine Hoare.bind (M := fun _ => HasJust (.withQueues bar2 vector n (before n))) ?_ fun _ => ?_
  · exact unregister.conseq (fun _ here => here) fun _ s here => ⟨here.hold, here.drvdata, fun there => { here.known there with }⟩
  refine Hoare.bind (M := fun _ => HasJust (.withQdma bar2 vector n)) ?_ fun _ => ?_
  · exact (onicVfQIrqClear_hoare within (within.trans small)).conseq (fun _ here => here) fun _ _ => sized_owns
  refine Hoare.bind onicVfQdmaClear_hoare fun _ => Hoare.bind onicVfMboxIrqClear_hoare fun _ => ?_
  refine Hoare.bind clearNumQVectors_hoare fun _ => Hoare.bind freeVectors_hoare fun _ => ?_
  refine Hoare.bind (onicVfUnmapBars_hoare bar2) fun _ => Hoare.bind (freeStats_hoare true true) fun _ => ?_
  exact Hoare.bind (setDrvdata_false false true) fun _ => Hoare.bind freeNetdev_hoare fun _ => releaseDevice_hoare

end

/-- A program that nothing keeps from its end. -/
abbrev Ending {α : Type} (p : Program VfDevice VfProbeInput α) : Prop := p.Enabled

section

variable {res : VfRes} {vid : Nat} {err : Int}

theorem check_ending : Ending check := Enabled.access fun _ _ => rfl

theorem request_ending : Ending (request res) := by
  apply Enabled.access
  intro input s
  split <;> rfl

theorem alloc_ending : Ending (alloc res) := by
  apply Enabled.access
  intro input s
  split <;> rfl

theorem free_ending : Ending (free res) := .modify _

theorem freeNetdev_ending : Ending (freeNetdev err) := by
  apply Enabled.bind
  · apply (Enabled.read _).bind
    intro there
    split
    · exact free_ending.bind fun _ => .modify _
    · trivial
  intro _
  apply (Enabled.modify _).bind
  exact fun _ => free_ending.bind fun _ => free_ending.bind fun _ => free_ending.bind fun _ => trivial

theorem onicVfMapBars_ending : Ending onicVfMapBars := by
  apply (Enabled.access fun _ _ => rfl).bind
  intro _
  apply (Enabled.read _).bind
  intro bar0Len
  split
  · trivial
  apply alloc_ending.bind
  intro bar0
  split
  · trivial
  apply (Enabled.modify _).bind
  intro _
  apply (Enabled.read _).bind
  intro bar2Len
  split
  · trivial
  apply alloc_ending.bind
  intro bar2
  split
  · exact free_ending.bind fun _ => (Enabled.modify _).bind fun _ => trivial
  · exact (Enabled.modify _).bind fun _ => trivial

theorem onicVfUnmapBars_ending : Ending onicVfUnmapBars := by
  have one (there : VfDevice → Bool) (res : VfRes) (f : VfDevice → VfDevice) : Ending (do
      if ← .read there then
        free res
        .modify f
      else .done ()) := by
    apply (Enabled.read _).bind
    intro mapped
    split
    · exact free_ending.bind fun _ => .modify _
    · trivial
  exact (one _ _ _).bind fun _ => one _ _ _

theorem unmapBars_ending : Ending (unmapBars err) := onicVfUnmapBars_ending.bind fun _ => freeNetdev_ending

theorem freeIrqVectors_ending : Ending (freeIrqVectors err) :=
  (Enabled.modify _).bind fun _ => free_ending.bind fun _ => unmapBars_ending

theorem onicVfMboxIrqInit_ending : Ending (onicVfMboxIrqInit vid) := by
  apply request_ending.bind
  intro err
  split
  · trivial
  · exact (Enabled.modify _).bind fun _ => trivial

theorem onicVfMboxIrqClear_ending : Ending onicVfMboxIrqClear := by
  apply (Enabled.read _).bind
  intro allocated
  split
  · trivial
  · exact (Enabled.read _).bind fun vector => free_ending.bind fun _ => .modify _

theorem clearMboxIrq_ending : Ending (clearMboxIrq err) := onicVfMboxIrqClear_ending.bind fun _ => freeIrqVectors_ending

theorem onicVfMboxGetQueueResource_ending : Ending VfDevice.onicVfMboxGetQueueResource := by
  apply Enabled.access
  intro input s
  split
  · rfl
  · split <;> rfl

theorem onicVfQdmaInit_ending : Ending onicVfQdmaInit := by
  apply (Enabled.read _).bind
  intro valid
  split
  · trivial
  apply (Enabled.read _).bind
  intro bar0
  split
  · trivial
  apply (Enabled.read _).bind
  intro qdev
  split
  · trivial
  apply alloc_ending.bind
  intro there
  split
  · trivial
  · exact (Enabled.modify _).bind fun _ => trivial

theorem onicVfQdmaClear_ending : Ending onicVfQdmaClear := by
  apply (Enabled.read _).bind
  intro qdev
  split
  · trivial
  · exact free_ending.bind fun _ => .modify _

theorem clearVfQdma_ending : Ending (clearVfQdma err) := onicVfQdmaClear_ending.bind fun _ => clearMboxIrq_ending

theorem onicVfClearOneQIrq_ending : Ending (onicVfClearOneQIrq vid) := by
  apply (Enabled.read _).bind
  intro there
  split
  · trivial
  · exact free_ending.bind fun _ => free_ending.bind fun _ => .modify _

theorem clearQIrqsBelow_ending (vid : Nat) : Ending (clearQIrqsBelow vid) := by
  induction vid with
  | zero => trivial
  | succ vid ih => exact onicVfClearOneQIrq_ending.bind fun _ => ih

theorem onicVfInitOneQIrq_ending : Ending (onicVfInitOneQIrq vid) := by
  apply alloc_ending.bind
  intro there
  split
  · trivial
  apply check_ending.bind
  intro irq
  split
  · exact free_ending.bind fun _ => trivial
  apply request_ending.bind
  intro err
  split
  · exact free_ending.bind fun _ => trivial
  · exact (Enabled.modify _).bind fun _ => trivial

theorem initQIrqs_ending (vid left : Nat) : Ending (initQIrqs vid left) := by
  induction left generalizing vid with
  | zero => trivial
  | succ left ih =>
    apply onicVfInitOneQIrq_ending.bind
    intro err
    split
    · exact (clearQIrqsBelow_ending vid).bind fun _ => trivial
    · exact ih (vid + 1)

theorem onicVfQIrqClear_ending : Ending onicVfQIrqClear := .fold (fun _ _ => onicVfClearOneQIrq_ending) ..

theorem probeQueues_ending : Ending probeQueues := by
  apply (Enabled.modify _).bind
  intro _
  apply (Enabled.read _).bind
  intro numQVectors
  split
  · exact clearVfQdma_ending
  apply (Enabled.modify _).bind
  intro _
  apply check_ending.bind
  intro err
  split
  · exact clearVfQdma_ending
  apply check_ending.bind
  intro err
  split
  · exact clearVfQdma_ending
  apply Enabled.bind
  · exact (Enabled.read _).bind fun n => initQIrqs_ending 0 n
  intro err
  split
  · exact clearVfQdma_ending
  apply request_ending.bind
  intro err
  split
  · exact onicVfQIrqClear_ending.bind fun _ => clearVfQdma_ending
  · trivial

theorem probeVectors_ending : Ending probeVectors := by
  apply Enabled.bind
  · apply Enabled.access
    intro input s
    split <;> rfl
  intro vectors
  split
  · exact unmapBars_ending
  apply (Enabled.modify _).bind
  intro _
  apply (Enabled.read _).bind
  intro vector
  apply onicVfMboxIrqInit_ending.bind
  intro err
  split
  · exact freeIrqVectors_ending
  apply onicVfMboxGetQueueResource_ending.bind
  intro err
  split
  · exact clearMboxIrq_ending
  apply onicVfQdmaInit_ending.bind
  intro err
  split
  · exact clearMboxIrq_ending
  · exact probeQueues_ending

theorem onicVfProbe_ending : Ending onicVfProbe := by
  have disable {err : Int} : Ending (disableDevice err) := free_ending.bind fun _ => trivial
  apply request_ending.bind
  intro err
  split
  · trivial
  apply Enabled.bind
  · apply check_ending.bind
    intro err
    split
    · exact check_ending
    · trivial
  intro err
  split
  · exact disable
  apply check_ending.bind
  intro err
  split
  · exact disable
  apply request_ending.bind
  intro err
  split
  · exact disable
  apply alloc_ending.bind
  intro netdev
  split
  · exact free_ending.bind fun _ => disable
  apply (Enabled.modify _).bind
  intro _
  apply alloc_ending.bind
  intro stats
  split
  · exact freeNetdev_ending
  apply (Enabled.modify _).bind
  intro _
  apply (Enabled.modify _).bind
  intro _
  apply onicVfMapBars_ending.bind
  intro err
  split
  · exact freeNetdev_ending
  · exact probeVectors_ending

theorem onicVfRemove_ending : Ending onicVfRemove := by
  have release : Ending releaseDevice := free_ending.bind fun _ => .modify _
  have stats : Ending freeStats := by
    apply (Enabled.read _).bind
    intro there
    split
    · exact free_ending.bind fun _ => .modify _
    · trivial
  apply (Enabled.read _).bind
  intro drvdata
  split
  · apply free_ending.bind
    intro _
    apply onicVfQIrqClear_ending.bind
    intro _
    apply onicVfQdmaClear_ending.bind
    intro _
    apply onicVfMboxIrqClear_ending.bind
    intro _
    apply (Enabled.modify _).bind
    intro _
    apply free_ending.bind
    intro _
    apply onicVfUnmapBars_ending.bind
    intro _
    apply stats.bind
    intro _
    apply (Enabled.modify _).bind
    exact fun _ => free_ending.bind fun _ => release
  · exact (Enabled.modify _).bind fun _ => release

end

/-- A device and whether the driver is bound to it. -/
abbrev VfBinding := Bool × VfDevice

/-- The driver core probes a device that is not bound and removes one that is. -/
inductive VfDriverCore : VfBinding → VfBinding → Prop
  | probe {s s' : VfDevice} {err : Int} (ran : Exec onicVfProbe s err s') : VfDriverCore (false, s) (decide (err = 0), s')
  | remove {s s' : VfDevice} (ran : Exec onicVfRemove s () s') : VfDriverCore (true, s) (false, s')

namespace VfDevice

/-- Nothing is held, and the PCI core has no pointer to the driver's memory. -/
def Released (s : VfDevice) : Prop := (∀ res, s.hold.held res = false) ∧ s.drvdata = false

/-- All that a netdev in use needs: at least one queue, for each queue a vector with its own interrupt,
    and an interrupt of the mailbox on none of these. -/
structure Ready (s : VfDevice) : Prop where
  queues : 1 ≤ s.numQVectors ∧ s.numQVectors ≤ onicMaxQueues ∧ s.numTxQueues = s.numQVectors ∧ s.numRxQueues = s.numQVectors
  qVectors : ∀ vid, s.qVector vid = decide (vid < s.numQVectors) ∧ s.hold.held (.qVector vid) = s.qVector vid
  irqs : ∀ index, s.hold.held (.irq index) = (decide (s.mboxVector = index) || s.qVector index)
  mbox : s.numQVectors ≤ s.mboxVector
  others : ∀ res ∈ [VfRes.pciDevice, .memRegions, .netdev, .netdevStats, .drvdata, .bar0, .msixVectors, .qdev, .registered],
    s.hold.held res = true
  bar2 : s.hold.held .bar2 = s.bar2

theorem HasJust.released {s : VfDevice} (here : s.HasJust .nothing) : s.Released := by
  refine ⟨fun res => ?_, here.drvdata⟩
  rw [here.hold]
  cases res <;> rfl

theorem Serving.ready {s : VfDevice} (bound : s.Serving) : s.Ready := by
  obtain ⟨bar2, vector, small, n, positive, within, here⟩ := bound
  have known := here.known rfl
  have numQVectors : s.numQVectors = n := known.numQVectors
  have mboxVector : s.mboxVector = vector := known.mboxVector vector rfl
  have held (res : VfRes) : s.hold.held res = (VfOwned.bound bar2 vector n).holds res := by rw [here.hold]
  have qVector (vid : Nat) : s.qVector vid = decide (vid < n) := known.qVector vid
  constructor
  case queues =>
    rw [numQVectors]
    exact ⟨positive, within.trans small, known.numQueues n rfl⟩
  case qVectors =>
    intro vid
    rw [held, qVector, numQVectors]
    exact ⟨rfl, rfl⟩
  case irqs =>
    intro index
    rw [held, qVector, mboxVector]
    show (decide (some vector = some index) || decide (index < n)) = _
    rw [decide_eq_decide.mpr Option.some_inj]
  case mbox =>
    rw [numQVectors, mboxVector]
    exact within
  case others =>
    intro res mem
    rw [held]
    simp only [List.mem_cons, List.not_mem_nil, or_false] at mem
    rcases mem with rfl | rfl | rfl | rfl | rfl | rfl | rfl | rfl | rfl <;> rfl
  case bar2 => exact (held .bar2).trans known.bar2.symm

end VfDevice

/-- What holds between two calls of the driver core. -/
def VfBinding.Sound (b : VfBinding) : Prop := if b.1 = true then b.2.Serving else b.2.HasJust .nothing

theorem VfDriverCore.sound {b b' : VfBinding} (step : VfDriverCore b b') (sound : b.Sound) : b'.Sound := by
  cases step with
  | @probe s s' err ran =>
    rcases onicVfProbe_climb s err s' sound ran with ⟨rfl, bound⟩ | ⟨negative, here⟩
    · exact bound
    · have failed : err ≠ 0 := by omega
      rw [VfBinding.Sound, decide_eq_false failed]
      exact here
  | @remove s s' ran => exact onicVfRemove_hoare s () s' sound ran

theorem vf_probe_remove {s : VfDevice} {b : VfBinding} (released : s.hold = Holdings.none) (drvdata : s.drvdata = false)
    (run : Relation.ReflTransGen VfDriverCore (false, s) b) :
    b.2.hold.misused = [] ∧ (b.1 = false → b.2.Released) ∧ (b.1 = true → b.2.Ready) ∧
      ∃ b', VfDriverCore b b' := by
  have start : VfBinding.Sound (false, s) := by
    refine ⟨?_, drvdata, nofun⟩
    rw [released]
    exact Holdings.ext (funext fun res => by cases res <;> rfl) rfl
  have sound : b.Sound := by
    induction run with
    | refl => exact start
    | tail _ last ih => exact last.sound ih
  obtain ⟨bound, s'⟩ := b
  cases bound with
  | false =>
    obtain ⟨err, last, ran⟩ := onicVfProbe_ending.finishes s'
    have here : s'.HasJust .nothing := sound
    exact ⟨congrArg Holdings.misused here.hold, fun _ => here.released, nofun, _, .probe ran⟩
  | true =>
    obtain ⟨_, last, ran⟩ := onicVfRemove_ending.finishes s'
    obtain ⟨bar2, vector, small, n, positive, within, here⟩ : s'.Serving := sound
    exact ⟨congrArg Holdings.misused here.hold, nofun, fun _ => VfDevice.Serving.ready ⟨bar2, vector, small, n, positive, within, here⟩, _, .remove ran⟩

def VfDevice.blank : VfDevice where
  hold := .none
  drvdata := false
  netdevStats := false
  bar0 := false
  bar0Len := 0
  bar2 := false
  bar2Len := 0
  mboxIrqAllocated := false
  mboxVector := 0
  resourceValid := false
  res := ⟨0, 0, 0, 0⟩
  qdev := none
  numQVectors := 0
  numTxQueues := 0
  numRxQueues := 0
  hwNumTxQueues := 0
  hwNumRxQueues := 0
  qVector _ := false

/-- Every step succeeds; the device has more vectors than the PF grants queues. -/
def fineProbe : VfProbeInput := ⟨true, ⟨0, by decide⟩, 65536, 4096, 9, ⟨4, 64, 4, 0⟩⟩

theorem vf_probe_remove_fine : ∃ s s', VfDriverCore (false, .blank) (true, s) ∧ s.numTxQueues = 4 ∧ s.mboxVector = 8 ∧ s.Ready ∧
    VfDriverCore (true, s) (false, s') ∧ s'.Released ∧ s'.hold.misused = [] := by
  have played : (onicVfProbe.eval fineProbe .blank).bind (fun r =>
      (onicVfRemove.eval fineProbe r.2).map fun _ => (r.1, r.2.numTxQueues, r.2.mboxVector)) = some (0, 4, 8) := by
    decide +kernel
  obtain ⟨⟨err, s⟩, probed, rest⟩ := Option.bind_eq_some_iff.mp played
  obtain ⟨⟨_, s'⟩, removed, is⟩ := Option.map_eq_some_iff.mp rest
  simp only [Prod.mk.injEq] at is
  obtain ⟨rfl, queues, mbox⟩ := is
  have first : VfDriverCore (false, .blank) (true, s) := .probe (Exec.of_eval probed)
  have second : VfDriverCore (true, s) (false, s') := .remove (Exec.of_eval removed)
  have up := vf_probe_remove rfl rfl (Relation.ReflTransGen.single first)
  have down := vf_probe_remove rfl rfl ((Relation.ReflTransGen.single first).tail second)
  exact ⟨s, s', first, queues, mbox, up.2.2.1 rfl, second, down.2.1 rfl, down.1⟩

end OpenNic
