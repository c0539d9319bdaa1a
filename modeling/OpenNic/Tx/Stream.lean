import OpenNic.Tx.PfClean
import OpenNic.Tx.VfTeardown

namespace OpenNic

/-- The two words of the descriptor; the fields of `struct qdma_h2c_st_desc` are a `u32` and a `u16`. -/
def qdmaPackH2cStDesc (desc : H2cStDesc) : BitVec 64 × BitVec 64 :=
  (fieldSet (genmask 31 0) ((BitVec.ofNat 32 desc.metadata).setWidth 64) |||
    fieldSet (genmask 47 32) ((BitVec.ofNat 16 desc.len).setWidth 64), desc.srcAddr)

/-- What the hardware finds in a descriptor. -/
structure TxFetch where
  srcAddr : BitVec 64
  len : Nat
  metadata : Nat
  deriving DecidableEq

def hwH2cStDesc (dw : BitVec 64 × BitVec 64) : TxFetch where
  srcAddr := dw.2
  len := (bitfieldGet (genmask 47 32) dw.1).toNat
  metadata := (bitfieldGet (genmask 31 0) dw.1).toNat

/-- The frame as its descriptor can tell it. -/
def TxFrame.fetch (frame : TxFrame) : TxFetch := ⟨frame.dmaAddr, frame.len % 2 ^ 16, frame.len % 2 ^ 32⟩

theorem hwH2cStDesc_pack (desc : H2cStDesc) :
    hwH2cStDesc (qdmaPackH2cStDesc desc) = ⟨desc.srcAddr, desc.len % 2 ^ 16, desc.metadata % 2 ^ 32⟩ := by
  have len : ((BitVec.ofNat 16 desc.len).setWidth 64).toNat = desc.len % 2 ^ 16 := by
    rw [BitVec.toNat_setWidth, BitVec.toNat_ofNat]
    omega
  have metadata : ((BitVec.ofNat 32 desc.metadata).setWidth 64).toNat = desc.metadata % 2 ^ 32 := by
    rw [BitVec.toNat_setWidth, BitVec.toNat_ofNat]
    omega
  have len_there : (bitfieldGet (genmask 47 32) (qdmaPackH2cStDesc desc).1).toNat = desc.len % 2 ^ 16 := by
    rw [qdmaPackH2cStDesc, bitfieldGet_or,
      bitfieldGet_fieldSet_disjoint (by decide) (by decide) (by decide) (by decide) (by decide),
      bitfieldGet_fieldSet_of_lt (by decide) (by decide) _ (by rw [len]; exact Nat.mod_lt _ (by decide)),
      show (0 : BitVec 64) = 0#64 from rfl, BitVec.zero_or, len]
  have metadata_there : (bitfieldGet (genmask 31 0) (qdmaPackH2cStDesc desc).1).toNat = desc.metadata % 2 ^ 32 := by
    rw [qdmaPackH2cStDesc, bitfieldGet_or,
      bitfieldGet_fieldSet_of_lt (by decide) (by decide) _ (by rw [metadata]; exact Nat.mod_lt _ (by decide)),
      bitfieldGet_fieldSet_disjoint (by decide) (by decide) (by decide) (by decide) (by decide),
      show (0 : BitVec 64) = 0#64 from rfl, BitVec.or_zero, metadata]
  rw [hwH2cStDesc, len_there, metadata_there]
  rfl

/-- The descriptors of the frames that are not released, and the last doorbell. -/
structure TxStream (size : Nat) (q : TxQueue) : Prop where
  desc : ∀ n frame, q.tail.released.length ≤ n → q.head.accepted[n]? = some frame →
    q.head.desc (n % size) = ⟨frame.len, frame.dmaAddr, frame.len⟩
  doorbell : 0 < q.head.published → q.head.doorbell = some (descPidx (q.head.published % size))

/-- The access leaves descriptors and doorbell alone and puts no frame in. -/
structure TxQuiet (q q' : TxQueue) : Prop where
  desc : q'.head.desc = q.head.desc
  accepted : q'.head.accepted = q.head.accepted
  doorbell : q'.head.doorbell = q.head.doorbell
  published : q'.head.published = q.head.published
  released : q.tail.released.length ≤ q'.tail.released.length

theorem TxQuiet.of_head {q q' : TxQueue} (head : q'.head = q.head)
    (released : q.tail.released.length ≤ q'.tail.released.length) : TxQuiet q q' :=
  ⟨by rw [head], by rw [head], by rw [head], by rw [head], released⟩

theorem TxQuiet.refl (q : TxQueue) : TxQuiet q q := .of_head rfl (Nat.le_refl _)

theorem CleanKeeps.quiet {q q' : TxQueue} (keeps : CleanKeeps q q') : TxQuiet q q' := by
  obtain ⟨more, released, -⟩ := keeps.returned
  apply TxQuiet.of_head keeps.head
  rw [released, List.length_append]
  exact Nat.le_add_right _ _

section

variable (size : Nat) (kind : TxBufType → Prop) (rest : TxHead → Prop)

/-- An access that keeps the stream where the ring's invariant holds. -/
def KeepsStream (q q' : TxQueue) : Prop :=
  TxInv size kind rest q → TxInv size kind rest q' → TxStream size q → TxStream size q'

variable {size kind rest}

theorem TxQuiet.keeps {q q' : TxQueue} (quiet : TxQuiet q q') : KeepsStream size kind rest q q' := by
  intro _ _ stream
  constructor
  · intro n frame low here
    rw [quiet.accepted] at here
    rw [quiet.desc]
    exact stream.desc n frame (quiet.released.trans low) here
  · intro some
    rw [quiet.published] at some ⊢
    rw [quiet.doorbell]
    exact stream.doorbell some

theorem quiet_steps {α : Type} {p : Program TxQueue TxInput α} (steps : p.Steps TxQuiet) :
    p.Steps (KeepsStream size kind rest) := steps.mono fun _ _ => TxQuiet.keeps

theorem head_steps {act : TxQueue → TxQueue} (quiet : ∀ q, TxQuiet q (act q)) :
    (.modify act : Program TxQueue TxInput Unit).Steps (KeepsStream size kind rest) :=
  quiet_steps (.modify quiet)

theorem kfreeSkb_steps (skb : Nat) : (TxAccess.kfreeSkb skb).Steps (KeepsStream size kind rest) :=
  head_steps fun _ => ⟨rfl, rfl, rfl, rfl, Nat.le_refl _⟩

theorem returnFrame_steps (xdpf : Nat) : (TxAccess.returnFrame xdpf).Steps (KeepsStream size kind rest) :=
  head_steps fun _ => .of_head rfl (Nat.le_refl _)

theorem countDropped_steps : TxAccess.countDropped.Steps (KeepsStream size kind rest) :=
  head_steps fun _ => ⟨rfl, rfl, rfl, rfl, Nat.le_refl _⟩

theorem countPacket_steps (len : Nat) : (TxAccess.countPacket len).Steps (KeepsStream size kind rest) :=
  head_steps fun _ => ⟨rfl, rfl, rfl, rfl, Nat.le_refl _⟩

theorem writeNextToUse_steps (next : TxQueue → Nat) : (TxAccess.writeNextToUse next).Steps (KeepsStream size kind rest) :=
  head_steps fun _ => ⟨rfl, rfl, rfl, rfl, Nat.le_refl _⟩

theorem unlock_steps : TxAccess.unlock.Steps (KeepsStream size kind rest) :=
  head_steps fun _ => .of_head rfl (Nat.le_refl _)

theorem look_steps {α : Type} (get : TxQueue → α) :
    (.read get : Program TxQueue TxInput α).Steps (KeepsStream size kind rest) := quiet_steps (.read TxQuiet.refl get)

/-- The new frame's slot is none of those that are still in use. -/
theorem store_steps (frame : TxFrame) : (TxAccess.store frame).Steps (KeepsStream size kind rest) := by
  apply Program.Steps.modify
  intro q inv inv' stream
  have used_le := inv.used_le
  have used_ge := inv'.used_ge
  have room := inv'.room
  simp only [List.length_append, List.length_singleton] at used_ge room
  have whole : q.head.used = q.head.accepted.length := by omega
  have slot : q.head.nextToUse = q.head.accepted.length % size := by rw [inv.nextToUse, whole]
  constructor
  · intro n f low here
    have low : q.tail.released.length ≤ n := low
    have here : (q.head.accepted ++ [frame])[n]? = some f := here
    by_cases old : n < q.head.accepted.length
    · rw [List.getElem?_append_left old] at here
      have apart : n % size ≠ q.head.nextToUse := by
        rw [slot]
        intro same
        have cleaned := inv.cleaned_le
        have := Cyclic.mod_inj low (by omega) (show q.tail.released.length ≤ q.head.accepted.length by omega) (by omega) same
        omega
      show Function.update q.head.desc q.head.nextToUse _ (n % size) = _
      rw [Function.update_of_ne apart]
      exact stream.desc n f low here
    · have last : n = q.head.accepted.length := by
        have inside := (List.getElem?_eq_some_iff.mp here).1
        rw [List.length_append, List.length_singleton] at inside
        omega
      subst last
      rw [List.getElem?_append_right (Nat.le_refl _), Nat.sub_self, List.getElem?_cons_zero, Option.some.injEq] at here
      subst here
      show Function.update q.head.desc q.head.nextToUse _ (_ % size) = _
      rw [← slot, Function.update_self]
  · exact stream.doorbell

theorem writePidx_steps : (TxAccess.writePidx).Steps (KeepsStream size kind rest) := by
  apply Program.Steps.modify
  intro q inv _ stream
  refine ⟨stream.desc, fun _ => ?_⟩
  show some (descPidx q.head.nextToUse) = some (descPidx (q.head.used % size))
  rw [inv.nextToUse]

theorem lock_steps (t : Nat) : (TxAccess.lock t).Steps (KeepsStream size kind rest) := by
  apply quiet_steps
  apply Program.Steps.access
  intro _ q before q' taken
  split at taken
  · cases taken
    exact .of_head rfl (Nat.le_refl _)
  · cases taken

theorem unlockCall_steps (skb : Nat) (ret : NetdevTx) (before : Nat × Nat) :
    (TxAccess.unlockCall skb ret before).Steps (KeepsStream size kind rest) :=
  head_steps fun _ => ⟨rfl, rfl, rfl, rfl, Nat.le_refl _⟩

theorem skbPutPadto_steps (skb : Nat) : (TxAccess.skbPutPadto skb).Steps (KeepsStream size kind rest) := by
  apply quiet_steps
  apply Program.Steps.access
  intro input q rv q' taken
  cases taken
  split
  · exact ⟨rfl, rfl, rfl, rfl, Nat.le_refl _⟩
  · exact .refl q

theorem dmaMapSingle_steps (skb : Option Nat) (len : Nat) :
    (TxAccess.dmaMapSingle skb len).Steps (KeepsStream size kind rest) := by
  apply quiet_steps
  apply Program.Steps.access
  intro input q mapping q' taken
  cases taken
  cases input.mapping with
  | none => exact .of_head rfl (Nat.le_refl _)
  | some addr => exact ⟨rfl, rfl, rfl, rfl, Nat.le_refl _⟩

theorem netdevXmitMore_steps : TxAccess.netdevXmitMore.Steps (KeepsStream size kind rest) := by
  apply quiet_steps
  apply Program.Steps.access
  intro input q more q' taken
  cases taken
  exact .refl q

/-- The frame is stored, counted and passed by `next_to_use`. -/
theorem enqueue_steps (frame : TxFrame) (len : Nat) (next : TxQueue → Nat) {α : Type} {p : Program TxQueue TxInput α}
    (after : p.Steps (KeepsStream size kind rest)) :
    (do
      TxAccess.store frame
      TxAccess.countPacket len
      TxAccess.writeNextToUse next
      p).Steps (KeepsStream size kind rest) := by
  apply Program.Steps.bind (store_steps frame)
  intro _
  apply Program.Steps.bind (countPacket_steps len)
  intro _
  exact .bind (writeNextToUse_steps next) fun _ => after

theorem pfClean_steps (t : Nat) : (onicTxClean t).Steps (KeepsStream size kind rest) :=
  (onicTxClean_keeps t).mono fun _ _ keeps => keeps.quiet.keeps

theorem vfClean_steps (priv : VfTxPriv) (t : Nat) : (onicVfTxClean priv t).Steps (KeepsStream size kind rest) :=
  (onicVfTxClean_keeps priv t).mono fun _ _ keeps => keeps.quiet.keeps

theorem onicXmitFrame_steps (t : Nat) (skb : Skb) : (onicXmitFrame t skb).Steps (KeepsStream size kind rest) := by
  apply Program.Steps.bind (pfClean_steps t)
  intro _
  apply Program.Steps.bind (look_steps _)
  intro full
  split
  · exact .done _
  apply Program.Steps.bind (skbPutPadto_steps skb.id)
  intro rv
  apply Program.Steps.bind (dmaMapSingle_steps _ _)
  intro mapping
  cases mapping with
  | none =>
    apply Program.Steps.bind (kfreeSkb_steps skb.id)
    intro _
    exact .bind countDropped_steps fun _ => .done _
  | some dmaAddr =>
    apply enqueue_steps
    apply Program.Steps.bind (look_steps _)
    intro full
    apply Program.Steps.bind netdevXmitMore_steps
    intro more
    split
    · exact .bind writePidx_steps fun _ => .done _
    · exact .done _

theorem onicXmitXdpRing_steps (t : Nat) (xdpf : XdpFrame) (dmaMap : Bool) :
    (onicXmitXdpRing t xdpf dmaMap).Steps (KeepsStream size kind rest) := by
  apply Program.Steps.bind (pfClean_steps t)
  intro _
  apply Program.Steps.bind (look_steps _)
  intro full
  split
  · exact .done _
  split
  · apply Program.Steps.bind (dmaMapSingle_steps _ _)
    intro mapping
    cases mapping with
    | none => exact .done _
    | some dmaAddr => exact enqueue_steps _ _ _ (.done _)
  · exact enqueue_steps _ _ _ (.done _)

theorem onicXdpXmitFrames_steps (t : Nat) (frames : List XdpFrame) :
    (onicXdpXmitFrames t frames).Steps (KeepsStream size kind rest) := by
  induction frames with
  | nil => exact .done 0
  | cons frame frames ih =>
    apply Program.Steps.bind
    · apply Program.Steps.bind (onicXmitXdpRing_steps t frame true)
      intro err
      split
      · exact .bind (returnFrame_steps _) fun _ => .done _
      · exact .done _
    intro drop
    exact .bind ih fun _ => .done _

theorem pfTxCall_steps {t : Nat} {p : Program TxQueue TxInput Unit} (call : PfTxCall t p) :
    p.Steps (KeepsStream size kind rest) := by
  cases call with
  | xmitFrame skb =>
    apply Program.Steps.bind (lock_steps t)
    intro before
    exact .bind (onicXmitFrame_steps t skb) fun ret => unlockCall_steps _ _ _
  | xdpXmitBack xdpf =>
    refine .bind ?_ fun _ => .done ()
    apply Program.Steps.bind (lock_steps t)
    intro _
    apply Program.Steps.bind (onicXmitXdpRing_steps t xdpf false)
    intro ret
    apply Program.Steps.bind writePidx_steps
    intro _
    exact .bind unlock_steps fun _ => .done _
  | xdpXmit frames flags =>
    refine .bind ?_ fun _ => .done ()
    rw [onicXdpXmit]
    split
    · exact .done _
    apply Program.Steps.bind (lock_steps t)
    intro _
    apply Program.Steps.bind (onicXdpXmitFrames_steps t frames)
    intro drops
    split
    · apply Program.Steps.bind writePidx_steps
      intro _
      exact .bind unlock_steps fun _ => .done _
    · exact .bind unlock_steps fun _ => .done _
  | txClean => exact pfClean_steps t

theorem onicVfXmitDrop_steps (skb : Skb) : (onicVfXmitDrop skb).Steps (KeepsStream size kind rest) := by
  apply Program.Steps.bind countDropped_steps
  intro _
  exact .bind (kfreeSkb_steps skb.id) fun _ => .done _

theorem onicVfXmitEnqueue_steps (priv : VfTxPriv) (skb : Skb) :
    (onicVfXmitEnqueue priv skb).Steps (KeepsStream size kind rest) := by
  apply Program.Steps.bind (skbPutPadto_steps skb.id)
  intro rv
  split
  · exact .bind countDropped_steps fun _ => .done _
  apply Program.Steps.bind (dmaMapSingle_steps _ _)
  intro mapping
  cases mapping with
  | none => exact onicVfXmitDrop_steps skb
  | some dmaAddr =>
    apply enqueue_steps
    rw [onicVfSetTxHead]
    split
    · exact .bind writePidx_steps fun _ => .done _
    · exact .done _

theorem vfTxCall_steps {priv : VfTxPriv} {t : Nat} {p : Program TxQueue TxInput Unit} (call : VfTxCall priv t p) :
    p.Steps (KeepsStream size kind rest) := by
  cases call with
  | xmitFrame skb =>
    apply Program.Steps.bind (lock_steps t)
    intro before
    refine .bind ?_ fun ret => unlockCall_steps _ _ _
    rw [onicVfXmitFrame]
    split
    · exact onicVfXmitDrop_steps skb
    split
    · exact onicVfXmitDrop_steps skb
    apply Program.Steps.bind (vfClean_steps priv t)
    intro _
    apply Program.Steps.bind (look_steps _)
    intro full
    split
    · apply Program.Steps.bind (vfClean_steps priv t)
      intro _
      apply Program.Steps.bind (look_steps _)
      intro full
      split
      · exact .done _
      · exact onicVfXmitEnqueue_steps priv skb
    · exact onicVfXmitEnqueue_steps priv skb
  | txClean => exact vfClean_steps priv t

theorem hardware_quiet {q q' : TxQueue} (happens : TxHardware q q') : TxQuiet q q' := by
  cases happens with
  | writeBack => exact .of_head rfl (Nat.le_refl _)
  | idle => exact .refl q

theorem TxFresh.stream {q : TxQueue} (fresh : TxFresh q) : TxStream size q := by
  obtain ⟨accepted, -, published, -⟩ := fresh.head
  constructor
  · intro n frame _ here
    rw [accepted] at here
    cases here
  · intro some
    rw [published] at some
    cases some

end

/-- The hardware's side of a transmit ring: wherever between the last completed and the last
    announced descriptor it is, what it fetches from there up to the doorbell are the accepted
    frames in their order, and their buffers are still the ring's. -/
structure TxFetches (q : TxQueue) : Prop where
  doorbell : 0 < q.head.published → ∃ pidx, q.head.doorbell = some pidx ∧
    (bitfieldGet (genmask 15 0) (pidx.setWidth 64)).toNat = q.head.published % q.size
  fetched : ∀ c, q.completed ≤ c → c ≤ q.head.published →
    (Cyclic.slotsBetween q.size (c % q.size) (q.head.published % q.size)).map
      (fun i => hwH2cStDesc (qdmaPackH2cStDesc (q.head.desc i))) =
        ((q.head.accepted.take q.head.published).drop c).map TxFrame.fetch
  held : ∀ n, q.completed ≤ n → n < q.head.published →
    ∃ frame, q.head.accepted[n]? = some frame ∧ q.buffer (n % q.size) = frame.buffer

section

variable {size : Nat} {kind : TxBufType → Prop} {rest : TxHead → Prop} {q : TxQueue}

theorem TxStream.fetch (stream : TxStream size q) {n : Nat} {frame : TxFrame} (low : q.tail.released.length ≤ n)
    (here : q.head.accepted[n]? = some frame) : hwH2cStDesc (qdmaPackH2cStDesc (q.head.desc (n % size))) = frame.fetch := by
  rw [hwH2cStDesc_pack, stream.desc n frame low here]
  rfl

theorem TxStream.fetches (stream : TxStream size q) (inv : TxInv size kind rest q) (small : size ≤ 2 ^ 16) : TxFetches q := by
  have slots : q.size = size := by rw [TxQueue.size, inv.count, Nat.add_sub_cancel]
  have inside : q.head.published ≤ q.head.accepted.length := inv.published_le.trans inv.used_le
  have window : q.head.published < q.completed + size := by
    have := inv.room
    have := inv.cleaned_le
    have := inv.released_le
    omega
  constructor
  · intro some
    refine ⟨_, stream.doorbell some, ?_⟩
    rw [slots]
    exact bitfieldGet_descPidx ((Nat.mod_lt _ inv.size_pos).trans_le small)
  · intro c low high
    rw [slots, Cyclic.slotsBetween_mod high (by omega), List.map_map]
    apply List.ext_getElem
    · simp only [List.length_map, List.length_range, List.length_drop, List.length_take]
      omega
    · intro i less less'
      have within : i < q.head.published - c := by simpa using less
      have here : q.head.accepted[c + i]? = some q.head.accepted[c + i] := List.getElem?_eq_getElem (by omega)
      simp only [List.getElem_map, List.getElem_range, Function.comp_apply, List.getElem_drop, List.getElem_take]
      exact stream.fetch (by have := inv.released_le; omega) here
  · intro n low high
    have less : n < q.head.accepted.length := by omega
    refine ⟨_, List.getElem?_eq_getElem less, TxBuffer.eq_buffer ?_⟩
    rw [slots]
    exact inv.slots.held n less (inv.released_le.trans low)

theorem pf_tx_stream {P : Pool Nat TxQueue TxInput} (fresh : TxFresh q) (small : q.size ≤ 2 ^ 16)
    (reach : Pool.Reach pfTxRules (fun _ => True) (Pool.start q) P) : TxFetches P.state := by
  have stream : TxStream q.size P.state := by
    apply Pool.inv_of_steps_within reach fun P before => (pf_tx_reach fresh before).1
    · exact fun t s p call => pfTxCall_steps call
    · exact fun s s' happens => (hardware_quiet happens).keeps
    · exact fresh.stream
  exact stream.fetches (pf_tx_reach fresh reach).1 small

theorem vf_tx_reach {priv : VfTxPriv} {P : Pool Nat TxQueue TxInput} (probed : priv.Probed) (fresh : TxFresh q)
    (calls : q.head.calls = []) (reach : Pool.Reach (vfTxRules priv) (fun _ => True) (Pool.start q) P) :
    TxInv q.size VfKind (VfRest priv) P.state := by
  obtain ⟨accepted, used, -, -, pending, disposed, -⟩ := fresh.head
  have left : VfRest priv q.head :=
    ⟨⟨⟨by rw [used, accepted]; rfl, pending⟩, fun some => absurd accepted some⟩,
      by rw [disposed, TxHead.okSkbs, calls]; rfl, by simp [calls], fun _ => accepted⟩
  have inv : TxInv q.size VfKind (VfRest priv) q := fresh.inv left
  have idle (t : Nat) : (txContract q.size VfKind (VfRest priv) t).wp
      (.done () : Program TxQueue TxInput Unit) (fun _ => Owns t none none) q :=
    owns_done () q trivial inv ⟨by simp [OwnsHead, fresh.txLock], by simp [OwnsTail, fresh.cleaning]⟩
  exact ((vfTxRules_fit probed).reach reach trivial inv idle).2.1

theorem vf_tx_stream {priv : VfTxPriv} {P : Pool Nat TxQueue TxInput} (probed : priv.Probed) (fresh : TxFresh q)
    (calls : q.head.calls = []) (small : q.size ≤ 2 ^ 16)
    (reach : Pool.Reach (vfTxRules priv) (fun _ => True) (Pool.start q) P) : TxFetches P.state := by
  have stream : TxStream q.size P.state := by
    apply Pool.inv_of_steps_within reach fun P before => vf_tx_reach probed fresh calls before
    · exact fun t s p call => vfTxCall_steps call
    · exact fun s s' happens => (hardware_quiet happens).keeps
    · exact fresh.stream
  exact stream.fetches (vf_tx_reach probed fresh calls reach) small

end

/-- Thread 0 of a PF or VF sends two frames, which the hardware has not come to. -/
def sendTwo (xmit : Skb → Program TxQueue TxInput Unit) (accesses : Nat) : List (Pool.Move Nat TxQueue TxInput) :=
  .call 0 (xmit ⟨7, 42⟩) :: List.replicate accesses (.access 0 ⟨0, some 4096, false⟩) ++
    .call 0 (xmit ⟨8, 1500⟩) :: List.replicate accesses (.access 0 ⟨0, some 8192, false⟩)

theorem sendTwo_allowed {rules : Pool.Rules Nat TxQueue TxInput} {xmit : Skb → Program TxQueue TxInput Unit} {accesses : Nat}
    (calls : ∀ skb s, rules.calls 0 s (xmit skb)) : ∀ m ∈ sendTwo xmit accesses, m.Allowed rules := by
  intro m mem
  simp only [sendTwo, List.cons_append, List.mem_cons, List.mem_append, List.mem_replicate] at mem
  rcases mem with rfl | ⟨-, rfl⟩ | rfl | ⟨-, rfl⟩
  · exact calls _
  · trivial
  · exact calls _
  · trivial

theorem pf_tx_stream_two_frames :
    ∃ P, Pool.Reach pfTxRules (fun _ => True) (Pool.start (.initial 4096)) P ∧
      (P.state.completed, P.state.head.published) = (0, 2) ∧ TxFetches P.state := by
  have played : ((Pool.start (.initial 4096)).play (fun _ => true)
      (sendTwo (fun skb => transmit 0 skb (onicXmitFrame 0 skb)) 15)).map
        (fun P => (P.state.completed, P.state.head.published)) = some (0, 2) := by
    decide +kernel
  obtain ⟨P, ran, is⟩ := Option.map_eq_some_iff.mp played
  have reach : Pool.Reach pfTxRules (fun _ => True) _ P :=
    Pool.reach_of_play (fun _ _ => trivial) (sendTwo_allowed fun _ _ => .xmitFrame _) ran
  exact ⟨P, reach, is, pf_tx_stream (TxQueue.initial_fresh (by decide)) (by decide) reach⟩

theorem vf_tx_stream_two_frames :
    ∃ P, Pool.Reach (vfTxRules oneOfFour) (fun _ => True) (Pool.start (.initial 4096)) P ∧
      (P.state.completed, P.state.head.published) = (0, 2) ∧ TxFetches P.state := by
  have played : ((Pool.start (.initial 4096)).play (fun _ => true)
      (sendTwo (fun skb => transmit 0 skb (onicVfXmitFrame oneOfFour 0 skb)) 15)).map
        (fun P => (P.state.completed, P.state.head.published)) = some (0, 2) := by
    decide +kernel
  obtain ⟨P, ran, is⟩ := Option.map_eq_some_iff.mp played
  have reach : Pool.Reach (vfTxRules oneOfFour) (fun _ => True) _ P :=
    Pool.reach_of_play (fun _ _ => trivial) (sendTwo_allowed fun _ _ => .xmitFrame _) ran
  have probed : oneOfFour.Probed := ⟨rfl, rfl, fun _ => by decide, Nat.le_refl 4⟩
  exact ⟨P, reach, is, vf_tx_stream probed (TxQueue.initial_fresh (by decide)) rfl (by decide) reach⟩

end OpenNic
