import OpenNic.Tx.PfClean

namespace OpenNic

/-- The loop of `onic_xdp_xmit` where every frame comes with the input its turn finds. -/
def onicXdpXmitFramesOn (t : Nat) : List (XdpFrame × TxInput) → TxQueue → Option (Nat × TxQueue)
  | [], q => some (0, q)
  | (frame, input) :: batch, q =>
    ((onicXdpXmitOne t frame).eval input q).bind fun r =>
      (onicXdpXmitFramesOn t batch r.2).map fun r' => (r.1 + r'.1, r'.2)

/-- `onic_xdp_xmit` where every frame comes with the input its turn finds. -/
def onicXdpXmitOn (t : Nat) (batch : List (XdpFrame × TxInput)) (flags : Word) (q : TxQueue) :
    Option (Int × TxQueue) :=
  if flags &&& ~~~xdpXmitFlagsMask ≠ 0 then some (- EINVAL, q)
  else if q.txLock = none then
    (onicXdpXmitFramesOn t batch { q with txLock := some t }).map fun r =>
      ((batch.length : Int) - r.1,
        if flags &&& xdpXmitFlush ≠ 0 then
          { r.2 with
            txLock := none
            head := { r.2.head with doorbell := some (descPidx r.2.head.nextToUse), published := r.2.head.used } }
        else { r.2 with txLock := none })
  else none

section

variable {size t : Nat} {q q' : TxQueue}

theorem onicXdpXmitFramesOn_exec {batch : List (XdpFrame × TxInput)} {drops : Nat}
    (ran : onicXdpXmitFramesOn t batch q = some (drops, q')) :
    Program.Exec (onicXdpXmitFrames t (batch.map Prod.fst)) q drops q' := by
  induction batch generalizing q drops with
  | nil =>
    cases ran
    exact .done _ _
  | cons turn batch ih =>
    obtain ⟨⟨drop, mid⟩, first, others⟩ := Option.bind_eq_some_iff.mp ran
    obtain ⟨⟨more, last⟩, rest, same⟩ := Option.map_eq_some_iff.mp others
    simp only [Prod.mk.injEq] at same
    obtain ⟨rfl, rfl⟩ := same
    exact .bind (.of_eval first) (.bind (ih rest) (.done _ _))

/-- What it computes is a run of the program. -/
theorem onicXdpXmitOn_exec {batch : List (XdpFrame × TxInput)} {flags : Word} {r : Int}
    (ran : onicXdpXmitOn t batch flags q = some (r, q')) :
    Program.Exec (onicXdpXmit t (batch.map Prod.fst) flags) q r q' := by
  rw [onicXdpXmitOn] at ran
  rw [onicXdpXmit]
  split at ran
  · rename_i invalid
    cases ran
    rw [if_pos invalid]
    exact .done _ _
  · rename_i valid
    rw [if_neg valid]
    split at ran
    · rename_i free
      obtain ⟨⟨drops, mid⟩, loop, same⟩ := Option.map_eq_some_iff.mp ran
      have locked : Program.Exec (TxAccess.lock t) q (q.head.txPackets, q.head.txDropped)
          { q with txLock := some t } :=
        Program.exec_access.mpr ⟨⟨0, none, false⟩, by rw [if_pos free]⟩
      refine .bind locked (.bind (onicXdpXmitFramesOn_exec loop) ?_)
      rw [List.length_map]
      simp only [Prod.mk.injEq] at same
      obtain ⟨rfl, rfl⟩ := same
      split
      · exact .bind (a := ()) (Program.exec_modify.mpr rfl) (.bind (a := ()) (Program.exec_modify.mpr rfl) (.done _ _))
      · exact .bind (a := ()) (Program.exec_modify.mpr rfl) (.done _ _)
    · cases ran

/-- Before a turn of the loop: the clean of the turn comes to position `c`. -/
structure BatchState (size t c : Nat) (q : TxQueue) : Prop where
  inv : TxInv size PfKind Whole q
  locked : q.txLock = some t
  whole : Whole q.head
  bit : q.cleaning ≠ some t
  cleaned : q.onicTxCleaned = c % size
  ordered : c ≤ q.head.used
  room : q.head.used < c + size

theorem BatchState.full_iff {c : Nat} (state : BatchState size t c q) :
    q.FullOnceCleaned ↔ q.head.used + 1 = c + size := by
  rw [TxQueue.FullOnceCleaned, state.inv.realCount, state.inv.nextToUse, state.cleaned]
  exact Cyclic.full_iff state.ordered state.room

/-- What a turn does to the ring, the log of the stored frames aside. -/
structure TurnKeeps (q q' : TxQueue) : Prop where
  wb : q'.wb = q.wb
  completed : q'.completed = q.completed
  cleaned : q'.onicTxCleaned = q.onicTxCleaned

/-- One turn: a frame that finds no room or no mapping is returned, any other is stored. -/
inductive Turn (q : TxQueue) (frame : XdpFrame) (input : TxInput) (returned : List Nat) : Nat → TxQueue → Prop
  | drop {q' : TxQueue} (failed : q.FullOnceCleaned ∨ input.mapping = none)
      (accepted : q'.head.accepted = q.head.accepted) (used : q'.head.used = q.head.used)
      (is : q'.returned = returned ++ [frame.id]) : Turn q frame input returned 1 q'
  | stored {q' : TxQueue} {dmaAddr : BitVec 64} (room : ¬ q.FullOnceCleaned) (mapped : input.mapping = some dmaAddr)
      (accepted : q'.head.accepted = q.head.accepted ++ [⟨.xdpfXmit, frame.id, dmaAddr, frame.len⟩])
      (used : q'.head.used = q.head.used + 1) (is : q'.returned = returned) : Turn q frame input returned 0 q'

/-- `onicXmitXdpRing` of a frame that is to be mapped, once the ring has room. -/
def onicXdpMapped (xdpf : XdpFrame) : Program TxQueue TxInput Nat := do
  match ← TxAccess.dmaMapSingle none xdpf.len with
  | none => .done onicXdpConsumed
  | some dmaAddr => onicXdpEnqueue ⟨.xdpfXmit, xdpf.id, dmaAddr, xdpf.len⟩

theorem onicXdpXmitOne_turn {c : Nat} (state : BatchState size t c q) (frame : XdpFrame) (input : TxInput) :
    ∃ drop q' returned, (onicXdpXmitOne t frame).eval input q = some (drop, q') ∧
      Turn q frame input returned drop q' ∧ TurnKeeps q q' ∧
      ∃ more, q'.tail.released = q.tail.released ++ more ∧
        returned = q.returned ++ (more.flatMap TxRelease.actions).filterMap TxAction.xdpf? := by
  obtain ⟨padto, mapping, xmitMore⟩ := input
  obtain ⟨q₁, inv₁, keeps, again, full, free⟩ := onicTxClean_then state.inv t ⟨padto, mapping, xmitMore⟩
    (.done netdevTxBusy) (onicXdpMapped frame)
  obtain ⟨more, released, returned⟩ := keeps.returned
  rw [onicXdpXmitOne, Program.eval_bind]
  by_cases here : q.FullOnceCleaned
  · rw [show (onicXmitXdpRing t frame true).eval _ q = _ from full here]
    exact ⟨1, _, q₁.returned, rfl, .drop (.inl here) (by rw [keeps.head]) (by rw [keeps.head]) rfl,
      ⟨keeps.wb, keeps.completed, again⟩, more, released, returned⟩
  · rw [show (onicXmitXdpRing t frame true).eval _ q = _ from free here]
    cases mapping with
    | none =>
      exact ⟨1, _, q₁.returned, rfl, .drop (.inr rfl) (by rw [keeps.head]) (by rw [keeps.head]) rfl,
        ⟨keeps.wb, keeps.completed, again⟩, more, released, returned⟩
    | some dmaAddr =>
      exact ⟨0, _, q₁.returned, rfl, .stored here rfl (by rw [keeps.head]) (by rw [keeps.head]) rfl,
        ⟨keeps.wb, keeps.completed, again⟩, more, released, returned⟩

theorem BatchState.after {c drop : Nat} (state : BatchState size t c q) {frame : XdpFrame} {input : TxInput}
    {returned : List Nat} (ran : (onicXdpXmitOne t frame).eval input q = some (drop, q'))
    (turn : Turn q frame input returned drop q') (keeps : TurnKeeps q q') : BatchState size t c q' := by
  obtain ⟨inv, head, whole, owns⟩ := Contract.wp_exec (.of_eval ran) (fun _ => trivial) state.inv
    (onicXdpXmitOne_triple frame state.whole q trivial state.inv ⟨⟨state.locked, rfl⟩, state.bit⟩)
  obtain ⟨locked, is⟩ := held_lock owns
  rw [← is] at whole
  have cleaned : q'.onicTxCleaned = c % size := keeps.cleaned.trans state.cleaned
  have ordered := state.ordered
  have room := state.room
  cases turn with
  | drop _ _ used => exact ⟨inv, locked, whole, owns.tail, cleaned, by omega, by omega⟩
  | stored free _ _ used =>
    rw [state.full_iff] at free
    exact ⟨inv, locked, whole, owns.tail, cleaned, by omega, by omega⟩

/-- What is released was put in before the hardware was done with it. -/
theorem TxInv.released_older (inv : TxInv size PfKind Whole q) {id : Nat} {more : List TxRelease}
    (subset : ∀ r ∈ more, r ∈ q.tail.released)
    (mem : id ∈ (more.flatMap TxRelease.actions).filterMap TxAction.xdpf?) :
    id ∈ (q.head.accepted.take q.completed).filterMap TxFrame.xdpf? := by
  obtain ⟨action, inside, is⟩ := List.mem_filterMap.mp mem
  obtain ⟨r, there, of_r⟩ := List.mem_flatMap.mp inside
  obtain ⟨k, less, at_k⟩ := List.getElem_of_mem (subset r there)
  have within : k < (q.head.accepted.mapIdx (dueAt size)).length := less.trans_le inv.releases.length_le
  have due := inv.releases.getElem less
  rw [at_k, List.getElem_mapIdx] at due
  rw [List.length_mapIdx] at within
  have of_frame : action ∈ q.head.accepted[k].due := by
    rw [due] at of_r
    exact of_r
  have own : id ∈ q.head.accepted[k].due.filterMap TxAction.xdpf? := List.mem_filterMap.mpr ⟨action, of_frame, is⟩
  rw [TxFrame.due_xdpfs, Option.mem_toList] at own
  refine List.mem_filterMap.mpr ⟨q.head.accepted[k], ?_, own⟩
  have bound := inv.released_le
  exact List.mem_take_iff_getElem.mpr ⟨k, by omega, rfl⟩

/-- What the loop has done with the frames of the batch. -/
structure BatchDone (size t c : Nat) (q : TxQueue) (batch : List (XdpFrame × TxInput)) (drops : Nat)
    (stored : List TxFrame) (lost : List Nat) (q' : TxQueue) : Prop where
  state : BatchState size t c q'
  completed : q'.completed = q.completed
  accepted : q'.head.accepted = q.head.accepted ++ stored
  types : ∀ frame ∈ stored, frame.type = .xdpfXmit
  order : (stored.map TxFrame.id).Sublist (batch.map fun turn => turn.1.id)
  split : (stored.map TxFrame.id ++ lost).Perm (batch.map fun turn => turn.1.id)
  count : drops = lost.length
  given_back : ∀ id ∈ lost, id ∈ q'.returned
  returned : ∀ id ∈ q'.returned, id ∈ q.returned ∨ id ∈ lost ∨
    id ∈ (q.head.accepted.take q.completed).filterMap TxFrame.xdpf?
  none_lost : drops = 0 ↔ q.head.used + batch.length < c + size ∧ ∀ turn ∈ batch, turn.2.mapping.isSome
  kept : ∀ id ∈ q.returned, id ∈ q'.returned

/-- The induction is on the batch; every turn starts where the last one ended. -/
theorem onicXdpXmitFramesOn_done {c : Nat} (batch : List (XdpFrame × TxInput)) (state : BatchState size t c q) :
    ∃ drops stored lost q', onicXdpXmitFramesOn t batch q = some (drops, q') ∧
      BatchDone size t c q batch drops stored lost q' := by
  induction batch generalizing q with
  | nil =>
    have room := state.room
    refine ⟨0, [], [], q, rfl, state, rfl, (List.append_nil _).symm, nofun, .slnil, .nil, rfl, nofun,
      fun _ mem => .inl mem, ⟨fun _ => ⟨room, nofun⟩, fun _ => rfl⟩, fun _ mem => mem⟩
  | cons turn batch ih =>
    obtain ⟨frame, input⟩ := turn
    obtain ⟨drop, mid, returned, ran, turn, keeps, more, released, is⟩ := onicXdpXmitOne_turn state frame input
    have state' := state.after ran turn keeps
    obtain ⟨drops, stored, lost, q', rest, done⟩ := ih state'
    have whole : onicXdpXmitFramesOn t ((frame, input) :: batch) q = some (drop + drops, q') := by
      rw [onicXdpXmitFramesOn, ran, Option.bind_some, rest]
      rfl
    have bound : q.completed ≤ q.head.accepted.length :=
      state.inv.completed_le.trans (state.inv.published_le.trans state.inv.used_le)
    have older : (mid.head.accepted.take mid.completed) = q.head.accepted.take q.completed := by
      rw [keeps.completed]
      cases turn with
      | drop _ accepted => rw [accepted]
      | stored _ _ accepted => rw [accepted, List.take_append_of_le_length bound]
    have given : ∀ id ∈ returned, id ∈ q.returned ∨
        id ∈ (q.head.accepted.take q.completed).filterMap TxFrame.xdpf? := by
      intro id mem
      rw [is, List.mem_append] at mem
      rcases mem with before | new
      · exact .inl before
      · rw [← older]
        refine .inr (state'.inv.released_older (fun r there => ?_) new)
        rw [released]
        exact List.mem_append_right _ there
    have kept : ∀ id ∈ q.returned, id ∈ returned := fun id mem => is ▸ List.mem_append_left _ mem
    have room := state.room
    have none_lost := done.none_lost
    cases turn with
    | drop failed accepted used back =>
      refine ⟨_, stored, frame.id :: lost, q', whole, done.state, done.completed.trans keeps.completed, ?_,
        done.types, done.order.cons _, ?_, ?_, ?_, ?_, ?_, ?_⟩
      · rw [done.accepted, accepted]
      · exact List.perm_middle.trans (done.split.cons _)
      · rw [done.count, List.length_cons, Nat.add_comm]
      · intro id mem
        rcases List.mem_cons.mp mem with rfl | mem
        · exact done.kept _ (back ▸ List.mem_append_right _ (List.mem_singleton_self _))
        · exact done.given_back id mem
      · intro id mem
        rcases done.returned id mem with before | lost | old
        · rw [back, List.mem_append, List.mem_singleton] at before
          rcases before with before | rfl
          · rcases given id before with before | old
            · exact .inl before
            · exact .inr (.inr old)
          · exact .inr (.inl List.mem_cons_self)
        · exact .inr (.inl (List.mem_cons_of_mem _ lost))
        · exact .inr (.inr (older ▸ old))
      · refine ⟨fun zero => by omega, fun ⟨fits, mapped⟩ => ?_⟩
        rcases failed with full | unmapped
        · rw [state.full_iff] at full
          rw [List.length_cons] at fits
          omega
        · have here := mapped _ List.mem_cons_self
          rw [unmapped] at here
          cases here
      · exact fun id mem => done.kept id (back ▸ List.mem_append_left _ (kept id mem))
    | @stored _ dmaAddr free mapped accepted used back =>
      refine ⟨_, ⟨.xdpfXmit, frame.id, dmaAddr, frame.len⟩ :: stored, lost, q', whole, done.state,
        done.completed.trans keeps.completed, ?_, ?_, done.order.cons_cons _, done.split.cons _, ?_, done.given_back,
        ?_, ?_, ?_⟩
      · rw [done.accepted, accepted, List.append_assoc]
        rfl
      · intro f mem
        rcases List.mem_cons.mp mem with rfl | mem
        · rfl
        · exact done.types f mem
      · rw [done.count, Nat.zero_add]
      · intro id mem
        rcases done.returned id mem with before | lost | old
        · rw [back] at before
          rcases given id before with before | old
          · exact .inl before
          · exact .inr (.inr old)
        · exact .inr (.inl lost)
        · exact .inr (.inr (older ▸ old))
      · rw [state.full_iff] at free
        rw [Nat.zero_add, none_lost, used, List.length_cons]
        constructor
        · rintro ⟨fits, all⟩
          refine ⟨by omega, fun turn mem => ?_⟩
          rcases List.mem_cons.mp mem with rfl | mem
          · rw [mapped]
            rfl
          · exact all turn mem
        · exact fun ⟨fits, all⟩ => ⟨by omega, fun turn mem => all turn (List.mem_cons_of_mem _ mem)⟩
      · exact fun id mem => done.kept id (back ▸ kept id mem)

end

section

variable {size t c : Nat} {q q' : TxQueue}

end

/-- Where the batch starts: position `c` is what the clean of every turn comes to. -/
theorem batchState_start {size t : Nat} {q : TxQueue} (inv : TxInv size PfKind Whole q) (free : q.txLock = none)
    (bit : q.cleaning ≠ some t) : ∃ c, BatchState size t c { q with txLock := some t } := by
  have room := inv.used_le.trans_lt inv.room
  have cleaned := inv.cleaned_le
  have released := inv.released_le
  have completed := inv.completed_le
  have published := inv.published_le
  by_cases idle : q.cleaning = none
  · refine ⟨q.completed, inv.lock t, rfl, inv.headIdle free, bit, ?_, completed.trans published, ?_⟩
    · rw [TxQueue.onicTxCleaned, if_pos idle]
      exact inv.wb
    · exact room.trans_le (by omega)
  · refine ⟨q.tail.cleaned, inv.lock t, rfl, inv.headIdle free, bit, ?_, inv.cleaned_le_used, room⟩
    rw [TxQueue.onicTxCleaned, if_neg idle]
    exact inv.nextToClean

end OpenNic
