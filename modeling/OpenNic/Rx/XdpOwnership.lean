import OpenNic.Rx.XdpDriver
import OpenNic.Tx.XdpXmit

namespace OpenNic

/-- Where the page of a packet can be after the packet. -/
inductive PageOwner
  | stack
  | txSlot
  | target
  | pool
  | slot
  deriving DecidableEq

/-- How often the page is with an owner; it is with the slot as long as the slot is not
    refilled. -/
def XdpRx.held (s : XdpRx) (page : Nat) (refill : Bool) : PageOwner → Nat
  | .stack => s.stack.count page
  | .txSlot => (s.tx.live.filterMap TxFrame.xdpf?).count page
  | .target => s.redirected.count page
  | .pool => s.recycled.count page
  | .slot => if refill then 0 else 1

instance (q : TxQueue) : Decidable q.FullOnceCleaned := inferInstanceAs (Decidable (_ = _))

/-- Whether an XDP_TX gets the packet into the ring. -/
def XdpTxSends (input : XdpInput) (s : XdpRx) : Prop :=
  input.converted.isSome ∧ s.there = true ∧ ¬ s.tx.FullOnceCleaned

instance (input : XdpInput) (s : XdpRx) : Decidable (XdpTxSends input s) := inferInstanceAs (Decidable (_ ∧ _))

/-- Whose the page has to be. -/
def dueOwner (input : XdpInput) (s : XdpRx) : PageOwner :=
  match input.prog with
  | none => if input.buildSkb then .stack else .slot
  | some act =>
    if act = xdpPass then if input.buildSkb then .stack else .slot
    else if act = xdpTx then if XdpTxSends input s then .txSlot else .pool
    else if act = xdpRedirect then if input.redirect = 0 then .target else .pool
    else .pool

/-- The page goes to the owner that is due, and to nobody else. -/
def PageDisposed (input : XdpInput) (s : XdpRx) (page : Nat) (refill : Bool) (s' : XdpRx) : Prop :=
  ∀ owner, s'.held page refill owner = s.held page true owner + if owner = dueOwner input s then 1 else 0

/-- An XDP_TX that fails after the frame is made. -/
def XdpTxFails (input : XdpInput) (s : XdpRx) : Prop :=
  input.prog = some xdpTx ∧ input.converted.isSome ∧ (s.there = false ∨ s.tx.FullOnceCleaned)

instance (input : XdpInput) (s : XdpRx) : Decidable (XdpTxFails input s) := inferInstanceAs (Decidable (_ ∧ _))

section

variable {size t : Nat} {q : TxQueue}

theorem TxQueue.live_grows {q q' : TxQueue} {stored : List TxFrame} {more : List TxRelease}
    (accepted : q'.head.accepted = q.head.accepted ++ stored)
    (released : q'.tail.released = q.tail.released ++ more)
    (bound : q'.tail.released.length ≤ q.head.accepted.length) :
    q'.live = q.live.drop more.length ++ stored := by
  rw [TxQueue.live, accepted, List.drop_append_of_le_length bound, TxQueue.live, List.drop_drop, released,
    List.length_append]

/-- `onic_xdp_xmit_back` once it has a frame and a queue. -/
theorem onicXdpXmitBack_eval (inv : TxInv size PfKind Whole q) (free : q.txLock = none) (frame : XdpFrame)
    (input : TxInput) :
    ∃ q' k, (q.FullOnceCleaned → (onicXdpXmitBack t frame).eval input q = some (netdevTxBusy, q') ∧
        q'.live = q.live.drop k) ∧
      (¬ q.FullOnceCleaned → (onicXdpXmitBack t frame).eval input q = some (onicXdpTx, q') ∧
        ∃ stored : TxFrame, stored.xdpf? = some frame.id ∧ q'.live = q.live.drop k ++ [stored]) := by
  obtain ⟨padto, mapping, xmitMore⟩ := input
  obtain ⟨q₁, inv₁, keeps, -, full, room⟩ := onicTxClean_then (inv.lock t) t ⟨padto, mapping, xmitMore⟩
    (.done netdevTxBusy) (onicXdpEnqueue ⟨.xdpf, frame.id,
      frame.pageDma + BitVec.ofNat 64 sizeofXdpFrame + BitVec.ofNat 64 frame.headroom, frame.len⟩)
  obtain ⟨more, released, -⟩ := keeps.returned
  have bound : q₁.tail.released.length ≤ q.head.accepted.length := by
    have late := inv₁.released_le.trans (inv₁.completed_le.trans (inv₁.published_le.trans inv₁.used_le))
    rwa [keeps.head] at late
  have start : (onicXdpXmitBack t frame).eval ⟨padto, mapping, xmitMore⟩ q =
      ((onicXmitXdpRing t frame false).eval ⟨padto, mapping, xmitMore⟩ { q with txLock := some t }).bind fun r =>
        some (r.1, { r.2 with
          txLock := none
          head := { r.2.head with doorbell := some (descPidx r.2.head.nextToUse), published := r.2.head.used } }) := by
    rw [onicXdpXmitBack, Program.eval_bind, TxAccess.lock, Program.eval_access, if_pos free, Option.bind_some,
      Program.eval_bind]
    rfl
  by_cases here : q.FullOnceCleaned
  · rw [show (onicXmitXdpRing t frame false).eval _ _ = _ from full here, Program.eval_done, Option.bind_some] at start
    refine ⟨_, more.length, fun _ => ⟨start, ?_⟩, fun other => absurd here other⟩
    have same : q₁.head.accepted = q.head.accepted ++ [] := by rw [keeps.head, List.append_nil]
    have live := TxQueue.live_grows same released bound
    rw [List.append_nil] at live
    exact live
  · rw [show (onicXmitXdpRing t frame false).eval _ _ = _ from room here] at start
    refine ⟨_, more.length, fun other => absurd other here, fun _ => ⟨start.trans rfl, ⟨.xdpf, frame.id,
      frame.pageDma + BitVec.ofNat 64 sizeofXdpFrame + BitVec.ofNat 64 frame.headroom, frame.len⟩, rfl, ?_⟩⟩
    exact TxQueue.live_grows (by rw [← show q₁.head = q.head from keeps.head]) released bound

end

section

variable {t : Nat} {buff : XdpBuff} {input : XdpInput} {s s' : XdpRx}

theorem onicRxSkb_eval : (onicRxSkb buff).eval input s =
    some (input.buildSkb, if input.buildSkb then { s with stack := s.stack ++ [buff.page] } else s) := by
  have positive : ¬ (input.gro : Int) < 0 := by omega
  rw [onicRxSkb, Program.eval_bind, Program.eval_access, Option.bind_some]
  cases input.buildSkb with
  | false => rfl
  | true =>
    simp only [if_true, Program.eval_bind, Program.eval_access, Option.bind_some]
    rw [if_neg positive]
    rfl

/-- A packet that goes on to the stack. -/
theorem onicRxPacket_pass (ran : (onicRunXdp t buff).eval input s = some (- (onicXdpPass : Int), s')) :
    (onicRxPacket t buff).eval input s = (onicRxSkb buff).eval input s' := by
  rw [onicRxPacket, Program.eval_bind, ran, Option.bind_some]
  dsimp only
  rw [if_pos (by decide), if_neg (by decide), if_pos (by decide)]

/-- A packet that does not: the poll goes on to the refill, whatever the program returned. -/
theorem onicRxPacket_other {ptr : Int} (ran : (onicRunXdp t buff).eval input s = some (ptr, s'))
    (is : ptr = - (onicXdpConsumed : Int) ∨ ptr = - (onicXdpTx : Int) ∨ ptr = - (onicXdpRedir : Int) ∨
      ptr = - (netdevTxBusy : Int) ∨ ptr = ENXIO) :
    ∃ flags, (onicRxPacket t buff).eval input s = some (true, { s' with xdpXmit := flags }) := by
  rw [onicRxPacket, Program.eval_bind, ran, Option.bind_some]
  rcases is with rfl | rfl | rfl | rfl | rfl
  all_goals dsimp only
  · rw [if_pos (by decide), if_neg (by decide), if_neg (by decide)]
    exact ⟨s'.xdpXmit, rfl⟩
  · rw [if_pos (by decide), if_pos (by decide), if_neg (by decide)]
    exact ⟨_, rfl⟩
  · rw [if_pos (by decide), if_pos (by decide), if_neg (by decide)]
    exact ⟨_, rfl⟩
  · rw [if_pos (by decide), if_neg (by decide), if_neg (by decide)]
    exact ⟨s'.xdpXmit, rfl⟩
  · rw [if_neg (by decide)]
    exact ⟨s'.xdpXmit, rfl⟩

theorem onicRunXdp_none (prog : input.prog = none) :
    (onicRunXdp t buff).eval input s = some (- (onicXdpPass : Int), s) := by
  rw [onicRunXdp, Program.eval_bind, Program.eval_access, Option.bind_some, prog]
  rfl

theorem onicRunXdp_pass (prog : input.prog = some xdpPass) :
    (onicRunXdp t buff).eval input s = some (- (onicXdpPass : Int), { s with xdpPass := s.xdpPass + 1 }) := by
  rw [onicRunXdp, Program.eval_bind, Program.eval_access, Option.bind_some, prog]
  rfl

theorem onicRunXdp_tx (prog : input.prog = some xdpTx) : (onicRunXdp t buff).eval input s =
    ((onicXdpXmitBackBuff t buff).eval input s).bind fun r =>
      if r.1 = onicXdpConsumed then (onicXdpOutFailure buff).eval input r.2 else some (- r.1, r.2) := by
  rw [onicRunXdp, Program.eval_bind, Program.eval_access, Option.bind_some, prog]
  simp only [if_neg (show ¬ xdpTx = xdpPass by decide), if_true, Program.eval_bind]
  cases (onicXdpXmitBackBuff t buff).eval input s with
  | none => rfl
  | some r =>
    simp only [Option.bind_some]
    split <;> rfl

theorem onicRunXdp_redirect (prog : input.prog = some xdpRedirect) : (onicRunXdp t buff).eval input s =
    if input.redirect = 0 then some (- (onicXdpRedir : Int), { s with
      redirected := s.redirected ++ [buff.page], xdpRedirect := s.xdpRedirect + 1 })
    else some (- (onicXdpConsumed : Int), { s with
      xdpDrop := s.xdpDrop + 1, recycled := s.recycled ++ [buff.page] }) := by
  rw [onicRunXdp, Program.eval_bind, Program.eval_access, Option.bind_some, prog]
  simp only [if_neg (show ¬ xdpRedirect = xdpPass by decide), if_neg (show ¬ xdpRedirect = xdpTx by decide), if_true,
    Program.eval_bind, Program.eval_access, Option.bind_some]
  by_cases target : input.redirect = 0
  · rw [if_pos target, if_neg (not_not.mpr target), if_pos target]
    rfl
  · rw [if_neg target, if_pos target, if_neg target]
    rfl

/-- XDP_DROP, XDP_ABORTED and everything that is no verdict -/
theorem onicRunXdp_other {act : Word} (prog : input.prog = some act) (pass : act ≠ xdpPass) (send : act ≠ xdpTx)
    (redirect : act ≠ xdpRedirect) : (onicRunXdp t buff).eval input s = some (- (onicXdpConsumed : Int), { s with
      xdpDrop := s.xdpDrop + 1, recycled := s.recycled ++ [buff.page] }) := by
  rw [onicRunXdp, Program.eval_bind, Program.eval_access, Option.bind_some, prog]
  simp only [if_neg pass, if_neg send, if_neg redirect]
  rfl

/-- A frame that cannot be made. -/
theorem onicXdpXmitBackBuff_none (none : input.converted = none) : (onicXdpXmitBackBuff t buff).eval input s =
    some ((onicXdpConsumed : Int), { s with xdpTxErr := s.xdpTxErr + 1 }) := by
  rw [onicXdpXmitBackBuff, Program.eval_bind, Program.eval_access, Option.bind_some, none]
  rfl

theorem onicXdpXmitBackBuff_absent {size : Nat × Nat} (made : input.converted = some size) (absent : s.there = false) :
    (onicXdpXmitBackBuff t buff).eval input s = some (- ENXIO, { s with xdpTxErr := s.xdpTxErr + 1 }) := by
  obtain ⟨len, headroom⟩ := size
  rw [onicXdpXmitBackBuff, Program.eval_bind, Program.eval_access, Option.bind_some, made]
  have missing : (!s.there) = true := by rw [absent]; rfl
  simp only [Program.eval_bind, Program.eval_read, Option.bind_some, if_pos missing]
  rfl

theorem onicXdpXmitBackBuff_sent {len headroom ret : Nat} {q' : TxQueue} (made : input.converted = some (len, headroom))
    (there : s.there = true)
    (ran : (onicXdpXmitBack t ⟨buff.page, len, headroom, buff.pageDma⟩).eval input.tx s.tx = some (ret, q')) :
    (onicXdpXmitBackBuff t buff).eval input s = some ((ret : Int), { s with tx := q', xdpTx := s.xdpTx + 1 }) := by
  rw [onicXdpXmitBackBuff, Program.eval_bind, Program.eval_access, Option.bind_some, made]
  have present : ¬ (!s.there) = true := by simp [there]
  simp only [Program.eval_bind, Program.eval_read, Option.bind_some, if_neg present, Program.eval_lift XdpRx.tx_lens, Program.eval_comap, ran, Option.map_some, Program.eval_modify, Program.eval_done]
  rfl

/-- The packet is dropped: the page goes to the pool. -/
theorem disposed_dropped (ran : (onicRunXdp t buff).eval input s = some (- (onicXdpConsumed : Int), s'))
    (due : dueOwner input s = .pool) (recycled : s'.recycled = s.recycled ++ [buff.page])
    (stack : s'.stack = s.stack) (redirected : s'.redirected = s.redirected) (tx : s'.tx = s.tx) :
    ∃ refill s'', (onicRxPacket t buff).eval input s = some (refill, s'') ∧
      PageDisposed input s buff.page refill s'' := by
  obtain ⟨flags, packet⟩ := onicRxPacket_other ran (.inl rfl)
  refine ⟨true, _, packet, fun owner => ?_⟩
  rw [due]
  cases owner <;> simp [XdpRx.held, recycled, stack, redirected, tx]

/-- The packet goes on: the page goes to the stack, or stays where it is if there is no skb. -/
theorem disposed_passed (ran : (onicRunXdp t buff).eval input s = some (- (onicXdpPass : Int), s'))
    (due : dueOwner input s = if input.buildSkb then .stack else .slot) (recycled : s'.recycled = s.recycled)
    (stack : s'.stack = s.stack) (redirected : s'.redirected = s.redirected) (tx : s'.tx = s.tx) :
    ∃ refill s'', (onicRxPacket t buff).eval input s = some (refill, s'') ∧
      PageDisposed input s buff.page refill s'' := by
  refine ⟨_, _, (onicRxPacket_pass ran).trans onicRxSkb_eval, fun owner => ?_⟩
  rw [due]
  cases input.buildSkb <;> cases owner <;> simp [XdpRx.held, recycled, stack, redirected, tx]

theorem count_live_drop {q : TxQueue} {page : Nat} (apart : page ∉ q.live.filterMap TxFrame.xdpf?) (k : Nat) :
    ((q.live.drop k).filterMap TxFrame.xdpf?).count page = 0 := by
  refine List.count_eq_zero_of_not_mem fun mem => apart ?_
  obtain ⟨frame, inside, is⟩ := List.mem_filterMap.mp mem
  exact List.mem_filterMap.mpr ⟨frame, List.mem_of_mem_drop inside, is⟩

/-- An XDP_TX that cannot send leaves the page with nobody. -/
theorem not_disposed_lost {ptr : Int} (ran : (onicRunXdp t buff).eval input s = some (ptr, s'))
    (is : ptr = - (netdevTxBusy : Int) ∨ ptr = ENXIO) (due : dueOwner input s = .pool)
    (recycled : s'.recycled = s.recycled) :
    ∃ refill s'', (onicRxPacket t buff).eval input s = some (refill, s'') ∧
      ¬ PageDisposed input s buff.page refill s'' := by
  obtain ⟨flags, packet⟩ := onicRxPacket_other ran (.inr (.inr (.inr is)))
  refine ⟨true, _, packet, fun disposed => ?_⟩
  have pool := disposed .pool
  rw [due] at pool
  simp [XdpRx.held, recycled] at pool

end

section

variable {size t : Nat} {s : XdpRx} {buff : XdpBuff} {input : XdpInput}

theorem enxio_ne : ¬ (- ENXIO : Int) = (onicXdpConsumed : Int) := by decide

theorem busy_ne : ¬ (netdevTxBusy : Int) = (onicXdpConsumed : Int) := by decide

theorem tx_ne : ¬ (onicXdpTx : Int) = (onicXdpConsumed : Int) := by decide

/-- An XDP_TX disposes of the page where it sends the frame or can make none. -/
theorem xdp_tx_disposed_iff (inv : TxInv size PfKind Whole s.tx) (free : s.tx.txLock = none)
    (apart : buff.page ∉ s.tx.live.filterMap TxFrame.xdpf?) (prog : input.prog = some xdpTx) :
    ∃ refill s', (onicRxPacket t buff).eval input s = some (refill, s') ∧
      (PageDisposed input s buff.page refill s' ↔ ¬ XdpTxFails input s) := by
  have due : dueOwner input s = if XdpTxSends input s then .txSlot else .pool := by
    rw [dueOwner, prog]
    rfl
  have start := @onicRunXdp_tx t buff input s prog
  cases made : input.converted with
  | none =>
    have kept : ¬ XdpTxSends input s := fun sends => by
      rw [XdpTxSends, made] at sends
      cases sends.1
    have fine : ¬ XdpTxFails input s := fun fails => by
      rw [XdpTxFails, made] at fails
      cases fails.2.1
    rw [onicXdpXmitBackBuff_none made, Option.bind_some, if_pos rfl] at start
    obtain ⟨refill, s', packet, disposed⟩ := disposed_dropped (start.trans rfl) (due.trans (if_neg kept)) rfl rfl rfl rfl
    exact ⟨refill, s', packet, iff_of_true disposed fine⟩
  | some size =>
    cases there : s.there with
    | false =>
      have kept : ¬ XdpTxSends input s := fun sends => by
        rw [XdpTxSends, there] at sends
        cases sends.2.1
      have fails : XdpTxFails input s := ⟨prog, by rw [made]; rfl, .inl there⟩
      rw [onicXdpXmitBackBuff_absent made there, Option.bind_some, if_neg enxio_ne] at start
      obtain ⟨refill, s', packet, lost⟩ := not_disposed_lost start (.inr rfl) (due.trans (if_neg kept)) rfl
      exact ⟨refill, s', packet, iff_of_false lost (not_not.mpr fails)⟩
    | true =>
      obtain ⟨len, headroom⟩ := size
      obtain ⟨q', k, full, room⟩ := onicXdpXmitBack_eval inv free ⟨buff.page, len, headroom, buff.pageDma⟩ input.tx (t := t)
      by_cases here : s.tx.FullOnceCleaned
      · have kept : ¬ XdpTxSends input s := fun sends => sends.2.2 here
        have fails : XdpTxFails input s := ⟨prog, by rw [made]; rfl, .inr here⟩
        rw [onicXdpXmitBackBuff_sent made there (full here).1, Option.bind_some, if_neg busy_ne] at start
        obtain ⟨refill, s', packet, lost⟩ := not_disposed_lost start (.inl rfl) (due.trans (if_neg kept)) rfl
        exact ⟨refill, s', packet, iff_of_false lost (not_not.mpr fails)⟩
      · obtain ⟨sent, stored, is, live⟩ := room here
        have sends : XdpTxSends input s := ⟨by rw [made]; rfl, there, here⟩
        have fine : ¬ XdpTxFails input s := fun fails => by
          rcases fails.2.2 with absent | full
          · rw [there] at absent
            cases absent
          · exact here full
        rw [onicXdpXmitBackBuff_sent made there sent, Option.bind_some, if_neg tx_ne] at start
        obtain ⟨flags, packet⟩ := onicRxPacket_other start (.inr (.inl rfl))
        refine ⟨true, _, packet, iff_of_true (fun owner => ?_) fine⟩
        rw [due, if_pos sends]
        have before := List.count_eq_zero_of_not_mem apart
        cases owner <;> simp [XdpRx.held, live, count_live_drop apart, is, before]

end

theorem xdp_page_disposed_iff {q₀ : TxQueue} {P : Pool Nat TxQueue TxInput} {t : Nat} {s : XdpRx} {buff : XdpBuff}
    (fresh : TxFresh q₀) (reach : Pool.Reach pfTxRules (fun _ => True) (Pool.start q₀) P) (tx : s.tx = P.state)
    (free : s.tx.txLock = none) (apart : buff.page ∉ s.tx.live.filterMap TxFrame.xdpf?) (input : XdpInput) :
    ∃ refill s', (onicRxPacket t buff).eval input s = some (refill, s') ∧
      (PageDisposed input s buff.page refill s' ↔ ¬ XdpTxFails input s) := by
  have inv : TxInv q₀.size PfKind Whole s.tx := tx ▸ (pf_tx_reach fresh reach).1
  by_cases send : input.prog = some xdpTx
  · exact xdp_tx_disposed_iff inv free apart send
  · have fine : ¬ XdpTxFails input s := fun fails => send fails.1
    suffices disposes : ∃ refill s', (onicRxPacket t buff).eval input s = some (refill, s') ∧
        PageDisposed input s buff.page refill s' by
      obtain ⟨refill, s', packet, disposed⟩ := disposes
      exact ⟨refill, s', packet, iff_of_true disposed fine⟩
    cases prog : input.prog with
    | none => exact disposed_passed (onicRunXdp_none prog) (by rw [dueOwner, prog]) rfl rfl rfl rfl
    | some act =>
      rw [prog] at send
      by_cases pass : act = xdpPass
      · subst pass
        exact disposed_passed (onicRunXdp_pass prog) (by rw [dueOwner, prog]; rfl) rfl rfl rfl rfl
      · by_cases redirect : act = xdpRedirect
        · subst redirect
          have start := @onicRunXdp_redirect t buff input s prog
          have due : dueOwner input s = if input.redirect = 0 then .target else .pool := by
            rw [dueOwner, prog]
            rfl
          by_cases target : input.redirect = 0
          · rw [if_pos target] at start
            obtain ⟨flags, packet⟩ := onicRxPacket_other start (.inr (.inr (.inl rfl)))
            refine ⟨true, _, packet, fun owner => ?_⟩
            rw [due, if_pos target]
            cases owner <;> simp [XdpRx.held]
          · rw [if_neg target] at start
            exact disposed_dropped start (due.trans (if_neg target)) rfl rfl rfl rfl
        · have other : act ≠ xdpTx := fun is => send (congrArg some is)
          exact disposed_dropped (onicRunXdp_other prog pass other redirect)
            (by simp [dueOwner, prog, pass, other, redirect]) rfl rfl rfl rfl

/-- A packet on page 9 that an XDP program sends back. -/
def sentBack : XdpInput := ⟨some xdpTx, some (100, 256), 0, true, 0, ⟨0, none, false⟩⟩

def rxOn (q : TxQueue) : XdpRx := ⟨true, q, [], [], [], 0, 0, 0, 0, 0, 0⟩

theorem xdp_page_disposed_iff_sent :
    ∃ refill s', (onicRxPacket 0 ⟨9, 4096⟩).eval sentBack (rxOn (.initial 4096)) = some (refill, s') ∧
      PageDisposed sentBack (rxOn (.initial 4096)) 9 refill s' := by
  have fresh : TxFresh (TxQueue.initial 4096) := TxQueue.initial_fresh (by decide)
  obtain ⟨refill, s', packet, disposed⟩ := @xdp_page_disposed_iff _ _ 0 (rxOn (.initial 4096)) ⟨9, 4096⟩ fresh .refl
    rfl rfl (by decide) sentBack
  exact ⟨refill, s', packet, disposed.mpr (by decide +kernel)⟩

/-- Frames 100, 101, .., one for every slot of the ring. -/
def fillingFrames : List (XdpFrame × TxInput) :=
  (List.range 4094).map fun k => (⟨100 + k, 100, 256, 0⟩, ⟨0, some 4096, false⟩)

theorem fillingFrames_full :
    ∃ q, Pool.Reach pfTxRules (fun _ => True) (Pool.start (.initial 4096)) ⟨q, fun _ => .done ()⟩ ∧
      q.FullOnceCleaned ∧ q.txLock = none ∧ ∀ id ∈ q.live.filterMap TxFrame.xdpf?, 100 ≤ id := by
  have fresh : TxFresh (TxQueue.initial 4096) := TxQueue.initial_fresh (by decide)
  have inv : TxInv 4095 PfKind Whole (TxQueue.initial 4096) := (pf_tx_reach fresh .refl).1
  obtain ⟨c, state⟩ := batchState_start (t := 0) inv rfl nofun
  have zero : c = 0 := Nat.le_zero.mp state.ordered
  subst zero
  obtain ⟨drops, stored, lost, q', loop, done⟩ := onicXdpXmitFramesOn_done fillingFrames state
  have length : fillingFrames.length = 4094 := by rw [fillingFrames, List.length_map, List.length_range]
  have mapped : ∀ turn ∈ fillingFrames, turn.2.mapping.isSome := by
    intro turn mem
    obtain ⟨k, -, rfl⟩ := List.mem_map.mp mem
    rfl
  have none_lost : drops = 0 := done.none_lost.mpr ⟨by rw [length]; decide, mapped⟩
  have total := done.split.length_eq
  rw [List.length_append, List.length_map, List.length_map, length, ← done.count, none_lost] at total
  have accepted : q'.head.accepted = stored := done.accepted
  have full : q'.FullOnceCleaned := by
    rw [done.state.full_iff, done.state.whole.used, accepted]
    omega
  have ran : onicXdpXmitOn 0 fillingFrames 0 (.initial 4096) =
      some ((fillingFrames.length : Int) - drops, { q' with txLock := none }) := by
    rw [onicXdpXmitOn, if_neg (by decide), if_pos (show (TxQueue.initial 4096).txLock = none from rfl), loop]
    rfl
  refine ⟨{ q' with txLock := none }, Pool.reach_of_exec (t := 0) rfl (.xdpXmit (fillingFrames.map Prod.fst) 0)
    (.bind (onicXdpXmitOn_exec ran) (.done _ _)), full, rfl, fun id mem => ?_⟩
  obtain ⟨frame, inside, is⟩ := List.mem_filterMap.mp mem
  have of_stored : frame ∈ stored := accepted ▸ List.mem_of_mem_drop inside
  have of_type : frame.xdpf? = some frame.id := if_pos (.inr (done.types frame of_stored))
  rw [of_type, Option.some.injEq] at is
  subst is
  obtain ⟨turn, there, same⟩ := List.mem_map.mp (done.order.subset (List.mem_map_of_mem of_stored))
  obtain ⟨k, -, rfl⟩ := List.mem_map.mp there
  rw [← same]
  exact Nat.le_add_right 100 k

/-- The ring is full, so that the frame of an XDP_TX finds no slot: its page is neither
    sent nor given back. -/
theorem xdp_tx_full_ring_loses_page :
    ∃ q refill s', Pool.Reach pfTxRules (fun _ => True) (Pool.start (.initial 4096)) ⟨q, fun _ => .done ()⟩ ∧
      (onicRxPacket 0 ⟨9, 4096⟩).eval sentBack (rxOn q) = some (refill, s') ∧
      ¬ PageDisposed sentBack (rxOn q) 9 refill s' := by
  obtain ⟨q, reach, full, free, ids⟩ := fillingFrames_full
  have inv := (pf_tx_reach (TxQueue.initial_fresh (by decide)) reach).1
  have apart : 9 ∉ q.live.filterMap TxFrame.xdpf? := fun mem => absurd (ids 9 mem) (by decide)
  obtain ⟨refill, s', packet, disposed⟩ := @xdp_tx_disposed_iff _ 0 (rxOn q) ⟨9, 4096⟩ sentBack inv free apart rfl
  have fails : XdpTxFails sentBack (rxOn q) := ⟨rfl, rfl, .inr full⟩
  exact ⟨q, refill, s', reach, packet, fun kept => disposed.mp kept fails⟩

end OpenNic
