import OpenNic.Mailbox.VfHandler

namespace OpenNic

variable {me : FuncId} {seq0 : Word} {N : Nat} {k : Nat} {seq : Word} {sent : List Msg} {inside : Bool}
  {α : Type}

/-- The command is not under way. -/
def Idle (k : Nat) (l : Link) : Prop := l.vf.mboxLock ≠ some k

theorem stable_idle : (linkContract me seq0 N (.cmd k)).Stable (Idle k) :=
  fun _ _ idle between _ _ held => idle (between.lock.mp held)

theorem cmd_lock {l : Link} (at_ : At (.cmd k) seq sent inside l) (j : Nat) (other : j ≠ k) :
    l.vf.mboxLock ≠ some j := by
  rw [at_.1]
  simpa using other.symm

/-- A step on what belongs to the command that holds the lock. -/
theorem private_access {act : Input → Link → Option (α × Link)} {X : Link → Prop} {Y : α → Link → Prop}
    (stable : (linkContract me seq0 N (.cmd k)).Stable X)
    (stable' : ∀ a, (linkContract me seq0 N (.cmd k)).Stable (Y a))
    (h : ∀ l i a l', X l → act i l = some (a, l') → ∃ f, l' = l.setVf f ∧ l.vf.mboxLock = some k ∧
      (f l.vf).mboxLock = l.vf.mboxLock ∧ (f l.vf).mboxResp = l.vf.mboxResp ∧
      (f l.vf).sent = l.vf.sent ∧ (f l.vf).returned = l.vf.returned ∧
      (f l.vf).irqInside = l.vf.irqInside ∧ ((f l.vf).cmdInside = false → l.vf.cmdInside = false) ∧ Y a l') :
    (linkContract me seq0 N (.cmd k)).Triple X (.access act) Y := by
  apply Contract.Triple.access stable stable'
  intro l i a l' _ inv holds taken _
  obtain ⟨f, rfl, lock, lock', resp, sent, returned, irq, cmd, after⟩ := h l i a l' holds taken
  have held (j : Nat) (other : j ≠ k) : l.vf.mboxLock ≠ some j := by
    rw [lock]
    simpa using other.symm
  refine ⟨inv.setVf sent returned (fun free => ?_) (fun irq_out cmd_out => ?_), ?_, after⟩
  · rw [lock', lock] at free
    cases free
  · rw [resp]
    exact inv.resp (irq ▸ irq_out) (cmd cmd_out)
  · refine cmd_guarantee ⟨rfl, .refl l.pf⟩ (fun j other => ⟨held j other, ?_⟩) irq fun _ => ⟨resp, fun _ h => h⟩
    show (f l.vf).mboxLock ≠ some j
    rw [lock']
    exact held j other

theorem private_modify {f : VfMbox → VfMbox} {X Y : Link → Prop}
    (stable : (linkContract me seq0 N (.cmd k)).Stable X)
    (stable' : (linkContract me seq0 N (.cmd k)).Stable Y)
    (h : ∀ l, X l → l.vf.mboxLock = some k ∧
      (f l.vf).mboxLock = l.vf.mboxLock ∧ (f l.vf).mboxResp = l.vf.mboxResp ∧
      (f l.vf).sent = l.vf.sent ∧ (f l.vf).returned = l.vf.returned ∧
      (f l.vf).irqInside = l.vf.irqInside ∧ ((f l.vf).cmdInside = false → l.vf.cmdInside = false) ∧
      Y (l.setVf f)) :
    (linkContract me seq0 N (.cmd k)).Triple X (.modify fun l => l.setVf f : Program Link Input Unit)
      fun _ => Y := by
  apply private_access stable fun _ => stable'
  intro l _ _ l' holds taken
  obtain rfl : l.setVf f = l' := by simpa using taken
  exact ⟨f, rfl, h l holds⟩

theorem lock_triple :
    (linkContract me seq0 N (.cmd k)).Triple (Idle k) (VfMbox.lock k) fun _ l =>
      ∃ c : Word × List Msg, c.1 = seq0 + BitVec.ofNat 32 c.2.length ∧ At (.cmd k) c.1 c.2 false l := by
  apply Contract.Triple.access stable_idle
  · intro _ l l' ⟨c, start, at_⟩ between _ _
    exact ⟨c, start, at_rely (t := .cmd k) at_ between⟩
  · intro l _ _ l' _ inv idle taken _
    split at taken
    · rename_i free
      cases taken
      obtain ⟨start, out⟩ := inv.idle free
      refine ⟨inv.setVf rfl rfl (fun held => by cases held) inv.resp, ?_, ⟨l.vf.mboxSeq, l.vf.sent⟩,
        start, rfl, rfl, rfl, out⟩
      refine cmd_guarantee ⟨rfl, .refl l.pf⟩ (fun j other => ⟨?_, ?_⟩) rfl fun _ => ⟨rfl, fun _ h => h⟩
      · rw [free]
        simp
      · simpa [Link.setVf] using other.symm
    · cases taken

theorem onicVfMboxReadStale_triple :
    (linkContract me seq0 N (.cmd k)).Triple
      (fun l => At (.cmd k) seq sent true l ∧ CleanResp me seq0 N l.pf l.vf.mboxResp)
      (onicVfMboxReadStale me)
      fun _ l => At (.cmd k) seq sent true l ∧ CleanResp me seq0 N l.pf l.vf.mboxResp := by
  have stable : (linkContract me seq0 N (.cmd k)).Stable
      fun l => At (.cmd k) seq sent true l ∧ CleanResp me seq0 N l.pf l.vf.mboxResp := by
    apply stable_inside
    intro l l' clean same grown
    rw [same.resp]
    exact clean.grown grown
  apply Contract.Triple.fold (I := fun _ _ l =>
    At (.cmd k) seq sent true l ∧ CleanResp me seq0 N l.pf l.vf.mboxResp)
  · exact fun _ _ => stable
  · intro i msg _ _
    apply Contract.Triple.bind (M := fun _ l =>
      At (.cmd k) seq sent true l ∧ CleanResp me seq0 N l.pf l.vf.mboxResp)
    · apply look_access stable fun _ => stable
      intro l input word l' _ holds taken
      cases taken
      exact ⟨rfl, holds⟩
    · exact fun _ => .done stable fun _ _ h => h

theorem writeCmdRcvLeave_triple :
    (linkContract me seq0 N (.cmd k)).Triple
      (fun l => At (.cmd k) seq sent true l ∧ CleanResp me seq0 N l.pf l.vf.mboxResp)
      (VfMbox.writeCmdRcvLeave me (.cmd k)) fun _ => At (.cmd k) seq sent false := by
  apply Contract.Triple.modify _ stable_at
  · rintro l ⟨-, apart⟩ inv ⟨at_, clean⟩ -
    have consumed := at_consume (f := me) at_
    refine ⟨inv.consume.leave consumed l.vf.mboxDone clean, ?_, at_leave consumed l.vf.mboxDone⟩
    refine message_guarantee (r := l.vf.mboxResp) (d := l.vf.mboxDone) (b := false) rfl
      ⟨rfl, undisturbed_consume l.pf me⟩ at_ fun other => ?_
    rw [otherInside_false apart at_] at other
    cases other
  · apply stable_inside
    intro l l' clean same grown
    rw [same.resp]
    exact clean.grown grown

theorem onicVfMboxDropStaleResponses_triple (left : Nat) (dropped : Int) :
    (linkContract me seq0 N (.cmd k)).Triple (At (.cmd k) seq sent false)
      (onicVfMboxDropStaleResponses me (.cmd k) left dropped) fun _ => At (.cmd k) seq sent false := by
  induction left generalizing dropped with
  | zero => exact at_done (- EIO)
  | succ left ih =>
    apply Contract.Triple.bind readStsEnter_triple
    intro status
    split
    · rename_i none
      exact (at_done dropped).conseq (fun l _ h => h.1 (by simpa using none)) fun _ _ _ h => h
    · rename_i seen
      refine Contract.Triple.conseq (.bind onicVfMboxReadStale_triple fun _ =>
        .bind writeCmdRcvLeave_triple fun _ => ih (dropped + 1)) ?_ ?_
      · intro l _ h
        obtain ⟨m, taking, clean⟩ := h.2 (by simpa using seen)
        exact ⟨taking.1, clean k rfl⟩
      · exact fun _ _ _ h => h

theorem readSts_triple {X : Link → Prop} (stable : (linkContract me seq0 N (.cmd k)).Stable X) :
    (linkContract me seq0 N (.cmd k)).Triple X (VfMbox.readSts me) fun _ => X :=
  look_read stable (fun _ => stable) fun _ _ holds => holds

theorem nextSeq_triple :
    (linkContract me seq0 N (.cmd k)).Triple (At (.cmd k) seq sent false) VfMbox.nextSeq
      fun next l => next = seq + 1 ∧ At (.cmd k) (seq + 1) sent false l := by
  apply private_access stable_at
  · intro next l l' ⟨is, at_⟩ between ok inv
    exact ⟨is, stable_at l l' at_ between ok inv⟩
  · intro l _ next l' at_ taken
    obtain ⟨rfl, rfl⟩ : l.vf.mboxSeq + 1 = next ∧
        (l.setVf fun vf => { vf with mboxSeq := vf.mboxSeq + 1 }) = l' := by simpa using taken
    refine ⟨_, rfl, at_.1, rfl, rfl, rfl, rfl, rfl, id, by rw [at_.2.1], at_.1, ?_, at_.2.2.1, at_.2.2.2⟩
    simp [Link.setVf, at_.2.1]

/-- On entering, a command finds one whole response or nothing in `mbox_resp`. -/
theorem enter_cmd_triple :
    (linkContract me seq0 N (.cmd k)).Triple (At (.cmd k) seq sent false) (VfMbox.enter (.cmd k))
      fun _ l => ∃ m, At (.cmd k) seq sent true l ∧ Holds me seq0 N m l := by
  apply Contract.Triple.modify stable_at
  · intro l l' ⟨m, holds⟩ between ok inv
    exact ⟨m, stable_holds m l l' holds between ok inv⟩
  · rintro l - inv at_ ⟨-, apart⟩
    have at_' : At (.cmd k) seq sent true (l.setVf (Link.markInside (.cmd k) true)) :=
      ⟨at_.1, at_.2.1, at_.2.2.1, rfl⟩
    have clean := inv.resp (otherInside_false apart at_') at_.2.2.2
    refine ⟨inv.setVf rfl rfl (fun free => ?_) fun _ out => absurd out (by simp [Link.markInside]), ?_,
      l.vf.mboxResp, at_', rfl, clean⟩
    · have lock : l.vf.mboxLock = none := free
      rw [at_.1] at lock
      cases lock
    · exact message_guarantee (r := l.vf.mboxResp) (d := l.vf.mboxDone) (b := true) rfl
        ⟨rfl, .refl l.pf⟩ at_ fun _ => ⟨rfl, fun _ h => h⟩

theorem leave_plain_triple (m : Msg) :
    (linkContract me seq0 N (.cmd k)).Triple
      (fun l => At (.cmd k) seq sent true l ∧ Holds me seq0 N m l) (VfMbox.leave (.cmd k))
      fun _ => At (.cmd k) seq sent false := by
  apply Contract.Triple.modify (stable_holds m) stable_at
  rintro l ⟨-, apart⟩ inv ⟨at_, holds⟩ -
  have clean := holds.2
  rw [← holds.1] at clean
  exact ⟨inv.leave at_ l.vf.mboxDone clean, leave_guarantee apart at_ l.vf.mboxDone,
    at_leave at_ l.vf.mboxDone⟩

/-- `reinit_completion` and the `memset` of `mbox_resp` -/
theorem renew_triple :
    (linkContract me seq0 N (.cmd k)).Triple (At (.cmd k) seq sent false) (do
        VfMbox.enter (.cmd k)
        VfMbox.reinitCompletion
        VfMbox.clearResp
        VfMbox.leave (.cmd k)) fun _ => At (.cmd k) seq sent false := by
  apply Contract.Triple.bind enter_cmd_triple
  intro _
  apply Contract.Triple.exists_pre
  intro m
  apply Contract.Triple.bind (M := fun _ l => At (.cmd k) seq sent true l ∧ Holds me seq0 N m l)
  · apply private_modify (stable_holds m) (stable_holds m)
    intro l holds
    exact ⟨holds.1.1, rfl, rfl, rfl, rfl, rfl, id, holds.1, holds.2⟩
  · intro _
    apply Contract.Triple.bind (M := fun _ l => At (.cmd k) seq sent true l ∧ Holds me seq0 N Msg.zero l)
    · exact writeResp_triple (X := Holds me seq0 N m) (Y := Holds me seq0 N Msg.zero)
        (f := fun _ => Msg.zero) (stable_holds m) (stable_holds Msg.zero) fun l _ => ⟨rfl, .inl rfl⟩
    · exact fun _ => leave_plain_triple Msg.zero

theorem renew_then {p : Program Link Input α} {post : α → Link → Prop}
    (rest : (linkContract me seq0 N (.cmd k)).Triple (At (.cmd k) seq sent false) p post) :
    (linkContract me seq0 N (.cmd k)).Triple (At (.cmd k) seq sent false) (do
        VfMbox.enter (.cmd k)
        VfMbox.reinitCompletion
        VfMbox.clearResp
        VfMbox.leave (.cmd k)
        p) post := by
  have whole := renew_triple.bind fun _ => rest
  simpa only [bind_assoc] using whole

def OutMsg (req : Msg) (n : Nat) (l : Link) : Prop := ∀ i : Fin 32, i.val < n → l.vf.outMsg i = req i

theorem stable_outMsg (req : Msg) (n : Nat) :
    (linkContract me seq0 N (.cmd k)).Stable fun l => At (.cmd k) seq sent false l ∧ OutMsg req n l := by
  apply stable_cmd
  intro l l' written same _ i less
  rw [same.outMsg]
  exact written i less

theorem onicVfMboxWriteMsg_triple (req : Msg) :
    (linkContract me seq0 N (.cmd k)).Triple (At (.cmd k) seq sent false) (onicVfMboxWriteMsg req)
      fun _ l => At (.cmd k) seq sent false l ∧ OutMsg req 32 l := by
  have loop : (linkContract me seq0 N (.cmd k)).Triple
      (fun l => At (.cmd k) seq sent false l ∧ OutMsg req 0 l) (onicVfMboxWriteMsg req)
      fun _ l => At (.cmd k) seq sent false l ∧ OutMsg req (0 + 32) l := by
    apply Contract.Triple.fold (I := fun n (_ : Unit) l => At (.cmd k) seq sent false l ∧ OutMsg req n l)
    · exact fun n _ => stable_outMsg req n
    · intro n _ _ less
      apply private_modify (stable_outMsg req n) (stable_outMsg req (n + 1))
      rintro l ⟨at_, written⟩
      refine ⟨at_.1, rfl, rfl, rfl, rfl, rfl, id, at_, fun i small => ?_⟩
      by_cases here : i = Fin.ofNat 32 n
      · simp [Link.setVf, Msg.set, here]
      · have apart : i.val ≠ n := by
          rintro rfl
          exact here (by simp)
        simpa only [Link.setVf, Msg.set, Function.update_of_ne here] using written i (by omega)
  exact loop.conseq (fun l _ at_ => ⟨at_, fun i less => absurd less (Nat.not_lt_zero _)⟩) fun _ _ _ h => h

/-- The invariant after a request with the next sequence number has been sent. -/
theorem LinkInv.send {l : Link} (inv : LinkInv me seq0 N l)
    (number : l.vf.outMsg.seq = seq0 + BitVec.ofNat 32 (l.vf.sent.length + 1))
    (lock : l.vf.mboxLock = some k) :
    LinkInv me seq0 N {
      pf := { l.pf with
        requests := l.pf.requests ++ [(me, l.vf.outMsg)]
        arrived := l.pf.arrived ++ [(me, l.vf.outMsg)] }
      vf := { l.vf with sent := l.vf.sent ++ [l.vf.outMsg] } } where
  pf := inv.pf.undisturbed rfl ⟨rfl, rfl, rfl, rfl, ⟨_, rfl, rfl⟩, fun _ free => free⟩
  arrived m mem := by
    rcases List.mem_append.mp mem with before | new
    · exact (inv.arrived m before).imp (List.mem_append_left _) id
    · have same : m = l.vf.outMsg := by simpa using new
      exact .inl (by simp [same])
  inbox := inv.inbox
  sent i less := by
    simp only [List.length_append, List.length_singleton] at less
    by_cases old : i < l.vf.sent.length
    · rw [List.getElem_append_left old]
      exact inv.sent i old
    · have last : i = l.vf.sent.length := by omega
      subst last
      simpa using number
  idle free := by
    rw [show l.vf.mboxLock = none from free] at lock
    cases lock
  resp := inv.resp
  returned r mem ok := ⟨List.mem_append_left _ (inv.returned r mem ok).1, (inv.returned r mem ok).2⟩

theorem writeCmdSend_vf_triple (req : Msg) (start : seq = seq0 + BitVec.ofNat 32 (sent.length + 1))
    (number : req.seq = seq) :
    (linkContract me seq0 N (.cmd k)).Triple
      (fun l => At (.cmd k) seq sent false l ∧ OutMsg req 32 l) (VfMbox.writeCmdSend me)
      fun _ => At (.cmd k) seq (sent ++ [req]) false := by
  apply Contract.Triple.modify (stable_outMsg req 32) stable_at
  rintro l - inv ⟨at_, written⟩ -
  have whole : l.vf.outMsg = req := funext fun i => written i i.isLt
  refine ⟨inv.send (k := k) ?_ at_.1, ?_, at_.1, at_.2.1, ?_, at_.2.2.2⟩
  · rw [whole, number, start, at_.2.2.1]
  · exact cmd_guarantee ⟨rfl, rfl, rfl, rfl, rfl, ⟨_, rfl, rfl⟩, fun _ free => free⟩
      (fun j other => ⟨cmd_lock at_ j other, cmd_lock at_ j other⟩) rfl fun _ => ⟨rfl, fun _ h => h⟩
  · simp [at_.2.2.1, whole]

theorem waitForCompletion_triple :
    (linkContract me seq0 N (.cmd k)).Triple (At (.cmd k) seq sent false) VfMbox.waitForCompletion
      fun _ => At (.cmd k) seq sent false := by
  apply private_access stable_at fun _ => stable_at
  intro l input ended l' at_ taken
  split at taken
  · cases taken
    exact ⟨_, rfl, at_.1, rfl, rfl, rfl, rfl, rfl, id, at_⟩
  · split at taken
    · cases taken
      exact ⟨id, rfl, at_.1, rfl, rfl, rfl, rfl, rfl, id, at_⟩
    · cases taken

/-- What a VF keeps of the words of a response. -/
def Msg.stored (m : Msg) : VfQueueRes :=
  ⟨(m 4).setWidth 16, (m 5).setWidth 16, (m 6).setWidth 16, (m 8).setWidth 48 <<< 32 ||| (m 7).setWidth 48⟩

theorem AnswerTo.stored {x : Executed} {resp : Msg} (answer : AnswerTo x resp)
    (opcode : resp.opcode = opQueueResResp) (ok : resp.status = stsOk) :
    ∃ res, onicPfMboxFindVfResource x.vfs (x.src.setWidth 16) = some res ∧
      resp.stored = ⟨res.funcId, res.qbase, res.qmax, res.mac⟩ := by
  obtain ⟨-, res, found, same⟩ := answer.granted opcode ok
  refine ⟨res, found, ?_⟩
  have funcId : resp 4 = res.funcId.setWidth 32 := congrArg QueueRes.funcId same
  have qbase : resp 5 = res.qbase.setWidth 32 := congrArg QueueRes.qbase same
  have qmax : resp 6 = res.qmax.setWidth 32 := congrArg QueueRes.qmax same
  have mac : (resp 8).setWidth 48 <<< 32 ||| (resp 7).setWidth 48 = res.mac := congrArg QueueRes.mac same
  rw [Msg.stored, funcId, qbase, qmax, mac]
  simp [BitVec.setWidth_setWidth_of_le]

/-- A response that passes the checks of a request of this run is agreement. -/
theorem LinkInv.agreed {l : Link} (inv : LinkInv me seq0 N l) (few : N < 2 ^ 32)
    (bound : l.vf.sent.length ≤ N) {r : Returned} {resp : Msg} (clean : CleanResp me seq0 N l.pf resp)
    (sent : r.req ∈ l.vf.sent) (seq : resp.seq = r.req.seq) (nonzero : resp.opcode ≠ 0)
    (ok : resp.status = stsOk)
    (get : r.req.opcode = opGetQueueRes → resp.opcode = opQueueResResp ∧ r.res = resp.stored) :
    Agreed me l.pf r := by
  obtain ⟨x, executed, src, req, d, delivered, answers, rfl⟩ :=
    inv.answered few bound clean sent seq nonzero
  refine ⟨x, executed, src, req, ⟨d, delivered, answers, ok⟩, fun is => ?_⟩
  obtain ⟨opcode, stored⟩ := get is
  obtain ⟨res, found, same⟩ := answers.2.stored opcode ok
  rw [src] at found
  exact ⟨res, found, stored.trans same⟩

/-- The command looks at the whole response `m`; `P` is what it has kept of it so far. -/
def Looking (me : FuncId) (seq0 : Word) (N k : Nat) (seq : Word) (sent : List Msg) (m : Msg)
    (P : VfQueueRes → Prop) (l : Link) : Prop :=
  At (.cmd k) seq sent true l ∧ Holds me seq0 N m l ∧ P l.vf.res

theorem stable_looking (m : Msg) (P : VfQueueRes → Prop) :
    (linkContract me seq0 N (.cmd k)).Stable (Looking me seq0 N k seq sent m P) := by
  intro l l' ⟨at_, holds, kept⟩ between ok inv
  obtain ⟨at_', holds'⟩ := stable_holds (t := .cmd k) m l l' ⟨at_, holds⟩ between ok inv
  refine ⟨at_', holds', ?_⟩
  rwa [(CmdRely.command between at_.1).res]

theorem readResp_triple (m : Msg) (P : VfQueueRes → Prop) (i : Fin 32) :
    (linkContract me seq0 N (.cmd k)).Triple (Looking me seq0 N k seq sent m P) (VfMbox.readResp i)
      fun word l => word = m i ∧ Looking me seq0 N k seq sent m P l := by
  apply look_read (stable_looking m P) fun _ => (stable_looking m P).pure_and
  intro l _ looking
  exact ⟨congrFun looking.2.1.1 i, looking⟩

theorem setRes_triple {P Q : VfQueueRes → Prop} (m : Msg) (f : VfQueueRes → VfQueueRes)
    (h : ∀ res, P res → Q (f res)) :
    (linkContract me seq0 N (.cmd k)).Triple (Looking me seq0 N k seq sent m P) (VfMbox.setRes f)
      fun _ => Looking me seq0 N k seq sent m Q := by
  apply private_modify (stable_looking m P) (stable_looking m Q)
  rintro l ⟨at_, holds, kept⟩
  exact ⟨at_.1, rfl, rfl, rfl, rfl, rfl, id, at_, holds, h _ kept⟩

theorem checkResp_triple (m : Msg) (P : VfQueueRes → Prop) (words : List (Fin 32 × Word)) :
    (linkContract me seq0 N (.cmd k)).Triple (Looking me seq0 N k seq sent m P) (checkResp words)
      fun ok l => (ok = true → ∀ w ∈ words, m w.1 = w.2) ∧ Looking me seq0 N k seq sent m P l := by
  induction words with
  | nil => exact .done (stable_looking m P) fun l _ looking => ⟨fun _ _ mem => absurd mem List.not_mem_nil, looking⟩
  | cons w words ih =>
    apply Contract.Triple.bind (readResp_triple m P w.1)
    intro word
    apply Contract.Triple.pure_pre
    rintro rfl
    split
    · exact .done (stable_looking m P) fun l _ looking => ⟨fun no => absurd no Bool.false_ne_true, looking⟩
    · rename_i same
      apply ih.conseq (fun _ _ h => h)
      rintro ok l - ⟨all, looking⟩
      refine ⟨fun is v mem => ?_, looking⟩
      rcases List.mem_cons.mp mem with rfl | later
      · exact Decidable.not_not.mp same
      · exact all is v later

/-- What a command that comes back with `err` owes. -/
def Due (me : FuncId) (req : Msg) (err : Int) (l : Link) : Prop :=
  err = 0 → req ∈ l.vf.sent ∧ Agreed me l.pf ⟨req, err, l.vf.res⟩

theorem stable_due (req : Msg) (err : Int) :
    (linkContract me seq0 N (.cmd k)).Stable fun l => At (.cmd k) seq sent false l ∧ Due me req err l := by
  apply stable_cmd
  intro l l' due same grown none
  rw [same.res, same.sent]
  exact ⟨(due none).1, (due none).2.grown grown⟩

theorem finish_triple (start : seq = seq0 + BitVec.ofNat 32 sent.length) (req : Msg) (err : Int) :
    (linkContract me seq0 N (.cmd k)).Triple
      (fun l => At (.cmd k) seq sent false l ∧ Due me req err l) (VfMbox.finish req err)
      fun _ => Idle k := by
  apply Contract.Triple.access (stable_due req err) fun _ => stable_idle
  rintro l _ _ l' - inv ⟨at_, due⟩ taken -
  cases taken
  refine ⟨{ inv with idle := ?_, returned := ?_ }, ?_, fun held => by cases held⟩
  · intro _
    have number : l.vf.mboxSeq = seq0 + BitVec.ofNat 32 l.vf.sent.length := by
      rw [at_.2.1, at_.2.2.1, start]
    exact ⟨number, at_.2.2.2⟩
  · intro r mem ok
    rcases List.mem_append.mp mem with before | last
    · exact inv.returned r before ok
    · obtain rfl := List.mem_singleton.mp last
      exact due ok
  · exact cmd_guarantee ⟨rfl, .refl l.pf⟩ (fun j other => ⟨cmd_lock at_ j other, by simp [Link.setVf]⟩) rfl
      fun _ => ⟨rfl, fun _ h => h⟩

theorem finish_error_triple (start : seq = seq0 + BitVec.ofNat 32 sent.length) (req : Msg) {err : Int}
    (error : err ≠ 0) :
    (linkContract me seq0 N (.cmd k)).Triple (At (.cmd k) seq sent false) (VfMbox.finish req err)
      fun _ => Idle k :=
  (finish_triple start req err).conseq (fun _ _ at_ => ⟨at_, fun none => absurd none error⟩) fun _ _ _ h => h

/-- Leaving the response with what was read of it. -/
theorem leave_looking_triple (m : Msg) (P : VfQueueRes → Prop) (req : Msg) (err : Int)
    (h : ∀ l, LinkInv me seq0 N l → Assumed N l → Looking me seq0 N k seq sent m P l → Due me req err l) :
    (linkContract me seq0 N (.cmd k)).Triple (Looking me seq0 N k seq sent m P) (VfMbox.leave (.cmd k))
      fun _ l => At (.cmd k) seq sent false l ∧ Due me req err l := by
  apply Contract.Triple.modify (stable_looking m P) (stable_due req err)
  rintro l ⟨assumed, apart⟩ inv ⟨at_, holds, kept⟩ -
  have clean := holds.2
  rw [← holds.1] at clean
  exact ⟨inv.leave at_ l.vf.mboxDone clean, leave_guarantee apart at_ l.vf.mboxDone,
    at_leave at_ l.vf.mboxDone, h l inv assumed ⟨at_, holds, kept⟩⟩

/-- Entering to look at the response, with nothing kept of it so far. -/
theorem enter_looking {p : Program Link Input α} {post : α → Link → Prop}
    (rest : ∀ m, (linkContract me seq0 N (.cmd k)).Triple (Looking me seq0 N k seq sent m fun _ => True) p
      post) :
    (linkContract me seq0 N (.cmd k)).Triple (At (.cmd k) seq sent false)
      (VfMbox.enter (.cmd k) >>= fun _ => p) post := by
  apply Contract.Triple.bind enter_cmd_triple
  intro _
  apply Contract.Triple.exists_pre
  intro m
  exact (rest m).conseq (fun l _ ⟨at_, holds⟩ => ⟨at_, holds, trivial⟩) fun _ _ _ h => h

theorem leave_error (start : seq = seq0 + BitVec.ofNat 32 sent.length) (m : Msg) (P : VfQueueRes → Prop)
    (req : Msg) {err : Int} (error : err ≠ 0) :
    (linkContract me seq0 N (.cmd k)).Triple (Looking me seq0 N k seq sent m P)
      (VfMbox.leave (.cmd k) >>= fun _ => VfMbox.finish req err) fun _ => Idle k :=
  .bind (leave_looking_triple m P req err fun _ _ _ _ none => absurd none error)
    fun _ => finish_triple start req err

/-- Sending the request with the next sequence number; what follows finds it among those sent. -/
theorem send_then {req : Msg} {p : Program Link Input α} {post : α → Link → Prop}
    (start : seq = seq0 + BitVec.ofNat 32 sent.length) (number : req.seq = seq + 1)
    (rest : ∀ sent', seq + 1 = seq0 + BitVec.ofNat 32 sent'.length → req ∈ sent' →
      (linkContract me seq0 N (.cmd k)).Triple (At (.cmd k) (seq + 1) sent' false) p post) :
    (linkContract me seq0 N (.cmd k)).Triple (At (.cmd k) (seq + 1) sent false) (do
        onicVfMboxWriteMsg req
        VfMbox.writeCmdSend me
        p) post := by
  have next : seq + 1 = seq0 + BitVec.ofNat 32 (sent.length + 1) := by
    rw [start, BitVec.ofNat_add, BitVec.add_assoc]
    rfl
  refine .bind (onicVfMboxWriteMsg_triple req) fun _ =>
    .bind (writeCmdSend_vf_triple req next number) fun _ => rest (sent ++ [req]) ?_ ?_
  · rw [next, List.length_append]
    rfl
  · exact List.mem_append_right _ (List.mem_singleton.mpr rfl)

section

variable (few : N < 2 ^ 32)

include few

theorem validateQueueCmd_triple {req : Msg} {respOpcode qid dir : Word}
    (start : seq = seq0 + BitVec.ofNat 32 sent.length) (mem : req ∈ sent)
    (not_get : req.opcode ≠ opGetQueueRes) (nonzero : respOpcode ≠ 0) :
    (linkContract me seq0 N (.cmd k)).Triple (At (.cmd k) seq sent false)
      (validateQueueCmd k req respOpcode qid dir) fun _ => Idle k := by
  apply enter_looking
  intro m
  apply Contract.Triple.bind (checkResp_triple m _ _)
  intro ok
  apply Contract.Triple.pure_pre
  intro all
  split
  · rename_i passed
    have words := all passed
    apply Contract.Triple.bind (readResp_triple m _ 1)
    intro status
    apply Contract.Triple.pure_pre
    rintro rfl
    by_cases failed : m 1 ≠ stsOk
    · simp only [if_pos failed]
      exact leave_error start m _ req (by decide)
    · simp only [if_neg failed]
      refine .bind (leave_looking_triple m _ req 0 ?_) fun _ => finish_triple start req 0
      intro l inv assumed ⟨at_, holds, _⟩ _
      have opcode : m 0 = respOpcode := words (0, respOpcode) (by simp)
      have number : m 2 = req.seq := words (2, req.seq) (by simp)
      have among : req ∈ l.vf.sent := at_.2.2.1.symm ▸ mem
      exact ⟨among, inv.agreed few assumed.2 holds.2 among number
        (fun none => nonzero (opcode.symm.trans none)) (Decidable.not_not.mp failed)
        fun get => absurd get not_get⟩
  · exact leave_error start m _ req (by decide)

theorem onicVfMboxSendQueueCmd_triple {request : Msg} {respOpcode qid dir : Word}
    (not_get : request.opcode ≠ opGetQueueRes) (nonzero : respOpcode ≠ 0) :
    (linkContract me seq0 N (.cmd k)).Triple (Idle k)
      (onicVfMboxSendQueueCmd me k request respOpcode qid dir) fun _ => Idle k := by
  apply Contract.Triple.bind lock_triple
  intro _
  apply Contract.Triple.exists_pre
  rintro ⟨seq, sent⟩
  apply Contract.Triple.pure_pre
  intro start
  apply Contract.Triple.bind (onicVfMboxDropStaleResponses_triple 16 0)
  intro err
  split
  · rename_i negative
    exact finish_error_triple start request (by omega)
  · apply Contract.Triple.bind (readSts_triple stable_at)
    intro status
    split
    · exact finish_error_triple start request (by decide)
    · apply Contract.Triple.bind nextSeq_triple
      intro next
      apply Contract.Triple.pure_pre
      rintro rfl
      apply renew_then
      apply send_then start (by simp [Msg.seq, Msg.set])
      intro sent' start' mem
      have not_get' : (request.set 2 (seq + 1)).opcode ≠ opGetQueueRes := by
        simpa [Msg.opcode, Msg.set] using not_get
      have validated : (linkContract me seq0 N (.cmd k)).Triple (At (.cmd k) (seq + 1) sent' false)
          (validateQueueCmd k (request.set 2 (seq + 1)) respOpcode qid dir) fun _ => Idle k :=
        validateQueueCmd_triple few start' mem not_get' nonzero
      apply Contract.Triple.bind waitForCompletion_triple
      intro ended
      split
      · exact validated
      · apply Contract.Triple.bind (readSts_triple stable_at)
        intro status
        split
        · apply Contract.Triple.bind onicVfMboxProcessOne_triple
          intro err
          split
          · exact validated
          · split
            · exact finish_error_triple start' _ (by omega)
            · exact finish_error_triple start' _ (by decide)
        · exact finish_error_triple start' _ (by decide)

theorem onicVfMboxConfigQueue_triple (cfg : QueueCfg) :
    (linkContract me seq0 N (.cmd k)).Triple (Idle k) (onicVfMboxConfigQueue me k cfg) fun _ => Idle k := by
  apply onicVfMboxSendQueueCmd_triple few
  · simp [configRequest, Msg.setQcfg, Msg.opcode, Msg.set, Function.update, opConfigQueue, opGetQueueRes]
  · decide

theorem onicVfMboxClearQueue_triple (qid : BitVec 16) (dir : Word) :
    (linkContract me seq0 N (.cmd k)).Triple (Idle k) (onicVfMboxClearQueue me k qid dir) fun _ => Idle k := by
  apply onicVfMboxSendQueueCmd_triple few
  · simp [clearRequest, Msg.opcode, Msg.set, Function.update, opClearQueue, opGetQueueRes]
  · decide

omit few in
/-- One field is stored from a word of the response. -/
theorem keep_word {P : VfQueueRes → Prop} {f : Word → VfQueueRes → VfQueueRes} {i : Fin 32}
    {p : Program Link Input α} {post : α → Link → Prop} (m : Msg) (Q : VfQueueRes → Prop)
    (h : ∀ res, P res → Q (f (m i) res))
    (rest : (linkContract me seq0 N (.cmd k)).Triple (Looking me seq0 N k seq sent m Q) p post) :
    (linkContract me seq0 N (.cmd k)).Triple (Looking me seq0 N k seq sent m P) (do
        let word ← VfMbox.readResp i
        VfMbox.setRes (f word)
        p) post := by
  apply Contract.Triple.bind (readResp_triple m P i)
  intro word
  apply Contract.Triple.pure_pre
  rintro rfl
  exact .bind (setRes_triple m (f (m i)) h) fun _ => rest

omit few in
/-- What the stores keep is read from one response. -/
theorem storeQueueRes_triple (m : Msg) :
    (linkContract me seq0 N (.cmd k)).Triple (Looking me seq0 N k seq sent m fun _ => True) storeQueueRes
      fun _ => Looking me seq0 N k seq sent m fun res => res = m.stored := by
  apply keep_word m (fun res => res.funcId = m.stored.funcId)
  · exact fun _ _ => rfl
  apply keep_word m (fun res => res.funcId = m.stored.funcId ∧ res.qbase = m.stored.qbase)
  · exact fun _ kept => ⟨kept, rfl⟩
  apply keep_word m (fun res => res.funcId = m.stored.funcId ∧ res.qbase = m.stored.qbase ∧
    res.qmax = m.stored.qmax)
  · exact fun _ kept => ⟨kept.1, kept.2, rfl⟩
  apply Contract.Triple.bind (readResp_triple m _ 7)
  intro macLo
  apply Contract.Triple.pure_pre
  rintro rfl
  apply keep_word m (fun res => res = m.stored)
  · rintro ⟨funcId, qbase, qmax, mac⟩ ⟨rfl, rfl, rfl⟩
    rfl
  · apply private_modify (stable_looking m _) (stable_looking m _)
    rintro l ⟨at_, holds, kept⟩
    exact ⟨at_.1, rfl, rfl, rfl, rfl, rfl, id, at_, holds, kept⟩

theorem validateQueueRes_triple {req : Msg} (start : seq = seq0 + BitVec.ofNat 32 sent.length)
    (mem : req ∈ sent) :
    (linkContract me seq0 N (.cmd k)).Triple (At (.cmd k) seq sent false) (validateQueueRes k req)
      fun _ => Idle k := by
  apply enter_looking
  intro m
  apply Contract.Triple.bind (checkResp_triple m _ _)
  intro ok
  apply Contract.Triple.pure_pre
  intro all
  split
  · rename_i passed
    have words := all passed
    apply Contract.Triple.bind (readResp_triple m _ 6)
    intro qmax
    apply Contract.Triple.pure_pre
    intro _
    split
    · exact leave_error start m _ req (by decide)
    · apply Contract.Triple.bind (readResp_triple m _ 6)
      intro qmax'
      apply Contract.Triple.pure_pre
      intro _
      split
      · exact leave_error start m _ req (by decide)
      · apply Contract.Triple.bind (storeQueueRes_triple m)
        intro _
        refine .bind (leave_looking_triple m _ req 0 ?_) fun _ => finish_triple start req 0
        intro l inv assumed ⟨at_, holds, stored⟩ _
        have opcode : m 0 = opQueueResResp := words (0, opQueueResResp) (by simp)
        have number : m 2 = req.seq := words (2, req.seq) (by simp)
        have status : m 1 = stsOk := words (1, stsOk) (by simp)
        have nonzero : m.opcode ≠ 0 := by
          rw [show m.opcode = opQueueResResp from opcode]
          decide
        have among : req ∈ l.vf.sent := at_.2.2.1.symm ▸ mem
        exact ⟨among, inv.agreed few assumed.2 holds.2 among number nonzero status
          fun _ => ⟨opcode, stored⟩⟩
  · exact leave_error start m _ req (by decide)

theorem onicVfMboxGetQueueResource_triple :
    (linkContract me seq0 N (.cmd k)).Triple (Idle k) (onicVfMboxGetQueueResource me k) fun _ => Idle k := by
  apply Contract.Triple.bind lock_triple
  intro _
  apply Contract.Triple.exists_pre
  rintro ⟨seq, sent⟩
  apply Contract.Triple.pure_pre
  intro start
  apply Contract.Triple.bind (onicVfMboxDropStaleResponses_triple 16 0)
  intro err
  split
  · rename_i negative
    exact finish_error_triple start Msg.zero (by omega)
  · apply Contract.Triple.bind (readSts_triple stable_at)
    intro status
    split
    · exact finish_error_triple start Msg.zero (by decide)
    · apply renew_then
      apply Contract.Triple.bind nextSeq_triple
      intro next
      apply Contract.Triple.pure_pre
      rintro rfl
      apply send_then start (by simp [Msg.seq, Msg.set])
      intro sent' start' mem
      have validated : (linkContract me seq0 N (.cmd k)).Triple (At (.cmd k) (seq + 1) sent' false)
          (validateQueueRes k ((Msg.zero.set 0 opGetQueueRes).set 2 (seq + 1))) fun _ => Idle k :=
        validateQueueRes_triple few start' mem
      apply Contract.Triple.bind waitForCompletion_triple
      intro ended
      split
      · exact validated
      · apply Contract.Triple.bind (readSts_triple stable_at)
        intro status'
        split
        · apply Contract.Triple.bind onicVfMboxProcessOne_triple
          intro err'
          split
          · exact validated
          · exact finish_error_triple start' _ (by decide)
        · exact finish_error_triple start' _ (by decide)

end

end OpenNic
