import OpenNic.Mailbox.VfDriver

namespace OpenNic

/-- What the PF's own steps do to the mailbox: answers are only added, to an inbox that
    is empty. -/
structure Progress (s s' : PfSys) : Prop where
  arrived : s'.arrived = s.arrived
  executed : ∀ x ∈ s.executed, x ∈ s'.executed
  delivered : ∀ d ∈ s.delivered, d ∈ s'.delivered
  kept : ∀ f m, s.responses f = some m → s'.responses f = some m
  added : ∀ f m, s'.responses f = some m → s.responses f = some m ∨ ⟨f, m⟩ ∈ s'.delivered

theorem Progress.of_eq {s s' : PfSys} (arrived : s'.arrived = s.arrived) (executed : s'.executed = s.executed)
    (delivered : s'.delivered = s.delivered) (responses : s'.responses = s.responses) : Progress s s' := by
  refine ⟨arrived, fun _ h => ?_, fun _ h => ?_, fun _ _ h => ?_, fun _ _ h => .inl ?_⟩
  · rwa [executed]
  · rwa [delivered]
  · rwa [responses]
  · rwa [responses] at h

theorem Progress.refl (s : PfSys) : Progress s s := .of_eq rfl rfl rfl rfl

theorem Progress.send (s : PfSys) : Progress s s.send := by
  by_cases free : s.responses s.targetFn = none
  · rw [PfSys.send, if_pos free]
    refine ⟨rfl, fun _ h => h, fun _ h => List.mem_append_left _ h, fun f m full => ?_, fun f m full => ?_⟩
    · have other : f ≠ s.targetFn := by
        rintro rfl
        rw [free] at full
        cases full
      simpa [Function.update_of_ne other] using full
    · by_cases here : f = s.targetFn
      · subst here
        have same : s.outMsg s.targetFn = m := by simpa using full
        exact .inr (by simp [same])
      · exact .inl (by simpa [Function.update_of_ne here] using full)
  · rw [PfSys.send, if_neg free]
    exact .refl s

section

open Program

/-- A relation that holds around every access of the PF's mailbox handler. -/
structure MboxSteps (R : PfSys → PfSys → Prop) : Prop where
  refl : ∀ s, R s s
  target : ∀ s f, R s { s with targetFn := f }
  acks : ∀ s acks, R s { s with acks := acks }
  out : ∀ s outMsg, R s { s with outMsg := outMsg }
  engine : ∀ s engine, R s { s with engine := engine }
  inside : ∀ s inside, R s { s with inside := inside }
  executed : ∀ s x, R s { s with executed := s.executed ++ [x] }
  receive : ∀ s, R s s.receive
  send : ∀ s, R s s.send

namespace MboxSteps

variable {R : PfSys → PfSys → Prop} (h : MboxSteps R)

include h

theorem processAcks : onicPfMboxProcessAcks.Steps R := by
  apply (Steps.read h.refl _).bind
  intro mapped
  split
  · apply (Steps.read h.refl _).bind
    intro status
    split
    · trivial
    · apply Steps.fold
      intro i processed
      apply (Steps.read h.refl _).bind
      intro ack
      split
      · trivial
      · exact (Steps.modify fun s => h.acks s _).bind fun _ => True.intro
  · trivial

theorem readMsg : onicPfMboxReadMsg.Steps R := by
  apply Steps.fold
  intro i msg
  have load : (PfMbox.readInMsg i).Steps R := by
    apply Steps.access
    intro input s word s' taken
    cases taken
    exact h.refl _
  exact load.bind fun _ => True.intro

theorem writeMsg (msg : Msg) : (onicPfMboxWriteMsg msg).Steps R :=
  Steps.fold (fun _ _ => Steps.modify fun s => h.out s _) 0 32 ()

theorem execute (src : FuncId) (req : Msg) : (PfMbox.execute src req).Steps R := by
  apply Steps.access
  intro input s vfs s' taken
  cases taken
  exact h.executed s _

theorem onEngine {α : Type} (p : Program CtxtEngine Input α) : (onEngine p).Steps R :=
  (Steps.trivial p).lift fun s engine _ => h.engine s engine

theorem answerRequest (src : FuncId) : (answerRequest src).Steps R := by
  apply h.readMsg.bind
  intro req
  apply (h.execute src req).bind
  intro vfs
  apply (h.onEngine _).bind
  intro r
  apply (Steps.modify h.receive).bind
  intro _
  apply (h.writeMsg r.2).bind
  intro _
  exact (Steps.modify h.send).bind fun _ => True.intro

theorem processOne : onicPfMboxProcessOne.Steps R := by
  apply (Steps.read h.refl _).bind
  intro mapped
  split
  · apply (Steps.read h.refl _).bind
    intro status
    split
    · trivial
    · apply (Steps.modify fun s => h.target s _).bind
      intro _
      apply (Steps.read h.refl _).bind
      intro status'
      split
      · trivial
      · exact h.answerRequest _
  · trivial

theorem processPending (u : PfThread) (rounds : Nat) (processed : Int) :
    (onicPfMboxProcessPending u rounds processed).Steps R := by
  induction rounds generalizing processed with
  | zero => exact ⟨fun _ _ b => b.elim, fun b => b.elim⟩
  | succ rounds ih =>
    apply h.processAcks.bind
    intro acks
    split
    · trivial
    · apply (Steps.modify fun s => h.inside s _).bind
      intro _
      apply h.processOne.bind
      intro err
      apply (Steps.modify fun s => h.inside s _).bind
      intro _
      split
      · trivial
      · split
        · trivial
        · exact ih _

end MboxSteps

theorem progress_mboxSteps : MboxSteps Progress where
  refl := .refl
  target _ _ := .of_eq rfl rfl rfl rfl
  acks _ _ := .of_eq rfl rfl rfl rfl
  out _ _ := .of_eq rfl rfl rfl rfl
  engine _ _ := .of_eq rfl rfl rfl rfl
  inside _ _ := .of_eq rfl rfl rfl rfl
  executed _ _ := ⟨rfl, fun _ h => List.mem_append_left _ h, fun _ h => h, fun _ _ h => h, fun _ _ h => .inl h⟩
  receive _ := .of_eq rfl rfl rfl rfl
  send := .send

theorem onicUserThreadFn_steps (rounds : Nat) : (onicUserThreadFn rounds).Steps Progress :=
  (progress_mboxSteps.processPending .user rounds 0).bind fun _ => True.intro

theorem onicErrorThreadFn_steps (rounds : Nat) : (onicErrorThreadFn rounds).Steps Progress := by
  apply (Steps.read Progress.refl _).bind
  intro status
  split
  · exact (progress_mboxSteps.processPending .error rounds 0).bind fun _ => True.intro
  · trivial

end

/-- The sequence numbers of the first `N` commands after `seq0`. -/
def InRun (seq0 : Word) (N : Nat) (seq : Word) : Prop :=
  ∃ i, 1 ≤ i ∧ i ≤ N ∧ seq = seq0 + BitVec.ofNat 32 i

/-- The PF executed the request of `r`, answered it with OK, and what the VF keeps of a
    queue resource is the entry the PF found then. -/
def Agreed (me : FuncId) (pf : PfSys) (r : Returned) : Prop :=
  ∃ x ∈ pf.executed, x.src = me ∧ x.req = r.req ∧
    (∃ d ∈ pf.delivered, Answers x d ∧ d.resp.status = stsOk) ∧
    (r.req.opcode = opGetQueueRes → ∃ res, onicPfMboxFindVfResource x.vfs (me.setWidth 16) = some res ∧
      r.res = ⟨res.funcId, res.qbase, res.qmax, res.mac⟩)

structure Grown (pf pf' : PfSys) : Prop where
  executed : ∀ x ∈ pf.executed, x ∈ pf'.executed
  delivered : ∀ d ∈ pf.delivered, d ∈ pf'.delivered

theorem Grown.refl (pf : PfSys) : Grown pf pf := ⟨fun _ h => h, fun _ h => h⟩

theorem Grown.trans {a b c : PfSys} (h : Grown a b) (h' : Grown b c) : Grown a c :=
  ⟨fun x mem => h'.executed x (h.executed x mem), fun d mem => h'.delivered d (h.delivered d mem)⟩

theorem Progress.grown {s s' : PfSys} (h : Progress s s') : Grown s s' := ⟨h.executed, h.delivered⟩

theorem Agreed.grown {me : FuncId} {pf pf' : PfSys} {r : Returned} (h : Agreed me pf r)
    (grown : Grown pf pf') : Agreed me pf' r := by
  obtain ⟨x, mem, src, req, ⟨d, mem', answer⟩, stored⟩ := h
  exact ⟨x, grown.executed x mem, src, req, ⟨d, grown.delivered d mem', answer⟩, stored⟩

section

variable (me : FuncId) (seq0 : Word) (N : Nat)

/-- A response that was delivered to this VF, or one from before the run. -/
def Genuine (pf : PfSys) (m : Msg) : Prop := ⟨me, m⟩ ∈ pf.delivered ∨ ¬ InRun seq0 N m.seq

/-- Outside the regions `mbox_resp` is empty or one whole response. -/
def CleanResp (pf : PfSys) (resp : Msg) : Prop := resp = Msg.zero ∨ Genuine me seq0 N pf resp

structure LinkInv (l : Link) : Prop where
  pf : l.pf.Accounted
  arrived : ∀ m, (me, m) ∈ l.pf.arrived → m ∈ l.vf.sent ∨ ¬ InRun seq0 N m.seq
  inbox : ∀ m, l.pf.responses me = some m → Genuine me seq0 N l.pf m
  sent : ∀ i (h : i < l.vf.sent.length), (l.vf.sent[i]).seq = seq0 + BitVec.ofNat 32 (i + 1)
  idle : l.vf.mboxLock = none →
    l.vf.mboxSeq = seq0 + BitVec.ofNat 32 l.vf.sent.length ∧ l.vf.cmdInside = false
  resp : l.vf.irqInside = false → l.vf.cmdInside = false → CleanResp me seq0 N l.pf l.vf.mboxResp
  returned : ∀ r ∈ l.vf.returned, r.ret = 0 → r.req ∈ l.vf.sent ∧ Agreed me l.pf r

/-- One handler at a time in the PF, and no more than `N` commands. -/
def Assumed (l : Link) : Prop := NoOverlap l.pf ∧ l.vf.sent.length ≤ N

/-- The interrupt thread does not take a message while a command has its hands on the
    inbox or on `mbox_resp`. -/
def Apart (l : Link) : Prop := ¬ (l.vf.irqInside = true ∧ l.vf.cmdInside = true)

end

variable {me : FuncId} {seq0 : Word} {N : Nat}

theorem Genuine.grown {pf pf' : PfSys} {m : Msg} (h : Genuine me seq0 N pf m) (grown : Grown pf pf') :
    Genuine me seq0 N pf' m := h.imp (grown.delivered _) id

theorem CleanResp.grown {pf pf' : PfSys} {m : Msg} (h : CleanResp me seq0 N pf m) (grown : Grown pf pf') :
    CleanResp me seq0 N pf' m := h.imp id fun genuine => genuine.grown grown

theorem ofNat_add_inj {a b : Nat} (small : a < 2 ^ 32) (small' : b < 2 ^ 32)
    (same : seq0 + BitVec.ofNat 32 a = seq0 + BitVec.ofNat 32 b) : a = b := by
  have cancelled := congrArg BitVec.toNat ((BitVec.add_right_inj seq0).mp same)
  rwa [BitVec.toNat_ofNat, BitVec.toNat_ofNat, Nat.mod_eq_of_lt small, Nat.mod_eq_of_lt small'] at cancelled

/-- Within fewer than `2^32` commands a sequence number names one request. -/
theorem LinkInv.sent_inj {l : Link} (inv : LinkInv me seq0 N l) (few : N < 2 ^ 32)
    (bound : l.vf.sent.length ≤ N) {m m' : Msg} (mem : m ∈ l.vf.sent) (mem' : m' ∈ l.vf.sent)
    (same : m.seq = m'.seq) : m = m' := by
  obtain ⟨i, less, rfl⟩ := List.getElem_of_mem mem
  obtain ⟨j, less', rfl⟩ := List.getElem_of_mem mem'
  rw [inv.sent i less, inv.sent j less'] at same
  have index := ofNat_add_inj (by omega) (by omega) same
  have : i = j := by omega
  subst this
  rfl

theorem LinkInv.sent_inRun {l : Link} (inv : LinkInv me seq0 N l) (bound : l.vf.sent.length ≤ N)
    {m : Msg} (mem : m ∈ l.vf.sent) : InRun seq0 N m.seq := by
  obtain ⟨i, less, rfl⟩ := List.getElem_of_mem mem
  exact ⟨i + 1, by omega, by omega, inv.sent i less⟩

theorem forall₂_right {α β : Type} {R : α → β → Prop} {as : List α} {bs : List β}
    (h : List.Forall₂ R as bs) {b : β} (mem : b ∈ bs) : ∃ a ∈ as, R a b := by
  induction h with
  | nil => cases mem
  | cons head _ ih =>
    rcases List.mem_cons.mp mem with rfl | later
    · exact ⟨_, List.mem_cons_self, head⟩
    · obtain ⟨a, found, related⟩ := ih later
      exact ⟨a, List.mem_cons_of_mem _ found, related⟩

/-- A response with the sequence number of a request of this run is the PF's answer to
    that request. -/
theorem LinkInv.answered {l : Link} (inv : LinkInv me seq0 N l) (few : N < 2 ^ 32)
    (bound : l.vf.sent.length ≤ N) {req resp : Msg} (clean : CleanResp me seq0 N l.pf resp)
    (sent : req ∈ l.vf.sent) (seq : resp.seq = req.seq) (nonzero : resp.opcode ≠ 0) :
    ∃ x ∈ l.pf.executed, x.src = me ∧ x.req = req ∧ ∃ d ∈ l.pf.delivered, Answers x d ∧ d.resp = resp := by
  have run := inv.sent_inRun bound sent
  rcases clean with rfl | delivered | stale
  · exact absurd rfl nonzero
  · obtain ⟨before, part, answered⟩ := inv.pf.exactlyOnce.answered
    obtain ⟨x, mem, answer⟩ := forall₂_right answered delivered
    have executed := part.subset mem
    have src : me = x.src := answer.1
    have arrived : (me, x.req) ∈ l.pf.arrived := by
      rw [src]
      exact inv.pf.exactlyOnce.once.subset (List.mem_map_of_mem executed)
    have same : x.req.seq = req.seq := answer.2.seq.symm.trans seq
    rcases inv.arrived _ arrived with own | old
    · exact ⟨x, executed, src.symm, inv.sent_inj few bound own sent same, _, delivered, answer, rfl⟩
    · rw [same] at old
      exact absurd run old
  · rw [seq] at stale
    exact absurd run stale

/-- What a thread that takes a message has to itself. -/
structure SameMessage (me : FuncId) (l l' : Link) : Prop where
  resp : l'.vf.mboxResp = l.vf.mboxResp
  inbox : ∀ m, l.pf.responses me = some m → l'.pf.responses me = some m

/-- What the command that holds `mbox_lock` has to itself. -/
structure SameCommand (l l' : Link) : Prop where
  mboxSeq : l'.vf.mboxSeq = l.vf.mboxSeq
  sent : l'.vf.sent = l.vf.sent
  outMsg : l'.vf.outMsg = l.vf.outMsg
  res : l'.vf.res = l.vf.res
  cmdInside : l'.vf.cmdInside = l.vf.cmdInside

theorem SameMessage.refl (l : Link) : SameMessage me l l := ⟨rfl, fun _ h => h⟩

theorem SameMessage.trans {a b c : Link} (h : SameMessage me a b) (h' : SameMessage me b c) :
    SameMessage me a c := ⟨h'.resp.trans h.resp, fun m full => h'.inbox m (h.inbox m full)⟩

theorem SameCommand.refl (l : Link) : SameCommand l l := ⟨rfl, rfl, rfl, rfl, rfl⟩

theorem SameCommand.trans {a b c : Link} (h : SameCommand a b) (h' : SameCommand b c) : SameCommand a c :=
  ⟨h'.mboxSeq.trans h.mboxSeq, h'.sent.trans h.sent, h'.outMsg.trans h.outMsg, h'.res.trans h.res,
    h'.cmdInside.trans h.cmdInside⟩

structure IrqRely (me : FuncId) (l l' : Link) : Prop where
  irqInside : l'.vf.irqInside = l.vf.irqInside
  grown : Grown l.pf l'.pf
  message : l.vf.irqInside = true → SameMessage me l l'

structure CmdRely (me : FuncId) (k : Nat) (l l' : Link) : Prop where
  lock : l'.vf.mboxLock = some k ↔ l.vf.mboxLock = some k
  grown : Grown l.pf l'.pf
  command : l.vf.mboxLock = some k → SameCommand l l'
  message : l.vf.mboxLock = some k → l.vf.cmdInside = true → SameMessage me l l'

def linkRely (me : FuncId) : LinkThread → Link → Link → Prop
  | .pf u, l, l' => pfRely u l.pf l'.pf
  | .irq, l, l' => IrqRely me l l'
  | .cmd k, l, l' => CmdRely me k l l'

theorem linkRely_refl (t : LinkThread) (l : Link) : linkRely me t l l := by
  cases t with
  | pf u => exact ⟨Iff.rfl, fun _ => .refl l.pf⟩
  | irq => exact ⟨rfl, .refl l.pf, fun _ => .refl l⟩
  | cmd k => exact ⟨Iff.rfl, .refl l.pf, fun _ => .refl l, fun _ _ => .refl l⟩

theorem linkRely_trans (t : LinkThread) {a b c : Link} (h : linkRely me t a b) (h' : linkRely me t b c) :
    linkRely me t a c := by
  cases t with
  | pf u => exact ⟨h'.1.trans h.1, fun inside => (h.2 inside).trans (h'.2 (h.1.mpr inside))⟩
  | irq =>
    exact ⟨h'.irqInside.trans h.irqInside, h.grown.trans h'.grown, fun inside =>
      (h.message inside).trans (h'.message (h.irqInside.trans inside))⟩
  | cmd k =>
    refine ⟨h'.lock.trans h.lock, h.grown.trans h'.grown, fun held => ?_, fun held inside => ?_⟩
    · exact (h.command held).trans (h'.command (h.lock.mpr held))
    · have still := (h.command held).cmdInside.trans inside
      exact (h.message held inside).trans (h'.message (h.lock.mpr held) still)

/-- The contract of a thread of the link in the runs where the threads of the VF take
    no message together. -/
def linkContract (me : FuncId) (seq0 : Word) (N : Nat) (t : LinkThread) : Contract Link where
  ok l := Assumed N l ∧ Apart l
  inv := LinkInv me seq0 N
  rely := linkRely me t
  guarantee l l' := ∀ v, v ≠ t → linkRely me v l l'
  rely_refl := linkRely_refl t
  rely_trans := linkRely_trans t
  guarantee_refl l v _ := linkRely_refl v l

/-- Where a thread of the VF stands: its command's sequence number and the requests
    sent so far, and whether it is taking a message. -/
def At (t : LinkThread) (seq : Word) (sent : List Msg) (inside : Bool) (l : Link) : Prop :=
  match t with
  | .pf _ => False
  | .irq => l.vf.irqInside = inside
  | .cmd k => l.vf.mboxLock = some k ∧ l.vf.mboxSeq = seq ∧ l.vf.sent = sent ∧ l.vf.cmdInside = inside

/-- Whether the other thread of the VF is taking a message. -/
def otherInside (t : LinkThread) (vf : VfMbox) : Bool :=
  match t with
  | .pf _ => false
  | .irq => vf.cmdInside
  | .cmd _ => vf.irqInside

section

variable {t : LinkThread} {k : Nat} {seq : Word} {sent : List Msg} {inside : Bool} {α : Type}

theorem otherInside_false {l : Link} (apart : Apart l) (at_ : At t seq sent true l) :
    otherInside t l.vf = false := by
  cases t with
  | pf u => rfl
  | irq =>
    have here : l.vf.irqInside = true := at_
    cases other : l.vf.cmdInside with
    | false => exact other
    | true => exact absurd ⟨here, other⟩ apart
  | cmd k =>
    have here : l.vf.cmdInside = true := at_.2.2.2
    cases other : l.vf.irqInside with
    | false => exact other
    | true => exact absurd ⟨other, here⟩ apart

theorem at_rely {l l' : Link} (at_ : At t seq sent inside l) (between : linkRely me t l l') :
    At t seq sent inside l' := by
  cases t with
  | pf u => exact at_
  | irq => exact between.irqInside.trans at_
  | cmd k =>
    obtain ⟨lock, mboxSeq, sent, inside⟩ := at_
    have command := between.command lock
    exact ⟨between.lock.mpr lock, command.mboxSeq.trans mboxSeq, command.sent.trans sent,
      command.cmdInside.trans inside⟩

theorem at_grown {l l' : Link} (at_ : At t seq sent inside l) (between : linkRely me t l l') :
    Grown l.pf l'.pf := by
  cases t with
  | pf u => exact at_.elim
  | irq => exact between.grown
  | cmd k => exact between.grown

theorem at_message {l l' : Link} (at_ : At t seq sent true l) (between : linkRely me t l l') :
    SameMessage me l l' := by
  cases t with
  | pf u => exact at_.elim
  | irq => exact between.message at_
  | cmd k => exact between.message at_.1 at_.2.2.2

theorem stable_at : (linkContract me seq0 N t).Stable (At t seq sent inside) :=
  fun _ _ at_ between _ _ => at_rely at_ between

theorem at_done (a : α) : (linkContract me seq0 N t).Triple (At t seq sent inside)
    (.done a : Program Link Input α) fun _ => At t seq sent inside :=
  .done stable_at fun _ _ at_ => at_

theorem stable_inside {X : Link → Prop}
    (kept : ∀ l l', X l → SameMessage me l l' → Grown l.pf l'.pf → X l') :
    (linkContract me seq0 N t).Stable fun l => At t seq sent true l ∧ X l :=
  fun l l' ⟨at_, holds⟩ between _ _ =>
    ⟨at_rely at_ between, kept l l' holds (at_message at_ between) (at_grown at_ between)⟩

theorem stable_cmd {X : Link → Prop}
    (kept : ∀ l l', X l → SameCommand l l' → Grown l.pf l'.pf → X l') :
    (linkContract me seq0 N (.cmd k)).Stable fun l => At (.cmd k) seq sent inside l ∧ X l :=
  fun l l' ⟨at_, holds⟩ between _ _ =>
    ⟨at_rely at_ between, kept l l' holds (between.command at_.1) between.grown⟩

/-- A step on the message, the completion and the thread's own mark. -/
theorem message_guarantee {l l' : Link} {r : Msg} {d : Nat} {b : Bool}
    (vf : l'.vf = Link.markInside t b { l.vf with mboxResp := r, mboxDone := d })
    (pf : l'.pf.inside = l.pf.inside ∧ PfSys.Undisturbed l.pf l'.pf) (at_ : At t seq sent inside l)
    (message : otherInside t l.vf = true → SameMessage me l l') :
    (linkContract me seq0 N t).guarantee l l' := by
  have grown : Grown l.pf l'.pf :=
    ⟨fun x mem => by rw [pf.2.executed]; exact mem, fun d mem => by rw [pf.2.delivered]; exact mem⟩
  intro v other
  cases v with
  | pf u => exact ⟨by rw [pf.1], fun _ => pf.2⟩
  | irq =>
    cases t with
    | pf u => exact at_.elim
    | irq => exact absurd rfl other
    | cmd k => exact ⟨by rw [vf]; rfl, grown, message⟩
  | cmd j =>
    cases t with
    | pf u => exact at_.elim
    | irq =>
      refine ⟨by rw [vf]; rfl, grown, fun _ => ?_, fun _ => message⟩
      constructor <;> rw [vf] <;> rfl
    | cmd k =>
      have apart : k ≠ j := fun same => other (by rw [same])
      have before : l.vf.mboxLock ≠ some j := by
        rw [at_.1]
        simpa using apart
      have after : l'.vf.mboxLock ≠ some j := by
        rw [vf]
        exact before
      exact ⟨⟨fun held => absurd held after, fun held => absurd held before⟩, grown,
        fun held => absurd held before, fun held => absurd held before⟩

/-- A step of the command that holds the lock, away from the message. -/
theorem cmd_guarantee {l l' : Link} (pf : l'.pf.inside = l.pf.inside ∧ PfSys.Undisturbed l.pf l'.pf)
    (lock : ∀ j, j ≠ k → l.vf.mboxLock ≠ some j ∧ l'.vf.mboxLock ≠ some j)
    (irq : l'.vf.irqInside = l.vf.irqInside) (message : l.vf.irqInside = true → SameMessage me l l') :
    (linkContract me seq0 N (.cmd k)).guarantee l l' := by
  have grown : Grown l.pf l'.pf :=
    ⟨fun x mem => by rw [pf.2.executed]; exact mem, fun d mem => by rw [pf.2.delivered]; exact mem⟩
  intro v other
  cases v with
  | pf u => exact ⟨by rw [pf.1], fun _ => pf.2⟩
  | irq => exact ⟨irq, grown, message⟩
  | cmd j =>
    have free := lock j fun same => other (by rw [same])
    exact ⟨⟨fun held => absurd held free.2, fun held => absurd held free.1⟩, grown,
      fun held => absurd held free.1, fun held => absurd held free.1⟩

/-- The invariant after a change of the VF's own state that keeps the history. -/
theorem LinkInv.setVf {l : Link} {f : VfMbox → VfMbox} (inv : LinkInv me seq0 N l)
    (sent_same : (f l.vf).sent = l.vf.sent) (returned : (f l.vf).returned = l.vf.returned)
    (idle : (f l.vf).mboxLock = none → (f l.vf).mboxSeq = seq0 + BitVec.ofNat 32 l.vf.sent.length ∧
      (f l.vf).cmdInside = false)
    (resp : (f l.vf).irqInside = false → (f l.vf).cmdInside = false →
      CleanResp me seq0 N l.pf (f l.vf).mboxResp) : LinkInv me seq0 N (l.setVf f) where
  pf := inv.pf
  arrived m mem := by
    simp only [Link.setVf, sent_same]
    exact inv.arrived m mem
  inbox := inv.inbox
  sent i less := by
    simp only [Link.setVf, sent_same] at less ⊢
    exact inv.sent i less
  idle := by simpa only [Link.setVf, sent_same] using idle
  resp := resp
  returned := by simpa only [Link.setVf, returned, sent_same] using inv.returned

/-- An access that changes nothing. -/
theorem look_access {act : Input → Link → Option (α × Link)} {X : Link → Prop} {Y : α → Link → Prop}
    (stable : (linkContract me seq0 N t).Stable X) (stable' : ∀ a, (linkContract me seq0 N t).Stable (Y a))
    (h : ∀ l i a l', LinkInv me seq0 N l → X l → act i l = some (a, l') → l' = l ∧ Y a l) :
    (linkContract me seq0 N t).Triple X (.access act) Y := by
  apply Contract.Triple.access stable stable'
  intro l i a l' _ inv holds taken _
  obtain ⟨rfl, after⟩ := h l i a l' inv holds taken
  exact ⟨inv, (linkContract me seq0 N t).guarantee_refl l', after⟩

theorem look_read {f : Link → α} {X : Link → Prop} {Y : α → Link → Prop}
    (stable : (linkContract me seq0 N t).Stable X) (stable' : ∀ a, (linkContract me seq0 N t).Stable (Y a))
    (h : ∀ l, LinkInv me seq0 N l → X l → Y (f l) l) :
    (linkContract me seq0 N t).Triple X (.read f : Program Link Input α) Y := by
  apply look_access stable stable'
  intro l _ a l' inv holds taken
  obtain ⟨rfl, rfl⟩ : f l = a ∧ l = l' := by simpa using taken
  exact ⟨rfl, h l inv holds⟩

theorem undisturbed_consume (pf : PfSys) (f : FuncId) :
    PfSys.Undisturbed pf { pf with responses := Function.update pf.responses f none } := by
  refine ⟨rfl, rfl, rfl, rfl, ⟨[], by simp⟩, fun g free => ?_⟩
  by_cases same : g = f
  · simp [same]
  · simpa [Function.update_of_ne same] using free

/-- The invariant after this VF has taken the message out of its inbox. -/
theorem LinkInv.consume {l : Link} (inv : LinkInv me seq0 N l) :
    LinkInv me seq0 N { l with pf := { l.pf with responses := Function.update l.pf.responses me none } } where
  pf := inv.pf.undisturbed rfl (undisturbed_consume l.pf me)
  arrived := inv.arrived
  inbox m full := by simp at full
  sent := inv.sent
  idle := inv.idle
  resp := inv.resp
  returned := inv.returned

/-- A message is in the inbox and this thread is taking it. -/
def Taking (me : FuncId) (t : LinkThread) (seq : Word) (sent : List Msg) (m : Msg) (l : Link) : Prop :=
  At t seq sent true l ∧ l.pf.responses me = some m

theorem readStsEnter_triple :
    (linkContract me seq0 N t).Triple (At t seq sent false) (VfMbox.readStsEnter me t)
      fun status l => (status.has 0 = false → At t seq sent false l) ∧
        (status.has 0 = true → ∃ m, Taking me t seq sent m l ∧
          (∀ k, t = .cmd k → CleanResp me seq0 N l.pf l.vf.mboxResp)) := by
  apply Contract.Triple.access stable_at
  · intro status l l' ⟨idle, taking⟩ between ok inv
    refine ⟨fun none => stable_at l l' (idle none) between ok inv, fun seen => ?_⟩
    obtain ⟨m, ⟨at_, full⟩, clean⟩ := taking seen
    have same := at_message at_ between
    refine ⟨m, ⟨at_rely at_ between, same.inbox m full⟩, fun k is => ?_⟩
    rw [same.resp]
    exact (clean k is).grown (at_grown at_ between)
  · rintro l _ status l' - inv at_ taken ⟨-, apart⟩
    by_cases seen : (l.vfMboxSts me).has 0 = true
    · obtain ⟨rfl, rfl⟩ : l.vfMboxSts me = status ∧ l.setVf (Link.markInside t true) = l' := by
        simpa [seen] using taken
      have at_' : At t seq sent true (l.setVf (Link.markInside t true)) := by
        cases t with
        | pf u => exact at_.elim
        | irq => exact rfl
        | cmd k => exact ⟨at_.1, at_.2.1, at_.2.2.1, rfl⟩
      have clean (k : Nat) (is : t = .cmd k) : CleanResp me seq0 N l.pf l.vf.mboxResp := by
        subst is
        apply inv.resp _ at_.2.2.2
        exact otherInside_false apart at_'
      have inv' : LinkInv me seq0 N (l.setVf (Link.markInside t true)) := by
        cases t with
        | pf u => exact at_.elim
        | irq => exact inv.setVf rfl rfl inv.idle fun none _ => absurd none (by simp [Link.markInside])
        | cmd k =>
          refine inv.setVf rfl rfl (fun free => ?_) fun _ none => absurd none (by simp [Link.markInside])
          have lock : l.vf.mboxLock = none := free
          rw [at_.1] at lock
          cases lock
      have same : (l.setVf (Link.markInside t true)).vf.mboxResp = l.vf.mboxResp := by cases t <;> rfl
      rw [Link.vfMboxSts_iMsg] at seen
      obtain ⟨m, full⟩ := Option.isSome_iff_exists.mp seen
      refine ⟨inv', ?_, fun none => ?_, fun _ => ⟨m, ⟨at_', full⟩, ?_⟩⟩
      · exact message_guarantee (r := l.vf.mboxResp) (d := l.vf.mboxDone) (b := true) rfl
          ⟨rfl, .refl l.pf⟩ at_ fun _ => ⟨same, fun _ h => h⟩
      · rw [Link.vfMboxSts_iMsg, seen] at none
        cases none
      · rw [same]
        exact clean
    · obtain ⟨rfl, rfl⟩ : l.vfMboxSts me = status ∧ l = l' := by simpa [seen] using taken
      exact ⟨inv, (linkContract me seq0 N t).guarantee_refl l, fun _ => at_, fun is => absurd is seen⟩

/-- A change of `mbox_resp` by the thread that is taking a message. -/
theorem writeResp_triple {X Y : Link → Prop} {f : Msg → Msg}
    (stable : (linkContract me seq0 N t).Stable fun l => At t seq sent true l ∧ X l)
    (stable' : (linkContract me seq0 N t).Stable fun l => At t seq sent true l ∧ Y l)
    (h : ∀ l, X l → Y (l.setVf fun vf => { vf with mboxResp := f vf.mboxResp })) :
    (linkContract me seq0 N t).Triple (fun l => At t seq sent true l ∧ X l)
      (.modify fun l => l.setVf fun vf => { vf with mboxResp := f vf.mboxResp } : Program Link Input Unit)
      fun _ l => At t seq sent true l ∧ Y l := by
  apply Contract.Triple.modify stable stable'
  rintro l ⟨-, apart⟩ inv ⟨at_, holds⟩ -
  have at_' : At t seq sent true (l.setVf fun vf => { vf with mboxResp := f vf.mboxResp }) := by
    cases t <;> exact at_
  refine ⟨?_, ?_, at_', h l holds⟩
  · cases t with
    | pf u => exact at_.elim
    | irq =>
      refine inv.setVf rfl rfl inv.idle fun none _ => ?_
      rw [show l.vf.irqInside = true from at_] at none
      cases none
    | cmd k =>
      refine inv.setVf rfl rfl inv.idle fun _ none => ?_
      rw [at_.2.2.2] at none
      cases none
  · refine message_guarantee (r := f l.vf.mboxResp) (d := l.vf.mboxDone) (b := true) ?_
      ⟨rfl, .refl l.pf⟩ at_ fun other => ?_
    · cases t with
      | pf u => rfl
      | irq => simp [Link.setVf, Link.markInside, show l.vf.irqInside = true from at_]
      | cmd k => simp [Link.setVf, Link.markInside, at_.2.2.2]
    · rw [otherInside_false apart at_] at other
      cases other

theorem taking_kept (m : Msg) (l l' : Link) (full : l.pf.responses me = some m) (same : SameMessage me l l')
    (_ : Grown l.pf l'.pf) : l'.pf.responses me = some m := same.inbox m full

/-- `mbox_resp` holds the message as far as it is read. -/
def Copied (me : FuncId) (m : Msg) (n : Nat) (l : Link) : Prop :=
  l.pf.responses me = some m ∧ ∀ i : Fin 32, i.val < n → l.vf.mboxResp i = m i

theorem stable_copied (m : Msg) (n : Nat) :
    (linkContract me seq0 N t).Stable fun l => At t seq sent true l ∧ Copied me m n l := by
  apply stable_inside
  rintro l l' ⟨full, copied⟩ same _
  refine ⟨same.inbox m full, fun i less => ?_⟩
  rw [same.resp]
  exact copied i less

theorem onicVfMboxReadResp_triple (m : Msg) :
    (linkContract me seq0 N t).Triple (Taking me t seq sent m) (onicVfMboxReadResp me)
      fun _ l => At t seq sent true l ∧ Copied me m 32 l := by
  apply Contract.Triple.bind (M := fun _ l => At t seq sent true l ∧ Copied me m 0 l)
  · exact writeResp_triple (X := fun l => l.pf.responses me = some m) (Y := Copied me m 0)
      (f := fun _ => Msg.zero) (stable_inside (taking_kept m)) (stable_copied m 0)
      fun l full => ⟨full, fun i less => absurd less (Nat.not_lt_zero _)⟩
  · intro _
    apply Contract.Triple.fold (I := fun n (_ : Unit) l => At t seq sent true l ∧ Copied me m n l)
    · exact fun n _ => stable_copied m n
    · intro n _ _ less
      apply Contract.Triple.bind (M := fun word l =>
        At t seq sent true l ∧ Copied me m n l ∧ word = m (Fin.ofNat 32 n))
      · apply look_access (stable_copied m n)
        · intro word l l' ⟨at_, copied, is⟩ between ok inv
          exact ⟨(stable_copied m n l l' ⟨at_, copied⟩ between ok inv).1,
            (stable_copied m n l l' ⟨at_, copied⟩ between ok inv).2, is⟩
        · rintro l i word l' - ⟨at_, copied⟩ taken
          simp only [copied.1, Option.some.injEq, Prod.mk.injEq] at taken
          obtain ⟨rfl, rfl⟩ := taken
          exact ⟨rfl, at_, copied, rfl⟩
      · intro word
        refine writeResp_triple (X := fun l => Copied me m n l ∧ word = m (Fin.ofNat 32 n))
          (Y := Copied me m (n + 1)) (f := fun resp => resp.set (Fin.ofNat 32 n) word) ?_ ?_ ?_
        · apply stable_inside
          rintro l l' ⟨⟨full, copied⟩, is⟩ same _
          exact ⟨⟨same.inbox m full, by rwa [same.resp]⟩, is⟩
        · exact stable_copied m (n + 1)
        · rintro l ⟨⟨full, copied⟩, rfl⟩
          refine ⟨full, fun i small => ?_⟩
          by_cases here : i = Fin.ofNat 32 n
          · simp [Link.setVf, Msg.set, here]
          · have apart : i.val ≠ n := by
              rintro rfl
              exact here (by simp)
            simpa only [Link.setVf, Msg.set, Function.update_of_ne here] using copied i (by omega)

theorem at_leave {l : Link} (at_ : At t seq sent true l) (d : Nat) :
    At t seq sent false (l.setVf fun vf => Link.markInside t false { vf with mboxDone := d }) := by
  cases t with
  | pf u => exact at_
  | irq => exact rfl
  | cmd k => exact ⟨at_.1, at_.2.1, at_.2.2.1, rfl⟩

/-- A thread that is done with a message leaves a whole response behind. -/
theorem LinkInv.leave {l : Link} (inv : LinkInv me seq0 N l) (at_ : At t seq sent true l) (d : Nat)
    (clean : CleanResp me seq0 N l.pf l.vf.mboxResp) :
    LinkInv me seq0 N (l.setVf fun vf => Link.markInside t false { vf with mboxDone := d }) := by
  cases t with
  | pf u => exact at_.elim
  | irq => exact inv.setVf rfl rfl inv.idle fun _ _ => clean
  | cmd k =>
    refine inv.setVf rfl rfl (fun free => ?_) fun _ _ => clean
    have lock : l.vf.mboxLock = none := free
    rw [at_.1] at lock
    cases lock

theorem leave_guarantee {l : Link} (apart : Apart l) (at_ : At t seq sent true l) (d : Nat) :
    (linkContract me seq0 N t).guarantee l
      (l.setVf fun vf => Link.markInside t false { vf with mboxDone := d }) := by
  refine message_guarantee (r := l.vf.mboxResp) (d := d) (b := false) rfl ⟨rfl, .refl l.pf⟩ at_
    fun other => ?_
  rw [otherInside_false apart at_] at other
  cases other

theorem consume_guarantee {l : Link} (apart : Apart l) (at_ : At t seq sent true l) :
    (linkContract me seq0 N t).guarantee l
      { l with pf := { l.pf with responses := Function.update l.pf.responses me none } } := by
  refine message_guarantee (r := l.vf.mboxResp) (d := l.vf.mboxDone) (b := true) ?_
    ⟨rfl, undisturbed_consume l.pf me⟩ at_ fun other => ?_
  · cases t with
    | pf u => rfl
    | irq =>
      have here : l.vf.irqInside = true := at_
      simp only [Link.markInside, ← here]
    | cmd k =>
      have here : l.vf.cmdInside = true := at_.2.2.2
      simp only [Link.markInside, ← here]
  · rw [otherInside_false apart at_] at other
    cases other

theorem at_consume {l : Link} {f : FuncId} (at_ : At t seq sent inside l) :
    At t seq sent inside { l with pf := { l.pf with responses := Function.update l.pf.responses f none } } := by
  cases t <;> exact at_

/-- `mbox_resp` is a whole response that belongs to this VF. -/
def Holds (me : FuncId) (seq0 : Word) (N : Nat) (m : Msg) (l : Link) : Prop :=
  l.vf.mboxResp = m ∧ CleanResp me seq0 N l.pf m

theorem stable_holds (m : Msg) :
    (linkContract me seq0 N t).Stable fun l => At t seq sent true l ∧ Holds me seq0 N m l := by
  apply stable_inside
  rintro l l' ⟨is, clean⟩ same grown
  exact ⟨same.resp.trans is, clean.grown grown⟩

theorem writeCmdRcv_triple (m : Msg) :
    (linkContract me seq0 N t).Triple (fun l => At t seq sent true l ∧ Copied me m 32 l)
      (VfMbox.writeCmdRcv me) fun _ l => At t seq sent true l ∧ Holds me seq0 N m l := by
  apply Contract.Triple.modify (stable_copied m 32) (stable_holds m)
  rintro l ⟨-, apart⟩ inv ⟨at_, full, copied⟩ -
  exact ⟨inv.consume, consume_guarantee apart at_, at_consume at_, funext fun i => copied i i.isLt,
    .inr (inv.inbox m full)⟩

theorem completeLeave_triple (m : Msg) :
    (linkContract me seq0 N t).Triple (fun l => At t seq sent true l ∧ Holds me seq0 N m l)
      (VfMbox.completeLeave t) fun _ => At t seq sent false := by
  apply Contract.Triple.modify (stable_holds m) stable_at
  rintro l ⟨-, apart⟩ inv ⟨at_, is, clean⟩ -
  rw [← is] at clean
  exact ⟨inv.leave at_ _ clean, leave_guarantee apart at_ _, at_leave at_ _⟩

/-- Either consumer leaves the whole response in `mbox_resp`. -/
theorem onicVfMboxProcessOne_triple :
    (linkContract me seq0 N t).Triple (At t seq sent false) (onicVfMboxProcessOne me t)
      fun _ => At t seq sent false := by
  apply Contract.Triple.bind readStsEnter_triple
  intro status
  split
  · rename_i none
    exact (at_done 0).conseq (fun l _ h => h.1 (by simpa using none)) fun _ _ _ h => h
  · rename_i seen
    have rest (m : Msg) : (linkContract me seq0 N t).Triple (Taking me t seq sent m) (do
        onicVfMboxReadResp me
        VfMbox.writeCmdRcv me
        VfMbox.completeLeave t
        .done (1 : Int)) fun _ => At t seq sent false :=
      .bind (onicVfMboxReadResp_triple m) fun _ => .bind (writeCmdRcv_triple m) fun _ =>
        .bind (completeLeave_triple m) fun _ => at_done 1
    apply (Contract.Triple.exists_pre rest).conseq
    · intro l _ h
      obtain ⟨m, taking, -⟩ := h.2 (by simpa using seen)
      exact ⟨m, taking⟩
    · exact fun _ _ _ h => h

end

end OpenNic
