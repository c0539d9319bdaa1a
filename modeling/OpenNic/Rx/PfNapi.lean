import OpenNic.Rx.PollAgreement

namespace OpenNic

/-- What a poll calls of NAPI and of the completion doorbell, in their order. -/
inductive NapiCall
  | complete
  | schedule
  | completeDone (work : Nat)
  | completionTail (cidx : Nat) (arm : Bool)
  deriving DecidableEq

def NapiCall.completes : NapiCall → Bool
  | .complete => true
  | .completeDone _ => true
  | _ => false

def NapiCall.arms : NapiCall → Bool
  | .completionTail _ arm => arm
  | _ => false

structure PfNapiPoll where
  rx : PfRxPoll
  calls : List NapiCall

namespace PfNapiPoll

def setRx (rx : PfRxPoll) (s : PfNapiPoll) : PfNapiPoll := { s with rx := rx }

def call (c : NapiCall) (s : PfNapiPoll) : PfNapiPoll := { s with calls := s.calls ++ [c] }

/-- `napi_complete_done` and `onic_set_completion_tail(.., 1)` -/
def completeAndArm (work : Nat) (s : PfNapiPoll) : PfNapiPoll :=
  let clean := s.rx.q.cmplRing.nextToClean
  let s := (s.call (.completeDone work)).call (.completionTail clean true)
  s.setRx (s.rx.setQ { s.rx.q with cidx := (clean, true) })

theorem rx_lens : Program.Lens PfNapiPoll.rx PfNapiPoll.setRx where
  get_set _ _ := rfl
  set_get _ := rfl
  set_set _ _ _ := rfl

end PfNapiPoll

/-- The loop of `onic_rx_poll` over any round; the round is told how many packets were before. -/
def onicRxLoopOf (round : Nat → C2hCmpl → Program PfRxPoll PfRxInput Bool) (pidx : Nat) :
    Nat → C2hCmpl → Nat → Program PfRxPoll PfRxInput (Nat × Bool)
  | 0, cmpl, work => do
    if (← .read fun s => s.q.cmplRing.nextToClean) = pidx then .done (work, false)
    else if ← round work cmpl then .done (work + 1, true)
    else .done (work, false)
  | left + 1, cmpl, work => do
    if (← .read fun s => s.q.cmplRing.nextToClean) = pidx then .done (work, false)
    else if ← round work cmpl then
      let cmpl ← onicRxReadCmpl
      onicRxLoopOf round pidx left cmpl (work + 1)
    else .done (work, false)

theorem onicRxLoop_eq (t pidx left : Nat) (cmpl : C2hCmpl) (work : Nat) :
    onicRxLoop t pidx left cmpl work = onicRxLoopOf (fun _ => onicRxRound t) pidx left cmpl work := by
  induction left generalizing cmpl work with
  | zero => rfl
  | succ left ih =>
    rw [onicRxLoop, onicRxLoopOf]
    simp only [ih]

/-- The branches after the loop, up to `out_of_budget`. -/
def onicRxPollEnd (pidx work : Nat) : Program PfNapiPoll PfRxInput Unit := do
  if (← .read fun s => s.rx.q.cmplRing.nextToClean) = pidx then .modify (PfNapiPoll.completeAndArm work)
  else if (← .read fun s => s.rx.q.cmplRing.nextToClean) = 0 then .modify (PfNapiPoll.completeAndArm work)
  else .done ()

/-- `onic_rx_poll` from where it has cleaned the TX queues, with what it calls. -/
def onicRxPollCalls (round : Nat → C2hCmpl → Program PfRxPoll PfRxInput Bool) (budget : Nat) :
    Program PfNapiPoll PfRxInput Nat := do
  let cmpl ← onicRxReadCmpl.lift PfNapiPoll.rx PfNapiPoll.setRx
  let pidx ← .read fun s => qdmaUnpackC2hCmplStatPidx s.rx.q.cmplRing.wb
  let (work, outOfBudget) ← (onicRxLoopOf round pidx (budget - 1) cmpl 0).lift PfNapiPoll.rx PfNapiPoll.setRx
  if outOfBudget then
    .modify (PfNapiPoll.call .complete)
    .modify (PfNapiPoll.call .schedule)
    .done work
  else
    onicRxPollEnd pidx work
    .done work

/-- The packet is for the stack. -/
def XdpInput.Passes (input : XdpInput) : Prop := input.prog = none ∨ input.prog = some xdpPass

/-- The verdict on a packet and whether there is memory for its skb. -/
structure RxFate where
  prog : Option Word
  buildSkb : Bool

namespace RxFate

def fill (fate : RxFate) (input : PfRxInput) : PfRxInput :=
  { input with xdp := { input.xdp with prog := fate.prog, buildSkb := fate.buildSkb } }

/-- The packet is for the stack. -/
def Passes (fate : RxFate) : Prop := fate.prog = none ∨ fate.prog = some xdpPass

instance (fate : RxFate) : Decidable fate.Passes := inferInstanceAs (Decidable (_ ∨ _))

/-- The poll breaks off at the packet. -/
def Breaks (fate : RxFate) : Prop := fate.Passes ∧ fate.buildSkb = false

instance (fate : RxFate) : Decidable fate.Breaks := inferInstanceAs (Decidable (_ ∧ _))

end RxFate

/-- The round where packet `k` of the poll meets `fates k`. -/
def fatedRound (t : Nat) (fates : Nat → RxFate) (k : Nat) (cmpl : C2hCmpl) : Program PfRxPoll PfRxInput Bool :=
  (onicRxRound t cmpl).comap (fates k).fill

/-- What NAPI asks of a poll that returns `work`. -/
def NapiContract (budget work : Nat) (calls : List NapiCall) : Prop :=
  work = budget ∧ calls.countP NapiCall.completes = 0 ∨
    work < budget ∧ calls.countP NapiCall.completes = 1 ∧ calls.any NapiCall.arms = true

instance (budget work : Nat) (calls : List NapiCall) : Decidable (NapiContract budget work calls) :=
  inferInstanceAs (Decidable (_ ∨ _))

/-- The completion ring's index after `k` packets. -/
def RxQueue.cmplCleanAfter (q : RxQueue) (k : Nat) : Nat :=
  Nat.iterate (fun i => (i + 1) % q.cmplRing.realCount) k q.cmplRing.nextToClean

/-- Before the budget is used up, the poll comes to `pidx`, or it breaks off where the
    completion ring starts. -/
def PollSettles (fates : Nat → RxFate) (clean : Nat → Nat) (pidx budget : Nat) : Prop :=
  ∃ k < budget, (∀ j < k, ¬ (fates j).Breaks ∧ clean j ≠ pidx) ∧
    (clean k = pidx ∨ (fates k).Breaks ∧ clean k = 0)

section

variable {fates : Nat → RxFate} {clean : Nat → Nat} {pidx budget t : Nat}

theorem not_pollSettles_zero : ¬ PollSettles fates clean pidx 0 := by
  rintro ⟨k, small, -⟩
  exact absurd small (Nat.not_lt_zero k)

theorem pollSettles_here (last : clean 0 = pidx) : PollSettles fates clean pidx (budget + 1) :=
  ⟨0, Nat.succ_pos _, fun j small => absurd small (Nat.not_lt_zero j), .inl last⟩

theorem pollSettles_breaks (more : clean 0 ≠ pidx) (breaks : (fates 0).Breaks) :
    PollSettles fates clean pidx (budget + 1) ↔ clean 0 = 0 := by
  constructor
  · rintro ⟨k, small, before, ends⟩
    cases k with
    | zero => exact ends.elim (fun last => absurd last more) And.right
    | succ k => exact absurd breaks (before 0 (Nat.succ_pos k)).1
  · intro start
    exact ⟨0, Nat.succ_pos _, fun j small => absurd small (Nat.not_lt_zero j), .inr ⟨breaks, start⟩⟩

theorem pollSettles_next (more : clean 0 ≠ pidx) (goesOn : ¬ (fates 0).Breaks) :
    PollSettles fates clean pidx (budget + 1) ↔
      PollSettles (fun k => fates (k + 1)) (fun k => clean (k + 1)) pidx budget := by
  constructor
  · rintro ⟨k, small, before, ends⟩
    cases k with
    | zero => exact ends.elim (fun last => absurd last more) fun here => absurd here.1 goesOn
    | succ k => exact ⟨k, by omega, fun j lt => before (j + 1) (by omega), ends⟩
  · rintro ⟨k, small, before, ends⟩
    refine ⟨k + 1, by omega, fun j lt => ?_, ends⟩
    cases j with
    | zero => exact ⟨goesOn, more⟩
    | succ j => exact before j (by omega)

/-- A value of `onic_run_xdp` with which the packet does not go to the stack. -/
def NotPassed (ptr : Int) : Prop := isErr ptr = true → (-ptr).toNat &&& onicXdpPass = 0

instance (ptr : Int) : Decidable (NotPassed ptr) := inferInstanceAs (Decidable (_ → _))

theorem onicXmitXdpRing_results (xdpf : XdpFrame) (dmaMap : Bool) :
    (onicXmitXdpRing t xdpf dmaMap).Results fun r => r = netdevTxBusy ∨ r = onicXdpConsumed ∨ r = onicXdpTx := by
  have enqueue (frame : TxFrame) :
      (onicXdpEnqueue frame).Results fun r => r = netdevTxBusy ∨ r = onicXdpConsumed ∨ r = onicXdpTx :=
    (Program.Results.trivial _).bind fun _ _ => (Program.Results.trivial _).bind fun _ _ =>
      (Program.Results.trivial _).bind fun _ _ => .inr (.inr rfl)
  refine (Program.Results.trivial _).bind fun _ _ => (Program.Results.trivial _).bind fun full _ => ?_
  cases full with
  | true => exact .inl rfl
  | false =>
    cases dmaMap with
    | false => exact enqueue _
    | true =>
      refine (Program.Results.trivial _).bind fun mapping _ => ?_
      cases mapping with
      | none => exact .inr (.inl rfl)
      | some dmaAddr => exact enqueue _

theorem onicXdpXmitBack_results (xdpf : XdpFrame) :
    (onicXdpXmitBack t xdpf).Results fun r => r = netdevTxBusy ∨ r = onicXdpConsumed ∨ r = onicXdpTx :=
  (Program.Results.trivial _).bind fun _ _ => (onicXmitXdpRing_results xdpf false).bind fun _ known =>
    (Program.Results.trivial _).bind fun _ _ => (Program.Results.trivial _).bind fun _ _ => known

theorem onicXdpXmitBackBuff_results (buff : XdpBuff) :
    (onicXdpXmitBackBuff t buff).Results fun r : Int => r ≠ (onicXdpConsumed : Int) → NotPassed (-r) := by
  refine (Program.Results.trivial _).bind fun converted _ => ?_
  cases converted with
  | none => exact (Program.Results.trivial _).bind fun _ _ other => absurd rfl other
  | some size =>
    refine (Program.Results.trivial _).bind fun there _ => ?_
    cases there with
    | false => exact (Program.Results.trivial _).bind fun _ _ _ => by decide
    | true =>
      refine (((onicXdpXmitBack_results _).comap _).lift _ _).bind fun r known =>
        (Program.Results.trivial _).bind fun _ _ other => ?_
      rcases known with rfl | rfl | rfl
      · decide
      · exact absurd rfl other
      · decide

theorem onicXdpOutFailure_results (buff : XdpBuff) : (onicXdpOutFailure buff).Results NotPassed :=
  (Program.Results.trivial _).bind fun _ _ => show NotPassed (- onicXdpConsumed) by decide

variable {κ : Type} {f : κ → XdpInput} {buff : XdpBuff} {s s' : XdpRx}

/-- The verdict is XDP_PASS, or there is no program; otherwise the packet does not go to the stack. -/
theorem onicRunXdp_cases {ptr : Int} (ran : Program.Exec ((onicRunXdp t buff).comap f) s ptr s') :
    ∃ k, (f k).Passes ∧ ptr = - (onicXdpPass : Int) ∧ (∃ n, s' = { s with xdpPass := n }) ∨
      ¬ (f k).Passes ∧ NotPassed ptr := by
  rw [onicRunXdp, Program.comap_bind, Program.exec_bind] at ran
  obtain ⟨prog, mid, looked, ran⟩ := ran
  obtain ⟨k, looked⟩ := Program.exec_comap_access.mp looked
  obtain ⟨same, found⟩ := Prod.mk.inj (Option.some.inj looked)
  rw [← found] at ran
  refine ⟨k, ?_⟩
  cases prog with
  | none =>
    obtain ⟨rfl, rfl⟩ := Program.exec_done.mp ran
    exact .inl ⟨.inl same, rfl, s'.xdpPass, rfl⟩
  | some act =>
    simp only at ran
    have passes : (f k).Passes ↔ act = xdpPass := by simp [XdpInput.Passes, same]
    by_cases pass : act = xdpPass
    · rw [if_pos pass, Program.comap_bind, Program.exec_bind] at ran
      obtain ⟨_, counted, count, ran⟩ := ran
      have input : Nonempty κ := ⟨k⟩
      obtain rfl := Program.exec_comap_modify.mp count
      obtain ⟨rfl, rfl⟩ := Program.exec_done.mp ran
      exact .inl ⟨passes.mpr pass, rfl, _, rfl⟩
    · refine .inr ⟨fun here => pass (passes.mp here), ?_⟩
      rw [if_neg pass] at ran
      refine Program.Results.exec (Program.Results.comap ?_ _) ran
      by_cases send : act = xdpTx
      · rw [if_pos send]
        refine (onicXdpXmitBackBuff_results buff).bind fun result known => ?_
        by_cases consumed : result = onicXdpConsumed
        · rw [if_pos consumed]
          exact onicXdpOutFailure_results buff
        · rw [if_neg consumed]
          exact known consumed
      · rw [if_neg send]
        by_cases redirect : act = xdpRedirect
        · rw [if_pos redirect]
          refine (Program.Results.trivial _).bind fun err _ => ?_
          by_cases failed : err ≠ 0
          · rw [if_pos failed]
            exact onicXdpOutFailure_results buff
          · rw [if_neg failed]
            exact (Program.Results.trivial _).bind fun _ _ => show NotPassed (- onicXdpRedir) by decide
        · rw [if_neg redirect]
          exact onicXdpOutFailure_results buff

theorem onicRxSkb_cases {goesOn : Bool} (ran : Program.Exec ((onicRxSkb buff).comap f) s goesOn s') :
    ∃ k, goesOn = (f k).buildSkb ∧ (goesOn = false → s' = s) := by
  rw [onicRxSkb, Program.comap_bind, Program.exec_bind] at ran
  obtain ⟨built, mid, looked, ran⟩ := ran
  obtain ⟨k, looked⟩ := Program.exec_comap_access.mp looked
  obtain ⟨same, found⟩ := Prod.mk.inj (Option.some.inj looked)
  rw [← found] at ran
  refine ⟨k, ?_⟩
  cases built with
  | false =>
    obtain ⟨rfl, rfl⟩ := Program.exec_done.mp ran
    exact ⟨same.symm, fun _ => rfl⟩
  | true =>
    rw [if_pos rfl, Program.comap_bind, Program.exec_bind] at ran
    obtain ⟨rv, _, gro, ran⟩ := ran
    obtain ⟨input, gro⟩ := Program.exec_comap_access.mp gro
    obtain ⟨rfl, -⟩ := Prod.mk.inj (Option.some.inj gro)
    rw [if_neg (by omega)] at ran
    obtain ⟨rfl, -⟩ := Program.exec_done.mp ran
    exact ⟨same.symm, fun stops => by cases stops⟩

/-- The packet goes on once it is not one for the stack, or has got its skb. -/
theorem onicRxPacket_cases {goesOn : Bool} (ran : Program.Exec ((onicRxPacket t buff).comap f) s goesOn s') :
    ∃ k j, (goesOn = true ↔ ¬ ((f k).Passes ∧ (f j).buildSkb = false)) ∧
      (goesOn = false → ∃ n, s' = { s with xdpPass := n }) := by
  rw [onicRxPacket, Program.comap_bind, Program.exec_bind] at ran
  obtain ⟨ptr, mid, verdict, ran⟩ := ran
  rcases onicRunXdp_cases verdict with ⟨k, ⟨passes, rfl, n, rfl⟩ | ⟨other, notPassed⟩⟩
  · have skb : Program.Exec ((onicRxSkb buff).comap f) { s with xdpPass := n } goesOn s' := ran
    rcases onicRxSkb_cases skb with ⟨j, built, same⟩
    exact ⟨k, j, by simp [built, passes], fun stops => ⟨n, same stops⟩⟩
  · have done : goesOn = true := by
      by_cases err : isErr ptr
      · simp only [err, if_true, notPassed err, ne_eq, not_true_eq_false, if_false] at ran
        split at ran
        · rw [Program.comap_bind, Program.exec_bind] at ran
          obtain ⟨_, _, _, ran⟩ := ran
          exact (Program.exec_done.mp ran).1
        · exact (Program.exec_done.mp ran).1
      · simp only [err] at ran
        exact (Program.exec_done.mp ran).1
    exact ⟨k, k, by simp [done, other], by simp [done]⟩

/-- The poll breaks off at a packet for the stack that there is no skb for, and nowhere else. -/
theorem onicRxPacket_fated {fate : RxFate} {goesOn : Bool}
    (ran : Program.Exec ((onicRxPacket t buff).comap fun i => (fate.fill i).xdp) s goesOn s') :
    goesOn = true ↔ ¬ fate.Breaks := by
  rcases onicRxPacket_cases ran with ⟨k, j, goes, -⟩
  exact goes

theorem note_cmplRing (slot : Nat) (pg : RxPage) (len before : Nat) (s : PfRxPoll) :
    (s.note slot pg len before).q.cmplRing = s.q.cmplRing := by
  rw [PfRxPoll.note]
  split <;> rfl

theorem onicRxAdvance_cmplRing (q : RxQueue) (cmpl : C2hCmpl) :
    (q.onicRxAdvance cmpl).cmplRing.count = q.cmplRing.count ∧
      (q.onicRxAdvance cmpl).cmplRing.nextToClean = (q.cmplRing.nextToClean + 1) % q.cmplRing.realCount := by
  simp only [RxQueue.onicRxAdvance]
  split <;> split <;> exact ⟨rfl, rfl⟩

/-- The completion ring after a round of the poll. -/
structure RxTurned (goesOn : Bool) (s s' : PfRxPoll) : Prop where
  count : s'.q.cmplRing.count = s.q.cmplRing.count
  clean : s'.q.cmplRing.nextToClean =
    if goesOn then (s.q.cmplRing.nextToClean + 1) % s.q.cmplRing.realCount else s.q.cmplRing.nextToClean

theorem onicRxRound_turned {κ : Type} [Nonempty κ] {f : κ → PfRxInput} {s s' : PfRxPoll} {cmpl : C2hCmpl} {goesOn : Bool}
    (ran : Program.Exec ((onicRxRound t cmpl).comap f) s goesOn s') : RxTurned goesOn s s' := by
  obtain ⟨pg, xdp, -, -, next⟩ := onicRxRound_exec ran
  let noted := (s.setXdp xdp).note s.q.descRing.nextToClean pg cmpl.pktLen s.xdp.stack.length
  have ring : noted.q.cmplRing = s.q.cmplRing := note_cmplRing ..
  rcases next with ⟨rfl, rfl⟩ | ⟨rfl, input, dma, -, rfl⟩
  · exact ⟨congrArg RxRing.count ring, congrArg RxRing.nextToClean ring⟩
  · have moved := onicRxAdvance_cmplRing (noted.q.onicRxPageRefill ⟨noted.q.taken, dma⟩) cmpl
    have real : noted.q.cmplRing.realCount = s.q.cmplRing.realCount := congrArg RxRing.realCount ring
    have clean : noted.q.cmplRing.nextToClean = s.q.cmplRing.nextToClean := congrArg RxRing.nextToClean ring
    refine ⟨moved.1.trans (congrArg RxRing.count ring), moved.2.trans ?_⟩
    rw [if_pos rfl, ← real, ← clean]
    rfl

theorem fatedRound_turned {s s' : PfRxPoll} {k : Nat} {cmpl : C2hCmpl} {goesOn : Bool}
    (ran : Program.Exec (fatedRound t fates k cmpl) s goesOn s') :
    (goesOn = true ↔ ¬ (fates k).Breaks) ∧ RxTurned goesOn s s' := by
  have input : Nonempty PfRxInput := ⟨PfRxInput.granted.1⟩
  obtain ⟨pg, xdp, -, packet, -⟩ := onicRxRound_exec ran
  exact ⟨onicRxPacket_fated packet, onicRxRound_turned ran⟩

theorem cmplCleanAfter_succ {s s' : PfRxPoll} (turned : RxTurned true s s') (k : Nat) :
    s.q.cmplCleanAfter (k + 1) = s'.q.cmplCleanAfter k := by
  have real : s'.q.cmplRing.realCount = s.q.cmplRing.realCount := by rw [RxRing.realCount, turned.count]; rfl
  rw [RxQueue.cmplCleanAfter, RxQueue.cmplCleanAfter, real, turned.clean, if_pos rfl]
  rfl

/-- How the loop can end: out of budget, with it used up; otherwise where the poll settles, or not. -/
theorem onicRxLoopOf_settles {s s' : PfRxPoll} {left work : Nat} {cmpl : C2hCmpl} {r : Nat × Bool}
    (ran : Program.Exec (onicRxLoopOf (fatedRound t fates) pidx left cmpl work) s r s') :
    (r.2 = true → r.1 = work + left + 1) ∧ (r.2 = false → r.1 < work + left + 1) ∧
      ((r.2 = false ∧ (s'.q.cmplRing.nextToClean = pidx ∨ s'.q.cmplRing.nextToClean = 0)) ↔
        PollSettles (fun k => fates (work + k)) s.q.cmplCleanAfter pidx (left + 1)) := by
  have input : Nonempty PfRxInput := ⟨PfRxInput.granted.1⟩
  have drained {s : PfRxPoll} (work left : Nat) (last : s.q.cmplRing.nextToClean = pidx) :
      PollSettles (fun k => fates (work + k)) s.q.cmplCleanAfter pidx (left + 1) := pollSettles_here last
  induction left generalizing work s cmpl with
  | zero =>
    rw [onicRxLoopOf, Program.exec_bind] at ran
    obtain ⟨clean, _, looked, ran⟩ := ran
    rcases Program.exec_read.mp looked with ⟨rfl, same⟩
    rw [same] at ran
    by_cases last : s.q.cmplRing.nextToClean = pidx
    · rw [if_pos last] at ran
      rcases Program.exec_done.mp ran with ⟨rfl, rfl⟩
      simp [last, drained work 0 last]
    · rw [if_neg last, Program.exec_bind] at ran
      obtain ⟨goesOn, mid, round, ran⟩ := ran
      have turned := fatedRound_turned round
      cases goesOn with
      | true =>
        rcases Program.exec_done.mp ran with ⟨rfl, rfl⟩
        have never : ¬ PollSettles (fun k => fates (work + k)) s.q.cmplCleanAfter pidx (0 + 1) := by
          rw [pollSettles_next last (turned.1.mp rfl)]
          exact not_pollSettles_zero
        simp [never]
      | false =>
        rcases Program.exec_done.mp ran with ⟨rfl, rfl⟩
        have breaks : (fates (work + 0)).Breaks := by simpa using turned.1
        rw [pollSettles_breaks last breaks, turned.2.clean]
        simp [last, RxQueue.cmplCleanAfter]
  | succ left ih =>
    rw [onicRxLoopOf, Program.exec_bind] at ran
    obtain ⟨clean, _, looked, ran⟩ := ran
    rcases Program.exec_read.mp looked with ⟨rfl, same⟩
    rw [same] at ran
    by_cases last : s.q.cmplRing.nextToClean = pidx
    · rw [if_pos last] at ran
      rcases Program.exec_done.mp ran with ⟨rfl, rfl⟩
      have small : work < work + (left + 1) + 1 := by omega
      exact ⟨nofun, fun _ => small, fun _ => drained work (left + 1) last, fun _ => ⟨rfl, Or.inl last⟩⟩
    · rw [if_neg last, Program.exec_bind] at ran
      obtain ⟨goesOn, mid, round, ran⟩ := ran
      have turned := fatedRound_turned round
      cases goesOn with
      | true =>
        rw [if_pos rfl, Program.exec_bind] at ran
        obtain ⟨next, _, looked, ran⟩ := ran
        rcases Program.exec_read.mp looked with ⟨rfl, same⟩
        rw [same] at ran
        have rest := ih ran
        rw [pollSettles_next last (turned.1.mp rfl)]
        simp only [cmplCleanAfter_succ turned.2, ← Nat.add_assoc, Nat.add_right_comm work _ 1]
        exact rest
      | false =>
        rcases Program.exec_done.mp ran with ⟨rfl, rfl⟩
        have breaks : (fates (work + 0)).Breaks := by simpa using turned.1
        rw [pollSettles_breaks last breaks, turned.2.clean]
        have small : work < work + (left + 1) + 1 := by omega
        simp [last, small, RxQueue.cmplCleanAfter]

theorem completeAndArm_calls (work : Nat) (s : PfNapiPoll) : (s.completeAndArm work).calls =
    s.calls ++ [.completeDone work, .completionTail s.rx.q.cmplRing.nextToClean true] :=
  List.append_assoc ..

theorem onicRxPollEnd_exec {s s' : PfNapiPoll} {work : Nat} {u : Unit}
    (ran : Program.Exec (onicRxPollEnd pidx work) s u s') :
    s' = if s.rx.q.cmplRing.nextToClean = pidx ∨ s.rx.q.cmplRing.nextToClean = 0 then s.completeAndArm work else s := by
  have input : Nonempty PfRxInput := ⟨PfRxInput.granted.1⟩
  obtain ⟨clean, _, looked, ran⟩ := Program.exec_bind.mp ran
  rcases Program.exec_read.mp looked with ⟨rfl, same⟩
  rw [same] at ran
  by_cases last : s.rx.q.cmplRing.nextToClean = pidx
  · rw [if_pos last] at ran
    rw [if_pos (.inl last)]
    exact Program.exec_modify.mp ran
  · rw [if_neg last] at ran
    obtain ⟨clean, _, looked, ran⟩ := Program.exec_bind.mp ran
    rcases Program.exec_read.mp looked with ⟨rfl, same⟩
    rw [same] at ran
    by_cases start : s.rx.q.cmplRing.nextToClean = 0
    · rw [if_pos start] at ran
      rw [if_pos (.inr start)]
      exact Program.exec_modify.mp ran
    · rw [if_neg start] at ran
      rw [if_neg (not_or.mpr ⟨last, start⟩)]
      exact (Program.exec_done.mp ran).2

/-- Where the calls are forgotten, this is the poll. -/
theorem onicRxPollCalls_poll {s s' : PfNapiPoll} {r : Nat}
    (ran : Program.Exec (onicRxPollCalls (fun _ => onicRxRound t) budget) s r s') :
    Program.Exec (onicRxPoll t budget) s.rx r s'.rx := by
  have input : Nonempty PfRxInput := ⟨PfRxInput.granted.1⟩
  obtain ⟨cmpl, _, read, ran⟩ := Program.exec_bind.mp ran
  obtain ⟨pidx, mid, looked, ran⟩ := Program.exec_bind.mp ran
  obtain ⟨⟨work, outOfBudget⟩, last, loop, ran⟩ := Program.exec_bind.mp ran
  obtain ⟨rfl, rfl⟩ := Program.exec_read.mp looked
  have loop := ((Program.exec_lift PfNapiPoll.rx_lens).mp loop).1
  rw [← onicRxLoop_eq] at loop
  refine ((Program.exec_lift PfNapiPoll.rx_lens).mp read).1.bind ((Program.exec_read.mpr ⟨rfl, rfl⟩).bind (loop.bind ?_))
  cases outOfBudget with
  | true =>
    obtain ⟨_, _, called, ran⟩ := Program.exec_bind.mp ran
    obtain rfl := Program.exec_modify.mp called
    obtain ⟨_, _, called, ran⟩ := Program.exec_bind.mp ran
    obtain rfl := Program.exec_modify.mp called
    obtain ⟨rfl, rfl⟩ := Program.exec_done.mp ran
    exact .done _ _
  | false =>
    obtain ⟨_, after, ending, ran⟩ := Program.exec_bind.mp ran
    obtain ⟨rfl, rfl⟩ := Program.exec_done.mp ran
    refine (Program.exec_modify (u := ()).mpr ?_).bind (.done _ _)
    rw [onicRxPollEnd_exec ending]
    split <;> rfl

theorem pf_rx_napi_iff {r : Nat} {rx : PfRxPoll} {s' : PfNapiPoll} (some : 1 ≤ budget)
    (ran : Program.Exec (onicRxPollCalls (fatedRound t fates) budget) ⟨rx, []⟩ r s') :
    NapiContract budget r s'.calls ↔
      PollSettles fates rx.q.cmplCleanAfter (qdmaUnpackC2hCmplStatPidx rx.q.cmplRing.wb) budget := by
  have input : Nonempty PfRxInput := ⟨PfRxInput.granted.1⟩
  obtain ⟨cmpl, first, read, ran⟩ := Program.exec_bind.mp ran
  obtain ⟨pidx, _, looked, ran⟩ := Program.exec_bind.mp ran
  obtain ⟨⟨work, outOfBudget⟩, last, loop, ran⟩ := Program.exec_bind.mp ran
  rw [Program.exec_lift PfNapiPoll.rx_lens] at read
  obtain rfl : first = ⟨rx, []⟩ := read.2.trans (by rw [(Program.exec_read.mp read.1).2]; rfl)
  rcases Program.exec_read.mp looked with ⟨rfl, rfl⟩
  obtain ⟨loop, frame⟩ := (Program.exec_lift PfNapiPoll.rx_lens).mp loop
  obtain ⟨used, unused, settles⟩ := onicRxLoopOf_settles loop
  have silent : last.calls = [] := congrArg PfNapiPoll.calls frame
  simp only [Nat.zero_add, Nat.sub_add_cancel some] at used unused settles
  rw [← settles]
  cases outOfBudget with
  | true =>
    obtain ⟨_, _, called, ran⟩ := Program.exec_bind.mp ran
    obtain rfl := Program.exec_modify.mp called
    obtain ⟨_, _, called, ran⟩ := Program.exec_bind.mp ran
    obtain rfl := Program.exec_modify.mp called
    obtain ⟨rfl, rfl⟩ := Program.exec_done.mp ran
    simp [NapiContract, PfNapiPoll.call, silent, used rfl, NapiCall.completes]
  | false =>
    have less := unused rfl
    obtain ⟨_, after, ending, ran⟩ := Program.exec_bind.mp ran
    obtain ⟨rfl, rfl⟩ := Program.exec_done.mp ran
    rw [onicRxPollEnd_exec ending]
    split
    · rename_i reached
      have calls : (last.completeAndArm r).calls = [.completeDone r, .completionTail last.rx.q.cmplRing.nextToClean true] := by
        rw [completeAndArm_calls, silent, List.nil_append]
      rw [calls]
      exact ⟨fun _ => ⟨rfl, reached⟩, fun _ => .inr ⟨less, rfl, rfl⟩⟩
    · rename_i missed
      rw [silent]
      constructor
      · rintro (⟨same, -⟩ | ⟨-, once, -⟩)
        · exact absurd same (Nat.ne_of_lt less)
        · exact absurd once (by decide)
      · exact fun here => absurd here.2 missed

end

/-- Two packets are completed, on either side of the wrap. -/
def napiAcrossWrap : PfNapiPoll :=
  ⟨⟨rxAcrossWrap, ⟨false, TxQueue.initial 4096, [], [], [], 0, 0, 0, 0, 0, 0⟩⟩, []⟩

theorem pf_rx_napi_iff_drained : ∃ s',
    Program.Exec (onicRxPollCalls (fatedRound 0 fun _ => ⟨none, true⟩) 64) napiAcrossWrap 2 s' ∧
      NapiContract 64 2 s'.calls := by
  have ran : ∃ s', Program.Exec (onicRxPollCalls (fatedRound 0 fun _ => ⟨none, true⟩) 64) napiAcrossWrap 2 s' :=
    ⟨_, .of_eval (i := PfRxInput.granted.1) rfl⟩
  obtain ⟨s', ran⟩ := ran
  refine ⟨s', ran, (pf_rx_napi_iff (by decide) ran).mpr ⟨2, by decide, fun j small => ?_, .inl (by decide)⟩⟩
  match j, small with
  | 0, _ => decide
  | 1, _ => decide

/-- A poll that has used its budget up completes NAPI and returns the budget all the same; one
    that gets no skb in the middle of the ring neither completes nor arms. -/
theorem pf_rx_poll_breaks_napi_contract :
    (∃ s', Program.Exec (onicRxPollCalls (fatedRound 0 fun _ => ⟨none, true⟩) 1) napiAcrossWrap 1 s' ∧
      s'.calls = [.complete, .schedule] ∧ ¬ NapiContract 1 1 s'.calls) ∧
    ∃ s', Program.Exec (onicRxPollCalls (fatedRound 0 fun _ => ⟨none, false⟩) 64) napiAcrossWrap 0 s' ∧
      s'.calls = [] ∧ ¬ NapiContract 64 0 s'.calls :=
  ⟨⟨_, .of_eval (i := PfRxInput.granted.1) rfl, rfl, by decide⟩,
    _, .of_eval (i := PfRxInput.granted.1) rfl, rfl, by decide⟩

end OpenNic
