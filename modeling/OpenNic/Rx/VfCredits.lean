import OpenNic.Rx.PfCredits

namespace OpenNic

/-- A VF's receive queue before its pages are allocated, with a descriptor ring of any count. -/
def RxQueue.zeroedOf (count : Nat) : RxQueue := { RxQueue.zeroed with descRing := ⟨count, fun _ => 0, 0, 0, 0⟩ }

theorem RxQueue.zeroed_eq : RxQueue.zeroed = RxQueue.zeroedOf onicVfRxRingCount := rfl

/-- `onic_vf_rx_datapath_init` of one queue, with its guard; `none` stands for `-EINVAL`. -/
def RxQueue.datapathStart (q : RxQueue) : Option RxQueue :=
  if onicVfRxDescStep ≥ q.descRing.realCount then none else some q.datapathInit

/-- A queue with a descriptor ring of `R` usable slots that has passed the guard. -/
def VfRxStarted (R : Nat) (q : RxQueue) : Prop :=
  ∃ filled, Program.Exec (onicVfFillRxPages 0 R) (.zeroedOf (R + 1)) true filled ∧
    filled.initCmplRing.datapathStart = some q

/-- The hardware writes completions; the status tells of no more of them than descriptors were
    published. -/
inductive VfRxCompletes (q : RxQueue) : RxQueue → Prop
  | write (desc : Nat → BitVec 64)
      (published : q.given.length + ({ q with cmplRing := { q.cmplRing with desc := desc } } : RxQueue).pending ≤ q.told) :
      VfRxCompletes q { q with cmplRing := { q.cmplRing with desc := desc } }

def vfRxPollRules : Pool.Rules Unit RxQueue RxInput where
  calls _ _ p := ∃ budget, p = do
    let _ ← onicVfRxPoll budget
    .done ()
  env := VfRxCompletes

/-- What is published and not consumed lies between the indices, and no slot is published again before
    it has been consumed. -/
structure VfRxExact (R : Nat) (q : RxQueue) : Prop where
  outstanding : q.told = q.given.length + Cyclic.dist R q.descRing.nextToClean q.descRing.nextToUse
  room : q.told ≤ q.given.length + (R - 1)
  once : ∀ k k', k < k' → k' < q.told → k % R = k' % R → k < q.given.length

/-- At every access of a poll. -/
structure VfRxCredited (R : Nat) (q : RxQueue) : Prop where
  descCount : q.descRing.count = R + 1
  credits : Cyclic.Credits R q.rung q.descRing.nextToUse q.descRing.nextToClean q.given.length
  high : Cyclic.dist R q.descRing.nextToClean q.descRing.nextToUse < onicVfRxDescStep / 2 + onicVfRxDescStep

/-- The credits that are out, and are not to fall below `low`. -/
def CreditsLeft (R low : Nat) (q : RxQueue) : Prop :=
  low ≤ Cyclic.dist R q.descRing.nextToClean q.descRing.nextToUse

section

variable {R : Nat} {q q' : RxQueue}

theorem VfRxCredited.real (credited : VfRxCredited R q) : q.descRing.realCount = R := by
  rw [RxRing.realCount, credited.descCount, Nat.add_sub_cancel]

theorem VfRxCredited.exact (credited : VfRxCredited R q) : VfRxExact R q := by
  have credits := credited.credits
  have all := credits.outstanding
  have near : Cyclic.dist R q.descRing.nextToClean q.descRing.nextToUse < R := Nat.mod_lt _ credits.pos
  have told : q.told = Cyclic.told R 0 q.rung := by rw [RxQueue.told, credited.real]
  refine ⟨told.trans all, by omega, fun k k' later within same => ?_⟩
  rw [told] at within
  exact credits.once later within same

theorem VfRxCredited.of_same (credited : VfRxCredited R q) (desc : q'.descRing = q.descRing) (given : q'.given = q.given)
    (rung : q'.rung = q.rung) : VfRxCredited R q' where
  descCount := by
    rw [desc]
    exact credited.descCount
  credits := by
    rw [desc, given, rung]
    exact credited.credits
  high := by
    rw [desc]
    exact credited.high

/-- The packet's slot is taken back. -/
theorem VfRxCredited.deliver (credited : VfRxCredited R q) (small : R < 65536) (some : CreditsLeft R 1 q) (len : Nat)
    (newPg : RxPage) : VfRxCredited R (q.deliver len newPg) ∧
      Cyclic.dist R (q.deliver len newPg).descRing.nextToClean (q.deliver len newPg).descRing.nextToUse + 1 =
        Cyclic.dist R q.descRing.nextToClean q.descRing.nextToUse := by
  have clean := credited.credits.clean_lt
  have ring : (q.deliver len newPg).descRing = { q.descRing.setDesc q.descRing.nextToClean newPg.dstAddr with
      nextToClean := (q.descRing.nextToClean + 1) % R } := by
    have real : (q.descRing.setDesc q.descRing.nextToClean newPg.dstAddr).realCount = R := credited.real
    exact clean_eq real small clean
  have given : (q.deliver len newPg).given.length = q.given.length + 1 := List.length_append
  have fewer := credited.credits.dist_receive some
  have high := credited.high
  refine ⟨⟨?_, ?_, ?_⟩, ?_⟩
  · rw [ring]
    exact credited.descCount
  · rw [ring, given]
    exact credited.credits.receive some
  · rw [ring]
    have near : Cyclic.dist R ((q.descRing.nextToClean + 1) % R) q.descRing.nextToUse <
        onicVfRxDescStep / 2 + onicVfRxDescStep := by omega
    exact near
  · rw [ring]
    exact fewer

/-- The refill, where the ring is large enough for what may be out before it. -/
theorem VfRxCredited.refill (credited : VfRxCredited R q) (small : R < 65536)
    (room : onicVfRxDescStep / 2 + onicVfRxDescStep ≤ R) :
    VfRxCredited R q.refillCredit ∧ CreditsLeft R (onicVfRxDescStep / 2) q.refillCredit := by
  have clean := credited.credits.clean_lt
  have same : onicRxDescStep = onicVfRxDescStep := rfl
  rw [refillCredit_eq credited.real clean small, RxQueue.credit, same]
  split
  · rename_i low
    have fits : Cyclic.dist R q.descRing.nextToClean q.descRing.nextToUse + onicVfRxDescStep < R := by omega
    have more := credited.credits.dist_refill fits
    refine ⟨⟨credited.descCount, credited.credits.refill fits, ?_⟩, ?_⟩
    · exact more ▸ Nat.add_lt_add_right low onicVfRxDescStep
    · rw [CreditsLeft, RxQueue.setRxHead, more]
      exact (show onicVfRxDescStep / 2 ≤ onicVfRxDescStep by decide).trans (Nat.le_add_left _ _)
  · rename_i enough
    exact ⟨credited, Nat.not_lt.mp enough⟩

/-- The poll alone on its queue, with the hardware beside it. -/
def vfRxContract (R : Nat) : Contract RxQueue where
  ok _ := True
  inv := VfRxCredited R
  rely q q' := q'.descRing = q.descRing
  guarantee _ _ := True
  rely_refl _ := rfl
  rely_trans h h' := h'.trans h
  guarantee_refl _ := trivial

theorem stable_left (low : Nat) : (vfRxContract R).Stable (CreditsLeft R low) := by
  intro q q' left between _ _
  have same : q'.descRing = q.descRing := between
  rw [CreditsLeft, same]
  exact left

/-- Accesses that neither the descriptor ring nor the doorbell is touched by. -/
theorem vf_rx_aside {α : Type} {act : RxInput → RxQueue → Option (α × RxQueue)} {low : Nat}
    (same : ∀ i q a q', act i q = some (a, q') → q'.descRing = q.descRing ∧ q'.given = q.given ∧ q'.rung = q.rung) :
    (vfRxContract R).Triple (CreditsLeft R low) (.access act) fun _ => CreditsLeft R low := by
  apply Contract.Triple.access (stable_left low) fun _ => stable_left low
  intro q i a q' _ credited left taken _
  rcases same i q a q' taken with ⟨desc, given, rung⟩
  refine ⟨VfRxCredited.of_same credited desc given rung, trivial, ?_⟩
  rw [CreditsLeft, desc]
  exact left

theorem onicVfRxLoop_credits (small : R < 65536) (room : onicVfRxDescStep / 2 + onicVfRxDescStep ≤ R) (pidx left work : Nat) :
    (vfRxContract R).Triple (CreditsLeft R (onicVfRxDescStep / 2)) (onicVfRxLoop pidx left work)
      fun _ => CreditsLeft R (onicVfRxDescStep / 2) := by
  have look {α : Type} (f : RxQueue → α) : (vfRxContract R).Triple (CreditsLeft R (onicVfRxDescStep / 2))
      (.read f : Program RxQueue RxInput α) fun _ => CreditsLeft R (onicVfRxDescStep / 2) :=
    vf_rx_aside fun _ q _ q' taken => by
      cases taken
      exact ⟨rfl, rfl, rfl⟩
  have finish (work : Nat) : (vfRxContract R).Triple (CreditsLeft R (onicVfRxDescStep / 2))
      (.done work : Program RxQueue RxInput Nat) fun _ => CreditsLeft R (onicVfRxDescStep / 2) :=
    .done (stable_left _) fun _ _ left => left
  induction left generalizing work with
  | zero => exact finish work
  | succ left ih =>
    apply Contract.Triple.bind (look _)
    intro clean
    split
    · exact finish work
    · apply Contract.Triple.bind (look _)
      intro cmpl
      apply Contract.Triple.bind (look _)
      intro invalid
      split
      · exact finish work
      · apply Contract.Triple.bind (vf_rx_aside ?_)
        · intro page
          cases page with
          | none => exact finish work
          | some newPg =>
            apply Contract.Triple.bind (vf_rx_aside ?_)
            · intro built
              split
              · apply Contract.Triple.bind (Contract.Triple.modify (stable_left _) (stable_left 0) ?_)
                · intro _
                  apply Contract.Triple.bind (Contract.Triple.modify (stable_left 0) (stable_left _) ?_)
                  · exact fun _ => ih (work + 1)
                  · intro q _ credited _ _
                    have refilled := VfRxCredited.refill credited small room
                    exact ⟨refilled.1, trivial, refilled.2⟩
                · intro q _ credited left _
                  have one : CreditsLeft R 1 q := (show 1 ≤ onicVfRxDescStep / 2 by decide).trans left
                  exact ⟨(VfRxCredited.deliver credited small one cmpl.pktLen newPg).1, trivial, Nat.zero_le _⟩
              · exact .bind (Contract.Triple.modify (stable_left _) (stable_left _) fun q _ credited left _ =>
                  ⟨VfRxCredited.of_same credited rfl rfl rfl, trivial, left⟩) fun _ => finish work
            · intro _ q _ q' taken
              cases taken
              exact ⟨rfl, rfl, rfl⟩
        · intro i q page q' taken
          cases given : i.page with
          | none =>
            rw [given] at taken
            cases taken
            exact ⟨rfl, rfl, rfl⟩
          | some dma =>
            rw [given] at taken
            cases taken
            exact ⟨rfl, rfl, rfl⟩

theorem onicVfRxPoll_credits (small : R < 65536) (room : onicVfRxDescStep / 2 + onicVfRxDescStep ≤ R) (budget : Nat) :
    (vfRxContract R).Triple (CreditsLeft R (onicVfRxDescStep / 2)) (onicVfRxPoll budget)
      fun _ => CreditsLeft R (onicVfRxDescStep / 2) := by
  have finish (work : Nat) : (vfRxContract R).Triple (CreditsLeft R (onicVfRxDescStep / 2))
      (.done work : Program RxQueue RxInput Nat) fun _ => CreditsLeft R (onicVfRxDescStep / 2) :=
    .done (stable_left _) fun _ _ left => left
  have tail (arm : Bool) : (vfRxContract R).Triple (CreditsLeft R (onicVfRxDescStep / 2)) (onicVfSetCompletionTail arm)
      fun _ => CreditsLeft R (onicVfRxDescStep / 2) :=
    vf_rx_aside fun _ q _ q' taken => by
      cases taken
      exact ⟨rfl, rfl, rfl⟩
  apply Contract.Triple.bind (vf_rx_aside fun _ q _ q' taken => by
    cases taken
    exact ⟨rfl, rfl, rfl⟩)
  intro pidx
  apply Contract.Triple.bind (onicVfRxLoop_credits small room pidx budget 0)
  intro work
  split
  · apply Contract.Triple.bind (vf_rx_aside fun _ q _ q' taken => by
      cases taken
      exact ⟨rfl, rfl, rfl⟩)
    exact fun complete => .bind (tail complete) fun _ => finish work
  · exact .bind (tail false) fun _ => finish work

theorem vfRxPollRules_fit (small : R < 65536) (room : onicVfRxDescStep / 2 + onicVfRxDescStep ≤ R) :
    Pool.Fits vfRxPollRules (fun _ => True) (VfRxCredited R) (fun _ => vfRxContract R)
      fun _ => CreditsLeft R (onicVfRxDescStep / 2) where
  same_ok _ := rfl
  same_inv _ := rfl
  threads t u other := absurd rfl other
  env q q' _ _ credited happens := by
    cases happens with
    | write desc published => exact ⟨credited.of_same rfl rfl rfl, fun _ => rfl⟩
  calls t q p call _ credited left := by
    obtain ⟨budget, rfl⟩ := call
    have whole : (vfRxContract R).Triple (CreditsLeft R (onicVfRxDescStep / 2)) (do
        let _ ← onicVfRxPoll budget
        .done () : Program RxQueue RxInput Unit) fun _ => CreditsLeft R (onicVfRxDescStep / 2) :=
      .bind (onicVfRxPoll_credits small room budget) fun _ => .done (stable_left _) fun _ _ left => left
    exact whole q trivial credited left

/-- Filling the slots leaves the indices and the doorbell as they are. -/
structure SlotsOnly (q q' : RxQueue) : Prop where
  rings : RingsKept q q'
  use : q'.descRing.nextToUse = q.descRing.nextToUse
  given : q'.given = q.given

theorem SlotsOnly.refl (q : RxQueue) : SlotsOnly q q := ⟨.refl q, rfl, rfl⟩

theorem SlotsOnly.trans (a b c : RxQueue) (h : SlotsOnly a b) (h' : SlotsOnly b c) : SlotsOnly a c :=
  ⟨.trans a b c h.rings h'.rings, h'.use.trans h.use, h'.given.trans h.given⟩

theorem onicVfFillRxPages_slots (i left : Nat) : (onicVfFillRxPages i left).Steps SlotsOnly := by
  induction left generalizing i with
  | zero => trivial
  | succ left ih =>
    apply Program.Steps.bind (.access ?_)
    · intro filled
      split
      · exact ih (i + 1)
      · trivial
    · intro input q filled q' taken
      cases page : input.page with
      | none =>
        rw [page] at taken
        cases taken
        exact .refl q
      | some dma =>
        rw [page] at taken
        cases taken
        exact ⟨⟨rfl, rfl, rfl⟩, rfl, rfl⟩

/-- A queue that has just been started: one step of descriptors is published. -/
structure VfRxFresh (R : Nat) (q : RxQueue) : Prop where
  descCount : q.descRing.count = R + 1
  use : q.descRing.nextToUse = onicVfRxDescStep
  clean : q.descRing.nextToClean = 0
  rung : q.rung = [onicVfRxDescStep]
  given : q.given = []
  cmplRing : q.cmplRing = ⟨onicVfCmplRingCount, fun _ => 0, 0, 0, 1⟩

theorem VfRxStarted.fresh (started : VfRxStarted R q) : VfRxFresh R q ∧ onicVfRxDescStep < R := by
  obtain ⟨filled, fill, start⟩ := started
  have kept := (onicVfFillRxPages_slots 0 R).exec SlotsOnly.refl SlotsOnly.trans fill
  have real : filled.initCmplRing.descRing.realCount = R := by
    rw [RxRing.realCount, RxQueue.initCmplRing, kept.rings.count]
    exact Nat.add_sub_cancel ..
  rw [RxQueue.datapathStart, real] at start
  split at start
  · cases start
  · rename_i passed
    cases start
    have rung : filled.rung = [] := kept.rings.rung
    refine ⟨⟨kept.rings.count, rfl, kept.rings.clean, ?_, kept.given, rfl⟩, Nat.not_le.mp passed⟩
    simp [RxQueue.datapathInit, RxQueue.setRxHead, RxQueue.initCmplRing, rung]

theorem VfRxFresh.credited (fresh : VfRxFresh R q) (guard : onicVfRxDescStep < R) :
    VfRxCredited R q ∧ Cyclic.dist R q.descRing.nextToClean q.descRing.nextToUse = onicVfRxDescStep := by
  have fits : Cyclic.dist R 0 0 + onicVfRxDescStep < R := by rwa [Cyclic.dist_self, Nat.zero_add]
  have start := Cyclic.Credits.start (R := R) (by omega)
  have credits := start.refill fits
  have far := start.dist_refill fits
  rw [Nat.zero_add, Nat.mod_eq_of_lt guard] at credits far
  rw [Cyclic.dist_self, Nat.zero_add] at far
  refine ⟨⟨fresh.descCount, ?_, ?_⟩, ?_⟩
  · rw [fresh.rung, fresh.use, fresh.clean, fresh.given]
    exact credits
  · rw [fresh.use, fresh.clean, far]
    decide
  · rw [fresh.use, fresh.clean, far]

/-- The pool always has a page and an skb is always built. -/
def RxInput.plenty : RxInput := ⟨some 0, true, true⟩

/-- All slots from `i` on can be filled. -/
theorem onicVfFillRxPages_fills (i left : Nat) (q : RxQueue) : ∃ q', Program.Exec (onicVfFillRxPages i left) q true q' ∧
    (∀ j, j < i → q'.buffer j = q.buffer j) ∧ ∀ j, i ≤ j → j < i + left → (q'.buffer j).offset = xdpPacketHeadroom := by
  induction left generalizing i q with
  | zero => exact ⟨q, .done true q, fun _ _ => rfl, fun j low high => absurd high (Nat.not_lt.mpr low)⟩
  | succ left ih =>
    obtain ⟨q', rest, before, after⟩ := ih (i + 1) { q.fillSlot i ⟨q.taken, 0⟩ with taken := q.taken + 1 }
    refine ⟨q', ?_, fun j less => ?_, fun j low high => ?_⟩
    · exact Program.Exec.bind (a := true) (Program.exec_access.mpr ⟨.plenty, rfl⟩) rest
    · rw [before j (by omega)]
      exact Function.update_of_ne (by omega) _ _
    · by_cases here : j = i
      · rw [here, before i (Nat.lt_succ_self i)]
        simp [RxQueue.fillSlot]
      · exact after j (by omega) (by omega)

/-- `k` packets of the first half step have been received and none is refilled. -/
structure AfterPackets (R k : Nat) (desc : Nat → BitVec 64) (q : RxQueue) : Prop where
  descCount : q.descRing.count = R + 1
  use : q.descRing.nextToUse = onicVfRxDescStep
  clean : q.descRing.nextToClean = k
  rung : q.rung = [onicVfRxDescStep]
  given : q.given.length = k
  cmplRing : q.cmplRing = ⟨onicVfCmplRingCount, desc, 0, k, 1⟩
  offsets : ∀ j, j < R → (q.buffer j).offset = xdpPacketHeadroom

/-- Completions of 64 bytes, of which the status tells `n`. -/
def filledCmpls (n : BitVec 64) (i : Nat) : BitVec 64 := if i = onicVfCmplRingCount - 1 then n else 0x4000000002

theorem onicVfRxLoop_step {pidx left work r : Nat} {q' : RxQueue} (more : q.cmplRing.nextToClean ≠ pidx)
    (valid : ¬ (qdmaUnpackC2hCmpl (q.cmplRing.desc q.cmplRing.nextToClean)).Invalid q.cmplRing.color
      (q.buffer q.descRing.nextToClean))
    (rest : Program.Exec (onicVfRxLoop pidx left (work + 1))
      (({ q with taken := q.taken + 1 } : RxQueue).deliver
        (qdmaUnpackC2hCmpl (q.cmplRing.desc q.cmplRing.nextToClean)).pktLen ⟨q.taken, 0⟩).refillCredit r q') :
    Program.Exec (onicVfRxLoop pidx (left + 1) work) q r q' := by
  have input : Nonempty RxInput := ⟨.plenty⟩
  rw [onicVfRxLoop]
  refine (Program.exec_read.mpr ⟨rfl, rfl⟩).bind ?_
  rw [if_neg more]
  refine (Program.exec_read.mpr ⟨rfl, rfl⟩).bind ?_
  refine (Program.exec_read.mpr ⟨rfl, rfl⟩).bind ?_
  rw [if_neg (by simpa using valid)]
  refine Program.Exec.bind (a := some ⟨q.taken, 0⟩) (Program.exec_access.mpr ⟨.plenty, rfl⟩) ?_
  refine Program.Exec.bind (a := true) (Program.exec_access.mpr ⟨.plenty, rfl⟩) ?_
  rw [if_pos rfl]
  refine Program.Exec.bind (a := ()) (Program.exec_modify.mpr rfl) ?_
  exact Program.Exec.bind (a := ()) (Program.exec_modify.mpr rfl) rest

/-- What the next packet makes of the queue, before the refill. -/
theorem AfterPackets.deliver {k : Nat} {desc : Nat → BitVec 64} (after : AfterPackets R k desc q) (inside : k + 1 < R)
    (early : k < 1000) (len : Nat) (newPg : RxPage) (taken : Nat) :
    AfterPackets R (k + 1) desc (({ q with taken := taken } : RxQueue).deliver len newPg) := by
  have fits : (k + 1) % 65536 = k + 1 := Nat.mod_eq_of_lt (by omega)
  have real : q.descRing.realCount = R := by rw [RxRing.realCount, after.descCount, Nat.add_sub_cancel]
  have cmplReal : onicVfCmplRingCount - 1 = 1023 := rfl
  constructor
  case given =>
    rw [← after.given]
    exact List.length_append
  case descCount => exact after.descCount
  case use => exact after.use
  case rung => exact after.rung
  case clean =>
    have next : (onicVfRingIncrementCleanRx (q.descRing.setDesc q.descRing.nextToClean newPg.dstAddr)).nextToClean = k + 1 := by
      simp only [onicVfRingIncrementCleanRx, RxRing.setDesc, after.clean, fits]
      exact if_neg fun last => by
        have same : k + 1 = q.descRing.realCount := last
        omega
    exact next
  case cmplRing =>
    have next : onicVfRingIncrementCleanRx q.cmplRing = ⟨onicVfCmplRingCount, desc, 0, k + 1, 1⟩ := by
      rw [onicVfRingIncrementCleanRx, after.cmplRing]
      simp only [fits, RxRing.realCount, cmplReal]
      rw [if_neg (by omega)]
    simp only [RxQueue.deliver, next]
    exact if_neg (Nat.succ_ne_zero k)
  case offsets =>
    intro j less
    simp only [RxQueue.deliver, Function.update_apply]
    split
    · rfl
    · exact after.offsets j less

theorem AfterPackets.unused {k : Nat} {desc : Nat → BitVec 64} (after : AfterPackets R k desc q) (guard : onicVfRxDescStep < R)
    (small : R < 65536) (early : k ≤ onicVfRxDescStep) : q.unused = onicVfRxDescStep - k := by
  have real : q.descRing.realCount = R := by rw [RxRing.realCount, after.descCount, Nat.add_sub_cancel]
  have lap : onicVfRxDescStep + R - k = onicVfRxDescStep - k + R := by omega
  rw [RxQueue.unused, real, after.use, after.clean, lap, Nat.add_mod_right,
    Nat.mod_eq_of_lt (show onicVfRxDescStep - k < R by omega), Nat.mod_eq_of_lt (by omega)]

theorem filledCmpls_valid {n : BitVec 64} {i : Nat} (early : i < 1000) :
    qdmaUnpackC2hCmpl (filledCmpls n i) = ⟨1, 0, 64⟩ := by
  have other : i ≠ onicVfCmplRingCount - 1 := by
    have last : onicVfCmplRingCount - 1 = 1023 := rfl
    omega
  rw [filledCmpls, if_neg other]
  decide

/-- The poll receives the first 129 packets; the induction is on how many are left. -/
theorem onicVfRxLoop_receives {k : Nat} (left work : Nat) (guard : onicVfRxDescStep < R) (small : R < 65536) (whole : k + left = 129)
    (after : AfterPackets R k (filledCmpls 129) q) (some : 0 < left) :
    ∃ q', Program.Exec (onicVfRxLoop 129 left work) q (work + left) q' ∧ q'.descRing.count = R + 1 ∧
      q'.given.length = 129 ∧ q'.rung = [onicVfRxDescStep, (onicVfRxDescStep + onicVfRxDescStep) % R] := by
  have step : onicVfRxDescStep = 256 := rfl
  induction left generalizing q work k with
  | zero => exact absurd some (Nat.lt_irrefl 0)
  | succ left ih =>
    have clean : q.cmplRing.nextToClean = k := by rw [after.cmplRing]
    have cmpl : qdmaUnpackC2hCmpl (q.cmplRing.desc q.cmplRing.nextToClean) = ⟨1, 0, 64⟩ := by
      rw [clean, after.cmplRing]
      exact filledCmpls_valid (by omega)
    have valid : ¬ (qdmaUnpackC2hCmpl (q.cmplRing.desc q.cmplRing.nextToClean)).Invalid q.cmplRing.color
        (q.buffer q.descRing.nextToClean) := by
      rw [cmpl, C2hCmpl.Invalid, after.cmplRing, after.clean, after.offsets k (by omega)]
      dsimp only
      decide
    have delivered := after.deliver (by omega) (by omega) 64 ⟨q.taken, 0⟩ (q.taken + 1)
    have unused := delivered.unused guard small (by omega)
    have count : work + 1 + left = work + (left + 1) := by omega
    by_cases last : left = 0
    · subst last
      have low : ¬ onicVfRxDescStep - (k + 1) ≥ onicVfRxDescStep / 2 := by omega
      have real : (({ q with taken := q.taken + 1 } : RxQueue).deliver 64 ⟨q.taken, 0⟩).descRing.realCount = R := by
        rw [RxRing.realCount, delivered.descCount, Nat.add_sub_cancel]
      refine ⟨(({ q with taken := q.taken + 1 } : RxQueue).deliver 64 ⟨q.taken, 0⟩).refillCredit,
        onicVfRxLoop_step (by omega) valid ?_, ?_⟩
      · rw [cmpl]
        exact .done _ _
      · rw [RxQueue.refillCredit, unused, if_neg low, real, delivered.use]
        refine ⟨delivered.descCount, delivered.given.trans (by omega), ?_⟩
        exact congrArg (· ++ [(onicVfRxDescStep + onicVfRxDescStep) % R]) delivered.rung
    · have enough : onicVfRxDescStep - (k + 1) ≥ onicVfRxDescStep / 2 := by omega
      have kept : (({ q with taken := q.taken + 1 } : RxQueue).deliver 64 ⟨q.taken, 0⟩).refillCredit =
          ({ q with taken := q.taken + 1 } : RxQueue).deliver 64 ⟨q.taken, 0⟩ := by
        rw [RxQueue.refillCredit, unused, if_pos enough]
      obtain ⟨q', rest, facts⟩ := ih (work + 1) (by omega) delivered (by omega)
      refine ⟨q', onicVfRxLoop_step (by omega) valid ?_, facts⟩
      rw [cmpl, kept, ← count]
      exact rest

/-- A ring that the guard lets through and that is smaller than one and a half steps gets more descriptors
    published than it has slots. -/
theorem vf_rx_overcommits (guard : onicVfRxDescStep < R) (few : R < onicVfRxDescStep / 2 + onicVfRxDescStep) :
    ∃ q P, VfRxStarted R q ∧ Pool.Reach vfRxPollRules (fun _ => True) (Pool.start q) P ∧ ¬ VfRxExact R P.state := by
  have input : Nonempty RxInput := ⟨.plenty⟩
  have step : onicVfRxDescStep = 256 := rfl
  obtain ⟨filled, fill, -, offsets⟩ := onicVfFillRxPages_fills 0 R (.zeroedOf (R + 1))
  have kept := (onicVfFillRxPages_slots 0 R).exec SlotsOnly.refl SlotsOnly.trans fill
  have real : filled.initCmplRing.descRing.realCount = R := by
    rw [RxRing.realCount, RxQueue.initCmplRing, kept.rings.count]
    exact Nat.add_sub_cancel ..
  have started : VfRxStarted R filled.initCmplRing.datapathInit := by
    refine ⟨filled, fill, ?_⟩
    rw [RxQueue.datapathStart, real, if_neg (by omega)]
  have fresh := started.fresh.1
  let q := filled.initCmplRing.datapathInit
  let full : RxQueue := { q with cmplRing := { q.cmplRing with desc := filledCmpls 129 } }
  have after : AfterPackets R 0 (filledCmpls 129) full := by
    refine ⟨fresh.descCount, fresh.use, fresh.clean, fresh.rung, by rw [show full.given = [] from fresh.given]; rfl, ?_, ?_⟩
    · exact congrArg (fun ring : RxRing => { ring with desc := filledCmpls 129 }) fresh.cmplRing
    · exact fun j less => offsets j (Nat.zero_le j) (by omega)
  have written : VfRxCompletes q full := by
    apply VfRxCompletes.write
    have pending : full.pending = 129 := by
      rw [RxQueue.pending, after.cmplRing]
      decide
    have told : q.told = onicVfRxDescStep := by
      rw [RxQueue.told, show q.rung = _ from fresh.rung, show q.descRing.realCount = R from real, Cyclic.told, Cyclic.told,
        Cyclic.dist_of_lt (show 0 < R by omega) guard]
      simp
    rw [show q.given = [] from fresh.given, told]
    exact (show 0 + full.pending ≤ 256 by omega)
  obtain ⟨q', loop, count, given, rung⟩ := onicVfRxLoop_receives 129 0 guard (by omega) rfl after (by omega)
  have status : qdmaUnpackC2hCmplStatPidx full.cmplRing.wb = 129 := by
    rw [after.cmplRing]
    decide
  have poll : ∃ work last, Program.Exec (onicVfRxPoll 129) full work last ∧ last.descRing = q'.descRing ∧
      last.given = q'.given ∧ last.rung = q'.rung := by
    refine ⟨129, { q' with cidx := (q'.cmplRing.nextToClean, false) }, ?_, rfl, rfl, rfl⟩
    rw [onicVfRxPoll]
    refine Program.Exec.bind (a := 129) (Program.exec_read.mpr ⟨status.symm, rfl⟩) ?_
    refine loop.bind ?_
    rw [if_neg (by omega)]
    exact Program.Exec.bind (a := ()) (Program.exec_modify.mpr rfl) (.done _ _)
  obtain ⟨work, last, poll, desc, same, rings⟩ := poll
  have call : vfRxPollRules.calls () full (do
      let _ ← onicVfRxPoll 129
      .done ()) := ⟨129, rfl⟩
  have first : Pool.Reach vfRxPollRules (fun _ => True) (Pool.start q) ⟨full, fun _ => .done ()⟩ :=
    .single ⟨.env written, trivial⟩
  have second : Pool.Reach vfRxPollRules (fun _ => True) ⟨full, fun _ => .done ()⟩ ⟨last, fun _ => .done ()⟩ :=
    Pool.reach_of_exec (t := ()) rfl call (poll.bind (.done () _))
  refine ⟨q, _, started, first.trans second, fun exact_ => ?_⟩
  have outstanding := exact_.outstanding
  have real' : last.descRing.realCount = R := by rw [RxRing.realCount, desc, count, Nat.add_sub_cancel]
  have told : last.told = 512 := by
    have again := Cyclic.dist_add guard onicVfRxDescStep onicVfRxDescStep
    rw [Cyclic.dist_self, Nat.zero_add, Nat.mod_eq_of_lt guard] at again
    rw [RxQueue.told, rings, rung, real', Cyclic.told, Cyclic.told, Cyclic.told, again, Cyclic.dist_of_lt (show 0 < R by omega) guard]
    simp [step]
  have near : Cyclic.dist R last.descRing.nextToClean last.descRing.nextToUse < R := Nat.mod_lt _ (by omega)
  simp only [told, same, given] at outstanding
  omega

end

/-- The guard lets a ring through whose credits are exact in every run exactly when it has one and a half
    steps of slots. -/
theorem vf_rx_credits_iff {R : Nat} (guard : onicVfRxDescStep < R) (word : R + 1 < 65536) :
    (∀ q P, VfRxStarted R q → Pool.Reach vfRxPollRules (fun _ => True) (Pool.start q) P → VfRxExact R P.state) ↔
      384 ≤ R := by
  have room : onicVfRxDescStep / 2 + onicVfRxDescStep = 384 := rfl
  constructor
  · intro exact_
    by_contra few
    obtain ⟨q, P, started, reach, harm⟩ := vf_rx_overcommits guard (by omega)
    exact harm (exact_ q P started reach)
  · intro enough q P started reach
    obtain ⟨credited, far⟩ := started.fresh.1.credited guard
    have left : CreditsLeft R (onicVfRxDescStep / 2) q := by
      rw [CreditsLeft, far]
      decide
    have fits := vfRxPollRules_fit (R := R) (by omega) (by omega)
    have idle (t : Unit) : (vfRxContract R).wp (.done () : Program RxQueue RxInput Unit)
        (fun _ => CreditsLeft R (onicVfRxDescStep / 2)) q := fun q' between _ credited' =>
      stable_left _ q q' left between trivial credited'
    exact (fits.reach reach trivial credited idle).2.1.exact

theorem vf_rx_credits_1023 : ∃ q, VfRxStarted 1023 q ∧ VfRxExact 1023 q := by
  obtain ⟨filled, fill, -⟩ := onicVfFillRxPages_fills 0 1023 (.zeroedOf 1024)
  have kept := (onicVfFillRxPages_slots 0 1023).exec SlotsOnly.refl SlotsOnly.trans fill
  have started : VfRxStarted 1023 filled.initCmplRing.datapathInit := by
    refine ⟨filled, fill, ?_⟩
    rw [RxQueue.datapathStart, RxRing.realCount, RxQueue.initCmplRing, kept.rings.count]
    rfl
  exact ⟨_, started, (vf_rx_credits_iff (by decide) (by decide)).mpr (by decide) _ _ started .refl⟩

/-- A ring of 300 slots passes the guard. -/
theorem vf_rx_credits_300 : ∃ q P, VfRxStarted 300 q ∧
    Pool.Reach vfRxPollRules (fun _ => True) (Pool.start q) P ∧ ¬ VfRxExact 300 P.state :=
  vf_rx_overcommits (by decide) (by decide)

end OpenNic
