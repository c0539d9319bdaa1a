import OpenNic.Rx.VfStream
import OpenNic.Rx.PfRuns

namespace OpenNic

/-- A receive queue of the PF with the hardware's side of it; the rings have as many entries as those of a VF. -/
structure PfRxLink where
  poll : PfRxPoll
  hw : C2hEngine

namespace PfRxLink

def setPoll (poll : PfRxPoll) (s : PfRxLink) : PfRxLink := { s with poll := poll }

/-- The two ends of the rings. -/
def ends (s : PfRxLink) : VfRxLink := ⟨s.poll.q, s.hw⟩

def setEnds (l : VfRxLink) (s : PfRxLink) : PfRxLink := ⟨s.poll.setQ l.q, l.hw⟩

/-- The packets received so far: each has taken a page, as each slot has at first. -/
def done (s : PfRxLink) : Nat := s.poll.q.taken - vfRxSlots

end PfRxLink

/-- What the hardware does, with completions of any length and with any error, and what others do with the
    transmit queue, the program and the counters. -/
inductive PfC2hStep : PfRxLink → PfRxLink → Prop
  | fetch (s : PfRxLink) (told : s.hw.descCidx ≠ s.poll.q.pidx) : PfC2hStep s (s.setEnds s.ends.fetch)
  | complete (s : PfRxLink) (word : BitVec 64) (err : BitVec 8) (len : Nat) (filled : s.hw.lens.length < s.hw.fetched.length)
      (is : qdmaUnpackC2hCmpl word = ⟨s.hw.color, err, len⟩) : PfC2hStep s (s.setEnds (s.ends.complete word len))
  | publish (s : PfRxLink) (word : BitVec 64) (n : Nat) (later : s.hw.published ≤ n) (written : n ≤ s.hw.lens.length)
      (is : qdmaUnpackC2hCmplStatPidx word = n % vfRxSlots) : PfC2hStep s (s.setEnds (s.ends.publish word n))
  | others (s : PfRxLink) (xdp : XdpRx) (same : xdp.stack = s.poll.xdp.stack) : PfC2hStep s (s.setPoll (s.poll.setXdp xdp))

/-- What the two ends of the rings agree on once `done` packets have been received. -/
structure C2hSync (done : Nat) (l : VfRxLink) : Prop where
  descCount : l.q.descRing.count = onicRxRingCount
  cmplCount : l.q.cmplRing.count = onicRxRingCount
  credit : ∃ told, l.q.descRing.nextToUse = told % vfRxSlots ∧ l.q.pidx = told % vfRxSlots ∧
    l.hw.fetched.length ≤ told ∧ told < done + (onicRxDescStep + onicRxDescStep / 2)
  hwDesc : l.hw.descCidx = l.hw.fetched.length % vfRxSlots
  hwCmpl : l.hw.cmplPidx = l.hw.lens.length % vfRxSlots
  done_le : done ≤ l.hw.published
  published_le : l.hw.published ≤ l.hw.lens.length
  lens_le : l.hw.lens.length ≤ l.hw.fetched.length
  status : qdmaUnpackC2hCmplStatPidx l.q.cmplRing.wb = l.hw.published % vfRxSlots
  slots : ∀ i < vfRxSlots, ∃ pg, l.q.buffer i = ⟨some pg, xdpPacketHeadroom⟩ ∧ l.q.descRing.desc i = pg.dstAddr
  entries : ∀ i (h : i < l.hw.lens.length), done ≤ i →
    (qdmaUnpackC2hCmpl (l.q.cmplRing.desc (i % vfRxSlots))).pktLen = l.hw.lens[i]
  waiting : ∀ i (h : i < l.hw.fetched.length), done ≤ i →
    l.hw.fetched[i] = ((l.q.buffer (i % vfRxSlots)).pg, l.q.descRing.desc (i % vfRxSlots))
  filled : ∀ f ∈ l.hw.fetched, ∃ pg : RxPage, f = (some pg, pg.dstAddr)

namespace C2hSync

variable {done : Nat} {l : VfRxLink}

theorem cmplReal (sync : C2hSync done l) : l.q.cmplRing.realCount = vfRxSlots := by
  rw [RxRing.realCount, sync.cmplCount]
  rfl

theorem descReal (sync : C2hSync done l) : l.q.descRing.realCount = vfRxSlots := by
  rw [RxRing.realCount, sync.descCount]
  rfl

/-- The hardware is never a lap ahead. -/
theorem fetched_lt (sync : C2hSync done l) : l.hw.fetched.length < done + vfRxSlots := by
  obtain ⟨told, -, -, taken, near⟩ := sync.credit
  rw [onicRxDescStep] at near
  rw [vfRxSlots]
  omega

theorem fetch (sync : C2hSync done l) (told : l.hw.descCidx ≠ l.q.pidx) : C2hSync done l.fetch := by
  have longer : l.fetch.hw.fetched.length = l.hw.fetched.length + 1 := List.length_append
  obtain ⟨end_, use, pidx, taken, near⟩ := sync.credit
  have more : l.hw.fetched.length < end_ := by
    rcases Nat.lt_or_eq_of_le taken with less | same
    · exact less
    · rw [sync.hwDesc, pidx, same] at told
      exact absurd rfl told
  obtain ⟨pg, slot, addr⟩ := sync.slots l.hw.descCidx (by rw [sync.hwDesc]; exact mod_lt_slots _)
  exact { sync with
    credit := ⟨end_, use, pidx, by rw [longer]; exact more, near⟩
    hwDesc := by
      rw [longer, ← wrapNext_mod, ← sync.hwDesc]
      rfl
    lens_le := by
      rw [longer]
      exact Nat.le_succ_of_le sync.lens_le
    waiting := by
      intro i h late
      rw [longer] at h
      by_cases old : i < l.hw.fetched.length
      · exact (List.getElem_append_left old).trans (sync.waiting i old late)
      · have last : i = l.hw.fetched.length := by omega
        subst last
        rw [← sync.hwDesc]
        exact List.getElem_concat_length rfl _
    filled := by
      intro f mem
      rcases List.mem_append.mp mem with mem | mem
      · exact sync.filled f mem
      · rw [List.mem_singleton.mp mem]
        exact ⟨pg, by rw [slot, addr]⟩ }

theorem complete (sync : C2hSync done l) {word : BitVec 64} {len : Nat} (filled : l.hw.lens.length < l.hw.fetched.length)
    (is : (qdmaUnpackC2hCmpl word).pktLen = len) : C2hSync done (l.complete word len) := by
  have longer : (l.complete word len).hw.lens.length = l.hw.lens.length + 1 := List.length_append
  have behind := sync.fetched_lt
  have ready : done ≤ l.hw.lens.length := sync.done_le.trans sync.published_le
  have here (i : Nat) : (l.complete word len).q.cmplRing.desc i =
      if i = l.hw.lens.length % vfRxSlots then word else l.q.cmplRing.desc i := by
    rw [← sync.hwCmpl]
    exact Function.update_apply ..
  exact { sync with
    hwCmpl := by
      rw [longer, ← wrapNext_mod, ← sync.hwCmpl]
      rfl
    published_le := by
      rw [longer]
      exact Nat.le_succ_of_le sync.published_le
    lens_le := by
      rw [longer]
      exact filled
    status := by
      have other : vfRxSlots ≠ l.hw.lens.length % vfRxSlots := (mod_lt_slots _).ne'
      have kept := here vfRxSlots
      rw [if_neg other] at kept
      have status := sync.status
      rw [RxRing.wb, sync.cmplReal] at status
      show qdmaUnpackC2hCmplStatPidx ((l.complete word len).q.cmplRing.desc l.q.cmplRing.realCount) = _
      rw [sync.cmplReal, kept]
      exact status
    entries := by
      intro i h late
      rw [longer] at h
      rw [here]
      by_cases old : i < l.hw.lens.length
      · have other : i % vfRxSlots ≠ l.hw.lens.length % vfRxSlots := by
          intro same
          have near : l.hw.lens.length < done + vfRxSlots := filled.trans behind
          have lap := Cyclic.mod_inj late (old.trans near) ready near same
          omega
        rw [if_neg other, sync.entries i old late]
        exact (List.getElem_append_left old).symm
      · have last : i = l.hw.lens.length := by omega
        subst last
        rw [if_pos rfl, is]
        exact (List.getElem_concat_length rfl _).symm }

theorem publish (sync : C2hSync done l) {word : BitVec 64} {n : Nat} (later : l.hw.published ≤ n)
    (written : n ≤ l.hw.lens.length) (is : qdmaUnpackC2hCmplStatPidx word = n % vfRxSlots) :
    C2hSync done (l.publish word n) := by
  have here (i : Nat) : (l.publish word n).q.cmplRing.desc i = if i = vfRxSlots then word else l.q.cmplRing.desc i :=
    Function.update_apply ..
  exact { sync with
    done_le := sync.done_le.trans later
    published_le := written
    status := by
      show qdmaUnpackC2hCmplStatPidx ((l.publish word n).q.cmplRing.desc l.q.cmplRing.realCount) = _
      rw [sync.cmplReal, here, if_pos rfl]
      exact is
    entries := by
      intro i h late
      rw [here, if_neg (mod_lt_slots i).ne]
      exact sync.entries i h late }

/-- The page of the next packet has gone and a new one lies in its slot. -/
theorem refill (sync : C2hSync done l) (clean : l.q.descRing.nextToClean = done % vfRxSlots) (more : done < l.hw.published)
    (newPg : RxPage) : C2hSync (done + 1) ⟨l.q.onicRxPageRefill newPg, l.hw⟩ := by
  have behind := sync.fetched_lt
  have slot (i : Nat) : (l.q.onicRxPageRefill newPg).buffer i =
      if i = done % vfRxSlots then ⟨some newPg, xdpPacketHeadroom⟩ else l.q.buffer i := by
    rw [← clean]
    exact Function.update_apply ..
  have word (i : Nat) : (l.q.onicRxPageRefill newPg).descRing.desc i =
      if i = done % vfRxSlots then newPg.dstAddr else l.q.descRing.desc i := by
    rw [← clean]
    exact Function.update_apply ..
  exact { sync with
    credit := by
      obtain ⟨told, use, pidx, le, near⟩ := sync.credit
      exact ⟨told, use, pidx, le, by omega⟩
    done_le := more
    slots := by
      intro i small
      dsimp only
      rw [slot, word]
      split
      · exact ⟨newPg, rfl, rfl⟩
      · exact sync.slots i small
    entries := fun i h late => sync.entries i h (by omega)
    waiting := by
      intro i h late
      have old : i < l.hw.fetched.length := h
      have other : i % vfRxSlots ≠ done % vfRxSlots := by
        intro same
        have lap := Cyclic.mod_inj (show done ≤ i by omega) (show i < done + vfRxSlots by omega) (Nat.le_refl _)
          (by omega) same
        omega
      dsimp only
      rw [slot, word, if_neg other, if_neg other]
      exact sync.waiting i old (by omega) }

/-- Both rings go on by one, and the doorbell by a step where few descriptors are left. -/
theorem advance {d : Nat} (sync : C2hSync (d + 1) l) (descClean : l.q.descRing.nextToClean = d % vfRxSlots)
    (cmplClean : l.q.cmplRing.nextToClean = d % vfRxSlots) (cmpl : C2hCmpl) :
    C2hSync (d + 1) ⟨l.q.onicRxAdvance cmpl, l.hw⟩ ∧
    (l.q.onicRxAdvance cmpl).descRing.nextToClean = (d + 1) % vfRxSlots ∧
    (l.q.onicRxAdvance cmpl).cmplRing.nextToClean = (d + 1) % vfRxSlots := by
  obtain ⟨told, use, pidx, taken, near⟩ := sync.credit
  have small : l.q.descRing.nextToUse < vfRxSlots := by
    rw [use]
    exact mod_lt_slots told
  have inside : l.q.descRing.nextToClean < vfRxSlots := by
    rw [descClean]
    exact mod_lt_slots d
  obtain ⟨color, is⟩ := RxQueue.onicRxAdvance_eq sync.descReal sync.cmplReal inside small (by decide) cmpl
  have next (i : Nat) : (i % vfRxSlots + 1) % vfRxSlots = (i + 1) % vfRxSlots := Nat.mod_add_mod i vfRxSlots 1
  rw [is, descClean, cmplClean, next]
  have ahead : d + 1 ≤ told := sync.done_le.trans (sync.published_le.trans (sync.lens_le.trans taken))
  have window : told < d + 1 + vfRxSlots := by
    rw [onicRxDescStep] at near
    rw [vfRxSlots]
    omega
  have left : Cyclic.dist vfRxSlots ((d + 1) % vfRxSlots) l.q.descRing.nextToUse = told - (d + 1) := by
    rw [use]
    exact Cyclic.dist_mod ahead window
  unfold RxQueue.credit
  dsimp only
  rw [left]
  split
  · rename_i few
    have head : (l.q.descRing.nextToUse + onicRxDescStep) % vfRxSlots = (told + onicRxDescStep) % vfRxSlots := by
      rw [use, Nat.mod_add_mod]
    rw [head]
    refine ⟨{ sync with credit := ⟨told + onicRxDescStep, rfl, rfl, Nat.le_add_right_of_le taken, ?_⟩ }, rfl, rfl⟩
    omega
  · exact ⟨{ sync with }, rfl, rfl⟩

end C2hSync

theorem prefix_take {α : Type} {a b : List α} (h : a <+: b) (k : Nat) : a.take k <+: b.take k := by
  obtain ⟨c, rfl⟩ := h
  rw [List.take_append]
  exact List.prefix_append _ _

theorem prefix_zip {α β : Type} {a a' : List α} {b b' : List β} (h : a <+: a') (h' : b <+: b') : a.zip b <+: a'.zip b' := by
  obtain ⟨c, rfl⟩ := h
  obtain ⟨d, rfl⟩ := h'
  induction a generalizing b with
  | nil => exact List.nil_prefix
  | cons x a ih =>
    cases b with
    | nil => exact List.nil_prefix
    | cons y b => exact List.cons_prefix_cons.mpr ⟨rfl, ih⟩

/-- The stack has been given pages of the first `k` packets in their order, all of them where no program runs,
    and with their lengths where every poll finds a completion written. -/
structure Told (exact plain : Prop) (k : Nat) (l : VfRxLink) : Prop where
  pages : (l.q.given.map RxDelivery.page).Sublist ((l.hw.fetched.map Prod.fst).take k)
  all : plain → l.q.given.length = k
  lens : exact → (l.q.given.map fun d => (d.page, d.len)).Sublist (((l.hw.fetched.map Prod.fst).zip l.hw.lens).take k)

/-- `d` pages have taken the place of another. -/
structure Stage (exact plain : Prop) (d clean told : Nat) (l : VfRxLink) : Prop where
  taken : l.q.taken = d + vfRxSlots
  descClean : l.q.descRing.nextToClean = clean % vfRxSlots
  cmplClean : l.q.cmplRing.nextToClean = clean % vfRxSlots
  told : Told exact plain told l

/-- What holds at every access. -/
structure PfRxStream (exact plain : Prop) (l : VfRxLink) : Prop where
  sync : ∃ d, l.q.taken = d + vfRxSlots ∧ C2hSync d l
  told : ∃ k, Told exact plain k l

/-- What others leave alone. -/
structure PfHwOnly (s s' : PfRxLink) : Prop where
  ends : HwOnly s.ends s'.ends
  fetched : s.hw.fetched <+: s'.hw.fetched
  stack : s'.poll.xdp.stack = s.poll.xdp.stack

def pfRxContract (exact plain : Prop) : Contract PfRxLink where
  ok _ := True
  inv s := PfRxStream exact plain s.ends
  rely := PfHwOnly
  guarantee _ _ := True
  rely_refl s := ⟨HwOnly.refl s.ends, List.prefix_rfl, rfl⟩
  rely_trans h h' := ⟨h.ends.trans h'.ends, h.fetched.trans h'.fetched, h'.stack.trans h.stack⟩
  guarantee_refl _ := True.intro

section

variable {exact plain : Prop} {d clean k n : Nat} {l l' : VfRxLink}

theorem Told.later (told : Told exact plain k l) (same : l'.q.given = l.q.given) (fetched : l.hw.fetched <+: l'.hw.fetched)
    (lens : l.hw.lens <+: l'.hw.lens) : Told exact plain k l' := by
  constructor
  · rw [same]
    exact told.pages.trans (prefix_take (fetched.map Prod.fst) k).sublist
  · rw [same]
    exact told.all
  · intro precise
    rw [same]
    exact (told.lens precise).trans (prefix_take (prefix_zip (fetched.map Prod.fst) lens) k).sublist

theorem Stage.later (stage : Stage exact plain d clean k l) (between : HwOnly l l') (fetched : l.hw.fetched <+: l'.hw.fetched) :
    Stage exact plain d clean k l' := by
  constructor
  · rw [between.queue]
    exact stage.taken
  · rw [between.queue]
    exact stage.descClean
  · rw [between.queue]
    exact stage.cmplClean
  · exact stage.told.later (by rw [between.queue]) fetched between.lens

/-- A packet that the stack has not got. -/
theorem Told.skip (told : Told exact plain k l) (busy : ¬ plain) : Told exact plain (k + 1) l := by
  have more {α : Type} (a : List α) : a.take k <+: a.take (k + 1) := List.take_prefix_take_left (Nat.le_succ k)
  exact ⟨told.pages.trans (more _).sublist, fun h => absurd h busy, fun precise => (told.lens precise).trans (more _).sublist⟩

/-- The next packet goes to the stack. -/
theorem Told.give (told : Told exact plain k l) (slot : Nat) {pg : RxPage} {len : Nat}
    (page : (l.hw.fetched.map Prod.fst)[k]? = some (some pg)) (is : exact → l.hw.lens[k]? = some len) :
    Told exact plain (k + 1) ⟨{ l.q with given := l.q.given ++ [⟨slot, some pg, len⟩] }, l.hw⟩ := by
  constructor
  · dsimp only
    rw [List.map_append, List.take_add_one, page]
    exact told.pages.append (List.Sublist.refl _)
  · intro calm
    dsimp only
    rw [List.length_append, told.all calm]
    rfl
  · intro precise
    have both : ((l.hw.fetched.map Prod.fst).zip l.hw.lens)[k]? = some (some pg, len) := by
      rw [List.getElem?_zip_eq_some]
      exact ⟨page, is precise⟩
    dsimp only
    rw [List.map_append, List.take_add_one, both]
    exact (told.lens precise).append (List.Sublist.refl _)

theorem C2hSync.ring (sync : C2hSync d l) {q : RxQueue} (desc : q.descRing = l.q.descRing) (cmpl : q.cmplRing = l.q.cmplRing)
    (pidx : q.pidx = l.q.pidx) (buffer : q.buffer = l.q.buffer) : C2hSync d ⟨q, l.hw⟩ := by
  constructor
  all_goals
    dsimp only
    try rw [desc]
    try rw [cmpl]
    try rw [pidx]
    try rw [buffer]
  · exact sync.descCount
  · exact sync.cmplCount
  · exact sync.credit
  · exact sync.hwDesc
  · exact sync.hwCmpl
  · exact sync.done_le
  · exact sync.published_le
  · exact sync.lens_le
  · exact sync.status
  · exact sync.slots
  · exact sync.entries
  · exact sync.waiting
  · exact sync.filled

theorem PfRxStream.hardware {s s' : PfRxLink} (stream : PfRxStream exact plain s.ends) (happens : PfC2hStep s s') :
    PfRxStream exact plain s'.ends ∧ PfHwOnly s s' := by
  obtain ⟨d, taken, sync⟩ := stream.sync
  obtain ⟨k, told⟩ := stream.told
  cases happens with
  | fetch told' =>
    have longer : s.hw.fetched <+: (s.setEnds s.ends.fetch).hw.fetched := List.prefix_append _ _
    exact ⟨⟨⟨d, taken, sync.fetch told'⟩, k, told.later rfl longer List.prefix_rfl⟩,
      ⟨rfl, Nat.le_refl _, List.prefix_rfl⟩, longer, rfl⟩
  | complete word err len filled is =>
    have longer : s.hw.lens <+: (s.setEnds (s.ends.complete word len)).hw.lens := List.prefix_append _ _
    have written : (qdmaUnpackC2hCmpl word).pktLen = len := by rw [is]
    exact ⟨⟨⟨d, taken, sync.complete filled written⟩, k, told.later rfl List.prefix_rfl longer⟩,
      ⟨rfl, Nat.le_refl _, longer⟩, List.prefix_rfl, rfl⟩
  | publish word n later written is =>
    exact ⟨⟨⟨d, taken, sync.publish later written is⟩, k, told.later rfl List.prefix_rfl List.prefix_rfl⟩,
      ⟨rfl, later, List.prefix_rfl⟩, List.prefix_rfl, rfl⟩
  | others xdp same => exact ⟨⟨⟨d, taken, sync⟩, k, told⟩, HwOnly.refl _, List.prefix_rfl, same⟩

end

end OpenNic
