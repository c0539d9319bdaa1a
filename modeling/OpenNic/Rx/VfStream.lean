import OpenNic.Rx.VfDriver
import OpenNic.Program.RelyGuarantee

namespace OpenNic

/-- The entries of a VF's receive rings, without the status. -/
def vfRxSlots : Nat := 1023

/-- The hardware's side of a receive queue: its indices and its colour. From `fetched` on the
    fields are history: for each descriptor that it has taken the page that lay in the slot
    and the address that it found, the length of each completion that it has written, and how
    many of them the status tells of. -/
structure C2hEngine where
  descCidx : Nat
  cmplPidx : Nat
  color : BitVec 8
  fetched : List (Option RxPage × BitVec 64)
  lens : List Nat
  published : Nat

/-- A receive queue with both of its ends. -/
structure VfRxLink where
  q : RxQueue
  hw : C2hEngine

namespace VfRxLink

def setQ (q : RxQueue) (s : VfRxLink) : VfRxLink := { s with q := q }

def setCmpl (s : VfRxLink) (i : Nat) (word : BitVec 64) : VfRxLink :=
  { s with q := { s.q with cmplRing := s.q.cmplRing.setDesc i word } }

/-- The packets delivered so far. -/
def done (s : VfRxLink) : Nat := s.q.given.length

end VfRxLink

/-- An index of the hardware goes on by one and wraps at `count - 1`. -/
def wrapNext (i : Nat) : Nat := if i + 1 = vfRxSlots then 0 else i + 1

/-- The next descriptor is taken. -/
def VfRxLink.fetch (s : VfRxLink) : VfRxLink :=
  { s with hw := { s.hw with
    descCidx := wrapNext s.hw.descCidx
    fetched := s.hw.fetched ++ [((s.q.buffer s.hw.descCidx).pg, s.q.descRing.desc s.hw.descCidx)] } }

/-- The next completion is written. -/
def C2hEngine.advance (hw : C2hEngine) (len : Nat) : C2hEngine :=
  { hw with
    lens := hw.lens ++ [len]
    cmplPidx := wrapNext hw.cmplPidx
    color := if wrapNext hw.cmplPidx = 0 then hw.color ^^^ 1 else hw.color }

def VfRxLink.complete (s : VfRxLink) (word : BitVec 64) (len : Nat) : VfRxLink :=
  { s.setCmpl s.hw.cmplPidx word with hw := s.hw.advance len }

/-- The status is written. -/
def VfRxLink.publish (s : VfRxLink) (word : BitVec 64) (n : Nat) : VfRxLink :=
  { s.setCmpl vfRxSlots word with hw := { s.hw with published := n } }

/-- What the hardware does: it takes a descriptor that the doorbell has told it of, writes the
    completion of a packet that it has put into a buffer, and lets the status tell of what it
    has written. Each completion needs its descriptor, which keeps it from overrunning the
    software's index. -/
inductive C2hStep : VfRxLink → VfRxLink → Prop
  | fetch (s : VfRxLink) (told : s.hw.descCidx ≠ s.q.pidx) : C2hStep s s.fetch
  | complete (s : VfRxLink) (word : BitVec 64) (len : Nat) (filled : s.hw.lens.length < s.hw.fetched.length)
      (is : qdmaUnpackC2hCmpl word = ⟨s.hw.color, 0, len⟩) (some : 0 < len) (fits : len ≤ pageSize - xdpPacketHeadroom) :
      C2hStep s (s.complete word len)
  | publish (s : VfRxLink) (word : BitVec 64) (n : Nat) (later : s.hw.published ≤ n) (written : n ≤ s.hw.lens.length)
      (is : qdmaUnpackC2hCmplStatPidx word = n % vfRxSlots) :
      C2hStep s (s.publish word n)

/-- The colour of an entry that is `n` completions after the first. -/
def lapColor (n : Nat) : BitVec 8 := 1 ^^^ BitVec.ofNat 8 (n / vfRxSlots % 2)

/-- What the software and the hardware agree on at every single access. -/
structure RxStream (s : VfRxLink) : Prop where
  descCount : s.q.descRing.count = onicVfRxRingCount
  cmplCount : s.q.cmplRing.count = onicVfCmplRingCount
  descClean : s.q.descRing.nextToClean = s.done % vfRxSlots
  cmplClean : s.q.cmplRing.nextToClean = s.done % vfRxSlots
  color : s.q.cmplRing.color = lapColor s.done
  credit : ∃ told, s.q.descRing.nextToUse = told % vfRxSlots ∧ s.q.pidx = told % vfRxSlots ∧
    s.hw.fetched.length ≤ told ∧ told < s.done + (onicVfRxDescStep + onicVfRxDescStep / 2)
  hwDesc : s.hw.descCidx = s.hw.fetched.length % vfRxSlots
  hwCmpl : s.hw.cmplPidx = s.hw.lens.length % vfRxSlots
  hwColor : s.hw.color = lapColor s.hw.lens.length
  done_le : s.done ≤ s.hw.published
  published_le : s.hw.published ≤ s.hw.lens.length
  lens_le : s.hw.lens.length ≤ s.hw.fetched.length
  status : qdmaUnpackC2hCmplStatPidx s.q.cmplRing.wb = s.hw.published % vfRxSlots
  slots : ∀ i < vfRxSlots, ∃ pg, s.q.buffer i = ⟨some pg, xdpPacketHeadroom⟩ ∧ s.q.descRing.desc i = pg.dstAddr
  entries : ∀ i (h : i < s.hw.lens.length), s.done ≤ i →
    qdmaUnpackC2hCmpl (s.q.cmplRing.desc (i % vfRxSlots)) = ⟨lapColor i, 0, s.hw.lens[i]⟩
  acceptable : ∀ len ∈ s.hw.lens, 0 < len ∧ len ≤ pageSize - xdpPacketHeadroom
  waiting : ∀ i (h : i < s.hw.fetched.length), s.done ≤ i →
    s.hw.fetched[i] = ((s.q.buffer (i % vfRxSlots)).pg, s.q.descRing.desc (i % vfRxSlots))
  filled : ∀ f ∈ s.hw.fetched, ∃ pg : RxPage, f = (some pg, pg.dstAddr)
  delivered : s.q.given.map (fun d => (d.page, d.len)) =
    ((s.hw.fetched.map Prod.fst).take s.done).zip (s.hw.lens.take s.done)

/-- The hardware changes nothing of the software's and takes nothing back. -/
structure HwOnly (s s' : VfRxLink) : Prop where
  queue : s'.q = { s.q with cmplRing := { s.q.cmplRing with desc := s'.q.cmplRing.desc } }
  published : s.hw.published ≤ s'.hw.published
  lens : s.hw.lens <+: s'.hw.lens

theorem HwOnly.refl (s : VfRxLink) : HwOnly s s := ⟨rfl, Nat.le_refl _, List.prefix_rfl⟩

theorem HwOnly.trans {a b c : VfRxLink} (h : HwOnly a b) (h' : HwOnly b c) : HwOnly a c := by
  refine ⟨?_, h.published.trans h'.published, h.lens.trans h'.lens⟩
  rw [h'.queue, h.queue]

theorem HwOnly.done {s s' : VfRxLink} (h : HwOnly s s') : s'.done = s.done := by
  rw [VfRxLink.done, h.queue]
  rfl

theorem HwOnly.color {s s' : VfRxLink} (h : HwOnly s s') : s'.q.cmplRing.color = s.q.cmplRing.color := by
  rw [h.queue]

section

variable {s : VfRxLink}

theorem wrapNext_mod (n : Nat) : wrapNext (n % vfRxSlots) = (n + 1) % vfRxSlots := by
  rw [wrapNext, vfRxSlots]
  split <;> omega

theorem wrapNext_lapColor (n : Nat) :
    (if wrapNext (n % vfRxSlots) = 0 then lapColor n ^^^ 1 else lapColor n) = lapColor (n + 1) := by
  rw [wrapNext_mod, lapColor, lapColor]
  rw [vfRxSlots]
  split
  · rename_i wraps
    have next : (n + 1) / 1023 = n / 1023 + 1 := by omega
    rw [next]
    rcases Nat.mod_two_eq_zero_or_one (n / 1023) with even | odd
    · rw [even, show (n / 1023 + 1) % 2 = 1 by omega]
      decide
    · rw [odd, show (n / 1023 + 1) % 2 = 0 by omega]
      decide
  · rename_i stays
    have same : (n + 1) / 1023 = n / 1023 := by omega
    rw [same]

theorem mod_lt_slots (n : Nat) : n % vfRxSlots < vfRxSlots := Nat.mod_lt _ (by decide)

theorem RxStream.realCount (stream : RxStream s) : s.q.cmplRing.realCount = vfRxSlots := by
  rw [RxRing.realCount, stream.cmplCount]
  rfl

/-- The hardware is never a lap ahead. -/
theorem RxStream.fetched_lt (stream : RxStream s) : s.hw.fetched.length < s.done + vfRxSlots := by
  obtain ⟨told, -, -, taken, near⟩ := stream.credit
  rw [onicVfRxDescStep] at near
  rw [vfRxSlots]
  omega

theorem RxStream.fetch (stream : RxStream s) (told : s.hw.descCidx ≠ s.q.pidx) :
    RxStream s.fetch := by
  have longer : s.fetch.hw.fetched.length = s.hw.fetched.length + 1 := List.length_append
  obtain ⟨end_, use, pidx, taken, near⟩ := stream.credit
  have more : s.hw.fetched.length < end_ := by
    rcases Nat.lt_or_eq_of_le taken with less | same
    · exact less
    · rw [stream.hwDesc, pidx, same] at told
      exact absurd rfl told
  obtain ⟨pg, slot, addr⟩ := stream.slots s.hw.descCidx (by rw [stream.hwDesc]; exact mod_lt_slots _)
  exact {
    descCount := stream.descCount
    cmplCount := stream.cmplCount
    descClean := stream.descClean
    cmplClean := stream.cmplClean
    color := stream.color
    credit := ⟨end_, use, pidx, by rw [longer]; exact more, near⟩
    hwDesc := by
      rw [longer, ← wrapNext_mod, ← stream.hwDesc]
      rfl
    hwCmpl := stream.hwCmpl
    hwColor := stream.hwColor
    done_le := stream.done_le
    published_le := stream.published_le
    lens_le := by
      rw [longer]
      exact Nat.le_succ_of_le stream.lens_le
    status := stream.status
    slots := stream.slots
    entries := stream.entries
    acceptable := stream.acceptable
    waiting := by
      intro i h late
      rw [longer] at h
      by_cases old : i < s.hw.fetched.length
      · exact (List.getElem_append_left old).trans (stream.waiting i old late)
      · have last : i = s.hw.fetched.length := by omega
        subst last
        rw [← stream.hwDesc]
        exact List.getElem_concat_length rfl _
    filled := by
      intro f mem
      rcases List.mem_append.mp mem with mem | mem
      · exact stream.filled f mem
      · rw [List.mem_singleton.mp mem]
        exact ⟨pg, by rw [slot, addr]⟩
    delivered := by
      have ready : s.done ≤ (s.hw.fetched.map Prod.fst).length := by
        rw [List.length_map]
        exact stream.done_le.trans (stream.published_le.trans stream.lens_le)
      show s.q.given.map _ = (((s.hw.fetched ++ [_]).map Prod.fst).take s.done).zip (s.hw.lens.take s.done)
      rw [List.map_append, List.take_append_of_le_length ready]
      exact stream.delivered }

theorem RxStream.complete (stream : RxStream s) {word : BitVec 64} {len : Nat}
    (filled : s.hw.lens.length < s.hw.fetched.length) (is : qdmaUnpackC2hCmpl word = ⟨s.hw.color, 0, len⟩)
    (some : 0 < len) (fits : len ≤ pageSize - xdpPacketHeadroom) : RxStream (s.complete word len) := by
  have longer : (s.complete word len).hw.lens.length = s.hw.lens.length + 1 := List.length_append
  have behind := stream.fetched_lt
  have ready : s.done ≤ s.hw.lens.length := stream.done_le.trans stream.published_le
  have here (i : Nat) : (s.complete word len).q.cmplRing.desc i =
      if i = s.hw.lens.length % vfRxSlots then word else s.q.cmplRing.desc i := by
    rw [← stream.hwCmpl]
    exact Function.update_apply ..
  exact {
    descCount := stream.descCount
    cmplCount := stream.cmplCount
    descClean := stream.descClean
    cmplClean := stream.cmplClean
    color := stream.color
    credit := stream.credit
    hwDesc := stream.hwDesc
    hwCmpl := by
      rw [longer, ← wrapNext_mod, ← stream.hwCmpl]
      rfl
    hwColor := by
      rw [longer, ← wrapNext_lapColor, ← stream.hwCmpl, ← stream.hwColor]
      rfl
    done_le := stream.done_le
    published_le := by
      rw [longer]
      exact Nat.le_succ_of_le stream.published_le
    lens_le := by
      rw [longer]
      exact filled
    status := by
      have other : vfRxSlots ≠ s.hw.lens.length % vfRxSlots := (mod_lt_slots _).ne'
      have kept := here vfRxSlots
      rw [if_neg other] at kept
      have status := stream.status
      rw [RxRing.wb, stream.realCount] at status
      show qdmaUnpackC2hCmplStatPidx ((s.complete word len).q.cmplRing.desc s.q.cmplRing.realCount) = _
      rw [stream.realCount, kept]
      exact status
    slots := stream.slots
    entries := by
      intro i h late
      rw [longer] at h
      rw [here]
      by_cases old : i < s.hw.lens.length
      · have other : i % vfRxSlots ≠ s.hw.lens.length % vfRxSlots := by
          intro same
          have near : s.hw.lens.length < s.done + vfRxSlots := filled.trans behind
          have lap := Cyclic.mod_inj late (old.trans near) ready near same
          omega
        rw [if_neg other, stream.entries i old late]
        exact congrArg (C2hCmpl.mk (lapColor i) 0) (List.getElem_append_left old).symm
      · have last : i = s.hw.lens.length := by omega
        subst last
        rw [if_pos rfl, is, stream.hwColor]
        exact congrArg (C2hCmpl.mk _ 0) (List.getElem_concat_length rfl _).symm
    acceptable := by
      intro l mem
      rcases List.mem_append.mp mem with mem | mem
      · exact stream.acceptable l mem
      · rw [List.mem_singleton.mp mem]
        exact ⟨some, fits⟩
    waiting := stream.waiting
    filled := stream.filled
    delivered := by
      show s.q.given.map _ = ((s.hw.fetched.map Prod.fst).take s.done).zip ((s.hw.lens ++ [len]).take s.done)
      rw [List.take_append_of_le_length ready]
      exact stream.delivered }

theorem RxStream.publish (stream : RxStream s) {word : BitVec 64} {n : Nat} (later : s.hw.published ≤ n)
    (written : n ≤ s.hw.lens.length) (is : qdmaUnpackC2hCmplStatPidx word = n % vfRxSlots) : RxStream (s.publish word n) := by
  have here (i : Nat) : (s.publish word n).q.cmplRing.desc i = if i = vfRxSlots then word else s.q.cmplRing.desc i :=
    Function.update_apply ..
  exact {
    descCount := stream.descCount
    cmplCount := stream.cmplCount
    descClean := stream.descClean
    cmplClean := stream.cmplClean
    color := stream.color
    credit := stream.credit
    hwDesc := stream.hwDesc
    hwCmpl := stream.hwCmpl
    hwColor := stream.hwColor
    done_le := stream.done_le.trans later
    published_le := written
    lens_le := stream.lens_le
    status := by
      show qdmaUnpackC2hCmplStatPidx ((s.publish word n).q.cmplRing.desc s.q.cmplRing.realCount) = _
      rw [stream.realCount, here, if_pos rfl]
      exact is
    slots := stream.slots
    entries := by
      intro i h late
      rw [here, if_neg (mod_lt_slots i).ne]
      exact stream.entries i h late
    acceptable := stream.acceptable
    waiting := stream.waiting
    filled := stream.filled
    delivered := stream.delivered }

theorem RxStream.hardware {s' : VfRxLink} (stream : RxStream s) (happens : C2hStep s s') : RxStream s' ∧ HwOnly s s' := by
  cases happens with
  | fetch told => exact ⟨stream.fetch told, rfl, Nat.le_refl _, List.prefix_rfl⟩
  | complete word len filled is some fits =>
    exact ⟨stream.complete filled is some fits, rfl, Nat.le_refl _, List.prefix_append _ _⟩
  | publish word n later written is => exact ⟨stream.publish later written is, rfl, later, List.prefix_rfl⟩

/-- What only the hardware's side and the history of the pages may differ in. -/
theorem RxStream.aside (stream : RxStream s) (taken : Nat) (returned : List RxPage) (cidx : Nat × Bool) :
    RxStream (s.setQ { s.q with taken := taken, returned := returned, cidx := cidx }) where
  descCount := stream.descCount
  cmplCount := stream.cmplCount
  descClean := stream.descClean
  cmplClean := stream.cmplClean
  color := stream.color
  credit := stream.credit
  hwDesc := stream.hwDesc
  hwCmpl := stream.hwCmpl
  hwColor := stream.hwColor
  done_le := stream.done_le
  published_le := stream.published_le
  lens_le := stream.lens_le
  status := stream.status
  slots := stream.slots
  entries := stream.entries
  acceptable := stream.acceptable
  waiting := stream.waiting
  filled := stream.filled
  delivered := stream.delivered

theorem onicVfRingIncrementCleanRx_eq {ring : RxRing} {n : Nat} (count : ring.realCount = vfRxSlots)
    (clean : ring.nextToClean = n % vfRxSlots) :
    onicVfRingIncrementCleanRx ring = { ring with nextToClean := (n + 1) % vfRxSlots } := by
  have small : (n % vfRxSlots + 1) % 65536 = n % vfRxSlots + 1 := by
    have := mod_lt_slots n
    rw [vfRxSlots] at this ⊢
    omega
  rw [onicVfRingIncrementCleanRx, count, clean, small, ← wrapNext_mod]
  rfl

theorem RxStream.deliver_cmplRing (stream : RxStream s) (len : Nat) (newPg : RxPage) :
    (s.q.deliver len newPg).cmplRing =
      { s.q.cmplRing with nextToClean := (s.done + 1) % vfRxSlots, color := lapColor (s.done + 1) } := by
  rw [RxQueue.deliver, onicVfRingIncrementCleanRx_eq stream.realCount stream.cmplClean]
  rw [← wrapNext_lapColor, ← wrapNext_mod, ← stream.color]
  simp only
  split <;> rfl

theorem RxStream.deliver_descRing (stream : RxStream s) (len : Nat) (newPg : RxPage) :
    (s.q.deliver len newPg).descRing =
      { s.q.descRing.setDesc (s.done % vfRxSlots) newPg.dstAddr with nextToClean := (s.done + 1) % vfRxSlots } := by
  have real : (s.q.descRing.setDesc s.q.descRing.nextToClean newPg.dstAddr).realCount = vfRxSlots := by
    rw [RxRing.realCount, RxRing.setDesc, stream.descCount]
    rfl
  rw [RxQueue.deliver, onicVfRingIncrementCleanRx_eq real stream.descClean, stream.descClean]

/-- The packet goes to the stack in the page that the hardware has put it into. -/
theorem RxStream.deliver (stream : RxStream s) (newPg : RxPage) {len : Nat} (more : s.done < s.hw.published)
    (is : s.hw.lens[s.done]? = some len) : RxStream (s.setQ (s.q.deliver len newPg)) := by
  have longer : (s.setQ (s.q.deliver len newPg)).done = s.done + 1 := List.length_append
  have cmplRing := stream.deliver_cmplRing len newPg
  have descRing := stream.deliver_descRing len newPg
  have real := stream.realCount
  have behind := stream.fetched_lt
  have written : s.done < s.hw.lens.length := more.trans_le stream.published_le
  have taken : s.done < s.hw.fetched.length := written.trans_le stream.lens_le
  have slot (i : Nat) : (s.q.deliver len newPg).buffer i =
      if i = s.done % vfRxSlots then ⟨some newPg, xdpPacketHeadroom⟩ else s.q.buffer i := by
    rw [← stream.descClean]
    exact Function.update_apply ..
  have word (i : Nat) : (s.q.deliver len newPg).descRing.desc i =
      if i = s.done % vfRxSlots then newPg.dstAddr else s.q.descRing.desc i := by
    rw [descRing]
    exact Function.update_apply ..
  have page := stream.waiting s.done taken (Nat.le_refl _)
  exact {
    descCount := by
      show (s.q.deliver len newPg).descRing.count = _
      rw [descRing]
      exact stream.descCount
    cmplCount := by
      show (s.q.deliver len newPg).cmplRing.count = _
      rw [cmplRing]
      exact stream.cmplCount
    descClean := by
      show (s.q.deliver len newPg).descRing.nextToClean = _
      rw [descRing, longer]
    cmplClean := by
      show (s.q.deliver len newPg).cmplRing.nextToClean = _
      rw [cmplRing, longer]
    color := by
      show (s.q.deliver len newPg).cmplRing.color = _
      rw [cmplRing, longer]
    credit := by
      obtain ⟨told, use, pidx, le, near⟩ := stream.credit
      refine ⟨told, ?_, pidx, le, by omega⟩
      show (s.q.deliver len newPg).descRing.nextToUse = _
      rw [descRing]
      exact use
    hwDesc := stream.hwDesc
    hwCmpl := stream.hwCmpl
    hwColor := stream.hwColor
    done_le := by
      rw [longer]
      exact more
    published_le := stream.published_le
    lens_le := stream.lens_le
    status := by
      show qdmaUnpackC2hCmplStatPidx ((s.q.deliver len newPg).cmplRing.wb) = _
      rw [cmplRing]
      exact stream.status
    slots := by
      intro i small
      show ∃ pg, (s.q.deliver len newPg).buffer i = _ ∧ (s.q.deliver len newPg).descRing.desc i = _
      rw [slot, word]
      split
      · exact ⟨newPg, rfl, rfl⟩
      · exact stream.slots i small
    entries := by
      intro i h late
      rw [longer] at late
      show qdmaUnpackC2hCmpl ((s.q.deliver len newPg).cmplRing.desc (i % vfRxSlots)) = _
      rw [cmplRing]
      exact stream.entries i h (by omega)
    acceptable := stream.acceptable
    waiting := by
      intro i h late
      rw [longer] at late
      have old : i < s.hw.fetched.length := h
      have other : i % vfRxSlots ≠ s.done % vfRxSlots := by
        intro same
        have lap := Cyclic.mod_inj (show s.done ≤ i by omega) (show i < s.done + vfRxSlots by omega) (Nat.le_refl _)
          (by omega) same
        omega
      show s.hw.fetched[i] = (((s.q.deliver len newPg).buffer (i % vfRxSlots)).pg,
        (s.q.deliver len newPg).descRing.desc (i % vfRxSlots))
      rw [slot, word, if_neg other, if_neg other]
      exact stream.waiting i old (by omega)
    filled := stream.filled
    delivered := by
      have pages : (s.hw.fetched.map Prod.fst).take (s.done + 1) =
          (s.hw.fetched.map Prod.fst).take s.done ++ [(s.q.buffer s.q.descRing.nextToClean).pg] := by
        rw [List.take_succ_eq_append_getElem (by rw [List.length_map]; exact taken), List.getElem_map, page, stream.descClean]
      have lens : s.hw.lens.take (s.done + 1) = s.hw.lens.take s.done ++ [len] := by
        rw [List.take_add_one, is]
        rfl
      have even : ((s.hw.fetched.map Prod.fst).take s.done).length = (s.hw.lens.take s.done).length := by
        rw [List.length_take, List.length_take, List.length_map]
        omega
      rw [longer]
      show (s.q.given ++ [_]).map _ = ((s.hw.fetched.map Prod.fst).take (s.done + 1)).zip (s.hw.lens.take (s.done + 1))
      rw [pages, lens, List.zip_append even, List.map_append, stream.delivered]
      rfl }

theorem RxStream.unused_eq (stream : RxStream s) {told : Nat} (use : s.q.descRing.nextToUse = told % vfRxSlots)
    (ahead : s.done ≤ told) (near : told < s.done + vfRxSlots) : s.q.unused = told - s.done := by
  have real : s.q.descRing.realCount = vfRxSlots := by
    rw [RxRing.realCount, stream.descCount]
    rfl
  have far : (told % vfRxSlots + vfRxSlots - s.done % vfRxSlots) % vfRxSlots = told - s.done :=
    Cyclic.dist_mod ahead near
  have small : told - s.done < 65536 := by
    rw [vfRxSlots] at near
    omega
  rw [RxQueue.unused, real, use, stream.descClean, far, Nat.mod_eq_of_lt small]

theorem RxStream.refill (stream : RxStream s) (low : s.q.unused < onicVfRxDescStep / 2) :
    RxStream (s.setQ (s.q.setRxHead ((s.q.descRing.nextToUse + onicVfRxDescStep) % s.q.descRing.realCount))) := by
  obtain ⟨told, use, pidx, taken, near⟩ := stream.credit
  have ahead : s.done ≤ told :=
    stream.done_le.trans (stream.published_le.trans (stream.lens_le.trans taken))
  have window : told < s.done + vfRxSlots := by
    rw [onicVfRxDescStep] at near
    rw [vfRxSlots]
    omega
  rw [stream.unused_eq use ahead window] at low
  have real : s.q.descRing.realCount = vfRxSlots := by
    rw [RxRing.realCount, stream.descCount]
    rfl
  have head : (s.q.descRing.nextToUse + onicVfRxDescStep) % s.q.descRing.realCount =
      (told + onicVfRxDescStep) % vfRxSlots := by rw [use, real, Nat.mod_add_mod]
  exact {
    descCount := stream.descCount
    cmplCount := stream.cmplCount
    descClean := stream.descClean
    cmplClean := stream.cmplClean
    color := stream.color
    credit := ⟨told + onicVfRxDescStep, head, head, Nat.le_add_right_of_le taken, by
      show told + onicVfRxDescStep < s.done + _
      omega⟩
    hwDesc := stream.hwDesc
    hwCmpl := stream.hwCmpl
    hwColor := stream.hwColor
    done_le := stream.done_le
    published_le := stream.published_le
    lens_le := stream.lens_le
    status := stream.status
    slots := stream.slots
    entries := stream.entries
    acceptable := stream.acceptable
    waiting := stream.waiting
    filled := stream.filled
    delivered := stream.delivered }

end

namespace VfRxLink

def onLink {α : Type} (p : Program RxQueue RxInput α) : Program VfRxLink RxInput α := p.lift VfRxLink.q VfRxLink.setQ

end VfRxLink

/-- Both ends keep to the stream; the poll relies on the hardware's part of it. -/
def rxContract : Contract VfRxLink where
  ok _ := True
  inv := RxStream
  rely := HwOnly
  guarantee _ _ := True
  rely_refl := HwOnly.refl
  rely_trans := HwOnly.trans
  guarantee_refl _ := True.intro

/-- `n` completions have been found in the status. -/
def Seen (n : Nat) (s : VfRxLink) : Prop := s.done ≤ n ∧ n ≤ s.hw.published

/-- One of them is still to be delivered, and it is `len` long. -/
def Waiting (n len : Nat) (s : VfRxLink) : Prop := s.done < n ∧ n ≤ s.hw.published ∧ s.hw.lens[s.done]? = some len

section

variable {α : Type} {n len : Nat}

theorem stable_seen (n : Nat) : rxContract.Stable (Seen n) := by
  intro s s' seen between _ _
  rw [Seen, between.done]
  exact ⟨seen.1, seen.2.trans between.published⟩

theorem stable_waiting (n len : Nat) : rxContract.Stable (Waiting n len) := by
  intro s s' next between _ _
  rw [Waiting, between.done]
  refine ⟨next.1, next.2.1.trans between.published, ?_⟩
  obtain ⟨less, -⟩ := List.getElem?_eq_some_iff.mp next.2.2
  obtain ⟨later, same⟩ := between.lens
  rw [← same, List.getElem?_append_left less]
  exact next.2.2

theorem link_read {pre : VfRxLink → Prop} {f : RxQueue → α} {post : α → VfRxLink → Prop} (stable : rxContract.Stable pre)
    (stable' : ∀ a, rxContract.Stable (post a)) (h : ∀ s, RxStream s → pre s → post (f s.q) s) :
    rxContract.Triple pre (VfRxLink.onLink (.read f)) post := by
  apply Contract.Triple.access stable stable'
  intro s _ a s' _ stream holds taken _
  obtain ⟨rfl, rfl⟩ : f s.q = a ∧ s = s' := by simpa [VfRxLink.setQ] using taken
  exact ⟨stream, True.intro, h s stream holds⟩

theorem link_modify {pre post : VfRxLink → Prop} {f : RxQueue → RxQueue} (stable : rxContract.Stable pre)
    (stable' : rxContract.Stable post)
    (h : ∀ s, RxStream s → pre s → RxStream (s.setQ (f s.q)) ∧ post (s.setQ (f s.q))) :
    rxContract.Triple pre (VfRxLink.onLink (.modify f)) fun _ => post := by
  apply Contract.Triple.access stable fun _ => stable'
  intro s _ a s' _ stream holds taken _
  obtain rfl : s.setQ (f s.q) = s' := by simpa using taken
  exact ⟨(h s stream holds).1, True.intro, (h s stream holds).2⟩

theorem readStatus_triple :
    rxContract.Triple (fun _ => True) (VfRxLink.onLink (.read fun q => qdmaUnpackC2hCmplStatPidx q.cmplRing.wb))
      fun pidx s => ∃ n, pidx = n % vfRxSlots ∧ Seen n s := by
  apply link_read (fun _ _ h _ _ _ => h)
  · intro pidx s s' ⟨n, is, seen⟩ between ok inv
    exact ⟨n, is, stable_seen n s s' seen between ok inv⟩
  · intro s stream _
    exact ⟨s.hw.published, stream.status, stream.done_le, Nat.le_refl _⟩

theorem readClean_triple :
    rxContract.Triple (Seen n) (VfRxLink.onLink (.read fun q => q.cmplRing.nextToClean))
      fun clean s => (clean ≠ n % vfRxSlots → ∃ len, Waiting n len s) ∧ Seen n s := by
  apply link_read (stable_seen n)
  · intro clean s s' ⟨more, seen⟩ between ok inv
    refine ⟨fun apart => ?_, stable_seen n s s' seen between ok inv⟩
    obtain ⟨len, next⟩ := more apart
    exact ⟨len, stable_waiting n len s s' next between ok inv⟩
  · intro s stream seen
    refine ⟨fun apart => ?_, seen⟩
    have other : s.done ≠ n := by
      intro same
      rw [stream.cmplClean, same] at apart
      exact apart rfl
    have more : s.done < n := by
      have := seen.1
      omega
    have written : s.done < s.hw.lens.length := more.trans_le (seen.2.trans stream.published_le)
    exact ⟨s.hw.lens[s.done], more, seen.2, List.getElem?_eq_getElem written⟩

theorem RxStream.entry {s : VfRxLink} (stream : RxStream s) (next : Waiting n len s) :
    qdmaUnpackC2hCmpl (s.q.cmplRing.desc s.q.cmplRing.nextToClean) = ⟨s.q.cmplRing.color, 0, len⟩ := by
  obtain ⟨less, is⟩ := List.getElem?_eq_some_iff.mp next.2.2
  rw [stream.cmplClean, stream.entries s.done less (Nat.le_refl _), stream.color, is]

theorem readEntry_triple :
    rxContract.Triple (Waiting n len)
      (VfRxLink.onLink (.read fun q => qdmaUnpackC2hCmpl (q.cmplRing.desc q.cmplRing.nextToClean)))
      fun cmpl s => (cmpl.err = 0 ∧ cmpl.pktLen = len ∧ cmpl.color = s.q.cmplRing.color) ∧ Waiting n len s := by
  apply link_read (stable_waiting n len)
  · intro cmpl s s' ⟨⟨err, pktLen, color⟩, next⟩ between ok inv
    exact ⟨⟨err, pktLen, by rw [between.color, color]⟩, stable_waiting n len s s' next between ok inv⟩
  · intro s stream next
    rw [stream.entry next]
    exact ⟨⟨rfl, rfl, rfl⟩, next⟩

theorem RxStream.valid {s : VfRxLink} (stream : RxStream s) (next : Waiting n len s) {cmpl : C2hCmpl}
    (is : cmpl.err = 0 ∧ cmpl.pktLen = len ∧ cmpl.color = s.q.cmplRing.color) :
    ¬ cmpl.Invalid s.q.cmplRing.color (s.q.buffer s.q.descRing.nextToClean) := by
  obtain ⟨err, pktLen, color⟩ := is
  obtain ⟨pg, slot, -⟩ := stream.slots _ (mod_lt_slots s.done)
  have ok := stream.acceptable len (List.mem_of_getElem? next.2.2)
  rw [stream.descClean, slot]
  rintro (other | error | empty | large)
  · exact other color
  · exact error err
  · omega
  · rw [pktLen] at large
    exact absurd ok.2 (Nat.not_le.mpr large)

theorem checkEntry_triple (cmpl : C2hCmpl) :
    rxContract.Triple
      (fun s => (cmpl.err = 0 ∧ cmpl.pktLen = len ∧ cmpl.color = s.q.cmplRing.color) ∧ Waiting n len s)
      (VfRxLink.onLink (.read fun q => decide (cmpl.Invalid q.cmplRing.color (q.buffer q.descRing.nextToClean))))
      fun invalid s => (invalid = false ∧ cmpl.pktLen = len) ∧ Waiting n len s := by
  apply link_read
  · intro s s' ⟨⟨err, pktLen, color⟩, next⟩ between ok inv
    exact ⟨⟨err, pktLen, by rw [between.color, color]⟩, stable_waiting n len s s' next between ok inv⟩
  · exact fun _ => (stable_waiting n len).pure_and
  · intro s stream ⟨is, next⟩
    exact ⟨⟨decide_eq_false (stream.valid next is), is.2.1⟩, next⟩

theorem onicVfAllocPage_triple :
    rxContract.Triple (Waiting n len) (VfRxLink.onLink onicVfAllocPage) fun _ => Waiting n len := by
  apply Contract.Triple.access (stable_waiting n len) fun _ => stable_waiting n len
  intro s input a s' _ stream next taken _
  obtain ⟨r, first, same⟩ := Option.map_eq_some_iff.mp taken
  cases same
  cases h : input.page with
  | none =>
    simp only [h, Option.some.injEq] at first
    subst first
    exact ⟨stream, True.intro, next⟩
  | some dma =>
    simp only [h, Option.some.injEq] at first
    subst first
    exact ⟨stream.aside (s.q.taken + 1) s.q.returned s.q.cidx, True.intro, next⟩

theorem buildSkb_triple :
    rxContract.Triple (Waiting n len) (VfRxLink.onLink (.access fun input q => some (input.buildSkb, q))) fun _ => Waiting n len := by
  apply Contract.Triple.access (stable_waiting n len) fun _ => stable_waiting n len
  intro s input a s' _ stream next taken _
  obtain ⟨-, rfl⟩ : input.buildSkb = a ∧ s = s' := by simpa [VfRxLink.setQ] using taken
  exact ⟨stream, True.intro, next⟩

theorem deliver_triple (newPg : RxPage) :
    rxContract.Triple (Waiting n len) (VfRxLink.onLink (.modify (RxQueue.deliver len newPg))) fun _ => Seen n := by
  apply link_modify (stable_waiting n len) (stable_seen n)
  intro s stream next
  refine ⟨stream.deliver newPg (next.1.trans_le next.2.1) next.2.2, ?_, next.2.1⟩
  have longer : (s.setQ (s.q.deliver len newPg)).done = s.done + 1 := List.length_append
  rw [longer]
  exact next.1

theorem onicVfRxRefillCredit_triple :
    rxContract.Triple (Seen n) (VfRxLink.onLink onicVfRxRefillCredit) fun _ => Seen n := by
  apply link_modify (stable_seen n) (stable_seen n)
  intro s stream seen
  rw [RxQueue.refillCredit]
  split
  · exact ⟨stream, seen⟩
  · rename_i low
    exact ⟨stream.refill (Nat.not_le.mp low), seen⟩

theorem seen_done (a : α) :
    rxContract.Triple (Seen n) (VfRxLink.onLink (.done a)) fun _ _ => True :=
  .done (stable_seen n) fun _ _ _ => True.intro

/-- The induction is on the budget left. -/
theorem onicVfRxLoop_triple (left work : Nat) :
    rxContract.Triple (Seen n) (VfRxLink.onLink (onicVfRxLoop (n % vfRxSlots) left work)) fun _ _ => True := by
  induction left generalizing work with
  | zero => exact seen_done work
  | succ left ih =>
    rw [onicVfRxLoop, VfRxLink.onLink, Program.lift_bind]
    apply Contract.Triple.bind readClean_triple
    intro clean
    split
    · exact .from_pre _ (fun _ _ here => here.2) (seen_done work)
    · rename_i apart
      refine .from_pre (fun s => ∃ len, Waiting n len s) (fun _ _ here => here.1 apart) ?_
      apply Contract.Triple.exists_pre
      intro len
      rw [Program.lift_bind]
      apply Contract.Triple.bind readEntry_triple
      intro cmpl
      rw [Program.lift_bind]
      apply Contract.Triple.bind (checkEntry_triple cmpl)
      intro invalid
      apply Contract.Triple.pure_pre
      rintro ⟨rfl, is⟩
      rw [if_neg Bool.false_ne_true, Program.lift_bind]
      apply Contract.Triple.bind onicVfAllocPage_triple
      intro page
      cases page with
      | none => exact .done (stable_waiting n len) fun _ _ _ => True.intro
      | some newPg =>
        simp only
        rw [Program.lift_bind]
        apply Contract.Triple.bind buildSkb_triple
        intro built
        split
        · rw [is, Program.lift_bind]
          apply Contract.Triple.bind (deliver_triple newPg)
          intro _
          rw [Program.lift_bind]
          exact .bind onicVfRxRefillCredit_triple fun _ => ih (work + 1)
        · rw [Program.lift_bind]
          refine .bind (M := fun _ => Waiting n len) ?_ fun _ => .done (stable_waiting n len) fun _ _ _ => True.intro
          apply link_modify (stable_waiting n len) (stable_waiting n len)
          intro s stream next
          exact ⟨stream.aside s.q.taken (s.q.returned ++ [newPg]) s.q.cidx, next⟩

theorem onicVfRxPoll_triple (budget : Nat) :
    rxContract.Triple (fun _ => True) (VfRxLink.onLink (onicVfRxPoll budget)) fun _ _ => True := by
  have stable : rxContract.Stable fun _ => True := fun _ _ h _ _ _ => h
  have tail (irqArm : Bool) : rxContract.Triple (fun _ => True) (VfRxLink.onLink (onicVfSetCompletionTail irqArm))
      fun _ _ => True := by
    apply link_modify stable stable
    exact fun s stream _ => ⟨stream.aside s.q.taken s.q.returned _, True.intro⟩
  have finish (work : Nat) : rxContract.Triple (fun _ => True) (VfRxLink.onLink (.done work)) fun _ _ => True :=
    .done stable fun _ _ h => h
  rw [onicVfRxPoll, VfRxLink.onLink, Program.lift_bind]
  apply Contract.Triple.bind readStatus_triple
  intro pidx
  apply Contract.Triple.exists_pre
  intro n
  apply Contract.Triple.pure_pre
  rintro rfl
  rw [Program.lift_bind]
  apply Contract.Triple.bind (onicVfRxLoop_triple budget 0)
  intro work
  split
  · rw [Program.lift_bind]
    refine .bind (M := fun _ _ => True) (.access stable (fun _ => stable) ?_) fun complete => ?_
    · intro s input a s' _ stream _ taken _
      obtain ⟨-, rfl⟩ : input.complete = a ∧ s = s' := by simpa [VfRxLink.setQ] using taken
      exact ⟨stream, True.intro, True.intro⟩
    · rw [Program.lift_bind]
      exact .bind (tail complete) fun _ => finish work
  · rw [Program.lift_bind]
    exact .bind (tail false) fun _ => finish work

end

/-- The rings and the buffers that `onic_vf_alloc_rx_ring` has set up. -/
structure RxQueue.Allocated (q : RxQueue) : Prop where
  descCount : q.descRing.count = onicVfRxRingCount
  descClean : q.descRing.nextToClean = 0
  cmplRing : q.cmplRing = ⟨onicVfCmplRingCount, fun _ => 0, 0, 0, 1⟩
  slots : ∀ i < vfRxSlots, ∃ pg, q.buffer i = ⟨some pg, xdpPacketHeadroom⟩ ∧ q.descRing.desc i = pg.dstAddr
  given : q.given = []

/-- The hardware's side once the contexts are written. -/
def C2hEngine.start : C2hEngine := ⟨0, 0, 1, [], [], 0⟩

theorem RxStream.start {q : RxQueue} (allocated : q.Allocated) : RxStream ⟨q.datapathInit, .start⟩ := by
  have done : VfRxLink.done ⟨q.datapathInit, .start⟩ = 0 := congrArg List.length allocated.given
  have cmplRing : q.datapathInit.cmplRing = _ := allocated.cmplRing
  exact {
    descCount := allocated.descCount
    cmplCount := by
      rw [cmplRing]
    descClean := by
      rw [done]
      exact allocated.descClean
    cmplClean := by
      rw [done, cmplRing]
      rfl
    color := by
      rw [done, cmplRing]
      rfl
    credit := ⟨onicVfRxDescStep, rfl, rfl, Nat.zero_le _, by
      rw [done]
      decide⟩
    hwDesc := rfl
    hwCmpl := rfl
    hwColor := by
      show (1 : BitVec 8) = lapColor 0
      decide
    done_le := by
      rw [done]
      exact Nat.zero_le _
    published_le := Nat.le_refl _
    lens_le := Nat.le_refl _
    status := by
      rw [cmplRing]
      show qdmaUnpackC2hCmplStatPidx 0 = 0
      decide
    slots := allocated.slots
    entries := fun _ h => absurd h (Nat.not_lt_zero _)
    acceptable := nofun
    waiting := fun _ h => absurd h (Nat.not_lt_zero _)
    filled := nofun
    delivered := by
      have given : q.datapathInit.given = [] := allocated.given
      rw [done, given]
      rfl }

/-- Polls with any budget, one at a time. -/
def vfRxRules : Pool.Rules Unit VfRxLink RxInput where
  calls _ _ p := ∃ budget, p = VfRxLink.onLink (onicVfRxPoll budget >>= fun _ => .done ())
  env := C2hStep

theorem vfRxRules_fit :
    Pool.Fits vfRxRules (fun _ => True) RxStream (fun _ => rxContract) fun _ _ => True where
  same_ok _ := rfl
  same_inv _ := rfl
  threads t u apart := absurd rfl apart
  env s s' _ _ stream happens := ⟨(stream.hardware happens).1, fun _ => (stream.hardware happens).2⟩
  calls t s p call ok stream idle := by
    obtain ⟨budget, rfl⟩ := call
    rw [VfRxLink.onLink, Program.lift_bind]
    have finish : rxContract.Triple (fun _ => True) (.done () : Program VfRxLink RxInput Unit) fun _ _ => True :=
      .done (fun _ _ h _ _ _ => h) fun _ _ h => h
    exact Contract.Triple.bind (onicVfRxPoll_triple budget) (fun _ => finish) s ok stream idle

/-- What the stack has been given is, packet by packet, what the hardware has written. -/
structure StreamPrefix (s : VfRxLink) : Prop where
  delivered : s.q.given.map (fun d => (d.page, d.len)) <+: (s.hw.fetched.map Prod.fst).zip s.hw.lens
  filled : ∀ f ∈ s.hw.fetched, ∃ pg : RxPage, f = (some pg, pg.dstAddr)
  color : s.q.cmplRing.color = 1 ^^^ BitVec.ofNat 8 (s.q.given.length / vfRxSlots % 2)

theorem RxStream.streamed {s : VfRxLink} (stream : RxStream s) : StreamPrefix s where
  delivered := by
    rw [stream.delivered, List.zip_eq_zipWith, ← List.take_zipWith]
    exact List.take_prefix _ _
  filled := stream.filled
  color := stream.color

theorem vf_rx_stream {q : RxQueue} (allocated : q.Allocated) {P : Pool Unit VfRxLink RxInput}
    (reach : Pool.Reach vfRxRules (fun _ => True) (Pool.start ⟨q.datapathInit, .start⟩) P) : StreamPrefix P.state := by
  have idle (t : Unit) : (rxContract).wp ((Pool.start (T := Unit) (ι := RxInput)
      (⟨q.datapathInit, .start⟩ : VfRxLink)).thread t) (fun _ _ => True) ⟨q.datapathInit, .start⟩ :=
    fun _ _ _ _ => True.intro
  exact (vfRxRules_fit.reach reach True.intro (.start allocated) idle).2.1.streamed

/-- Page `i` lies in slot `i`. -/
def vfRxAllocated : RxQueue where
  descRing := ⟨onicVfRxRingCount, fun i => RxPage.dstAddr ⟨i, BitVec.ofNat 64 (pageSize * i)⟩, 0, 0, 0⟩
  cmplRing := ⟨onicVfCmplRingCount, fun _ => 0, 0, 0, 1⟩
  buffer := fun i => ⟨some ⟨i, BitVec.ofNat 64 (pageSize * i)⟩, xdpPacketHeadroom⟩
  pidx := 0
  cidx := (0, false)
  taken := vfRxSlots
  given := []
  returned := []
  rung := []

/-- One packet of 64 bytes comes in and is polled. -/
theorem vf_rx_stream_one_packet : ∃ P : Pool Unit VfRxLink RxInput,
    StreamPrefix P.state ∧ P.state.q.given = [⟨0, some ⟨0, 0⟩, 64⟩] := by
  have allocated : vfRxAllocated.Allocated := ⟨rfl, rfl, rfl, fun i _ => ⟨_, rfl, rfl⟩, rfl⟩
  let start : VfRxLink := ⟨vfRxAllocated.datapathInit, .start⟩
  let hw := ((start.fetch).complete 0x4000000002 64).publish 1 1
  have first : C2hStep start start.fetch := .fetch _ (by decide)
  have second : C2hStep start.fetch (start.fetch.complete 0x4000000002 64) :=
    .complete _ _ _ (by decide) (by decide) (by decide) (by decide)
  have third : C2hStep (start.fetch.complete 0x4000000002 64) hw := .publish _ _ _ (by decide) (by decide) (by decide)
  have polled : ((VfRxLink.onLink (onicVfRxPoll 1 >>= fun _ => .done ())).eval ⟨some 0, true, true⟩ hw).map
      (fun r => r.2.q.given) = some [⟨0, some ⟨0, 0⟩, 64⟩] := by decide +kernel
  obtain ⟨⟨_, s⟩, ran, given⟩ := Option.map_eq_some_iff.mp polled
  have rest : Pool.Reach vfRxRules (fun _ => True) (Pool.start hw) ⟨s, (Pool.start hw).thread⟩ :=
    Pool.reach_of_exec (t := ()) rfl ⟨1, rfl⟩ (.of_eval ran)
  have reach : Pool.Reach vfRxRules (fun _ => True) (Pool.start start) ⟨s, (Pool.start hw).thread⟩ :=
    .head ⟨.env first, trivial⟩ (.head ⟨.env second, trivial⟩ (.head ⟨.env third, trivial⟩ rest))
  exact ⟨_, vf_rx_stream allocated reach, given⟩

end OpenNic
