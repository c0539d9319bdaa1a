import OpenNic.Pf.Rollback
import OpenNic.Pf.Probing
import Mathlib.Data.BitVec

namespace OpenNic

open PfNetdev

namespace PfNetdev

/-- The swap clears all queues and opens the device again. -/
def Resets (prog : Option Nat) (s : PfNetdev) : Bool := prog.isSome != s.xdpProg.isSome && s.running

/-- The device after calls of the core, with counters that may change at any time. The flag says that no step
    of the last open or re-open has failed and that no stop came after it. -/
inductive Reach (numTxQueues numRxQueues : Nat) : Bool → PfNetdev → Prop
  | probe : Reach numTxQueues numRxQueues false (probed numTxQueues numRxQueues)
  | opened {up : Bool} {s s' : PfNetdev} {fails : PfFails} {rv : Int} (before : Reach numTxQueues numRxQueues up s)
      (down : s.running = false) (ran : onicOpenNetdev.eval fails s = some (rv, s')) :
      Reach numTxQueues numRxQueues (failing fails s.openSteps).isNone { s' with running := decide (rv = 0) }
  | stopped {up : Bool} {s s' : PfNetdev} {fails : PfFails} (before : Reach numTxQueues numRxQueues up s)
      (running : s.running = true) (ran : onicStopNetdev.eval fails s = some ((), s')) :
      Reach numTxQueues numRxQueues false { s' with running := false }
  | swapped {up : Bool} {s s' : PfNetdev} {fails : PfFails} {prog : Option Nat} {rv : Int}
      (before : Reach numTxQueues numRxQueues up s) (ran : (onicSetupXdpProg prog).eval fails s = some (rv, s'))
      (alive : s'.faults = []) :
      Reach numTxQueues numRxQueues (if s.Resets prog then (failing fails s.openSteps).isNone else up) s'
  | count {up : Bool} {s : PfNetdev} (tx : Nat → BitVec 64 × BitVec 64) (rx : Nat → PfXdpStats)
      (before : Reach numTxQueues numRxQueues up s) : Reach numTxQueues numRxQueues up (s.counted tx rx)

/-- Every queue is there. -/
def Present (s : PfNetdev) : Prop := ∀ slot : PfSlot, slot.Used s → s.objAt slot ≠ none

/-- What holds after every call. -/
structure Ready (numTxQueues numRxQueues : Nat) (up : Bool) (s : PfNetdev) : Prop where
  sound : Sound s
  numTxQueues : s.numTxQueues = numTxQueues
  numRxQueues : s.numRxQueues = numRxQueues
  faults : s.faults = []
  present : up = true → s.Present
  empty : up = false → ∀ slot, s.objAt slot = none
  running : up = true → s.running = true

end PfNetdev

section

variable {fails : PfFails} {s s' : PfNetdev} {up : Bool} {numTxQueues numRxQueues : Nat}

theorem PfNetdev.Sound.congr (sound : Sound s) (hold : s'.hold = s.hold) (objAt : s'.objAt = s.objAt)
    (numTx : s'.numTxQueues = s.numTxQueues) (numRx : s'.numRxQueues = s.numRxQueues) (next : s'.next = s.next)
    (complete : ∀ slot, s'.Complete slot) : Sound s' where
  complete := complete
  whole := by
    intro slot obj there res mem
    rw [hold]
    exact sound.whole slot obj (objAt ▸ there) res mem
  only := by
    intro slot res there here
    exact sound.only slot res (objAt ▸ there) (hold ▸ here)
  apart := by
    intro slot slot' obj there there'
    exact sound.apart slot slot' obj (objAt ▸ there) (objAt ▸ there')
  used := by
    intro slot set
    have used := sound.used slot (objAt ▸ set)
    cases slot with
    | tx qid => rwa [PfSlot.Used, numTx]
    | rx qid => rwa [PfSlot.Used, numRx]
  young := by
    intro res here
    rw [next]
    exact sound.young res (hold ▸ here)

theorem sound_probed : Sound (probed numTxQueues numRxQueues) where
  complete slot := by cases slot <;> simp [PfNetdev.Complete, probed]
  whole slot obj there := by cases slot <;> simp [PfNetdev.objAt, probed] at there
  only slot res there := by cases slot <;> simp [PfNetdev.objAt, probed] at there
  apart slot _ obj there := by cases slot <;> simp [PfNetdev.objAt, probed] at there
  used slot set := by cases slot <;> simp [PfNetdev.objAt, probed] at set
  young res here := by simp [probed, Holdings.none] at here

/-- The loop of the swap where no program has to be attached or detached on queues that are set up. -/
theorem exchange_eval (lo count : Nat) : (Program.fold (fun i _ => exchangeProg i) lo count ()).eval fails s =
    some ((), { s with
      rxQueue := fun qid =>
        if lo ≤ qid ∧ qid < lo + count then (s.rxQueue qid).map fun q => { q with xdpProg := s.xdpProg } else s.rxQueue qid
      faults := s.faults ++ ((List.range' lo count).filter fun qid => (s.rxQueue qid).isNone).map fun _ => .null }) := by
  induction count generalizing lo s with
  | zero =>
    have none (qid : Nat) : ¬ (lo ≤ qid ∧ qid < lo + 0) := by omega
    simp only [Program.fold, Program.eval_done, none, if_false, List.range'_zero, List.filter_nil, List.map_nil, List.append_nil]
  | succ count ih =>
    rw [Program.fold, Program.eval_bind, exchangeProg, Program.eval_modify, Option.bind_some, ih, List.range'_succ]
    congr 2
    cases here : s.rxQueue lo with
    | none =>
      simp only [fault, List.filter_cons, here, Option.isNone_none, if_true, List.map_cons, List.append_assoc, List.cons_append,
        List.nil_append]
      congr 1
      funext qid
      by_cases at_ : qid = lo
      · simp [at_, here]
      · have same : (lo + 1 ≤ qid ∧ qid < lo + 1 + count) = (lo ≤ qid ∧ qid < lo + (count + 1)) := by
          apply propext
          omega
        simp only [same]
    | some q =>
      have others : ((List.range' (lo + 1) count).filter fun qid => (Function.update s.rxQueue lo (some { q with xdpProg := s.xdpProg }) qid).isNone) =
          (List.range' (lo + 1) count).filter fun qid => (s.rxQueue qid).isNone := by
        apply List.filter_congr
        intro qid mem
        have later := (List.mem_range'_1.mp mem).1
        rw [Function.update_of_ne (by omega)]
      simp only [setRx, List.filter_cons, here, Option.isNone_some, Bool.false_eq_true, if_false, others]
      congr 1
      funext qid
      by_cases at_ : qid = lo
      · subst at_
        simp [here]
      · have same : (lo + 1 ≤ qid ∧ qid < lo + 1 + count) = (lo ≤ qid ∧ qid < lo + (count + 1)) := by
          apply propext
          omega
        simp only [same, Function.update_of_ne at_]

/-- The loop of the swap over all receive queues. -/
def PfNetdev.exchanged (s : PfNetdev) : PfNetdev :=
  { s with
    rxQueue := fun qid =>
      if qid < s.numRxQueues then (s.rxQueue qid).map fun q => { q with xdpProg := s.xdpProg } else s.rxQueue qid
    faults := s.faults ++ ((List.range' 0 s.numRxQueues).filter fun qid => (s.rxQueue qid).isNone).map fun _ => .null }

/-- The reference to the old program is dropped. -/
def PfNetdev.dropped (old : Option Nat) (s : PfNetdev) : PfNetdev := { s with puts := s.puts ++ old.toList }

theorem dropped_sound (sound : Sound s) (old : Option Nat) : Sound (s.dropped old) := by
  refine sound.congr rfl ?_ rfl rfl rfl fun slot => ?_
  · funext slot
    cases slot <;> rfl
  · have complete := sound.complete slot
    cases slot <;> exact complete

theorem withProg_sound (sound : Sound s) (prog : Option Nat) : Sound { s with xdpProg := prog } := by
  refine sound.congr rfl ?_ rfl rfl rfl fun slot => ?_
  · funext slot
    cases slot <;> rfl
  · have complete := sound.complete slot
    cases slot <;> exact complete

theorem exchanged_objAt : s.exchanged.objAt = s.objAt := by
  funext slot
  cases slot with
  | tx qid => rfl
  | rx qid =>
    simp only [PfNetdev.objAt, exchanged]
    split
    · rw [Option.map_map]
      rfl
    · rfl

theorem exchanged_sound (sound : Sound s) : Sound s.exchanged := by
  refine sound.congr rfl exchanged_objAt rfl rfl rfl fun slot => ?_
  have complete := sound.complete slot
  cases slot with
  | tx qid => exact complete
  | rx qid =>
    intro q here
    simp only [exchanged] at here
    split at here
    · obtain ⟨old, there, rfl⟩ := Option.map_eq_some_iff.mp here
      exact complete old there
    · exact complete q here

theorem swap_eval_keeps {prog : Option Nat} (keeps : s.Resets prog = false) : (onicSetupXdpProg prog).eval fails s =
    some (0, (PfNetdev.exchanged { s with xdpProg := prog }).dropped s.xdpProg) := by
  have loop : exchangeProgs.eval fails { s with xdpProg := prog } =
      some ((), PfNetdev.exchanged { s with xdpProg := prog }) := by
    rw [exchangeProgs, Program.eval_bind, Program.eval_read, Option.bind_some, exchange_eval]
    simp only [Nat.zero_le, true_and, Nat.zero_add, exchanged]
  have put (t : PfNetdev) : (bpfProgPut s.xdpProg).eval fails t = some ((), t.dropped s.xdpProg) := rfl
  have not : ¬ (prog.isSome != s.xdpProg.isSome && s.running) = true := by simpa [Resets] using keeps
  simp only [onicSetupXdpProg, Program.eval_bind, Program.eval_read, Option.bind_some, Program.eval_access, if_neg not, loop, put]
  cases same : prog.isSome != s.xdpProg.isSome with
  | false => rfl
  | true =>
    have down : s.running = false := by simpa [same] using not
    simp [down]

theorem swap_eval_resets {prog : Option Nat} {mid : PfNetdev} {rv : Int} (resets : s.Resets prog = true)
    (stopped : onicStopNetdev.eval fails { s with xdpProg := prog } = some ((), mid))
    (opened : onicOpenNetdev.eval fails (mid.dropped s.xdpProg) = some (rv, s')) :
    (onicSetupXdpProg prog).eval fails s = some (0, s') := by
  have both : (prog.isSome != s.xdpProg.isSome) = true ∧ s.running = true := by simpa [Resets] using resets
  have put (t : PfNetdev) : (bpfProgPut s.xdpProg).eval fails t = some ((), t.dropped s.xdpProg) := rfl
  have reset : (prog.isSome != s.xdpProg.isSome && s.running) = true := resets
  simp only [onicSetupXdpProg, Program.eval_bind, Program.eval_read, Option.bind_some, Program.eval_access, if_pos reset,
    stopped, put]
  simp only [both.1, Bool.not_true, Bool.false_eq_true, if_false, if_pos both.2, Program.eval_bind, opened, Option.bind_some,
    Program.eval_done]

/-- What the swap leaves where it opens the device again. -/
theorem swap_resets (fails : PfFails) {prog : Option Nat} (sound : Sound s) (resets : s.Resets prog = true) :
    ∃ rv mid s', (onicSetupXdpProg prog).eval fails s = some (0, s') ∧ Same { s with xdpProg := prog } mid ∧
      (∀ slot, mid.objAt slot = none) ∧ Opened fails rv (mid.dropped s.xdpProg) s' := by
  obtain ⟨mid, stopped, shrunk, empty⟩ := stop_run fails (withProg_sound sound prog)
  obtain ⟨rv, s', ran, opened⟩ := open_run fails (dropped_sound shrunk.sound s.xdpProg)
  exact ⟨rv, mid, s', swap_eval_resets resets stopped ran, shrunk.same, empty, opened⟩

theorem withRunning_sound (sound : Sound s) (running : Bool) : Sound { s with running := running } := by
  refine sound.congr rfl ?_ rfl rfl rfl fun slot => ?_
  · funext slot
    cases slot <;> rfl
  · have complete := sound.complete slot
    cases slot <;> exact complete

theorem counted_objAt (tx : Nat → BitVec 64 × BitVec 64) (rx : Nat → PfXdpStats) : (s.counted tx rx).objAt = s.objAt := by
  funext slot
  cases slot <;> simp only [PfNetdev.objAt, counted, Option.map_map] <;> rfl

theorem counted_sound (sound : Sound s) (tx : Nat → BitVec 64 × BitVec 64) (rx : Nat → PfXdpStats) : Sound (s.counted tx rx) := by
  refine sound.congr rfl (counted_objAt tx rx) rfl rfl rfl fun slot => ?_
  have complete := sound.complete slot
  cases slot with
  | tx qid =>
    intro q here
    obtain ⟨old, there, rfl⟩ := Option.map_eq_some_iff.mp here
    exact complete old there
  | rx qid =>
    intro q here
    obtain ⟨old, there, rfl⟩ := Option.map_eq_some_iff.mp here
    exact complete old there

theorem Opened.present {rv : Int} (opened : Opened fails rv s s') (fine : (failing fails s.openSteps).isNone = true) :
    s'.Present ∧ rv = 0 := by
  have after := opened.fine (by simpa using fine)
  exact ⟨after.2, after.1⟩

theorem Opened.empty {rv : Int} (opened : Opened fails rv s s') (failed : (failing fails s.openSteps).isNone = false) :
    ∀ slot, s'.objAt slot = none := by
  cases found : failing fails s.openSteps with
  | none => simp [found] at failed
  | some st => exact (opened.failed st found).2.1

theorem Present.withRunning (present : s.Present) (running : Bool) : PfNetdev.Present { s with running := running } := by
  intro slot used
  have before := present slot (by cases slot <;> exact used)
  cases slot <;> exact before

/-- A swap that does not open the device again leaves the queues that are there. -/
theorem swap_keeps_objAt {prog : Option Nat} :
    ((PfNetdev.exchanged { s with xdpProg := prog }).dropped s.xdpProg).objAt = s.objAt := by
  have same : (PfNetdev.exchanged { s with xdpProg := prog }).objAt = _ := exchanged_objAt
  funext slot
  have at_ := congrFun same slot
  cases slot <;> exact at_

theorem PfNetdev.Reach.ready (reach : Reach numTxQueues numRxQueues up s) : Ready numTxQueues numRxQueues up s := by
  induction reach with
  | probe =>
    refine ⟨sound_probed, rfl, rfl, rfl, nofun, fun _ slot => ?_, nofun⟩
    cases slot <;> rfl
  | @opened up s s' fails rv _ down ran ih =>
    obtain ⟨rv', last, ran', opened⟩ := open_run fails ih.sound
    rw [ran'] at ran
    cases ran
    refine ⟨withRunning_sound opened.sound _, opened.same.numTxQueues.trans ih.numTxQueues,
      opened.same.numRxQueues.trans ih.numRxQueues, opened.same.faults.trans ih.faults, fun fine => ?_, fun failed slot => ?_,
      fun fine => ?_⟩
    · exact Present.withRunning (opened.present fine).1 _
    · have empty := opened.empty failed slot
      cases slot <;> exact empty
    · simp [(opened.present fine).2]
  | @stopped up s s' fails _ running ran ih =>
    obtain ⟨last, ran', shrunk, empty⟩ := stop_run fails ih.sound
    rw [ran'] at ran
    cases ran
    refine ⟨withRunning_sound shrunk.sound _, shrunk.same.numTxQueues.trans ih.numTxQueues,
      shrunk.same.numRxQueues.trans ih.numRxQueues, shrunk.same.faults.trans ih.faults, nofun, fun _ slot => ?_,
      nofun⟩
    have none := empty slot
    cases slot <;> exact none
  | @swapped up s s' fails prog rv _ ran alive ih =>
    cases resets : s.Resets prog with
    | false =>
      rw [swap_eval_keeps resets] at ran
      cases ran
      rw [if_neg (by simp)]
      refine ⟨dropped_sound (exchanged_sound (withProg_sound ih.sound prog)) _, ih.numTxQueues, ih.numRxQueues, alive,
        fun set slot used => ?_, fun unset slot => ?_, ih.running⟩
      · rw [swap_keeps_objAt]
        exact ih.present set slot (by cases slot <;> exact used)
      · rw [swap_keeps_objAt]
        exact ih.empty unset slot
    | true =>
      obtain ⟨rv', mid, last, ran', same, -, opened⟩ := swap_resets fails ih.sound resets
      rw [ran'] at ran
      cases ran
      have running : s.running = true := by
        rw [Resets, Bool.and_eq_true] at resets
        exact resets.2
      have steps : (mid.dropped s.xdpProg).openSteps = s.openSteps := by
        simp only [openSteps, dropped, same.numTxQueues, same.numRxQueues]
      rw [if_pos rfl, ← steps]
      refine ⟨opened.sound, ?_, ?_, alive, fun fine => (opened.present fine).1, opened.empty, fun _ => ?_⟩
      · exact (opened.same.numTxQueues.trans same.numTxQueues).trans ih.numTxQueues
      · exact (opened.same.numRxQueues.trans same.numRxQueues).trans ih.numRxQueues
      · exact (opened.same.running.trans same.running).trans running
  | count tx rx _ ih =>
    refine ⟨counted_sound ih.sound tx rx, ih.numTxQueues, ih.numRxQueues, ih.faults, fun set slot used => ?_, fun unset slot => ?_,
      ih.running⟩
    · rw [counted_objAt]
      exact ih.present set slot (by cases slot <;> exact used)
    · rw [counted_objAt]
      exact ih.empty unset slot

/-- Where a step of `onic_open_netdev` fails, the call returns a negative value and everything that it has
    acquired is released, once. -/
def PfNetdev.RollsBack (fails : PfFails) (s : PfNetdev) : Prop :=
  ∃ rv s', onicOpenNetdev.eval fails s = some (rv, s') ∧
    ((∃ st ∈ s.openSteps, fails st ≠ 0) → rv < 0 ∧ s'.hold.misused = s.hold.misused ∧
      ∀ res : PfRes, s.next ≤ res.obj → s'.hold.held res = false)

/-- The initialisers leave the unwinding to the clear of an entry that they have not set yet. -/
theorem pf_open_rollback_iff (reach : Reach numTxQueues numRxQueues up s) :
    RollsBack fails s ↔ ∀ st, failing fails s.openSteps = some st → st.allocatesQueue = true := by
  obtain ⟨rv, s', ran, opened⟩ := open_run fails reach.ready.sound
  constructor
  · rintro ⟨rv', last, ran', back⟩ st found
    rw [ran] at ran'
    cases ran'
    by_contra part
    obtain ⟨negative, -, -, lost⟩ := opened.failed st found
    obtain ⟨obj, late, held, -⟩ := lost (by simpa using part)
    have mem := failing_some found
    have released := (back ⟨st, mem.1, mem.2⟩).2.2 ⟨obj, .queue⟩ late
    rw [held] at released
    cases released
  · intro object
    refine ⟨rv, s', ran, fun some => ?_⟩
    cases found : failing fails s.openSteps with
    | none =>
      obtain ⟨st, mem, failed⟩ := some
      exact absurd (failing_none.mp found st mem) failed
    | some st =>
      obtain ⟨negative, empty, covered, -⟩ := opened.failed st found
      refine ⟨negative, opened.same.misused, fun res late => ?_⟩
      by_contra held
      obtain ⟨slot, there⟩ := covered (object st found) res late (by simpa using held)
      rw [empty slot] at there
      cases there

theorem pf_open_rollback_no_queue : RollsBack (fun st => if st = .txQueue 0 then 1 else 0) (probed 1 1) := by
  refine (pf_open_rollback_iff .probe).mpr fun st found => ?_
  have first : failing (fun st => if st = .txQueue 0 then 1 else 0) (probed 1 1).openSteps = some (.txQueue 0) := rfl
  rw [first] at found
  cases found
  rfl

/-- The descriptor ring of the first transmit queue is not there: the queue object stays allocated. -/
theorem pf_open_leaks_queue : ¬ ∀ numTxQueues numRxQueues up s fails, Reach numTxQueues numRxQueues up s → RollsBack fails s := by
  intro all
  obtain ⟨rv, s', ran, back⟩ := all 1 1 false _ (fun st => if st = .txDesc 0 then 1 else 0) .probe
  have released := (back ⟨.txDesc 0, by simp [openSteps, probed, PfSlot.steps, PfSlot.fillSteps], by simp⟩).2.2 ⟨0, .queue⟩ (Nat.zero_le _)
  have kept : (onicOpenNetdev.eval (fun st => if st = .txDesc 0 then 1 else 0) (probed 1 1)).map
      (fun r => r.2.hold.held ⟨0, .queue⟩) = some true := by decide
  rw [ran, Option.map_some, released] at kept
  cases kept

/-- The numbers of queues that a successful `onic_probe` has found. -/
def PfNetdev.Probed (numTxQueues numRxQueues : Nat) : Prop :=
  ∃ input device device', device.Unbound ∧ PfDevice.onicProbe.eval input device = some (0, device') ∧ device'.drvdata = true ∧
    device'.numTxQueues = numTxQueues ∧ device'.numRxQueues = numRxQueues

theorem probed_pos (probed : Probed numTxQueues numRxQueues) : 0 < numTxQueues ∧ 0 < numRxQueues := by
  obtain ⟨input, device, device', unbound, ran, drvdata, rfl, rfl⟩ := probed
  obtain ⟨good, handled, unhandled⟩ := probe_eval input unbound
  have down (not : device'.Unbound) : False := by
    rw [not.drvdata] at drvdata
    cases drvdata
  cases found : failing input.fails input.steps with
  | none =>
    obtain ⟨last, ran', bound⟩ := good found
    rw [ran'] at ran
    cases ran
    obtain ⟨t, -, -, -, -, -, -, numTx, numRx, rfl⟩ := bound
    exact ⟨numTx, numRx⟩
  | some st =>
    cases ok : st.handled with
    | true =>
      obtain ⟨rv, negative, last, ran', unbound⟩ := handled st found ok
      rw [ran'] at ran
      cases ran
      exact (down unbound).elim
    | false =>
      rcases unhandled st found ok with stuck | ⟨last, ran', unbound⟩
      · rw [stuck] at ran
        cases ran
      · rw [ran'] at ran
        cases ran
        exact (down unbound).elim

/-- The swap comes to its end without a NULL queue, and when it returns 0 the device is as it was, with the
    new program everywhere and one reference to the old program less. -/
def PfNetdev.Swaps (fails : PfFails) (prog : Option Nat) (s : PfNetdev) : Prop :=
  ∃ rv s', (onicSetupXdpProg prog).eval fails s = some (rv, s') ∧ s'.faults = [] ∧
    (rv = 0 → s'.running = s.running ∧ (s'.running = true → s'.Present) ∧ s'.xdpProg = prog ∧
      (∀ qid q, s'.rxQueue qid = some q → q.xdpProg = s'.xdpProg) ∧ s'.puts = s.puts ++ s.xdpProg.toList)

theorem exchanged_faults (fine : s.faults = []) : s.exchanged.faults = [] ↔ ∀ qid < s.numRxQueues, s.rxQueue qid ≠ none := by
  simp only [exchanged, fine, List.nil_append, List.map_eq_nil_iff, List.filter_eq_nil_iff, List.mem_range'_1, Nat.zero_le, true_and,
    Nat.zero_add, Option.isNone_iff_eq_none, ne_eq]

/-- Where the swap only exchanges the program of the queues, all of them have to be there; where it opens the
    device again, that has to succeed. -/
theorem pf_swap_iff {prog : Option Nat} (probed : Probed numTxQueues numRxQueues) (reach : Reach numTxQueues numRxQueues up s) :
    Swaps fails prog s ↔ if s.Resets prog then failing fails s.openSteps = none else up = true := by
  have ready := reach.ready
  have pos := probed_pos probed
  cases resets : s.Resets prog with
  | false =>
    rw [if_neg (by simp)]
    constructor
    · rintro ⟨rv, s', ran, alive, -⟩
      rw [swap_eval_keeps resets] at ran
      cases ran
      have none := (exchanged_faults (s := { s with xdpProg := prog }) ready.faults).mp alive 0 (by
        have same := ready.numRxQueues
        simp only [same]
        exact pos.2)
      by_contra down
      have empty := ready.empty (by simpa using down) (.rx 0)
      exact none (Option.map_eq_none_iff.mp empty)
    · intro set
      have present := ready.present set
      have there (qid : Nat) (low : qid < s.numRxQueues) : s.rxQueue qid ≠ none := by
        intro none
        exact present (.rx qid) low (Option.map_eq_none_iff.mpr none)
      refine ⟨0, _, swap_eval_keeps resets, (exchanged_faults (s := { s with xdpProg := prog }) ready.faults).mpr there, fun _ =>
        ⟨rfl, fun _ slot used => ?_, rfl, fun qid q here => ?_, rfl⟩⟩
      · rw [swap_keeps_objAt]
        exact present slot (by cases slot <;> exact used)
      · simp only [dropped, exchanged] at here ⊢
        split at here
        · obtain ⟨old, -, rfl⟩ := Option.map_eq_some_iff.mp here
          rfl
        · have used := ready.sound.used (.rx qid) (by simp [PfNetdev.objAt, here])
          contradiction
  | true =>
    rw [if_pos rfl]
    obtain ⟨rv, mid, s', ran, same, empty, opened⟩ := swap_resets fails ready.sound resets
    have steps : (mid.dropped s.xdpProg).openSteps = s.openSteps := by
      simp only [openSteps, dropped, same.numTxQueues, same.numRxQueues]
    have running : s'.running = s.running := opened.same.running.trans same.running
    have up' : s.running = true := by
      rw [Resets, Bool.and_eq_true] at resets
      exact resets.2
    rw [← steps]
    constructor
    · rintro ⟨rv', last, ran', -, whole⟩
      rw [ran] at ran'
      cases ran'
      have present := (whole rfl).2.1 (running.trans up')
      cases found : failing fails (mid.dropped s.xdpProg).openSteps with
      | none => rfl
      | some st =>
        have none := (opened.failed st found).2.1 (.rx 0)
        have used : PfSlot.Used s' (.rx 0) := by
          have number : s'.numRxQueues = numRxQueues :=
            (opened.same.numRxQueues.trans same.numRxQueues).trans ready.numRxQueues
          rw [PfSlot.Used, number]
          exact pos.2
        exact absurd none (present (.rx 0) used)
    · intro fine
      have present := (opened.fine fine).2
      have prog' : s'.xdpProg = prog := opened.same.xdpProg.trans same.xdpProg
      refine ⟨0, s', ran, (opened.same.faults.trans same.faults).trans ready.faults, fun _ => ⟨running, fun _ => present, prog',
        fun qid q here => ?_, ?_⟩⟩
      · rcases opened.same.rxQueue qid q here with old | new
        · have none := empty (.rx qid)
          rw [PfNetdev.objAt, Option.map_eq_none_iff] at none
          have old : mid.rxQueue qid = some q := old
          rw [none] at old
          cases old
        · rw [new, ← opened.same.xdpProg]
      · rw [opened.same.puts, dropped, same.puts]

theorem probed_one : Probed 1 1 :=
  ⟨⟨fun _ => 0, 2, 1⟩, PfDevice.untouched, _, ⟨rfl, rfl⟩, rfl, rfl, rfl, rfl⟩

theorem reach_open_one : ∃ s, Reach 1 1 true s ∧ s.running = true ∧ s.xdpProg = none := by
  obtain ⟨rv, s', ran, opened⟩ := open_run (fun _ => 0) (s := probed 1 1) sound_probed
  have fine : failing (fun _ => 0) (probed 1 1).openSteps = none := failing_none.mpr fun _ _ => rfl
  have start : Reach 1 1 false (probed 1 1) := .probe
  have reach := start.opened rfl ran
  rw [fine] at reach
  refine ⟨_, reach, ?_, opened.same.xdpProg⟩
  simp [(opened.fine fine).1]

theorem pf_swap_iff_attach : ∃ s, Reach 1 1 true s ∧ Swaps (fun _ => 0) (some 7) s := by
  obtain ⟨s, reach, running, prog⟩ := reach_open_one
  refine ⟨s, reach, (pf_swap_iff probed_one reach).mpr ?_⟩
  rw [if_pos (by simp [Resets, running, prog])]
  exact failing_none.mpr fun _ _ => rfl

/-- A program is attached while the device is down. -/
theorem pf_swap_uses_null : ¬ ∀ numTxQueues numRxQueues up s fails prog, Probed numTxQueues numRxQueues →
    Reach numTxQueues numRxQueues up s → Swaps fails prog s := by
  intro all
  obtain ⟨rv, s', ran, alive, -⟩ := all 1 1 false (probed 1 1) (fun _ => 0) (some 7) probed_one .probe
  have null : ((onicSetupXdpProg (some 7)).eval (fun _ => 0) (probed 1 1)).map (fun r => r.2.faults) = some [.null] := rfl
  rw [ran, Option.map_some, alive] at null
  cases null

/-- What a receive queue adds to a counter. -/
def PfRxQueue.counts (q : PfRxQueue) : PfXdpCounter → BitVec 64
  | .redirect => q.xdpRedirect
  | .pass => q.xdpPass
  | .drop => q.xdpDrop
  | .tx => q.xdpTx
  | .txErr => q.xdpTxErr
  | .xmit => 0
  | .xmitErr => 0

/-- What a transmit queue adds to a counter. -/
def PfTxQueue.counts (q : PfTxQueue) : PfXdpCounter → BitVec 64
  | .xmit => q.xdpXmit
  | .xmitErr => q.xdpXmitErr
  | _ => 0

/-- The sum over the queues that exist. -/
def PfNetdev.total (s : PfNetdev) (counter : PfXdpCounter) : BitVec 64 :=
  (((List.range' 0 s.numRxQueues).filterMap s.rxQueue).map fun q => q.counts counter).sum +
    (((List.range' 0 s.numTxQueues).filterMap s.txQueue).map fun q => q.counts counter).sum

/-- Neither entry point uses a NULL queue, and the counters that are reported are the sums. -/
def PfNetdev.EntrySafe (s : PfNetdev) : Prop :=
  (∀ fails, ∃ data s', onicGetEthtoolStats.eval fails s = some (data, s') ∧ s'.faults = [] ∧ ∀ counter, data counter = s.total counter) ∧
    ∀ fails cpu validFlags frames, ∃ rv s', (onicXdpXmit cpu validFlags frames).eval fails s = some (rv, s') ∧ s'.faults = []

section

variable {Q : Type} {queue : Nat → PfNetdev → Option Q} {add : Q → PfXdpStats → PfXdpStats} {counts : Q → PfXdpCounter → BitVec 64}

/-- The loops of `onic_get_ethtool_stats`; what a missing queue leaves in the state does not change the
    queues. -/
theorem addQueues_eval (blind : ∀ j f s, queue j (PfNetdev.fault f s) = queue j s) (lo count : Nat) (stats : PfXdpStats) :
    (Program.fold (addQueue queue add) lo count stats).eval fails s =
      some (((List.range' lo count).filterMap fun j => queue j s).foldl (fun acc q => add q acc) stats,
        { s with faults := s.faults ++ ((List.range' lo count).filter fun j => (queue j s).isNone).map fun _ => .null }) := by
  induction count generalizing lo s stats with
  | zero => simp [Program.fold]
  | succ count ih =>
    rw [Program.fold, Program.eval_bind, addQueue, Program.eval_access, List.range'_succ]
    cases here : queue lo s with
    | none =>
      rw [Option.bind_some, ih]
      simp only [blind, List.filterMap_cons, here, List.filter_cons, Option.isNone_none, if_true, List.map_cons]
      simp [fault]
    | some q =>
      rw [Option.bind_some, ih]
      simp only [List.filterMap_cons, here, List.filter_cons, Option.isNone_some, Bool.false_eq_true, if_false, List.foldl_cons]

theorem addAll_data (adds : ∀ q stats counter, (add q stats).data counter = stats.data counter + counts q counter) (l : List Q)
    (stats : PfXdpStats) (counter : PfXdpCounter) :
    (l.foldl (fun acc q => add q acc) stats).data counter = stats.data counter + (l.map fun q => counts q counter).sum := by
  induction l generalizing stats with
  | nil => simp
  | cons q l ih => rw [List.foldl_cons, ih, adds, List.map_cons, List.sum_cons, BitVec.add_assoc]

end

theorem addRx_data (q : PfRxQueue) (stats : PfXdpStats) (counter : PfXdpCounter) :
    (stats.addRx q).data counter = stats.data counter + q.counts counter := by
  cases counter <;> simp [PfXdpStats.addRx, PfXdpStats.data, PfRxQueue.counts]

theorem addTx_data (q : PfTxQueue) (stats : PfXdpStats) (counter : PfXdpCounter) :
    (stats.addTx q).data counter = stats.data counter + q.counts counter := by
  cases counter <;> simp [PfXdpStats.addTx, PfXdpStats.data, PfTxQueue.counts]

theorem zero_data (counter : PfXdpCounter) : PfXdpStats.zero.data counter = 0#64 := by
  cases counter <;> rfl

/-- The report is right in any state; only the missing queues are the trouble. -/
theorem stats_eval (fails : PfFails) (s : PfNetdev) : ∃ data, onicGetEthtoolStats.eval fails s = some (data,
    { s with
      faults := (s.faults ++ ((List.range' 0 s.numRxQueues).filter fun j => (s.rxQueue j).isNone).map fun _ => .null) ++
        ((List.range' 0 s.numTxQueues).filter fun j => (s.txQueue j).isNone).map fun _ => .null }) ∧
    ∀ counter, data counter = s.total counter := by
  rw [onicGetEthtoolStats, Program.eval_bind, Program.eval_read, Option.bind_some, Program.eval_bind,
    addQueues_eval (fun _ _ _ => rfl), Option.bind_some, Program.eval_bind, Program.eval_read, Option.bind_some, Program.eval_bind,
    addQueues_eval (fun _ _ _ => rfl), Option.bind_some, Program.eval_done]
  refine ⟨_, rfl, fun counter => ?_⟩
  rw [addAll_data addTx_data, addAll_data addRx_data, zero_data, BitVec.zero_add]
  rfl

theorem stats_faults (fine : s.faults = []) :
    (s.faults ++ ((List.range' 0 s.numRxQueues).filter fun j => (s.rxQueue j).isNone).map fun _ => PfFault.null) ++
      (((List.range' 0 s.numTxQueues).filter fun j => (s.txQueue j).isNone).map fun _ => PfFault.null) = [] ↔ s.Present := by
  simp only [fine, List.nil_append, List.append_eq_nil_iff, List.map_eq_nil_iff, List.filter_eq_nil_iff, List.mem_range'_1, Nat.zero_le,
    true_and, Nat.zero_add, Option.isNone_iff_eq_none]
  constructor
  · rintro ⟨rx, tx⟩ slot used
    cases slot with
    | tx qid => exact fun none => tx qid used (Option.map_eq_none_iff.mp none)
    | rx qid => exact fun none => rx qid used (Option.map_eq_none_iff.mp none)
  · intro present
    exact ⟨fun qid low none => present (.rx qid) low (Option.map_eq_none_iff.mpr none),
      fun qid low none => present (.tx qid) low (Option.map_eq_none_iff.mpr none)⟩

theorem mapping_there (present : s.Present) (pos : 0 < s.numTxQueues) (cpu : Nat) : ∃ q, s.onicXdpTxQueueMapping cpu = some q := by
  have low : (if cpu ≥ s.numTxQueues then cpu % s.numTxQueues else cpu) < s.numTxQueues := by
    split
    · exact Nat.mod_lt _ pos
    · omega
  have there := present (.tx _) low
  obtain ⟨q, here⟩ := Option.ne_none_iff_exists'.mp fun none => there (Option.map_eq_none_iff.mpr none)
  exact ⟨q, here⟩

/-- The entries are set exactly between an open without failing step and the next stop. -/
theorem pf_entry_points_iff (probed : Probed numTxQueues numRxQueues) (reach : Reach numTxQueues numRxQueues up s) :
    EntrySafe s ↔ up = true := by
  have ready := reach.ready
  have pos := probed_pos probed
  constructor
  · rintro ⟨stats, -⟩
    obtain ⟨data, s', ran, alive, -⟩ := stats fun _ => 0
    obtain ⟨data', ran', -⟩ := stats_eval (fun _ => 0) s
    rw [ran'] at ran
    cases ran
    have present := (stats_faults ready.faults).mp alive
    by_contra down
    exact present (.rx 0) (by rw [PfSlot.Used, ready.numRxQueues]; exact pos.2) (ready.empty (by simpa using down) _)
  · intro set
    have present := ready.present set
    constructor
    · intro fails
      obtain ⟨data, ran, sums⟩ := stats_eval fails s
      exact ⟨data, _, ran, (stats_faults ready.faults).mpr present, sums⟩
    · intro fails cpu validFlags frames
      obtain ⟨q, here⟩ := mapping_there present (by rw [ready.numTxQueues]; exact pos.1) cpu
      simp only [onicXdpXmit, Program.eval_access, here]
      cases validFlags
      · exact ⟨_, _, rfl, ready.faults⟩
      · exact ⟨_, _, rfl, ready.faults⟩

theorem pf_entry_points_iff_open : ∃ s, Reach 1 1 true s ∧ EntrySafe s := by
  obtain ⟨s, reach, -⟩ := reach_open_one
  exact ⟨s, reach, (pf_entry_points_iff probed_one reach).mpr rfl⟩

/-- The device is down after the probe. -/
theorem pf_stats_use_null : ¬ ∀ numTxQueues numRxQueues up s, Probed numTxQueues numRxQueues → Reach numTxQueues numRxQueues up s →
    EntrySafe s := by
  intro all
  obtain ⟨data, s', ran, alive, -⟩ := (all 1 1 false (probed 1 1) probed_one .probe).1 fun _ => 0
  have null : (onicGetEthtoolStats.eval (fun _ => 0) (probed 1 1)).map (fun r => r.2.faults) = some [.null, .null] := rfl
  rw [ran, Option.map_some, alive] at null
  cases null

end

end OpenNic
