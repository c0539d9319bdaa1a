import OpenNic.Pf.Probe

namespace OpenNic

open PfDevice

/-- Whether a failure of the step makes `onic_probe` return an error. -/
def ProbeStep.handled : ProbeStep → Bool
  | .netdevStats => false
  | .irqName _ => false
  | _ => true

def hardwareSteps : List ProbeStep := [.shellMap, .qdmaDev, .qdmaMap, .clearFmap, .writeFmap]

def vectorSteps (lo n : Nat) : List ProbeStep :=
  (List.range' lo n).flatMap fun vid => [.qVector vid, .irqName vid, .queueIrq vid]

def interruptSteps (masterPf : Bool) (n : Nat) : List ProbeStep :=
  vectorSteps 0 n ++ (.userIrq :: if masterPf then [.mbox, .errorIrq] else [])

namespace ProbeInput

def masterPf (input : ProbeInput) : Bool := input.func == 0

def nonQVectors (input : ProbeInput) : Nat := if input.masterPf then 2 else 1

def numQVectors (input : ProbeInput) : Nat :=
  max (input.nonQVectors + 1) (min input.vectors (maxQueues + input.nonQVectors)) - input.nonQVectors

/-- The steps in the order in which their failures show: a name is only used once its vector is there. -/
def steps (input : ProbeInput) : List ProbeStep :=
  [.enable, .dmaMask, .memRegions, .netdev, .netdevStats, .vectors] ++
    (hardwareSteps ++ (interruptSteps input.masterPf input.numQVectors ++ [.register]))

end ProbeInput

namespace PfDevice

def withHardware (s : PfDevice) : PfDevice :=
  { s with
    hold := (((s.hold.acquire .shellMap).acquire .qdmaDev).acquire .qdmaMap).acquire .fmap
    hwAddr := true
    hwQdma := true }

def withVectors (n : Nat) (s : PfDevice) : PfDevice :=
  { s with
    hold := s.hold.acquireAll ((List.range' 0 n).map .queueIrq)
    qVector := fun vid => decide (vid < n) || s.qVector vid }

def withInterrupt (s : PfDevice) : PfDevice :=
  let user := (s.withVectors s.numQVectors).hold.acquire .userIrq
  { s.withVectors s.numQVectors with
    hold := if s.masterPf then (user.acquire .mboxIrq).acquire .errorIrq else user
    userIntr := true
    errorIntr := s.masterPf }

end PfDevice

section

variable {input : ProbeInput} {s : PfDevice}

theorem clearHardware_eval_both (input : ProbeInput) (hwAddr : s.hwAddr = true) (hwQdma : s.hwQdma = true) : onicClearHardware.eval input s =
    some ((), { s with
      hold := (((s.hold.drop .fmap).release .qdmaMap).release .qdmaDev).release .shellMap
      hwAddr := false
      hwQdma := false }) := by
  simp [onicClearHardware, qdmaDestroyDev, switchOff, free, Program.eval_bind, hwAddr, hwQdma]

theorem clearHardware_eval_map (hwAddr : s.hwAddr = true) (hwQdma : s.hwQdma = false) : onicClearHardware.eval input s =
    some ((), { s with hold := s.hold.release .shellMap, hwAddr := false, hwQdma := false }) := by
  simp [onicClearHardware, free, Program.eval_bind, hwAddr, hwQdma]

theorem hardware_eval_fine (fine : ∀ st ∈ hardwareSteps, input.fails st = 0) :
    onicInitHardware.eval input s = some (0, s.withHardware) := by
  have shellMap := fine .shellMap (by simp [hardwareSteps])
  have qdmaDev := fine .qdmaDev (by simp [hardwareSteps])
  have qdmaMap := fine .qdmaMap (by simp [hardwareSteps])
  have clearFmap := fine .clearFmap (by simp [hardwareSteps])
  have writeFmap := fine .writeFmap (by simp [hardwareSteps])
  simp [onicInitHardware, qdmaCreateDev, alloc, check, request, Program.eval_bind, shellMap, qdmaDev, qdmaMap, clearFmap,
    writeFmap, withHardware]

/-- A stage that fails leaves the device as it was. -/
theorem hardware_eval_failed (input : ProbeInput) (s : PfDevice) (hwAddr : s.hwAddr = false) (hwQdma : s.hwQdma = false)
    (fresh : ∀ res ∈ [ProbeRes.shellMap, .qdmaDev, .qdmaMap, .fmap], s.hold.held res = false)
    (failed : ∃ st ∈ hardwareSteps, input.fails st ≠ 0) : ∃ rv < 0, onicInitHardware.eval input s = some (rv, s) := by
  have noMap := fresh .shellMap (by simp)
  have noDev := fresh .qdmaDev (by simp)
  have noBar := fresh .qdmaMap (by simp)
  have noFmap := fresh .fmap (by simp)
  have same : { s with hwAddr := false, hwQdma := false } = s := by
    cases s
    simp_all
  have undone₂ : ((s.hold.acquire .shellMap).acquire .qdmaDev).release .qdmaDev = s.hold.acquire .shellMap :=
    Holdings.release_acquire (by rw [Holdings.acquire_other (by simp), noDev])
  have undone₃ : (((s.hold.acquire .shellMap).acquire .qdmaDev).acquire .qdmaMap).release .qdmaMap =
      (s.hold.acquire .shellMap).acquire .qdmaDev :=
    Holdings.release_acquire (by rw [Holdings.acquire_other (by simp), Holdings.acquire_other (by simp), noBar])
  have undone₄ : (((s.hold.acquire .shellMap).acquire .qdmaDev).acquire .qdmaMap).drop .fmap =
      ((s.hold.acquire .shellMap).acquire .qdmaDev).acquire .qdmaMap := by
    apply Holdings.drop_absent
    rw [Holdings.acquire_other (by simp), Holdings.acquire_other (by simp), Holdings.acquire_other (by simp), noFmap]
  have undone₁ : (s.hold.acquire .shellMap).release .shellMap = s.hold := Holdings.release_acquire noMap
  by_cases shellMap : input.fails .shellMap = 0
  · by_cases qdmaDev : input.fails .qdmaDev = 0
    · by_cases qdmaMap : input.fails .qdmaMap = 0
      · by_cases clearFmap : input.fails .clearFmap = 0
        · have writeFmap : input.fails .writeFmap ≠ 0 := by
            obtain ⟨st, mem, failed⟩ := failed
            simp only [hardwareSteps, List.mem_cons, List.not_mem_nil, or_false] at mem
            rcases mem with rfl | rfl | rfl | rfl | rfl <;> first | contradiction | exact failed
          refine ⟨- (input.fails .writeFmap : Int), by omega, ?_⟩
          have negative : 0 < input.fails .writeFmap := by omega
          simp [onicInitHardware, qdmaCreateDev, alloc, check, request, Program.eval_bind, shellMap, qdmaDev, qdmaMap, clearFmap,
            writeFmap, negative, clearHardware_eval_both, undone₁, undone₂, undone₃, undone₄, same]
        · have negative : 0 < input.fails .clearFmap := by omega
          refine ⟨- (input.fails .clearFmap : Int), by omega, ?_⟩
          simp [onicInitHardware, qdmaCreateDev, alloc, check, Program.eval_bind, shellMap, qdmaDev, qdmaMap, negative,
            clearHardware_eval_both, undone₁, undone₂, undone₃, undone₄, same]
      · refine ⟨- ENOMEM, by decide, ?_⟩
        simp [onicInitHardware, qdmaCreateDev, alloc, free, Program.eval_bind, shellMap, qdmaDev, qdmaMap, clearHardware_eval_map,
          hwQdma, undone₁, undone₂]
        exact same
    · refine ⟨- ENOMEM, by decide, ?_⟩
      simp [onicInitHardware, qdmaCreateDev, alloc, Program.eval_bind, shellMap, qdmaDev, clearHardware_eval_map, hwQdma, undone₁]
      exact same
  · exact ⟨- EINVAL, by decide, by simp [onicInitHardware, alloc, Program.eval_bind, shellMap]⟩

/-- No interrupt of the driver is set up. -/
structure PfDevice.NoInterrupts (s : PfDevice) : Prop where
  userIntr : s.userIntr = false
  errorIntr : s.errorIntr = false
  qVector : ∀ vid, s.qVector vid = false
  queueIrq : ∀ vid, s.hold.held (.queueIrq vid) = false
  userIrq : s.hold.held .userIrq = false
  mboxIrq : s.hold.held .mboxIrq = false
  errorIrq : s.hold.held .errorIrq = false

theorem withVectors_zero : s.withVectors 0 = s := by
  simp [withVectors, Holdings.acquireAll]

theorem withVectors_hold_succ (n : Nat) :
    (s.withVectors (n + 1)).hold = (s.withVectors n).hold.acquire (.queueIrq n) := by
  simp [withVectors, Holdings.acquireAll, List.range'_concat]

theorem withVectors_succ (n : Nat) : s.withVectors (n + 1) =
    { s.withVectors n with
      hold := (s.withVectors n).hold.acquire (.queueIrq n)
      qVector := Function.update (s.withVectors n).qVector n true } := by
  have vectors : (fun vid => decide (vid < n + 1) || s.qVector vid) =
      Function.update (fun vid => decide (vid < n) || s.qVector vid) n true := by
    funext vid
    by_cases at_ : vid = n
    · simp [at_]
    · have same : vid < n + 1 ↔ vid < n := by omega
      simp [at_, same]
  rw [← withVectors_hold_succ]
  simp only [withVectors, vectors]

theorem withVectors_held {res : ProbeRes} {n : Nat} (other : ∀ vid < n, res ≠ .queueIrq vid) :
    (s.withVectors n).hold.held res = s.hold.held res := by
  have absent : res ∉ (List.range' 0 n).map ProbeRes.queueIrq := by
    intro mem
    obtain ⟨vid, low, rfl⟩ := List.mem_map.mp mem
    have below := (List.mem_range'_1.mp low).2
    exact other vid (by omega) rfl
  simp [withVectors, Holdings.acquireAll_held, absent]

theorem initQVector_eval (vid : Nat) : (onicInitQVector vid).eval input s =
    if input.fails (.qVector vid) ≠ 0 then some (- ENOMEM, s)
    else if input.fails (.irqName vid) ≠ 0 then none
    else if input.fails (.queueIrq vid) ≠ 0 then some (- (input.fails (.queueIrq vid) : Int), s)
    else some (0, { s with
      hold := s.hold.acquire (.queueIrq vid)
      qVector := Function.update s.qVector vid true }) := by
  by_cases qVector : input.fails (.qVector vid) = 0
  · by_cases irqName : input.fails (.irqName vid) = 0
    · by_cases queueIrq : input.fails (.queueIrq vid) = 0
      · simp [onicInitQVector, provides, request, Program.eval_bind, qVector, irqName, queueIrq]
      · have negative : 0 < input.fails (.queueIrq vid) := by omega
        simp [onicInitQVector, provides, request, Program.eval_bind, qVector, irqName, queueIrq, negative]
    · simp [onicInitQVector, provides, Program.eval_bind, qVector, irqName]
  · simp [onicInitQVector, provides, Program.eval_bind, qVector]

/-- The induction is on the number of vectors left. -/
theorem vectors_eval (input : ProbeInput) (s : PfDevice) (lo n : Nat) :
    (failing input.fails (vectorSteps lo n) = none →
      (Program.untilErr onicInitQVector lo n).eval input (s.withVectors lo) = some (0, s.withVectors (lo + n))) ∧
    (∀ st, failing input.fails (vectorSteps lo n) = some st → st.handled = true →
      ∃ rv < 0, ∃ k ≤ lo + n, (Program.untilErr onicInitQVector lo n).eval input (s.withVectors lo) = some (rv, s.withVectors k)) ∧
    ∀ st, failing input.fails (vectorSteps lo n) = some st → st.handled = false →
      (Program.untilErr onicInitQVector lo n).eval input (s.withVectors lo) = none := by
  induction n generalizing lo with
  | zero => exact ⟨fun _ => rfl, fun st found => by simp [vectorSteps, failing] at found, fun st found => by simp [vectorSteps, failing] at found⟩
  | succ n ih =>
    have steps : vectorSteps lo (n + 1) = [.qVector lo, .irqName lo, .queueIrq lo] ++ vectorSteps (lo + 1) n := by
      simp [vectorSteps, List.range'_succ]
    rw [steps, failing_append, Program.untilErr, Program.eval_bind, initQVector_eval]
    by_cases qVector : input.fails (.qVector lo) = 0
    · by_cases irqName : input.fails (.irqName lo) = 0
      · by_cases queueIrq : input.fails (.queueIrq lo) = 0
        · have head : failing input.fails [.qVector lo, .irqName lo, .queueIrq lo] = none := by
            simp [failing, qVector, irqName, queueIrq]
          have rest := ih (lo + 1)
          rw [withVectors_succ] at rest
          simp only [head, Option.none_or, qVector, irqName, queueIrq, ne_eq, not_true_eq_false, if_false, Option.bind_some]
          rwa [Nat.add_right_comm] at rest
        · have head : failing input.fails [.qVector lo, .irqName lo, .queueIrq lo] = some (.queueIrq lo) := by
            simp [failing, qVector, irqName, queueIrq]
          simp only [head, Option.some_or, qVector, irqName, queueIrq, ne_eq, not_true_eq_false, if_false, not_false_eq_true, if_true,
            Option.bind_some, neg_eq_zero, Nat.cast_eq_zero, Program.eval_done]
          refine ⟨fun none => (by cases none), fun st found _ => ?_, ?_⟩
          · exact ⟨- (input.fails (.queueIrq lo) : Int), by omega, lo, by omega, rfl⟩
          · rintro st ⟨⟩ unhandled
            cases unhandled
      · have head : failing input.fails [.qVector lo, .irqName lo, .queueIrq lo] = some (.irqName lo) := by
          simp [failing, qVector, irqName]
        simp only [head, Option.some_or, qVector, irqName, ne_eq, not_true_eq_false, if_false, not_false_eq_true, if_true,
          Option.bind_none]
        refine ⟨fun none => (by cases none), ?_, fun _ _ _ => trivial⟩
        rintro st ⟨⟩ handled
        cases handled
    · have head : failing input.fails [.qVector lo, .irqName lo, .queueIrq lo] = some (.qVector lo) := by
        simp [failing, qVector]
      simp only [head, Option.some_or, qVector, ne_eq, not_false_eq_true, if_true, Option.bind_some]
      refine ⟨fun none => (by cases none), fun st found _ => ?_, ?_⟩
      · exact ⟨- ENOMEM, by decide, lo, by omega, rfl⟩
      · rintro st ⟨⟩ unhandled
        cases unhandled

theorem clearQVectors_eval {k n : Nat} (idle : s.NoInterrupts) (le : k ≤ n) :
    (clearQVectors n).eval input (s.withVectors k) = some ((), s) := by
  induction n generalizing k with
  | zero =>
    obtain rfl : k = 0 := by omega
    rw [withVectors_zero]
    rfl
  | succ n ih =>
    rw [clearQVectors, Program.eval_bind]
    by_cases last : k = n + 1
    · subst last
      have fresh : (s.withVectors n).hold.held (.queueIrq n) = false := by
        rw [withVectors_held fun vid low => by simp; omega]
        exact idle.queueIrq n
      have cleared : (onicClearQVector n).eval input (s.withVectors (n + 1)) = some ((), s.withVectors n) := by
        have set : (s.withVectors (n + 1)).qVector n = true := by simp [withVectors]
        have vectors : Function.update (s.withVectors n).qVector n false = (s.withVectors n).qVector := by
          rw [Function.update_eq_self_iff]
          simp [withVectors, idle.qVector]
        simp only [onicClearQVector, Program.eval_bind, Program.eval_read, Option.bind_some, set, if_true, free, Program.eval_modify]
        rw [withVectors_succ]
        simp only [Holdings.release_acquire fresh, Function.update_idem, vectors]
      rw [cleared]
      exact ih (Nat.le_refl n)
    · have unset : (s.withVectors k).qVector n = false := by
        have high : ¬ n < k := by omega
        simp [withVectors, high, idle.qVector]
      have kept : (onicClearQVector n).eval input (s.withVectors k) = some ((), s.withVectors k) := by
        simp [onicClearQVector, Program.eval_bind, unset]
      rw [kept]
      exact ih (by omega)

/-- The interrupts other than those of the queues. -/
def PfDevice.withOthers (user mbox error : Bool) (s : PfDevice) : PfDevice :=
  let userHold := if user then s.hold.acquire .userIrq else s.hold
  let mboxHold := if mbox then userHold.acquire .mboxIrq else userHold
  { s with
    hold := if error then mboxHold.acquire .errorIrq else mboxHold
    userIntr := user
    errorIntr := error }

/-- What `onic_clear_interrupt` does before it comes to the queue vectors. -/
def PfDevice.withoutOthers (s : PfDevice) : PfDevice :=
  let mboxHold := if s.masterPf then s.hold.drop .mboxIrq else s.hold
  let errorHold := if s.masterPf && s.errorIntr then mboxHold.release .errorIrq else mboxHold
  { s with
    hold := if s.userIntr then errorHold.release .userIrq else errorHold
    errorIntr := if s.masterPf then false else s.errorIntr
    userIntr := false }

theorem clearInterrupt_eval :
    onicClearInterrupt.eval input s = (clearQVectors s.numQVectors).eval input s.withoutOthers := by
  rcases s with ⟨hold, drvdata, masterPf, numQVectors, numTxQueues, numRxQueues, qVector, userIntr, errorIntr⟩
  cases masterPf <;> cases errorIntr <;> cases userIntr
  all_goals simp [onicClearInterrupt, switchOff, free, Program.eval_bind, withoutOthers]

/-- Only the master PF has the mailbox and error interrupts. -/
theorem withoutOthers_withOthers {user mbox error : Bool} (userIntr : s.userIntr = false) (errorIntr : s.errorIntr = false)
    (noUser : s.hold.held .userIrq = false) (noMbox : s.hold.held .mboxIrq = false) (noError : s.hold.held .errorIrq = false)
    (master : s.masterPf = false → mbox = false ∧ error = false) : (s.withOthers user mbox error).withoutOthers = s := by
  have hold : (s.withOthers user mbox error).withoutOthers.hold = s.hold := by
    cases masterPf : s.masterPf with
    | false =>
      obtain ⟨rfl, rfl⟩ := master masterPf
      cases user
      · simp [withOthers, withoutOthers, masterPf]
      · simpa [withOthers, withoutOthers, masterPf] using Holdings.release_acquire noUser
    | true =>
      cases user <;> cases mbox <;> cases error
      all_goals
        ext res
        · cases res <;> simp [withOthers, withoutOthers, masterPf, Holdings.acquire, Holdings.release, Holdings.drop, noUser, noMbox, noError]
        · simp [withOthers, withoutOthers, masterPf, Holdings.acquire, Holdings.release, Holdings.drop, noUser, noMbox, noError]
  rcases s with ⟨held, drvdata, masterPf, numQVectors, numTxQueues, numRxQueues, qVector, user₀, error₀⟩
  cases userIntr
  cases errorIntr
  have errorOff : (if masterPf then false else error) = false := by
    cases masterPf with
    | false => simpa using (master rfl).2
    | true => rfl
  simp only [withOthers, withoutOthers] at hold ⊢
  simp only [hold, errorOff]

def otherSteps (masterPf : Bool) : List ProbeStep := .userIrq :: if masterPf then [.mbox, .errorIrq] else []

theorem others_eval_fine (input : ProbeInput) (errorIntr : s.errorIntr = false) (noMbox : s.hold.held .mboxIrq = false)
    (fine : ∀ st ∈ otherSteps s.masterPf, input.fails st = 0) :
    onicInitOtherInterrupts.eval input s = some (0, s.withOthers true s.masterPf s.masterPf) := by
  have user := fine .userIrq (by simp [otherSteps])
  rcases s with ⟨hold, drvdata, masterPf, numQVectors, numTxQueues, numRxQueues, qVector, userIntr, error₀⟩
  cases errorIntr
  cases masterPf with
  | false => simp [onicInitOtherInterrupts, request, Program.eval_bind, user, withOthers]
  | true =>
    have mbox := fine .mbox (by simp [otherSteps])
    have error := fine .errorIrq (by simp [otherSteps])
    have absent : (hold.acquire .userIrq).drop .mboxIrq = hold.acquire .userIrq :=
      Holdings.drop_absent ((Holdings.acquire_other (by simp)).trans noMbox)
    simp [onicInitOtherInterrupts, onicInitMasterInterrupt, onicPfMboxIrqInit, switchOff, request, Program.eval_bind, user, mbox,
      error, withOthers, absent]

theorem others_eval_failed (input : ProbeInput) (userIntr : s.userIntr = false) (errorIntr : s.errorIntr = false) (noMbox : s.hold.held .mboxIrq = false)
    (failed : ∃ st ∈ otherSteps s.masterPf, input.fails st ≠ 0) :
    ∃ rv < 0, ∃ user mbox, (s.masterPf = false → mbox = false) ∧
      onicInitOtherInterrupts.eval input s = some (rv, s.withOthers user mbox false) := by
  rcases s with ⟨hold, drvdata, masterPf, numQVectors, numTxQueues, numRxQueues, qVector, user₀, error₀⟩
  cases userIntr
  cases errorIntr
  by_cases user : input.fails .userIrq = 0
  · cases masterPf with
    | false => simp [otherSteps, user] at failed
    | true =>
      have absent : (hold.acquire .userIrq).drop .mboxIrq = hold.acquire .userIrq :=
        Holdings.drop_absent ((Holdings.acquire_other (by simp)).trans noMbox)
      by_cases mbox : input.fails .mbox = 0
      · have error : 0 < input.fails .errorIrq := by
          simp [otherSteps, user, mbox] at failed
          omega
        have not : input.fails .errorIrq ≠ 0 := by omega
        refine ⟨- (input.fails .errorIrq : Int), by omega, true, true, by simp, ?_⟩
        simp [onicInitOtherInterrupts, onicInitMasterInterrupt, onicPfMboxIrqInit, switchOff, request, Program.eval_bind, user, mbox,
          error, not, withOthers, absent]
      · have negative : 0 < input.fails .mbox := by omega
        refine ⟨- (input.fails .mbox : Int), by omega, true, false, by simp, ?_⟩
        simp [onicInitOtherInterrupts, onicInitMasterInterrupt, onicPfMboxIrqInit, switchOff, request, Program.eval_bind, user, mbox,
          negative, withOthers, absent]
  · have negative : 0 < input.fails .userIrq := by omega
    refine ⟨- (input.fails .userIrq : Int), by omega, false, false, by simp, ?_⟩
    simp [onicInitOtherInterrupts, request, Program.eval_bind, user, negative, withOthers]

theorem withVectors_noOthers (idle : s.NoInterrupts) (k : Nat) :
    (s.withVectors k).userIntr = false ∧ (s.withVectors k).errorIntr = false ∧ (s.withVectors k).hold.held .userIrq = false ∧
      (s.withVectors k).hold.held .mboxIrq = false ∧ (s.withVectors k).hold.held .errorIrq = false :=
  ⟨idle.userIntr, idle.errorIntr, (withVectors_held (by simp)).trans idle.userIrq, (withVectors_held (by simp)).trans idle.mboxIrq,
    (withVectors_held (by simp)).trans idle.errorIrq⟩

/-- Whatever has been set up of the interrupts, the clear leaves nothing of it. -/
theorem clearInterrupt_undoes (input : ProbeInput) (user mbox error : Bool) {k : Nat} (idle : s.NoInterrupts) (le : k ≤ s.numQVectors)
    (master : s.masterPf = false → mbox = false ∧ error = false) :
    onicClearInterrupt.eval input ((s.withVectors k).withOthers user mbox error) = some ((), s) := by
  obtain ⟨userIntr, errorIntr, noUser, noMbox, noError⟩ := withVectors_noOthers idle k
  have cleared : (clearQVectors s.numQVectors).eval input (s.withVectors k) = some ((), s) := clearQVectors_eval idle le
  rw [clearInterrupt_eval, withoutOthers_withOthers userIntr errorIntr noUser noMbox noError master]
  exact cleared

theorem interrupt_eval (input : ProbeInput) (idle : s.NoInterrupts) :
    (failing input.fails (interruptSteps s.masterPf s.numQVectors) = none → onicInitInterrupt.eval input s =
      some (0, (s.withVectors s.numQVectors).withOthers true s.masterPf s.masterPf)) ∧
    (∀ st, failing input.fails (interruptSteps s.masterPf s.numQVectors) = some st → st.handled = true →
      ∃ rv < 0, onicInitInterrupt.eval input s = some (rv, s)) ∧
    ∀ st, failing input.fails (interruptSteps s.masterPf s.numQVectors) = some st → st.handled = false →
      onicInitInterrupt.eval input s = none := by
  obtain ⟨fine, handled, unhandled⟩ := vectors_eval input s 0 s.numQVectors
  rw [withVectors_zero] at fine handled unhandled
  rw [Nat.zero_add] at fine handled
  have steps : interruptSteps s.masterPf s.numQVectors = vectorSteps 0 s.numQVectors ++ otherSteps s.masterPf := rfl
  rw [steps, failing_append, onicInitInterrupt, Program.eval_bind, onicInitVectors, Program.eval_bind, Program.eval_read, Option.bind_some,
    Program.eval_bind]
  cases head : failing input.fails (vectorSteps 0 s.numQVectors) with
  | none =>
    rw [fine head, Option.none_or, Option.bind_some, if_neg (by simp)]
    obtain ⟨userIntr, errorIntr, noUser, noMbox, noError⟩ := withVectors_noOthers idle s.numQVectors
    have master : (s.withVectors s.numQVectors).masterPf = s.masterPf := rfl
    refine ⟨fun none => ?_, fun st found _ => ?_, fun st found unhandled => ?_⟩
    · have ran := others_eval_fine input errorIntr noMbox (failing_none.mp none)
      rw [master] at ran
      rw [ran]
      rfl
    · obtain ⟨rv, negative, user, mbox, slave, ran⟩ := others_eval_failed input userIntr errorIntr noMbox
        ⟨st, (failing_some found).1, (failing_some found).2⟩
      have cleared := clearInterrupt_undoes input user mbox false idle (Nat.le_refl _)
        fun slave' => ⟨slave slave', rfl⟩
      refine ⟨rv, negative, ?_⟩
      rw [ran, Option.bind_some, if_pos negative, Program.eval_bind, cleared]
      rfl
    · have mem := (failing_some found).1
      simp only [otherSteps, List.mem_cons] at mem
      rcases mem with rfl | mem
      · cases unhandled
      · split at mem
        · simp only [List.mem_cons, List.not_mem_nil, or_false] at mem
          rcases mem with rfl | rfl <;> cases unhandled
        · cases mem
  | some st =>
    rw [Option.some_or]
    refine ⟨fun none => (by cases none), ?_, ?_⟩
    · rintro st' ⟨⟩ ok
      obtain ⟨rv, negative, k, le, ran⟩ := handled st head ok
      have cleared := clearInterrupt_undoes input false false false idle le fun _ => ⟨rfl, rfl⟩
      have same : (s.withVectors k).withOthers false false false = s.withVectors k := by
        obtain ⟨userIntr, errorIntr, -⟩ := withVectors_noOthers idle k
        cases s
        cases userIntr
        cases errorIntr
        rfl
      rw [same] at cleared
      refine ⟨rv, negative, ?_⟩
      rw [ran, Option.bind_some, if_pos negative, Program.eval_done, Option.bind_some, if_pos negative, Program.eval_bind, cleared]
      rfl
    · rintro st' ⟨⟩ bad
      rw [unhandled st head bad]
      rfl

namespace PfDevice

/-- What is held after the per-CPU statistics. -/
def baseHold : Holdings ProbeRes :=
  (((Holdings.none.acquire .pciDevice).acquire .memRegions).acquire .netdev).acquire .netdevStats

/-- After the hardware. -/
def hardwareHold : Holdings ProbeRes :=
  ((((baseHold.acquire .msixVectors).acquire .shellMap).acquire .qdmaDev).acquire .qdmaMap).acquire .fmap

/-- After the per-CPU statistics. -/
def withStats (input : ProbeInput) (s : PfDevice) : PfDevice :=
  { s.zeroPriv input.func with hold := baseHold, netdevStats := true }

def withCapacity (input : ProbeInput) (s : PfDevice) : PfDevice :=
  { s with
    hold := s.hold.acquire .msixVectors
    numQVectors := input.numQVectors
    numTxQueues := min input.numQVectors maxQueues
    numRxQueues := min input.numQVectors maxQueues }

end PfDevice

theorem baseHold_undone :
    (((baseHold.release .netdevStats).release .netdev).release .memRegions).release .pciDevice = Holdings.none := by
  ext res
  · cases res <;> simp [baseHold, Holdings.none, Holdings.acquire, Holdings.release]
  · simp [baseHold, Holdings.none, Holdings.acquire, Holdings.release]

theorem capacity_undone : (baseHold.acquire .msixVectors).release .msixVectors = baseHold := by
  apply Holdings.release_acquire
  simp [baseHold, Holdings.none, Holdings.acquire]

theorem hardwareHold_undone : ((((hardwareHold.drop .fmap).release .qdmaMap).release .qdmaDev).release .shellMap) =
    baseHold.acquire .msixVectors := by
  ext res
  · cases res <;> simp [hardwareHold, baseHold, Holdings.none, Holdings.acquire, Holdings.release, Holdings.drop]
  · simp [hardwareHold, baseHold, Holdings.none, Holdings.acquire, Holdings.release, Holdings.drop]

theorem capacity_eval (master : s.masterPf = input.masterPf) : onicInitCapacity.eval input s =
    if input.fails .vectors = 0 then some (0, s.withCapacity input) else some (- (input.fails .vectors : Int), s) := by
  by_cases fine : input.fails .vectors = 0
  · have count (minVecs maxVecs : Nat) : (pciAllocIrqVectors minVecs maxVecs).eval input s =
        some (((max minVecs (min input.vectors maxVecs) : Nat) : Int), { s with hold := s.hold.acquire .msixVectors }) := by
      simp only [pciAllocIrqVectors, Program.eval_access, if_pos fine]
    have nonneg (n : Nat) : ¬ (n : Int) < 0 := by omega
    have nonQ : (if s.masterPf = true then 2 else 1) = input.nonQVectors := by
      rw [master]
      rfl
    simp only [onicInitCapacity, onicAcquireMsixVectors, Program.eval_bind, Program.eval_read, Option.bind_some, nonQ, count,
      if_neg (nonneg _), Program.eval_modify, Program.eval_done, onicSetNumQueues, Int.toNat_natCast, if_pos fine, Int.lt_irrefl,
      if_false]
    rfl
  · have negative : 0 < input.fails .vectors := by omega
    simp [onicInitCapacity, onicAcquireMsixVectors, pciAllocIrqVectors, Program.eval_bind, fine, negative]

/-- The ways out of `onic_probe` leave nothing. -/
theorem freeStats_eval (rv : Int) (hold : s.hold = baseHold) (stats : s.netdevStats = true) :
    (freeStats rv).eval input s = some (rv, { s with hold := .none, netdevStats := false }) := by
  simp [freeStats, freeNetdev, releasePciMem, disableDevice, free, Program.eval_bind, stats, hold, baseHold_undone]

theorem clearCapacity_eval (rv : Int) (hold : s.hold = baseHold.acquire .msixVectors) (stats : s.netdevStats = true) :
    (clearCapacity rv).eval input s =
      some (rv, { s with hold := .none, netdevStats := false, numQVectors := 0, numTxQueues := 0, numRxQueues := 0 }) := by
  simp [clearCapacity, onicClearCapacity, free, Program.eval_bind, freeStats_eval, stats, hold, capacity_undone]

theorem clearHardware_eval (input : ProbeInput) (rv : Int) (hold : s.hold = hardwareHold) (stats : s.netdevStats = true) (hwAddr : s.hwAddr = true)
    (hwQdma : s.hwQdma = true) : ∃ s', (clearHardware rv).eval input s = some (rv, s') ∧ s'.hold = .none ∧ s'.drvdata = s.drvdata := by
  have ran := clearHardware_eval_both input hwAddr hwQdma
  rw [hold, hardwareHold_undone] at ran
  rw [clearHardware, Program.eval_bind, ran, Option.bind_some]
  exact ⟨_, clearCapacity_eval rv rfl stats, rfl, rfl⟩

/-- What a probe that returns 0 without the defects leaves. -/
def PfDevice.Bound (s : PfDevice) : Prop :=
  ∃ t : PfDevice, t.NoInterrupts ∧ t.drvdata = true ∧ t.netdevStats = true ∧ t.hwAddr = true ∧ t.hwQdma = true ∧
    t.hold = hardwareHold ∧ 0 < t.numTxQueues ∧ 0 < t.numRxQueues ∧
      let others := (t.withVectors t.numQVectors).withOthers true t.masterPf t.masterPf
      s = { others with hold := others.hold.acquire .registered }

def privSteps (input : ProbeInput) : List ProbeStep :=
  [.vectors] ++ (hardwareSteps ++ (interruptSteps input.masterPf input.numQVectors ++ [.register]))

/-- The device as `onic_init_interrupt` finds it. -/
structure PfDevice.Prepared (input : ProbeInput) (s : PfDevice) : Prop where
  idle : s.NoInterrupts
  hold : s.hold = hardwareHold
  netdevStats : s.netdevStats = true
  hwAddr : s.hwAddr = true
  hwQdma : s.hwQdma = true
  masterPf : s.masterPf = input.masterPf
  numQVectors : s.numQVectors = input.numQVectors
  numTxQueues : s.numTxQueues = min input.numQVectors maxQueues
  numRxQueues : s.numRxQueues = min input.numQVectors maxQueues

theorem prepared_withStats : ((s.withStats input).withCapacity input).withHardware.Prepared input := by
  refine ⟨⟨rfl, rfl, fun _ => rfl, fun vid => ?_, ?_, ?_, ?_⟩, rfl, rfl, rfl, rfl, rfl, rfl, rfl, rfl⟩
  all_goals simp [withHardware, withCapacity, withStats, baseHold, Holdings.acquire, Holdings.none]

theorem registered_fresh (hold : s.hold = hardwareHold) (n : Nat) (user mbox error : Bool) :
    ((s.withVectors n).withOthers user mbox error).hold.held .registered = false := by
  have fresh : (s.withVectors n).hold.held .registered = false := by
    rw [withVectors_held (by simp), hold]
    simp [hardwareHold, baseHold, Holdings.acquire, Holdings.none]
  cases user <;> cases mbox <;> cases error <;> simp [withOthers, Holdings.acquire, fresh]

theorem register_eval {prepared : PfDevice} (ready : prepared.Prepared input)
    (drvdata : prepared.drvdata = false) : ∃ s', (clearInterrupt (- (input.fails .register : Int))).eval input
      ((prepared.withVectors prepared.numQVectors).withOthers true prepared.masterPf prepared.masterPf) =
        some (- (input.fails .register : Int), s') ∧ s'.hold = .none ∧ s'.drvdata = false := by
  have cleared := clearInterrupt_undoes input true prepared.masterPf prepared.masterPf ready.idle (Nat.le_refl _)
    fun slave => ⟨slave, slave⟩
  obtain ⟨s', ran, hold, same⟩ := clearHardware_eval input (- (input.fails .register : Int)) ready.hold ready.netdevStats
    ready.hwAddr ready.hwQdma
  refine ⟨s', ?_, hold, same.trans drvdata⟩
  rw [clearInterrupt, Program.eval_bind, cleared]
  exact ran

theorem probePriv_eval (input : ProbeInput) (drvdata : s.drvdata = false) :
    (failing input.fails (privSteps input) = none → ∃ s', probePriv.eval input (s.withStats input) = some (0, s') ∧ s'.Bound) ∧
    (∀ st, failing input.fails (privSteps input) = some st → st.handled = true → ∃ rv < 0, ∃ s',
      probePriv.eval input (s.withStats input) = some (rv, s') ∧ s'.hold = .none ∧ s'.drvdata = false) ∧
    ∀ st, failing input.fails (privSteps input) = some st → st.handled = false →
      probePriv.eval input (s.withStats input) = none := by
  rw [privSteps, failing_append, failing_append, failing_append, probePriv, Program.eval_bind, capacity_eval rfl]
  by_cases vectors : input.fails .vectors = 0
  swap
  · have negative : - (input.fails .vectors : Int) < 0 := by omega
    have head : failing input.fails [ProbeStep.vectors] = some .vectors := by simp [failing, vectors]
    rw [head, Option.some_or, if_neg vectors, Option.bind_some, if_pos negative, freeStats_eval _ rfl rfl]
    refine ⟨fun none => (by cases none), fun st _ _ => ⟨_, negative, _, rfl, rfl, drvdata⟩, ?_⟩
    rintro st ⟨⟩ unhandled
    cases unhandled
  have head : failing input.fails [ProbeStep.vectors] = none := by simp [failing, vectors]
  rw [head, Option.none_or, if_pos vectors, Option.bind_some, if_neg (by simp), Program.eval_bind]
  cases hardware : failing input.fails hardwareSteps with
  | some st =>
    have fresh : ∀ res ∈ [ProbeRes.shellMap, .qdmaDev, .qdmaMap, .fmap],
        ((s.withStats input).withCapacity input).hold.held res = false := by
      simp [withCapacity, withStats, baseHold, Holdings.acquire, Holdings.none]
    obtain ⟨rv, negative, ran⟩ := hardware_eval_failed input ((s.withStats input).withCapacity input) rfl rfl fresh
      ⟨st, (failing_some hardware).1, (failing_some hardware).2⟩
    rw [Option.some_or, ran, Option.bind_some, if_pos negative, clearCapacity_eval rv rfl rfl]
    refine ⟨fun none => (by cases none), fun st' _ _ => ⟨rv, negative, _, rfl, rfl, drvdata⟩, ?_⟩
    rintro st' ⟨⟩ unhandled
    have mem := (failing_some hardware).1
    simp only [hardwareSteps, List.mem_cons, List.not_mem_nil, or_false] at mem
    rcases mem with rfl | rfl | rfl | rfl | rfl <;> cases unhandled
  | none =>
    rw [Option.none_or, hardware_eval_fine (failing_none.mp hardware), Option.bind_some, if_neg (by simp), Program.eval_bind]
    have ready : ((s.withStats input).withCapacity input).withHardware.Prepared input := prepared_withStats
    have data : ((s.withStats input).withCapacity input).withHardware.drvdata = false := drvdata
    generalize ((s.withStats input).withCapacity input).withHardware = prepared at ready data ⊢
    obtain ⟨fine, handled, unhandled⟩ := interrupt_eval input ready.idle
    rw [ready.masterPf, ready.numQVectors] at fine handled unhandled
    cases interrupt : failing input.fails (interruptSteps input.masterPf input.numQVectors) with
    | some st =>
      rw [Option.some_or]
      refine ⟨fun none => (by cases none), ?_, ?_⟩
      · rintro st' ⟨⟩ ok
        obtain ⟨rv, negative, ran⟩ := handled st interrupt ok
        obtain ⟨s', cleared, hold, same⟩ := clearHardware_eval input rv ready.hold ready.netdevStats ready.hwAddr ready.hwQdma
        rw [ran, Option.bind_some, if_pos negative]
        exact ⟨rv, negative, s', cleared, hold, same.trans data⟩
      · rintro st' ⟨⟩ bad
        rw [unhandled st interrupt bad]
        rfl
    | none =>
      rw [Option.none_or, fine interrupt, Option.bind_some, if_neg (by simp), Program.eval_bind, request, Program.eval_access]
      by_cases register : input.fails .register = 0
      · have last : failing input.fails [ProbeStep.register] = none := by simp [failing, register]
        rw [last, if_pos register, Option.bind_some, if_neg (by simp)]
        have some : 0 < min input.numQVectors maxQueues := by
          simp only [ProbeInput.numQVectors, maxQueues]
          omega
        refine ⟨fun _ => ⟨_, rfl, { prepared with drvdata := true }, ?_, rfl, ready.netdevStats, ready.hwAddr, ready.hwQdma, ready.hold,
          ready.numTxQueues ▸ some, ready.numRxQueues ▸ some, ?_⟩,
          fun st found => (by cases found), fun st found => (by cases found)⟩
        · exact ⟨ready.idle.userIntr, ready.idle.errorIntr, ready.idle.qVector, ready.idle.queueIrq, ready.idle.userIrq,
            ready.idle.mboxIrq, ready.idle.errorIrq⟩
        · rw [← ready.masterPf, ← ready.numQVectors]
          rfl
      · have negative : 0 < input.fails .register := by omega
        have last : failing input.fails [ProbeStep.register] = some .register := by simp [failing, register]
        obtain ⟨s', ran, hold, same⟩ := register_eval ready data
        rw [ready.masterPf, ready.numQVectors] at ran
        rw [last, if_neg register, Option.bind_some, if_pos (by omega)]
        refine ⟨fun none => (by cases none), fun st _ _ => ⟨_, (by omega), s', ran, hold, same⟩, ?_⟩
        rintro st ⟨⟩ unhandled
        cases unhandled

/-- No resource is held and the core sees no driver data. -/
structure PfDevice.Unbound (s : PfDevice) : Prop where
  hold : s.hold = .none
  drvdata : s.drvdata = false

theorem early_undone {hold : Holdings ProbeRes} (same : hold = Holdings.none) :
    (hold.acquire .pciDevice).release .pciDevice = Holdings.none ∧
      (((hold.acquire .pciDevice).acquire .memRegions).release .memRegions).release .pciDevice = Holdings.none ∧
      (((((hold.acquire .pciDevice).acquire .memRegions).acquire .netdev).release .netdev).release .memRegions).release .pciDevice =
        Holdings.none := by
  subst same
  refine ⟨?_, ?_, ?_⟩
  all_goals
    ext res
    · cases res <;> simp [Holdings.none, Holdings.acquire, Holdings.release]
    · simp [Holdings.none, Holdings.acquire, Holdings.release]

theorem probe_eval (input : ProbeInput) (unbound : s.Unbound) :
    (failing input.fails input.steps = none → ∃ s', onicProbe.eval input s = some (0, s') ∧ s'.Bound) ∧
    (∀ st, failing input.fails input.steps = some st → st.handled = true → ∃ rv < 0, ∃ s',
      onicProbe.eval input s = some (rv, s') ∧ s'.Unbound) ∧
    ∀ st, failing input.fails input.steps = some st → st.handled = false →
      onicProbe.eval input s = none ∨ ∃ s', onicProbe.eval input s = some (0, s') ∧ s'.Unbound := by
  have steps : input.steps = [.enable, .dmaMask, .memRegions, .netdev, .netdevStats] ++ privSteps input := rfl
  rw [steps, failing_append]
  obtain ⟨none₁, none₂, none₃⟩ := early_undone unbound.hold
  by_cases enable : input.fails .enable = 0
  swap
  · have head : failing input.fails [ProbeStep.enable, .dmaMask, .memRegions, .netdev, .netdevStats] = some .enable := by
      simp [failing, enable]
    have negative : 0 < input.fails .enable := by omega
    have ran : onicProbe.eval input s = some (- (input.fails .enable : Int), s) := by
      simp [onicProbe, request, Program.eval_bind, enable, negative]
    rw [head, Option.some_or, ran]
    refine ⟨fun none => (by cases none), fun st _ _ => ⟨_, (by omega), s, rfl, unbound⟩, ?_⟩
    rintro st ⟨⟩ unhandled
    cases unhandled
  by_cases dmaMask : input.fails .dmaMask = 0
  swap
  · have head : failing input.fails [ProbeStep.enable, .dmaMask, .memRegions, .netdev, .netdevStats] = some .dmaMask := by
      simp [failing, enable, dmaMask]
    have negative : 0 < input.fails .dmaMask := by omega
    have ran : onicProbe.eval input s = some (- (input.fails .dmaMask : Int), { s with hold := .none }) := by
      simp [onicProbe, request, check, disableDevice, free, Program.eval_bind, enable, negative, none₁]
    rw [head, Option.some_or, ran]
    refine ⟨fun none => (by cases none), fun st _ _ => ⟨_, (by omega), _, rfl, rfl, unbound.drvdata⟩, ?_⟩
    rintro st ⟨⟩ unhandled
    cases unhandled
  by_cases memRegions : input.fails .memRegions = 0
  swap
  · have head : failing input.fails [ProbeStep.enable, .dmaMask, .memRegions, .netdev, .netdevStats] = some .memRegions := by
      simp [failing, enable, dmaMask, memRegions]
    have negative : 0 < input.fails .memRegions := by omega
    have ran : onicProbe.eval input s = some (- (input.fails .memRegions : Int), { s with hold := .none }) := by
      simp [onicProbe, request, check, disableDevice, free, Program.eval_bind, enable, dmaMask, memRegions, negative, none₁]
    rw [head, Option.some_or, ran]
    refine ⟨fun none => (by cases none), fun st _ _ => ⟨_, (by omega), _, rfl, rfl, unbound.drvdata⟩, ?_⟩
    rintro st ⟨⟩ unhandled
    cases unhandled
  by_cases netdev : input.fails .netdev = 0
  swap
  · have head : failing input.fails [ProbeStep.enable, .dmaMask, .memRegions, .netdev, .netdevStats] = some .netdev := by
      simp [failing, enable, dmaMask, memRegions, netdev]
    have ran : onicProbe.eval input s = some (- ENOMEM, { s with hold := .none }) := by
      simp [onicProbe, request, check, alloc, releasePciMem, disableDevice, free, Program.eval_bind, enable, dmaMask, memRegions, netdev,
        none₂]
    rw [head, Option.some_or, ran]
    refine ⟨fun none => (by cases none), fun st _ _ => ⟨_, (by decide), _, rfl, rfl, unbound.drvdata⟩, ?_⟩
    rintro st ⟨⟩ unhandled
    cases unhandled
  by_cases netdevStats : input.fails .netdevStats = 0
  swap
  · have head : failing input.fails [ProbeStep.enable, .dmaMask, .memRegions, .netdev, .netdevStats] = some .netdevStats := by
      simp [failing, enable, dmaMask, memRegions, netdev, netdevStats]
    have ran : onicProbe.eval input s = some (0, { s.zeroPriv input.func with hold := .none }) := by
      simp [onicProbe, request, check, alloc, freeNetdev, releasePciMem, disableDevice, free, Program.eval_bind, enable, dmaMask,
        memRegions, netdev, netdevStats, zeroPriv, none₃]
    rw [head, Option.some_or, ran]
    refine ⟨fun none => (by cases none), ?_, fun st _ _ => .inr ⟨_, rfl, rfl, unbound.drvdata⟩⟩
    rintro st ⟨⟩ handled
    cases handled
  have head : failing input.fails [ProbeStep.enable, .dmaMask, .memRegions, .netdev, .netdevStats] = none := by
    simp [failing, enable, dmaMask, memRegions, netdev, netdevStats]
  have ran : onicProbe.eval input s = probePriv.eval input (s.withStats input) := by
    simp [onicProbe, request, check, alloc, Program.eval_bind, enable, dmaMask, memRegions, netdev, netdevStats, zeroPriv, withStats,
      baseHold, unbound.hold]
  obtain ⟨fine, handled, unhandled⟩ := probePriv_eval input unbound.drvdata
  rw [head, Option.none_or, ran]
  refine ⟨fine, fun st found ok => ?_, fun st found bad => .inl (unhandled st found bad)⟩
  obtain ⟨rv, negative, s', ended, hold, drvdata⟩ := handled st found ok
  exact ⟨rv, negative, s', ended, hold, drvdata⟩

theorem remove_eval (input : ProbeInput) (bound : s.Bound) : ∃ s', onicRemove.eval input s = some ((), s') ∧ s'.Unbound := by
  obtain ⟨t, idle, drvdata, stats, hwAddr, hwQdma, hold, -, -, rfl⟩ := bound
  have fresh := registered_fresh hold t.numQVectors true t.masterPf t.masterPf
  have interrupt := clearInterrupt_undoes input true t.masterPf t.masterPf idle (Nat.le_refl _) fun slave => ⟨slave, slave⟩
  have hardware := clearHardware_eval_both input hwAddr hwQdma
  have data : ((t.withVectors t.numQVectors).withOthers true t.masterPf t.masterPf).drvdata = true := drvdata
  generalize (t.withVectors t.numQVectors).withOthers true t.masterPf t.masterPf = others at fresh interrupt data ⊢
  have unregistered : (free .registered).eval input { others with hold := others.hold.acquire .registered } = some ((), others) := by
    rw [free, Program.eval_modify, Holdings.release_acquire fresh]
  rw [hold, hardwareHold_undone] at hardware
  rw [onicRemove, Program.eval_bind, Program.eval_read, Option.bind_some, if_neg (by simp [data])]
  simp only [Program.eval_bind, unregistered, Option.bind_some, interrupt, hardware, Program.eval_read, onicClearCapacity, stats,
    releaseDevice]
  simp only [free, Program.eval_modify, Option.bind_some, Program.eval_bind, if_true, capacity_undone, baseHold_undone]
  exact ⟨_, rfl, rfl, rfl⟩

namespace PfDevice

/-- The driver core on one device: the flag says whether a probe has returned 0. -/
inductive Life (good : ProbeInput → Prop) : Bool → PfDevice → Prop
  | unbound {s : PfDevice} (none : s.Unbound) : Life good false s
  | probed {s s' : PfDevice} {input : ProbeInput} {rv : Int} (before : Life good false s) (fine : good input)
      (ran : onicProbe.eval input s = some (rv, s')) : Life good (decide (rv = 0)) s'
  | removed {s s' : PfDevice} {input : ProbeInput} (before : Life good true s)
      (ran : onicRemove.eval input s = some ((), s')) : Life good false s'

/-- Every failure that shows is one that `onic_probe` looks at. -/
def Handles (input : ProbeInput) : Prop := ∀ st, failing input.fails input.steps = some st → st.handled = true

/-- The probe returns a negative value with everything released, or 0 with everything there. -/
def AllOrNothing (input : ProbeInput) (s : PfDevice) : Prop :=
  ∃ rv s', onicProbe.eval input s = some (rv, s') ∧ s'.hold.misused = s.hold.misused ∧
    ((∃ st ∈ input.steps, input.fails st ≠ 0) → rv < 0 ∧ ∀ res, s'.hold.held res = false) ∧
    (rv = 0 → (∀ st ∈ input.steps, input.fails st = 0) ∧ s'.drvdata = true)

end PfDevice

theorem PfDevice.Bound.misused (bound : s.Bound) : s.hold.misused = [] := by
  obtain ⟨t, idle, -, -, -, -, hold, -, -, rfl⟩ := bound
  obtain ⟨-, -, noUser, noMbox, noError⟩ := withVectors_noOthers idle t.numQVectors
  have base : hardwareHold.misused = [] := by
    simp [hardwareHold, baseHold, Holdings.acquire, Holdings.none]
  have nodup : ((List.range' 0 t.numQVectors).map ProbeRes.queueIrq).Nodup :=
    (List.nodup_range' ..).map fun i j same => by simpa using same
  have vectors : (t.withVectors t.numQVectors).hold.misused = [] := by
    rw [withVectors, Holdings.acquireAll_misused nodup ?_, hold, base]
    intro res mem
    obtain ⟨vid, -, rfl⟩ := List.mem_map.mp mem
    exact idle.queueIrq vid
  have others : ((t.withVectors t.numQVectors).withOthers true t.masterPf t.masterPf).hold.misused = [] := by
    cases t.masterPf <;> simp [withOthers, Holdings.acquire, noUser, noMbox, noError, vectors]
  exact (Holdings.acquire_of_fresh (registered_fresh hold _ _ _ _)).trans others

theorem life_bound {bound : Bool} (life : Life Handles bound s) : if bound then s.Bound else s.Unbound := by
  induction life with
  | unbound none => exact none
  | @probed s s' input rv _ fine ran ih =>
    obtain ⟨good, handled, -⟩ := probe_eval input ih
    cases found : failing input.fails input.steps with
    | none =>
      obtain ⟨last, ran', bound⟩ := good found
      rw [ran'] at ran
      cases ran
      exact bound
    | some st =>
      obtain ⟨rv', negative, last, ran', unbound⟩ := handled st found (fine st found)
      rw [ran'] at ran
      cases ran
      have failed : ¬ rv = 0 := by omega
      simpa [failed] using unbound
  | @removed s s' input _ ran ih =>
    obtain ⟨last, ran', unbound⟩ := remove_eval input ih
    rw [ran'] at ran
    cases ran
    exact unbound

/-- What `onic_probe` looks at is undone; the per-CPU statistics and the names of the interrupts are what it
    does not look at. -/
theorem pf_probe_iff {bound : Bool} (life : Life Handles bound s) : s.hold.misused = [] ∧ (bound = true → s.drvdata = true) ∧
    (bound = false → (∀ res, s.hold.held res = false) ∧ ∀ input, AllOrNothing input s ↔ Handles input) := by
  have state := life_bound life
  cases bound with
  | true =>
    have bound : s.Bound := state
    refine ⟨bound.misused, fun _ => ?_, nofun⟩
    obtain ⟨t, -, drvdata, -, -, -, -, -, -, rfl⟩ := bound
    exact drvdata
  | false =>
    have unbound : s.Unbound := state
    have misused : s.hold.misused = [] := by rw [unbound.hold]; rfl
    refine ⟨misused, nofun, fun _ => ⟨fun res => by rw [unbound.hold]; rfl, fun input => ?_⟩⟩
    obtain ⟨good, handled, unhandled⟩ := probe_eval input unbound
    constructor
    · rintro ⟨rv, s', ran, -, failed, -⟩ st found
      by_contra not
      have mem := failing_some found
      have negative := (failed ⟨st, mem.1, mem.2⟩).1
      rcases unhandled st found (by simpa using not) with stuck | ⟨last, ran', -⟩
      · rw [stuck] at ran
        cases ran
      · rw [ran'] at ran
        cases ran
        exact absurd negative (by decide)
    · intro handles
      cases found : failing input.fails input.steps with
      | none =>
        obtain ⟨s', ran, bound⟩ := good found
        have fine := failing_none.mp found
        refine ⟨0, s', ran, bound.misused.trans misused.symm, ?_, fun _ => ⟨fine, ?_⟩⟩
        · rintro ⟨st, mem, failed⟩
          exact absurd (fine st mem) failed
        · obtain ⟨t, -, drvdata, -, -, -, -, -, -, rfl⟩ := bound
          exact drvdata
      | some st =>
        obtain ⟨rv, negative, s', ran, after⟩ := handled st found (handles st found)
        refine ⟨rv, s', ran, by rw [after.hold, unbound.hold], fun _ => ⟨negative, fun res => by rw [after.hold]; rfl⟩, fun zero => ?_⟩
        omega

/-- A device that the driver has not seen. -/
def PfDevice.untouched : PfDevice := ⟨.none, false, false, 0, 0, 0, fun _ => false, false, false, false, false, false⟩

/-- The interrupt of the only queue vector is refused: everything before it is undone. -/
theorem pf_probe_iff_untouched :
    AllOrNothing ⟨fun st => if st = .queueIrq 0 then 12 else 0, 3, 0⟩ untouched := by
  refine (((pf_probe_iff (.unbound ⟨rfl, rfl⟩)).2.2 rfl).2 _).mpr ?_
  intro st found
  have first : Option.some (ProbeStep.queueIrq 0) = Option.some st := Eq.trans (by decide) found
  cases first
  rfl

/-- There is no memory for the per-CPU statistics: the probe returns 0, and the remove that follows releases
    the memory regions and the device a second time. -/
theorem pf_probe_hides_failure : ¬ ∀ bound s, Life (fun _ => True) bound s → s.hold.misused = [] ∧
    (bound = false → ∀ input, AllOrNothing input s) := by
  intro all
  let input : ProbeInput := ⟨fun st => if st = .netdevStats then 12 else 0, 3, 0⟩
  obtain ⟨s, probed, held⟩ : ∃ s, onicProbe.eval input untouched = some (0, s) ∧
      (onicRemove.eval input s).map (fun r => r.2.hold.misused) = some [.memRegions, .pciDevice] := ⟨_, rfl, rfl⟩
  obtain ⟨⟨u, s'⟩, removed, misused⟩ := Option.map_eq_some_iff.mp held
  have life : Life (fun _ => True) false s' := .removed (.probed (.unbound ⟨rfl, rfl⟩) trivial probed) removed
  rw [(all false s' life).1] at misused
  cases misused

end

end OpenNic
