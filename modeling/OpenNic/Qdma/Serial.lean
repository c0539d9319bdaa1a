import OpenNic.Program.Critical
import OpenNic.Qdma.Timeouts
import OpenNic.Sriov.Runs

namespace OpenNic

/-- The arguments of one call of `qdma_program_ctxt`. -/
abbrev CtxtCall := CtxtCmd × List Word

def programCtxt (call : CtxtCall) : Program CtxtEngine Input (Int × List Word) := qdmaProgramCtxt call.1 call.2

/-- The access leaves the lock as it is. -/
def KeepsLock (e e' : CtxtEngine) : Prop := e.ctxtLock = true → e'.ctxtLock = true

theorem CtxtEngine.perform_lock (e : CtxtEngine) (cmd : CtxtCmd) : (e.perform cmd).ctxtLock = e.ctxtLock := by
  unfold perform setCtxt
  split
  · rfl
  · split <;> rfl

theorem writeCtxtDataRegs_lock (data : List Word) : (writeCtxtDataRegs data).Steps KeepsLock := by
  apply Program.Steps.fold
  intro i _
  apply Program.Steps.bind (Program.Steps.modify fun _ held => held)
  intro _
  exact Program.Steps.modify fun _ held => held

theorem readCtxtDataRegs_lock (data : List Word) : (readCtxtDataRegs data).Steps KeepsLock := by
  apply Program.Steps.fold
  intro i data
  split
  · apply Program.Steps.bind (Program.Steps.read (fun _ held => held) _)
    intro _
    exact .done _
  · exact .done _

theorem writeCtxtCmd_lock (word : Word) : (writeCtxtCmd word).Steps KeepsLock := by
  apply Program.Steps.access
  intro input e _ e' taken held
  cases taken
  split
  · rw [CtxtEngine.perform_lock]
    exact held
  · exact held

theorem pollCtxtCmd_lock (left : Nat) : (pollCtxtCmd left).Steps KeepsLock := by
  induction left with
  | zero => exact .done true
  | succ left ih =>
    apply Program.Steps.bind
    · apply Program.Steps.access
      intro input e _ e' taken held
      cases taken
      exact held
    intro val
    split
    · exact .done true
    · split
      · exact .done false
      · exact ih

/-- Every path through the call gives the lock back, also the one of the timeout. -/
theorem programCtxt_guarded (call : CtxtCall) : (programCtxt call).Guarded CtxtEngine.ctxtLock := by
  apply Program.Guarded.bind
  · intro _ e _ e' taken
    cases held : e.ctxtLock with
    | true => simp [held] at taken
    | false =>
      rw [if_neg (by simp [held])] at taken
      cases taken
      exact ⟨rfl, rfl⟩
  intro _
  apply Program.Closing.bind
  · split
    · exact writeCtxtDataRegs_lock call.2
    · exact .done ()
  intro _
  apply Program.Closing.bind (writeCtxtCmd_lock _)
  intro _
  apply Program.Closing.bind (pollCtxtCmd_lock _)
  intro answered
  cases answered with
  | true =>
    apply Program.Closing.bind
    · split
      · exact readCtxtDataRegs_lock call.2
      · exact .done call.2
    intro data
    exact Program.Closing.last (0, data) fun _ => rfl
  | false => exact Program.Closing.last (-EBUSY, call.2) fun _ => rfl

/-- A program that reaches the contexts through `qdma_program_ctxt` only. -/
abbrev ByCalls {α : Type} (p : Program CtxtEngine Input α) : Prop := Program.Composed programCtxt p

theorem writeCtxt_calls (cmd : CtxtCmd) (data : List Word) : ByCalls (writeCtxt cmd data) := by
  have call : ByCalls (programCtxt (cmd, data)) := .one (cmd, data)
  exact call.map Prod.fst

theorem clearCtxt_calls (cmd : CtxtCmd) : ByCalls (clearCtxt cmd) := writeCtxt_calls cmd []

theorem orClear_calls {cleanup : Program CtxtEngine Input Unit} {calls : List (Program CtxtEngine Input Int)}
    (clears : ByCalls cleanup) (each : ∀ call ∈ calls, ByCalls call) : ByCalls (orClear cleanup calls) := by
  induction calls with
  | nil => exact .done 0
  | cons call calls ih =>
    apply Program.Composed.bind (each call List.mem_cons_self)
    intro rv
    split
    · exact clears.bind fun _ => .done rv
    · exact ih fun call mem => each call (List.mem_cons_of_mem _ mem)

section

variable (qdev : QdmaDev) (qid : BitVec 16)

theorem onicQdmaClearTxQueue_calls : ByCalls (onicQdmaClearTxQueue qdev qid) := by
  apply Program.Composed.bind (clearCtxt_calls _)
  intro _
  apply Program.Composed.bind (clearCtxt_calls _)
  intro _
  apply Program.Composed.bind (clearCtxt_calls _)
  exact fun _ => .done ()

theorem onicQdmaClearRxQueue_calls : ByCalls (onicQdmaClearRxQueue qdev qid) := by
  apply Program.Composed.bind (clearCtxt_calls _)
  intro _
  apply Program.Composed.bind (clearCtxt_calls _)
  intro _
  apply Program.Composed.bind (clearCtxt_calls _)
  intro _
  apply Program.Composed.bind (clearCtxt_calls _)
  intro _
  apply Program.Composed.bind (clearCtxt_calls _)
  exact fun _ => .done ()

theorem onicQdmaInitTxQueue_calls (param : H2cParam) : ByCalls (onicQdmaInitTxQueue qdev qid param) := by
  apply orClear_calls (onicQdmaClearTxQueue_calls qdev qid)
  simp only [List.forall_mem_cons]
  exact ⟨clearCtxt_calls _, writeCtxt_calls _ _, clearCtxt_calls _, clearCtxt_calls _, by simp⟩

theorem onicQdmaInitRxQueue_calls (param : C2hParam) : ByCalls (onicQdmaInitRxQueue qdev qid param) := by
  apply orClear_calls (onicQdmaClearRxQueue_calls qdev qid)
  simp only [List.forall_mem_cons]
  exact ⟨clearCtxt_calls _, writeCtxt_calls _ _, clearCtxt_calls _, clearCtxt_calls _, clearCtxt_calls _,
    writeCtxt_calls _ _, clearCtxt_calls _, writeCtxt_calls _ _, by simp⟩

theorem qdmaWriteFmapCtxt_calls (ctxt : FmapCtxt) : ByCalls (qdmaWriteFmapCtxt qdev ctxt) := by
  apply Program.Composed.bind (writeCtxt_calls _ _)
  intro rv
  split <;> exact .done _

theorem qdmaClearFmapCtxt_calls : ByCalls (qdmaClearFmapCtxt qdev) :=
  Program.Composed.bind (clearCtxt_calls _) fun _ => .done _

end

section

variable (mapped : Bool) (vfs : VfTable) (srcFuncId : BitVec 16) (req : Msg)

theorem onicPfMboxConfigQueue_calls : ByCalls (onicPfMboxConfigQueue mapped vfs srcFuncId req) := by
  unfold onicPfMboxConfigQueue
  dsimp only
  split
  · exact .done _
  split
  · exact .done _
  rename_i vfQdev _
  split
  · exact .done _
  split
  · exact .done _
  split
  · exact (onicQdmaInitTxQueue_calls vfQdev _ _).map _
  split
  · split
    · exact .done _
    split
    · exact .done _
    · exact (onicQdmaInitRxQueue_calls vfQdev _ _).map _
  · exact .done _

theorem onicPfMboxClearQueue_calls : ByCalls (onicPfMboxClearQueue mapped vfs srcFuncId req) := by
  unfold onicPfMboxClearQueue
  dsimp only
  split
  · exact .done _
  split
  · exact .done _
  rename_i vfQdev _
  split
  · exact (onicQdmaClearTxQueue_calls vfQdev _).bind fun _ => .done _
  split
  · exact (onicQdmaClearRxQueue_calls vfQdev _).bind fun _ => .done _
  · exact .done _

theorem handleRequest_calls : ByCalls (handleRequest mapped vfs srcFuncId req) := by
  unfold handleRequest
  dsimp only
  split
  · split <;> exact .done _
  split
  · exact onicPfMboxConfigQueue_calls mapped vfs srcFuncId req
  split
  · exact onicPfMboxClearQueue_calls mapped vfs srcFuncId req
  · exact .done _

end

/-- The contexts as far as one command reaches. -/
abbrev Contexts := BitVec 4 → BitVec 11 → Fin ctxtProgNumDataRegs → Word

def CtxtEngine.contexts (e : CtxtEngine) : Contexts := fun sel qid i => e.ctxt sel qid i

/-- What a call whose command takes effect makes of the contexts. -/
def Contexts.serve (m : Contexts) (call : CtxtCall) : Contexts :=
  if call.1.op = CtxtCmdOp.rd.code then m
  else fun sel qid i =>
    if sel = call.1.sel ∧ qid = call.1.qid then
      if call.1.op = CtxtCmdOp.wr.code then call.2.getD i 0 else 0
    else m sel qid i

/-- The calls one after the other; a call whose command took no effect leaves the contexts alone. -/
def Contexts.replay (m : Contexts) : List (CtxtCall × Bool) → Contexts
  | [] => m
  | (call, effect) :: served => Contexts.replay (if effect then m.serve call else m) served

theorem Contexts.replay_append (m : Contexts) (served last : List (CtxtCall × Bool)) :
    m.replay (served ++ last) = (m.replay served).replay last := by
  induction served generalizing m with
  | nil => rfl
  | cons s served ih => exact ih _

theorem CtxtEngine.contexts_of_ctxt {e e' : CtxtEngine} (same : e'.ctxt = e.ctxt) : e'.contexts = e.contexts := by
  funext sel qid i
  rw [contexts, same, contexts]

theorem CtxtEngine.setCtxt_contexts (e : CtxtEngine) (sel : BitVec 4) (qid : BitVec 11) (words : Nat → Word) :
    (e.setCtxt sel qid words).contexts =
      fun sel' qid' (i : Fin ctxtProgNumDataRegs) => if sel' = sel ∧ qid' = qid then words i else e.contexts sel' qid' i := by
  funext sel' qid' i
  by_cases same : sel' = sel
  · subst same
    by_cases same' : qid' = qid
    · subst same'
      simp [contexts, setCtxt]
    · simp [contexts, setCtxt, same']
  · simp [contexts, setCtxt, same]

/-- The registers as `qdma_program_ctxt` leaves them before the command. -/
structure CtxtEngine.Filled (data : List Word) (e : CtxtEngine) : Prop where
  data : ∀ i, i < ctxtProgNumDataRegs → e.data i = data.getD i 0
  mask : ∀ i, i < ctxtProgNumDataRegs → e.mask i = 0xFFFFFFFF

theorem writeCtxtDataRegs_filled {data : List Word} {e e' : CtxtEngine} {u : Unit}
    (ran : Program.Exec (writeCtxtDataRegs data) e u e') : e'.Filled data := by
  refine ⟨(writeCtxtDataRegs_spec ran).2.2, ?_⟩
  have round := ran.fold (I := fun n _ now => ∀ i, i < n → now.mask i = 0xFFFFFFFF)
  rw [Nat.zero_add] at round
  apply round
  · intro n _ now _ after _ _ masked body i less
    obtain ⟨_, mid, first, last⟩ := Program.exec_bind.mp body
    rw [writeCtxtData, Program.exec_modify] at first
    rw [writeCtxtMask, Program.exec_modify] at last
    subst first last
    by_cases here : i = n
    · simp [here]
    · simpa [Function.update_of_ne here] using masked i (by omega)
  · exact fun i less => absurd less (Nat.not_lt_zero i)

/-- Under a full mask nothing of the old word stays. -/
theorem allOnes_merge (new old : Word) : (new &&& 0xFFFFFFFF ||| old &&& ~~~ 0xFFFFFFFF) = new := by
  have all : new &&& 0xFFFFFFFF = new := BitVec.and_allOnes
  have none : old &&& ~~~ 0xFFFFFFFF = 0#32 := BitVec.and_zero
  rw [all, none, BitVec.or_zero]

theorem CtxtEngine.perform_contexts {e : CtxtEngine} {call : CtxtCall}
    (filled : call.1.op = CtxtCmdOp.wr.code → e.Filled call.2) : (e.perform call.1).contexts = e.contexts.serve call := by
  unfold perform Contexts.serve
  by_cases wr : call.1.op = CtxtCmdOp.wr.code
  · rw [if_pos wr, setCtxt_contexts, if_neg (by simp [wr])]
    funext sel qid i
    have data := (filled wr).data i i.isLt
    have mask := (filled wr).mask i i.isLt
    simp only [data, mask, allOnes_merge, if_pos wr]
  · rw [if_neg wr]
    by_cases rd : call.1.op = CtxtCmdOp.rd.code
    · rw [if_pos rd, if_pos rd]
      rfl
    · rw [if_neg rd, if_neg rd, setCtxt_contexts]
      simp only [if_neg wr]

theorem writeCtxtCmd_contexts {call : CtxtCall} {e e' : CtxtEngine} {u : Unit}
    (filled : call.1.op = CtxtCmdOp.wr.code → e.Filled call.2) (ran : Program.Exec (writeCtxtCmd call.1.word) e u e') :
    ∃ effect, e'.contexts = e.contexts.replay [(call, effect)] := by
  obtain ⟨input, taken⟩ := Program.exec_access.mp ran
  simp only [CtxtCmd.bits_word, Option.some.injEq, Prod.mk.injEq, true_and] at taken
  subst taken
  refine ⟨input.flag, ?_⟩
  cases input.flag with
  | true => exact CtxtEngine.perform_contexts (e := { e with issued := _ }) fun wr => ⟨(filled wr).data, (filled wr).mask⟩
  | false => rfl

/-- What the whole call does to the contexts, whatever was in the registers. -/
theorem programCtxt_contexts {call : CtxtCall} {r : Int × List Word} {e e' : CtxtEngine}
    (ran : Program.Exec (programCtxt call) e r e') : ∃ effect, e'.contexts = e.contexts.replay [(call, effect)] := by
  obtain ⟨_, locked, lock, ran⟩ := Program.exec_bind.mp ran
  obtain ⟨_, filled, fill, ran⟩ := Program.exec_bind.mp ran
  obtain ⟨_, sent, send, ran⟩ := Program.exec_bind.mp ran
  obtain ⟨answered, polled, poll, ran⟩ := Program.exec_bind.mp ran
  have at_lock : locked.contexts = e.contexts := by
    obtain ⟨_, taken⟩ := Program.exec_access.mp lock
    split at taken
    · cases taken
    · cases taken
      rfl
  have at_fill : filled.contexts = locked.contexts ∧ (call.1.op = CtxtCmdOp.wr.code → filled.Filled call.2) := by
    split at fill
    · obtain ⟨-, ctxt, -⟩ := writeCtxtDataRegs_spec fill
      exact ⟨CtxtEngine.contexts_of_ctxt ctxt, fun _ => writeCtxtDataRegs_filled fill⟩
    · rename_i other
      obtain ⟨-, rfl⟩ := Program.exec_done.mp fill
      exact ⟨rfl, fun wr => absurd wr other⟩
  have at_end : e'.contexts = sent.contexts := by
    obtain rfl := pollCtxtCmd_keeps _ _ _ _ poll
    cases answered with
    | true =>
      obtain ⟨data', mid, load, ran⟩ := Program.exec_bind.mp ran
      have same : sent = mid := by
        split at load
        · exact readCtxtDataRegs_keeps _ _ _ _ load
        · exact (Program.exec_done.mp load).2.symm
      subst same
      obtain ⟨_, mid, unlock, ran⟩ := Program.exec_bind.mp ran
      obtain rfl := Program.exec_modify.mp unlock
      obtain ⟨-, rfl⟩ := Program.exec_done.mp ran
      rfl
    | false =>
      obtain ⟨_, mid, unlock, ran⟩ := Program.exec_bind.mp ran
      obtain rfl := Program.exec_modify.mp unlock
      obtain ⟨-, rfl⟩ := Program.exec_done.mp ran
      rfl
  obtain ⟨effect, served⟩ := writeCtxtCmd_contexts at_fill.2 send
  exact ⟨effect, by rw [at_end, served, at_fill.1, at_lock]⟩

section

variable (via : Input → Input)

/-- The calls of `qdma_program_ctxt` on the card. -/
def cardSections : Sections CtxtEngine Card CardInput CtxtCall (Int × List Word) where
  impl call := (programCtxt call).comap fun input => via input.hw
  locked := CtxtEngine.ctxtLock
  get := Card.engine
  set := Card.setEngine
  lens := ⟨fun _ _ => rfl, fun _ => rfl, fun _ _ _ => rfl⟩
  guarded call := (programCtxt_guarded call).comap _

/-- A program of the card that reaches the contexts through `qdma_program_ctxt` only. -/
abbrev CardCode {α : Type} (p : Program Card CardInput α) : Prop := (cardSections via).Code p

variable {via}

theorem onCard_code {α : Type} {p : Program CtxtEngine Input α} (calls : ByCalls p) : CardCode via (onCard via p) :=
  Sections.Code.lift (S := cardSections via) (calls.comap fun input : CardInput => via input.hw)

theorem modPriv_code (f : Fin 4) (g : PfPriv → PfPriv) : CardCode via (modPriv f g) :=
  Sections.Code.modify fun _ _ => rfl

theorem readPriv_code {α : Type} (f : Fin 4) (get : PfPriv → α) : CardCode via (readPriv f get) :=
  Sections.Code.read fun _ _ => rfl

theorem input_code {α : Type} (get : CardInput → α) : CardCode via (.access fun input s => some (get input, s)) :=
  Sections.Code.access fun _ _ _ => rfl

theorem markFmap_code (funcId : BitVec 16) (ctxt : Option FmapCtxt) : CardCode via (markFmap funcId ctxt) :=
  Sections.Code.modify fun _ _ => rfl

theorem writeFmap_code (qdev : QdmaDev) (ctxt : FmapCtxt) : CardCode via (writeFmap via qdev ctxt) := by
  apply Sections.Code.bind (onCard_code (qdmaWriteFmapCtxt_calls qdev ctxt))
  intro r
  apply Sections.Code.bind (markFmap_code _ _)
  exact fun _ => .done r

theorem clearFmap_code (qdev : QdmaDev) : CardCode via (clearFmap via qdev) := by
  apply Sections.Code.bind (markFmap_code _ _)
  exact fun _ => onCard_code (qdmaClearFmapCtxt_calls qdev)

theorem onicInitCapacity_code (f : Fin 4) : CardCode via (onicInitCapacity f) := by
  have vectors : CardCode via (onicAcquireMsixVectors f) := by
    apply Sections.Code.bind (input_code fun input => if input.flag then some input.vectors else none)
    intro found
    cases found with
    | none => exact .done _
    | some n => exact (modPriv_code f _).bind fun _ => .done 0
  apply Sections.Code.bind vectors
  intro rv
  split
  · exact .done rv
  · exact (modPriv_code f _).bind fun _ => .done 0

theorem onicClearHardware_code (f : Fin 4) : CardCode via (onicClearHardware via f) := by
  apply Sections.Code.bind (readPriv_code f _)
  intro qdev
  cases qdev with
  | none => exact .done ()
  | some qdev => exact (clearFmap_code qdev).bind fun _ => modPriv_code f _

theorem onicInitHardware_code (f : Fin 4) : CardCode via (onicInitHardware via f) := by
  apply Sections.Code.bind (input_code CardInput.flag)
  intro mapped
  split
  · apply Sections.Code.bind (modPriv_code f _)
    intro _
    apply Sections.Code.bind (readPriv_code f _)
    intro qmax
    apply Sections.Code.bind (clearFmap_code _)
    rintro ⟨rv, qdev⟩
    apply Sections.Code.bind (modPriv_code f _)
    intro _
    dsimp only
    split
    · exact (onicClearHardware_code f).bind fun _ => .done rv
    · apply Sections.Code.bind (writeFmap_code _ _)
      rintro ⟨rv, qdev⟩
      apply Sections.Code.bind (modPriv_code f _)
      intro _
      dsimp only
      split
      · exact (onicClearHardware_code f).bind fun _ => .done rv
      · exact .done 0
  · exact (onicClearHardware_code f).bind fun _ => .done _

theorem onicProbe_code (f : Fin 4) : CardCode via (onicProbe via f) := by
  apply Sections.Code.bind (modPriv_code f _)
  intro _
  apply Sections.Code.bind (onicInitCapacity_code f)
  intro rv
  split
  · exact .done rv
  apply Sections.Code.bind (onicInitHardware_code f)
  intro rv
  split
  · exact (modPriv_code f _).bind fun _ => .done rv
  apply Sections.Code.bind (input_code CardInput.flag)
  intro found
  split
  · exact (modPriv_code f _).bind fun _ => .done 0
  · apply Sections.Code.bind (onicClearHardware_code f)
    exact fun _ => (modPriv_code f _).bind fun _ => .done _

theorem onicFreeVfResources_code (f : Fin 4) (numVfs : Nat) : CardCode via (onicFreeVfResources via f numVfs) := by
  have each (i : Nat) : CardCode via (onicFreeVfResource via f i) := by
    apply Sections.Code.bind (readPriv_code f _)
    intro res
    split
    · exact .done ()
    · apply Sections.Code.bind
      · apply Sections.Code.fold
        intro qid _
        apply Sections.Code.bind (Sections.Code.modify fun _ _ => rfl)
        intro _
        apply Sections.Code.bind (onCard_code (onicQdmaClearRxQueue_calls _ _))
        exact fun _ => onCard_code (onicQdmaClearTxQueue_calls _ _)
      intro _
      apply Sections.Code.bind (clearFmap_code _)
      exact fun _ => Sections.Code.modify fun _ _ => rfl
  apply Sections.Code.bind (readPriv_code f _)
  intro qdev
  cases qdev with
  | none => exact .done ()
  | some qdev => exact (Sections.Code.fold (fun i _ => each i) _ _ _).bind fun _ => modPriv_code f _

theorem onicConfigVfLoop_code (f : Fin 4) (i left currentBaseQueue : Nat) :
    CardCode via (onicConfigVfLoop via f i left currentBaseQueue) := by
  induction left generalizing i currentBaseQueue with
  | zero => exact .done 0
  | succ left ih =>
    apply Sections.Code.bind (writeFmap_code _ _)
    rintro ⟨err, vfQdev⟩
    dsimp only
    split
    · apply Sections.Code.bind (clearFmap_code _)
      exact fun _ => (onicFreeVfResources_code f i).bind fun _ => .done err
    · apply Sections.Code.bind (input_code CardInput.mac)
      intro mac
      exact (modPriv_code f _).bind fun _ => ih _ _

theorem onicConfigVfResources_code (f : Fin 4) (numVfs : Fin (onicMaxVfs + 1)) :
    CardCode via (onicConfigVfResources via f numVfs) := by
  apply Sections.Code.bind (readPriv_code f _)
  intro qdev
  cases qdev with
  | none => exact .done _
  | some qdev =>
    apply Sections.Code.bind (onicConfigVfLoop_code f 0 _ _)
    intro err
    split
    · exact .done err
    · exact (modPriv_code f _).bind fun _ => .done 0

theorem onicSriovConfigure_code (f : Fin 4) (numVfs : Int) : CardCode via (onicSriovConfigure via f numVfs) := by
  rw [onicSriovConfigure]
  split
  · apply Sections.Code.bind (input_code CardInput.flag)
    intro assigned
    split
    · exact .done _
    · apply Sections.Code.bind (readPriv_code f _)
      intro enabledVfs
      apply Sections.Code.bind (modPriv_code f _)
      exact fun _ => (onicFreeVfResources_code f _).bind fun _ => .done 0
  split
  · exact .done _
  split
  · apply Sections.Code.bind (onicConfigVfResources_code f _)
    intro rv
    split
    · exact .done rv
    · have enable (n : Nat) : CardCode via (.access fun input s => some (input.rv,
          if input.rv < 0 then s else s.setPriv f fun priv => { priv with pciNumVf := n })) := by
        apply Sections.Code.access
        intro input s c
        by_cases failed : input.rv < 0
        · simp only [if_pos failed, Option.map_some]
        · simp only [if_neg failed, Option.map_some]
          rfl
      apply Sections.Code.bind (enable _)
      intro rv
      split
      · exact (onicFreeVfResources_code f _).bind fun _ => .done rv
      · exact .done numVfs
  · exact .done _

theorem onicRemove_code (f : Fin 4) : CardCode via (onicRemove via f) := by
  have unbind : CardCode via (do
      onicClearHardware via f
      onicClearCapacity f
      modPriv f fun priv => { priv with bound := false }) :=
    (onicClearHardware_code f).bind fun _ => (modPriv_code f _).bind fun _ => modPriv_code f _
  apply Sections.Code.bind (readPriv_code f _)
  intro pciNumVf
  split
  · apply Sections.Code.bind (modPriv_code f _)
    intro _
    apply Sections.Code.bind (readPriv_code f _)
    exact fun numVfs => (onicFreeVfResources_code f numVfs).bind fun _ => unbind
  · exact unbind

theorem onicPfMboxHandle_code (t : PfThread) (srcFuncId : BitVec 16) (req : Msg) :
    CardCode via (onicPfMboxHandle via t srcFuncId req) := by
  apply Sections.Code.bind (Sections.Code.access fun _ _ _ => rfl)
  rintro ⟨mapped, vfs⟩
  apply Sections.Code.bind (onCard_code (handleRequest_calls mapped vfs srcFuncId req))
  exact fun _ => Sections.Code.modify fun _ _ => rfl

theorem pfCall_code {f : Fin 4} {priv : PfPriv} {p : Program Card CardInput Unit} (called : PfCall via f priv p) :
    CardCode via p := by
  cases called with
  | probe => exact (onicProbe_code f).bind fun _ => .done ()
  | remove => exact onicRemove_code f
  | disable => exact (onicSriovConfigure_code f 0).bind fun _ => modPriv_code f _
  | enable _ _ numVfs => exact (onicSriovConfigure_code f numVfs).bind fun _ => modPriv_code f _

theorem cardSections_apart : (cardSections via).Apart (sriovRules via) where
  code t s p called := by
    cases t with
    | pf f => exact pfCall_code called
    | mbox k =>
      obtain ⟨srcFuncId, req, rfl⟩ := called
      exact onicPfMboxHandle_code k srcFuncId req
  calls t s c p called := by
    cases t with
    | pf f => exact called
    | mbox k => exact called
  env _ _ _ happens := happens.elim
  keeps _ _ happens := happens.elim

/-- A command that the hardware got from this call. -/
def CtxtCall.Sent (call : CtxtCall) (c : IssuedCmd) : Prop := c.cmd = call.1 ∧ c.Carries call.2

variable {engine : CtxtEngine} {P : Pool SriovThread Card CardInput} {log : List (SriovThread × CtxtCall)}

theorem atomic_sent (run : (cardSections via).AtomicRun (sriovRules via) (Pool.start (Card.reset engine)) P log) :
    ∃ new, P.state.engine.issued = engine.issued ++ new ∧ List.Forall₂ (fun entry c => entry.2.Sent c) log new := by
  have holds := run.component (J := fun log e =>
    ∃ new, e.issued = engine.issued ++ new ∧ List.Forall₂ (fun entry c => entry.2.Sent c) log new) cardSections_apart
  apply holds
  · exact ⟨[], (List.append_nil _).symm, .nil⟩
  · rintro log t call e r e' ⟨new, issued, sent⟩ ran
    obtain ⟨c, is_cmd, carries, after⟩ := qdmaProgramCtxt_issued ran.of_comap
    refine ⟨new ++ [c], ?_, List.rel_append sent (.cons ⟨is_cmd, carries⟩ .nil)⟩
    rw [after.log, issued, List.append_assoc]

theorem atomic_contexts (run : (cardSections via).AtomicRun (sriovRules via) (Pool.start (Card.reset engine)) P log) :
    ∃ effects : List Bool, effects.length = log.length ∧
      P.state.engine.contexts = engine.contexts.replay ((log.map Prod.snd).zip effects) := by
  have holds := run.component (J := fun log e => ∃ effects : List Bool, effects.length = log.length ∧
    e.contexts = engine.contexts.replay ((log.map Prod.snd).zip effects)) cardSections_apart
  apply holds
  · exact ⟨[], rfl, rfl⟩
  · rintro log t call e r e' ⟨effects, same, before⟩ ran
    obtain ⟨effect, after⟩ := programCtxt_contexts ran.of_comap
    refine ⟨effects ++ [effect], by simp [same], ?_⟩
    rw [List.map_append, List.zip_append (by simp [same]), Contexts.replay_append, ← before]
    exact after

theorem sriov_atomic {ok : Card → Prop} (free : engine.ctxtLock = false)
    (reach : Pool.Reach (sriovRules via) ok (Pool.start (Card.reset engine)) P) (unlocked : P.state.engine.ctxtLock = false) :
    ∃ log, (cardSections via).AtomicRun (sriovRules via) (Pool.start (Card.reset engine)) P log := by
  obtain ⟨Q, log, run, -, ⟨-, rfl⟩ | ⟨t, call, inside⟩⟩ := cardSections_apart.refines reach (fun _ => .done ()) free
  · exact ⟨log, run⟩
  · have held : P.state.engine.ctxtLock = true := inside.held
    exact absurd (held.symm.trans unlocked) (by decide)

/-- Whatever the probes, removals, changes of the VFs and mailbox requests do at the same time,
    with the lock free the card is where it would be had each call of `qdma_program_ctxt` been
    one step, and the hardware got the commands in that order, each write with its own words. -/
theorem sriov_serial {ok : Card → Prop} (free : engine.ctxtLock = false)
    (reach : Pool.Reach (sriovRules via) ok (Pool.start (Card.reset engine)) P) (unlocked : P.state.engine.ctxtLock = false) :
    ∃ log, (cardSections via).AtomicRun (sriovRules via) (Pool.start (Card.reset engine)) P log ∧
      ∃ new, P.state.engine.issued = engine.issued ++ new ∧ List.Forall₂ (fun entry c => entry.2.Sent c) log new := by
  obtain ⟨log, run⟩ := sriov_atomic free reach unlocked
  exact ⟨log, run, atomic_sent run⟩

end

/-- The probe of the master PF clears and writes its function map, the change to one VF writes the VF's. -/
theorem sriov_serial_one_vf : ∃ log, (cardSections id).AtomicRun (sriovRules id) (Pool.start (Card.reset blankEngine))
      (Pool.start masterWithVf) log ∧
    ∃ new, masterWithVf.engine.issued = new ∧ new.length = 3 ∧ List.Forall₂ (fun entry c => entry.2.Sent c) log new := by
  obtain ⟨log, run, new, issued, sent⟩ := sriov_serial rfl reach_masterWithVf (by decide +kernel)
  have count : masterWithVf.engine.issued.length = 3 := by decide +kernel
  exact ⟨log, run, _, rfl, count, (issued.trans (List.nil_append new)) ▸ sent⟩

section

variable {via : Input → Input} {engine : CtxtEngine} {P : Pool SriovThread Card CardInput}

/-- With the lock free the contexts are what the calls made of them one after the other, each with
    its own words, whichever of the commands took effect. -/
theorem sriov_contexts {ok : Card → Prop} (free : engine.ctxtLock = false)
    (reach : Pool.Reach (sriovRules via) ok (Pool.start (Card.reset engine)) P) (unlocked : P.state.engine.ctxtLock = false) :
    ∃ log, (cardSections via).AtomicRun (sriovRules via) (Pool.start (Card.reset engine)) P log ∧
      ∃ effects : List Bool, effects.length = log.length ∧
        P.state.engine.contexts = engine.contexts.replay ((log.map Prod.snd).zip effects) := by
  obtain ⟨log, run⟩ := sriov_atomic free reach unlocked
  exact ⟨log, run, atomic_contexts run⟩

end

theorem sriov_contexts_one_vf : ∃ log, (cardSections id).AtomicRun (sriovRules id) (Pool.start (Card.reset blankEngine))
      (Pool.start masterWithVf) log ∧
    ∃ effects : List Bool, effects.length = log.length ∧
      masterWithVf.engine.contexts = blankEngine.contexts.replay ((log.map Prod.snd).zip effects) :=
  sriov_contexts rfl reach_masterWithVf (by decide +kernel)

end OpenNic
