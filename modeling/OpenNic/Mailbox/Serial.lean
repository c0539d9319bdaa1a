import OpenNic.Mailbox.PfHandler
import Mathlib.Data.List.Perm.Subperm

namespace OpenNic

open PfSys

/-- Re-enabling the interrupt source at the end changes none of this state. -/
def onicUserThreadFn (rounds : Nat) : Program PfSys Input Unit := do
  let _ ← onicPfMboxProcessPending .user rounds 0

def onicErrorThreadFn (rounds : Nat) : Program PfSys Input Unit := do
  let mboxStatus ← PfMbox.readSts
  if mboxStatus.has 0 || mboxStatus.has 2 then
    let _ ← onicPfMboxProcessPending .error rounds 0
  else .done ()

/-- What happens to the mailbox besides the two threads. -/
inductive MailboxEnv (s : PfSys) : PfSys → Prop
  | arrive (src : FuncId) (req : Msg) :
      MailboxEnv s { s with requests := s.requests ++ [(src, req)], arrived := s.arrived ++ [(src, req)] }
  | consume (f : FuncId) : MailboxEnv s { s with responses := Function.update s.responses f none }
  | ack (acks : Nat → Word) : MailboxEnv s { s with acks := acks }
  | table (vfs : VfTable) : MailboxEnv s { s with vfs := vfs }
  | contexts (engine : CtxtEngine) : MailboxEnv s { s with engine := engine }

/-- Both interrupt threads run at any time, for any number of rounds. -/
def pfRules : Pool.Rules PfThread PfSys Input where
  calls u _ p := ∃ rounds, p = match u with
    | .user => onicUserThreadFn rounds
    | .error => onicErrorThreadFn rounds
  env := MailboxEnv

/-- Requests are executed once at most and answered in order, to their sender and to
    no other; outside the handler each is either waiting or executed and answered. -/
structure ExactlyOnce (s : PfSys) : Prop where
  once : (s.executed.map Executed.request).Subperm s.arrived
  answered : ∃ before, before <+: s.executed ∧ List.Forall₂ Answers before s.delivered
  complete : s.inside = [] → s.arrived.Perm (s.executed.map Executed.request ++ s.requests) ∧
    List.Forall₂ Answers s.executed s.delivered

theorem PfSys.Accounted.exactlyOnce {s : PfSys} (h : Accounted s) : ExactlyOnce s := by
  have complete (idle : s.inside = []) := h.idle idle
  rcases h.staged with settled | ⟨x, before, stage⟩ | ⟨x, before, stage⟩
  · have part := (List.sublist_append_left (s.executed.map Executed.request) s.requests).subperm
    exact ⟨part.trans settled.account.symm.subperm, ⟨s.executed, List.prefix_rfl, settled.answered⟩,
      fun idle => ⟨(complete idle).account, (complete idle).answered⟩⟩
  · have waiting : [x.request].Sublist s.requests :=
      List.singleton_sublist.mpr (List.mem_of_find?_eq_some stage.selected.first)
    have part : (s.executed.map Executed.request).Subperm s.arrived := by
      rw [stage.executed, List.map_append]
      exact ((List.Sublist.refl _).append waiting).subperm.trans stage.account.symm.subperm
    refine ⟨part, ⟨before, ?_, stage.answered⟩, fun idle => ⟨(complete idle).account, (complete idle).answered⟩⟩
    rw [stage.executed]
    exact List.prefix_append _ _
  · have part := (List.sublist_append_left (s.executed.map Executed.request) s.requests).subperm
    refine ⟨part.trans stage.account.symm.subperm, ⟨before, ?_, stage.answered⟩,
      fun idle => ⟨(complete idle).account, (complete idle).answered⟩⟩
    rw [stage.executed]
    exact List.prefix_append _ _

theorem MailboxEnv.undisturbed {s s' : PfSys} (happens : MailboxEnv s s') :
    s'.inside = s.inside ∧ Undisturbed s s' := by
  cases happens with
  | arrive src req => exact ⟨rfl, rfl, rfl, rfl, rfl, ⟨[(src, req)], rfl, rfl⟩, fun _ free => free⟩
  | consume f =>
    refine ⟨rfl, rfl, rfl, rfl, rfl, ⟨[], by simp⟩, fun g free => ?_⟩
    by_cases same : g = f
    · simp [same]
    · simpa [Function.update_of_ne same] using free
  | ack acks => exact ⟨rfl, rfl, rfl, rfl, rfl, ⟨[], by simp⟩, fun _ free => free⟩
  | table vfs => exact ⟨rfl, rfl, rfl, rfl, rfl, ⟨[], by simp⟩, fun _ free => free⟩
  | contexts engine => exact ⟨rfl, rfl, rfl, rfl, rfl, ⟨[], by simp⟩, fun _ free => free⟩

theorem onicUserThreadFn_triple (rounds : Nat) :
    (pfContract .user).Triple (Outside .user) (onicUserThreadFn rounds) fun _ => Outside .user :=
  .bind (onicPfMboxProcessPending_triple rounds 0) fun _ => outside_done ()

theorem onicErrorThreadFn_triple (rounds : Nat) :
    (pfContract .error).Triple (Outside .error) (onicErrorThreadFn rounds) fun _ => Outside .error := by
  apply Contract.Triple.bind (outside_read _)
  intro status
  split
  · exact .bind (onicPfMboxProcessPending_triple rounds 0) fun _ => outside_done ()
  · exact outside_done ()

/-- At most one thread at a time is inside `onic_pf_mbox_process_one`. -/
def NoOverlap (s : PfSys) : Prop := s.inside.length ≤ 1

instance : DecidablePred NoOverlap := fun s => inferInstanceAs (Decidable (s.inside.length ≤ 1))

theorem pfRules_fit : Pool.Fits pfRules NoOverlap Accounted pfContract Outside where
  same_ok _ := rfl
  same_inv _ := rfl
  threads _ u other _ _ _ _ guarantee := guarantee u other.symm
  env s s' _ _ accounted happens := by
    obtain ⟨same, between⟩ := happens.undisturbed
    exact ⟨accounted.undisturbed same between, fun u => ⟨by rw [same], fun _ => between⟩⟩
  calls u s p called ok inv outside := by
    obtain ⟨rounds, rfl⟩ := called
    cases u with
    | user => exact onicUserThreadFn_triple rounds s ok inv outside
    | error => exact onicErrorThreadFn_triple rounds s ok inv outside

/-- The mailbox before the first interrupt, with the requests that came before it. -/
structure Fresh (s : PfSys) : Prop where
  arrived : s.arrived = s.requests
  executed : s.executed = []
  delivered : s.delivered = []
  inside : s.inside = []

theorem Fresh.settled {s : PfSys} (fresh : Fresh s) : Settled s := by
  constructor
  · rw [fresh.arrived, fresh.executed]
    exact .refl _
  · rw [fresh.executed, fresh.delivered]
    exact .nil

end OpenNic
