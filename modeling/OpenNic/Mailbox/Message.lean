import OpenNic.Common.Kernel
import Mathlib.Logic.Function.Basic

namespace OpenNic

/-- `struct onic_mbox_msg` by its 32 words. -/
abbrev Msg := Fin 32 → Word

instance neZero_msgWords : NeZero 32 := ⟨by decide⟩

def opGetQueueRes : Word := 0x01

def opQueueResResp : Word := 0x02

def opConfigQueue : Word := 0x03

def opConfigQueueResp : Word := 0x04

def opClearQueue : Word := 0x05

def opClearQueueResp : Word := 0x06

def queueDirTx : Word := 0

def queueDirRx : Word := 1

def stsOk : Word := 0x00

def stsErr : Word := 0x01

/-- `sizeof(struct onic_mbox_queue_res)` and its siblings -/
def sizeofQres : Word := 20

def sizeofQcfg : Word := 48

def sizeofQclear : Word := 8

def sizeofQcmdResp : Word := 8

namespace Msg

def zero : Msg := fun _ => 0

def set (msg : Msg) (i : Fin 32) (val : Word) : Msg := Function.update msg i val

def opcode (msg : Msg) : Word := msg 0

def status (msg : Msg) : Word := msg 1

def seq (msg : Msg) : Word := msg 2

def len (msg : Msg) : Word := msg 3

/-- `data.qcmd_resp`; `data.qclear` and the head of `data.qcfg` share its place. -/
def qid (msg : Msg) : Word := msg 4

def dir (msg : Msg) : Word := msg 5

end Msg

/-- `struct onic_mbox_queue_cfg` -/
structure QueueCfg where
  qid : Word
  dir : Word
  vector : Word
  rngcntIdx : Word
  bufszIdx : Word
  cmplRngcntIdx : Word
  cmplDescSz : Word
  reserved : Word
  descDmaLo : Word
  descDmaHi : Word
  cmplDmaLo : Word
  cmplDmaHi : Word
  deriving DecidableEq

def Msg.qcfg (msg : Msg) : QueueCfg where
  qid := msg 4
  dir := msg 5
  vector := msg 6
  rngcntIdx := msg 7
  bufszIdx := msg 8
  cmplRngcntIdx := msg 9
  cmplDescSz := msg 10
  reserved := msg 11
  descDmaLo := msg 12
  descDmaHi := msg 13
  cmplDmaLo := msg 14
  cmplDmaHi := msg 15

/-- `struct onic_mbox_queue_res`; the address is its six bytes, lowest first. -/
structure QueueRes where
  funcId : Word
  qbase : Word
  qmax : Word
  mac : BitVec 48
  deriving DecidableEq

def Msg.qres (msg : Msg) : QueueRes where
  funcId := msg 4
  qbase := msg 5
  qmax := msg 6
  mac := ((msg 8).setWidth 48 <<< 32) ||| (msg 7).setWidth 48

def Msg.setQres (msg : Msg) (res : QueueRes) : Msg :=
  (((((msg.set 4 res.funcId).set 5 res.qbase).set 6 res.qmax).set 7 (res.mac.setWidth 32))).set 8
    ((res.mac >>> 32).setWidth 32)

theorem Msg.qres_setQres (msg : Msg) (res : QueueRes) : (msg.setQres res).qres = res := by
  obtain ⟨funcId, qbase, qmax, mac⟩ := res
  simp only [Msg.qres, Msg.setQres, Msg.set, QueueRes.mk.injEq]
  refine ⟨by simp, by simp, by simp, ?_⟩
  apply BitVec.eq_of_getLsbD_eq
  intro i small
  by_cases low : i < 32
  · simp [low, small]
  · simp [low, small, show i - 32 < 32 by omega, show 32 + (i - 32) = i by omega]

def onicMaxVfs : Nat := 4

/-- `struct onic_vf_resource` -/
structure OnicVfResource where
  vfId : BitVec 16
  funcId : BitVec 16
  qbase : BitVec 16
  qmax : BitVec 16
  numTxQueues : BitVec 16
  numRxQueues : BitVec 16
  mac : BitVec 48
  enabled : Bool
  deriving DecidableEq

/-- `priv->vf_res` and `priv->num_vfs` -/
structure VfTable where
  vfRes : Fin onicMaxVfs → OnicVfResource
  numVfs : Nat
  bound : numVfs ≤ onicMaxVfs

def onicPfMboxFindVfResource (vfs : VfTable) (funcId : BitVec 16) : Option OnicVfResource :=
  ((List.ofFn vfs.vfRes).take vfs.numVfs).find? fun res => res.enabled && res.funcId == funcId

theorem onicPfMboxFindVfResource_some {vfs : VfTable} {funcId : BitVec 16} {res : OnicVfResource}
    (found : onicPfMboxFindVfResource vfs funcId = some res) :
    res.enabled = true ∧ res.funcId = funcId ∧ ∃ i, vfs.vfRes i = res := by
  have holds := List.find?_some found
  simp only [Bool.and_eq_true, beq_iff_eq] at holds
  have mem := List.mem_of_mem_take (List.mem_of_find?_eq_some found)
  exact ⟨holds.1, holds.2, List.mem_ofFn.mp mem⟩

theorem onicPfMboxFindVfResource_none {vfs : VfTable} {funcId : BitVec 16}
    (missing : onicPfMboxFindVfResource vfs funcId = none) (i : Fin onicMaxVfs)
    (used : i.val < vfs.numVfs) :
    (vfs.vfRes i).enabled = false ∨ (vfs.vfRes i).funcId ≠ funcId := by
  have all := List.find?_eq_none.mp missing (vfs.vfRes i)
    (List.mem_take_iff_getElem.mpr ⟨i.val, by simp [used], by simp⟩)
  simp only [Bool.and_eq_true, beq_iff_eq, not_and] at all
  cases enabled : (vfs.vfRes i).enabled with
  | false => exact .inl rfl
  | true => exact .inr (all enabled)

end OpenNic
