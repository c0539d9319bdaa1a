import OpenNic.Qdma.Queue

namespace OpenNic

/-- `struct qdma_fmap_ctxt` -/
structure FmapCtxt where
  qbase : BitVec 11
  qmax : BitVec 12
  deriving DecidableEq

def FmapCtxt.words (ctxt : FmapCtxt) : List Word := [field (genmask 10 0) ctxt.qbase, field (genmask 11 0) ctxt.qmax]

def fmapCmd (qdev : QdmaDev) (op : CtxtCmdOp) : CtxtCmd where
  sel := CtxtCmdSel.fmap.code
  op := op.code
  qid := qdev.funcId.setWidth 11

/-- Returns the device as it leaves it, too. -/
def qdmaWriteFmapCtxt (qdev : QdmaDev) (ctxt : FmapCtxt) : Program CtxtEngine Input (Int × QdmaDev) := do
  let rv ← writeCtxt (fmapCmd qdev .wr) ctxt.words
  if rv < 0 then .done (rv, { qdev with qBase := 0, numQueues := 0 })
  else .done (0, { qdev with qBase := ctxt.qbase.setWidth 16, numQueues := ctxt.qmax.setWidth 16 })

def qdmaClearFmapCtxt (qdev : QdmaDev) : Program CtxtEngine Input (Int × QdmaDev) := do
  let rv ← clearCtxt (fmapCmd qdev .clr)
  .done (rv, { qdev with qBase := 0, numQueues := 0 })

/-- It clears the context, too. -/
def qdmaInvalidateFmapCtxt (qdev : QdmaDev) : Program CtxtEngine Input (Int × QdmaDev) := qdmaClearFmapCtxt qdev

end OpenNic
