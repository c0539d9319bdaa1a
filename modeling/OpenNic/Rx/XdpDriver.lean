import OpenNic.Tx.PfDriver

namespace OpenNic

def ENXIO : Int := 6

def onicXdpPass : Nat := 0x1

def onicXdpRedir : Nat := 0x8

def xdpPass : Word := 2

def xdpTx : Word := 3

def xdpRedirect : Word := 4

/-- What the processing of one packet finds outside: the verdict of the program, if there
    is one, the length and headroom of the frame that `xdp_convert_buff_to_frame` makes, the
    results of `xdp_do_redirect`, `napi_build_skb` and `napi_gro_receive`. -/
structure XdpInput where
  prog : Option Word
  converted : Option (Nat × Nat)
  redirect : Int
  buildSkb : Bool
  gro : Nat
  tx : TxInput

/-- What a PF's poll works on when a packet has arrived, apart from the receive rings.
    `there` says whether `priv->tx_queue[q->qid]` is set. -/
structure XdpRx where
  there : Bool
  tx : TxQueue
  /-- Pages given back to the pool, to the target of a redirect and to the stack. -/
  recycled : List Nat
  redirected : List Nat
  stack : List Nat
  xdpPass : Nat
  xdpDrop : Nat
  xdpTx : Nat
  xdpTxErr : Nat
  xdpRedirect : Nat
  xdpXmit : Nat

namespace XdpRx

def setTx (q : TxQueue) (s : XdpRx) : XdpRx := { s with tx := q }

theorem tx_lens : Program.Lens XdpRx.tx XdpRx.setTx where
  get_set _ _ := rfl
  set_get _ := rfl
  set_set _ _ _ := rfl

end XdpRx

/-- The `xdp_buff` of a packet: the page it lies on and that page's DMA address. -/
structure XdpBuff where
  page : Nat
  pageDma : BitVec 64

/-- The whole of `onic_xdp_xmit_back`. -/
def onicXdpXmitBackBuff (t : Nat) (xdpBuff : XdpBuff) : Program XdpRx XdpInput Int := do
  match ← .access fun input s => some (input.converted, s) with
  | none =>
    .modify fun s => { s with xdpTxErr := s.xdpTxErr + 1 }
    .done onicXdpConsumed
  | some (len, headroom) =>
    if !(← .read XdpRx.there) then
      .modify fun s => { s with xdpTxErr := s.xdpTxErr + 1 }
      .done (- ENXIO)
    else
      let xdpf : XdpFrame := ⟨xdpBuff.page, len, headroom, xdpBuff.pageDma⟩
      let ret ← ((onicXdpXmitBack t xdpf).comap XdpInput.tx).lift XdpRx.tx XdpRx.setTx
      .modify fun s => { s with xdpTx := s.xdpTx + 1 }
      .done ret

/-- `out_failure` of `onic_run_xdp` and the cases it falls through to. -/
def onicXdpOutFailure (xdpBuff : XdpBuff) : Program XdpRx XdpInput Int := do
  .modify fun s => { s with xdpDrop := s.xdpDrop + 1, recycled := s.recycled ++ [xdpBuff.page] }
  .done (- onicXdpConsumed)

/-- The value of the pointer that `onic_run_xdp` returns, `ERR_PTR(-result)`. -/
def onicRunXdp (t : Nat) (xdpBuff : XdpBuff) : Program XdpRx XdpInput Int := do
  match ← .access fun input s => some (input.prog, s) with
  | none => .done (- onicXdpPass)
  | some act =>
    if act = xdpPass then
      .modify fun s => { s with xdpPass := s.xdpPass + 1 }
      .done (- onicXdpPass)
    else if act = xdpTx then
      let result ← onicXdpXmitBackBuff t xdpBuff
      if result = onicXdpConsumed then onicXdpOutFailure xdpBuff
      else .done (- result)
    else if act = xdpRedirect then
      let err ← .access fun input s => some (input.redirect, if input.redirect = 0 then
        { s with redirected := s.redirected ++ [xdpBuff.page] } else s)
      if err ≠ 0 then onicXdpOutFailure xdpBuff
      else
        .modify fun s => { s with xdpRedirect := s.xdpRedirect + 1 }
        .done (- onicXdpRedir)
    else onicXdpOutFailure xdpBuff

/-- `IS_ERR` of the pointer with this value; `MAX_ERRNO` is 4095. -/
def isErr (ptr : Int) : Bool := -4095 ≤ ptr && ptr < 0

/-- The skb of a packet that goes on; `false` when the poll breaks off. -/
def onicRxSkb (xdpBuff : XdpBuff) : Program XdpRx XdpInput Bool := do
  if ← .access fun input s => some (input.buildSkb, s) then
    let rv : Int ← .access fun input s => some ((input.gro : Int), { s with stack := s.stack ++ [xdpBuff.page] })
    if rv < 0 then .done false
    else .done true
  else .done false

/-- What `onic_rx_poll` does with a packet before `onic_rx_page_refill`; `false` when it
    breaks off. -/
def onicRxPacket (t : Nat) (xdpBuff : XdpBuff) : Program XdpRx XdpInput Bool := do
  let res ← onicRunXdp t xdpBuff
  if isErr res then
    let xdpRes := (-res).toNat
    if xdpRes &&& (onicXdpTx ||| onicXdpRedir) ≠ 0 then
      .modify fun s => { s with xdpXmit := s.xdpXmit ||| xdpRes }
      if xdpRes &&& onicXdpPass ≠ 0 then onicRxSkb xdpBuff
      else .done true
    else if xdpRes &&& onicXdpPass ≠ 0 then onicRxSkb xdpBuff
    else .done true
  else .done true

end OpenNic
