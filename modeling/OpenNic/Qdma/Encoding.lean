import OpenNic.Common.Packing
import OpenNic.Qdma.Decode
import OpenNic.Qdma.FunctionMap

namespace OpenNic

/-- A format of context words: the fields of each word, and where they stand whatever their values. -/
structure CtxtFormat (γ : Type) where
  words : γ → List Word
  fields : γ → List (List WordField)
  layout : List (List Span)
  packs : ∀ ctxt, words ctxt = (fields ctxt).map pack
  spans : ∀ ctxt, (fields ctxt).map (·.map WordField.span) = layout
  apart : ∀ word ∈ layout, Spans.Apart word

namespace CtxtFormat

variable {γ : Type} (format : CtxtFormat γ) (ctxt : γ)

theorem word_eq (i : Nat) : (format.words ctxt).getD i 0 = pack ((format.fields ctxt).getD i []) := by
  rw [format.packs, List.getD_eq_getElem?_getD, List.getD_eq_getElem?_getD, List.getElem?_map]
  cases (format.fields ctxt)[i]? <;> rfl

theorem spans_eq (i : Nat) : ((format.fields ctxt).getD i []).map WordField.span = format.layout.getD i [] := by
  rw [← format.spans ctxt, List.getD_eq_getElem?_getD, List.getD_eq_getElem?_getD, List.getElem?_map]
  cases (format.fields ctxt)[i]? <;> rfl

theorem word_apart (i : Nat) : Spans.Apart (format.layout.getD i []) := by
  rw [List.getD_eq_getElem?_getD]
  cases here : format.layout[i]? with
  | none => exact ⟨by simp, by simp⟩
  | some word => exact format.apart word (List.mem_of_getElem? here)

/-- No other field of the word changes what is read of one. -/
theorem read (i : Nat) : ∀ f ∈ (format.fields ctxt).getD i [], hwField f.high f.low ((format.words ctxt).getD i 0) =
    hwField f.high f.low (field (genmask f.high f.low) f.val) := by
  rw [format.word_eq]
  have apart := format.word_apart i
  rw [← format.spans_eq ctxt] at apart
  exact bitfieldGet_pack apart

theorem outside (i : Nat) : (format.words ctxt).getD i 0 &&& ~~~ Spans.mask (format.layout.getD i []) = 0 := by
  rw [format.word_eq, ← format.spans_eq ctxt]
  exact pack_and_not _

theorem beyond {i : Nat} (past : format.layout.length ≤ i) : (format.words ctxt).getD i 0 = 0 := by
  have same : (format.fields ctxt).length = format.layout.length := by rw [← format.spans ctxt, List.length_map]
  rw [format.word_eq, List.getD_eq_getElem?_getD, List.getElem?_eq_none (same ▸ past)]
  rfl

end CtxtFormat

namespace SwCtxt

/-- The fields of each word, at the bits that the masks of `qdma_context.h` name. -/
def fields (ctxt : SwCtxt) : List (List WordField) :=
  [[⟨15, 0, ctxt.pidx⟩, ⟨16, 16, ctxt.irqArm⟩, ⟨24, 17, ctxt.funcId⟩],
    [⟨0, 0, ctxt.qen⟩, ⟨1, 1, ctxt.fcrdEn⟩, ⟨2, 2, ctxt.wbiChk⟩, ⟨3, 3, ctxt.wbiIntvlEn⟩, ⟨4, 4, ctxt.at_⟩,
      ⟨7, 5, ctxt.fetchMax⟩, ⟨15, 12, ctxt.rngszIdx⟩, ⟨17, 16, ctxt.descSz⟩, ⟨18, 18, ctxt.bypass⟩,
      ⟨19, 19, ctxt.mmChn⟩, ⟨20, 20, ctxt.wbkEn⟩, ⟨21, 21, ctxt.irqEn⟩, ⟨24, 22, ctxt.portId⟩,
      ⟨25, 25, ctxt.irqNoLast⟩, ⟨27, 26, ctxt.err⟩, ⟨28, 28, ctxt.errWbSent⟩, ⟨29, 29, ctxt.irqReq⟩,
      ⟨30, 30, ctxt.mrkrDis⟩, ⟨31, 31, ctxt.isMm⟩],
    [⟨31, 0, (bitfieldGet (genmask 31 0) ctxt.descBase).setWidth 32⟩],
    [⟨31, 0, (bitfieldGet (genmask 63 32) ctxt.descBase).setWidth 32⟩],
    [⟨10, 0, ctxt.vec⟩, ⟨11, 11, ctxt.intrAggr⟩]]

theorem words_eq (ctxt : SwCtxt) : ctxt.words = ctxt.fields.map pack := by
  simp only [words, fields, List.map_cons, List.map_nil, pack, List.foldr_cons, List.foldr_nil, BitVec.ofNat_eq_ofNat,
    BitVec.or_zero, BitVec.or_assoc]
  simp (disch := decide) only [bit_eq_genmask]
  rfl

def ofWords (words : Nat → Word) : SwCtxt where
  pidx := (hwField 15 0 (words 0)).setWidth 16
  irqArm := (hwField 16 16 (words 0)).setWidth 1
  funcId := (hwField 24 17 (words 0)).setWidth 8
  qen := (hwField 0 0 (words 1)).setWidth 1
  fcrdEn := (hwField 1 1 (words 1)).setWidth 1
  wbiChk := (hwField 2 2 (words 1)).setWidth 1
  wbiIntvlEn := (hwField 3 3 (words 1)).setWidth 1
  at_ := (hwField 4 4 (words 1)).setWidth 1
  fetchMax := (hwField 7 5 (words 1)).setWidth 3
  rngszIdx := (hwField 15 12 (words 1)).setWidth 4
  descSz := (hwField 17 16 (words 1)).setWidth 2
  bypass := (hwField 18 18 (words 1)).setWidth 1
  mmChn := (hwField 19 19 (words 1)).setWidth 1
  wbkEn := (hwField 20 20 (words 1)).setWidth 1
  irqEn := (hwField 21 21 (words 1)).setWidth 1
  portId := (hwField 24 22 (words 1)).setWidth 3
  irqNoLast := (hwField 25 25 (words 1)).setWidth 1
  err := (hwField 27 26 (words 1)).setWidth 2
  errWbSent := (hwField 28 28 (words 1)).setWidth 1
  irqReq := (hwField 29 29 (words 1)).setWidth 1
  mrkrDis := (hwField 30 30 (words 1)).setWidth 1
  isMm := (hwField 31 31 (words 1)).setWidth 1
  descBase := hwSwDescBase words
  vec := (hwField 10 0 (words 4)).setWidth 11
  intrAggr := (hwField 11 11 (words 4)).setWidth 1

def format : CtxtFormat SwCtxt where
  words := words
  fields := fields
  layout := zero.fields.map (·.map WordField.span)
  packs := words_eq
  spans _ := rfl
  apart := by decide

theorem ofWords_words (ctxt : SwCtxt) : ofWords (fun i => ctxt.words.getD i 0) = ctxt := by
  have word0 := format.read ctxt 0
  have word1 := format.read ctxt 1
  have word4 := format.read ctxt 4
  simp only [format, fields, List.getD_cons_zero, List.getD_cons_succ, List.forall_mem_cons] at word0 word1 word4
  simp (disch := decide) only [hwField_same] at word0 word1 word4
  simp only [ofWords, ctxt.hw_descBase, word0, word1, word4]
  simp

end SwCtxt

/-- The two parts of a field that is split across words, put together again. -/
theorem bitfieldGet_join (high mid : Nat) (small : high < 64) (above : mid + 1 ≤ high) (x : BitVec 64) :
    (bitfieldGet (genmask high (mid + 1)) x <<< (mid + 1)) ||| bitfieldGet (genmask mid 0) x =
      bitfieldGet (genmask high 0) x := by
  apply BitVec.eq_of_getLsbD_eq
  intro i wide
  rw [BitVec.getLsbD_or, BitVec.getLsbD_shiftLeft, getLsbD_bitfieldGet small above,
    getLsbD_bitfieldGet (by omega) (by omega), getLsbD_bitfieldGet small (by omega)]
  by_cases lower : i ≤ mid
  · simp [lower, show i < mid + 1 by omega, show i ≤ high by omega]
  · simp [lower, wide, show ¬ i < mid + 1 by omega, show mid + 1 + (i - (mid + 1)) = i by omega]

theorem bitfieldGet_whole (w : Nat) (small : w < 64) (val : BitVec (w + 1)) :
    (bitfieldGet (genmask w 0) (val.setWidth 64)).setWidth (w + 1) = val := by
  apply BitVec.eq_of_getLsbD_eq
  intro i below
  rw [BitVec.getLsbD_setWidth, getLsbD_bitfieldGet small (Nat.zero_le _)]
  simp [below, show i ≤ w by omega, show i < 64 by omega]

namespace PfchCtxt

def fields (ctxt : PfchCtxt) : List (List WordField) :=
  [[⟨0, 0, ctxt.bypass⟩, ⟨4, 1, ctxt.bufszIdx⟩, ⟨7, 5, ctxt.portId⟩, ⟨26, 26, ctxt.err⟩, ⟨27, 27, ctxt.pfchEn⟩,
      ⟨28, 28, ctxt.inPfch⟩, ⟨31, 29, (bitfieldGet (genmask 2 0) (ctxt.swCrdt.setWidth 64)).setWidth 32⟩],
    [⟨12, 0, (bitfieldGet (genmask 15 3) (ctxt.swCrdt.setWidth 64)).setWidth 32⟩, ⟨13, 13, ctxt.valid⟩]]

theorem words_eq (ctxt : PfchCtxt) : ctxt.words = ctxt.fields.map pack := by
  simp only [words, fields, List.map_cons, List.map_nil, pack, List.foldr_cons, List.foldr_nil, BitVec.ofNat_eq_ofNat,
    BitVec.or_zero, BitVec.or_assoc]
  simp (disch := decide) only [bit_eq_genmask]
  rfl

def ofWords (words : Nat → Word) : PfchCtxt where
  bypass := (hwField 0 0 (words 0)).setWidth 1
  bufszIdx := (hwField 4 1 (words 0)).setWidth 4
  portId := (hwField 7 5 (words 0)).setWidth 3
  err := (hwField 26 26 (words 0)).setWidth 1
  pfchEn := (hwField 27 27 (words 0)).setWidth 1
  inPfch := (hwField 28 28 (words 0)).setWidth 1
  swCrdt := ((hwField 12 0 (words 1) <<< 3) ||| hwField 31 29 (words 0)).setWidth 16
  valid := (hwField 13 13 (words 1)).setWidth 1

def format : CtxtFormat PfchCtxt where
  words := words
  fields := fields
  layout := zero.fields.map (·.map WordField.span)
  packs := words_eq
  spans _ := rfl
  apart := by decide

theorem ofWords_words (ctxt : PfchCtxt) : ofWords (fun i => ctxt.words.getD i 0) = ctxt := by
  have word0 := format.read ctxt 0
  have word1 := format.read ctxt 1
  simp only [format, fields, List.getD_cons_zero, List.getD_cons_succ, List.forall_mem_cons] at word0 word1
  simp (disch := decide) only [hwField_same, hwField_part] at word0 word1
  have swCrdt := bitfieldGet_join 15 2 (by decide) (by decide) (ctxt.swCrdt.setWidth 64)
  simp only [ofWords, word0, word1, swCrdt, bitfieldGet_whole 15 (by decide)]
  simp

end PfchCtxt

namespace CmplCtxt

def fields (ctxt : CmplCtxt) : List (List WordField) :=
  [[⟨0, 0, ctxt.statEn⟩, ⟨1, 1, ctxt.intrEn⟩, ⟨4, 2, ctxt.trigMode⟩, ⟨12, 5, ctxt.funcId⟩, ⟨20, 17, ctxt.counterIdx⟩,
      ⟨24, 21, ctxt.timerIdx⟩, ⟨26, 25, ctxt.intrSt⟩, ⟨27, 27, ctxt.color⟩, ⟨31, 28, ctxt.rngszIdx⟩],
    [⟨31, 6, (bitfieldGet (genmask 37 12) ctxt.baddr).setWidth 32⟩],
    [⟨25, 0, (bitfieldGet (genmask 63 38) ctxt.baddr).setWidth 32⟩, ⟨27, 26, ctxt.descSz⟩,
      ⟨31, 28, (bitfieldGet (genmask 3 0) (ctxt.pidx.setWidth 64)).setWidth 32⟩],
    [⟨11, 0, (bitfieldGet (genmask 15 4) (ctxt.pidx.setWidth 64)).setWidth 32⟩, ⟨27, 12, ctxt.cidx⟩, ⟨28, 28, ctxt.valid⟩,
      ⟨30, 29, ctxt.err⟩, ⟨31, 31, ctxt.userTrigPend⟩],
    [⟨0, 0, ctxt.timerRunning⟩, ⟨1, 1, ctxt.fullUpd⟩, ⟨2, 2, ctxt.ovfChkDis⟩, ⟨3, 3, ctxt.at_⟩, ⟨14, 4, ctxt.vec⟩,
      ⟨15, 15, ctxt.intrAggr⟩]]

theorem words_eq (ctxt : CmplCtxt) : ctxt.words = ctxt.fields.map pack := by
  simp only [words, fields, List.map_cons, List.map_nil, pack, List.foldr_cons, List.foldr_nil, BitVec.ofNat_eq_ofNat,
    BitVec.or_zero, BitVec.or_assoc]
  simp (disch := decide) only [bit_eq_genmask]
  rfl

def ofWords (words : Nat → Word) : CmplCtxt where
  statEn := (hwField 0 0 (words 0)).setWidth 1
  intrEn := (hwField 1 1 (words 0)).setWidth 1
  trigMode := (hwField 4 2 (words 0)).setWidth 3
  funcId := (hwField 12 5 (words 0)).setWidth 8
  counterIdx := (hwField 20 17 (words 0)).setWidth 4
  timerIdx := (hwField 24 21 (words 0)).setWidth 4
  intrSt := (hwField 26 25 (words 0)).setWidth 2
  color := (hwField 27 27 (words 0)).setWidth 1
  rngszIdx := (hwField 31 28 (words 0)).setWidth 4
  baddr := hwCmplBaddr words
  descSz := (hwField 27 26 (words 2)).setWidth 2
  pidx := ((hwField 11 0 (words 3) <<< 4) ||| hwField 31 28 (words 2)).setWidth 16
  cidx := (hwField 27 12 (words 3)).setWidth 16
  valid := (hwField 28 28 (words 3)).setWidth 1
  err := (hwField 30 29 (words 3)).setWidth 2
  userTrigPend := (hwField 31 31 (words 3)).setWidth 1
  timerRunning := (hwField 0 0 (words 4)).setWidth 1
  fullUpd := (hwField 1 1 (words 4)).setWidth 1
  ovfChkDis := (hwField 2 2 (words 4)).setWidth 1
  at_ := (hwField 3 3 (words 4)).setWidth 1
  vec := (hwField 14 4 (words 4)).setWidth 11
  intrAggr := (hwField 15 15 (words 4)).setWidth 1

def format : CtxtFormat CmplCtxt where
  words := words
  fields := fields
  layout := zero.fields.map (·.map WordField.span)
  packs := words_eq
  spans _ := rfl
  apart := by decide

theorem ofWords_words (ctxt : CmplCtxt) (aligned : ctxt.baddr.toNat % 4096 = 0) :
    ofWords (fun i => ctxt.words.getD i 0) = ctxt := by
  have baddr := ctxt.hw_baddr fun i less => low_of_aligned aligned less
  have word0 := format.read ctxt 0
  have word2 := format.read ctxt 2
  have word3 := format.read ctxt 3
  have word4 := format.read ctxt 4
  simp only [format, fields, List.getD_cons_zero, List.getD_cons_succ, List.forall_mem_cons] at word0 word2 word3 word4
  simp (disch := decide) only [hwField_same, hwField_part] at word0 word2 word3 word4
  have pidx := bitfieldGet_join 15 3 (by decide) (by decide) (ctxt.pidx.setWidth 64)
  simp only [ofWords, baddr, word0, word2, word3, word4, pidx, bitfieldGet_whole 15 (by decide)]
  simp

end CmplCtxt

namespace FmapCtxt

def fields (ctxt : FmapCtxt) : List (List WordField) := [[⟨10, 0, ctxt.qbase⟩], [⟨11, 0, ctxt.qmax⟩]]

theorem words_eq (ctxt : FmapCtxt) : ctxt.words = ctxt.fields.map pack := by
  simp only [words, fields, List.map_cons, List.map_nil, pack, List.foldr_cons, List.foldr_nil, BitVec.ofNat_eq_ofNat,
    BitVec.or_zero]
  rfl

def ofWords (words : Nat → Word) : FmapCtxt where
  qbase := (hwField 10 0 (words 0)).setWidth 11
  qmax := (hwField 11 0 (words 1)).setWidth 12

def format : CtxtFormat FmapCtxt where
  words := words
  fields := fields
  layout := [[(10, 0)], [(11, 0)]]
  packs := words_eq
  spans _ := rfl
  apart := by decide

theorem ofWords_words (ctxt : FmapCtxt) : ofWords (fun i => ctxt.words.getD i 0) = ctxt := by
  have word0 := format.read ctxt 0
  have word1 := format.read ctxt 1
  simp only [format, fields, List.getD_cons_zero, List.getD_cons_succ, List.forall_mem_cons] at word0 word1
  simp (disch := decide) only [hwField_same] at word0 word1
  simp only [ofWords, word0, word1]
  simp

end FmapCtxt

/-- Every run of the call issues one write command, and its data registers hold the context: what is
    read at the places of the layout is the context, and all other bits are zero. -/
structure Encodes {γ α : Type} (layout : List (List Span)) (ofWords : (Nat → Word) → γ) (ctxt : γ)
    (call : Program CtxtEngine Input α) : Prop where
  apart : ∀ word ∈ layout, Spans.Apart word
  written : ∀ e a e', Program.Exec call e a e' → ∃ c : IssuedCmd, CtxtEngine.Issued [c] e e' ∧
    c.cmd.op = CtxtCmdOp.wr.code ∧ ofWords c.data = ctxt ∧
    (∀ i, i < ctxtProgNumDataRegs → c.data i &&& ~~~ Spans.mask (layout.getD i []) = 0) ∧
    ∀ i, layout.length ≤ i → i < ctxtProgNumDataRegs → c.data i = 0

theorem writeCtxt_encodes {γ : Type} (format : CtxtFormat γ) {ofWords : (Nat → Word) → γ} {ctxt : γ} {cmd : CtxtCmd}
    (wr : cmd.op = CtxtCmdOp.wr.code)
    (regs : ∀ data data' : Nat → Word, (∀ i, i < ctxtProgNumDataRegs → data i = data' i) → ofWords data = ofWords data')
    (back : ofWords (fun i => (format.words ctxt).getD i 0) = ctxt) :
    Encodes format.layout ofWords ctxt (writeCtxt cmd (format.words ctxt)) := by
  refine ⟨format.apart, fun e a e' ran => ?_⟩
  rcases Program.exec_map.mp ran with ⟨r, program, -⟩
  rcases qdmaProgramCtxt_issued program with ⟨c, is_cmd, carries, issued⟩
  have holds := carries (is_cmd ▸ wr)
  refine ⟨c, issued, is_cmd ▸ wr, (regs _ _ holds).trans back, fun i less => ?_, fun i past less => ?_⟩
  · rw [holds i less]
    exact format.outside ctxt i
  · rw [holds i less]
    exact format.beyond ctxt past

section

variable (qdev : QdmaDev) (qid : BitVec 16)

theorem qdmaWriteSwCtxt_encodes (dir : QdmaDir) (ctxt : SwCtxt) :
    Encodes SwCtxt.format.layout SwCtxt.ofWords ctxt (qdmaWriteSwCtxt qdev qid dir ctxt) := by
  apply writeCtxt_encodes SwCtxt.format rfl _ ctxt.ofWords_words
  intro data data' same
  simp only [SwCtxt.ofWords, hwSwDescBase, same 0 (by decide), same 1 (by decide), same 2 (by decide),
    same 3 (by decide), same 4 (by decide)]

theorem qdmaWritePfchCtxt_encodes (ctxt : PfchCtxt) :
    Encodes PfchCtxt.format.layout PfchCtxt.ofWords ctxt (qdmaWritePfchCtxt qdev qid ctxt) := by
  apply writeCtxt_encodes PfchCtxt.format rfl _ ctxt.ofWords_words
  intro data data' same
  simp only [PfchCtxt.ofWords, same 0 (by decide), same 1 (by decide)]

theorem qdmaWriteCmplCtxt_encodes (ctxt : CmplCtxt) (aligned : ctxt.baddr.toNat % 4096 = 0) :
    Encodes CmplCtxt.format.layout CmplCtxt.ofWords ctxt (qdmaWriteCmplCtxt qdev qid ctxt) := by
  apply writeCtxt_encodes CmplCtxt.format rfl _ (ctxt.ofWords_words aligned)
  intro data data' same
  simp only [CmplCtxt.ofWords, hwCmplBaddr, same 0 (by decide), same 1 (by decide), same 2 (by decide),
    same 3 (by decide), same 4 (by decide)]

theorem qdmaWriteFmapCtxt_encodes (ctxt : FmapCtxt) :
    Encodes FmapCtxt.format.layout FmapCtxt.ofWords ctxt (qdmaWriteFmapCtxt qdev ctxt) := by
  have encodes : Encodes FmapCtxt.format.layout FmapCtxt.ofWords ctxt (writeCtxt (fmapCmd qdev .wr) ctxt.words) := by
    apply writeCtxt_encodes FmapCtxt.format rfl _ ctxt.ofWords_words
    intro data data' same
    simp only [FmapCtxt.ofWords, same 0 (by decide), same 1 (by decide)]
  refine ⟨encodes.apart, fun e a e' ran => ?_⟩
  rcases Program.exec_bind.mp ran with ⟨rv, mid, write, rest⟩
  have last : e' = mid := by
    split at rest
    · exact (Program.exec_done.mp rest).2
    · exact (Program.exec_done.mp rest).2
  rw [last]
  exact encodes.written _ _ _ write

end

/-- Each `qdma_write_*_ctxt` stores its context so that it can be read back field by field, and no two
    contexts have the same words. -/
theorem ctxt_encoders_faithful :
    (∀ qdev qid dir ctxt, Encodes SwCtxt.format.layout SwCtxt.ofWords ctxt (qdmaWriteSwCtxt qdev qid dir ctxt)) ∧
    (∀ qdev qid ctxt, Encodes PfchCtxt.format.layout PfchCtxt.ofWords ctxt (qdmaWritePfchCtxt qdev qid ctxt)) ∧
    (∀ qdev qid (ctxt : CmplCtxt), ctxt.baddr.toNat % 4096 = 0 →
      Encodes CmplCtxt.format.layout CmplCtxt.ofWords ctxt (qdmaWriteCmplCtxt qdev qid ctxt)) ∧
    (∀ qdev ctxt, Encodes FmapCtxt.format.layout FmapCtxt.ofWords ctxt (qdmaWriteFmapCtxt qdev ctxt)) ∧
    Function.Injective SwCtxt.words ∧ Function.Injective PfchCtxt.words ∧ Function.Injective FmapCtxt.words ∧
    ∀ ctxt ctxt' : CmplCtxt, ctxt.baddr.toNat % 4096 = 0 → ctxt'.baddr.toNat % 4096 = 0 →
      ctxt.words = ctxt'.words → ctxt = ctxt' := by
  refine ⟨qdmaWriteSwCtxt_encodes, qdmaWritePfchCtxt_encodes, qdmaWriteCmplCtxt_encodes, qdmaWriteFmapCtxt_encodes,
    ?_, ?_, ?_, ?_⟩
  · intro ctxt ctxt' same
    rw [← ctxt.ofWords_words, same, ctxt'.ofWords_words]
  · intro ctxt ctxt' same
    rw [← ctxt.ofWords_words, same, ctxt'.ofWords_words]
  · intro ctxt ctxt' same
    rw [← ctxt.ofWords_words, same, ctxt'.ofWords_words]
  · intro ctxt ctxt' aligned aligned' same
    rw [← ctxt.ofWords_words aligned, same, ctxt'.ofWords_words aligned']

/-- A completion context of a queue of function 4. -/
theorem ctxt_encoders_faithful_cmpl :
    Encodes CmplCtxt.format.layout CmplCtxt.ofWords { CmplCtxt.zero with baddr := 0x123456789000, pidx := 0xABCD, valid := 1 }
      (qdmaWriteCmplCtxt ⟨4, 64, 4⟩ 2 { CmplCtxt.zero with baddr := 0x123456789000, pidx := 0xABCD, valid := 1 }) :=
  ctxt_encoders_faithful.2.2.1 ⟨4, 64, 4⟩ 2 _ (by decide)

end OpenNic
