import OpenNic.Common.BitField

namespace OpenNic

/-- A value and the bits of a word that hold it. -/
structure WordField where
  high : Nat
  low : Nat
  {w : Nat}
  val : BitVec w

/-- The highest and the lowest bit of a field. -/
abbrev Span := Nat × Nat

def Span.mask (s : Span) : BitVec 64 := genmask s.1 s.2

namespace WordField

def span (f : WordField) : Span := (f.high, f.low)

def word (f : WordField) : Word := (fieldSet f.span.mask (f.val.setWidth 64)).setWidth 32

end WordField

def pack (fields : List WordField) : Word := fields.foldr (fun f rest => f.word ||| rest) 0

/-- The spans lie within a word, and no two share a bit. -/
def Spans.Apart (spans : List Span) : Prop :=
  (∀ s ∈ spans, s.2 ≤ s.1 ∧ s.1 < 32) ∧ spans.Pairwise fun s t => s.mask &&& t.mask = 0

instance Spans.decidableApart (spans : List Span) : Decidable (Spans.Apart spans) := inferInstanceAs (Decidable (_ ∧ _))

/-- The bits of all spans. -/
def Spans.mask (spans : List Span) : Word := spans.foldr (fun s rest => s.mask.setWidth 32 ||| rest) 0

/-- A field has no bits outside its own mask. -/
theorem WordField.word_outside (f : WordField) {i : Nat} (outside : f.span.mask.getLsbD i = false) :
    f.word.getLsbD i = false := by
  simp [word, fieldSet, outside]

theorem bitfieldGet_apart {s : Span} {f : WordField} (apart : s.mask &&& f.span.mask = 0) :
    bitfieldGet s.mask (f.word.setWidth 64) = 0 := by
  have none : f.word.setWidth 64 &&& s.mask = 0 := by
    apply BitVec.eq_of_getLsbD_eq
    intro i _
    have bit := congrArg (fun v => v.getLsbD i) apart
    simp only [BitVec.getLsbD_and, BitVec.ofNat_eq_ofNat, BitVec.getLsbD_zero, Bool.and_eq_false_iff] at bit
    simp only [WordField.word, fieldSet, BitVec.getLsbD_and, BitVec.getLsbD_setWidth]
    rcases bit with outside | outside <;> simp [outside]
  rw [bitfieldGet, none]
  simp

theorem bitfieldGet_pack_apart {s : Span} {fields : List WordField}
    (apart : ∀ f ∈ fields, s.mask &&& f.span.mask = 0) : bitfieldGet s.mask ((pack fields).setWidth 64) = 0 := by
  induction fields with
  | nil => simp [pack, bitfieldGet]
  | cons f fields ih =>
    have rest : bitfieldGet s.mask ((pack fields).setWidth 64) = 0 := ih fun g mem => apart g (List.mem_cons_of_mem _ mem)
    have here := bitfieldGet_apart (apart f List.mem_cons_self)
    have split : pack (f :: fields) = f.word ||| pack fields := rfl
    rw [split, BitVec.setWidth_or, bitfieldGet_or, here, rest]
    simp

/-- Reading a field finds what was put there: no other field of the word interferes. -/
theorem bitfieldGet_pack {fields : List WordField} (apart : Spans.Apart (fields.map WordField.span)) :
    ∀ f ∈ fields, bitfieldGet f.span.mask ((pack fields).setWidth 64) = bitfieldGet f.span.mask (f.word.setWidth 64) := by
  have pairs := List.pairwise_map.mp apart.2
  clear apart
  induction fields with
  | nil => simp
  | cons g fields ih =>
    have split : pack (g :: fields) = g.word ||| pack fields := rfl
    rcases List.pairwise_cons.mp pairs with ⟨first, later⟩
    intro f mem
    rw [split, BitVec.setWidth_or, bitfieldGet_or]
    rcases List.mem_cons.mp mem with rfl | mem
    · rw [bitfieldGet_pack_apart first]
      simp
    · have away : f.span.mask &&& g.span.mask = 0 := by rw [BitVec.and_comm, first f mem]
      rw [bitfieldGet_apart away, ih later f mem]
      simp

/-- No bit outside the spans is set. -/
theorem pack_outside (fields : List WordField) {i : Nat}
    (outside : (Spans.mask (fields.map WordField.span)).getLsbD i = false) : (pack fields).getLsbD i = false := by
  induction fields with
  | nil => simp [pack]
  | cons f fields ih =>
    have split : pack (f :: fields) = f.word ||| pack fields := rfl
    have masks : Spans.mask ((f :: fields).map WordField.span) =
      f.span.mask.setWidth 32 ||| Spans.mask (fields.map WordField.span) := rfl
    by_cases small : i < 32
    · rw [masks, BitVec.getLsbD_or, Bool.or_eq_false_iff, BitVec.getLsbD_setWidth] at outside
      have here : f.span.mask.getLsbD i = false := by simpa [small] using outside.1
      rw [split, BitVec.getLsbD_or, f.word_outside here, ih outside.2]
      rfl
    · exact BitVec.getLsbD_of_ge _ _ (by omega)

theorem pack_and_not (fields : List WordField) : pack fields &&& ~~~ Spans.mask (fields.map WordField.span) = 0 := by
  apply BitVec.eq_of_getLsbD_eq
  intro i small
  cases outside : (Spans.mask (fields.map WordField.span)).getLsbD i with
  | true => simp [outside]
  | false => simp [pack_outside fields outside]

end OpenNic
