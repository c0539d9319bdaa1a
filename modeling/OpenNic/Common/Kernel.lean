import OpenNic.Common.BitField

namespace OpenNic

/-- What one access of the hardware may find: the value a register read returns, and
    whether a command written to a register takes effect or a wait comes to its end. -/
structure Input where
  word : Word
  flag : Bool

instance : Nonempty Input := ⟨⟨0, false⟩⟩

def ENOENT : Int := 2

def EIO : Int := 5

def ENOMEM : Int := 12

def EBUSY : Int := 16

def ENODEV : Int := 19

def EINVAL : Int := 22

def ERANGE : Int := 34

def EPROTO : Int := 71

def EOPNOTSUPP : Int := 95

def ETIMEDOUT : Int := 110

/-- `status & BIT(n)` -/
def Word.has (status : Word) (n : Nat) : Bool := status &&& BitVec.twoPow 32 n ≠ 0

theorem Word.has_eq (status : Word) {n : Nat} (small : n < 32) : status.has n = status.getLsbD n := by
  have single : BitVec.twoPow 32 n ≠ 0#32 := by
    intro zero
    have set := congrArg (fun x => x.getLsbD n) zero
    simp [small] at set
  simp only [Word.has, BitVec.and_twoPow]
  cases status.getLsbD n <;> simp [single]

end OpenNic
