import Cascoin.Core.Checked

/-!
# Fee rates

`CFeeRate` of `policy/feerate.h`: a fee in satoshis per 1000 bytes.
-/

namespace Cascoin

/-- `CFeeRate`. -/
structure CFeeRate where
  nSatoshisPerK : Int

/-- `CFeeRate::GetFee(nBytes)`: the fee for the size, at least one unit of the
rate's sign when the size is not zero. -/
def CFeeRate.GetFee (rate : CFeeRate) (nBytes : Nat) : Checked String Int := do
  Checked.assert (decide (nBytes ≤ 2 ^ 63 - 1))
  let nSize : Int := nBytes
  let nFee := (rate.nSatoshisPerK * nSize).tdiv 1000
  if nFee = 0 ∧ nSize ≠ 0 then
    return if rate.nSatoshisPerK > 0 then 1 else if rate.nSatoshisPerK < 0 then -1 else nFee
  return nFee

end Cascoin
