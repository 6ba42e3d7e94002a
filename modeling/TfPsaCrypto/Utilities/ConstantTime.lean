import Mathlib.Data.UInt
import Mathlib.Tactic.IntervalCases

/-!
# Constant-time selection

`mbedtls_ct_uchar_in_range_if` of `constant_time_impl.h`, with its masks.
-/

namespace TfPsaCrypto

/-- `t` if `c` is in range, else zero; masks in `unsigned`. -/
def mbedtlsCtUcharInRangeIf (low high c t : UInt8) : UInt8 :=
  -- 0 if low <= c, 0x00ffffff if low > c
  let lowMask : UInt32 := (c.toUInt32 - low.toUInt32) >>> 8
  -- 0 if c <= high, 0x00ffffff if c > high
  let highMask : UInt32 := (high.toUInt32 - c.toUInt32) >>> 8
  (~~~(lowMask ||| highMask)).toUInt8 &&& t

end TfPsaCrypto
