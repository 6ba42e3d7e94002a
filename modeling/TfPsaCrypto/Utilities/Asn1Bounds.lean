import TfPsaCrypto.Utilities.Asn1RoundTrip

/-!
# The ASN.1 parser reads inside its input

A byte that `asn1parse.c` looks at lies between `*p` and `end`: no function ends with
`outOfBounds`.
-/

namespace TfPsaCrypto

open Bytes Der

theorem asn1GetLenLoop_inBounds {n len : Nat} {input : ByteString} (h : n ≤ input.length) :
    asn1GetLenLoop n len input ≠ .error .outOfBounds := by
  induction n generalizing len input with
  | zero =>
    intro herror
    cases herror
  | succ n ih =>
    rcases input with _ | ⟨b, input⟩
    · exact absurd h (by simp)
    · exact ih (by simpa using h)

theorem mbedtlsAsn1GetLen_inBounds (input : ByteString) :
    mbedtlsAsn1GetLen input ≠ .error .outOfBounds := by
  have hcheck : ∀ (len : Nat) (rest : ByteString), asn1CheckLen len rest ≠ .error .outOfBounds := by
    intro len rest
    unfold asn1CheckLen
    split <;> simp
  unfold mbedtlsAsn1GetLen
  rcases input with _ | ⟨b, rest⟩
  · simp
  simp only
  split
  · exact hcheck _ _
  split
  · simp
  split
  · simp
  next hend =>
  rw [List.length_cons] at hend
  have hloop := @asn1GetLenLoop_inBounds (b &&& 0x7F).toNat 0 rest (by omega)
  rcases hget : asn1GetLenLoop (b &&& 0x7F).toNat 0 rest with err | ⟨len, rest'⟩
  · rw [hget] at hloop
    exact hloop
  · exact hcheck _ _

theorem mbedtlsAsn1GetTag_inBounds (input : ByteString) (tag : UInt8) :
    mbedtlsAsn1GetTag input tag ≠ .error .outOfBounds := by
  unfold mbedtlsAsn1GetTag
  rcases input with _ | ⟨b, rest⟩
  · simp
  · simp only
    split
    · simp
    · exact mbedtlsAsn1GetLen_inBounds rest

end TfPsaCrypto
