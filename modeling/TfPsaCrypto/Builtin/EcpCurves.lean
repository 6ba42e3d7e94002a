import TfPsaCrypto.Builtin.Ecp

/-!
# The supported curves

The parameters of `ecp_curves.c`. The fast reductions are a parameter.
-/

namespace TfPsaCrypto.Ecp

/-! ## Domain parameters -/

def ecpGroupLoad (modp : Option (Int → Int)) (id : EcpGroupId) (p : Nat) (a : Option Nat)
    (b gx gy n : Nat) : EcpGroup :=
  { id := id, P := p, A := a, B := b, gX := some gx, gY := some gy, N := n
    pbits := p.size, nbits := n.size, modp := modp }

def secp256r1P : Nat := 0xffffffff00000001000000000000000000000000ffffffffffffffffffffffff

def secp256r1B : Nat := 0x5ac635d8aa3a93e7b3ebbd55769886bc651d06b0cc53b0f63bce3c3e27d2604b

def secp256r1Gx : Nat := 0x6b17d1f2e12c4247f8bce6e563a440f277037d812deb33a0f4a13945d898c296

def secp256r1Gy : Nat := 0x4fe342e2fe1a7f9b8ee7eb4a7c0f9e162bce33576b315ececbb6406837bf51f5

def secp256r1N : Nat := 0xffffffff00000000ffffffffffffffffbce6faada7179e84f3b9cac2fc632551

def secp384r1P : Nat :=
  0xfffffffffffffffffffffffffffffffffffffffffffffffffffffffffffffffeffffffff0000000000000000ffffffff

def secp384r1B : Nat :=
  0xb3312fa7e23ee7e4988e056be3f82d19181d9c6efe8141120314088f5013875ac656398d8a2ed19d2a85c8edd3ec2aef

def secp384r1Gx : Nat :=
  0xaa87ca22be8b05378eb1c71ef320ad746e1d3b628ba79b9859f741e082542a385502f25dbf55296c3a545e3872760ab7

def secp384r1Gy : Nat :=
  0x3617de4a96262c6f5d9e98bf9292dc29f8f41dbd289a147ce9da3113b5f0b8c00a60b1ce1d7e819d7a431d7c90ea0e5f

def secp384r1N : Nat :=
  0xffffffffffffffffffffffffffffffffffffffffffffffffc7634d81f4372ddf581a0db248b0a77aecec196accc52973

def secp521r1P : Nat :=
  0x1ffffffffffffffffffffffffffffffffffffffffffffffffff <<< 320 |||
    0xffffffffffffffffffffffffffffffffffffffffffffffffffffffffffffffffffffffffffffffff

def secp521r1B : Nat :=
  0x51953eb9618e1c9a1f929a21a0b68540eea2da725b99b315f3 <<< 320 |||
    0xb8b489918ef109e156193951ec7e937b1652c0bd3bb1bf073573df883d2c34f1ef451fd46b503f00

def secp521r1Gx : Nat :=
  0xc6858e06b70404e9cd9e3ecb662395b4429c648139053fb521 <<< 320 |||
    0xf828af606b4d3dbaa14b5e77efe75928fe1dc127a2ffa8de3348b3c1856a429bf97e7e31c2e5bd66

def secp521r1Gy : Nat :=
  0x11839296a789a3bc0045c8a5fb42c7d1bd998f54449579b4468 <<< 320 |||
    0x17afbd17273e662c97ee72995ef42640c550b9013fad0761353c7086a272c24088be94769fd16650

def secp521r1N : Nat :=
  0x1ffffffffffffffffffffffffffffffffffffffffffffffffff <<< 320 |||
    0xfffffffffffffffa51868783bf2f966b7fcc0148f709a5d03bb5c9b8899c47aebb6fb71e91386409

def secp256k1P : Nat := 0xfffffffffffffffffffffffffffffffffffffffffffffffffffffffefffffc2f

def secp256k1A : Nat := 0x0

def secp256k1B : Nat := 0x7

def secp256k1Gx : Nat := 0x79be667ef9dcbbac55a06295ce870b07029bfcdb2dce28d959f2815b16f81798

def secp256k1Gy : Nat := 0x483ada7726a3c4655da4fbfc0e1108a8fd17b448a68554199c47d08ffb10d4b8

def secp256k1N : Nat := 0xfffffffffffffffffffffffffffffffebaaedce6af48a03bbfd25e8cd0364141

def bp256r1P : Nat := 0xa9fb57dba1eea9bc3e660a909d838d726e3bf623d52620282013481d1f6e5377

def bp256r1A : Nat := 0x7d5a0975fc2c3057eef67530417affe7fb8055c126dc5c6ce94a4b44f330b5d9

def bp256r1B : Nat := 0x26dc5c6ce94a4b44f330b5d9bbd77cbf958416295cf7e1ce6bccdc18ff8c07b6

def bp256r1Gx : Nat := 0x8bd2aeb9cb7e57cb2c4b482ffc81b7afb9de27e1e3bd23c23a4453bd9ace3262

def bp256r1Gy : Nat := 0x547ef835c3dac4fd97f8461a14611dc9c27745132ded8e545c1d54c72f046997

def bp256r1N : Nat := 0xa9fb57dba1eea9bc3e660a909d838d718c397aa3b561a6f7901e0e82974856a7

def bp384r1P : Nat :=
  0x8cb91e82a3386d280f5d6f7e50e641df152f7109ed5456b412b1da197fb71123acd3a729901d1a71874700133107ec53

def bp384r1A : Nat :=
  0x7bc382c63d8c150c3c72080ace05afa0c2bea28e4fb22787139165efba91f90f8aa5814a503ad4eb04a8c7dd22ce2826

def bp384r1B : Nat :=
  0x4a8c7dd22ce28268b39b55416f0447c2fb77de107dcd2a62e880ea53eeb62d57cb4390295dbc9943ab78696fa504c11

def bp384r1Gx : Nat :=
  0x1d1c64f068cf45ffa2a63a81b7c13f6b8847a3e77ef14fe3db7fcafe0cbd10e8e826e03436d646aaef87b2e247d4af1e

def bp384r1Gy : Nat :=
  0x8abe1d7520f9c2a45cb1eb8e95cfd55262b70b29feec5864e19c054ff99129280e4646217791811142820341263c5315

def bp384r1N : Nat :=
  0x8cb91e82a3386d280f5d6f7e50e641df152f7109ed5456b31f166e6cac0425a7cf3ab6af6b7fc3103b883202e9046565

def bp512r1P : Nat :=
  0xaadd9db8dbe9c48b3fd4e6ae33c9fc07cb308db3b3c9d20e <<< 320 |||
    0xd6639cca703308717d4d9b009bc66842aecda12ae6a380e62881ff2f2d82c68528aa6056583a48f3

def bp512r1A : Nat :=
  0x7830a3318b603b89e2327145ac234cc594cbdd8d3df91610 <<< 320 |||
    0xa83441caea9863bc2ded5d5aa8253aa10a2ef1c98b9ac8b57f1117a72bf2c7b9e7c1ac4d77fc94ca

def bp512r1B : Nat :=
  0x3df91610a83441caea9863bc2ded5d5aa8253aa10a2ef1c9 <<< 320 |||
    0x8b9ac8b57f1117a72bf2c7b9e7c1ac4d77fc94cadc083e67984050b75ebae5dd2809bd638016f723

def bp512r1Gx : Nat :=
  0x81aee4bdd82ed9645a21322e9c4c6a9385ed9f70b5d916c1 <<< 320 |||
    0xb43b62eef4d0098eff3b1f78e2d0d48d50d1687b93b97d5f7c6d5047406a5e688b352209bcb9f822

def bp512r1Gy : Nat :=
  0x7dde385d566332ecc0eabfa9cf7822fdf209f70024a57b1a <<< 320 |||
    0xa000c55b881f8111b2dcde494a5f485e5bca4bd88a2763aed1ca2b2fa8f0540678cd1e0f3ad80892

def bp512r1N : Nat :=
  0xaadd9db8dbe9c48b3fd4e6ae33c9fc07cb308db3b3c9d20e <<< 320 |||
    0xd6639cca70330870553e5c414ca92619418661197fac10471db1d381085ddaddb58796829ca90069

/-- `nbits` is the most significant bit of private keys. -/
def ecpUseCurve25519 (modp : Option (Int → Int)) : EcpGroup :=
  { id := .curve25519, P := 2 ^ 255 - 19, A := some 0x01DB42, B := 0, gX := some 9, gY := none
    N := 2 ^ 252 + 0x14def9dea2f79cd65812631a5cf5d3ed
    pbits := 255, nbits := 254, modp := modp }

def ecpUseCurve448 (modp : Option (Int → Int)) : EcpGroup :=
  { id := .curve448, P := 2 ^ 448 - 2 ^ 224 - 1, A := some 0x98AA, B := 0, gX := some 5, gY := none
    N := 2 ^ 446 - 0x8335dc163bb124b65129c96fde933d8d723a70aadc873d6d54a7bb0d
    pbits := 448, nbits := 447, modp := modp }

def mbedtlsEcpGroupLoad (modp : EcpGroupId → Option (Int → Int)) (id : EcpGroupId) :
    Except EcpError EcpGroup :=
  match id with
  | .secp256r1 =>
    .ok (ecpGroupLoad (modp id) id secp256r1P none secp256r1B secp256r1Gx secp256r1Gy secp256r1N)
  | .secp384r1 =>
    .ok (ecpGroupLoad (modp id) id secp384r1P none secp384r1B secp384r1Gx secp384r1Gy secp384r1N)
  | .secp521r1 =>
    .ok (ecpGroupLoad (modp id) id secp521r1P none secp521r1B secp521r1Gx secp521r1Gy secp521r1N)
  | .secp256k1 =>
    .ok (ecpGroupLoad (modp id) id secp256k1P (some secp256k1A) secp256k1B secp256k1Gx secp256k1Gy
      secp256k1N)
  | .bp256r1 =>
    .ok (ecpGroupLoad (modp id) id bp256r1P (some bp256r1A) bp256r1B bp256r1Gx bp256r1Gy bp256r1N)
  | .bp384r1 =>
    .ok (ecpGroupLoad (modp id) id bp384r1P (some bp384r1A) bp384r1B bp384r1Gx bp384r1Gy bp384r1N)
  | .bp512r1 =>
    .ok (ecpGroupLoad (modp id) id bp512r1P (some bp512r1A) bp512r1B bp512r1Gx bp512r1Gy bp512r1N)
  | .curve25519 => .ok (ecpUseCurve25519 (modp id))
  | .curve448 => .ok (ecpUseCurve448 (modp id))
  | .none => .error .featureUnavailable

end TfPsaCrypto.Ecp
