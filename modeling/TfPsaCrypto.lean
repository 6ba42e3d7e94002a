import TfPsaCrypto.Aead.Protocol
import TfPsaCrypto.Builtin.CcmOneShot
import TfPsaCrypto.Builtin.CtrDrbgRefines
import TfPsaCrypto.Builtin.DetEcdsa
import TfPsaCrypto.Builtin.KeyStreams
import TfPsaCrypto.Builtin.RsaPkcs1V15
import TfPsaCrypto.Builtin.ChachapolyAead
import TfPsaCrypto.Builtin.EcpReadKey
import TfPsaCrypto.Builtin.EntropySeed
import TfPsaCrypto.Core.EcdsaSignatureFormat
import TfPsaCrypto.Builtin.RsaBlinding
import TfPsaCrypto.Builtin.RsaInverse
import TfPsaCrypto.Extras.LmsVerify
import TfPsaCrypto.Extras.NistKwRoundTrip
import TfPsaCrypto.Extras.PkParseComplete
import TfPsaCrypto.KeyDerivation.Capacity
import TfPsaCrypto.KeyDerivation.DerivedEccKey
import TfPsaCrypto.KeyStore.Keys
import TfPsaCrypto.Utilities.PemRoundTrip
import TfPsaCrypto.Utilities.PkcsPadding
import TfPsaCrypto.Builtin.Cmac
import TfPsaCrypto.Core.GenerateKeyIop
import TfPsaCrypto.Platform.MemoryRuns
import TfPsaCrypto.Core.PsaRandom
import TfPsaCrypto.Storage.ItsFile
import TfPsaCrypto.Core.InterruptibleLifeCycle
import TfPsaCrypto.Builtin.PsaHmac
import TfPsaCrypto.Builtin.Sha3
import TfPsaCrypto.Utilities.Pbes2
import TfPsaCrypto.Utilities.Asn1SequenceOf
import TfPsaCrypto.Multipart.Failure
import TfPsaCrypto.Pake.JpakeSlices
import TfPsaCrypto.Builtin.RsaImportCanonical
import TfPsaCrypto.Builtin.Sha512Stream
import TfPsaCrypto.Builtin.Poly1305Checked
import TfPsaCrypto.Builtin.BignumMontmul
import TfPsaCrypto.Builtin.GcmTables
import TfPsaCrypto.Builtin.AesXts
import TfPsaCrypto.Builtin.BignumString
import TfPsaCrypto.Builtin.MillerRabin
import TfPsaCrypto.Builtin.EcpComb
import TfPsaCrypto.Builtin.EcpNormalize
import TfPsaCrypto.Utilities.ConstantTimeBuffers
