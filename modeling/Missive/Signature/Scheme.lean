import Missive.Random
import Missive.Signature.Edwards
import Missive.Signature.Sha512
import Missive.Stream

/-!
# Signature schemes

Authors sign the key, the metadata and every file of a message with detached signatures. A
scheme works on what reading the signed data gave, which may be an error: data is read only when
the keys are usable, so the error of an unusable key comes first. A signature that does not fit
the data is an answer, not an error.

`ed25519ph` is Ed25519 on a SHA-512 digest of the data (RFC 8032) with a context that separates
these signatures from all others.
-/

namespace Missive

/-- What reading some data to its end gave. -/
abbrev Reading := Except Error Bytes

/-- What a reader of the whole stream gets. -/
def ByteStream.reading (stream : ByteStream) : Reading :=
  stream.readToEnd.mapError StreamError.toError

/-- A scheme of detached signatures. -/
structure Scheme where
  /-- The name under which identities and formats refer to the scheme. -/
  name : String
  /-- The format in which public keys are stored unless another one is chosen. -/
  publicKeyFormat : String
  /-- The number of random bytes that make a private key. -/
  seedLength : Nat
  publicKey : (privateKey : Bytes) → Except Error Bytes
  sign : (privateKey : Bytes) → (data : Reading) → Except Error Bytes
  verify : (publicKey : Bytes) → (data : Reading) → (signature : Bytes) → Except Error Bool

/-- A key pair, bound to the scheme that it belongs to. -/
structure Identity where
  scheme : String
  privateKey : Bytes
  publicKey : Bytes
  deriving DecidableEq

namespace Identity

/-- The identity with the given private key. -/
def ofPrivateKey (scheme : Scheme) (privateKey : Bytes) : Except Error Identity := do
  return ⟨scheme.name, privateKey, ← scheme.publicKey privateKey⟩

/-- A new identity from random bytes. -/
def generate {σ : Type} (scheme : Scheme) (generator : Generator σ) (state : σ) :
    Except Error Identity :=
  ofPrivateKey scheme (generator.draw scheme.seedLength state).1

/-- What may be shown of an identity; the private key is withheld. -/
def summary (identity : Identity) : String :=
  "SigningIdentity \x7b scheme: " ++ Text.quoted identity.scheme ++ ", public_key: " ++
    Text.quoted (Hex.text identity.publicKey) ++ ", .. \x7d"

end Identity

namespace Ed25519

open Edwards

/-- The context of every signature. -/
def context : Bytes := Bytes.ofString "fidd"

/-- What goes before the data of a hash, so that no other use of the curve gives the same one. -/
def domain : Bytes :=
  Bytes.ofString "SigEd25519 no Ed25519 collisions" ++ [1, UInt8.ofNat context.length] ++ context

/-- The SHA-512 digest of some data as a scalar. -/
def hashScalar (bytes : Bytes) : Nat :=
  Bytes.ofLittleEndian (Sha512.digest bytes) % order

/-- The secret scalar in the first half of an expanded private key. -/
def clamp (bytes : Bytes) : Nat :=
  let top := 1 <<< 254
  let code := Bytes.ofLittleEndian bytes % top
  top + code / 8 * 8

/-- The secret scalar of a private key. -/
def secretScalar (privateKey : Bytes) : Nat :=
  clamp ((Sha512.digest privateKey).take 32)

/-- The stored form of the public key of a private key. -/
def publicPoint (privateKey : Bytes) : Bytes :=
  (Point.base.multiple (secretScalar privateKey)).toBytes

/-- The signature of the data with the given SHA-512 digest. -/
def signDigest (privateKey digest : Bytes) : Bytes :=
  let nonce := hashScalar (domain ++ (Sha512.digest privateKey).drop 32 ++ digest)
  let commitment := (Point.base.multiple nonce).toBytes
  let challenge := hashScalar (domain ++ commitment ++ publicPoint privateKey ++ digest)
  let response := (nonce + challenge * secretScalar privateKey) % order
  commitment ++ Bytes.littleEndian 32 response

/--
Whether a signature fits a digest under the key that is stored as `publicKey` and stands for
`point`. The response must be reduced, and the commitment must be the recomputed one byte for
byte.
-/
def verifyDigest (publicKey : Bytes) (point : Point) (digest signature : Bytes) : Bool :=
  let commitment := signature.take 32
  let response := Bytes.ofLittleEndian (signature.drop 32)
  let challenge := hashScalar (domain ++ commitment ++ publicKey ++ digest)
  let recomputed :=
    (Point.base.multiple response).add (point.negative.multiple challenge)
  response < order && recomputed.toBytes == commitment

/-- Refuses a private key of the wrong length. -/
def checkPrivateKey (privateKey : Bytes) : Except Error Unit :=
  if privateKey.length = 32 then .ok ()
  else .error (.signature (.privateKeyLength privateKey.length))

/-- The point of a stored public key. -/
def decodePublicKey (publicKey : Bytes) : Except Error Point :=
  if publicKey.length = 32 then
    match Point.ofBytes? publicKey with
    | some point => .ok point
    | none => .error (.signature .notOnCurve)
  else .error (.signature (.publicKeyLength publicKey.length))

end Ed25519

open Ed25519 in
/-- Ed25519ph over SHA-512. -/
def Scheme.ed25519ph : Scheme where
  name := "ED25519PH"
  publicKeyFormat := "ed25519-raw"
  seedLength := 32
  publicKey privateKey := do
    checkPrivateKey privateKey
    return publicPoint privateKey
  sign privateKey data := do
    checkPrivateKey privateKey
    return signDigest privateKey (Sha512.digest (← data))
  verify publicKey data signature := do
    let point ← decodePublicKey publicKey
    if signature.length = 64 then
      return verifyDigest publicKey point (Sha512.digest (← data)) signature
    else return false

end Missive
