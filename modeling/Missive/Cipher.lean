import Missive.Checksum
import Missive.Cipher.Aes256
import Missive.Cipher.Chaining
import Missive.Cipher.Counter

/-!
# Section ciphers

A section is stored in the clear, in counter mode or in cipher block chaining, both with AES-256.
Key data is opaque to everything else: for the two AES ciphers it is the key and a start block.

Every operation comes from two views of a stream: `encryptedView` of the plaintext and `openAt`,
the plaintext from any offset on of a ciphertext that is given from `seekOrigin` of it on. Offsets
and lengths are plaintext positions relative to the start of the section.
-/

namespace Missive

/-- The section ciphers. -/
inductive Cipher where
  | none
  | counter
  | chaining
  deriving DecidableEq, Repr

/-- The key data of an AES cipher. -/
structure KeyData where
  key : Vector UInt8 32
  start : Block

namespace KeyData

/-- The length of key data. -/
def length : Nat := 48

/-- Key data in its stored form: the key, then the start block. -/
def ofBytes? (bytes : Bytes) : Option KeyData :=
  if whole : bytes.length = length then
    some ⟨⟨(bytes.take 32).toArray, by simp [whole, length]⟩,
      Block.ofBytes (bytes.drop 32) (by simp [whole, length, Block.size])⟩
  else none

/-- AES-256 under the key. -/
def cipher (data : KeyData) : BlockCipher :=
  Aes256.cipher data.key

end KeyData

namespace Cipher

/-- The name under which records refer to the cipher. -/
def name : Cipher → String
  | none => "none"
  | counter => "AES-256-CTR"
  | chaining => "AES-256-CBC"

/-- The length of the key data of a cipher. -/
def keyLength : Cipher → Nat
  | none => 0
  | counter | chaining => KeyData.length

/-- The key data in `key`, or the error made of the length that was found. -/
def keyData (key : Bytes) (fault : Nat → Error) : Except Error KeyData :=
  match KeyData.ofBytes? key with
  | some data => .ok data
  | Option.none => .error (fault key.length)

/-- The error of key data that cannot encrypt. -/
def encryptKeyFault (cipher : Cipher) (found : Nat) : Error :=
  .invalidRecord (.keyLength cipher.name cipher.keyLength found)

/-- The error of key data that cannot decrypt. -/
def decryptKeyFault (cipher : Cipher) (found : Nat) : Error :=
  .decrypt (.keyLength cipher.name cipher.keyLength found)

/-- The ciphertext of a plaintext stream, as a stream. -/
def encryptedView (cipher : Cipher) (key : Bytes) (plaintext : ByteStream) :
    Except Error ByteStream :=
  match cipher with
  | none => .ok plaintext
  | counter => do
    let data ← keyData key (encryptKeyFault counter)
    return Counter.view data.cipher data.start 0 plaintext
  | chaining => do
    let data ← keyData key (encryptKeyFault chaining)
    return Chaining.encryptView data.cipher data.start plaintext

/--
The plaintext of a whole ciphertext stream, as a stream. With `allowPartial` a truncated
ciphertext yields its complete blocks instead of an error.
-/
def decryptedView (cipher : Cipher) (key : Bytes) (allowPartial : Bool)
    (ciphertext : ByteStream) : Except Error ByteStream :=
  match cipher with
  | none => .ok ciphertext
  | counter => do
    let data ← keyData key (decryptKeyFault counter)
    return Counter.view data.cipher data.start 0 ciphertext
  | chaining => do
    let data ← keyData key (decryptKeyFault chaining)
    let onEmpty := if allowPartial then Option.none else some (.decrypt .emptyCiphertext)
    return Chaining.decryptView data.cipher data.start ⟨allowPartial, onEmpty⟩ ciphertext

/-- Where in the ciphertext a read of the plaintext from `offset` on begins. -/
def seekOrigin (cipher : Cipher) (offset : UInt64) : Nat :=
  match cipher with
  | none | counter => offset.toNat
  | chaining => Chaining.seekOrigin offset.toNat

/--
The plaintext from `offset` on, as a stream, of a ciphertext stream that begins at
`seekOrigin offset`.
-/
def openAt (cipher : Cipher) (key : Bytes) (offset : UInt64) (ciphertext : ByteStream) :
    Except Error ByteStream :=
  match cipher with
  | none => .ok ciphertext
  | counter => do
    let data ← keyData key (decryptKeyFault counter)
    return Counter.view data.cipher data.start offset.toNat ciphertext
  | chaining => do
    let data ← keyData key (decryptKeyFault chaining)
    Chaining.openAt data.cipher data.start offset ciphertext

/-- A reader of the plaintext of a whole ciphertext. -/
def reader (cipher : Cipher) (key : Bytes) (ciphertext : ByteStream) :
    Except Error ByteStream :=
  cipher.openAt key 0 ciphertext

/--
Encrypts the concatenation of the inputs. Every observer sees each piece of the ciphertext as it
is written, also when an input fails later on.
-/
def encryptStreams (cipher : Cipher) (key : Bytes) (inputs : List ByteStream)
    (observers : List Checksum.State) : Transfer × List Checksum.State :=
  match cipher.encryptedView key (.concat inputs) with
  | .ok ciphertext => (ciphertext.copy, observers.map (·.observe ciphertext))
  | .error error => (⟨[], 0, some error⟩, observers)

/-- The ciphertext of a whole plaintext. -/
def encrypt (cipher : Cipher) (key plaintext : Bytes) : Except Error Bytes := do
  let ciphertext ← cipher.encryptedView key (.ofBytes plaintext)
  ciphertext.readToEnd.mapError StreamError.toError

/-- Decrypts a whole ciphertext stream to an output. -/
def decryptStream (cipher : Cipher) (key : Bytes) (allowPartial : Bool)
    (ciphertext : ByteStream) : Transfer :=
  match cipher.decryptedView key allowPartial ciphertext with
  | .ok plaintext => plaintext.copy
  | .error error => ⟨[], 0, some error⟩

/-- The plaintext of a whole ciphertext. -/
def decrypt (cipher : Cipher) (key ciphertext : Bytes) : Except Error Bytes := do
  let plaintext ← cipher.decryptedView key false (.ofBytes ciphertext)
  plaintext.readToEnd.mapError StreamError.toError

/-- A range error for the length that was asked for. -/
def withLength (length : UInt64) : Error → Error
  | .range offset _ limit => .range offset length limit
  | error => error

/-- Opens a ciphertext for a read of `length` bytes. -/
def openRange (cipher : Cipher) (key : Bytes) (offset length : UInt64)
    (ciphertext : ByteStream) : Except Error ByteStream := do
  let plaintext ← (cipher.openAt key offset ciphertext).mapError (withLength length)
  return plaintext.limited length.toNat

/-- The part of the plaintext at `offset`, `length` bytes long; all of it must be there. -/
def randomAccess (cipher : Cipher) (key ciphertext : Bytes) (offset length : UInt64) :
    Except Error Bytes :=
  match cipher with
  | none =>
    if offset.toNat + length.toNat ≤ ciphertext.length then
      .ok (ciphertext.slice offset.toNat length.toNat)
    else .error (.range offset length ciphertext.length)
  | _ => do
    let origin := cipher.seekOrigin offset
    if ciphertext.length < origin then
      throw (.range offset length ciphertext.length)
    let part ← cipher.openRange key offset length (.ofBytes (ciphertext.drop origin))
    let bytes ← part.readToEnd.mapError StreamError.toError
    if bytes.length < length.toNat then
      throw (.range offset length (offset.toNat + bytes.length))
    return bytes

/--
Copies at most `length` bytes of the plaintext from `offset` on to an output. The ciphertext
stream begins at `seekOrigin offset`.
-/
def randomAccessStream (cipher : Cipher) (key : Bytes) (offset length : UInt64)
    (ciphertext : ByteStream) : Transfer :=
  match cipher.openRange key offset length ciphertext with
  | .ok part => part.copy
  | .error error => ⟨[], 0, some error⟩

end Cipher

end Missive
