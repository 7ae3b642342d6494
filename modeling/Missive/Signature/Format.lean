import Missive.Error

/-!
# Stored forms of keys and signatures

Records hold public keys and signatures in named formats. A format belongs to one signature
scheme and turns stored bytes into the material that the scheme works on.
-/

namespace Missive

/-- A stored form of public keys or of signatures. -/
structure Format where
  name : String
  /-- The scheme to which the decoded material belongs. -/
  scheme : String
  encode : Bytes → Except Error Bytes
  decode : Bytes → Except Error Bytes

namespace Format

/-- A format that stores the material as it is. -/
def verbatim (name scheme : String) : Format :=
  ⟨name, scheme, .ok, .ok⟩

/-- Public keys as their 32 bytes. -/
def rawKey : Format := verbatim "ed25519-raw" "ED25519PH"

/-- Public keys as lower-case hexadecimal text; reading takes either case. -/
def hexKey : Format where
  name := "ed25519-hex"
  scheme := "ED25519PH"
  encode raw := .ok (Hex.encode raw)
  decode encoded :=
    (Hex.decode encoded).mapError fun fault => .signature (.hexadecimalKey fault)

/-- Signatures as their 64 bytes. -/
def rawSignature : Format := verbatim "ED25519PH" "ED25519PH"

end Format

end Missive
