import Missive.Cipher
import Missive.Config
import Missive.Signature.Format
import Missive.Signature.Scheme

/-!
# Engines

Records name the algorithms that they need. A `Registry` holds the engines of one family under
their names, and `Engines` is the set of registries that a reader or writer of packages resolves
names against. Names are case-sensitive and unique within their family.
-/

namespace Missive

/-- Things that are registered under a name of their own. -/
class Named (α : Type) where
  name : α → String

instance : Named Cipher := ⟨Cipher.name⟩
instance : Named Checksum := ⟨Checksum.name⟩
instance : Named Scheme := ⟨Scheme.name⟩
instance : Named Format := ⟨Format.name⟩

/-- The engines of one family. -/
structure Registry (α : Type) where
  /-- What the engines are called in errors. -/
  family : String
  engines : List α

namespace Registry

variable {α : Type} [Named α]

/-- The engine with the given name, if it is registered. -/
def find? (registry : Registry α) (name : String) : Option α :=
  registry.engines.find? fun engine => Named.name engine = name

/-- Whether an engine has the given name. -/
def contains (registry : Registry α) (name : String) : Bool :=
  (registry.find? name).isSome

/-- The engine with the given name. -/
def get (registry : Registry α) (name : String) : Except Error α :=
  match registry.find? name with
  | some engine => .ok engine
  | none => .error (.unknownAlgorithm registry.family name)

/-- Adds an engine, unless its name is taken. -/
def register (registry : Registry α) (engine : α) : Except Error (Registry α) :=
  if registry.contains (Named.name engine) then
    .error (.duplicateAlgorithm registry.family (Named.name engine))
  else .ok ⟨registry.family, registry.engines ++ [engine]⟩

/-- The registered names in ascending order. -/
def names (registry : Registry α) : List String :=
  (registry.engines.map Named.name).mergeSort

end Registry

/-- The engines that names in records are resolved against. -/
structure Engines where
  ciphers : Registry Cipher
  checksums : Registry Checksum
  schemes : Registry Scheme
  keyFormats : Registry Format
  signatureFormats : Registry Format

namespace Engines

/-- No engine at all. -/
def empty : Engines :=
  ⟨⟨"cipher", []⟩, ⟨"checksum", []⟩, ⟨"signature", []⟩, ⟨"public key format", []⟩,
    ⟨"signature format", []⟩⟩

/-- Every built-in engine. -/
def standard : Engines :=
  ⟨⟨"cipher", [.none, .counter, .chaining]⟩, ⟨"checksum", [.crc32, .adler32, .blake3]⟩,
    ⟨"signature", [.ed25519ph]⟩, ⟨"public key format", [.rawKey, .hexKey]⟩,
    ⟨"signature format", [.rawSignature]⟩⟩

/-- The cipher of a section; without a name the section is in the clear. -/
def cipherFor (engines : Engines) (name : Option String) : Except Error Cipher :=
  engines.ciphers.get (name.getD Cipher.none.name)

/-- Checks that the algorithms for authoring are registered. -/
def checkSettings (engines : Engines) (settings : CryptoSettings) : Except ConfigFault Unit := do
  if engines.ciphers.contains settings.cipher = false then
    throw (.unknownName "crypto.cipher" settings.cipher)
  if engines.checksums.contains settings.checksum = false then
    throw (.unknownName "crypto.checksum" settings.checksum)
  if engines.schemes.contains settings.signature = false then
    throw (.unknownName "crypto.signature" settings.signature)

end Engines

end Missive
