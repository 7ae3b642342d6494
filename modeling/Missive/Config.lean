import Missive.Error

/-!
# Configuration

The settings of the program in three tables: logging, the algorithms for authoring, and the
behaviour of reading. Every setting has a default. `Config.validate` makes the checks that need
no registered algorithms.
-/

namespace Missive

/-- How the program reports on its own work. -/
structure LoggingSettings where
  level : String := "info"
  format : String := "text"
  deriving DecidableEq, Repr

/-- The algorithms with which packages are authored. -/
structure CryptoSettings where
  cipher : String := "AES-256-CTR"
  checksum : String := "CRC32"
  signature : String := "ED25519PH"
  deriving DecidableEq, Repr

/-- How packages are read. -/
structure ContentSettings where
  /-- Checksums are verified when a whole section is read. -/
  verifyChecksums : Bool := true
  /-- A key is accepted only with a valid author signature. -/
  verifyKeySignature : Bool := false
  /-- The most message numbers that one enumeration may ask for. -/
  maxPageSize : Option Nat := none
  deriving DecidableEq, Repr

/-- All settings. -/
structure Config where
  logging : LoggingSettings := {}
  crypto : CryptoSettings := {}
  content : ContentSettings := {}
  deriving DecidableEq, Repr

namespace Config

/-- The settings of an empty configuration. -/
def default : Config := {}

/-- The first fault in the settings, looking at logging, the page size and the names in turn. -/
def validate (config : Config) : Except ConfigFault Unit := do
  if config.logging.format ≠ "json" ∧ config.logging.format ≠ "text" then
    throw (.loggingFormat config.logging.format)
  if config.content.maxPageSize = some 0 then throw .zeroPageSize
  if config.crypto.cipher = "" then throw (.emptyName "crypto.cipher")
  if config.crypto.checksum = "" then throw (.emptyName "crypto.checksum")
  if config.crypto.signature = "" then throw (.emptyName "crypto.signature")

end Config

end Missive
