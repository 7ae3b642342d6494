import Missive.Config
import Missive.Store.FileTree
import Missive.Toml.Printer
import Missive.Toml.Reader

/-!
# Configuration documents

The settings as a TOML document with a table for each group. In reading, every table and every
key may be missing and unknown ones are passed over. A table may also be given as an array of its
values in the order of its keys, where those at the end may be missing. Where there is no file for
the document, the usual settings hold (`Config.load`).
-/

namespace Missive.Config

/-- The values under the given keys of a table in any of its forms. -/
def valuesOf? (keys : List String) : Toml → Option (List (Option Toml))
  | .table entries => some (keys.map fun key => entries.lookup key)
  | .array items => some (keys.mapIdx fun index _ => items[index]?)
  | .dateTime => some (keys.map fun _ => none)
  | _ => none

/-- The value for a setting, or `usual` where there is none. -/
def setting {α : Type} (read : Toml → Option α) (usual : α) : Option Toml → Option α
  | none => some usual
  | some value => read value

/-- A text. -/
def text? : Toml → Option String
  | .string text => some text
  | _ => none

/-- A truth value. -/
def bool? : Toml → Option Bool
  | .bool value => some value
  | _ => none

/-- A number that is not negative. -/
def size? : Toml → Option (Option Nat)
  | .integer value => if 0 ≤ value then some (some value.toNat) else none
  | _ => none

/-- The settings of the logging table. -/
def logging? (value : Toml) : Option LoggingSettings := do
  match ← valuesOf? ["level", "format"] value with
  | [level, format] =>
    return ⟨← setting text? default.logging.level level,
      ← setting text? default.logging.format format⟩
  | _ => none

/-- The settings of the table of algorithms. -/
def crypto? (value : Toml) : Option CryptoSettings := do
  match ← valuesOf? ["cipher", "checksum", "signature"] value with
  | [cipher, checksum, signature] =>
    return ⟨← setting text? default.crypto.cipher cipher,
      ← setting text? default.crypto.checksum checksum,
      ← setting text? default.crypto.signature signature⟩
  | _ => none

/-- The settings of the table on reading. -/
def content? (value : Toml) : Option ContentSettings := do
  match ← valuesOf? ["verify_checksums", "verify_key_signature", "max_page_size"] value with
  | [checksums, keySignature, pageSize] =>
    return ⟨← setting bool? default.content.verifyChecksums checksums,
      ← setting bool? default.content.verifyKeySignature keySignature,
      ← setting size? default.content.maxPageSize pageSize⟩
  | _ => none

/-- The settings that a document gives, checked or not. -/
def ofEntries? (entries : List (String × Toml)) : Option Config := do
  return ⟨← setting logging? default.logging (entries.lookup "logging"),
    ← setting crypto? default.crypto (entries.lookup "crypto"),
    ← setting content? default.content (entries.lookup "content")⟩

/-- Reads a configuration document. -/
def ofToml (text : String) : Except ConfigFault Config := do
  match Toml.ofString? text >>= ofEntries? with
  | none => throw .malformed
  | some config =>
    config.validate
    return config

open Toml in
/-- Writes all settings as a configuration document. -/
def render (config : Config) : String :=
  renderHeader "logging" ++
    renderPair "level" (renderText config.logging.level) ++
    renderPair "format" (renderText config.logging.format) ++ "\n" ++
  renderHeader "crypto" ++
    renderPair "cipher" (renderText config.crypto.cipher) ++
    renderPair "checksum" (renderText config.crypto.checksum) ++
    renderPair "signature" (renderText config.crypto.signature) ++ "\n" ++
  renderHeader "content" ++
    renderPair "verify_checksums" (renderBool config.content.verifyChecksums) ++
    renderPair "verify_key_signature" (renderBool config.content.verifyKeySignature) ++
    match config.content.maxPageSize with
    | none => ""
    | some limit => renderPair "max_page_size" (Text.ofNatural limit)

/-- The settings in the file at a path, if there is one. -/
def load (files : Files) (path : String) : Except Error Config := do
  if files.contains path = false then return default
  let bytes ← (files.read path).mapError Error.io
  match Bytes.toString? bytes with
  | none => throw (.io .notText)
  | some text => (ofToml text).mapError fun fault => .config (.inFile path fault)

end Missive.Config
