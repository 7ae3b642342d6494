import Missive.Archive.Catalogue
import Missive.Main
import Missive.Package.Draft
import Missive.Record.Subscriber
import Missive.Store.Memory
import Missive.Proofs.Stream
import Missive.Proofs.Cipher.Aes256
import Missive.Proofs.Cipher.Blocks
import Missive.Proofs.Cipher.Counter
import Missive.Proofs.Cipher.Chaining
import Missive.Proofs.Cipher.Whole
import Missive.Proofs.Cipher.Ranges
import Missive.Proofs.Cipher.RoundTrip
import Missive.Proofs.Cipher.Blockwise
import Missive.Proofs.Archive.Chunks
import Missive.Proofs.Bytes.Base64
import Missive.Proofs.Json.RoundTrip
import Missive.Proofs.Record.Fields
import Missive.Proofs.Record.RoundTrip
import Missive.Proofs.Record.Key
import Missive.Proofs.Checksum.Blake3
import Missive.Proofs.Checksum.Pieces
import Missive.Proofs.Packed
import Missive.Proofs.Package.Prepare
import Missive.Proofs.Package.Sections
import Missive.Proofs.Archive.OnePass
import Missive.Proofs.Archive.Acceptance
import Missive.Proofs.Archive.Answers
import Missive.Proofs.Archive.Attestation
import Missive.Proofs.Archive.Corruption
import Missive.Proofs.Store.FileTree
import Missive.Proofs.Store.Directory
import Missive.Proofs.Package.Lossless
import Missive.Proofs.Packed.Canonical
import Missive.Proofs.Record.Obtainable
import Missive.Proofs.Package.Signing
import Missive.Proofs.Package.Layout
import Missive.Proofs.Checksum.Detection
import Missive.Proofs.Package.KeyData
import Missive.Proofs.Archive.Candidates
import Missive.Proofs.Archive.Tampering
import Missive.Proofs.Archive.Authenticity
import Missive.Proofs.Archive.Paging
import Missive.Proofs.Archive.Consistency
import Missive.Proofs.Archive.Verdicts
import Missive.Proofs.Store.Listing
import Missive.Proofs.Store.Names
import Missive.Proofs.Text.Order
import Missive.Proofs.Store.Changes
import Missive.Proofs.Store.Contents
import Missive.Proofs.Archive.Exchange
import Missive.Proofs.Store.Faithful
import Missive.Proofs.Cipher.Concatenation
import Missive.Proofs.Archive.Enumeration
import Missive.Proofs.Cipher.Locality
import Missive.Proofs.Cipher.Truncation
import Missive.Proofs.Checksum.Standard
import Missive.Proofs.Checksum.Incremental
import Missive.Proofs.Command.FileRanges
import Missive.Proofs.Position
import Missive.Proofs.Cipher.Positions
import Missive.Proofs.Cipher.Buffer
import Missive.Proofs.Packed.Positions
import Missive.Proofs.Archive.Positions
