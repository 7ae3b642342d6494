import Missive.Proofs.Archive.Answers
import Missive.Proofs.Store.Directory

/-!
# Packages without loss

What an author puts into a package is what its readers get. A draft becomes a package exactly if
it is admissible; and an archive over a store that holds this package alone, in memory or in a
directory, answers with the key of the package, with the records as they were stored, and with
the content of every file.
-/

namespace Missive.Draft

variable {σ : Type} {draft : Draft}

theorem exists_of_build {generator : Generator σ} {state rest : σ} {package : Package}
    (valid : draft.Valid)
    (short : ∀ prepared, draft.prepare .standard = .ok prepared →
      prepared.bodyLength < Directory.positionLimit)
    (built : draft.build .standard generator state = .ok (package, rest)) :
    ∃ prepared : Prepared, draft.Admissible .standard ∧ prepared.Keeps draft ∧
      prepared.WrittenTo package ∧ prepared.bodyLength < Directory.positionLimit := by
  rcases bind_eq_ok_iff.mp built with ⟨prepared, made, written⟩
  have size : Directory.positionLimit < UInt64.size := by decide
  have keeps := keeps_of_prepare valid made
  rcases Prepared.exists_write keeps (exists_of_prepare made).1
    (Nat.lt_trans (short prepared made) size) generator state with ⟨other, _, again, holds⟩
  rw [written] at again
  cases again
  exact ⟨prepared, admissible_of_prepare made, keeps, holds, short prepared made⟩

/-- A draft becomes a package exactly if it is admissible. -/
theorem exists_build_iff (valid : draft.Valid)
    (short : ∀ prepared, draft.prepare .standard = .ok prepared →
      prepared.bodyLength < Directory.positionLimit)
    (generator : Generator σ) (state : σ) :
    (∃ outcome, draft.build .standard generator state = .ok outcome) ↔
      draft.Admissible .standard := by
  constructor
  · rintro ⟨⟨package, rest⟩, built⟩
    rcases exists_of_build valid short built with ⟨_, admissible, _⟩
    exact admissible
  · intro admissible
    rcases (exists_prepare_iff valid).mpr admissible with ⟨prepared, made⟩
    have size : Directory.positionLimit < UInt64.size := by decide
    have validated : draft.validate = .ok () :=
      validate_eq_ok_iff.mpr ⟨admissible.paths, admissible.distinct, admissible.delete⟩
    rcases Prepared.exists_write (keeps_of_prepare valid made)
      validated (Nat.lt_trans (short prepared made) size) generator state
        with ⟨package, rest, written, _⟩
    exact ⟨(package, rest), bind_eq_ok_iff.mpr ⟨prepared, made, written⟩⟩

/--
Authoring and reading lose nothing. The files must be few enough for their records to be counted,
and the body short enough for its bytes to be. The directory is one with a relative path: `Admits`
asks for it, and into any other no package can be written.
-/
theorem build_lossless (valid : draft.Valid)
    (few : draft.files.length + 2 < Packed.signLimit Packed.countWidth)
    (short : ∀ prepared, draft.prepare .standard = .ok prepared →
      prepared.bodyLength < Directory.positionLimit)
    (generator : Generator σ) (state : σ) :
    ((∃ outcome, draft.build .standard generator state = .ok outcome) ↔
      draft.Admissible .standard) ∧
    ∀ package rest, draft.build .standard generator state = .ok (package, rest) →
      (∃ archive,
        Archive.ofSource (MemoryStore.empty.insertPackage package).source .standard {} =
          .ok archive ∧ archive.Answers draft package) ∧
      ∀ (directory : Directory) (tree : FileTree),
        tree.find directory.root = .ok (.folder []) →
        (directory.Admits draft.record.number →
          ∃ after, directory.writePackage tree package = (after, .ok ())) ∧
        ∀ after, directory.writePackage tree package = (after, .ok ()) →
          ∃ archive, Archive.ofSource (directory.source after.files) .standard {} = .ok archive ∧
            archive.Answers draft package := by
  refine ⟨exists_build_iff valid short generator state, ?_⟩
  intro package rest built
  rcases exists_of_build valid short built with ⟨prepared, admissible, keeps, written, small⟩
  have answers : ∀ source : Source,
      source.Serves package.number package.body (Record.encode package.key) →
      ∃ archive, Archive.ofSource source .standard {} = .ok archive ∧
        archive.Answers draft package := by
    intro source served
    exact ⟨_, Archive.ofSource_of_served served,
      Archive.answers_of_served keeps written few small served admissible.distinct⟩
  refine ⟨answers _ (MemoryStore.serves_insertPackage package), ?_⟩
  intro directory tree empty
  refine ⟨?_, ?_⟩
  · intro admits
    rw [← keeps.number, ← written.record] at admits
    rcases Directory.exists_writePackage empty admits with ⟨after, _, stored, _⟩
    exact ⟨after, stored⟩
  · intro after stored
    refine answers _ (Directory.serves_writePackage empty stored ?_)
    rw [written.length]
    exact small

/-- A draft with two files in cipher block chaining, one of them empty. -/
def sample : Draft :=
  { start (MessageRecord.start 7 "post") with
    files := [⟨"notes/a", .start .createOrOverride, [1, 2, 3]⟩, ⟨"b", .start .createOrOverride, []⟩]
    cipher := "AES-256-CBC" }

/-- The sample is kept in memory and in a folder, with key data that counts up. -/
theorem build_lossless_sample :
    let tree : FileTree := .folder [("inbox", .folder [])]
    sample.Valid ∧ sample.files.length + 2 < Packed.signLimit Packed.countWidth ∧
      (∀ prepared, sample.prepare .standard = .ok prepared →
        prepared.bodyLength < Directory.positionLimit) ∧
      ∃ package rest,
        sample.build .standard ⟨fun byte => (byte, byte + 1)⟩ 0 = .ok (package, rest) ∧
        (∃ archive,
          Archive.ofSource (MemoryStore.empty.insertPackage package).source .standard {} =
            .ok archive ∧
          archive.content 7 "notes/a" = .ok (some [1, 2, 3]) ∧
          archive.content 7 "notes" = .ok none) ∧
        ∃ after archive, Directory.writePackage ⟨"inbox"⟩ tree package = (after, .ok ()) ∧
          Archive.ofSource (Directory.source ⟨"inbox"⟩ after.files) .standard {} = .ok archive ∧
          archive.content 7 "b" = .ok (some []) := by
  intro tree
  have valid : sample.Valid := ⟨by decide, by decide, nofun⟩
  have few : sample.files.length + 2 < Packed.signLimit Packed.countWidth := by decide
  have short : ∀ prepared, sample.prepare .standard = .ok prepared →
      prepared.bodyLength < Directory.positionLimit := by
    intro prepared made
    have known : sample.prepare .standard =
        .ok ⟨.chaining, some .crc32, none, ⟨sample.record, [], sample.files⟩⟩ := by rfl
    rw [known] at made
    cases made
    decide +kernel
  have lossless := build_lossless valid few short ⟨fun byte => (byte, byte + 1)⟩ (0 : UInt8)
  have admissible : sample.Admissible .standard :=
    ⟨by decide, by decide, by decide, by decide, by decide, nofun, nofun⟩
  rcases lossless.1.mpr admissible with ⟨⟨package, rest⟩, built⟩
  rcases lossless.2 package rest built with ⟨⟨archive, opened, answers⟩, stored⟩
  rcases stored ⟨"inbox"⟩ tree rfl with ⟨writable, read⟩
  have admits : Directory.Admits ⟨"inbox"⟩ 7 :=
    Directory.admits_of_short (by decide) (by decide) (by decide) 7
  rcases writable admits with ⟨after, written⟩
  rcases read after written with ⟨folder, reopened, again⟩
  refine ⟨valid, few, short, package, rest, built, ⟨archive, opened, ?_, ?_⟩,
    after, folder, written, reopened, ?_⟩
  · exact answers.content ⟨"notes/a", .start .createOrOverride, [1, 2, 3]⟩ (by decide)
  · exact answers.absent "notes" (by decide)
  · exact again.content ⟨"b", .start .createOrOverride, []⟩ (by decide)

end Missive.Draft
