import Missive.Proofs.Archive.Acceptance

/-!
# Answers about a package

An archive that is opened over a source with one written package accepts its key, since every
section is read as what it holds, and the metadata section holds the records. All answers of the
archive follow: `Archive.resolve_of_served` for the message, `Archive.content_of_served` for
its files.
-/

namespace Missive

/-! ### Files under their paths -/

theorem PackageKey.map_find? (key : PackageKey) (path : String) :
    (key.find? path).map Prod.snd = key.files.find? fun file => file.path = path := by
  rw [List.find?_eq_bind_findIdx?_getElem?, find?]
  cases key.files.findIdx? fun file => file.path = path with
  | none => rfl
  | some index =>
      simp only [Option.bind_eq_bind, Option.bind_some]
      cases key.files[index]? <;> rfl

namespace DraftFile

variable {files : List DraftFile} {written : List FileSection} {body : Bytes}

theorem find?_of_storedIn
    (stored : List.Forall₂ (·.StoredIn · body) files written)
    (distinct : (files.map DraftFile.path).Nodup) {file : DraftFile} (member : file ∈ files) :
    ∃ found, written.find? (fun other => other.path = file.path) = some found ∧
      file.StoredIn found body := by
  rcases exists_of_forall₂ stored member with ⟨found, listed, holds⟩
  rw [← paths_of_storedIn stored] at distinct
  rw [← holds.path]
  exact ⟨found, find?_of_nodup distinct listed, holds⟩

theorem find?_of_not_mem
    (stored : List.Forall₂ (·.StoredIn · body) files written) {path : String}
    (absent : path ∉ files.map DraftFile.path) :
    written.find? (fun other => other.path = path) = none := by
  rw [← paths_of_storedIn stored] at absent
  refine List.find?_eq_none.mpr ?_
  intro other member same
  exact absent (of_decide_eq_true same ▸ List.mem_map_of_mem member)

end DraftFile

/-! ### The answers of an archive -/

namespace Resolved

variable {resolved : Resolved}

theorem map_place_listing (aligned : resolved.key.files.length = resolved.files.length) :
    resolved.listing.map (fun info => (info.path, info.size)) =
      resolved.key.files.map fun file => (file.path, file.content.length) := by
  have stored := List.map_fst_zip (Nat.le_of_eq aligned)
  rw [List.zip_eq_zipWith, List.map_zipWith] at stored
  rw [listing, List.map_zipWith]
  conv_rhs => rw [← stored, List.map_zipWith]

theorem map_path_listing (aligned : resolved.key.files.length = resolved.files.length) :
    resolved.listing.map FileInfo.path = resolved.key.files.map FileSection.path := by
  have places := congrArg (List.map Prod.fst) (map_place_listing aligned)
  rw [List.map_map, List.map_map] at places
  exact places

theorem map_record_listing (aligned : resolved.key.files.length = resolved.files.length) :
    resolved.listing.map FileInfo.record = resolved.files := by
  have records := List.map_snd_zip (Nat.le_of_eq aligned.symm)
  rw [List.zip_eq_zipWith, List.map_zipWith] at records
  rw [listing, List.map_zipWith, records]

end Resolved

namespace Archive

variable {source : Source} {number : UInt64} {body key : Bytes}

/-- A source that serves one message, opened with the standard engines and settings. -/
def opened (source : Source) (number : UInt64) : Archive :=
  ⟨source, .ofNumbers [number], .standard, {}⟩

theorem ofSource_of_served (served : source.Serves number body key) :
    ofSource source .standard {} = .ok (opened source number) := by
  rw [ofSource, served.numbers]
  rfl

theorem resolve_of_ne {other : UInt64} (different : other ≠ number) :
    (opened source number).resolve other = .ok none := by
  have unlisted : (opened source number).history.contains other = false := by
    simp [opened, History.ofNumbers, History.insert, History.empty, History.place,
      History.contains, different]
  rw [resolve, if_pos unlisted]
  rfl

theorem withFile_of_find? {α : Type} {archive : Archive} {resolved : Resolved} {path : String}
    {file : FileSection} (found : archive.resolve number = .ok (some resolved))
    (listed : (resolved.key.files.find? fun other => other.path = path) = some file)
    (read : FileSection → Except Error α) :
    archive.withFile number path read = (read file).map some := by
  rw [← PackageKey.map_find?, Option.map_eq_some_iff] at listed
  rcases listed with ⟨⟨index, _⟩, known, rfl⟩
  exact withFile_eq found known read

theorem withFile_of_find?_eq_none {α : Type} {archive : Archive} {resolved : Resolved}
    {path : String} (found : archive.resolve number = .ok (some resolved))
    (missing : (resolved.key.files.find? fun other => other.path = path) = none)
    (read : FileSection → Except Error α) : archive.withFile number path read = .ok none := by
  rw [← PackageKey.map_find?, Option.map_eq_none_iff] at missing
  simp only [withFile, found, missing, bind, Except.bind, Option.bind, pure, Except.pure]

theorem verify_of_resolve {archive : Archive} {resolved : Resolved}
    (found : archive.resolve number = .ok (some resolved)) :
    archive.verify number = (archive.report number resolved).map some := by
  simp only [verify, found, bind, Except.bind, pure, Except.pure]
  cases archive.report number resolved <;> rfl

theorem verify_of_checks {archive : Archive} {resolved : Resolved} {key record : SignatureStatus}
    (found : archive.resolve number = .ok (some resolved))
    (first : archive.keyStatus resolved = .ok key)
    (second : archive.engines.check resolved.record resolved.record.signatureFormat
      (some resolved.signature) (.ok resolved.recordBytes) = .ok record) :
    archive.verify number =
      ((resolved.key.files.zip resolved.files).mapM fun pair =>
        archive.fileStatus resolved number pair.1 pair.2).map
          fun files => some ⟨number, key, record, files⟩ := by
  rw [verify_of_resolve found]
  simp only [report, first, second, bind, Except.bind, pure, Except.pure]
  cases (resolved.key.files.zip resolved.files).mapM fun pair =>
    archive.fileStatus resolved number pair.1 pair.2 <;> rfl

theorem answers_of_ne {other : UInt64} (different : other ≠ number) :
    (opened source number).key other = .ok none ∧ (opened source number).record other = .ok none ∧
      (opened source number).files other = .ok none ∧
      ∀ path, (opened source number).content other path = .ok none := by
  have missing := @resolve_of_ne source number other different
  refine ⟨?_, ?_, ?_, ?_⟩
  · rw [Archive.key, missing]
    rfl
  · rw [record, missing]
    rfl
  · rw [files, missing]
    rfl
  · intro path
    rw [content, withFile, missing]
    rfl

/-- What an archive over the package of a draft answers, and nothing about other messages. -/
structure Answers (archive : Archive) (draft : Draft) (package : Package) : Prop where
  key : archive.key draft.record.number = .ok (some package.key)
  record : archive.record draft.record.number = .ok (some package.record)
  files : ∃ listing, archive.files draft.record.number = .ok (some listing) ∧
    listing.map FileInfo.path = draft.files.map DraftFile.path ∧
    draft.StoredAs package.record (listing.map FileInfo.record)
  content : ∀ file ∈ draft.files,
    archive.content draft.record.number file.path = .ok (some file.content)
  absent : ∀ path ∉ draft.files.map DraftFile.path,
    archive.content draft.record.number path = .ok none
  others : ∀ number ≠ draft.record.number, archive.key number = .ok none ∧
    archive.record number = .ok none ∧ archive.files number = .ok none ∧
    ∀ path, archive.content number path = .ok none

/-! ### A package that is served -/

section Served

variable {prepared : Prepared} {draft : Draft} {package : Package}
  (keeps : prepared.Keeps draft) (written : prepared.WrittenTo package)
  (few : draft.files.length + 2 < Packed.signLimit Packed.countWidth)
  (short : prepared.bodyLength < Directory.positionLimit)
  (served : source.Serves package.number package.body (Record.encode package.key))

include keeps written few short served

/-- A message that is served as it was written is accepted. -/
theorem resolve_of_served :
    (opened source package.number).resolve package.number =
      .ok (some (resolvedOf prepared package)) := by
  have offers : (opened source package.number).source.Offers package.number package.body
    (Record.encode package.key) := served.offers
  have listed : (opened source package.number).history.contains package.number = true :=
    History.contains_ofNumbers.mpr (List.mem_singleton.mpr rfl)
  rw [← written.length] at short
  rw [resolve_eq offers listed, tryKey_of_holds keeps.carries written few short offers rfl
    written.metadata nofun]
  rfl

theorem files_of_served : ∃ listing,
    (opened source package.number).files package.number = .ok (some listing) ∧
      listing.map FileInfo.path = draft.files.map DraftFile.path ∧
      draft.StoredAs package.record (listing.map FileInfo.record) := by
  have found := resolve_of_served keeps written few short served
  have aligned : (resolvedOf prepared package).key.files.length =
      (resolvedOf prepared package).files.length := by
    rw [resolvedOf, List.length_map, written.files.length_eq]
  refine ⟨(resolvedOf prepared package).listing, by rw [files, found]; rfl, ?_, ?_⟩
  · rw [Resolved.map_path_listing aligned, ← keeps.carries.paths]
    exact DraftFile.paths_of_storedIn written.files
  · rw [Resolved.map_record_listing aligned, written.record]
    exact keeps.storedAs

theorem content_of_served (distinct : (draft.files.map DraftFile.path).Nodup) {file : DraftFile}
    (member : file ∈ draft.files) :
    (opened source package.number).content package.number file.path =
      .ok (some file.content) := by
  have found := resolve_of_served keeps written few short served
  rw [← keeps.carries.paths] at distinct
  rcases keeps.carries.exists_of_mem member with ⟨original, listed, path, text⟩
  rcases DraftFile.find?_of_storedIn written.files distinct listed with ⟨stored, chosen, holds⟩
  have offers : (opened source package.number).source.Offers package.number package.body
    (Record.encode package.key) := served.offers
  rw [← path, ← text, content, withFile_of_find? found chosen,
    BodyReader.readAll_of_holds offers holds.holds]
  rfl

theorem content_of_served_absent {path : String} (absent : path ∉ draft.files.map DraftFile.path) :
    (opened source package.number).content package.number path = .ok none := by
  have found := resolve_of_served keeps written few short served
  rw [← keeps.carries.paths] at absent
  rw [content, withFile_of_find?_eq_none found
    (DraftFile.find?_of_not_mem written.files absent)]

/-- An archive over a source that serves the package of a draft gives the draft back. -/
theorem answers_of_served (distinct : (draft.files.map DraftFile.path).Nodup) :
    (opened source package.number).Answers draft package := by
  have number : draft.record.number = package.number := by
    rw [Package.number, written.record, keeps.number]
  have found := resolve_of_served keeps written few short served
  refine ⟨?_, ?_, ?_, ?_, ?_, ?_⟩
  · rw [number, Archive.key, found]
    rfl
  · rw [number, record, found]
    rfl
  · rw [number]
    exact files_of_served keeps written few short served
  · rw [number]
    exact fun _ member => content_of_served keeps written few short served distinct member
  · rw [number]
    exact fun _ absent => content_of_served_absent keeps written few short served absent
  · rw [number]
    exact fun _ different => answers_of_ne different

end Served

end Archive

end Missive
