import Missive.Package.Draft
import Missive.Proofs.Outcome

/-!
# Preparing a draft

A draft is prepared exactly if its paths are in order and everything that it names is registered
(`exists_prepare_iff`). The records that are then stored are valid again, and `Draft.StoredAs` says
what they are: as the author gave them, or with the author's key and signatures.
-/

namespace Missive

theorem Path.validateFrom_eq_ok_iff {seen paths : List String} :
    validateFrom seen paths = .ok () ↔
      (∀ path ∈ paths, validate path = .ok ()) ∧ (∀ path ∈ paths, path ∉ seen) ∧ paths.Nodup := by
  induction paths generalizing seen with
  | nil => simp [validateFrom]
  | cons path paths ih =>
      have step : validateFrom seen (path :: paths) = .ok () ↔
          validate path = .ok () ∧ path ∉ seen ∧ validateFrom (path :: seen) paths = .ok () := by
        rw [validateFrom, bind_unit_eq_ok_iff, guard_eq_ok_iff]
      rw [step, ih, List.forall_mem_cons, List.forall_mem_cons, List.nodup_cons]
      simp only [List.mem_cons, not_or]
      constructor
      · rintro ⟨first, new, rest, others, distinct⟩
        refine ⟨⟨first, rest⟩, ⟨new, fun other member => (others other member).2⟩, ?_, distinct⟩
        intro again
        exact (others path again).1 rfl
      · rintro ⟨⟨first, rest⟩, ⟨new, others⟩, single, distinct⟩
        refine ⟨first, new, rest, fun other member => ⟨?_, others other member⟩, distinct⟩
        rintro rfl
        exact single member

theorem Path.validateAll_eq_ok_iff {paths : List String} :
    validateAll paths = .ok () ↔ (∀ path ∈ paths, validate path = .ok ()) ∧ paths.Nodup := by
  rw [validateAll, validateFrom_eq_ok_iff]
  simp

/-! ### Records with signatures -/

namespace MessageRecord

theorem validate_eq_ok_iff {record : MessageRecord} :
    record.validate = .ok () ↔ record.post ≠ "" ∧
      (record.isNewOrSquash = false →
        ∃ previous, record.previous = some previous ∧ previous < record.number) ∧
      record.authorKeyFormat.isSome = record.authorKey.isSome := by
  simp only [validate, guard_eq_ok_iff]
  refine and_congr_right fun _ => ?_
  cases record.isNewOrSquash with
  | true => simp only [Bool.true_eq_false, if_false, guard_eq_ok_iff', ne_eq, Decidable.not_not,
      false_implies, true_and]
  | false =>
      cases record.previous with
      | none => simp [throw_bind_ne_ok]
      | some previous =>
          simp only [if_true, guard_eq_ok_iff, guard_eq_ok_iff', ne_eq, Decidable.not_not,
            UInt64.not_le, Option.some.injEq, exists_eq_left', true_implies]
/-- The record with an author, and the format of the author's signature. -/
def authored (record : MessageRecord) (keyFormat : String) (key : Bytes)
    (signatureFormat : String) : MessageRecord :=
  { record with
    authorKeyFormat := some keyFormat
    authorKey := some key
    signatureFormat := some signatureFormat }

theorem validate_authored {record : MessageRecord} (valid : record.validate = .ok ())
    (keyFormat : String) (key : Bytes) (signatureFormat : String) :
    (record.authored keyFormat key signatureFormat).validate = .ok () := by
  rw [validate_eq_ok_iff] at valid ⊢
  exact ⟨valid.1, valid.2.1, rfl⟩

end MessageRecord

namespace FileRecord

theorem validate_eq_ok_iff {record : FileRecord} :
    record.validate = .ok () ↔ record.signatureFormat.isSome = record.signature.isSome ∧
      ∀ created updated, record.createdAt = some created → record.updatedAt = some updated →
        created ≤ updated := by
  simp only [validate, guard_eq_ok_iff, ne_eq, Decidable.not_not]
  refine and_congr_right fun _ => ?_
  cases record.createdAt with
  | none => simp [pure, Except.pure]
  | some created =>
      cases record.updatedAt with
      | none => simp [pure, Except.pure]
      | some updated => simp [guard_eq_ok_iff']

theorem validate_signed {record : FileRecord} (valid : record.validate = .ok ())
    (format : String) (signature : Bytes) : (record.signed format signature).validate = .ok () := by
  rw [validate_eq_ok_iff] at valid ⊢
  exact ⟨rfl, valid.2⟩

end FileRecord

/-! ### Signing -/

namespace Registry

variable {α : Type} [Named α] {registry : Registry α} {name : String}

theorem get_eq_ok_iff {engine : α} :
    registry.get name = .ok engine ↔ registry.find? name = some engine := by
  rw [get]
  cases registry.find? name <;> simp

theorem exists_get_iff : (∃ engine, registry.get name = .ok engine) ↔ registry.contains name := by
  simp only [get_eq_ok_iff, contains, Option.isSome_iff_exists]

end Registry

/-- An identity that was made by the scheme which is registered under its name, if there is one. -/
def Identity.Genuine (identity : Identity) (engines : Engines) : Prop :=
  ∃ scheme privateKey, ofPrivateKey scheme privateKey = .ok identity ∧
    ∀ registered, engines.schemes.find? scheme.name = some registered → registered = scheme

/-- The signature of an identity of the standard scheme. -/
def Identity.signature (identity : Identity) (data : Bytes) : Bytes :=
  Ed25519.signDigest identity.privateKey (Sha512.digest data)

theorem Identity.length_privateKey {identity : Identity} (genuine : identity.Genuine .standard)
    (registered : Engines.standard.schemes.contains identity.scheme) :
    identity.privateKey.length = 32 := by
  rcases genuine with ⟨scheme, privateKey, made, same⟩
  rcases bind_eq_ok_iff.mp made with ⟨publicKey, known, rest⟩
  cases rest
  rcases Option.isSome_iff_exists.mp registered with ⟨standard, found⟩
  have equal := same standard found
  have member : standard ∈ [Scheme.ed25519ph] := List.mem_of_find?_eq_some found
  rw [← equal, List.mem_singleton.mp member] at known
  rcases bind_eq_ok_iff.mp known with ⟨_, checked, _⟩
  rw [Ed25519.checkPrivateKey] at checked
  split at checked
  · assumption
  · cases checked

namespace Signer

variable {identity : Identity} {keyFormat : Option String}

theorem exists_resolve (registered : Engines.standard.schemes.contains identity.scheme)
    (known : ∀ name ∈ keyFormat, Engines.standard.keyFormats.contains name) :
    ∃ format, resolve .standard identity keyFormat =
        .ok ⟨identity, .ed25519ph, format, .rawSignature⟩ ∧
      (format = .rawKey ∨ format = .hexKey) ∧ format.name = keyFormat.getD "ed25519-raw" := by
  rcases Option.isSome_iff_exists.mp registered with ⟨scheme, found⟩
  have standard : scheme = .ed25519ph := List.mem_singleton.mp (List.mem_of_find?_eq_some found)
  have first := Registry.get_eq_ok_iff.mpr found
  have listed : Engines.standard.keyFormats.contains (keyFormat.getD "ed25519-raw") := by
    cases keyFormat with
    | none => decide
    | some name => exact known name rfl
  rcases Option.isSome_iff_exists.mp listed with ⟨format, chosen⟩
  have kinds : format = .rawKey ∨ format = .hexKey := by
    have member : format ∈ [Format.rawKey, Format.hexKey] := List.mem_of_find?_eq_some chosen
    simpa using member
  have named : format.name = keyFormat.getD "ed25519-raw" := by
    have same := List.find?_some chosen
    exact of_decide_eq_true same
  have second := Registry.get_eq_ok_iff.mpr chosen
  subst standard
  refine ⟨format, ?_, kinds, named⟩
  simp only [resolve, first, bind, Except.bind]
  have usual : Scheme.ed25519ph.publicKeyFormat = "ed25519-raw" := rfl
  rw [usual, second]
  rcases kinds with rfl | rfl <;> rfl

theorem registered_of_resolve {signer : Signer}
    (resolved : resolve .standard identity keyFormat = .ok signer) :
    Engines.standard.schemes.contains identity.scheme ∧
      ∀ name ∈ keyFormat, Engines.standard.keyFormats.contains name := by
  rcases bind_eq_ok_iff.mp resolved with ⟨scheme, found, resolved⟩
  rcases bind_eq_ok_iff.mp resolved with ⟨format, chosen, _⟩
  refine ⟨Registry.exists_get_iff.mp ⟨scheme, found⟩, ?_⟩
  intro name member
  cases member
  exact Registry.exists_get_iff.mp ⟨format, chosen⟩

variable {format : Format}

theorem sign_standard (length : identity.privateKey.length = 32) (data : Bytes) :
    sign ⟨identity, .ed25519ph, format, .rawSignature⟩ data = .ok (identity.signature data) := by
  simp only [sign, Scheme.ed25519ph, Ed25519.checkPrivateKey, if_pos length, bind, Except.bind,
    pure, Except.pure]
  rfl

theorem signKey_standard (length : identity.privateKey.length = 32) (key : PackageKey) :
    signKey ⟨identity, .ed25519ph, format, .rawSignature⟩ key =
      .ok (key.signed "ED25519PH" (identity.signature (Record.encode key))) := by
  simp only [signKey, sign_standard length, bind, Except.bind, pure, Except.pure]
  rfl

end Signer

/-! ### Drafts -/

namespace Draft

/-- What the author of a draft is promised to bring along: valid records and a genuine identity. -/
structure Valid (draft : Draft) : Prop where
  record : Record.validate draft.record = .ok ()
  files : ∀ file ∈ draft.files, Record.validate file.record = .ok ()
  identity : ∀ identity ∈ draft.identity, identity.Genuine .standard

/-- What makes a draft a package: its paths are in order, and its names are registered. -/
structure Admissible (draft : Draft) (engines : Engines) : Prop where
  paths : ∀ file ∈ draft.files, Path.validate file.path = .ok ()
  distinct : (draft.files.map DraftFile.path).Nodup
  delete : draft.record.isDelete = true → draft.files = []
  cipher : engines.ciphers.contains draft.cipher
  checksum : ∀ name ∈ draft.checksum, engines.checksums.contains name
  scheme : ∀ identity ∈ draft.identity, engines.schemes.contains identity.scheme
  keyFormat : ∀ identity ∈ draft.identity, ∀ name ∈ draft.keyFormat,
    engines.keyFormats.contains name

/-- The records that are stored of a draft under the standard engines. -/
inductive StoredAs (draft : Draft) : MessageRecord → List FileRecord → Prop
  /-- Without an identity, the records are stored as they are. -/
  | unsigned (anonymous : draft.identity = none) :
    StoredAs draft draft.record (draft.files.map DraftFile.record)
  /-- The author's key stands in the record, and a signature over its content in each file. -/
  | signed {identity : Identity} {format : Format} {key : Bytes}
    (author : draft.identity = some identity)
    (usual : format = .rawKey ∨ format = .hexKey)
    (named : format.name = draft.keyFormat.getD "ed25519-raw")
    (encoded : format.encode identity.publicKey = .ok key) :
    StoredAs draft (draft.record.authored format.name key "ED25519PH")
      (draft.files.map fun file =>
        file.record.signed "ED25519PH" (identity.signature file.content))

theorem validate_eq_ok_iff {draft : Draft} :
    draft.validate = .ok () ↔ (∀ file ∈ draft.files, Path.validate file.path = .ok ()) ∧
      (draft.files.map DraftFile.path).Nodup ∧
      (draft.record.isDelete = true → draft.files = []) := by
  have step : draft.validate = .ok () ↔
      ¬(draft.record.isDelete = true ∧ draft.files ≠ []) ∧
        Path.validateAll (draft.files.map DraftFile.path) = .ok () := by
    rw [validate, guard_eq_ok_iff]
  rw [step, Path.validateAll_eq_ok_iff, List.forall_mem_map]
  constructor
  · rintro ⟨empty, paths, distinct⟩
    refine ⟨paths, distinct, ?_⟩
    intro delete
    exact Decidable.not_not.mp fun filled => empty ⟨delete, filled⟩
  · rintro ⟨paths, distinct, empty⟩
    exact ⟨fun both => both.2 (empty both.1), paths, distinct⟩

end Draft

/-- What a reader is to get of a file: its path and its content. -/
def DraftFile.plain (file : DraftFile) : String × Bytes :=
  (file.path, file.content)

/-- What is stored of a draft: its number and its files, in records that are valid. -/
structure Signed.Carries (signed : Signed) (draft : Draft) : Prop where
  plain : signed.files.map DraftFile.plain = draft.files.map DraftFile.plain
  number : signed.record.number = draft.record.number
  record : Record.validate signed.record = .ok ()
  files : ∀ file ∈ signed.files, Record.validate file.record = .ok ()

theorem Signed.Carries.length_files {signed : Signed} {draft : Draft}
    (carries : signed.Carries draft) : signed.files.length = draft.files.length := by
  have counted := congrArg List.length carries.plain
  rw [List.length_map, List.length_map] at counted
  exact counted

theorem Signed.Carries.paths {signed : Signed} {draft : Draft}
    (carries : signed.Carries draft) :
    signed.files.map DraftFile.path = draft.files.map DraftFile.path := by
  have names := congrArg (List.map Prod.fst) carries.plain
  rw [List.map_map, List.map_map] at names
  exact names

theorem Signed.Carries.contents {signed : Signed} {draft : Draft}
    (carries : signed.Carries draft) :
    signed.files.map DraftFile.content = draft.files.map DraftFile.content := by
  have texts := congrArg (List.map Prod.snd) carries.plain
  rw [List.map_map, List.map_map] at texts
  exact texts

/-- Every file of the draft is stored with its content. -/
theorem Signed.Carries.exists_of_mem {signed : Signed} {draft : Draft}
    (carries : signed.Carries draft) {file : DraftFile} (member : file ∈ draft.files) :
    ∃ stored ∈ signed.files, stored.path = file.path ∧ stored.content = file.content := by
  have entry : file.plain ∈ signed.files.map DraftFile.plain := by
    rw [carries.plain]
    exact List.mem_map_of_mem member
  rcases List.mem_map.mp entry with ⟨stored, listed, same⟩
  rcases Prod.mk.inj same with ⟨path, content⟩
  exact ⟨stored, listed, path, content⟩

/-- A draft that is prepared keeps what it was made of, in records that are valid again. -/
structure Prepared.Keeps (prepared : Prepared) (draft : Draft) : Prop where
  storedAs : draft.StoredAs prepared.signed.record (prepared.signed.files.map DraftFile.record)
  plain : prepared.signed.files.map DraftFile.plain = draft.files.map DraftFile.plain
  number : prepared.signed.record.number = draft.record.number
  record : Record.validate prepared.signed.record = .ok ()
  files : ∀ file ∈ prepared.signed.files, Record.validate file.record = .ok ()
  signer : ∀ signer ∈ prepared.signer, ∀ key, ∃ format signature,
    signer.signKey key = .ok (key.signed format signature)

theorem Prepared.Keeps.carries {prepared : Prepared} {draft : Draft}
    (keeps : prepared.Keeps draft) : prepared.signed.Carries draft :=
  ⟨keeps.plain, keeps.number, keeps.record, keeps.files⟩

namespace Draft

variable {draft : Draft}

theorem exists_of_prepare {engines : Engines} {prepared : Prepared}
    (made : draft.prepare engines = .ok prepared) :
    draft.validate = .ok () ∧ engines.ciphers.get draft.cipher = .ok prepared.cipher ∧
      draft.checksum.mapM engines.checksums.get = .ok prepared.checksum ∧
      (draft.identity.mapM fun identity => Signer.resolve engines identity draft.keyFormat) =
        .ok prepared.signer ∧
      draft.sign prepared.signer = .ok prepared.signed := by
  rcases bind_unit_eq_ok_iff.mp made with ⟨validated, made⟩
  rcases bind_eq_ok_iff.mp made with ⟨cipher, named, made⟩
  rcases bind_eq_ok_iff.mp made with ⟨checksum, checked, made⟩
  rcases bind_eq_ok_iff.mp made with ⟨signer, resolved, made⟩
  rcases bind_eq_ok_iff.mp made with ⟨signed, stored, made⟩
  cases made
  exact ⟨mapError_eq_ok_iff.mp validated, named, checked, resolved, stored⟩

theorem admissible_of_prepare {prepared : Prepared}
    (made : draft.prepare .standard = .ok prepared) : draft.Admissible .standard := by
  rcases exists_of_prepare made with ⟨validated, named, checked, resolved, _⟩
  rw [validate_eq_ok_iff] at validated
  refine ⟨validated.1, validated.2.1, validated.2.2, Registry.exists_get_iff.mp ⟨_, named⟩,
    ?_, ?_, ?_⟩
  · intro name member
    exact Registry.exists_get_iff.mp (exists_of_option_mapM checked name member)
  · intro identity member
    rcases exists_of_option_mapM resolved identity member with ⟨signer, found⟩
    exact (Signer.registered_of_resolve found).1
  · intro identity member
    rcases exists_of_option_mapM resolved identity member with ⟨signer, found⟩
    exact (Signer.registered_of_resolve found).2

theorem exists_engines (admissible : draft.Admissible .standard) :
    ∃ cipher checksum, draft.validate = .ok () ∧
      Engines.standard.ciphers.get draft.cipher = .ok cipher ∧
      draft.checksum.mapM Engines.standard.checksums.get = .ok checksum := by
  rcases Registry.exists_get_iff.mpr admissible.cipher with ⟨cipher, named⟩
  have validated : draft.validate = .ok () :=
    validate_eq_ok_iff.mpr ⟨admissible.paths, admissible.distinct, admissible.delete⟩
  cases shape : draft.checksum with
  | none => exact ⟨cipher, none, validated, named, rfl⟩
  | some name =>
      rcases Registry.exists_get_iff.mpr (admissible.checksum name shape) with ⟨engine, found⟩
      exact ⟨cipher, some engine, validated, named, option_mapM_some found⟩

/-- A draft without an identity is stored as it is. -/
theorem exists_prepare_anonymous (valid : draft.Valid) (admissible : draft.Admissible .standard)
    (anonymous : draft.identity = none) :
    ∃ prepared, draft.prepare .standard = .ok prepared ∧ prepared.Keeps draft := by
  rcases exists_engines admissible with ⟨cipher, checksum, validated, named, checked⟩
  refine ⟨⟨cipher, checksum, none, ⟨draft.record, [], draft.files⟩⟩, ?_, ?_⟩
  · simp only [prepare, validated, named, checked, anonymous, mapError_ok, bind, Except.bind]
    rfl
  · exact ⟨.unsigned anonymous, rfl, rfl, valid.record, valid.files,
      fun _ member => nomatch member⟩

/-- What is stored of a draft that an identity of the standard scheme signs. -/
def signedBy (draft : Draft) (identity : Identity) (format : Format) (key : Bytes) : Signed :=
  let record := draft.record.authored format.name key "ED25519PH"
  ⟨record, identity.signature (Record.encode record), draft.files.map fun file =>
    { file with record := file.record.signed "ED25519PH" (identity.signature file.content) }⟩

theorem sign_standard (valid : draft.Valid) {identity : Identity} {format : Format} {key : Bytes}
    (length : identity.privateKey.length = 32)
    (encoded : format.encode identity.publicKey = .ok key) :
    draft.sign (some ⟨identity, .ed25519ph, format, .rawSignature⟩) =
      .ok (draft.signedBy identity format key) := by
  have record : Signer.stamp ⟨identity, .ed25519ph, format, .rawSignature⟩ draft.record =
      .ok (draft.record.authored format.name key "ED25519PH") := by
    have authored : Record.validate (draft.record.authored format.name key "ED25519PH") = .ok () :=
      MessageRecord.validate_authored valid.record format.name key "ED25519PH"
    simp only [Signer.stamp, encoded, bind, Except.bind]
    exact Record.checked_eq_ok_iff.mpr ⟨rfl, authored⟩
  have files : draft.files.mapM (Signer.signFile ⟨identity, .ed25519ph, format, .rawSignature⟩) =
      .ok (draft.signedBy identity format key).files := by
    apply mapM_eq_ok_map
    intro file _
    simp only [Signer.signFile, Signer.sign_standard length, bind, Except.bind]
    rfl
  simp only [sign, record, files, Signer.sign_standard length, bind, Except.bind, pure, Except.pure]
  rfl

theorem keeps_signedBy (valid : draft.Valid) {identity : Identity} {format : Format} {key : Bytes}
    (author : draft.identity = some identity) (length : identity.privateKey.length = 32)
    (usual : format = .rawKey ∨ format = .hexKey)
    (named : format.name = draft.keyFormat.getD "ed25519-raw")
    (encoded : format.encode identity.publicKey = .ok key) (cipher : Cipher)
    (checksum : Option Checksum) :
    Prepared.Keeps ⟨cipher, checksum, some ⟨identity, .ed25519ph, format, .rawSignature⟩,
      draft.signedBy identity format key⟩ draft := by
  refine ⟨?_, ?_, rfl, ?_, ?_, ?_⟩
  · have signed := StoredAs.signed author usual named encoded
    simpa only [signedBy, List.map_map, Function.comp_def] using signed
  · rw [signedBy, List.map_map]
    rfl
  · exact MessageRecord.validate_authored valid.record _ _ _
  · intro file member
    rcases List.mem_map.mp member with ⟨original, there, rfl⟩
    exact FileRecord.validate_signed (valid.files original there) _ _
  · intro other same keyToSign
    cases same
    exact ⟨_, _, Signer.signKey_standard length keyToSign⟩

/-- A draft with an identity is signed by it. -/
theorem exists_prepare_signed (valid : draft.Valid) (admissible : draft.Admissible .standard)
    {identity : Identity} (author : draft.identity = some identity) :
    ∃ prepared, draft.prepare .standard = .ok prepared ∧ prepared.Keeps draft := by
  rcases exists_engines admissible with ⟨cipher, checksum, validated, named, checked⟩
  have registered := admissible.scheme identity author
  have length := Identity.length_privateKey (valid.identity identity author) registered
  rcases Signer.exists_resolve registered (admissible.keyFormat identity author)
      with ⟨format, resolved, kinds, chosen⟩
  obtain ⟨key, encoded⟩ : ∃ key, format.encode identity.publicKey = .ok key := by
    rcases kinds with rfl | rfl <;> exact ⟨_, rfl⟩
  have signer : (draft.identity.mapM fun identity =>
      Signer.resolve .standard identity draft.keyFormat) =
        .ok (some ⟨identity, .ed25519ph, format, .rawSignature⟩) := by
    rw [author]
    exact option_mapM_some resolved
  refine ⟨_, ?_, keeps_signedBy valid author length kinds chosen encoded cipher checksum⟩
  simp only [prepare, validated, named, checked, signer, sign_standard valid length encoded,
    mapError_ok, bind, Except.bind, pure, Except.pure]

/-- A draft is prepared exactly if it is admissible, and it keeps what it was made of. -/
theorem exists_prepare_iff (valid : draft.Valid) :
    (∃ prepared, draft.prepare .standard = .ok prepared) ↔ draft.Admissible .standard := by
  constructor
  · rintro ⟨prepared, made⟩
    exact admissible_of_prepare made
  · intro admissible
    cases author : draft.identity with
    | none =>
        rcases exists_prepare_anonymous valid admissible author with ⟨prepared, made, _⟩
        exact ⟨prepared, made⟩
    | some identity =>
        rcases exists_prepare_signed valid admissible author with ⟨prepared, made, _⟩
        exact ⟨prepared, made⟩

theorem keeps_of_prepare (valid : draft.Valid) {prepared : Prepared}
    (made : draft.prepare .standard = .ok prepared) : prepared.Keeps draft := by
  have admissible := admissible_of_prepare made
  cases author : draft.identity with
  | none =>
      rcases exists_prepare_anonymous valid admissible author with ⟨other, again, keeps⟩
      rw [made] at again
      cases again
      exact keeps
  | some identity =>
      rcases exists_prepare_signed valid admissible author with ⟨other, again, keeps⟩
      rw [made] at again
      cases again
      exact keeps

end Draft

end Missive
