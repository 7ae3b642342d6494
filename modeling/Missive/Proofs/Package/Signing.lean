import Mathlib.Data.List.Forall2
import Missive.Proofs.Package.Prepare

/-!
# Drafts under any engines

Engines may hold any schemes and formats, and what is prepared under them is known only by the
names that were looked up. Under all of them a draft is carried by what is stored of it
(`Draft.carries_of_prepare`), everything that has been looked up is found again by its own name
(`Prepared.Registered`), and a signer has signed the record and every file (`Signer.Attests`).
-/

namespace Missive

theorem forall₂_of_mapM {ε α β : Type} {step : α → Except ε β} {items : List α} {results : List β}
    (done : items.mapM step = .ok results) :
    List.Forall₂ (fun item result => step item = .ok result) items results := by
  induction items generalizing results with
  | nil =>
      cases done
      exact .nil
  | cons item items ih =>
      rw [List.mapM_cons] at done
      rcases bind_eq_ok_iff.mp done with ⟨first, known, done⟩
      rcases bind_eq_ok_iff.mp done with ⟨others, later, done⟩
      cases done
      exact .cons known (ih later)

/-! ### Names that are registered -/

namespace Registry

variable {α : Type} [Named α] {registry : Registry α} {name : String} {engine : α}

theorem name_of_get (known : registry.get name = .ok engine) : Named.name engine = name := by
  have found := get_eq_ok_iff.mp known
  have same := List.find?_some found
  exact of_decide_eq_true same

/-- What has been looked up is found by its own name, too. -/
theorem get_name_of_get (known : registry.get name = .ok engine) :
    registry.get (Named.name engine) = .ok engine := by
  rw [name_of_get known]
  exact known

theorem mem_of_get (known : registry.get name = .ok engine) : engine ∈ registry.engines :=
  List.mem_of_find?_eq_some (get_eq_ok_iff.mp known)

end Registry

/-! ### Signers -/

namespace Signer

variable {engines : Engines} {signer : Signer}

/-- A signer all of whose engines are registered and belong to one scheme. -/
structure Registered (signer : Signer) (engines : Engines) : Prop where
  scheme : engines.schemes.get signer.scheme.name = .ok signer.scheme
  keyFormat : engines.keyFormats.get signer.keyFormat.name = .ok signer.keyFormat
  signatureFormat : engines.signatureFormats.get signer.signatureFormat.name =
    .ok signer.signatureFormat
  keyScheme : signer.keyFormat.scheme = signer.scheme.name
  signatureScheme : signer.signatureFormat.scheme = signer.scheme.name
  identity : signer.identity.scheme = signer.scheme.name

theorem checkFormat_eq_ok_iff {family : String} {scheme : Scheme} {format : Format} :
    checkFormat family scheme format = .ok () ↔ format.scheme = scheme.name := by
  rw [checkFormat]
  split
  · simpa
  · simpa

theorem Registered.of_resolve {identity : Identity} {keyFormat : Option String}
    (resolved : resolve engines identity keyFormat = .ok signer) :
    signer.Registered engines ∧ signer.identity = identity := by
  rcases bind_eq_ok_iff.mp resolved with ⟨scheme, first, resolved⟩
  rcases bind_eq_ok_iff.mp resolved with ⟨format, second, resolved⟩
  rcases bind_eq_ok_iff.mp resolved with ⟨signatures, third, resolved⟩
  rcases bind_unit_eq_ok_iff.mp resolved with ⟨keys, resolved⟩
  rcases bind_unit_eq_ok_iff.mp resolved with ⟨fits, resolved⟩
  cases resolved
  refine ⟨⟨Registry.get_name_of_get first, Registry.get_name_of_get second,
    Registry.get_name_of_get third, checkFormat_eq_ok_iff.mp keys, checkFormat_eq_ok_iff.mp fits,
    (Registry.name_of_get first).symm⟩, rfl⟩

theorem Registered.publicKey_eq (registered : signer.Registered engines)
    (genuine : signer.identity.Genuine engines) :
    signer.scheme.publicKey signer.identity.privateKey = .ok signer.identity.publicKey := by
  rcases genuine with ⟨scheme, privateKey, made, same⟩
  rcases bind_eq_ok_iff.mp made with ⟨publicKey, known, shape⟩
  have parts := Except.ok.inj shape
  have named : scheme.name = signer.scheme.name := by
    rw [← registered.identity, ← parts]
  have found := Registry.get_eq_ok_iff.mp registered.scheme
  rw [← named] at found
  rw [same _ found, ← parts]
  exact known

/-- A record in which a signer is the author. -/
structure Authors (signer : Signer) (record : MessageRecord) : Prop where
  keyFormat : record.authorKeyFormat = some signer.keyFormat.name
  key : ∃ key, record.authorKey = some key ∧
    signer.keyFormat.encode signer.identity.publicKey = .ok key
  signatureFormat : record.signatureFormat = some signer.signatureFormat.name

/-- A file with a signature of a signer over its content. -/
def SignsFile (signer : Signer) (file : DraftFile) : Prop :=
  file.record.signatureFormat = some signer.signatureFormat.name ∧
    ∃ signature, file.record.signature = some signature ∧
      signer.sign file.content = .ok signature

/-- Everything that is stored of a draft, signed by a signer. -/
structure Attests (signer : Signer) (signed : Signed) : Prop where
  author : signer.Authors signed.record
  record : signer.sign (Record.encode signed.record) = .ok signed.signature
  files : ∀ file ∈ signed.files, signer.SignsFile file

theorem exists_of_stamp {record stamped : MessageRecord}
    (done : signer.stamp record = .ok stamped) :
    signer.Authors stamped ∧ stamped.number = record.number ∧
      Record.validate stamped = .ok () := by
  rcases bind_eq_ok_iff.mp done with ⟨key, encoded, done⟩
  rcases Record.checked_eq_ok_iff.mp done with ⟨rfl, valid⟩
  exact ⟨⟨rfl, ⟨key, rfl, encoded⟩, rfl⟩, rfl, valid⟩

theorem exists_of_signFile {file signed : DraftFile} (done : signer.signFile file = .ok signed) :
    ∃ signature, signer.sign file.content = .ok signature ∧
      signed = { file with
        record := file.record.signed signer.signatureFormat.name signature } := by
  rcases bind_eq_ok_iff.mp done with ⟨signature, made, done⟩
  cases done
  exact ⟨signature, made, rfl⟩

theorem exists_of_signFiles {files signed : List DraftFile}
    (done : files.mapM signer.signFile = .ok signed) :
    signed.map DraftFile.plain = files.map DraftFile.plain ∧
      ∀ file ∈ signed, signer.SignsFile file ∧ ∃ original ∈ files, ∃ format signature,
        file.record = original.record.signed format signature := by
  have pairs := forall₂_of_mapM done
  clear done
  induction pairs with
  | nil => exact ⟨rfl, fun _ member => nomatch member⟩
  | @cons file _ files _ first _ ih =>
      rcases exists_of_signFile first with ⟨signature, made, rfl⟩
      rcases ih with ⟨plain, every⟩
      refine ⟨?_, ?_⟩
      · rw [List.map_cons, List.map_cons, plain]
        rfl
      · rw [List.forall_mem_cons]
        refine ⟨⟨⟨rfl, signature, rfl, made⟩, file, List.mem_cons_self, _, _, rfl⟩, ?_⟩
        intro other member
        rcases every other member with ⟨signs, original, listed, shape⟩
        exact ⟨signs, original, List.mem_cons_of_mem file listed, shape⟩

end Signer

/-! ### What is stored of a draft -/

namespace Draft

variable {draft : Draft} {signed : Signed}

/-- A signer makes the record valid, and signs it together with all files. -/
theorem attests_of_sign {signer : Signer}
    (files : ∀ file ∈ draft.files, Record.validate file.record = .ok ())
    (done : draft.sign (some signer) = .ok signed) :
    signed.Carries draft ∧ signer.Attests signed := by
  rcases bind_eq_ok_iff.mp done with ⟨record, stamped, done⟩
  rcases bind_eq_ok_iff.mp done with ⟨stored, others, done⟩
  rcases bind_eq_ok_iff.mp done with ⟨signature, made, done⟩
  cases done
  rcases Signer.exists_of_stamp stamped with ⟨author, number, valid⟩
  rcases Signer.exists_of_signFiles others with ⟨plain, every⟩
  refine ⟨⟨plain, number, valid, ?_⟩, author, made, fun file member => (every file member).1⟩
  intro file member
  rcases every file member with ⟨_, original, listed, format, mark, shape⟩
  rw [shape]
  exact FileRecord.validate_signed (files original listed) format mark

end Draft

/-! ### What is prepared -/

/-- A prepared draft whose cipher and checksum are registered under their names. -/
structure Prepared.Registered (prepared : Prepared) (engines : Engines) : Prop where
  cipher : engines.ciphers.get prepared.cipher.name = .ok prepared.cipher
  checksum : ∀ checksum ∈ prepared.checksum, engines.checksums.get checksum.name = .ok checksum

namespace Draft

variable {draft : Draft} {engines : Engines} {prepared : Prepared}

theorem registered_of_prepare (made : draft.prepare engines = .ok prepared) :
    prepared.Registered engines := by
  rcases exists_of_prepare made with ⟨_, named, checked, _, _⟩
  refine ⟨Registry.get_name_of_get named, ?_⟩
  intro checksum member
  rw [Option.mem_def.mp member] at checked
  cases chosen : draft.checksum with
  | none =>
      rw [chosen] at checked
      cases checked
  | some name =>
      rw [chosen] at checked
      rcases bind_eq_ok_iff.mp checked with ⟨found, known, checked⟩
      cases checked
      exact Registry.get_name_of_get known

/-- An author signs with what is registered, and has signed what is stored. -/
theorem exists_signer_of_prepare {identity : Identity} (author : draft.identity = some identity)
    (made : draft.prepare engines = .ok prepared) :
    ∃ signer, prepared.signer = some signer ∧ signer.Registered engines ∧
      signer.identity = identity ∧ draft.sign (some signer) = .ok prepared.signed := by
  rcases exists_of_prepare made with ⟨_, _, _, resolved, stored⟩
  rw [author] at resolved
  rcases bind_eq_ok_iff.mp resolved with ⟨signer, found, resolved⟩
  have chosen := Except.ok.inj resolved
  rw [← chosen] at stored
  rcases Signer.Registered.of_resolve found with ⟨registered, same⟩
  exact ⟨signer, chosen.symm, registered, same, stored⟩

end Draft

end Missive
