import Missive.Proofs.Archive.Answers
import Missive.Proofs.Package.Lossless

/-!
# Signatures that are verified

Schemes and formats come from whoever registers them, and so `Engines.Lawful` says what must be
known of them: a scheme verifies what it has signed, and a format gives back what it has stored.
Under lawful engines, whatever an author signs is valid to a reader with the same engines. The
reader comes to the signed bytes and to the engines in its own way: it decodes the key, removes its
signature and encodes it again, and it looks up the schemes and formats that the records name.
-/

namespace Missive

/-! ### Engines that can be relied on -/

/-- A format that gives back what it has stored. -/
def Format.Inverts (format : Format) : Prop :=
  ∀ raw stored, format.encode raw = .ok stored → format.decode stored = .ok raw

/-- A scheme that verifies what it has signed under the public key of the same private key. -/
def Scheme.Verifies (scheme : Scheme) : Prop :=
  ∀ privateKey publicKey data signature, scheme.publicKey privateKey = .ok publicKey →
    scheme.sign privateKey (.ok data) = .ok signature →
      scheme.verify publicKey (.ok data) signature = .ok true

/-- A format that stores no signature of a scheme as nothing at all. -/
def Format.Fills (format : Format) (scheme : Scheme) : Prop :=
  ∀ privateKey data signature, scheme.sign privateKey (.ok data) = .ok signature →
    format.encode signature ≠ .ok []

namespace Engines

/-- What must be known of the schemes and formats that are registered. -/
structure Lawful (engines : Engines) : Prop where
  schemes : ∀ scheme ∈ engines.schemes.engines, scheme.Verifies
  keyFormats : ∀ format ∈ engines.keyFormats.engines, format.Inverts
  signatureFormats : ∀ format ∈ engines.signatureFormats.engines, format.Inverts
  signatures : ∀ format ∈ engines.signatureFormats.engines,
    ∀ scheme ∈ engines.schemes.engines, format.scheme = scheme.name → format.Fills scheme

theorem inverts_verbatim (name scheme : String) : (Format.verbatim name scheme).Inverts := by
  intro raw stored encoded
  cases encoded
  rfl

theorem inverts_keyFormats : ∀ format ∈ standard.keyFormats.engines, format.Inverts := by
  intro format member
  have kinds : format = .rawKey ∨ format = .hexKey := by simpa [standard] using member
  rcases kinds with rfl | rfl
  · exact inverts_verbatim _ _
  · intro raw stored encoded
    cases encoded
    simp only [Format.hexKey, Hex.decode_encode, mapError_ok]

theorem inverts_signatureFormats :
    ∀ format ∈ standard.signatureFormats.engines, format.Inverts := by
  intro format member
  rw [List.mem_singleton.mp member]
  exact inverts_verbatim _ _

/-- The standard engines can be relied on as far as their scheme can. -/
theorem lawful_standard (correct : Scheme.ed25519ph.Verifies) : standard.Lawful := by
  refine ⟨?_, inverts_keyFormats, inverts_signatureFormats, ?_⟩
  · intro scheme member
    rw [List.mem_singleton.mp member]
    exact correct
  · intro format member scheme listed _
    rw [List.mem_singleton.mp member, List.mem_singleton.mp listed]
    intro privateKey data signature signed
    rcases bind_unit_eq_ok_iff.mp signed with ⟨_, signed⟩
    rcases bind_eq_ok_iff.mp signed with ⟨bytes, _, signed⟩
    cases signed
    intro nothing
    have counted := congrArg List.length (Except.ok.inj nothing)
    simp [Ed25519.signDigest] at counted

variable {engines : Engines} {signer : Signer} {author : MessageRecord} {data signature : Bytes}

/--
Material to verify a signature with: the formats of the signature and of the author's key are
registered and belong to one registered scheme, and both stored values decode.
-/
inductive Yields (engines : Engines) (author : MessageRecord) :
    (format : String) → (signature : Bytes) → Verifier → Prop
  | intro {format keyName : String} {signature key raw publicKey : Bytes}
    {signatureFormat keyFormat : Format} {scheme : Scheme}
    (keyNamed : author.authorKeyFormat = some keyName)
    (keyStored : author.authorKey = some key)
    (registered : engines.signatureFormats.find? format = some signatureFormat)
    (keyRegistered : engines.keyFormats.find? keyName = some keyFormat)
    (shared : signatureFormat.scheme = keyFormat.scheme)
    (schemeRegistered : engines.schemes.find? signatureFormat.scheme = some scheme)
    (keyDecoded : keyFormat.decode key = .ok publicKey)
    (decoded : signatureFormat.decode signature = .ok raw) :
    Yields engines author format signature ⟨scheme, publicKey, raw⟩

theorem verifier?_eq_some_iff {name : String} {verifier : Verifier} :
    engines.verifier? author name signature = .ok (some verifier) ↔
      engines.Yields author name signature verifier := by
  constructor
  · intro found
    rw [verifier?] at found
    split at found
    · rename_i keyNamed keyStored
      split at found
      · rename_i registered keyRegistered
        split at found
        · cases found
        · rename_i shared
          split at found
          · cases found
          · rename_i schemeRegistered
            split at found
            · rename_i keyDecoded decoded
              cases found
              exact .intro keyNamed keyStored registered keyRegistered
                (Decidable.not_not.mp shared) schemeRegistered keyDecoded decoded
            all_goals cases found
      · cases found
    · cases found
  · rintro ⟨keyNamed, keyStored, registered, keyRegistered, shared, schemeRegistered, keyDecoded,
      decoded⟩
    rw [shared] at schemeRegistered
    simp only [verifier?, keyNamed, keyStored, registered, keyRegistered, shared,
      schemeRegistered, keyDecoded, decoded, ne_eq, not_true_eq_false, if_false]

theorem Yields.scheme_mem {name : String} {verifier : Verifier}
    (yields : engines.Yields author name signature verifier) :
    verifier.scheme ∈ engines.schemes.engines := by
  rcases yields with ⟨_, _, _, _, _, schemeRegistered, _, _⟩
  exact List.mem_of_find?_eq_some schemeRegistered

/-- A reader finds what a signer has signed with, if the formats give back what they have stored. -/
theorem verifier?_of_inverts (keys : signer.keyFormat.Inverts)
    (signatures : signer.signatureFormat.Inverts) (registered : signer.Registered engines)
    (authors : signer.Authors author) {raw : Bytes}
    (encoded : signer.signatureFormat.encode raw = .ok signature) :
    engines.verifier? author signer.signatureFormat.name signature =
      .ok (some ⟨signer.scheme, signer.identity.publicKey, raw⟩) := by
  rcases authors.key with ⟨key, named, stored⟩
  have scheme := Registry.get_eq_ok_iff.mp registered.scheme
  have shared := registered.signatureScheme.trans registered.keyScheme.symm
  rw [← registered.signatureScheme] at scheme
  exact verifier?_eq_some_iff.mpr (.intro authors.keyFormat named
    (Registry.get_eq_ok_iff.mp registered.signatureFormat)
    (Registry.get_eq_ok_iff.mp registered.keyFormat) shared scheme (keys _ _ stored)
    (signatures _ _ encoded))

/-- The reader finds everything that a signer has signed with. -/
theorem verifier?_of_sign (lawful : engines.Lawful) (registered : signer.Registered engines)
    (authors : signer.Authors author) {raw : Bytes}
    (encoded : signer.signatureFormat.encode raw = .ok signature) :
    engines.verifier? author signer.signatureFormat.name signature =
      .ok (some ⟨signer.scheme, signer.identity.publicKey, raw⟩) :=
  verifier?_of_inverts (lawful.keyFormats _ (Registry.mem_of_get registered.keyFormat))
    (lawful.signatureFormats _ (Registry.mem_of_get registered.signatureFormat)) registered authors
    encoded

theorem filter_of_present (present : signature ≠ []) :
    (some signature).filter (fun signature => !signature.isEmpty) = some signature := by
  simp [Option.filter, present]

/-- What a check makes of the answer of a scheme; a signature that cannot be used is invalid. -/
theorem check_of_verifier? {name : String} {verifier : Verifier} (present : signature ≠ [])
    (found : engines.verifier? author name signature = .ok (some verifier)) (data : Reading) :
    engines.check author (some name) (some signature) data =
      match verifier.scheme.verify verifier.publicKey data verifier.signature with
      | .ok true => .ok .valid
      | .ok false | .error (.signature _) => .ok .invalid
      | .error error => .error error := by
  simp only [check, filter_of_present present, found, bind, Except.bind, pure, Except.pure]
  rfl

/-- What a signer has signed is valid. -/
theorem check_of_sign (lawful : engines.Lawful) (registered : signer.Registered engines)
    (genuine : signer.identity.Genuine engines) (authors : signer.Authors author)
    (signed : signer.sign data = .ok signature) :
    engines.check author (some signer.signatureFormat.name) (some signature) (.ok data) =
      .ok .valid := by
  rcases bind_eq_ok_iff.mp signed with ⟨raw, made, encoded⟩
  have listed := Registry.mem_of_get registered.scheme
  have verified := lawful.schemes _ listed _ _ _ _ (registered.publicKey_eq genuine) made
  -- Empty bytes would be taken for no signature at all, before any format is asked.
  have present : signature ≠ [] := by
    rintro rfl
    exact lawful.signatures _ (Registry.mem_of_get registered.signatureFormat) _ listed
      registered.signatureScheme _ _ _ made encoded
  rw [check_of_verifier? present (verifier?_of_sign lawful registered authors encoded), verified]

end Engines

/-! ### Signed packages -/

namespace Archive

section Signed

variable {archive : Archive} {prepared : Prepared} {package : Package} {signer : Signer}
  {number : UInt64} {body key : Bytes} {resolved : Resolved}

theorem keyStatus_of_check (layout : prepared.Layout package)
    (signs : prepared.signer = some signer)
    (valid : ∀ signature, signer.sign (Record.encode package.key.unsigned) = .ok signature →
      archive.engines.check package.record (some signer.signatureFormat.name) (some signature)
        (.ok (Record.encode package.key.unsigned)) = .ok .valid) :
    archive.keyStatus (resolvedOf prepared package) = .ok .valid := by
  rcases Prepared.signKey_eq_ok_iff.mp (layout.signed signer signs) with ⟨signature, made, shape⟩
  have format : package.key.signatureFormat = some signer.signatureFormat.name := by
    rw [shape]
    rfl
  have mark : package.key.signature = some signature := by
    rw [shape]
    rfl
  rw [keyStatus, resolvedOf, format, mark]
  exact valid signature made

variable (lawful : archive.engines.Lawful) (registered : signer.Registered archive.engines)
  (genuine : signer.identity.Genuine archive.engines)

include lawful registered genuine

theorem keyStatus_of_layout (layout : prepared.Layout package)
    (signs : prepared.signer = some signer) (attests : signer.Attests prepared.signed) :
    archive.keyStatus (resolvedOf prepared package) = .ok .valid := by
  have authors : signer.Authors package.record := layout.written.record ▸ attests.author
  exact keyStatus_of_check layout signs fun _ made =>
    Engines.check_of_sign lawful registered genuine authors made

end Signed

end Archive

/-- A signed package is accepted under its key, whether or not signatures on keys are verified. -/
theorem Draft.exists_tryKey_of_build {σ : Type} {draft : Draft} {identity : Identity}
    {generator : Generator σ} {state rest : σ} {package : Package} (archive : Archive)
    (lawful : archive.engines.Lawful) (author : draft.identity = some identity)
    (genuine : identity.Genuine archive.engines)
    (files : ∀ file ∈ draft.files, Record.validate file.record = .ok ())
    (few : draft.files.length + 2 < Packed.signLimit Packed.countWidth)
    (built : draft.build archive.engines generator state = .ok (package, rest))
    (short : package.body.length < Directory.positionLimit)
    (offers : archive.source.Offers package.number package.body (Record.encode package.key)) :
    ∃ prepared, draft.prepare archive.engines = .ok prepared ∧ prepared.Layout package ∧
      archive.tryKey package.number package.body.length (Record.encode package.key) =
        .ok (Archive.resolvedOf prepared package) := by
  have size : Directory.positionLimit < UInt64.size := by decide
  rcases exists_layout_of_build built (Nat.lt_trans short size) with ⟨prepared, made, layout⟩
  rcases exists_signer_of_prepare author made with ⟨signer, signs, registered, same, stored⟩
  rcases attests_of_sign files stored with ⟨carries, attests⟩
  rw [← same] at genuine
  have header := layout.written.metadata.of_records (layout.records _ List.mem_cons_self)
    (registered_of_prepare made)
  have accepted := Archive.tryKey_of_holds carries layout.written few short offers rfl header
    fun _ => Archive.keyStatus_of_layout lawful registered genuine layout signs attests
  exact ⟨prepared, made, layout, accepted⟩

/-- A scheme whose signatures repeat the key and the data. -/
def Scheme.echo : Scheme where
  name := "ECHO"
  publicKeyFormat := "echo-framed"
  seedLength := 2
  publicKey privateKey := .ok privateKey.reverse
  sign privateKey data := do return privateKey.reverse ++ (← data)
  verify publicKey data signature := do return signature == publicKey ++ (← data)

/-- A format that stores the material behind a byte of its own. -/
def Format.framed (name scheme : String) : Format where
  name := name
  scheme := scheme
  encode raw := .ok (1 :: raw)
  decode
    | 1 :: raw => .ok raw
    | _ => .error (.signature (.described "no frame"))

theorem Format.inverts_framed (name scheme : String) : (framed name scheme).Inverts := by
  intro raw stored encoded
  cases encoded
  rfl

namespace Engines

/-- The built-in ciphers and checksums, with a scheme and formats that are not built in. -/
def echoing : Engines :=
  { standard with
    schemes := ⟨"signature", [.echo]⟩
    keyFormats := ⟨"public key format", [.framed "echo-framed" "ECHO"]⟩
    signatureFormats := ⟨"signature format", [.framed "ECHO" "ECHO"]⟩ }

theorem lawful_echoing : echoing.Lawful := by
  refine ⟨?_, ?_, ?_, ?_⟩
  · intro scheme member privateKey publicKey data signature known signed
    rw [List.mem_singleton.mp member] at known signed ⊢
    cases known
    cases signed
    simp [Scheme.echo, bind, Except.bind, pure, Except.pure]
  · intro format member
    rw [List.mem_singleton.mp member]
    exact Format.inverts_framed _ _
  · intro format member
    rw [List.mem_singleton.mp member]
    exact Format.inverts_framed _ _
  · intro format member scheme _ _
    rw [List.mem_singleton.mp member]
    intro privateKey data signature _
    nofun

end Engines

/-- The sample, signed. -/
def Draft.signedSample : Draft :=
  { sample with identity := some ⟨"ECHO", [5, 6], [6, 5]⟩ }

end Missive
