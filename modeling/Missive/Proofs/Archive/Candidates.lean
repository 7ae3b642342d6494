import Missive.Proofs.Archive.Attestation
import Missive.Proofs.Archive.Corruption
import Missive.Proofs.Record.Obtainable

/-!
# Candidate keys

A source may hold several keys for one message, and anyone may have put them there.
`Archive.Accepts` says what makes a key acceptable, and the first acceptable one decides every
answer about the message (`Archive.firstAccepted_eq_ok_iff`). All the others are harmless: however
many are added, and wherever, the answers stay as they are.
-/

namespace Missive

theorem map_some_eq_ok_iff {ε α : Type} {step : Except ε α} {result : α} :
    step.map some = .ok (some result) ↔ step = .ok result := by
  cases step <;> simp [Except.map]

theorem mapM_eq_ok_iff {ε α β : Type} {step : α → Except ε β} {items : List α}
    {results : List β} :
    items.mapM step = .ok results ↔
      List.Forall₂ (fun item result => step item = .ok result) items results := by
  refine ⟨forall₂_of_mapM, ?_⟩
  intro pairs
  induction pairs with
  | nil => rfl
  | cons first _ ih =>
      rw [List.mapM_cons, first, ih]
      rfl

/-- A list with further items of one kind, put in anywhere. -/
inductive Interspersed {α : Type} (kind : α → Prop) : (fewer more : List α) → Prop
  | nil : Interspersed kind [] []
  | keep (item : α) {fewer more : List α} (rest : Interspersed kind fewer more) :
    Interspersed kind (item :: fewer) (item :: more)
  | add {item : α} (added : kind item) {fewer more : List α}
    (rest : Interspersed kind fewer more) : Interspersed kind fewer (item :: more)

namespace Archive

variable {archive : Archive} {number : UInt64} {bodyLength : Nat} {candidate : Bytes}
  {candidates : List Bytes} {resolved : Resolved} {lastError : Error}

/-! ### What is acceptable -/

/--
A candidate under which a message can be read: a valid key whose sections lie in the body, with a
metadata section that can be read and holds the records of the message and of its files. The
checksum of this section counts in any case, a signature on the key only if the settings say so.
-/
structure Accepts (archive : Archive) (number : UInt64) (bodyLength : Nat) (candidate : Bytes)
    (resolved : Resolved) : Prop where
  key : Record.decode candidate = .ok resolved.key
  inside : ∀ described ∈ resolved.key.sections,
    described.stop < UInt64.size ∧ described.stop ≤ bodyLength
  metadata : ∃ packed fileBytes,
    (archive.reader number).readAll true metadataLabel resolved.key.metadata = .ok packed ∧
    Packed.unpack packed = .ok (resolved.recordBytes :: resolved.signature :: fileBytes) ∧
    fileBytes.length = resolved.key.files.length ∧
    List.Forall₂ (fun bytes record => Record.decode bytes = .ok record) fileBytes resolved.files
  record : Record.decode resolved.recordBytes = .ok resolved.record
  number : resolved.record.number = number
  author : archive.settings.verifyKeySignature = true → archive.keyStatus resolved = .ok .valid

/-- A candidate under which the message can be read somehow. -/
def Acceptable (archive : Archive) (number : UInt64) (bodyLength : Nat) (candidate : Bytes) :
    Prop :=
  ∃ resolved, archive.Accepts number bodyLength candidate resolved

/-- There are as many records as files. -/
theorem Accepts.length_files (accepts : archive.Accepts number bodyLength candidate resolved) :
    resolved.key.files.length = resolved.files.length := by
  rcases accepts.metadata with ⟨_, fileBytes, _, _, counted, records⟩
  rw [← counted, records.length_eq]

theorem recordsOf_eq_ok_iff {count : Nat} {blobs : List Bytes} {record : MessageRecord}
    {recordBytes signature : Bytes} {files : List FileRecord} :
    recordsOf number count blobs = .ok (record, recordBytes, signature, files) ↔
      ∃ fileBytes, blobs = recordBytes :: signature :: fileBytes ∧ fileBytes.length = count ∧
        List.Forall₂ (fun bytes file => Record.decode bytes = .ok file) fileBytes files ∧
        Record.decode recordBytes = .ok record ∧ record.number = number := by
  constructor
  · intro known
    rcases blobs with _ | ⟨first, _ | ⟨second, fileBytes⟩⟩
    · cases known
    · cases known
    · rw [recordsOf, guard_eq_ok_iff, Decidable.not_not] at known
      rcases known with ⟨counted, known⟩
      rcases bind_eq_ok_iff.mp known with ⟨found, decoded, known⟩
      rw [guard_eq_ok_iff, Decidable.not_not] at known
      rcases known with ⟨numbered, known⟩
      rcases bind_eq_ok_iff.mp known with ⟨others, read, known⟩
      cases known
      exact ⟨fileBytes, rfl, counted, mapM_eq_ok_iff.mp read, decoded, numbered⟩
  · rintro ⟨fileBytes, rfl, counted, read, decoded, numbered⟩
    simp only [recordsOf, counted, decoded, numbered, mapM_eq_ok_iff.mpr read, ne_eq,
      not_true_eq_false, if_false, bind, Except.bind, pure, Except.pure]

theorem checkWithin_eq_ok_iff {key : PackageKey} :
    key.checkWithin bodyLength = .ok () ↔ ∀ described ∈ key.sections,
      described.stop < UInt64.size ∧ described.stop ≤ bodyLength := by
  rw [PackageKey.checkWithin, forM_eq_ok_iff]
  exact forall₂_congr fun described _ => Section.checkWithin_eq_ok_iff

theorem tryKey_eq_ok_iff :
    archive.tryKey number bodyLength candidate = .ok resolved ↔
      archive.Accepts number bodyLength candidate resolved := by
  constructor
  · intro known
    rcases bind_eq_ok_iff.mp known with ⟨key, decoded, known⟩
    rcases bind_unit_eq_ok_iff.mp known with ⟨within, known⟩
    rcases bind_eq_ok_iff.mp known with ⟨packed, read, known⟩
    rcases bind_eq_ok_iff.mp known with ⟨blobs, unpacked, known⟩
    rcases bind_eq_ok_iff.mp known with ⟨⟨record, bytes, signature, files⟩, records, final⟩
    rcases recordsOf_eq_ok_iff.mp records
      with ⟨fileBytes, rfl, counted, others, first, numbered⟩
    obtain ⟨rfl, author⟩ : resolved = ⟨key, record, bytes, signature, files⟩ ∧
        (archive.settings.verifyKeySignature = true →
          archive.keyStatus ⟨key, record, bytes, signature, files⟩ = .ok .valid) := by
      dsimp only at final
      by_cases wanted : archive.settings.verifyKeySignature = true
      · rw [if_pos wanted] at final
        rcases bind_eq_ok_iff.mp final with ⟨status, found, final⟩
        rw [guard_eq_ok_iff, Decidable.not_not] at final
        rcases final with ⟨rfl, final⟩
        cases final
        exact ⟨rfl, fun _ => found⟩
      · rw [if_neg wanted] at final
        cases final
        exact ⟨rfl, fun claimed => absurd claimed wanted⟩
    exact ⟨decoded, checkWithin_eq_ok_iff.mp within, ⟨packed, fileBytes, read, unpacked, counted,
      others⟩, first, numbered, author⟩
  · rintro ⟨decoded, inside, ⟨packed, fileBytes, read, unpacked, counted, others⟩, first, numbered,
      author⟩
    have records : recordsOf number resolved.key.files.length
        (resolved.recordBytes :: resolved.signature :: fileBytes) =
          .ok (resolved.record, resolved.recordBytes, resolved.signature, resolved.files) :=
      recordsOf_eq_ok_iff.mpr ⟨fileBytes, rfl, counted, others, first, numbered⟩
    simp only [tryKey, decoded, checkWithin_eq_ok_iff.mpr inside, read, unpacked, records, bind,
      Except.bind, pure, Except.pure]
    by_cases wanted : archive.settings.verifyKeySignature = true
    · have status := author wanted
      simp only [wanted, if_true, status, ne_eq, not_true_eq_false, if_false]
    · rw [if_neg wanted]

theorem exists_tryKey_error (refused : ¬archive.Acceptable number bodyLength candidate) :
    ∃ error, archive.tryKey number bodyLength candidate = .error error := by
  cases tried : archive.tryKey number bodyLength candidate with
  | ok resolved => exact absurd ⟨resolved, tryKey_eq_ok_iff.mp tried⟩ refused
  | error error => exact ⟨error, rfl⟩

/-! ### The first acceptable candidate -/

theorem firstAccepted_of_accepts {front back : List Bytes}
    (refused : ∀ earlier ∈ front, ¬archive.Acceptable number bodyLength earlier)
    (accepts : archive.Accepts number bodyLength candidate resolved) :
    archive.firstAccepted number bodyLength lastError (front ++ candidate :: back) =
      .ok resolved := by
  induction front generalizing lastError with
  | nil => simp only [List.nil_append, firstAccepted, tryKey_eq_ok_iff.mpr accepts]
  | cons earlier front ih =>
      rw [List.forall_mem_cons] at refused
      rcases exists_tryKey_error refused.1 with ⟨error, tried⟩
      simp only [List.cons_append, firstAccepted, tried]
      exact ih refused.2

/-- Without an acceptable candidate, the error is that of the last one. -/
theorem exists_firstAccepted_error
    (refused : ∀ candidate ∈ candidates, ¬archive.Acceptable number bodyLength candidate) :
    ∃ error, archive.firstAccepted number bodyLength lastError candidates = .error error ∧
      (candidates = [] → error = lastError) ∧
      ∀ last ∈ candidates.getLast?, archive.tryKey number bodyLength last = .error error := by
  induction candidates generalizing lastError with
  | nil => exact ⟨lastError, rfl, fun _ => rfl, nofun⟩
  | cons candidate candidates ih =>
      rw [List.forall_mem_cons] at refused
      rcases exists_tryKey_error refused.1 with ⟨first, tried⟩
      rcases @ih first refused.2 with ⟨error, failed, alone, final⟩
      refine ⟨error, ?_, nofun, ?_⟩
      · simp only [firstAccepted, tried]
        exact failed
      · intro last member
        cases candidates with
        | nil =>
            cases member
            rw [alone rfl]
            exact tried
        | cons next others =>
            rw [List.getLast?_cons_cons] at member
            exact final last member

/-- The first acceptable candidate decides, and there is one if any candidate is taken. -/
theorem firstAccepted_eq_ok_iff :
    archive.firstAccepted number bodyLength lastError candidates = .ok resolved ↔
      ∃ front candidate back, candidates = front ++ candidate :: back ∧
        (∀ earlier ∈ front, ¬archive.Acceptable number bodyLength earlier) ∧
        archive.Accepts number bodyLength candidate resolved := by
  constructor
  · intro accepted
    induction candidates generalizing lastError with
    | nil => cases accepted
    | cons candidate candidates ih =>
        rw [firstAccepted] at accepted
        split at accepted
        · rename_i tried
          cases accepted
          exact ⟨[], candidate, candidates, rfl, List.forall_mem_nil _, tryKey_eq_ok_iff.mp tried⟩
        · rename_i error tried
          rcases ih accepted with ⟨front, winner, back, rfl, refused, accepts⟩
          refine ⟨candidate :: front, winner, back, rfl, ?_, accepts⟩
          rw [List.forall_mem_cons]
          refine ⟨?_, refused⟩
          rintro ⟨other, claimed⟩
          rw [tryKey_eq_ok_iff.mpr claimed] at tried
          cases tried
  · rintro ⟨front, candidate, back, rfl, refused, accepts⟩
    exact firstAccepted_of_accepts refused accepts

/-- Unacceptable candidates, wherever they are put in, leave the choice as it is. -/
theorem firstAccepted_of_interspersed {more : List Bytes} {otherError : Error}
    (added : Interspersed (¬archive.Acceptable number bodyLength ·) candidates more)
    (found : ∃ candidate ∈ candidates, archive.Acceptable number bodyLength candidate) :
    archive.firstAccepted number bodyLength lastError candidates =
      archive.firstAccepted number bodyLength otherError more := by
  induction added generalizing lastError otherError with
  | nil => simp at found
  | keep candidate _ ih =>
      simp only [firstAccepted]
      by_cases accepted : archive.Acceptable number bodyLength candidate
      · rcases accepted with ⟨resolved, accepts⟩
        simp only [tryKey_eq_ok_iff.mpr accepts]
      · rcases exists_tryKey_error accepted with ⟨error, tried⟩
        rw [List.exists_mem_cons_iff] at found
        simp only [tried]
        exact ih (found.resolve_left accepted)
  | add refused _ ih =>
      rcases exists_tryKey_error refused with ⟨error, tried⟩
      simp only [firstAccepted, tried]
      exact ih found

/-! ### Answers -/

/-- Every question about a message is answered from one key and the records found with it. -/
structure AnswersFrom (archive : Archive) (number : UInt64) (resolved : Resolved) : Prop where
  key : archive.key number = .ok (some resolved.key)
  record : archive.record number = .ok (some resolved.record)
  files : archive.files number = .ok (some resolved.listing)
  file : ∀ path,
    archive.file number path = .ok (resolved.listing.find? fun file => file.path = path)
  content : ∀ path, archive.content number path =
    (resolved.key.files.find? fun file => file.path = path).mapM fun file =>
      (archive.reader number).readAll archive.settings.verifyChecksums file.path file.content
  chunk : ∀ path offset length, archive.chunk number path offset length =
    (resolved.key.files.find? fun file => file.path = path).mapM fun file =>
      (archive.reader number).readRange file.content offset length
  verify : archive.verify number = (archive.report number resolved).map some

theorem key_of_report {status : SignatureStatus} {result : VerificationReport}
    (known : archive.keyStatus resolved = .ok status)
    (reported : archive.report number resolved = .ok result) : result.key = status := by
  rcases bind_eq_ok_iff.mp reported with ⟨key, found, reported⟩
  rcases bind_eq_ok_iff.mp reported with ⟨record, _, reported⟩
  rcases bind_eq_ok_iff.mp reported with ⟨files, _, reported⟩
  rw [known] at found
  cases found
  cases reported
  rfl

theorem withFile_of_resolve {α : Type} (found : archive.resolve number = .ok (some resolved))
    (path : String) (read : FileSection → Except Error α) :
    archive.withFile number path read =
      (resolved.key.files.find? fun file => file.path = path).mapM read := by
  cases listed : resolved.key.files.find? fun file => file.path = path with
  | none => exact withFile_of_find?_eq_none found listed read
  | some file =>
      rw [withFile_of_find? found listed, option_mapM_eq]

theorem answersFrom_of_resolve (found : archive.resolve number = .ok (some resolved)) :
    archive.AnswersFrom number resolved := by
  refine ⟨?_, ?_, ?_, ?_, fun path => withFile_of_resolve found path _,
    fun path _ _ => withFile_of_resolve found path _, verify_of_resolve found⟩
  · rw [Archive.key, found]
    rfl
  · rw [record, found]
    rfl
  · rw [files, found]
    rfl
  · intro path
    rw [file, found]
    rfl

/-! ### Other candidates -/

/-- The archive over a source that has other candidates for one message. -/
def withCandidates (archive : Archive) (number : UInt64) (candidates : List Bytes) : Archive :=
  { archive with
    source := { archive.source with
      candidates := fun other =>
        if other = number then .ok candidates else archive.source.candidates other } }

/-- Two archives that answer every question about a message alike. -/
structure SameAnswers (archive other : Archive) (number : UInt64) : Prop where
  key : archive.key number = other.key number
  record : archive.record number = other.record number
  files : archive.files number = other.files number
  file : ∀ path, archive.file number path = other.file number path
  content : ∀ path, archive.content number path = other.content number path
  chunk : ∀ path offset length,
    archive.chunk number path offset length = other.chunk number path offset length
  verify : archive.verify number = other.verify number

theorem firstAccepted_withCandidates (others : List Bytes) :
    (archive.withCandidates number others).firstAccepted number bodyLength lastError candidates =
      archive.firstAccepted number bodyLength lastError candidates := by
  induction candidates generalizing lastError with
  | nil => rfl
  | cons candidate candidates ih =>
      -- Only bodies are read to try a candidate, so the two archives try it alike.
      have same : (archive.withCandidates number others).tryKey number bodyLength candidate =
          archive.tryKey number bodyLength candidate := rfl
      simp only [firstAccepted, same]
      cases archive.tryKey number bodyLength candidate with
      | ok resolved => rfl
      | error error => exact ih

theorem resolve_of_candidates (listed : archive.history.contains number = true)
    (stored : archive.source.bodyLength number = .ok (some bodyLength))
    (offered : archive.source.candidates number = .ok candidates) :
    archive.resolve number =
      (archive.firstAccepted number bodyLength (.format (.noKey number)) candidates).map some := by
  simp only [resolve, listed, stored, offered, Bool.true_eq_false, if_false, bind, Except.bind,
    pure, Except.pure]
  cases archive.firstAccepted number bodyLength (.format (.noKey number)) candidates <;> rfl

theorem resolve_withCandidates (listed : archive.history.contains number = true)
    (stored : archive.source.bodyLength number = .ok (some bodyLength)) :
    (archive.withCandidates number candidates).resolve number =
      (archive.firstAccepted number bodyLength (.format (.noKey number)) candidates).map some := by
  rw [← firstAccepted_withCandidates candidates]
  exact resolve_of_candidates listed stored (if_pos rfl)

theorem sameAnswers_of_resolve
    (same : archive.resolve number = (archive.withCandidates number candidates).resolve number) :
    archive.SameAnswers (archive.withCandidates number candidates) number := by
  constructor
  · rw [Archive.key, same]
    rfl
  · rw [record, same]
    rfl
  · rw [files, same]
    rfl
  · intro path
    rw [file, same]
    rfl
  · intro path
    rw [content, withFile, same]
    rfl
  · intro path offset length
    rw [chunk, withFile, same]
    rfl
  · rw [verify, same]
    rfl

/--
The first acceptable candidate answers, as if it were alone. Without one, every question is
answered by the error of the last candidate. Unacceptable candidates change nothing as long as
there is an acceptable one; and where signatures on keys are verified, no answer comes from a key
whose signature is not valid.
-/
theorem answers_of_candidates (listed : archive.history.contains number = true)
    (stored : archive.source.bodyLength number = .ok (some bodyLength))
    (offered : archive.source.candidates number = .ok candidates) :
    (∀ front candidate back resolved, candidates = front ++ candidate :: back →
      (∀ earlier ∈ front, ¬archive.Acceptable number bodyLength earlier) →
      archive.Accepts number bodyLength candidate resolved →
        archive.AnswersFrom number resolved ∧
        archive.SameAnswers (archive.withCandidates number [candidate]) number) ∧
    ((∀ candidate ∈ candidates, ¬archive.Acceptable number bodyLength candidate) →
      ∃ error, archive.Fails number error ∧
        (candidates = [] → error = .format (.noKey number)) ∧
        ∀ last ∈ candidates.getLast?, archive.tryKey number bodyLength last = .error error) ∧
    (∀ more, Interspersed (¬archive.Acceptable number bodyLength ·) candidates more →
      (∃ candidate ∈ candidates, archive.Acceptable number bodyLength candidate) →
        archive.SameAnswers (archive.withCandidates number more) number) ∧
    (archive.settings.verifyKeySignature = true →
      (∃ error, archive.Fails number error) ∨
      ∃ resolved, archive.AnswersFrom number resolved ∧
        archive.keyStatus resolved = .ok .valid ∧
        ∀ report, archive.verify number = .ok (some report) → report.key = .valid) := by
  have resolves := resolve_of_candidates listed stored offered
  refine ⟨?_, ?_, ?_, ?_⟩
  · rintro front candidate back resolved rfl refused accepts
    have alone : archive.firstAccepted number bodyLength (.format (.noKey number)) [candidate] =
        .ok resolved := @firstAccepted_of_accepts _ _ _ _ _ _ [] [] nofun accepts
    rw [firstAccepted_of_accepts refused accepts] at resolves
    refine ⟨answersFrom_of_resolve resolves, sameAnswers_of_resolve ?_⟩
    rw [resolves, resolve_withCandidates listed stored, alone]
  · intro refused
    rcases exists_firstAccepted_error refused with ⟨error, failed, none, last⟩
    rw [failed] at resolves
    exact ⟨error, fails_of_resolve resolves, none, last⟩
  · intro more added found
    apply sameAnswers_of_resolve
    rw [resolves, resolve_withCandidates listed stored]
    exact congrArg (Except.map some) (firstAccepted_of_interspersed added found)
  · intro wanted
    cases chosen : archive.firstAccepted number bodyLength (.format (.noKey number)) candidates with
    | error error =>
        rw [chosen] at resolves
        exact .inl ⟨error, fails_of_resolve resolves⟩
    | ok resolved =>
        rw [chosen] at resolves
        rcases firstAccepted_eq_ok_iff.mp chosen with ⟨_, _, _, _, _, accepts⟩
        have valid := accepts.author wanted
        have answers := answersFrom_of_resolve resolves
        refine .inr ⟨resolved, answers, valid, ?_⟩
        intro report verified
        rw [answers.verify] at verified
        exact key_of_report valid (map_some_eq_ok_iff.mp verified)

/-- A key without a signature is not accepted where signatures on keys are verified. -/
theorem not_acceptable_unsigned {key : PackageKey} (valid : Record.validate key.unsigned = .ok ())
    (wanted : archive.settings.verifyKeySignature = true) :
    ¬archive.Acceptable number bodyLength (Record.encode key.unsigned) := by
  rintro ⟨resolved, accepts⟩
  have decoded := accepts.key
  rw [PackageKey.decode_encode valid] at decoded
  have status := accepts.author wanted
  rw [keyStatus, ← Except.ok.inj decoded] at status
  cases status

/-- The third of three candidates answers, also without the other two. -/
theorem answers_of_candidates_copies :
    ∃ package rest,
      Draft.signedSample.build .echoing ⟨fun byte => (byte, byte + 1)⟩ 0 = .ok (package, rest) ∧
      ∃ archive : Archive, archive.history.contains package.number = true ∧
      archive.source.bodyLength package.number = .ok (some package.body.length) ∧
      archive.source.candidates package.number =
        .ok [[], Record.encode package.key.unsigned, Record.encode package.key] ∧
      archive.settings.verifyKeySignature = true ∧
      archive.key package.number = .ok (some package.key) ∧
      archive.SameAnswers (archive.withCandidates package.number [Record.encode package.key])
        package.number := by
  have genuine : Identity.Genuine ⟨"ECHO", [5, 6], [6, 5]⟩ .echoing := by
    refine ⟨.echo, [5, 6], rfl, ?_⟩
    intro registered found
    exact List.mem_singleton.mp (List.mem_of_find?_eq_some found)
  have built : (Draft.signedSample.build .echoing ⟨fun byte => (byte, byte + 1)⟩
      (0 : UInt8)).toOption.map (fun outcome => outcome.1.body.length) = some 736 := by
    decide +kernel
  rcases Option.map_eq_some_iff.mp built with ⟨⟨package, rest⟩, known, length⟩
  have written := eq_ok_of_toOption known
  let single : Archive := ⟨(MemoryStore.empty.insertPackage package).source,
    .ofNumbers [package.number], .echoing, { verifyKeySignature := true }⟩
  let archive := single.withCandidates package.number
    [[], Record.encode package.key.unsigned, Record.encode package.key]
  have listed : archive.history.contains package.number = true :=
    History.contains_ofNumbers.mpr (List.mem_singleton.mpr rfl)
  have stored : archive.source.bodyLength package.number = .ok (some package.body.length) :=
    (MemoryStore.empty.offers_insertPackage package).bodyLength
  have offered : archive.source.candidates package.number =
      .ok [[], Record.encode package.key.unsigned, Record.encode package.key] := if_pos rfl
  have short : package.body.length < Directory.positionLimit := by
    rw [length]
    decide
  rcases Draft.exists_tryKey_of_build single Engines.lawful_echoing rfl genuine (by decide)
      (by decide) written short (MemoryStore.empty.offers_insertPackage package)
      with ⟨prepared, _, layout, tried⟩
  have valid : Record.validate package.key.unsigned = .ok () :=
    PackageKey.validate_unsigned layout.written.valid
  have refused : ∀ candidate ∈ [[], Record.encode package.key.unsigned],
      ¬archive.Acceptable package.number package.body.length candidate := by
    rw [List.forall_mem_cons, List.forall_mem_singleton]
    refine ⟨?_, not_acceptable_unsigned valid rfl⟩
    rintro ⟨other, accepts⟩
    have decoded := accepts.key
    cases decoded
  rcases (answers_of_candidates listed stored offered).1 [[], Record.encode package.key.unsigned]
      (Record.encode package.key) [] _ rfl refused (tryKey_eq_ok_iff.mp tried)
      with ⟨answers, alone⟩
  exact ⟨package, rest, written, archive, listed, stored, offered, rfl, answers.key, alone⟩

end Archive

end Missive
