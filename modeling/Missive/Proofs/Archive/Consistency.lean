import Missive.Proofs.Archive.Candidates

/-!
# One story about a message

All questions about a message are answered from one accepted key and the records that were found
with it. Files and records are kept in two lists, and what holds them together is established
when the key is accepted: there are as many records as files, and no two files share a path. So
whatever is stored, the answers fit together (`Archive.one_story`).
-/

namespace Missive

namespace Archive

variable {archive : Archive} {number : UInt64} {resolved : Resolved}

/-- Every question about a message is answered by nothing. -/
structure Silent (archive : Archive) (number : UInt64) : Prop where
  key : archive.key number = .ok none
  record : archive.record number = .ok none
  files : archive.files number = .ok none
  file : ∀ path, archive.file number path = .ok none
  content : ∀ path, archive.content number path = .ok none
  chunk : ∀ path offset length, archive.chunk number path offset length = .ok none
  verify : archive.verify number = .ok none

/-- Some stored key of a message is acceptable. -/
def HasKey (archive : Archive) (number : UInt64) : Prop :=
  ∃ bodyLength candidates, archive.source.bodyLength number = .ok (some bodyLength) ∧
    archive.source.candidates number = .ok candidates ∧
    ∃ candidate ∈ candidates, archive.Acceptable number bodyLength candidate

/--
Answers about a message that fit together: the listing follows the key, file by file, with the
records of the metadata section in their order; and files are there for their own paths only.
-/
structure Consistent (archive : Archive) (number : UInt64) (accepted : PackageKey)
    (listing : List FileInfo) : Prop where
  key : archive.key number = .ok (some accepted)
  files : archive.files number = .ok (some listing)
  places : listing.map (fun info => (info.path, info.size)) =
    accepted.files.map fun file => (file.path, file.content.length)
  distinct : (listing.map FileInfo.path).Nodup
  metadata : ∃ record packed recordBytes signature fileBytes,
    archive.record number = .ok (some record) ∧
    (archive.reader number).readAll true metadataLabel accepted.metadata = .ok packed ∧
    Packed.unpack packed = .ok (recordBytes :: signature :: fileBytes) ∧
    Record.decode recordBytes = .ok record ∧
    List.Forall₂ (fun bytes info => Record.decode bytes = .ok info.record) fileBytes listing
  file : ∀ info ∈ listing, archive.file number info.path = .ok (some info)
  absent : ∀ path ∉ listing.map FileInfo.path, archive.file number path = .ok none
  content : ∀ path, archive.content number path = .ok none ↔ path ∉ listing.map FileInfo.path
  chunk : ∀ path offset length,
    archive.chunk number path offset length = .ok none ↔ path ∉ listing.map FileInfo.path
  verify : archive.verify number ≠ .ok none
  report : ∀ report, archive.verify number = .ok (some report) →
    report.files.map Prod.fst = listing.map FileInfo.path

/-! ### Messages without an accepted key -/

theorem resolve_eq_ok_none_iff :
    archive.resolve number = .ok none ↔ archive.history.contains number = false := by
  constructor
  · intro nothing
    cases listed : archive.history.contains number with
    | false => rfl
    | true =>
        simp only [resolve, listed, Bool.true_eq_false, if_false] at nothing
        rcases bind_eq_ok_iff.mp nothing with ⟨length, _, nothing⟩
        cases length with
        | none => cases nothing
        | some length =>
            rcases bind_eq_ok_iff.mp nothing with ⟨candidates, _, nothing⟩
            rcases bind_eq_ok_iff.mp nothing with ⟨first, _, nothing⟩
            cases nothing
  · intro unlisted
    simp only [resolve, unlisted, if_true, pure, Except.pure]

theorem silent_of_resolve (nothing : archive.resolve number = .ok none) :
    archive.Silent number := by
  constructor
  · simp only [Archive.key, nothing]
    rfl
  · simp only [record, nothing]
    rfl
  · simp only [files, nothing]
    rfl
  · intro path
    simp only [file, nothing]
    rfl
  · intro path
    simp only [content, withFile, nothing]
    rfl
  · intro path offset length
    simp only [chunk, withFile, nothing]
    rfl
  · simp only [verify, nothing]
    rfl

theorem resolve_eq_ok_some_iff :
    archive.resolve number = .ok (some resolved) ↔ archive.history.contains number = true ∧
      ∃ bodyLength candidates, archive.source.bodyLength number = .ok (some bodyLength) ∧
        archive.source.candidates number = .ok candidates ∧
        archive.firstAccepted number bodyLength (.format (.noKey number)) candidates =
          .ok resolved := by
  constructor
  · intro found
    rw [resolve] at found
    split at found
    · cases found
    · rename_i listed
      rw [Bool.not_eq_false] at listed
      rcases bind_eq_ok_iff.mp found with ⟨length, stored, found⟩
      cases length with
      | none => cases found
      | some length =>
          rcases bind_eq_ok_iff.mp found with ⟨candidates, offered, found⟩
          rcases bind_eq_ok_iff.mp found with ⟨first, accepted, found⟩
          cases found
          exact ⟨listed, length, candidates, stored, offered, accepted⟩
  · rintro ⟨listed, bodyLength, candidates, stored, offered, accepted⟩
    rw [resolve_of_candidates listed stored offered, accepted]
    rfl

theorem exists_firstAccepted_ok {bodyLength : Nat} {lastError : Error} {candidates : List Bytes}
    (acceptable : ∃ candidate ∈ candidates, archive.Acceptable number bodyLength candidate) :
    ∃ resolved, archive.firstAccepted number bodyLength lastError candidates = .ok resolved := by
  induction candidates generalizing lastError with
  | nil => simp at acceptable
  | cons candidate candidates ih =>
      rw [List.exists_mem_cons_iff] at acceptable
      rw [firstAccepted]
      cases tried : archive.tryKey number bodyLength candidate with
      | ok resolved => exact ⟨resolved, rfl⟩
      | error error =>
          apply ih
          apply acceptable.resolve_left
          rintro ⟨resolved, accepts⟩
          rw [tryKey_eq_ok_iff.mpr accepts] at tried
          cases tried

theorem hasKey_iff (listed : archive.history.contains number = true) :
    archive.HasKey number ↔ ∃ resolved, archive.resolve number = .ok (some resolved) := by
  constructor
  · rintro ⟨bodyLength, candidates, stored, offered, acceptable⟩
    rcases exists_firstAccepted_ok acceptable with ⟨resolved, chosen⟩
    exact ⟨resolved, resolve_eq_ok_some_iff.mpr
      ⟨listed, bodyLength, candidates, stored, offered, chosen⟩⟩
  · rintro ⟨resolved, found⟩
    rcases resolve_eq_ok_some_iff.mp found with ⟨_, bodyLength, candidates, stored, offered, chosen⟩
    rcases firstAccepted_eq_ok_iff.mp chosen with ⟨front, candidate, back, rfl, _, accepts⟩
    exact ⟨bodyLength, _, stored, offered, candidate, by simp, resolved, accepts⟩

/-! ### Messages with an accepted key -/

theorem exists_accepts_of_resolve (found : archive.resolve number = .ok (some resolved)) :
    ∃ bodyLength candidate, archive.Accepts number bodyLength candidate resolved := by
  rcases resolve_eq_ok_some_iff.mp found with ⟨_, bodyLength, _, _, _, chosen⟩
  rcases firstAccepted_eq_ok_iff.mp chosen with ⟨_, candidate, _, _, _, accepts⟩
  exact ⟨bodyLength, candidate, accepts⟩

theorem Accepts.nodup_paths {bodyLength : Nat} {candidate : Bytes}
    (accepts : archive.Accepts number bodyLength candidate resolved) :
    (resolved.key.files.map FileSection.path).Nodup := by
  have valid := Record.validate_of_decode accepts.key
  have paths := (PackageKey.validate_eq_ok_iff.mp valid).2.1
  exact (Path.validateAll_eq_ok_iff.mp paths).2

theorem withFile_eq_none_iff {α : Type} {path : String} {read : FileSection → Except Error α}
    (found : archive.resolve number = .ok (some resolved)) :
    archive.withFile number path read = .ok none ↔
      path ∉ resolved.key.files.map FileSection.path := by
  rw [withFile_of_resolve found]
  cases listed : resolved.key.files.find? fun file => file.path = path with
  | none =>
      rw [List.find?_eq_none] at listed
      have absent : path ∉ resolved.key.files.map FileSection.path := by
        simpa using listed
      exact iff_of_true rfl absent
  | some file =>
      have there := List.mem_of_find?_eq_some listed
      have named := List.find?_some listed
      have member : path ∈ resolved.key.files.map FileSection.path := by
        rw [← of_decide_eq_true named]
        exact List.mem_map_of_mem there
      rw [option_mapM_eq]
      cases read file with
      | error error => simpa [Except.map] using member
      | ok value => simpa [Except.map] using member

theorem paths_of_mapM_fileStatus {pairs : List (FileSection × FileRecord)}
    {entries : List (String × SignatureStatus)}
    (checked : pairs.mapM (fun (file, record) => archive.fileStatus resolved number file record) =
      .ok entries) : entries.map Prod.fst = pairs.map (FileSection.path ∘ Prod.fst) := by
  have related := mapM_eq_ok_iff.mp checked
  clear checked
  induction related with
  | nil => rfl
  | cons given _ ih =>
      rcases bind_eq_ok_iff.mp given with ⟨plaintext, _, given⟩
      rcases bind_eq_ok_iff.mp given with ⟨status, _, given⟩
      cases given
      simp [ih]

theorem paths_of_report {report : VerificationReport}
    (aligned : resolved.key.files.length = resolved.files.length)
    (reported : archive.report number resolved = .ok report) :
    report.files.map Prod.fst = resolved.key.files.map FileSection.path := by
  rcases bind_eq_ok_iff.mp reported with ⟨key, _, reported⟩
  rcases bind_eq_ok_iff.mp reported with ⟨record, _, reported⟩
  rcases bind_eq_ok_iff.mp reported with ⟨files, checked, reported⟩
  cases reported
  have stored := List.map_fst_zip (Nat.le_of_eq aligned)
  conv_rhs => rw [← stored, List.map_map]
  exact paths_of_mapM_fileStatus checked

theorem consistent_of_resolve (found : archive.resolve number = .ok (some resolved)) :
    archive.Consistent number resolved.key resolved.listing := by
  rcases exists_accepts_of_resolve found with ⟨bodyLength, candidate, accepts⟩
  have answers := answersFrom_of_resolve found
  have aligned := accepts.length_files
  have paths := Resolved.map_path_listing aligned
  have distinct : (resolved.listing.map FileInfo.path).Nodup := by
    rw [paths]
    exact accepts.nodup_paths
  refine ⟨answers.key, answers.files, Resolved.map_place_listing aligned, distinct, ?_, ?_, ?_, ?_,
    ?_, ?_, ?_⟩
  · rcases accepts.metadata with ⟨packed, fileBytes, read, unpacked, _, records⟩
    refine ⟨resolved.record, packed, _, _, fileBytes, answers.record, read, unpacked,
      accepts.record, ?_⟩
    rw [← Resolved.map_record_listing aligned, List.forall₂_map_right_iff] at records
    exact records
  · intro info member
    rw [answers.file, find?_of_nodup distinct member]
  · intro path absent
    have unlisted : ∀ info ∈ resolved.listing, ¬info.path = path := by
      simpa using absent
    rw [answers.file, List.find?_eq_none.mpr (by simpa using unlisted)]
  · intro path
    rw [paths]
    exact withFile_eq_none_iff found
  · intro path offset length
    rw [paths]
    exact withFile_eq_none_iff found
  · rw [answers.verify]
    cases archive.report number resolved <;> simp [Except.map]
  · intro report verified
    rw [answers.verify, map_some_eq_ok_iff] at verified
    rw [paths]
    exact paths_of_report aligned verified

/--
Whatever a source holds, the answers about a message fit together: there are none if the message
is not in the history, one error answers everything if no key is accepted, and under an accepted
key the key, the listing, the files and the report tell of the same files in the same order.
-/
theorem one_story (archive : Archive) (number : UInt64) :
    (archive.history.contains number = false → archive.Silent number) ∧
    (archive.history.contains number = true → ¬archive.HasKey number →
      ∃ error, archive.Fails number error) ∧
    (archive.history.contains number = true → archive.HasKey number →
      ∃ key listing, archive.Consistent number key listing) := by
  refine ⟨?_, ?_, ?_⟩
  · intro unlisted
    exact silent_of_resolve (resolve_eq_ok_none_iff.mpr unlisted)
  · intro listed none
    rw [hasKey_iff listed] at none
    cases found : archive.resolve number with
    | error error => exact ⟨error, fails_of_resolve found⟩
    | ok answer =>
        cases answer with
        | some resolved => exact absurd ⟨resolved, found⟩ none
        | none =>
            rw [resolve_eq_ok_none_iff] at found
            rw [listed] at found
            cases found
  · intro listed accepted
    rcases (hasKey_iff listed).mp accepted with ⟨resolved, found⟩
    exact ⟨resolved.key, resolved.listing, consistent_of_resolve found⟩

/-- A message with one file, the same message with no more than an empty key, and no message. -/
theorem one_story_overlap :
    Overlap.archive.history.contains 7 = true ∧ Overlap.archive.HasKey 7 ∧
      (∃ key listing, Overlap.archive.Consistent 7 key listing) ∧
      ¬(Overlap.archive.withCandidates 7 [[]]).HasKey 7 ∧
      (∃ error, (Overlap.archive.withCandidates 7 [[]]).Fails 7 error) ∧
      Overlap.archive.history.contains 8 = false ∧ Overlap.archive.Silent 8 := by
  have listed : Overlap.archive.history.contains 7 = true := by decide
  have unlisted : Overlap.archive.history.contains 8 = false := by decide
  have accepted : Overlap.archive.HasKey 7 := by
    rcases exists_of_withFile Overlap.content_archive with ⟨resolved, _, _, found, _, _⟩
    exact (hasKey_iff listed).mpr ⟨resolved, found⟩
  have refused : ¬(Overlap.archive.withCandidates 7 [[]]).HasKey 7 := by
    rintro ⟨bodyLength, candidates, _, offered, candidate, member, resolved, accepts⟩
    cases offered
    rw [List.mem_singleton] at member
    subst member
    have decoded := accepts.key
    cases decoded
  exact ⟨listed, accepted, (one_story _ 7).2.2 listed accepted, refused,
    (one_story _ 7).2.1 listed refused, unlisted, (one_story _ 8).1 unlisted⟩

end Archive

end Missive
