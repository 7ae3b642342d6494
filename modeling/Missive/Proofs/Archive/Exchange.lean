import Mathlib.Data.List.Sort
import Missive.Proofs.Archive.Candidates

/-!
# The same messages in another place

An archive asks three things of its source about a message: the candidate keys, the length of the
body, and the bytes of the body from positions within it. Where the source is exchanged for one
that gives the same, all answers stay as they are (`Archive.sameAnswers_withSource`).
-/

namespace Missive

/-- Two sources that give the same about a message with a body of the given length. -/
structure Source.Agree (source other : Source) (number : UInt64) (length : Nat) : Prop where
  bodyLength : source.bodyLength number = .ok (some length)
  bodyLength' : other.bodyLength number = .ok (some length)
  candidates : source.candidates number = other.candidates number
  openBody : ∀ position ≤ length,
    source.openBody number position = other.openBody number position

theorem mapM_congr {ε α β : Type} {step other : α → Except ε β} {items : List α}
    (same : ∀ item ∈ items, step item = other item) : items.mapM step = items.mapM other := by
  induction items with
  | nil => rfl
  | cons item items ih =>
      rw [List.forall_mem_cons] at same
      rw [List.mapM_cons, List.mapM_cons, same.1, ih same.2]

/-! ### Readers -/

namespace BodyReader

variable (reader : BodyReader) {other : Source} {described : Section} {length origin : Nat}

/-- The reader over another source. -/
def withSource (reader : BodyReader) (source : Source) : BodyReader :=
  { reader with source := source }

theorem stored_withSource (agree : reader.source.Agree other reader.number length)
    (inside : described.stop ≤ length) (before : origin ≤ described.length.toNat) :
    (reader.withSource other).stored described origin = reader.stored described origin := by
  have position : described.offset.toNat + origin ≤ length := by
    rw [Section.stop] at inside
    omega
  have same := agree.openBody _ position
  simp only [stored, withSource, same]

theorem readAll_withSource (agree : reader.source.Agree other reader.number length)
    (inside : described.stop ≤ length) (verify : Bool) (label : String) :
    (reader.withSource other).readAll verify label described =
      reader.readAll verify label described := by
  have same := reader.stored_withSource agree inside (Nat.zero_le _)
  simp only [readAll, same]
  rfl

theorem openSection_withSource (agree : reader.source.Agree other reader.number length)
    (inside : described.stop ≤ length) :
    (reader.withSource other).openSection described = reader.openSection described := by
  have same := reader.stored_withSource agree inside (Nat.zero_le _)
  simp only [openSection, same]
  rfl

/-- A range is read from a place before it, which lies within the section, too. -/
theorem readRange_withSource (agree : reader.source.Agree other reader.number length)
    (inside : described.stop ≤ length) (offset count : UInt64) :
    (reader.withSource other).readRange described offset count =
      reader.readRange described offset count := by
  cases checked : described.checkRange offset count with
  | error error => simp only [readRange, checked, bind, Except.bind]
  | ok _ =>
      have enough : offset.toNat ≤ described.length.toNat := by
        rw [Section.checkRange] at checked
        split at checked
        · omega
        · cases checked
      cases known : reader.engines.cipherFor described.cipher with
      | error error =>
          have known' : (reader.withSource other).engines.cipherFor described.cipher =
              .error error := known
          simp only [readRange, checked, known, known', bind, Except.bind]
      | ok cipher =>
          have known' : (reader.withSource other).engines.cipherFor described.cipher =
              .ok cipher := known
          have same := reader.stored_withSource agree inside
            (Nat.le_trans (cipher.seekOrigin_le offset) enough)
          simp only [readRange, checked, known, known', same, bind, Except.bind]

end BodyReader

/-! ### Archives -/

namespace Archive

variable {archive : Archive} {other : Source} {number : UInt64} {length : Nat}
  {candidate : Bytes} {candidates : List Bytes} {lastError : Error} {resolved : Resolved}

/-- The archive over another source. -/
def withSource (archive : Archive) (source : Source) : Archive :=
  { archive with source := source }

theorem tryKey_withSource (agree : archive.source.Agree other number length) :
    (archive.withSource other).tryKey number length candidate =
      archive.tryKey number length candidate := by
  cases decoded : (Record.decode candidate : Except Error PackageKey) with
  | error error => simp only [tryKey, decoded, bind, Except.bind]
  | ok key =>
      cases within : key.checkWithin length with
      | error error => simp only [tryKey, decoded, within, bind, Except.bind]
      | ok _ =>
          have inside := (checkWithin_eq_ok_iff.mp within key.metadata List.mem_cons_self).2
          have read : ((archive.withSource other).reader number).readAll true metadataLabel
              key.metadata = (archive.reader number).readAll true metadataLabel key.metadata :=
            (archive.reader number).readAll_withSource agree inside true metadataLabel
          simp only [tryKey, decoded, within, read, bind, Except.bind]
          rfl

theorem firstAccepted_withSource (agree : archive.source.Agree other number length) :
    (archive.withSource other).firstAccepted number length lastError candidates =
      archive.firstAccepted number length lastError candidates := by
  induction candidates generalizing lastError with
  | nil => rfl
  | cons candidate candidates ih =>
      simp only [firstAccepted, tryKey_withSource agree, ih]

theorem resolve_withSource (agree : archive.history.contains number = true →
      ∃ length, archive.source.Agree other number length) :
    (archive.withSource other).resolve number = archive.resolve number := by
  cases listed : archive.history.contains number with
  | false =>
      have listed' : (archive.withSource other).history.contains number = false := listed
      simp only [resolve, listed, listed', if_true]
  | true =>
      rcases agree listed with ⟨length, agree⟩
      have listed' : (archive.withSource other).history.contains number = true := listed
      have stored : (archive.withSource other).source.bodyLength number = .ok (some length) :=
        agree.bodyLength'
      have same : (archive.withSource other).source.candidates number =
          archive.source.candidates number := agree.candidates.symm
      cases offered : archive.source.candidates number with
      | error error =>
          rw [offered] at same
          simp only [resolve, listed, listed', agree.bodyLength, stored, offered, same, bind,
            Except.bind]
      | ok candidates =>
          rw [offered] at same
          rw [resolve_of_candidates listed agree.bodyLength offered,
            resolve_of_candidates listed' stored same, firstAccepted_withSource agree]

theorem withFile_withSource {α : Type} {read read' : FileSection → Except Error α} {path : String}
    (same : (archive.withSource other).resolve number = archive.resolve number)
    (alike : ∀ resolved, archive.resolve number = .ok (some resolved) →
      ∀ file ∈ resolved.key.files, read file = read' file) :
    (archive.withSource other).withFile number path read = archive.withFile number path read' := by
  cases found : archive.resolve number with
  | error error => simp only [withFile, same, found, bind, Except.bind]
  | ok answer =>
      cases answer with
      | none => simp only [withFile, same, found, bind, Except.bind, Option.bind]
      | some resolved =>
          rw [withFile_of_resolve (same.trans found), withFile_of_resolve found]
          cases listed : resolved.key.files.find? fun file => file.path = path with
          | none => rfl
          | some file =>
              rw [option_mapM_eq, option_mapM_eq,
                alike resolved found file (List.mem_of_find?_eq_some listed)]

theorem report_withSource (agree : archive.source.Agree other number length)
    (inside : ∀ file ∈ resolved.key.files, file.content.stop ≤ length) :
    (archive.withSource other).report number resolved = archive.report number resolved := by
  have files : ((resolved.key.files.zip resolved.files).mapM fun pair =>
        (archive.withSource other).fileStatus resolved number pair.1 pair.2) =
      (resolved.key.files.zip resolved.files).mapM fun pair =>
        archive.fileStatus resolved number pair.1 pair.2 := by
    apply mapM_congr
    rintro ⟨file, record⟩ member
    have opened : ((archive.withSource other).reader number).openSection file.content =
        (archive.reader number).openSection file.content :=
      (archive.reader number).openSection_withSource agree (inside file (List.of_mem_zip member).1)
    simp only [fileStatus, opened]
    rfl
  refine bind_congr fun key => bind_congr fun record => ?_
  exact congrArg (· >>= fun entries => pure (VerificationReport.mk number key record entries)) files

/-- What is read for an answer lies in the body, since the key has been found to fit it. -/
theorem exists_agree_of_resolve (agree : archive.history.contains number = true →
      ∃ length, archive.source.Agree other number length)
    (found : archive.resolve number = .ok (some resolved)) :
    ∃ length, archive.source.Agree other number length ∧
      ∀ file ∈ resolved.key.files, file.content.stop ≤ length := by
  cases listed : archive.history.contains number with
  | false =>
      rw [resolve, if_pos listed] at found
      cases found
  | true =>
      rcases agree listed with ⟨length, agree⟩
      rcases checkWithin_of_resolve found with ⟨other, known, within⟩
      rw [agree.bodyLength] at known
      cases known
      refine ⟨length, agree, ?_⟩
      intro file member
      exact (checkWithin_eq_ok_iff.mp within _
        (List.mem_cons_of_mem _ (List.mem_map_of_mem member))).2

/-- Where a source gives the same about a message, the answers about it stay as they are. -/
theorem sameAnswers_withSource (agree : archive.history.contains number = true →
      ∃ length, archive.source.Agree other number length) :
    archive.SameAnswers (archive.withSource other) number := by
  have same := resolve_withSource agree
  refine ⟨?_, ?_, ?_, ?_, ?_, ?_, ?_⟩
  · rw [Archive.key, Archive.key, same]
  · rw [record, record, same]
  · rw [files, files, same]
  · intro path
    rw [file, file, same]
  · intro path
    symm
    apply withFile_withSource same
    intro resolved found file member
    rcases exists_agree_of_resolve agree found with ⟨length, agree, inside⟩
    exact (archive.reader number).readAll_withSource agree (inside file member) _ _
  · intro path offset count
    symm
    apply withFile_withSource same
    intro resolved found file member
    rcases exists_agree_of_resolve agree found with ⟨length, agree, inside⟩
    exact (archive.reader number).readRange_withSource agree (inside file member) offset count
  · cases found : archive.resolve number with
    | error error =>
        rw [found] at same
        simp only [verify, same, found, bind, Except.bind]
    | ok answer =>
        rw [found] at same
        cases answer with
        | none => simp only [verify, same, found, bind, Except.bind]
        | some resolved =>
            rcases exists_agree_of_resolve agree found with ⟨length, agree, inside⟩
            rw [verify_of_resolve found, verify_of_resolve same, report_withSource agree inside]

end Archive

/-! ### Opening -/

/-- Histories of the same numbers are the same, in whatever order these are given. -/
theorem History.ofNumbers_eq_of_mem_iff {numbers others : List UInt64}
    (same : ∀ number, number ∈ numbers ↔ number ∈ others) :
    ofNumbers numbers = ofNumbers others := by
  have members : ∀ number, number ∈ (ofNumbers numbers).numbers ↔
      number ∈ (ofNumbers others).numbers := by
    intro number
    have listed := @contains_ofNumbers numbers number
    have listed' := @contains_ofNumbers others number
    rw [contains, decide_eq_true_iff] at listed listed'
    rw [listed, listed', same]
  have antisymm : Std.Antisymm fun earlier later : UInt64 => later < earlier :=
    ⟨fun _ _ less more => absurd less (UInt64.lt_asymm more)⟩
  have irrefl : Std.Irrefl fun earlier later : UInt64 => later < earlier := ⟨UInt64.lt_irrefl⟩
  have equal := (ofNumbers numbers).descending.eq_of_mem_iff (ofNumbers others).descending members
  generalize ofNumbers numbers = history at equal
  generalize ofNumbers others = history' at equal
  cases history
  cases history'
  cases equal
  rfl

namespace Archive

/-- Two archives that answer every question alike. -/
structure AnswersLike (archive other : Archive) : Prop where
  history : archive.history = other.history
  tail : ∀ count, archive.tail count = other.tail count
  before : ∀ bound count inclusive,
    archive.before bound count inclusive = other.before bound count inclusive
  between : ∀ span count, archive.between span count = other.between span count
  message : ∀ number, archive.SameAnswers other number

/-- Two attempts to open an archive that are refused alike, or give archives that answer alike. -/
inductive OpensLike : (first second : Except Error Archive) → Prop where
  | opened {archive other : Archive} (alike : archive.AnswersLike other) :
    OpensLike (.ok archive) (.ok other)
  | refused (error : Error) : OpensLike (.error error) (.error error)

/-- Archives over sources with the same messages answer alike. -/
theorem opensLike_of_agree {source other : Source} {numbers others : List UInt64}
    (listed : source.numbers = .ok numbers) (listed' : other.numbers = .ok others)
    (same : ∀ number, number ∈ numbers ↔ number ∈ others)
    (agree : ∀ number ∈ numbers, ∃ length, source.Agree other number length)
    (engines : Engines) (settings : ContentSettings) :
    OpensLike (ofSource source engines settings) (ofSource other engines settings) := by
  by_cases paged : settings.maxPageSize = some 0
  · simp only [ofSource, if_pos paged]
    exact .refused _
  · have histories := History.ofNumbers_eq_of_mem_iff same
    simp only [ofSource, if_neg paged, listed, listed', ← histories, bind, Except.bind, pure,
      Except.pure]
    refine .opened ⟨rfl, fun _ => rfl, fun _ _ _ => rfl, fun _ _ => rfl, ?_⟩
    intro number
    apply @sameAnswers_withSource ⟨source, .ofNumbers numbers, engines, settings⟩ other
    intro member
    exact agree number (History.contains_ofNumbers.mp member)

end Archive

end Missive
