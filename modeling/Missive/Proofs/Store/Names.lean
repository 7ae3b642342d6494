import Missive.Proofs.Store.Directory
import Missive.Record.Subscriber

/-!
# The names of files in a directory

Every body and every candidate key has a file of its own, whose name tells which one it is: the
number and the label are read back from it (`Directory.bodyNumber?_fileName`,
`Directory.keyNumber?_fileName`). So different ones never share a file, whatever the labels look
like, and no file has a temporary name.
-/

namespace Missive.Directory

open FileTree (join isAbsolute Plain)

/-- What a directory keeps in a file of its own. -/
inductive Target where
  | body (number : UInt64)
  | key (number : UInt64) (label : Option String)
  deriving DecidableEq, Repr

/-- The path of a file. -/
def path (directory : Directory) : Target → String
  | .body number => directory.bodyPath number
  | .key number label => directory.keyPath number label

namespace Target

/-- Whether the label of a key, if it has one, can stand in a name. -/
def isProper : Target → Bool
  | body _ => true
  | key _ label => label.all isLabel

/-- The message to which a file belongs. -/
def number : Target → UInt64
  | body number => number
  | key number _ => number

/-- The label in the name of a file. -/
def label? : Target → Option String
  | body _ => none
  | key _ label => label

/-- What stands after the number in the name of a file. -/
def ending : Target → String
  | body _ => bodyEnding
  | key _ none => keyEnding
  | key _ (some label) => "." ++ (label ++ keyEnding)

/-- The name of a file. -/
def fileName (target : Target) : String :=
  Text.ofNatural target.number.toNat ++ target.ending

end Target

section Labels

variable {label : String}

theorem isLabel_iff : isLabel label = true ↔
    label ≠ "" ∧ '.' ∉ label.toList ∧ '/' ∉ label.toList ∧ '\\' ∉ label.toList := by
  simp only [isLabel, Bool.and_eq_true, decide_eq_true_iff, List.all_eq_true]
  constructor
  · rintro ⟨filled, clean⟩
    exact ⟨filled, fun member => (clean _ member).1.1 rfl, fun member => (clean _ member).1.2 rfl,
      fun member => (clean _ member).2 rfl⟩
  · rintro ⟨filled, dots, slashes, backslashes⟩
    refine ⟨filled, ?_⟩
    intro character member
    refine ⟨⟨?_, ?_⟩, ?_⟩
    · rintro rfl
      exact dots member
    · rintro rfl
      exact slashes member
    · rintro rfl
      exact backslashes member

/-- The label of a subscriber can stand in the name of a key file. -/
theorem isLabel_of_validate {subscriber : Subscriber} (valid : subscriber.validate = .ok ()) :
    isLabel subscriber.label = true := by
  rw [Subscriber.validate, guard_eq_ok_iff, not_or, Bool.not_eq_false, List.all_eq_true] at valid
  rcases valid with ⟨⟨filled, clean⟩, _⟩
  refine isLabel_iff.mpr ⟨filled, ?_, ?_, ?_⟩
  · intro member
    exact absurd (clean _ member) (by decide)
  · intro member
    exact absurd (clean _ member) (by decide)
  · intro member
    exact absurd (clean _ member) (by decide)

end Labels

variable {directory : Directory} {target first second : Target}

/-! ### What a name tells -/

theorem bodyNumber?_fileName (target : Target) :
    bodyNumber? target.fileName =
      match target with
      | .body number => some number
      | .key _ _ => none := by
  match target with
  | .body number => exact bodyNumber?_bodyName
  | .key _ none => exact bodyNumber?_keyName
  | .key number (some label) =>
      have shape : (Target.key number (some label)).fileName =
          Text.ofNatural number.toNat ++ "." ++ label ++ keyEnding := by
        simp only [Target.fileName, Target.number, Target.ending, String.append_assoc]
      rw [shape, bodyNumber?, stem?_append_of_ne (by decide) (by decide) (by decide)]
      rfl

/-- A label is read back from a name, though it may consist of digits, or look like an ending. -/
theorem keyNumber?_labelled {number : UInt64} {label : String} (proper : isLabel label = true) :
    keyNumber? (Text.ofNatural number.toNat ++ "." ++ label ++ keyEnding) =
      some (number, some label) := by
  rcases isLabel_iff.mp proper with ⟨filled, dots, _, _⟩
  have undotted : ∀ character ∈ (Text.ofNatural number.toNat).toList,
      decide (character ≠ '.') = true := by
    intro character member
    apply decide_eq_true
    rintro rfl
    exact absurd (Text.isDigit_of_mem_ofNatural member) (by decide)
  have whole : (Text.ofNatural number.toNat ++ "." ++ label).toList =
      (Text.ofNatural number.toNat).toList ++ '.' :: label.toList := by
    simp
  have front : (Text.ofNatural number.toNat ++ "." ++ label).toList.takeWhile (· ≠ '.') =
      (Text.ofNatural number.toNat).toList := by
    rw [whole, List.takeWhile_append_of_pos undotted, List.takeWhile_cons_of_neg (by decide),
      List.append_nil]
  have back : (Text.ofNatural number.toNat ++ "." ++ label).toList.dropWhile (· ≠ '.') =
      '.' :: label.toList := by
    rw [whole, List.dropWhile_append_of_pos undotted, List.dropWhile_cons_of_neg (by decide)]
  have admitted : ¬(label.toList.isEmpty = true ∨ label.toList.contains '.' = true) := by
    simp [filled, dots]
  simp only [keyNumber?, stem?_append, Option.bind_eq_bind, Option.bind_some, front, back,
    if_neg admitted, String.ofList_toList, Text.natural?_ofNatural, Option.pure_def]

theorem keyNumber?_fileName (proper : target.isProper = true) :
    keyNumber? target.fileName =
      match target with
      | .body _ => none
      | .key number label => some (number, label) := by
  match target with
  | .body number => exact keyNumber?_bodyName
  | .key _ none => exact keyNumber?_keyName
  | .key number (some label) =>
      have shape : (Target.key number (some label)).fileName =
          Text.ofNatural number.toNat ++ "." ++ label ++ keyEnding := by
        simp only [Target.fileName, Target.number, Target.ending, String.append_assoc]
      rw [shape]
      exact keyNumber?_labelled proper

theorem fileName_injective (proper : first.isProper = true) (proper' : second.isProper = true)
    (same : first.fileName = second.fileName) : first = second := by
  have bodies := congrArg bodyNumber? same
  have keys := congrArg keyNumber? same
  rw [bodyNumber?_fileName, bodyNumber?_fileName] at bodies
  rw [keyNumber?_fileName proper, keyNumber?_fileName proper'] at keys
  cases first with
  | body number =>
      cases second with
      | body other =>
          cases bodies
          rfl
      | key other label => cases bodies
  | key number label =>
      cases second with
      | body other => cases keys
      | key other label' =>
          cases keys
          rfl

/-- No file has a temporary name. -/
theorem append_temporaryEnding_ne_fileName (name : String) (proper : target.isProper = true) :
    name ++ temporaryEnding ≠ target.fileName := by
  intro same
  have bodies := congrArg bodyNumber? same
  have keys := congrArg keyNumber? same
  rw [bodyNumber?_fileName, bodyNumber?,
    stem?_append_of_ne (by decide) (by decide) (by decide)] at bodies
  rw [keyNumber?_fileName proper, keyNumber?,
    stem?_append_of_ne (by decide) (by decide) (by decide)] at keys
  cases target with
  | body number => cases bodies
  | key number label => cases keys

/-! ### Paths -/

theorem slashes_ending (proper : target.isProper = true) : '/' ∉ target.ending.toList := by
  match target with
  | .body _ => exact (by decide : '/' ∉ bodyEnding.toList)
  | .key _ none => exact (by decide : '/' ∉ keyEnding.toList)
  | .key _ (some label) =>
      rcases isLabel_iff.mp proper with ⟨_, _, slashes, _⟩
      have clean : '/' ∉ keyEnding.toList := by decide
      simp [Target.ending, slashes, clean]

theorem slashes_fileName (proper : target.isProper = true) : '/' ∉ target.fileName.toList := by
  rw [Target.fileName, String.toList_append, List.mem_append, not_or]
  refine ⟨?_, slashes_ending proper⟩
  intro member
  exact absurd (Text.isDigit_of_mem_ofNatural member) (by decide)

theorem path_eq (directory : Directory) (target : Target) :
    directory.path target = join directory.root target.fileName := by
  match target with
  | .body _ => rfl
  | .key _ none => exact keyPath_eq directory _
  | .key _ (some label) =>
      simp only [path, keyPath, Target.fileName, Target.number, Target.ending, String.append_assoc]

/-- All names below a path are put behind the same text. -/
theorem exists_join_eq (root : String) :
    ∃ front, ∀ name, isAbsolute name = false → join root name = front ++ name := by
  by_cases bare : root = "" ∨ root.toList.getLast? = some '/'
  · refine ⟨root, ?_⟩
    intro name relative
    simp only [join, relative, if_pos bare, Bool.false_eq_true, if_false]
  · refine ⟨root ++ "/", ?_⟩
    intro name relative
    simp only [join, relative, if_neg bare, Bool.false_eq_true, if_false]

theorem isAbsolute_fileName (proper : target.isProper = true) :
    isAbsolute target.fileName = false := by
  rw [isAbsolute, decide_eq_false_iff_not]
  intro absolute
  exact slashes_fileName proper (List.mem_of_head? absolute)

/-- Different bodies and keys never share a file. -/
theorem path_injective (proper : first.isProper = true) (proper' : second.isProper = true)
    (same : directory.path first = directory.path second) : first = second := by
  rcases exists_join_eq directory.root with ⟨front, joined⟩
  rw [path_eq, path_eq, joined _ (isAbsolute_fileName proper),
    joined _ (isAbsolute_fileName proper')] at same
  exact fileName_injective proper proper' (Text.append_left_cancel same)

/-- What is written first under a temporary name takes no other file's place. -/
theorem path_append_temporaryEnding_ne (proper : first.isProper = true)
    (proper' : second.isProper = true) :
    directory.path first ++ temporaryEnding ≠ directory.path second := by
  intro same
  rcases exists_join_eq directory.root with ⟨front, joined⟩
  rw [path_eq, path_eq, joined _ (isAbsolute_fileName proper),
    joined _ (isAbsolute_fileName proper'), String.append_assoc] at same
  exact append_temporaryEnding_ne_fileName _ proper' (Text.append_left_cancel same)

end Missive.Directory
