import Mathlib.Data.List.TakeWhile
import Missive.Proofs.Store.Bodies
import Missive.Proofs.Store.FileTree

/-!
# A package in an empty directory

The names of the files of a message are read as the message's number again, each by its own
ending. Writing a file leaves it under its name, and nothing under the temporary one; so an empty
directory into which a package has been written serves this package and nothing else. Into a
directory with an absolute path no package can be written, since such a path does not lead into a
file tree.
-/

namespace Missive.Directory

open FileTree (join checkPath isAbsolute putEntry Plain)

/-- The name of the body of a message. -/
def bodyName (number : UInt64) : String :=
  Text.ofNatural number.toNat ++ bodyEnding

/-- The name of the key of a message. -/
def keyName (number : UInt64) : String :=
  Text.ofNatural number.toNat ++ keyEnding

/-! ### Names -/

section Names

variable {number : UInt64} {ending : String}

theorem plain_of_short (slashes : '/' ∉ ending.toList)
    (short : (Bytes.ofString (Text.ofNatural number.toNat ++ ending)).length ≤
      FileTree.nameLimit) :
    Plain (Text.ofNatural number.toNat ++ ending) := by
  have digits := @Text.isDigit_of_mem_ofNatural number.toNat
  obtain ⟨first, rest, shape⟩ :
      ∃ first rest, (Text.ofNatural number.toNat).toList = first :: rest := by
    refine List.exists_cons_of_ne_nil ?_
    rw [Text.ofNatural, String.toList_ofList]
    simpa using Decimal.digits_ne_nil number.toNat
  have front : (Text.ofNatural number.toNat ++ ending).toList =
      first :: (rest ++ ending.toList) := by
    rw [String.toList_append, shape, List.cons_append]
  have head : ∀ other, Text.ofNatural number.toNat ++ ending = other →
      other.toList.head? = some first := by
    rintro _ rfl
    rw [front, List.head?_cons]
  have digit : first.isDigit = true := digits (shape ▸ List.mem_cons_self)
  refine ⟨?_, ?_, ?_, short⟩
  · rw [String.toList_append, List.mem_append, not_or]
    exact ⟨fun member => absurd (digits member) (by decide), slashes⟩
  · rintro (same | same)
    · have none := head "" same
      cases none
    · rw [← Option.some.inj (head "." same)] at digit
      exact absurd digit (by decide)
  · intro same
    rw [← Option.some.inj (head ".." same)] at digit
    exact absurd digit (by decide)

theorem plain_ofNatural (slashes : '/' ∉ ending.toList)
    (short : (Bytes.ofString ending).length ≤ 200) :
    Plain (Text.ofNatural number.toNat ++ ending) := by
  have count := Decimal.length_digits_le number.toNat_lt_size
  apply plain_of_short slashes
  rw [Bytes.ofString_append, List.length_append, Text.ofString_ofNatural, FileTree.nameLimit]
  omega

theorem stem?_append (ending stem : String) : stem? ending (stem ++ ending) = some stem := by
  have front : (stem ++ ending).toList.take ((stem ++ ending).length - ending.length) =
      stem.toList := by
    rw [String.length_append, Nat.add_sub_cancel, String.toList_append]
    exact List.take_left' String.length_toList
  rw [stem?]
  simp only [front]
  rw [if_pos String.toList_append.symm, String.ofList_toList]

theorem stem?_append_of_ne {other stem : String}
    (different : ending.toList.getLast? ≠ other.toList.getLast?)
    (filled : ending.toList ≠ []) (filled' : other.toList ≠ []) :
    stem? ending (stem ++ other) = none := by
  rw [stem?, if_neg]
  intro same
  have last := congrArg List.getLast? same
  rw [List.getLast?_append, Option.or_of_isSome (List.getLast?_isSome.mpr filled),
    String.toList_append, List.getLast?_append,
    Option.or_of_isSome (List.getLast?_isSome.mpr filled')] at last
  exact different last

theorem bodyNumber?_bodyName : bodyNumber? (bodyName number) = some number := by
  rw [bodyNumber?, bodyName, stem?_append]
  exact Text.natural?_ofNatural number

theorem bodyNumber?_keyName : bodyNumber? (keyName number) = none := by
  rw [bodyNumber?, keyName, stem?_append_of_ne (by decide) (by decide) (by decide)]
  rfl

theorem keyNumber?_keyName : keyNumber? (keyName number) = some (number, none) := by
  have undotted : ∀ character ∈ (Text.ofNatural number.toNat).toList, character ≠ '.' := by
    rintro character member rfl
    exact absurd (Text.isDigit_of_mem_ofNatural member) (by decide)
  have whole : (Text.ofNatural number.toNat).toList.takeWhile (· ≠ '.') =
      (Text.ofNatural number.toNat).toList :=
    List.takeWhile_eq_self_iff.mpr (by simpa using undotted)
  have rest : (Text.ofNatural number.toNat).toList.dropWhile (· ≠ '.') = [] :=
    List.dropWhile_eq_nil_iff.mpr (by simpa using undotted)
  simp only [keyNumber?, keyName, stem?_append, Option.bind_eq_bind, Option.bind_some, whole, rest,
    String.ofList_toList, Text.natural?_ofNatural, Option.pure_def]

theorem keyNumber?_bodyName : keyNumber? (bodyName number) = none := by
  rw [keyNumber?, bodyName, stem?_append_of_ne (by decide) (by decide) (by decide)]
  rfl

theorem keyNames_of_package :
    keyNames number [bodyName number, keyName number] = [keyName number] := by
  simp [keyNames, keyNumber?_bodyName, keyNumber?_keyName]

end Names

/-! ### Writing -/

section Writing

variable {tree after : FileTree} {root name : String} {place : List String}
  {entries : List (String × FileTree)} {content : Bytes}

theorem join_append {ending : String} (slashes : '/' ∉ name.toList) (slashes' : '/' ∉ ending.toList)
    (given : root ≠ "") : join root name ++ ending = join root (name ++ ending) := by
  have whole : '/' ∉ (name ++ ending).toList := by simp [slashes, slashes']
  rw [FileTree.join_eq_of_not_mem slashes given, FileTree.join_eq_of_not_mem whole given]
  split <;> simp only [String.append_assoc]

theorem join_ne_empty (plain : Plain name) (given : root ≠ "") : join root name ≠ "" := by
  rw [plain.join_eq given]
  split <;> simp [given]

theorem checkPath_of_append {path rest : String} (given : path ≠ "")
    (admitted : checkPath (path ++ rest) = .ok ()) : checkPath path = .ok () := by
  rw [FileTree.checkPath_eq_ok_iff] at admitted ⊢
  rw [String.toList_append, List.mem_append, not_or, Bytes.ofString_append,
    List.length_append] at admitted
  exact ⟨admitted.1.1, given, by omega⟩

/-- A file that is written is there, and its temporary name is free again. -/
theorem exists_writeFile (shown : tree.Shows root place entries) (plain : Plain name)
    (plain' : Plain (name ++ temporaryEnding))
    (admitted : checkPath (join root name ++ temporaryEnding) = .ok ())
    (fresh : entries.lookup (name ++ temporaryEnding) = none)
    (unfilled : ∀ inner, entries.lookup name ≠ some (.folder inner)) (content : Bytes) :
    ∃ after, writeFile tree (join root name) content = (after, .ok ()) ∧
      after.Shows root place (putEntry name (some (.file content)) entries) := by
  have admitted' := checkPath_of_append (join_ne_empty plain shown.given) admitted
  rw [join_append plain.slashes (by decide) shown.given] at admitted
  have vacant : ∀ inner, entries.lookup (name ++ temporaryEnding) ≠ some (.folder inner) := by
    simp [fresh]
  have first := shown.write_join plain' admitted vacant content
  have written := shown.put vacant (some (.file content))
  have cleared := FileTree.putEntry_none_putEntry fresh (.file content)
  rcases written.exists_rename_join plain' plain admitted admitted'
    (FileTree.lookup_putEntry_some _ _ _) (by rw [cleared]; exact unfilled)
      with ⟨after, renamed, final⟩
  rw [cleared] at final
  refine ⟨after, ?_, final⟩
  have slashes : '/' ∉ temporaryEnding.toList := by decide
  simp only [writeFile, join_append plain.slashes slashes shown.given, first, renamed]

theorem admitted_of_writeFile {path : String}
    (written : writeFile tree path content = (after, .ok ())) :
    checkPath (path ++ temporaryEnding) = .ok () ∧
      isAbsolute (path ++ temporaryEnding) = false := by
  cases first : tree.write (path ++ temporaryEnding) content with
  | error fault => simp [writeFile, first] at written
  | ok middle =>
      rcases bind_eq_ok_iff.mp first with ⟨spot, located, first⟩
      rcases bind_unit_eq_ok_iff.mp located with ⟨admitted, located⟩
      refine ⟨admitted, ?_⟩
      cases absolute : isAbsolute (path ++ temporaryEnding) with
      | false => rfl
      | true =>
          rw [if_pos absolute] at located
          rcases bind_unit_eq_ok_iff.mp located with ⟨_, located⟩
          cases located
          cases first

end Writing

/-! ### A package and its files -/

section Packages

variable {directory : Directory} {tree after : FileTree} {package : Package}

theorem plain_bodyName (number : UInt64) : Plain (bodyName number) :=
  plain_ofNatural (by decide) (by decide)

theorem plain_keyName (number : UInt64) : Plain (keyName number) :=
  plain_ofNatural (by decide) (by decide)

theorem keyPath_eq (directory : Directory) (number : UInt64) :
    directory.keyPath number none = join directory.root (keyName number) := by
  rw [keyPath, keyName, String.append_empty]

theorem plain_bodyName_temporary (number : UInt64) :
    Plain (bodyName number ++ temporaryEnding) := by
  rw [bodyName, String.append_assoc]
  exact plain_ofNatural (by decide) (by decide)

theorem plain_keyName_temporary (number : UInt64) :
    Plain (keyName number ++ temporaryEnding) := by
  rw [keyName, String.append_assoc]
  exact plain_ofNatural (by decide) (by decide)

theorem ofNatural_append_ne {number : Nat} {ending other : String} (different : ending ≠ other) :
    Text.ofNatural number ++ ending ≠ Text.ofNatural number ++ other :=
  fun same => different (Text.append_left_cancel same)

theorem writePackage_of_ok {middle : FileTree}
    (first : writeFile tree (directory.bodyPath package.number) package.body = (middle, .ok ())) :
    directory.writePackage tree package =
      writeFile middle (directory.keyPath package.number none) (Record.encode package.key) := by
  delta writePackage
  rw [first]
  rfl

theorem writePackage_of_error {middle : FileTree} {error : Error}
    (first : writeFile tree (directory.bodyPath package.number) package.body =
      (middle, .error error)) : directory.writePackage tree package = (middle, .error error) := by
  delta writePackage
  rw [first]

/--
The paths under which the files of a message are written, if the system admits them. That the path
of the directory is relative is a matter of file trees, into which no absolute path leads.
-/
structure Admits (directory : Directory) (number : UInt64) : Prop where
  relative : isAbsolute directory.root = false
  body : checkPath (directory.bodyPath number ++ temporaryEnding) = .ok ()
  key : checkPath (directory.keyPath number none ++ temporaryEnding) = .ok ()

theorem checkPath_join {root ending : String} {number : UInt64} (valid : checkPath root = .ok ())
    (plain : Plain (Text.ofNatural number.toNat ++ ending)) (clean : '\x00' ∉ ending.toList)
    (short : (Bytes.ofString root).length + (Bytes.ofString ending).length + 21 <
      FileTree.pathLimit) :
    checkPath (join root (Text.ofNatural number.toNat ++ ending)) = .ok () := by
  rcases FileTree.checkPath_eq_ok_iff.mp valid with ⟨clean', given, _⟩
  have count := Decimal.length_digits_le number.toNat_lt_size
  have digits : '\x00' ∉ (Text.ofNatural number.toNat).toList := by
    intro member
    exact absurd (Text.isDigit_of_mem_ofNatural member) (by decide)
  have slash : (Bytes.ofString "/").length = 1 := by decide
  refine FileTree.checkPath_eq_ok_iff.mpr ⟨?_, join_ne_empty plain given, ?_⟩
  · rw [plain.join_eq given]
    split <;> simp [clean, clean', digits]
  · rw [plain.join_eq given]
    split <;>
      simp only [Bytes.ofString_append, List.length_append, Text.ofString_ofNatural] <;> omega

/-- A directory with a path that is not too long admits every message. -/
theorem admits_of_short (valid : checkPath directory.root = .ok ())
    (relative : isAbsolute directory.root = false)
    (short : (Bytes.ofString directory.root).length + 33 < FileTree.pathLimit) (number : UInt64) :
    directory.Admits number := by
  rcases FileTree.checkPath_eq_ok_iff.mp valid with ⟨_, given, _⟩
  have body := plain_bodyName_temporary number
  have key := plain_keyName_temporary number
  refine ⟨relative, ?_, ?_⟩
  · have path : directory.bodyPath number = join directory.root (bodyName number) := rfl
    rw [path, join_append (plain_bodyName number).slashes (by decide) given]
    rw [bodyName, String.append_assoc] at body ⊢
    have ending : (Bytes.ofString (bodyEnding ++ temporaryEnding)).length = 9 := by decide
    exact checkPath_join valid body (by decide) (by omega)
  · rw [keyPath_eq, join_append (plain_keyName number).slashes (by decide) given]
    rw [keyName, String.append_assoc] at key ⊢
    have ending : (Bytes.ofString (keyEnding ++ temporaryEnding)).length = 12 := by decide
    exact checkPath_join valid key (by decide) (by omega)

/-- What an empty directory, found by a relative path, holds after a package has been written. -/
theorem exists_writePackage (empty : tree.find directory.root = .ok (.folder []))
    (admits : directory.Admits package.number) :
    ∃ after place, directory.writePackage tree package = (after, .ok ()) ∧
      after.Shows directory.root place
        [(bodyName package.number, .file package.body),
          (keyName package.number, .file (Record.encode package.key))] := by
  rcases admits with ⟨relative, admitted, admitted'⟩
  rcases FileTree.exists_shows_of_find relative empty with ⟨place, shown⟩
  have different : keyName package.number ≠ bodyName package.number :=
    ofNatural_append_ne (by decide)
  have different' : keyName package.number ++ temporaryEnding ≠ bodyName package.number := by
    rw [keyName, String.append_assoc]
    exact ofNatural_append_ne (by decide)
  rcases exists_writeFile shown (plain_bodyName package.number)
    (plain_bodyName_temporary package.number) admitted rfl nofun package.body
      with ⟨middle, first, shown⟩
  rw [keyPath_eq] at admitted'
  obtain ⟨after, second, shown⟩ := exists_writeFile shown (plain_keyName package.number)
    (plain_keyName_temporary package.number) admitted'
    (by rw [FileTree.lookup_putEntry_of_ne different']; rfl)
    (by rw [FileTree.lookup_putEntry_of_ne different]; nofun) (Record.encode package.key)
  refine ⟨after, place, ?_, ?_⟩
  · have body : writeFile tree (directory.bodyPath package.number) package.body =
        (middle, .ok ()) := first
    rw [writePackage_of_ok body, keyPath_eq]
    exact second
  · have entries : putEntry (keyName package.number) (some (.file (Record.encode package.key)))
        (putEntry (bodyName package.number) (some (.file package.body)) []) =
        [(bodyName package.number, .file package.body),
          (keyName package.number, .file (Record.encode package.key))] := by
      simp [putEntry, Ne.symm different]
    exact entries ▸ shown

/-- A directory with a body and its key serves them. -/
theorem serves_of_shows {number : UInt64} {body key : Bytes} {place : List String}
    (shown : tree.Shows directory.root place
      [(bodyName number, .file body), (keyName number, .file key)])
    (admitted : checkPath (directory.bodyPath number) = .ok ())
    (admitted' : checkPath (directory.keyPath number none) = .ok ())
    (countable : body.length < positionLimit) :
    (directory.source tree.files).Serves number body key := by
  have different : keyName number ≠ bodyName number := ofNatural_append_ne (by decide)
  have listed : directory.names tree.files = .ok [bodyName number, keyName number] := by
    have found : tree.files.find directory.root = _ := shown.find
    simp only [names, Files.list, found, bind, Except.bind, pure, Except.pure]
    rfl
  have body' : tree.files.find (directory.bodyPath number) = .ok (.file body) := by
    have found := shown.find_join (plain_bodyName number) admitted
    rw [List.lookup_cons, beq_self_eq_true] at found
    exact found
  have key' : directory.readKey tree.files (keyName number) = .ok key := by
    rw [keyPath_eq] at admitted'
    have found := shown.find_join (plain_keyName number) admitted'
    rw [List.lookup_cons, beq_eq_false_iff_ne.mpr different, List.lookup_cons,
      beq_self_eq_true] at found
    have there : tree.files.find (join directory.root (keyName number)) = .ok (.file key) := found
    simp only [readKey, Files.read, there, bind, Except.bind, pure, Except.pure]
    rfl
  refine ⟨?_, ?_, ?_, ?_⟩
  · simp [source, listed, bodyNumber?_bodyName, bodyNumber?_keyName, bind, Except.bind, pure,
      Except.pure]
  · simp only [source, listed, keyNames_of_package, List.mapM_cons, List.mapM_nil, key', bind,
      Except.bind, pure, Except.pure]
  · simp only [source, body']
  · intro position inside
    have readable : ¬positionLimit ≤ position := by omega
    refine ⟨.ofBytes (body.drop position), ?_, ByteStream.content_ofBytes _, rfl⟩
    simp only [source, body', mapError_ok, if_neg readable, bind, Except.bind, pure,
      Except.pure]

theorem root_ne_empty {entries : List (String × FileTree)}
    (found : tree.find directory.root = .ok (.folder entries)) : directory.root ≠ "" := by
  rcases bind_unit_eq_ok_iff.mp found with ⟨valid, _⟩
  exact (FileTree.checkPath_eq_ok_iff.mp valid).2.1

theorem exists_of_writePackage
    (written : directory.writePackage tree package = (after, .ok ())) :
    ∃ middle,
      writeFile tree (directory.bodyPath package.number) package.body = (middle, .ok ()) ∧
      writeFile middle (directory.keyPath package.number none) (Record.encode package.key) =
        (after, .ok ()) := by
  cases first : writeFile tree (directory.bodyPath package.number) package.body with
  | mk middle outcome =>
      cases outcome with
      | error error =>
          rw [writePackage_of_error first] at written
          cases written
      | ok _ =>
          rw [writePackage_of_ok first] at written
          exact ⟨middle, rfl, written⟩

theorem admits_of_writePackage {entries : List (String × FileTree)}
    (found : tree.find directory.root = .ok (.folder entries))
    (written : directory.writePackage tree package = (after, .ok ())) :
    directory.Admits package.number := by
  have given := root_ne_empty found
  rcases exists_of_writePackage written with ⟨middle, first, second⟩
  obtain ⟨body, relative⟩ := admitted_of_writeFile first
  refine ⟨?_, body, (admitted_of_writeFile second).1⟩
  rw [← (plain_bodyName_temporary package.number).isAbsolute_join given,
    ← join_append (plain_bodyName package.number).slashes (by decide) given]
  exact relative

/--
A package that has been written into an empty directory is served from there. As it has been
written, the path of the directory is relative (`admits_of_writePackage`).
-/
theorem serves_writePackage (empty : tree.find directory.root = .ok (.folder []))
    (written : directory.writePackage tree package = (after, .ok ()))
    (countable : package.body.length < positionLimit) :
    (directory.source after.files).Serves package.number package.body
      (Record.encode package.key) := by
  have given := root_ne_empty empty
  have admits := admits_of_writePackage empty written
  rcases exists_writePackage empty admits with ⟨other, place, again, shown⟩
  rw [written] at again
  cases again
  refine serves_of_shows shown
    (checkPath_of_append (join_ne_empty (plain_bodyName _) given) admits.body)
    (checkPath_of_append ?_ admits.key) countable
  rw [keyPath_eq]
  exact join_ne_empty (plain_keyName _) given

end Packages

end Missive.Directory
