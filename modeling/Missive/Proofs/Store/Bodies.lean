import Missive.Proofs.Outcome
import Missive.Proofs.Stream
import Missive.Store.Directory
import Missive.Store.Memory

/-!
# Bodies that stay as they are

Packages are written once, and so a reader may open a body again and again. `Source.Steady` says
what that gives: whatever position the body is opened at, the same bytes follow, however they are
cut into reads. Both kinds of store keep to it; in a directory, the system must be able to
count the bytes of the file.
-/

namespace Missive

/--
A source whose body of a message is the same bytes from every position on that lies within its
length. Nothing is said about the sizes of the reads, nor about what follows the last byte.
-/
def Source.Steady (source : Source) (number : UInt64) : Prop :=
  ∃ body : Bytes, ∀ length, source.bodyLength number = .ok (some length) →
    ∀ position ≤ length, ∃ stream, source.openBody number position = .ok stream ∧
      stream.content = body.drop position

theorem MemoryStore.steady_source (store : MemoryStore) (number : UInt64) :
    store.source.Steady number := by
  refine ⟨((store.find? number).map StoredPackage.body).getD [], ?_⟩
  intro length _ position _
  exact ⟨_, rfl, ByteStream.content_ofBytes _⟩

theorem Directory.steady_source (directory : Directory) (files : Files) (number : UInt64)
    (countable : ∀ content, files.find (directory.bodyPath number) = .ok (.file content) →
      content.length < positionLimit) :
    (directory.source files).Steady number := by
  cases found : files.find (directory.bodyPath number) with
  | error fault =>
      refine ⟨[], ?_⟩
      intro length known
      simp only [source, found] at known
      split at known <;> simp at known
  | ok entry =>
      cases entry with
      | file content =>
          refine ⟨content, ?_⟩
          intro length known position inside
          simp only [source, found, Except.ok.injEq, Option.some.injEq] at known
          have readable : ¬positionLimit ≤ position := by
            have bound := countable content found
            omega
          refine ⟨.ofBytes (content.drop position), ?_, ByteStream.content_ofBytes _⟩
          simp only [source, found, mapError_ok, if_neg readable, bind, Except.bind, pure,
            Except.pure]
      | folder entries =>
          refine ⟨[], ?_⟩
          intro length known position inside
          simp only [source, found, Except.ok.injEq, Option.some.injEq] at known
          have readable : ¬positionLimit ≤ position := by
            have bound : folderLength < positionLimit := by decide
            omega
          refine ⟨⟨[], .failing (.input .isDirectory)⟩, ?_, ?_⟩
          · simp only [source, found, mapError_ok, if_neg readable, bind, Except.bind, pure,
              Except.pure]
          · rw [ByteStream.content_nil, List.drop_nil]

/-- A source that offers a message: its body, with a single candidate key. It may hold others. -/
structure Source.Offers (source : Source) (number : UInt64) (body key : Bytes) : Prop where
  listed : ∃ numbers, source.numbers = .ok numbers ∧ number ∈ numbers
  candidates : source.candidates number = .ok [key]
  bodyLength : source.bodyLength number = .ok (some body.length)
  openBody : ∀ position ≤ body.length, ∃ stream, source.openBody number position = .ok stream ∧
    stream.content = body.drop position ∧ stream.ending = .finished

namespace MemoryStore

theorem offers_of_find? {store : MemoryStore} {number : UInt64} {body key : Bytes}
    (found : store.find? number = some ⟨body, [key]⟩) :
    store.source.Offers number body key := by
  refine ⟨⟨_, rfl, ?_⟩, ?_, ?_, ?_⟩
  · rw [find?, List.lookup_eq_some_iff] at found
    rcases found with ⟨front, back, shape, _⟩
    simp [shape]
  · simp only [source, found, Option.map_some, Option.getD_some]
  · simp only [source, found, Option.map_some]
  · intro position _
    refine ⟨.ofBytes (body.drop position), ?_, ByteStream.content_ofBytes _, rfl⟩
    simp only [source, found, Option.map_some, Option.getD_some]

/-- Every store offers a package that has been put into it. -/
theorem offers_insertPackage (store : MemoryStore) (package : Package) :
    (store.insertPackage package).source.Offers package.number package.body
      (Record.encode package.key) :=
  offers_of_find? (find?_insert_self _ _ _ _)

/-- A changed body is offered with the keys that it had. -/
theorem offers_changeBody (store : MemoryStore) (package : Package) (change : Bytes → Bytes) :
    ((store.insertPackage package).changeBody package.number change).source.Offers package.number
      (change package.body) (Record.encode package.key) := by
  have found : (store.insertPackage package).find? package.number =
      some ⟨package.body, [Record.encode package.key]⟩ := find?_insert_self _ _ _ _
  apply offers_of_find?
  rw [changeBody, found]
  exact find?_insert_self _ _ _ _

end MemoryStore

/-- A source that holds one message alone: its body, with a single candidate key. -/
structure Source.Serves (source : Source) (number : UInt64) (body key : Bytes) : Prop where
  numbers : source.numbers = .ok [number]
  candidates : source.candidates number = .ok [key]
  bodyLength : source.bodyLength number = .ok (some body.length)
  openBody : ∀ position ≤ body.length, ∃ stream, source.openBody number position = .ok stream ∧
    stream.content = body.drop position ∧ stream.ending = .finished

/-- A message that is served is offered. -/
theorem Source.Serves.offers {source : Source} {number : UInt64} {body key : Bytes}
    (serves : source.Serves number body key) : source.Offers number body key :=
  ⟨⟨_, serves.numbers, List.mem_singleton.mpr rfl⟩, serves.candidates, serves.bodyLength,
    serves.openBody⟩

/-- A package that is stored in an empty store is served from there. -/
theorem MemoryStore.serves_insertPackage (package : Package) :
    (empty.insertPackage package).source.Serves package.number package.body
      (Record.encode package.key) := by
  have offers := offers_insertPackage empty package
  exact ⟨rfl, offers.candidates, offers.bodyLength, offers.openBody⟩

end Missive
