import Missive.Record.Key
import Missive.Stream

/-!
# Sources of packages, and packages in memory

A reader of packages needs four things of the place where they are kept: the numbers of the
messages that have a body, the candidate keys of a message, the length of a body, and the bytes
of a body from some position on. `Source` is any place that answers these.

A memory store maps message numbers to a body and its candidate keys. Putting a body under a
number replaces all that was there.
-/

namespace Missive

/-- A place where packages are kept, as a reader sees it. -/
structure Source where
  /-- The numbers of all messages with a body, in any order. -/
  numbers : Except Error (List UInt64)
  /-- Stored keys that may belong to a message, the preferred one first. -/
  candidates : (number : UInt64) → Except Error (List Bytes)
  /-- The length of the body of a message, if there is one. -/
  bodyLength : (number : UInt64) → Except Error (Option Nat)
  /-- The body of a message from a position to its end. -/
  openBody : (number : UInt64) → (position : Nat) → Except Error ByteStream

/-- A body with its candidate keys. -/
structure StoredPackage where
  body : Bytes
  keys : List Bytes
  deriving DecidableEq, Repr

/-- Packages under their message numbers. -/
structure MemoryStore where
  packages : List (UInt64 × StoredPackage)
  deriving DecidableEq, Repr

namespace MemoryStore

/-- A store without packages. -/
def empty : MemoryStore := ⟨[]⟩

/-- What is stored under a number. -/
def find? (store : MemoryStore) (number : UInt64) : Option StoredPackage :=
  store.packages.lookup number

/-- Stores a body with its candidate keys. -/
def insert (store : MemoryStore) (number : UInt64) (body : Bytes) (keys : List Bytes) :
    MemoryStore :=
  ⟨(number, ⟨body, keys⟩) :: store.packages.filter fun (other, _) => other ≠ number⟩

/-- Stores a package under its number, with its own key. -/
def insertPackage (store : MemoryStore) (package : Package) : MemoryStore :=
  store.insert package.number package.body [Record.encode package.key]

/-- Adds a candidate key after those of a stored package. -/
def addKey (store : MemoryStore) (number : UInt64) (key : Bytes) : Except Error MemoryStore :=
  match store.find? number with
  | some stored => .ok (store.insert number stored.body (stored.keys ++ [key]))
  | none => .error (.format (.keyWithoutBody number))

/-- Replaces the body of a stored package. -/
def changeBody (store : MemoryStore) (number : UInt64) (change : Bytes → Bytes) : MemoryStore :=
  match store.find? number with
  | some stored => store.insert number (change stored.body) stored.keys
  | none => store

/-- A body that was put under a number is there, with its keys. -/
@[simp]
theorem find?_insert_self (store : MemoryStore) (number : UInt64) (body : Bytes)
    (keys : List Bytes) : (store.insert number body keys).find? number = some ⟨body, keys⟩ := by
  simp [find?, insert]

/-- The store as a source. -/
def source (store : MemoryStore) : Source where
  numbers := .ok (store.packages.map Prod.fst)
  candidates number := .ok (((store.find? number).map StoredPackage.keys).getD [])
  bodyLength number := .ok ((store.find? number).map fun stored => stored.body.length)
  openBody number position :=
    let body := ((store.find? number).map StoredPackage.body).getD []
    .ok (.ofBytes (body.drop position))

end MemoryStore

end Missive
