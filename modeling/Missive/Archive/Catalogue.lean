import Missive.Text.Quoted

/-!
# Catalogues

Several archives can be kept under names. A name that is taken is not taken over.
-/

namespace Missive

/-- Things under distinct names. -/
structure Catalogue (α : Type) where
  entries : List (String × α)

namespace Catalogue

variable {α : Type}

/-- A catalogue without entries. -/
def empty : Catalogue α := ⟨[]⟩

/-- What stands under a name. -/
def get? (catalogue : Catalogue α) (name : String) : Option α :=
  catalogue.entries.lookup name

/-- Whether something stands under a name. -/
def contains (catalogue : Catalogue α) (name : String) : Bool :=
  (catalogue.get? name).isSome

/-- Adds something under a name, unless the name is taken; the second result says whether. -/
def add (catalogue : Catalogue α) (name : String) (entry : α) : Catalogue α × Bool :=
  if catalogue.contains name then (catalogue, false)
  else (⟨catalogue.entries ++ [(name, entry)]⟩, true)

/-- The catalogue without a name. -/
def remove (catalogue : Catalogue α) (name : String) : Catalogue α :=
  ⟨catalogue.entries.filter fun (other, _) => other ≠ name⟩

/-- The names in ascending order. -/
def names (catalogue : Catalogue α) : List String :=
  (catalogue.entries.map Prod.fst).mergeSort

/-- The number of entries. -/
def size (catalogue : Catalogue α) : Nat :=
  catalogue.entries.length

/-- What is shown of a catalogue: the names in it. -/
def summary (catalogue : Catalogue α) : String :=
  "ContentServiceRegistry \x7b services: " ++ Text.quotedList catalogue.names ++ " \x7d"

end Catalogue

end Missive
