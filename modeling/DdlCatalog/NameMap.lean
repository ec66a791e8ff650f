namespace DdlCatalog

structure NameMap (α : Type) where
  entries : List (String × α)
  ordered : entries.Pairwise fun a b => a.1 < b.1
  deriving DecidableEq

namespace NameMap

variable {α : Type}

def empty : NameMap α := ⟨[], .nil⟩

def insertInto (name : String) (value : α) : List (String × α) → List (String × α)
  | [] => [(name, value)]
  | (other, held) :: rest =>
    if name < other then (name, value) :: (other, held) :: rest
    else if name = other then (name, value) :: rest
    else (other, held) :: insertInto name value rest

theorem mem_insertInto {name : String} {value : α} {entries : List (String × α)}
    {entry : String × α} (h : entry ∈ insertInto name value entries) :
    entry = (name, value) ∨ entry ∈ entries := by
  induction entries with
  | nil => simpa [insertInto] using h
  | cons head rest ih =>
    obtain ⟨other, held⟩ := head
    simp only [insertInto] at h
    split at h
    next => simpa using h
    next =>
      split at h
      next => grind
      next => grind

theorem insertInto_ordered (name : String) (value : α) {entries : List (String × α)}
    (h : entries.Pairwise fun a b => a.1 < b.1) :
    (insertInto name value entries).Pairwise fun a b => a.1 < b.1 := by
  induction entries with
  | nil => simp [insertInto]
  | cons head rest ih =>
    obtain ⟨other, held⟩ := head
    obtain ⟨hhead, hrest⟩ := List.pairwise_cons.mp h
    simp only [insertInto]
    split
    next hlt =>
      refine List.pairwise_cons.mpr ⟨?_, h⟩
      intro entry hm
      rcases List.mem_cons.mp hm with rfl | hm
      · exact hlt
      · exact String.lt_trans hlt (hhead entry hm)
    next hge =>
      split
      next heq =>
        subst heq
        exact List.pairwise_cons.mpr ⟨hhead, hrest⟩
      next hne =>
        refine List.pairwise_cons.mpr ⟨?_, ih hrest⟩
        intro entry hm
        rcases mem_insertInto hm with rfl | hm
        · exact Decidable.byContradiction fun h =>
            hne (String.le_antisymm (String.not_lt.mp h) (String.not_lt.mp hge))
        · exact hhead entry hm

def insert (map : NameMap α) (name : String) (value : α) : NameMap α where
  entries := insertInto name value map.entries
  ordered := insertInto_ordered name value map.ordered

def get? (map : NameMap α) (name : String) : Option α :=
  map.entries.lookup name

def size (map : NameMap α) : Nat :=
  map.entries.length

def toList (map : NameMap α) : List (String × α) :=
  map.entries

def ofList (entries : List (String × α)) : NameMap α :=
  entries.foldl (fun map entry => map.insert entry.1 entry.2) empty

def values (map : NameMap α) : List α :=
  map.entries.map (·.2)

end NameMap

end DdlCatalog
