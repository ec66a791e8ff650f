import DdlCatalog.Disk

namespace DdlCatalog

def Entry.data? : Entry → Option ByteArray
  | .file data => some data
  | .folder _ => none

namespace Folder

variable {name : RawText} {entry : Entry} {inside : Folder}

theorem find?_list (name other : RawText) (entry : Entry) (others : Folder) :
    (list name entry others).find? other =
      if name = other then some entry else others.find? other := by
  cases entry <;> rfl

theorem find?_put (name other : RawText) (entry : Entry) (inside : Folder) :
    (inside.put name entry).find? other =
      if name = other then some entry else inside.find? other := by
  induction inside with
  | empty => exact find?_list name other entry empty
  | file held data others ih | folder held data others _ ih =>
    unfold put
    by_cases hname : held = name
    · rw [if_pos hname, find?_list, find?, hname]
      split <;> rfl
    · rw [if_neg hname, find?, find?, ih]
      by_cases hother : held = other
      · rw [if_pos hother, if_pos hother, if_neg fun h => hname (hother.trans h.symm)]
      · rw [if_neg hother, if_neg hother]

def look (inside : Folder) (place : List RawText) : Option (Option ByteArray) :=
  (inside.at? place).map Entry.data?

@[simp] theorem look_nil (inside : Folder) : inside.look [] = some none := rfl

theorem look_cons_of_folder {deeper : Folder} (h : inside.find? name = some (.folder deeper))
    (rest : List RawText) : inside.look (name :: rest) = deeper.look rest := by
  cases rest <;> simp [look, at?, h, Entry.data?]

theorem look_cons_of_file {data : ByteArray} (h : inside.find? name = some (.file data))
    (rest : List RawText) :
    inside.look (name :: rest) = if rest = [] then some (some data) else none := by
  cases rest <;> simp [look, at?, h, Entry.data?]

theorem look_cons_of_none (h : inside.find? name = none) (rest : List RawText) :
    inside.look (name :: rest) = none := by
  cases rest <;> simp [look, at?, h]

theorem look_eq_folder_of_concat {place : List RawText} {name : RawText}
    (h : (inside.look (place ++ [name])).isSome = true) : inside.look place = some none := by
  induction place generalizing inside with
  | nil => rfl
  | cons next rest ih =>
    rw [List.cons_append] at h
    cases hnext : inside.find? next with
    | none =>
      rw [look_cons_of_none hnext] at h
      cases h
    | some entry =>
      cases entry with
      | file data =>
        rw [look_cons_of_file hnext, if_neg (by simp)] at h
        cases h
      | folder deeper =>
        rw [look_cons_of_folder hnext] at h ⊢
        exact ih h

theorem look_concat {deeper : Folder} {place : List RawText}
    (h : inside.at? place = some (.folder deeper)) (name : RawText) :
    inside.look (place ++ [name]) = (deeper.find? name).map Entry.data? := by
  fun_induction at? inside place with
  | case1 =>
    cases h
    rfl
  | case2 inside next =>
    have hlook := look_cons_of_folder h [name]
    rw [List.singleton_append, hlook]
    rfl
  | case3 inside next second rest below hnext ih =>
    rw [List.cons_append, look_cons_of_folder hnext]
    exact ih h
  | case4 => cases h

theorem look_append {deeper : Folder} {place : List RawText}
    (h : inside.at? place = some (.folder deeper)) (rest : List RawText) :
    inside.look (place ++ rest) = deeper.look rest := by
  fun_induction at? inside place with
  | case1 =>
    cases h
    rfl
  | case2 inside next => exact look_cons_of_folder h rest
  | case3 inside next second others below hnext ih =>
    rw [List.cons_append, look_cons_of_folder hnext]
    exact ih h
  | case4 => cases h

theorem look_cons_congr {other : Folder} (h : inside.find? name = other.find? name)
    (rest : List RawText) : inside.look (name :: rest) = other.look (name :: rest) := by
  cases rest <;> simp only [look, at?, h]

theorem look_empty_cons (rest : List RawText) : empty.look (name :: rest) = none :=
  look_cons_of_none rfl rest

/-- A file, or a folder without contents, that is put under a name which no folder has is seen
there, and all other places look as before. -/
theorem look_put (he : ∀ deeper, entry = .folder deeper → deeper = empty)
    (hold : inside.look [name] ≠ some none) (place : List RawText) :
    (inside.put name entry).look place =
      if place = [name] then some entry.data? else inside.look place := by
  cases place with
  | nil => rw [if_neg (by simp), look_nil, look_nil]
  | cons next rest =>
    have hput := find?_put name next entry inside
    by_cases hname : name = next
    · subst hname
      rw [if_pos rfl] at hput
      have hbelow : rest ≠ [] → inside.look (name :: rest) = none := by
        intro hne
        cases hfind : inside.find? name with
        | none => exact look_cons_of_none hfind rest
        | some held =>
          cases held with
          | file data => rw [look_cons_of_file hfind, if_neg hne]
          | folder deeper => exact absurd (look_cons_of_folder hfind []) hold
      cases entry with
      | file data =>
        rw [look_cons_of_file hput]
        by_cases hrest : rest = []
        · simp [hrest, Entry.data?]
        · simp [hrest, hbelow hrest]
      | folder deeper =>
        rw [look_cons_of_folder hput, he deeper rfl]
        cases rest with
        | nil =>
          rw [if_pos rfl]
          rfl
        | cons below rest => rw [if_neg (by simp), hbelow (by simp), look_empty_cons]
    · rw [if_neg hname] at hput
      rw [if_neg fun h => hname (List.cons.inj h).1.symm]
      exact look_cons_congr hput rest

theorem look_putAt (he : ∀ deeper, entry = .folder deeper → deeper = empty) {above : List RawText}
    (habove : inside.look above = some none) (hold : inside.look (above ++ [name]) ≠ some none)
    (place : List RawText) :
    (inside.putAt name entry above).look place =
      if place = above ++ [name] then some entry.data? else inside.look place := by
  induction above generalizing inside place with
  | nil => exact look_put he hold place
  | cons next rest ih =>
    cases hnext : inside.find? next with
    | none =>
      rw [look_cons_of_none hnext] at habove
      cases habove
    | some held =>
      cases held with
      | file data =>
        rw [look_cons_of_file hnext] at habove
        split at habove <;> cases habove
      | folder deeper =>
        rw [look_cons_of_folder hnext] at habove
        rw [List.cons_append, look_cons_of_folder hnext] at hold
        simp only [putAt, hnext]
        cases place with
        | nil => rw [if_neg (by simp), look_nil, look_nil]
        | cons first below =>
          have hput := find?_put next first (.folder (putAt name entry deeper rest)) inside
          by_cases hfirst : next = first
          · subst hfirst
            rw [if_pos rfl] at hput
            rw [look_cons_of_folder hput, ih habove hold below, look_cons_of_folder hnext]
            simp
          · rw [if_neg hfirst] at hput
            rw [List.cons_append, if_neg fun h => hfirst (List.cons.inj h).1.symm]
            exact look_cons_congr hput below

end Folder

end DdlCatalog
