import DdlCatalog.Proofs.DiskPlaces
import DdlCatalog.Proofs.PathNames

namespace DdlCatalog

namespace Folder

/-- Every entry has a name of its own in its folder, at any depth. -/
def WellNamed : Folder → Prop
  | empty => True
  | file name _ others => Path.IsName name ∧ others.find? name = none ∧ others.WellNamed
  | folder name inside others =>
    Path.IsName name ∧ others.find? name = none ∧ inside.WellNamed ∧ others.WellNamed

instance (name : RawText) (inside : Folder) : Decidable (inside.find? name = none) :=
  decidable_of_iff ((inside.find? name).isNone = true) Option.isNone_iff_eq_none

instance decidableWellNamed : (inside : Folder) → Decidable inside.WellNamed
  | empty => .isTrue trivial
  | file name _ others =>
    have := decidableWellNamed others
    inferInstanceAs (Decidable (Path.IsName name ∧ others.find? name = none ∧ others.WellNamed))
  | folder name inside others =>
    have := decidableWellNamed inside
    have := decidableWellNamed others
    inferInstanceAs (Decidable (Path.IsName name ∧ others.find? name = none ∧
      inside.WellNamed ∧ others.WellNamed))

variable {name : RawText} {inside others : Folder}

theorem look_cons_of_ne {other : RawText} (h : other ≠ name) (entry : Entry) (others : Folder)
    (rest : List RawText) :
    (list other entry others).look (name :: rest) = others.look (name :: rest) := by
  refine look_cons_congr ?_ rest
  rw [find?_list, if_neg h]

theorem find?_eq_none_iff : inside.find? name = none ↔ inside.look [name] = none := by
  simp [look, at?]

namespace WellNamed

theorem find? (h : inside.WellNamed) {entry : Entry} (hf : inside.find? name = some entry) :
    Path.IsName name ∧ ∀ deeper, entry = .folder deeper → deeper.WellNamed := by
  induction inside with
  | empty => cases hf
  | file other data others ih =>
    unfold Folder.find? at hf
    split at hf
    next hname =>
      cases hf
      refine ⟨hname ▸ h.1, fun deeper he => ?_⟩
      cases he
    next => exact ih h.2.2 hf
  | folder other deeper others _ ih =>
    unfold Folder.find? at hf
    split at hf
    next hname =>
      cases hf
      refine ⟨hname ▸ h.1, ?_⟩
      rintro _ ⟨⟩
      exact h.2.2.1
    next => exact ih h.2.2.2 hf

theorem names (h : inside.WellNamed) {place : List RawText}
    (hs : (inside.look place).isSome = true) : ∀ name ∈ place, Path.IsName name := by
  induction place generalizing inside with
  | nil => exact List.forall_mem_nil _
  | cons name rest ih =>
    cases hname : inside.find? name with
    | none =>
      rw [look_cons_of_none hname] at hs
      cases hs
    | some entry =>
      obtain ⟨hproper, hdeeper⟩ := h.find? hname
      refine List.forall_mem_cons.mpr ⟨hproper, ?_⟩
      cases entry with
      | file data =>
        rw [look_cons_of_file hname] at hs
        split at hs
        next hrest => rw [hrest]; exact List.forall_mem_nil _
        next => cases hs
      | folder deeper =>
        rw [look_cons_of_folder hname] at hs
        exact ih (hdeeper deeper rfl) hs

theorem at? (h : inside.WellNamed) {place : List RawText} {deeper : Folder}
    (ha : inside.at? place = some (.folder deeper)) : deeper.WellNamed := by
  fun_induction Folder.at? inside place with
  | case1 =>
    cases ha
    exact h
  | case2 => exact (h.find? ha).2 deeper rfl
  | case3 _ _ _ _ below hfind ih => exact ih ((h.find? hfind).2 below rfl) ha
  | case4 => cases ha

end WellNamed

/-- One folder lists the entries of another in some order, and so do the folders in it. -/
inductive Relisted : Folder → Folder → Prop
  | empty : Relisted .empty .empty
  | file {name : RawText} {data : ByteArray} {a b : Folder} (h : Relisted a b) :
    Relisted (.file name data a) (.file name data b)
  | folder {name : RawText} {inside inside' a b : Folder} (hi : Relisted inside inside')
    (h : Relisted a b) : Relisted (.folder name inside a) (.folder name inside' b)
  | swap {first second : RawText} (h : first ≠ second) (entry held : Entry) (others : Folder) :
    Relisted (list first entry (list second held others))
      (list second held (list first entry others))
  | trans {a b c : Folder} (h : Relisted a b) (h' : Relisted b c) : Relisted a c

theorem wellNamed_list_iff {entry : Entry} : (list name entry others).WellNamed ↔
    Path.IsName name ∧ others.find? name = none ∧
      (∀ deeper, entry = .folder deeper → deeper.WellNamed) ∧ others.WellNamed := by
  cases entry with
  | file data => simp [list, WellNamed]
  | folder deeper => simp [list, WellNamed]

namespace Relisted

theorem look {a b : Folder} (h : Relisted a b) (place : List RawText) :
    a.look place = b.look place := by
  induction h generalizing place with
  | empty => rfl
  | @file name data a b _ ih =>
    cases place with
    | nil => rfl
    | cons head rest =>
      by_cases hname : name = head
      · have hfind : ∀ others, (Folder.file name data others).find? head = some (.file data) :=
          fun others => if_pos hname
        rw [look_cons_of_file (hfind a), look_cons_of_file (hfind b)]
      · have ha := look_cons_of_ne hname (.file data) a rest
        have hb := look_cons_of_ne hname (.file data) b rest
        exact ha.trans ((ih (head :: rest)).trans hb.symm)
  | @folder name inside inside' a b _ _ ihinside ih =>
    cases place with
    | nil => rfl
    | cons head rest =>
      by_cases hname : name = head
      · have hfind : ∀ inside others,
            (Folder.folder name inside others).find? head = some (.folder inside) :=
          fun inside others => if_pos hname
        rw [look_cons_of_folder (hfind inside a), look_cons_of_folder (hfind inside' b)]
        exact ihinside rest
      · have ha := look_cons_of_ne hname (.folder inside) a rest
        have hb := look_cons_of_ne hname (.folder inside') b rest
        exact ha.trans ((ih (head :: rest)).trans hb.symm)
  | swap hne entry held others =>
    cases place with
    | nil => rfl
    | cons head rest =>
      refine look_cons_congr ?_ rest
      simp only [find?_list]
      split
      next hfirst => rw [if_neg fun hsecond => hne (hfirst.trans hsecond.symm)]
      next => rfl
  | trans _ _ ih ih' => exact (ih place).trans (ih' place)

theorem find?_eq_none {a b : Folder} (h : Relisted a b) (ha : a.find? name = none) :
    b.find? name = none := by
  rw [find?_eq_none_iff] at ha ⊢
  exact (h.look [name]).symm.trans ha

theorem wellNamed {a b : Folder} (h : Relisted a b) (ha : a.WellNamed) : b.WellNamed := by
  induction h with
  | empty => exact ha
  | file h ih => exact ⟨ha.1, h.find?_eq_none ha.2.1, ih ha.2.2⟩
  | folder _ h ihinside ih =>
    exact ⟨ha.1, h.find?_eq_none ha.2.1, ihinside ha.2.2.1, ih ha.2.2.2⟩
  | @swap first second hne entry held others =>
    simp only [wellNamed_list_iff, find?_list, if_neg hne, if_neg hne.symm] at ha ⊢
    obtain ⟨hfirst, hfirstfree, hentry, hsecond, hsecondfree, hheld, hothers⟩ := ha
    exact ⟨hsecond, hsecondfree, hheld, hfirst, hfirstfree, hentry, hothers⟩
  | trans _ _ ih ih' => exact ih' (ih ha)

end Relisted

end Folder

end DdlCatalog
