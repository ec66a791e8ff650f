import DdlCatalog.Proofs.LikeGrammar
import DdlCatalog.Proofs.NameLookup
import DdlCatalog.Text.Split
import Mathlib.Data.List.Forall2
import Mathlib.Data.List.Nodup

namespace DdlCatalog

theorem biUnique_zip {α β : Type} {xs : List α} {ys : List β} (hx : xs.Nodup) (hy : ys.Nodup) :
    Relator.BiUnique fun x y => (x, y) ∈ xs.zip ys := by
  constructor
  · intro a b c hac hbc
    obtain ⟨i, hi, hia⟩ := List.mem_iff_getElem.mp hac
    obtain ⟨j, hj, hjb⟩ := List.mem_iff_getElem.mp hbc
    rw [List.getElem_zip, Prod.mk.injEq] at hia hjb
    obtain rfl := (List.Nodup.getElem_inj_iff hy).mp (hia.2.trans hjb.2.symm)
    exact hia.1.symm.trans hjb.1
  · intro a b c hab hac
    obtain ⟨i, hi, hib⟩ := List.mem_iff_getElem.mp hab
    obtain ⟨j, hj, hjc⟩ := List.mem_iff_getElem.mp hac
    rw [List.getElem_zip, Prod.mk.injEq] at hib hjc
    obtain rfl := (List.Nodup.getElem_inj_iff hx).mp (hib.1.trans hjc.1.symm)
    exact hib.2.symm.trans hjc.2

/-- Names that correspond part by part, where dots divide them. -/
def Dotted (Word : String → String → Prop) (name other : String) : Prop :=
  List.Forall₂ (fun a b => Word (String.ofList a) (String.ofList b))
    (Text.splitAt '.' name.toList) (Text.splitAt '.' other.toList)

namespace Dotted

variable {Word : String → String → Prop}

theorem of_word {a b : String} (h : Word a b) (ha : '.' ∉ a.toList) (hb : '.' ∉ b.toList) :
    Dotted Word a b := by
  unfold Dotted
  rw [Text.splitAt_of_notMem ha, Text.splitAt_of_notMem hb]
  exact .cons (by rwa [String.ofList_toList, String.ofList_toList]) .nil

theorem append {a b c d : String} (h : Dotted Word a b) (h' : Dotted Word c d) :
    Dotted Word (a ++ "." ++ c) (b ++ "." ++ d) := by
  have hsplit : ∀ front back : String, Text.splitAt '.' (front ++ "." ++ back).toList =
      Text.splitAt '.' front.toList ++ Text.splitAt '.' back.toList := by
    intro front back
    rw [← Text.splitAt_append_cons]
    simp
  unfold Dotted
  rw [hsplit, hsplit]
  exact List.rel_append h h'

theorem biUnique (h : Relator.BiUnique Word) : Relator.BiUnique (Dotted Word) := by
  have hparts : Relator.BiUnique fun a b : List Char => Word (String.ofList a) (String.ofList b) :=
    ⟨fun _ _ _ hac hbc => String.ofList_injective (h.1 hac hbc),
      fun _ _ _ hab hac => String.ofList_injective (h.2 hab hac)⟩
  have hsplit : ∀ {a b : String},
      Text.splitAt '.' a.toList = Text.splitAt '.' b.toList → a = b := by
    intro a b hab
    have hjoin := congrArg (['.'].intercalate ·) hab
    rwa [Text.intercalate_splitAt, Text.intercalate_splitAt, String.toList_inj] at hjoin
  have hlists := hparts.forall₂
  exact ⟨fun _ _ _ hac hbc => hsplit (hlists.1 hac hbc),
    fun _ _ _ hab hac => hsplit (hlists.2 hab hac)⟩

end Dotted

namespace NameMap

variable {α β : Type}

theorem perm_insertInto (name : String) (value : α) {entries : List (String × α)}
    (h : entries.Pairwise fun a b => a.1 < b.1) :
    (insertInto name value entries).Perm
      ((name, value) :: entries.filter fun entry => entry.1 ≠ name) := by
  have hkeep : ∀ {entries : List (String × α)}, (∀ entry ∈ entries, name < entry.1) →
      entries.filter (fun entry => entry.1 ≠ name) = entries := by
    intro entries hlt
    refine List.filter_eq_self.mpr fun entry he => ?_
    simpa using fun heq : entry.1 = name => String.lt_irrefl name (heq ▸ hlt entry he)
  induction entries with
  | nil => exact .refl _
  | cons head rest ih =>
    obtain ⟨other, held⟩ := head
    obtain ⟨hhead, hrest⟩ := List.pairwise_cons.mp h
    rw [insertInto]
    split
    next hlt =>
      rw [hkeep]
      intro entry he
      rcases List.mem_cons.mp he with rfl | he
      · exact hlt
      · exact String.lt_trans hlt (hhead entry he)
    next hge =>
      split
      next heq =>
        subst heq
        rw [List.filter_cons_of_neg (by simp), hkeep hhead]
      next hne =>
        rw [List.filter_cons_of_pos (by simpa using Ne.symm hne)]
        exact ((ih hrest).cons _).trans (.swap _ _ _)

def Renamed (Named : String → String → Prop) (Same : α → β → Prop) (map : NameMap α)
    (other : NameMap β) : Prop :=
  ∃ entries others, entries.Perm map.entries ∧ others.Perm other.entries ∧
    List.Forall₂ (fun a b => Named a.1 b.1 ∧ Same a.2 b.2) entries others

namespace Renamed

variable {Named : String → String → Prop} {Same : α → β → Prop} {map : NameMap α}
  {other : NameMap β}

theorem empty : Renamed Named Same (.empty : NameMap α) (.empty : NameMap β) :=
  ⟨[], [], .refl _, .refl _, .nil⟩

theorem size_eq (h : map.Renamed Named Same other) : map.size = other.size := by
  obtain ⟨entries, others, hp, hp', hall⟩ := h
  rw [size, size, ← hp.length_eq, ← hp'.length_eq, hall.length_eq]

theorem insert (hn : Relator.BiUnique Named) (h : map.Renamed Named Same other)
    {name name' : String} (hname : Named name name') {value : α} {value' : β}
    (hvalue : Same value value') :
    (map.insert name value).Renamed Named Same (other.insert name' value') := by
  obtain ⟨entries, others, hp, hp', hall⟩ := h
  refine ⟨_, _, ((hp.filter _).cons _).trans (perm_insertInto name value map.ordered).symm,
    ((hp'.filter _).cons _).trans (perm_insertInto name' value' other.ordered).symm, ?_⟩
  refine .cons ⟨hname, hvalue⟩ (List.rel_filter ?_ hall)
  -- an entry gives way in one map exactly if it does in the other
  rintro a b ⟨hab, -⟩
  have hiff : a.1 = name ↔ b.1 = name' :=
    ⟨fun h => hn.2 (h ▸ hab) hname, fun h => hn.1 (h ▸ hab) hname⟩
  simp [hiff]

theorem flatMap_perm {γ : Type} {f : α → List γ} {g : β → List γ}
    (h : map.Renamed Named Same other) (hfg : ∀ a b, Same a b → (f a).Perm (g b)) :
    (map.values.flatMap f).Perm (other.values.flatMap g) := by
  obtain ⟨entries, others, hp, hp', hall⟩ := h
  have hmiddle : ((entries.map (·.2)).flatMap f).Perm ((others.map (·.2)).flatMap g) := by
    clear hp hp'
    induction hall with
    | nil => exact .refl _
    | cons hab _ ih => exact (hfg _ _ hab.2).append ih
  exact ((hp.map _).flatMap_right f).symm.trans (hmiddle.trans ((hp'.map _).flatMap_right g))

end Renamed

end NameMap

end DdlCatalog
