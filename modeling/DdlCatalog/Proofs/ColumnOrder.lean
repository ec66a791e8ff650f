import DdlCatalog.Proofs.LastDefinitions
import Mathlib.Data.Finset.Card

namespace DdlCatalog

theorem pairwise_mergeSort_key {α : Type} {key : α → Nat} {Before : α → α → Prop} {items : List α}
    (h : items.Pairwise Before) :
    (items.mergeSort fun a b => key a ≤ key b).Pairwise fun a b =>
      key a < key b ∨ key a = key b ∧ Before a b := by
  have htrans : ∀ a b c : α, decide (key a ≤ key b) = true → decide (key b ≤ key c) = true →
      decide (key a ≤ key c) = true := by
    intro a b c hab hbc
    simp only [decide_eq_true_eq] at *
    omega
  have htotal : ∀ a b : α, (decide (key a ≤ key b) || decide (key b ≤ key a)) = true := by
    intro a b
    simp only [Bool.or_eq_true, decide_eq_true_eq]
    omega
  have hperm := List.mergeSort_perm items fun a b => decide (key a ≤ key b)
  have hsorted := List.pairwise_mergeSort htrans htotal items
  have hsublist := @List.sublist_mergeSort _ _ items htrans htotal
  generalize items.mergeSort (fun a b => decide (key a ≤ key b)) = sorted at hperm hsorted hsublist
  -- the items of one number are the same list before and after
  have hsame : ∀ n, sorted.filter (key · = n) = items.filter (key · = n) := by
    intro n
    have hlevel : (items.filter (key · = n)).Pairwise fun a b => decide (key a ≤ key b) = true := by
      refine List.pairwise_of_forall_mem_list fun a ha b hb => ?_
      simp only [List.mem_filter, decide_eq_true_eq] at ha hb ⊢
      omega
    have hsub := (hsublist hlevel List.filter_sublist).filter (key · = n)
    rw [List.filter_filter] at hsub
    simp only [Bool.and_self] at hsub
    exact (hsub.eq_of_length (hperm.filter _).length_eq.symm).symm
  rw [List.pairwise_iff_forall_sublist] at hsorted h ⊢
  intro a b hab
  have hle := hsorted hab
  rw [decide_eq_true_eq] at hle
  by_cases heq : key a = key b
  · have hlevel := hab.filter (key · = key b)
    rw [hsame] at hlevel
    simp only [List.filter_cons, heq, decide_true, if_true, List.filter_nil] at hlevel
    exact .inr ⟨heq, h (hlevel.trans List.filter_sublist)⟩
  · exact .inl (by omega)

namespace Table

theorem countNames_eq_card (columns : List Column) :
    countNames columns = (columns.map (·.name)).toFinset.card :=
  (List.card_toFinset _).symm

theorem countNames_le_append (front back : List Column) :
    countNames front ≤ countNames (front ++ back) := by
  rw [countNames_eq_card, countNames_eq_card]
  exact Finset.card_le_card fun name hm => by simp_all

theorem countNames_append_eq_iff {front back : List Column} :
    countNames front = countNames (front ++ back) ↔
      ∀ column ∈ back, column.name ∈ front.map (·.name) := by
  have hsub : (front.map (·.name)).toFinset ⊆ ((front ++ back).map (·.name)).toFinset :=
    fun name hm => by simp_all
  rw [countNames_eq_card, countNames_eq_card]
  constructor
  · intro h column hm
    have heq := Finset.eq_of_subset_of_card_le hsub h.ge
    have hname : column.name ∈ ((front ++ back).map (·.name)).toFinset :=
      List.mem_toFinset.mpr (List.mem_map_of_mem (List.mem_append_right front hm))
    rw [← heq] at hname
    exact List.mem_toFinset.mp hname
  · intro h
    refine congrArg Finset.card (hsub.antisymm fun name hm => ?_)
    rw [List.mem_toFinset, List.map_append, List.mem_append] at hm
    rcases hm with hm | hm
    · exact List.mem_toFinset.mpr hm
    · obtain ⟨column, hc, rfl⟩ := List.mem_map.mp hm
      exact List.mem_toFinset.mpr (h column hc)

/-- The columns that no later one of the same name replaces, in the order in which they come. -/
def lasting : List Column → List Column
  | [] => []
  | column :: later =>
    if column.name ∈ later.map (·.name) then lasting later else column :: lasting later

/-- `a` and `b` are each the last column of their name, with `before` and `between` in front. -/
def LastPair (columns before : List Column) (a : Column) (between : List Column) (b : Column) :
    Prop :=
  ∃ rest, columns = before ++ a :: rest ∧ a.name ∉ rest.map (·.name) ∧
    LastOf (·.name = b.name) rest between b

/-- From the last declaration of `a` to that of `b`, no column brings a new name. -/
def Stalled (columns : List Column) (a b : Column) : Prop :=
  ∃ before between, LastPair columns before a between b ∧
    ∀ column ∈ a :: between, column.name ∈ before.map (·.name)

/-- A table holds the lasting columns, each at a position of its own, and by position they come in
the order of their declarations. -/
structure InDeclaredOrder (table : Table) (columns : List Column) : Prop where
  distinct : (table.columns.values.map (·.position)).Nodup
  order : table.orderedColumns.map (·.placedAt 0) = (lasting columns).map (·.placedAt 0)

def placedBehind (front : List Column) : List Column → List Column
  | [] => []
  | column :: later =>
    if column.name ∈ later.map (·.name) then placedBehind (front ++ [column]) later
    else column.placedAt (countNames front) :: placedBehind (front ++ [column]) later

theorem map_placedBehind (front columns : List Column) :
    (placedBehind front columns).map (·.placedAt 0) = (lasting columns).map (·.placedAt 0) := by
  induction columns generalizing front with
  | nil => rfl
  | cons column later ih =>
    rw [placedBehind, lasting]
    split
    next => exact ih _
    next => rw [List.map_cons, List.map_cons, ih, Column.placedAt_placedAt]

theorem mem_placedBehind_cons_iff {front later : List Column} {first column : Column} :
    column ∈ placedBehind front (first :: later) ↔
      (∀ other ∈ later, other.name ≠ first.name) ∧ column = first.placedAt (countNames front) ∨
        column ∈ placedBehind (front ++ [first]) later := by
  rw [placedBehind]
  split
  next hfirst =>
    obtain ⟨other, ho, hname⟩ := List.mem_map.mp hfirst
    exact (or_iff_right fun h => h.1 other ho hname).symm
  next hfirst =>
    have hothers : ∀ other ∈ later, other.name ≠ first.name := fun other ho hname =>
      hfirst (List.mem_map.mpr ⟨other, ho, hname⟩)
    rw [List.mem_cons, and_iff_right hothers]

theorem mem_placedBehind_iff {front columns : List Column} {column : Column} :
    column ∈ placedBehind front columns ↔ ∃ between last,
      LastOf (·.name = column.name) columns between last ∧
        column = last.placedAt (countNames (front ++ between)) := by
  induction columns generalizing front with
  | nil => simp [placedBehind, not_lastOf_nil]
  | cons first later ih =>
    have hmore : column ∈ placedBehind (front ++ [first]) later ↔ ∃ more last,
        LastOf (·.name = column.name) later more last ∧
          column = last.placedAt (countNames (front ++ first :: more)) := by
      simpa using @ih (front ++ [first])
    rw [mem_placedBehind_cons_iff, hmore]
    simp only [lastOf_cons_iff]
    constructor
    · rintro (⟨hothers, rfl⟩ | ⟨more, last, hlast, hcolumn⟩)
      · exact ⟨[], first, .inl ⟨rfl, rfl, rfl, hothers⟩, by rw [List.append_nil]⟩
      · exact ⟨_, last, .inr ⟨more, rfl, hlast⟩, hcolumn⟩
    · rintro ⟨between, last, ⟨rfl, rfl, hname, hothers⟩ | ⟨more, rfl, hlast⟩, hcolumn⟩
      · rw [List.append_nil] at hcolumn
        exact .inl ⟨fun other ho => hname ▸ hothers other ho, hcolumn⟩
      · exact .inr ⟨more, last, hlast, hcolumn⟩

theorem lastPair_cons_iff {first a b : Column} {later before between : List Column} :
    LastPair (first :: later) before a between b ↔
      before = [] ∧ a = first ∧ first.name ∉ later.map (·.name) ∧
          LastOf (·.name = b.name) later between b ∨
        ∃ more, before = first :: more ∧ LastPair later more a between b := by
  constructor
  · rintro ⟨rest, hsplit, ha, hb⟩
    cases before with
    | nil =>
      cases hsplit
      exact .inl ⟨rfl, rfl, ha, hb⟩
    | cons head more =>
      cases hsplit
      exact .inr ⟨more, rfl, rest, rfl, ha, hb⟩
  · rintro (⟨rfl, rfl, ha, hb⟩ | ⟨more, rfl, rest, rfl, ha, hb⟩)
    · exact ⟨later, rfl, ha, hb⟩
    · exact ⟨rest, rfl, ha, hb⟩

/-- A relation holds all along the placed columns when it holds for each pair of last
declarations. -/
theorem pairwise_placedBehind_iff {R : Column → Column → Prop} {front columns : List Column} :
    (placedBehind front columns).Pairwise R ↔ ∀ before a between b,
      LastPair columns before a between b →
        R (a.placedAt (countNames (front ++ before)))
          (b.placedAt (countNames ((front ++ before) ++ a :: between))) := by
  -- the induction is over the columns still to come: `front` takes up each one passed
  induction columns generalizing front with
  | nil =>
    refine iff_of_true .nil fun before a between b h => ?_
    obtain ⟨rest, hsplit, -⟩ := h
    simp at hsplit
  | cons first later ih =>
    have hmore : (placedBehind (front ++ [first]) later).Pairwise R ↔ ∀ more a between b,
        LastPair later more a between b →
          R (a.placedAt (countNames (front ++ first :: more)))
            (b.placedAt (countNames ((front ++ first :: more) ++ a :: between))) := by
      simpa using @ih (front ++ [first])
    have hsplit : (placedBehind front (first :: later)).Pairwise R ↔
        (first.name ∉ later.map (·.name) → ∀ b ∈ placedBehind (front ++ [first]) later,
          R (first.placedAt (countNames front)) b) ∧
        (placedBehind (front ++ [first]) later).Pairwise R := by
      rw [placedBehind]
      split
      next hfirst => exact (and_iff_right fun hn => absurd hfirst hn).symm
      next hfirst => rw [List.pairwise_cons, imp_iff_right hfirst]
    rw [hsplit, hmore]
    constructor
    · rintro ⟨hhead, htail⟩ before a between b hpair
      rcases lastPair_cons_iff.mp hpair with ⟨rfl, rfl, ha, hb⟩ | ⟨more, rfl, hmore⟩
      · have hm : b.placedAt (countNames ((front ++ [a]) ++ between)) ∈
            placedBehind (front ++ [a]) later := mem_placedBehind_iff.mpr ⟨between, b, hb, rfl⟩
        simpa using hhead ha _ hm
      · exact htail more a between b hmore
    · intro h
      refine ⟨fun hfirst b hb => ?_, fun more a between b hpair => ?_⟩
      · obtain ⟨between, last, hlast, hb⟩ := mem_placedBehind_iff.mp hb
        have hname : last.name = b.name := by rw [hb, Column.name_placedAt]
        rw [← hname] at hlast
        have hr := h [] first between last (lastPair_cons_iff.mpr (.inl ⟨rfl, rfl, hfirst, hlast⟩))
        rw [hb]
        simpa using hr
      · exact h _ a between b (lastPair_cons_iff.mpr (.inr ⟨more, rfl, hpair⟩))

theorem pairwise_name_placedBehind (front columns : List Column) :
    (placedBehind front columns).Pairwise fun a b => a.name ≠ b.name := by
  rw [pairwise_placedBehind_iff]
  rintro before a between b ⟨rest, rfl, ha, back, rfl, -, -⟩ hname
  exact ha (List.mem_map.mpr ⟨b, by simp, hname.symm⟩)

theorem mem_values_pushAll_iff {table : String} {columns : List Column} {column : Column} :
    column ∈ ((named table).pushAll columns).columns.values ↔
      column ∈ placedBehind [] columns := by
  have hstored : ∀ name, ((named table).pushAll columns).column? name = some column ↔
      column.name = name ∧ column ∈ placedBehind [] columns := by
    intro name
    rw [column?_pushAll_eq_some_iff, mem_placedBehind_iff]
    constructor
    · rintro ⟨front, last, hlast, rfl⟩
      obtain rfl : last.name = name := hlast.choose_spec.2.1
      exact ⟨rfl, front, last, hlast, rfl⟩
    · rintro ⟨rfl, front, last, hlast, hcolumn⟩
      exact ⟨front, last, hlast, hcolumn⟩
  have hentry : ∀ name, (name, column) ∈ ((named table).pushAll columns).columns.entries ↔
      column.name = name ∧ column ∈ placedBehind [] columns := fun name =>
    (NameMap.mem_entries_iff _ _ _).trans (hstored name)
  constructor
  · intro h
    obtain ⟨⟨name, held⟩, hm, rfl⟩ := List.mem_map.mp h
    exact ((hentry name).mp hm).2
  · intro h
    exact List.mem_map.mpr ⟨(column.name, column), (hentry _).mpr ⟨rfl, h⟩, rfl⟩

theorem pairwise_values_pushAll (table : String) (columns : List Column) :
    ((named table).pushAll columns).columns.values.Pairwise fun a b => a.name < b.name := by
  have hname : ∀ entry ∈ ((named table).pushAll columns).columns.entries,
      entry.2.name = entry.1 := by
    rintro ⟨name, column⟩ hm
    obtain ⟨front, last, ⟨back, -, hlast, -⟩, rfl⟩ :=
      column?_pushAll_eq_some_iff.mp ((NameMap.mem_entries_iff _ _ _).mp hm)
    exact hlast
  refine List.pairwise_map.mpr (List.Pairwise.imp_of_mem ?_ (NameMap.ordered _))
  intro a b ha hb hlt
  rwa [hname a ha, hname b hb]

theorem values_pushAll_perm (table : String) (columns : List Column) :
    ((named table).pushAll columns).columns.values.Perm (placedBehind [] columns) := by
  refine (List.perm_ext_iff_of_nodup ?_ ?_).mpr fun column => mem_values_pushAll_iff
  · refine (pairwise_values_pushAll table columns).imp ?_
    rintro a b hlt rfl
    exact String.lt_irrefl _ hlt
  · refine (pairwise_name_placedBehind [] columns).imp ?_
    rintro a b hne rfl
    exact hne rfl

def Precedes (a b : Column) : Prop :=
  a.position < b.position ∨ a.position = b.position ∧ a.name < b.name

theorem orderedColumns_pushAll_perm (table : String) (columns : List Column) :
    ((named table).pushAll columns).orderedColumns.Perm (placedBehind [] columns) :=
  (List.mergeSort_perm _ _).trans (values_pushAll_perm table columns)

theorem Precedes.asymm {a b : Column} (hab : Precedes a b) : ¬Precedes b a := by
  rintro (hba | ⟨hba, hname'⟩) <;> rcases hab with hab | ⟨hab, hname⟩
  · omega
  · omega
  · omega
  · exact String.lt_irrefl _ (String.lt_trans hname hname')

theorem eq_orderedColumns_pushAll_iff {table : String} {columns held : List Column} :
    held = ((named table).pushAll columns).orderedColumns ↔
      held.Perm ((named table).pushAll columns).columns.values ∧ held.Pairwise Precedes := by
  have hperm : ((named table).pushAll columns).orderedColumns.Perm
      ((named table).pushAll columns).columns.values := List.mergeSort_perm _ _
  have hsorted : ((named table).pushAll columns).orderedColumns.Pairwise Precedes :=
    pairwise_mergeSort_key (pairwise_values_pushAll table columns)
  constructor
  · rintro rfl
    exact ⟨hperm, hsorted⟩
  · rintro ⟨hheld, hpairwise⟩
    refine (hheld.trans hperm.symm).eq_of_pairwise ?_ hpairwise hsorted
    exact fun a b _ _ hab hba => absurd hba hab.asymm

theorem orderedColumns_pushAll_eq_iff {table : String} {columns : List Column} :
    ((named table).pushAll columns).orderedColumns = placedBehind [] columns ↔
      (placedBehind [] columns).Pairwise Precedes := by
  rw [eq_comm, eq_orderedColumns_pushAll_iff]
  exact and_iff_right (values_pushAll_perm table columns).symm

theorem eq_placedBehind_of_map_eq {held columns : List Column}
    (hperm : held.Perm (placedBehind [] columns))
    (h : held.map (·.placedAt 0) = (placedBehind [] columns).map (·.placedAt 0)) :
    held = placedBehind [] columns := by
  have hnodup : ((placedBehind [] columns).map (·.name)).Nodup :=
    List.pairwise_map.mpr (pairwise_name_placedBehind [] columns)
  refine List.ext_getElem hperm.length_eq fun i hi hi' => ?_
  have heq : held[i].placedAt 0 = (placedBehind [] columns)[i].placedAt 0 := by
    simpa [hi, hi'] using congrArg (·[i]?) h
  have hname : held[i].name = (placedBehind [] columns)[i].name := by
    simpa using congrArg Column.name heq
  refine List.inj_on_of_nodup_map hnodup ?_ (List.getElem_mem hi') hname
  exact hperm.mem_iff.mp (List.getElem_mem hi)

/-- The sorted columns follow the declarations exactly when stalled ones happen to stand in the
order of their names. -/
theorem map_orderedColumns_pushAll_eq_iff {table : String} {columns : List Column} :
    ((named table).pushAll columns).orderedColumns.map (·.placedAt 0) =
        (lasting columns).map (·.placedAt 0) ↔
      ∀ a b, Stalled columns a b → a.name < b.name := by
  have hplaced : ((named table).pushAll columns).orderedColumns.map (·.placedAt 0) =
        (lasting columns).map (·.placedAt 0) ↔
      ((named table).pushAll columns).orderedColumns = placedBehind [] columns := by
    rw [← map_placedBehind []]
    exact ⟨eq_placedBehind_of_map_eq (orderedColumns_pushAll_perm table columns), congrArg _⟩
  rw [hplaced, orderedColumns_pushAll_eq_iff, pairwise_placedBehind_iff]
  constructor
  · rintro h a b ⟨before, between, hpair, hknown⟩
    have hsame := countNames_append_eq_iff.mpr hknown
    rcases h before a between b hpair with hlt | ⟨-, hname⟩
    · exact absurd hlt (by simp [← hsame])
    · exact hname
  · intro h before a between b hpair
    rcases Nat.lt_or_eq_of_le (countNames_le_append before (a :: between)) with hlt | hsame
    · exact .inl hlt
    · exact .inr ⟨hsame, h a b ⟨before, between, hpair, countNames_append_eq_iff.mp hsame⟩⟩

theorem nodup_position_pushAll_iff {table : String} {columns : List Column} :
    (((named table).pushAll columns).columns.values.map (·.position)).Nodup ↔
      ∀ a b, ¬Stalled columns a b := by
  rw [((values_pushAll_perm table columns).map _).nodup_iff, List.Nodup, List.pairwise_map,
    pairwise_placedBehind_iff]
  constructor
  · rintro h a b ⟨before, between, hpair, hknown⟩
    exact h before a between b hpair (countNames_append_eq_iff.mpr hknown)
  · intro h before a between b hpair hsame
    exact h a b ⟨before, between, hpair, countNames_append_eq_iff.mp hsame⟩

theorem inDeclaredOrder_pushAll_iff {table : String} {columns : List Column} :
    ((named table).pushAll columns).InDeclaredOrder columns ↔ ∀ a b, ¬Stalled columns a b := by
  constructor
  · exact fun h => nodup_position_pushAll_iff.mp h.distinct
  · intro h
    exact ⟨nodup_position_pushAll_iff.mpr h,
      map_orderedColumns_pushAll_eq_iff.mpr fun a b hab => absurd hab (h a b)⟩

/-- A new table keeps pushed columns in the order of their declarations unless two of them are
stalled. In particular a table that a script creates keeps those of its column list so. -/
theorem declaredOrder (table : String) (columns : List Column) :
    (((named table).pushAll columns).InDeclaredOrder columns ↔ ∀ a b, ¬Stalled columns a b) ∧
      (((named table).pushAll columns).orderedColumns.map (·.placedAt 0) =
          (lasting columns).map (·.placedAt 0) ↔
        ∀ a b, Stalled columns a b → a.name < b.name) ∧
      ∀ {tokens : List Token} {origin : Origin} {schema : Schema} {full : String} {held : Table},
        Schema.ofTokens tokens origin = .ok schema → schema.table? full = some held →
        ∃ list columns, Syntax.LastColumnList (tokens.filter (!·.isTrivia)) full list columns ∧
          held = (named full).pushAll columns ∧
          (held.InDeclaredOrder columns ↔ ∀ a b, ¬Stalled columns a b) := by
  refine ⟨inDeclaredOrder_pushAll_iff, map_orderedColumns_pushAll_eq_iff, ?_⟩
  intro tokens origin schema full held h ht
  obtain ⟨list, columns, hlast, rfl⟩ := (Schema.table?_ofTokens_eq_some_iff h).mp ht
  exact ⟨list, columns, hlast, rfl, inDeclaredOrder_pushAll_iff⟩

theorem inDeclaredOrder_of_nodup {table : String} {columns : List Column}
    (h : (columns.map (·.name)).Nodup) :
    ((named table).pushAll columns).InDeclaredOrder columns := by
  rw [inDeclaredOrder_pushAll_iff]
  rintro a b ⟨before, between, ⟨rest, rfl, -, -⟩, hknown⟩
  have ha : a.name ∈ before.map (·.name) := hknown a List.mem_cons_self
  rw [List.map_append, List.map_cons] at h
  exact (List.nodup_append.mp h).2.2 _ ha _ List.mem_cons_self rfl

/-- A column that comes again takes the position of the next new one, which the sorting by name
puts before it. -/
theorem not_inDeclaredOrder_repeated :
    let b := Column.plain "B" (.plain "INT")
    let a := Column.plain "A" (.plain "INT")
    let list : List Token :=
      [⟨"(", .symbol, 17, 18, 1, 1⟩, ⟨"B", .string, 18, 21, 1, 1⟩, ⟨"INT", .keyword, 22, 25, 1, 1⟩,
       ⟨",", .symbol, 25, 26, 1, 1⟩, ⟨"B", .string, 27, 30, 1, 1⟩, ⟨"INT", .keyword, 31, 34, 1, 1⟩,
       ⟨",", .symbol, 34, 35, 1, 1⟩, ⟨"A", .string, 36, 39, 1, 1⟩, ⟨"INT", .keyword, 40, 43, 1, 1⟩,
       ⟨")", .symbol, 43, 44, 1, 1⟩]
    (∃ schema, Schema.ofTokens (Schema.creating list 44) .oracle = .ok schema ∧
        schema.table? "T" = some ((named "T").pushAll [b, b, a])) ∧
      ¬(((named "T").pushAll [b, b, a]).columns.values.map (·.position)).Nodup ∧
      ((named "T").pushAll [b, b, a]).orderedColumns.map (·.placedAt 0) ≠
        (lasting [b, b, a]).map (·.placedAt 0) := by
  intro b a list
  have hstalled : Stalled [b, b, a] b a :=
    ⟨[b], [], ⟨[a], rfl, by decide, [], rfl, rfl, nofun⟩, by decide⟩
  refine ⟨?_, fun h => nodup_position_pushAll_iff.mp h b a hstalled, fun h => ?_⟩
  · have hcolumn (name : String) (i j k l : Nat) : Syntax.Element
        [⟨name, .string, i, j, 1, 1⟩, ⟨"INT", .keyword, k, l, 1, 1⟩]
        (some (Column.plain name (.plain "INT"))) := by
      have htype : Syntax.TypeName [⟨"INT", .keyword, k, l, 1, 1⟩] (Text.upper "INT") := .word rfl
      rw [show Text.upper "INT" = "INT" by decide] at htype
      exact .column (.mk rfl (.mk htype .absent .absent) .absent .nil)
    have hb : Syntax.NextElement
        [⟨",", .symbol, 25, 26, 1, 1⟩, ⟨"B", .string, 27, 30, 1, 1⟩,
         ⟨"INT", .keyword, 31, 34, 1, 1⟩] (some b) := .mk rfl (hcolumn "B" 27 30 31 34)
    have ha : Syntax.NextElement
        [⟨",", .symbol, 34, 35, 1, 1⟩, ⟨"A", .string, 36, 39, 1, 1⟩,
         ⟨"INT", .keyword, 40, 43, 1, 1⟩] (some a) := .mk rfl (hcolumn "A" 36 39 40 43)
    have hlist : Syntax.ColumnList list [b, b, a] :=
      .mk rfl (hcolumn "B" 18 21 22 25) (.cons hb (.cons ha .nil)) rfl
    exact Schema.exists_ofTokens_creating hlist (by decide) 44
  · exact absurd (map_orderedColumns_pushAll_eq_iff.mp h b a hstalled) (by decide)

end Table

end DdlCatalog
