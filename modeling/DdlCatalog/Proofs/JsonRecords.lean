import DdlCatalog.Proofs.JsonDecoders

namespace DdlCatalog.Json

theorem exists_fields?_iff {fields : List (List Char × Json)} :
    (∃ found, fields? (.object fields) = some found) ↔
      ∀ field ∈ fields, ∃ name, Named name field := by
  rw [fields?_object, exists_mapM_iff]
  refine forall₂_congr fun field _ => ?_
  simp only [field?_eq_some_iff, Prod.exists, exists_and_left]
  simp

def under (name : String) (fields : List (List Char × Json)) : List Json :=
  (fields.filter (Named name ·)).map (·.2)

theorem named_fields? {fields : List (List Char × Json)} {found : Fields}
    (h : fields? (.object fields) = some found) (name : String) :
    found.named name = under name fields := by
  rw [fields?_object, mapM_eq_some_iff] at h
  induction h with
  | nil => rfl
  | @cons field entry fields found hentry _ ih =>
    obtain ⟨hnamed, hvalue⟩ := field?_eq_some_iff.mp hentry
    rw [Fields.named, under] at ih ⊢
    by_cases h : Named name field
    · simp [h, hnamed.unique h, Option.some.inj hvalue, ih]
    · have hne : entry.1 ≠ name := fun he => h (he ▸ hnamed)
      simp [h, hne, ih]

variable {name : String} {before after fields shown : List (List Char × Json)}
  {field : List Char × Json}

theorem under_middle_of_named (h : Named name field) :
    under name (before ++ field :: after) = under name before ++ field.2 :: under name after := by
  simp [under, h]

theorem under_middle_of_not_named (h : ¬Named name field) :
    under name (before ++ field :: after) = under name (before ++ after) := by
  simp [under, h]

theorem under_append : under name (before ++ after) = under name before ++ under name after := by
  simp [under]

/-- What one change of a record does to the trees under the name of a known field. -/
inductive Changes (slot : Slot) : List Json → List Json → Prop
  | moved {trees shown : List Json} : trees.Perm shown → Changes slot trees shown
  | restated {before after : List Json} {json shown : Json} :
      Distinct slot.form json → Restates slot.form json shown →
      Changes slot (before ++ json :: after) (before ++ shown :: after)
  | leftOut {before after : List Json} {json : Json} :
      slot.absent = some json → Changes slot (before ++ json :: after) (before ++ after)

/-- A change of a record leaves alone what stands under the name of any known field, unless that
field is the one that changes. -/
theorem Restates.changes {slots : List (String × Slot)} {json shown : Json} {found : Fields}
    (h : Restates (.record slots) json shown) (hd : Distinct (.record slots) json)
    (hf : fields? json = some found) :
    ∃ others, fields? shown = some others ∧ ∀ name slot, slots.lookup name = some slot →
      Changes slot (found.named name) (others.named name) := by
  cases h with
  | permuted hp =>
    obtain ⟨others, ho⟩ := exists_fields?_iff.mpr fun field hm =>
      exists_fields?_iff.mp ⟨found, hf⟩ field (hp.mem_iff.mpr hm)
    refine ⟨others, ho, fun name slot _ => ?_⟩
    rw [named_fields? hf, named_fields? ho]
    exact .moved ((hp.filter _).map _)
  | added hname hnone _ _ =>
    obtain ⟨others, ho⟩ := exists_fields?_iff.mpr
      (forall_mem_middle.mpr ⟨⟨_, hname⟩, exists_fields?_iff.mp ⟨found, hf⟩⟩)
    refine ⟨others, ho, fun name slot hslot => ?_⟩
    rw [named_fields? hf, named_fields? ho, under_middle_of_not_named]
    · exact .moved (.refl _)
    · intro h
      rw [h.unique hname, hnone] at hslot
      cases hslot
  | @leftOut _ before after field known slot hname hslot habsent =>
    obtain ⟨others, ho⟩ := exists_fields?_iff.mpr
      (forall_mem_middle.mp (exists_fields?_iff.mp ⟨found, hf⟩)).2
    refine ⟨others, ho, fun name other hother => ?_⟩
    rw [named_fields? hf, named_fields? ho]
    by_cases h : Named name field
    · obtain rfl := h.unique hname
      obtain rfl := Option.some.inj (hslot.symm.trans hother)
      rw [under_middle_of_named h, under_append]
      exact .leftOut habsent
    · rw [under_middle_of_not_named h]
      exact .moved (.refl _)
  | @held _ before after key json shown known slot hname hslot hs =>
    obtain ⟨hfield, hfields⟩ := forall_mem_middle.mp (exists_fields?_iff.mp ⟨found, hf⟩)
    obtain ⟨others, ho⟩ := exists_fields?_iff.mpr
      (forall_mem_middle.mpr ⟨⟨known, hname⟩, hfields⟩ :
        ∀ field ∈ before ++ (key, shown) :: after, ∃ name, Named name field)
    refine ⟨others, ho, fun name other hother => ?_⟩
    rw [named_fields? hf, named_fields? ho]
    by_cases h : Named name (key, json)
    · obtain rfl := h.unique hname
      obtain rfl := Option.some.inj (hslot.symm.trans hother)
      have hshown : Named name (key, shown) := h
      rw [under_middle_of_named h, under_middle_of_named hshown]
      cases hd with
      | record hd => exact .restated ((forall_mem_middle.mp hd).1 name slot h hslot) hs
    · have hshown : ¬Named name (key, shown) := h
      rw [under_middle_of_not_named h, under_middle_of_not_named hshown]
      exact .moved (.refl _)

/-- Changes are made to records that are objects, so that the names of the fields do not matter. -/
theorem Restates.record?_eq {slots : List (String × Slot)} {json shown : Json}
    (h : Restates (.record slots) json shown) (names : List String) :
    record? names json = fields? json ∧ record? names shown = fields? shown := by
  cases h <;> exact ⟨rfl, rfl⟩

/-- The trees under the name of a known field give it no value. -/
inductive Spoilt (slot : Slot) : List Json → Prop
  | repeated {trees : List Json} : 2 ≤ trees.length → Spoilt slot trees
  | missing : slot.absent = none → Spoilt slot []
  | held {trees : List Json} {json : Json} :
      json ∈ trees → Faulty slot.form json → Spoilt slot trees

theorem Faulty.record?_eq {slots : List (String × Slot)} {json : Json}
    (h : Faulty (.record slots) json) (names : List String) :
    record? names json = fields? json := by
  cases h <;> rfl

theorem Faulty.spoilt {slots : List (String × Slot)} {json : Json} {found : Fields}
    (h : Faulty (.record slots) json) (hf : fields? json = some found) :
    ∃ name slot, slots.lookup name = some slot ∧ Spoilt slot (found.named name) := by
  cases h with
  | @repeated _ fields first second name slot hslot hs hfirst hsecond =>
    refine ⟨name, slot, hslot, ?_⟩
    rw [named_fields? hf]
    have hlength := ((hs.filter (Named name ·)).map (·.2)).length_le
    exact .repeated (by simpa [hfirst, hsecond, under] using hlength)
  | @missing _ fields name slot hslot habsent hn =>
    refine ⟨name, slot, hslot, ?_⟩
    have hempty : under name fields = [] := by simpa [under] using hn
    rw [named_fields? hf, hempty]
    exact .missing habsent
  | @held _ fields field name slot hslot hm hname hfaulty =>
    refine ⟨name, slot, hslot, ?_⟩
    rw [named_fields? hf]
    refine .held (List.mem_map.mpr ⟨field, List.mem_filter.mpr ⟨hm, ?_⟩, rfl⟩) hfaulty
    exact decide_eq_true hname

variable {α β : Type} {form : Form} {decode : Decoder α} {name : String} {slot : Slot}
  {slots : List (String × Slot)}

structure Fetches (name : String) (slot : Slot) (read : Fields → Option α) : Prop where
  steady : ∀ {fields shown value}, Changes slot (fields.named name) (shown.named name) →
    read fields = some value → read shown = some value
  strict : ∀ {fields}, Spoilt slot (fields.named name) → read fields = none

theorem required?_eq_some_iff {fields : Fields} {value : α} :
    fields.required? name decode = some value ↔
      ∃ json, fields.named name = [json] ∧ decode json = some value := by
  unfold Fields.required?
  split
  next json h => simp [h]
  next h => exact ⟨nofun, fun ⟨json, hj, _⟩ => (h json hj).elim⟩

theorem optional?_eq_some_iff {fields : Fields} {absent value : α} :
    fields.optional? name decode absent = some value ↔
      fields.named name = [] ∧ absent = value ∨
      ∃ json, fields.named name = [json] ∧ decode json = some value := by
  unfold Fields.optional?
  split
  next h => simp [h]
  next json h => simp [h]
  next hnil hone =>
    exact ⟨nofun, fun
      | .inl ⟨hn, _⟩ => (hnil hn).elim
      | .inr ⟨json, hj, _⟩ => (hone json hj).elim⟩

theorem append_cons_eq_singleton_iff {before after : List α} {x y : α} :
    before ++ x :: after = [y] ↔ before = [] ∧ x = y ∧ after = [] := by
  cases before <;> simp

theorem Changes.of_singleton {json : Json} {shown : List Json} (h : Changes slot [json] shown) :
    (∃ other, shown = [other] ∧
      (json = other ∨ Distinct slot.form json ∧ Restates slot.form json other)) ∨
    shown = [] ∧ slot.absent = some json := by
  generalize htrees : [json] = trees at h
  cases h with
  | moved hp =>
    subst htrees
    exact .inl ⟨json, (List.singleton_perm.mp hp).symm, .inl rfl⟩
  | restated hd hs =>
    obtain ⟨rfl, rfl, rfl⟩ := append_cons_eq_singleton_iff.mp htrees.symm
    exact .inl ⟨_, rfl, .inr ⟨hd, hs⟩⟩
  | leftOut habsent =>
    obtain ⟨rfl, rfl, rfl⟩ := append_cons_eq_singleton_iff.mp htrees.symm
    exact .inr ⟨rfl, habsent⟩

theorem Changes.of_nil {shown : List Json} (h : Changes slot [] shown) : shown = [] := by
  generalize htrees : [] = trees at h
  cases h with
  | moved hp =>
    subst htrees
    exact hp.nil_eq.symm
  | restated | leftOut => simp at htrees

theorem Spoilt.of_singleton {json : Json} (h : Spoilt slot [json]) : Faulty slot.form json := by
  cases h with
  | repeated htwo => exact absurd htwo (by simp)
  | held hm hf => exact List.mem_singleton.mp hm ▸ hf

theorem Spoilt.of_nil (h : Spoilt slot []) : slot.absent = none := by
  cases h with
  | repeated htwo => exact absurd htwo (by simp)
  | missing habsent => exact habsent
  | held hm => exact absurd hm List.not_mem_nil

theorem Fetches.required (h : Follows form decode) :
    Fetches name (.required form) (·.required? name decode) where
  steady hc hv := by
    obtain ⟨json, hjson, hvalue⟩ := required?_eq_some_iff.mp hv
    rw [hjson] at hc
    rcases hc.of_singleton with ⟨other, hother, rfl | ⟨hd, hs⟩⟩ | ⟨-, habsent⟩
    · exact required?_eq_some_iff.mpr ⟨json, hother, hvalue⟩
    · exact required?_eq_some_iff.mpr ⟨other, hother, h.steady hs hd hvalue⟩
    · cases habsent
  strict hs := by
    refine Option.eq_none_iff_forall_ne_some.mpr fun value hv => ?_
    obtain ⟨json, hjson, hvalue⟩ := required?_eq_some_iff.mp hv
    rw [hjson] at hs
    rw [h.strict hs.of_singleton] at hvalue
    cases hvalue

theorem Fetches.optional {json : Json} {absent : α} (h : Follows form decode)
    (ha : decode json = some absent) :
    Fetches name (.optional form json) (·.optional? name decode absent) where
  steady hc hv := by
    rcases optional?_eq_some_iff.mp hv with ⟨hnil, rfl⟩ | ⟨tree, htree, hvalue⟩
    · rw [hnil] at hc
      exact optional?_eq_some_iff.mpr (.inl ⟨hc.of_nil, rfl⟩)
    · rw [htree] at hc
      rcases hc.of_singleton with ⟨other, hother, rfl | ⟨hd, hs⟩⟩ | ⟨hnil, habsent⟩
      · exact optional?_eq_some_iff.mpr (.inr ⟨tree, hother, hvalue⟩)
      · exact optional?_eq_some_iff.mpr (.inr ⟨other, hother, h.steady hs hd hvalue⟩)
      · obtain rfl := Option.some.inj habsent
        exact optional?_eq_some_iff.mpr (.inl ⟨hnil, Option.some.inj (ha.symm.trans hvalue)⟩)
  strict hs := by
    refine Option.eq_none_iff_forall_ne_some.mpr fun value hv => ?_
    rcases optional?_eq_some_iff.mp hv with ⟨hnil, -⟩ | ⟨tree, htree, hvalue⟩
    · rw [hnil] at hs
      cases hs.of_nil
    · rw [htree] at hs
      rw [h.strict hs.of_singleton] at hvalue
      cases hvalue

structure Gathers (slots : List (String × Slot)) (read : Fields → Option α) : Prop where
  steady : ∀ {fields shown value},
    (∀ entry ∈ slots, Changes entry.2 (fields.named entry.1) (shown.named entry.1)) →
    read fields = some value → read shown = some value
  strict : ∀ {fields}, (∃ entry ∈ slots, Spoilt entry.2 (fields.named entry.1)) →
    read fields = none

theorem Gathers.pure (value : α) : Gathers [] fun _ => some value where
  steady _ hv := hv
  strict h := by
    obtain ⟨_, hm, -⟩ := h
    exact absurd hm List.not_mem_nil

theorem Gathers.bind {read : Fields → Option α} {next : α → Fields → Option β}
    (h : Fetches name slot read) (hn : ∀ value, Gathers slots (next value)) :
    Gathers ((name, slot) :: slots)
      fun fields => read fields >>= fun value => next value fields where
  steady {fields shown result} hc hr := by
    obtain ⟨hfirst, hrest⟩ := List.forall_mem_cons.mp hc
    obtain ⟨value, hvalue, hresult⟩ := Option.bind_eq_some_iff.mp hr
    exact Option.bind_eq_some_iff.mpr
      ⟨value, h.steady hfirst hvalue, (hn value).steady hrest hresult⟩
  strict {fields} hs := by
    obtain ⟨entry, hm, hs⟩ := hs
    rcases List.mem_cons.mp hm with rfl | hm
    · exact Option.bind_eq_none_iff.mpr fun value hv => by rw [h.strict hs] at hv; cases hv
    · exact Option.bind_eq_none_iff.mpr fun value _ => (hn value).strict ⟨entry, hm, hs⟩

theorem Follows.record {names : List String} {read : Fields → Option α}
    (hn : (slots.map (·.1)).Nodup) (h : Gathers slots read) :
    Follows (.record slots) fun json => record? names json >>= read where
  steady {json shown value} hs hd hv := by
    obtain ⟨hjson, hshown⟩ := hs.record?_eq names
    rw [hjson] at hv
    rw [hshown]
    obtain ⟨fields, hfields, hvalue⟩ := Option.bind_eq_some_iff.mp hv
    obtain ⟨others, hothers, hchanges⟩ := hs.changes hd hfields
    refine Option.bind_eq_some_iff.mpr ⟨others, hothers, h.steady (fun entry hm => ?_) hvalue⟩
    exact hchanges entry.1 entry.2 ((NameMap.mem_iff_lookup_eq_some hn).mp hm)
  strict {json} hf := by
    rw [hf.record?_eq names]
    refine Option.bind_eq_none_iff.mpr fun fields hfields => ?_
    obtain ⟨name, slot, hslot, hspoilt⟩ := hf.spoilt hfields
    exact h.strict ⟨(name, slot), (NameMap.mem_iff_lookup_eq_some hn).mpr hslot, hspoilt⟩

end DdlCatalog.Json
