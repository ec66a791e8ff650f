import DdlCatalog.Disk.Path

namespace DdlCatalog

namespace Path

theorem slash_notMem_of_mem_pieces {path name : RawText} (h : name ∈ pieces path) :
    slash ∉ name ∧ name ≠ [] := by
  obtain ⟨hm, hne⟩ := List.mem_filter.mp h
  exact ⟨Text.notMem_of_mem_splitAt hm, by simpa using hne⟩

theorem pieces_join {name : RawText} (hs : slash ∉ name) (hn : name ≠ []) (folder : RawText) :
    pieces (join folder name) = pieces folder ++ [name] := by
  have hbehind : ∀ front : RawText,
      (Text.splitAt slash (front ++ slash :: name)).filter (!·.isEmpty) =
        (Text.splitAt slash front).filter (!·.isEmpty) ++ [name] := by
    intro front
    rw [Text.splitAt_append_cons, Text.splitAt_of_notMem hs, List.filter_append]
    simp [hn]
  unfold join pieces Text.partsAt
  by_cases hempty : folder = []
  · rw [if_pos (.inl hempty), hempty, List.nil_append, Text.splitAt_of_notMem hs]
    simp [hn, Text.splitAt]
  · by_cases hopen : endsOpen folder = true
    · rw [if_pos (.inr hopen)]
      obtain ⟨front, rfl⟩ : ∃ front, folder = front ++ [slash] := by
        rw [endsOpen, beq_iff_eq, List.getLast?_eq_some_iff] at hopen
        exact hopen
      rw [List.append_assoc, List.singleton_append, hbehind, Text.splitAt_append_cons]
      simp [Text.splitAt]
    · rw [if_neg (by simp [hempty, hopen]), hbehind]

theorem fileName?_of_pieces {path name : RawText} {above : List RawText}
    (h : pieces path = above ++ [name]) (hn : name ≠ Path.same ∧ name ≠ Path.up) :
    fileName? path = some name := by
  have hlast : (components path).getLast? = some name := by
    unfold components
    rw [h]
    cases above with
    | nil => simp [hn.1]
    | cons first above =>
      simp only [List.cons_append, List.filter_append]
      split <;> simp [hn.1, List.getLast?_cons]
  rw [fileName?, hlast]
  simp [hn]

theorem splitName_of_eq {stem extension : RawText} (hstem : stem ≠ [])
    (hextension : dot ∉ extension) :
    splitName (stem ++ dot :: extension) = (stem, some extension) := by
  obtain ⟨byte, front, hfront⟩ : ∃ byte front, stem.reverse = byte :: front :=
    List.exists_cons_of_ne_nil fun he => hstem (List.reverse_eq_nil_iff.mp he)
  have hreversed : (stem ++ dot :: extension).reverse =
      extension.reverse ++ dot :: stem.reverse := by simp
  have hbehind : ∀ byte ∈ extension.reverse, (byte != dot) = true := by
    intro byte hb
    rw [List.mem_reverse] at hb
    simpa using ne_of_mem_of_not_mem hb hextension
  have hdrop : (extension.reverse ++ dot :: stem.reverse).dropWhile (· != dot) =
      dot :: byte :: front := by
    rw [List.dropWhile_append_of_pos hbehind, hfront]
    rfl
  have htake : (extension.reverse ++ dot :: stem.reverse).takeWhile (· != dot) =
      extension.reverse := by
    rw [List.takeWhile_append_of_pos hbehind]
    simp
  unfold splitName
  simp only [hreversed, hdrop, htake]
  rw [← hfront, List.reverse_reverse, List.reverse_reverse]

theorem splitName_eq_some_iff {name stem extension : RawText} :
    splitName name = (stem, some extension) ↔
      name = stem ++ dot :: extension ∧ stem ≠ [] ∧ dot ∉ extension := by
  constructor
  · intro h
    unfold splitName at h
    have hall := List.takeWhile_append_dropWhile (p := (· != dot)) (l := name.reverse)
    have hbehind : ∀ byte ∈ name.reverse.takeWhile (· != dot), (byte != dot) = true :=
      fun byte hb => List.all_eq_true.mp List.all_takeWhile byte hb
    simp only at h
    split at h
    next point byte rest hdrop =>
      have hpoint : point = dot := by
        have hstop := List.head?_dropWhile_not (· != dot) name.reverse
        rw [hdrop] at hstop
        simpa using hstop
      cases h
      rw [hdrop, hpoint] at hall
      have hname := congrArg List.reverse hall
      rw [List.reverse_reverse] at hname
      refine ⟨hname.symm.trans (by simp), by simp, ?_⟩
      rw [List.mem_reverse]
      exact fun hm => by simpa using hbehind _ hm
    next => cases h
  · rintro ⟨rfl, hstem, hextension⟩
    exact splitName_of_eq hstem hextension

def IsExtension (extension : RawText) : Prop :=
  extension.map small = Text.bytes "sql"

instance (extension : RawText) : Decidable (IsExtension extension) :=
  inferInstanceAs (Decidable (extension.map small = Text.bytes "sql"))

theorem isScript_iff {path : RawText} : isScript path = true ↔
    ∃ name stem extension, fileName? path = some name ∧
      splitName name = (stem, some extension) ∧ IsExtension extension := by
  unfold isScript IsExtension
  cases fileName? path with
  | none => simp
  | some name =>
    rcases hsplit : splitName name with ⟨stem, _ | extension⟩
    · simp [hsplit]
    · simp only [Option.bind_some, hsplit, beq_iff_eq]
      refine ⟨fun h => ⟨name, stem, extension, rfl, hsplit, h⟩, ?_⟩
      rintro ⟨_, _, _, ⟨⟩, hother, h⟩
      cases hsplit.symm.trans hother
      exact h

theorem IsExtension.dot_notMem {extension : RawText} (h : IsExtension extension) :
    dot ∉ extension := by
  intro hm
  have hsmall := List.mem_map_of_mem (f := small) hm
  rw [h] at hsmall
  exact absurd hsmall (by decide)

theorem ne_output_of_isScript {path name : RawText} (h : isScript path = true)
    (hn : fileName? path = some name) (stem : String) :
    name ≠ Text.bytes (stem ++ ".json") := by
  rintro rfl
  obtain ⟨name, front, extension, hname, hsplit, hextension⟩ := isScript_iff.mp h
  obtain rfl := Option.some.inj (hn.symm.trans hname)
  obtain ⟨hdot, -, -⟩ := splitName_eq_some_iff.mp hsplit
  have hlast := congrArg (fun text : RawText => (text.map small).getLast?) hdot
  have hsmall : extension.map small = [0x73, 0x71, 0x6C] := hextension
  have hjson : Text.bytes ".json" = [0x2E, 0x6A, 0x73, 0x6F, 0x6E] := rfl
  simp [Text.bytes_append, hjson, hsmall] at hlast
  exact absurd hlast (by decide)

theorem mem_pieces_of_fileName? {path name : RawText} (h : fileName? path = some name) :
    name ∈ pieces path := by
  have hlast : (components path).getLast? = some name := by
    unfold fileName? at h
    split at h
    next found hfound =>
      split at h
      next => cases h
      next => rwa [hfound]
    next => cases h
  have hm := List.mem_of_getLast? hlast
  unfold components at hm
  cases hpieces : pieces path with
  | nil =>
    rw [hpieces] at hm
    cases hm
  | cons first rest =>
    rw [hpieces] at hm
    have hrest : ∀ piece ∈ rest.filter (· != Path.same), piece ∈ first :: rest := fun piece hp =>
      List.mem_cons_of_mem first (List.mem_filter.mp hp).1
    simp only at hm
    split at hm
    next => exact hrest name hm
    next =>
      rcases List.mem_cons.mp hm with rfl | hm
      · exact List.mem_cons_self
      · exact hrest name hm

theorem slash_notMem_stem {path : RawText} (h : isScript path = true) : slash ∉ stem path := by
  obtain ⟨name, front, extension, hname, hsplit, -⟩ := isScript_iff.mp h
  have hslash := (slash_notMem_of_mem_pieces (mem_pieces_of_fileName? hname)).1
  rw [(splitName_eq_some_iff.mp hsplit).1] at hslash
  have hstem : stem path = front := by simp [stem, hname, hsplit]
  rw [hstem]
  exact fun hm => hslash (List.mem_append_left _ hm)

structure IsName (name : RawText) : Prop where
  nonempty : name ≠ []
  closed : slash ∉ name
  plain : name ≠ same ∧ name ≠ up

instance (name : RawText) : Decidable (IsName name) :=
  decidable_of_iff (name ≠ [] ∧ slash ∉ name ∧ name ≠ same ∧ name ≠ up)
    ⟨fun h => ⟨h.1, h.2.1, h.2.2⟩, fun h => ⟨h.nonempty, h.closed, h.plain⟩⟩

theorem isAbsolute_join {name : RawText} (h : slash ∉ name) (folder : RawText) :
    isAbsolute (join folder name) = isAbsolute folder := by
  unfold join isAbsolute
  cases folder with
  | nil =>
    rw [if_pos (.inl rfl), List.nil_append]
    cases name with
    | nil => rfl
    | cons byte name =>
      rw [List.mem_cons, not_or] at h
      simpa using Ne.symm h.1
  | cons byte folder => split <;> simp

theorem components_join {name : RawText} (h : IsName name) (folder : RawText) :
    components (join folder name) = components folder ++ [name] := by
  have hkept : [name].filter (· != Path.same) = [name] := by simp [h.plain.1]
  unfold components
  rw [pieces_join h.closed h.nonempty, isAbsolute_join h.closed]
  cases pieces folder with
  | nil => simp [h.plain.1]
  | cons first rest =>
    simp only [List.cons_append, List.filter_append, hkept]
    split <;> rfl

/-- The names of scripts: a stem, and behind the last dot the extension, in any letter case. -/
def IsScriptName (name : RawText) : Prop :=
  ∃ stem extension, name = stem ++ dot :: extension ∧ stem ≠ [] ∧ IsExtension extension

theorem isScript_join_iff {name : RawText} (h : IsName name) (folder : RawText) :
    isScript (join folder name) = true ↔ IsScriptName name := by
  have hname : fileName? (join folder name) = some name :=
    fileName?_of_pieces (pieces_join h.closed h.nonempty folder) h.plain
  rw [isScript_iff]
  constructor
  · rintro ⟨found, stem, extension, hfound, hsplit, hextension⟩
    obtain rfl := Option.some.inj (hname.symm.trans hfound)
    obtain ⟨heq, hstem, -⟩ := splitName_eq_some_iff.mp hsplit
    exact ⟨stem, extension, heq, hstem, hextension⟩
  · rintro ⟨stem, extension, rfl, hstem, hextension⟩
    exact ⟨_, stem, extension, hname, splitName_of_eq hstem hextension.dot_notMem, hextension⟩

def below (path : RawText) (place : List RawText) : RawText :=
  place.foldl join path

@[simp] theorem below_nil (path : RawText) : below path [] = path := rfl

@[simp] theorem below_cons (path name : RawText) (place : List RawText) :
    below path (name :: place) = below (join path name) place := rfl

theorem pieces_below {place : List RawText} (h : ∀ name ∈ place, IsName name) (path : RawText) :
    pieces (below path place) = pieces path ++ place := by
  induction place generalizing path with
  | nil => rw [below_nil, List.append_nil]
  | cons name place ih =>
    obtain ⟨hname, hplace⟩ := List.forall_mem_cons.mp h
    rw [below_cons, ih hplace, pieces_join hname.closed hname.nonempty, List.append_assoc,
      List.singleton_append]

theorem isAbsolute_below {place : List RawText} (h : ∀ name ∈ place, IsName name) (path : RawText) :
    isAbsolute (below path place) = isAbsolute path := by
  induction place generalizing path with
  | nil => rfl
  | cons name place ih =>
    obtain ⟨hname, hplace⟩ := List.forall_mem_cons.mp h
    rw [below_cons, ih hplace, isAbsolute_join hname.closed]

theorem components_below {place : List RawText} (h : ∀ name ∈ place, IsName name) (path : RawText) :
    components (below path place) = components path ++ place := by
  induction place generalizing path with
  | nil => rw [below_nil, List.append_nil]
  | cons name place ih =>
    obtain ⟨hname, hplace⟩ := List.forall_mem_cons.mp h
    rw [below_cons, ih hplace, components_join hname, List.append_assoc, List.singleton_append]

theorem eq_of_below_eq {path : RawText} {place other : List RawText}
    (hplace : ∀ name ∈ place, IsName name) (hother : ∀ name ∈ other, IsName name)
    (h : below path place = below path other) : place = other := by
  have hcomponents := congrArg components h
  rw [components_below hplace, components_below hother] at hcomponents
  exact List.append_cancel_left hcomponents

theorem isScript_below_iff {above : List RawText} {name : RawText} (h : IsName name)
    (path : RawText) :
    isScript (below path (above ++ [name])) = true ↔ IsScriptName name := by
  rw [below, List.foldl_append]
  exact isScript_join_iff h _

theorem isLong_join {folder : RawText} (h : isLong folder = true) (name : RawText) :
    isLong (join folder name) = true := by
  rw [isLong, decide_eq_true_eq] at h ⊢
  unfold join
  split <;> simp only [List.length_append, List.length_cons] <;> omega

theorem isLong_below {path : RawText} (h : isLong path = true) (place : List RawText) :
    isLong (below path place) = true := by
  induction place generalizing path with
  | nil => exact h
  | cons name place ih => exact ih (isLong_join h name)

end Path

end DdlCatalog
