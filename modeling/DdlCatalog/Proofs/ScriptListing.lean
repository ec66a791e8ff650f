import DdlCatalog.Proofs.DiskGrowth
import DdlCatalog.Proofs.FileLoop
import DdlCatalog.Proofs.FolderNames

namespace DdlCatalog

namespace Folder

variable {path name : RawText} {inside others : Folder} {place : List RawText}

/-- A place that passes for a file when the folders are searched: a file, or a folder of which the
path has grown too long. The folder above it has to be entered. -/
structure Taken (path : RawText) (inside : Folder) (place : List RawText) : Prop where
  named : place ≠ []
  entered : Path.isLong (Path.below path place.dropLast) = false
  passes : (∃ data, inside.look place = some (some data)) ∨
    inside.look place = some none ∧ Path.isLong (Path.below path place) = true

namespace Taken

theorem congr {a b : Folder} (h : a.look place = b.look place) :
    Taken path a place ↔ Taken path b place := by
  refine ⟨fun ht => ⟨ht.named, ht.entered, ?_⟩, fun ht => ⟨ht.named, ht.entered, ?_⟩⟩
  · rw [← h]
    exact ht.passes
  · rw [h]
    exact ht.passes

theorem isSome (h : Taken path inside place) : (inside.look place).isSome = true := by
  rcases h.passes with ⟨data, hd⟩ | ⟨hf, -⟩
  · exact Option.isSome_of_mem hd
  · exact Option.isSome_of_mem hf

theorem find?_isSome {rest : List RawText} (h : Taken path inside (name :: rest)) :
    (inside.find? name).isSome = true := by
  rw [Option.isSome_iff_ne_none]
  intro hnone
  have hsome := h.isSome
  rw [look_cons_of_none hnone] at hsome
  cases hsome

end Taken

theorem not_taken_empty : ¬Taken path empty place := by
  intro h
  cases place with
  | nil => exact h.named rfl
  | cons name rest => exact absurd h.find?_isSome (by simp [find?])

theorem taken_list_iff {entry : Entry} (h : others.find? name = none) :
    Taken path (list name entry others) place ↔
      (∃ rest, place = name :: rest ∧ Taken path (list name entry others) (name :: rest)) ∨
        Taken path others place := by
  constructor
  · intro ht
    cases place with
    | nil => exact absurd rfl ht.named
    | cons head rest =>
      by_cases hname : name = head
      · exact .inl ⟨rest, by rw [hname], hname ▸ ht⟩
      · exact .inr ((Taken.congr (look_cons_of_ne hname entry others rest)).mp ht)
  · rintro (⟨rest, rfl, ht⟩ | ht)
    · exact ht
    · cases place with
      | nil => exact absurd rfl ht.named
      | cons head rest =>
        have hname : name ≠ head := by
          rintro rfl
          exact absurd ht.find?_isSome (by simp [h])
        exact (Taken.congr (look_cons_of_ne hname entry others rest)).mpr ht

theorem exists_taken_list_iff (path : RawText) (entry : Entry) (holds : List RawText → Prop)
    (h : others.find? name = none) :
    (∃ place, Taken path (list name entry others) place ∧ holds place) ↔
      (∃ rest, Taken path (list name entry others) (name :: rest) ∧ holds (name :: rest)) ∨
        ∃ place, Taken path others place ∧ holds place := by
  constructor
  · rintro ⟨place, ht, hholds⟩
    rcases (taken_list_iff h).mp ht with ⟨rest, rfl, hfirst⟩ | hother
    · exact .inl ⟨rest, hfirst, hholds⟩
    · exact .inr ⟨place, hother, hholds⟩
  · rintro (⟨rest, ht, hholds⟩ | ⟨place, ht, hholds⟩)
    · exact ⟨_, ht, hholds⟩
    · exact ⟨place, (taken_list_iff h).mpr (.inr ht), hholds⟩

theorem taken_file_iff {data : ByteArray} {rest : List RawText} (hp : Path.isLong path = false) :
    Taken path (file name data others) (name :: rest) ↔ rest = [] := by
  have hfind : (file name data others).find? name = some (.file data) := if_pos rfl
  have hlook := look_cons_of_file hfind rest
  constructor
  · intro ht
    by_contra hne
    have hsome := ht.isSome
    rw [hlook, if_neg hne] at hsome
    cases hsome
  · rintro rfl
    exact ⟨List.cons_ne_nil _ _, hp, .inl ⟨data, hlook⟩⟩

theorem taken_folder_iff {rest : List RawText} (hp : Path.isLong path = false) :
    Taken path (folder name inside others) (name :: rest) ↔
      if Path.isLong (Path.join path name) = true then rest = []
      else Taken (Path.join path name) inside rest := by
  have hfind : (folder name inside others).find? name = some (.folder inside) := if_pos rfl
  have hlook := look_cons_of_folder hfind rest
  cases rest with
  | nil =>
    split
    next hlong => exact iff_of_true ⟨List.cons_ne_nil _ _, hp, .inr ⟨hlook, hlong⟩⟩ rfl
    next hshort =>
      refine iff_of_false (fun ht => ?_) fun ht => ht.named rfl
      rcases ht.passes with ⟨data, hd⟩ | ⟨-, hlong⟩
      · cases hlook.symm.trans hd
      · exact hshort hlong
  | cons next rest =>
    split
    next hlong =>
      refine iff_of_false (fun ht => ?_) (List.cons_ne_nil _ _)
      have hentered := ht.entered
      rw [List.dropLast_cons_cons, Path.below_cons, Path.isLong_below hlong] at hentered
      cases hentered
    next =>
      refine ⟨fun ht => ⟨List.cons_ne_nil _ _, ?_, ?_⟩, fun ht => ⟨List.cons_ne_nil _ _, ?_, ?_⟩⟩
      · exact ht.entered
      · rw [← hlook]
        exact ht.passes
      · exact ht.entered
      · rw [hlook]
        exact ht.passes

theorem mem_scriptAt_iff {found : RawText} :
    found ∈ scriptAt path ↔ found = path ∧ Path.isScript found = true := by
  unfold scriptAt
  split
  next h => simp +contextual [h]
  next h =>
    refine iff_of_false List.not_mem_nil ?_
    rintro ⟨rfl, hs⟩
    exact h hs

theorem mem_scripts_iff (hn : inside.WellNamed) (hp : Path.isLong path = false) {found : RawText} :
    found ∈ inside.scripts path ↔
      ∃ place, Taken path inside place ∧ found = Path.below path place ∧
        Path.isScript found = true := by
  induction inside generalizing path with
  | empty =>
    refine iff_of_false List.not_mem_nil ?_
    rintro ⟨place, ht, -⟩
    exact not_taken_empty ht
  | file name data others ih =>
    have hfirst : ∀ rest, Taken path (file name data others) (name :: rest) ↔ rest = [] :=
      fun _ => taken_file_iff hp
    have hplaces := exists_taken_list_iff path (.file data)
      (fun place => found = Path.below path place ∧ Path.isScript found = true) hn.2.1
    rw [scripts, List.mem_append, mem_scriptAt_iff, ih hn.2.2 hp]
    refine Iff.trans (or_congr_left ?_) hplaces.symm
    simp only [list, hfirst, exists_eq_left, Path.below_cons, Path.below_nil]
  | folder name inside others ihinside ih =>
    have hfirst : ∀ rest, Taken path (folder name inside others) (name :: rest) ↔
        if Path.isLong (Path.join path name) = true then rest = []
        else Taken (Path.join path name) inside rest := fun _ => taken_folder_iff hp
    have hplaces := exists_taken_list_iff path (.folder inside)
      (fun place => found = Path.below path place ∧ Path.isScript found = true) hn.2.1
    rw [scripts, List.mem_append, ih hn.2.2.2 hp]
    refine Iff.trans (or_congr_left ?_) hplaces.symm
    -- A folder with too long a path can only be listed itself, any other one is searched.
    cases hlong : Path.isLong (Path.join path name) with
    | true =>
      simp only [hlong, if_true] at hfirst
      simp only [list, hfirst, exists_eq_left, Path.below_cons, Path.below_nil, if_true,
        mem_scriptAt_iff]
    | false =>
      simp only [hlong, Bool.false_eq_true, if_false] at hfirst
      simp only [list, hfirst, Path.below_cons, Bool.false_eq_true, if_false,
        ihinside hn.2.2.1 hlong]

theorem mem_scripts_iff_exists_name (hn : inside.WellNamed) (hp : Path.isLong path = false)
    {found : RawText} : found ∈ inside.scripts path ↔
      ∃ above name, Path.IsScriptName name ∧ found = Path.below path (above ++ [name]) ∧
        Path.isLong (Path.below path above) = false ∧
        ((∃ data, inside.look (above ++ [name]) = some (some data)) ∨
          inside.look (above ++ [name]) = some none ∧ Path.isLong found = true) := by
  rw [mem_scripts_iff hn hp]
  constructor
  · rintro ⟨place, ht, rfl, hs⟩
    obtain ⟨above, name, rfl⟩ := (List.eq_nil_or_concat' place).resolve_left ht.named
    have hname := hn.names ht.isSome name (by simp)
    have hentered := ht.entered
    rw [List.dropLast_concat] at hentered
    exact ⟨above, name, (Path.isScript_below_iff hname path).mp hs, rfl, hentered, ht.passes⟩
  · rintro ⟨above, name, hs, rfl, hentered, hpasses⟩
    have ht : Taken path inside (above ++ [name]) :=
      ⟨by simp, by rwa [List.dropLast_concat], hpasses⟩
    have hname := hn.names ht.isSome name (by simp)
    exact ⟨_, ht, rfl, (Path.isScript_below_iff hname path).mpr hs⟩

/-- Where no folder has too long a path, the scripts are the files with the name of one. -/
theorem mem_scripts_iff_of_short (hn : inside.WellNamed)
    (hall : ∀ place, inside.look place = some none →
      Path.isLong (Path.below path place) = false) {found : RawText} :
    found ∈ inside.scripts path ↔ ∃ above name data, Path.IsScriptName name ∧
      found = Path.below path (above ++ [name]) ∧
      inside.look (above ++ [name]) = some (some data) := by
  have hp : Path.isLong path = false := hall [] rfl
  rw [mem_scripts_iff_exists_name hn hp]
  constructor
  · rintro ⟨above, name, hs, rfl, -, ⟨data, hd⟩ | ⟨hf, hlong⟩⟩
    · exact ⟨above, name, data, hs, rfl, hd⟩
    · cases (hall _ hf).symm.trans hlong
  · rintro ⟨above, name, data, hs, rfl, hd⟩
    have habove := look_eq_folder_of_concat (Option.isSome_of_mem hd)
    exact ⟨above, name, hs, rfl, hall above habove, .inl ⟨data, hd⟩⟩

theorem nodup_append_scripts {first : List RawText} (hname : Path.IsName name)
    (hfree : others.find? name = none) (hn : others.WellNamed) (hp : Path.isLong path = false)
    (hfirst : first.Nodup) (hothers : (others.scripts path).Nodup)
    (hbelow : ∀ found ∈ first, ∃ rest, (∀ next ∈ rest, Path.IsName next) ∧
      found = Path.below path (name :: rest)) :
    (first ++ others.scripts path).Nodup := by
  refine List.nodup_append.mpr ⟨hfirst, hothers, ?_⟩
  rintro found hf _ ho rfl
  -- The places below the entry begin with its name, and no other entry has that name.
  obtain ⟨rest, hrest, hfound⟩ := hbelow found hf
  obtain ⟨place, ht, hsame, -⟩ := (mem_scripts_iff hn hp).mp ho
  obtain rfl : name :: rest = place := Path.eq_of_below_eq
    (List.forall_mem_cons.mpr ⟨hname, hrest⟩) (hn.names ht.isSome) (hfound.symm.trans hsame)
  exact absurd ht.find?_isSome (by simp [hfree])

theorem nodup_scriptAt (path : RawText) : (scriptAt path).Nodup := by
  unfold scriptAt
  split
  · exact List.pairwise_singleton _ _
  · exact List.nodup_nil

theorem nodup_scripts (hn : inside.WellNamed) (hp : Path.isLong path = false) :
    (inside.scripts path).Nodup := by
  have hat : ∀ path name found, found ∈ scriptAt (Path.join path name) →
      ∃ rest, (∀ next ∈ rest, Path.IsName next) ∧ found = Path.below path (name :: rest) :=
    fun path name found hm => ⟨[], List.forall_mem_nil _, (mem_scriptAt_iff.mp hm).1⟩
  induction inside generalizing path with
  | empty => exact List.nodup_nil
  | file name data others ih =>
    obtain ⟨hname, hfree, hothers⟩ := hn
    exact nodup_append_scripts hname hfree hothers hp (nodup_scriptAt _) (ih hothers hp)
      (hat path name)
  | folder name inside others ihinside ih =>
    obtain ⟨hname, hfree, hinside, hothers⟩ := hn
    rw [scripts]
    refine nodup_append_scripts hname hfree hothers hp ?_ (ih hothers hp) ?_
    · split
      next => exact nodup_scriptAt _
      next hshort => exact ihinside hinside (Bool.eq_false_iff.mpr hshort)
    · intro found hm
      split at hm
      next => exact hat path name found hm
      next hshort =>
        obtain ⟨rest, ht, hfound, -⟩ :=
          (mem_scripts_iff hinside (Bool.eq_false_iff.mpr hshort)).mp hm
        exact ⟨rest, hinside.names ht.isSome, hfound⟩

theorem scripts_perm_of_look {other : Folder} (hn : inside.WellNamed) (hother : other.WellNamed)
    (hp : Path.isLong path = false) (hlook : ∀ place, other.look place = inside.look place) :
    (other.scripts path).Perm (inside.scripts path) := by
  refine (List.perm_ext_iff_of_nodup (nodup_scripts hother hp) (nodup_scripts hn hp)).mpr ?_
  intro found
  rw [mem_scripts_iff hn hp, mem_scripts_iff hother hp]
  simp only [Taken.congr (hlook _)]

end Folder

namespace Command

variable {disk : Disk} {input : RawText} {inside : Folder}

/-- The order in which paths are listed: component by component, in the order of their bytes. -/
def ListedBefore (a b : RawText) : Prop :=
  Path.components a < Path.components b

theorem not_listedBefore_of_listedBefore {a b : RawText} (h : ListedBefore a b) :
    ¬ListedBefore b a :=
  List.lt_asymm h

theorem listedBefore_of_atOrBefore {a b : RawText} (h : Path.atOrBefore a b = true)
    (hne : Path.components a ≠ Path.components b) : ListedBefore a b := by
  rw [Path.atOrBefore_iff] at h
  by_contra hlt
  exact hne (List.le_antisymm h hlt)

theorem pairwise_listedBefore (hn : inside.WellNamed) (hp : Path.isLong input = false) :
    ((inside.scripts input).mergeSort Path.atOrBefore).Pairwise ListedBefore := by
  have hperm := List.mergeSort_perm (inside.scripts input) Path.atOrBefore
  have hnodup := hperm.nodup_iff.mpr (Folder.nodup_scripts hn hp)
  have hsorted := Path.pairwise_mergeSort_atOrBefore (inside.scripts input)
  refine (hsorted.and hnodup).imp_of_mem fun {a b} ha hb hab => ?_
  -- Paths with the same components are those of one place, and no path is listed twice.
  refine listedBefore_of_atOrBefore hab.1 fun hcomponents => hab.2 ?_
  obtain ⟨place, hplace, rfl, -⟩ := (Folder.mem_scripts_iff hn hp).mp (hperm.mem_iff.mp ha)
  obtain ⟨other, hother, rfl, -⟩ := (Folder.mem_scripts_iff hn hp).mp (hperm.mem_iff.mp hb)
  rw [Path.components_below (hn.names hplace.isSome),
    Path.components_below (hn.names hother.isSome)] at hcomponents
  rw [List.append_cancel_left hcomponents]

theorem scripts_eq_of_look {other : Disk} (hn : disk.root.WellNamed) (hother : other.root.WellNamed)
    (hhere : other.here = disk.here) (hlook : ∀ place, other.look place = disk.look place)
    (h : disk.entry input = .ok (.folder inside)) : scripts other input = scripts disk input := by
  obtain ⟨hchecked, place, hfollow, hat⟩ := Disk.entry_eq_folder_iff.mp h
  have hshort := Disk.isLong_of_checkPath hchecked
  -- The input leads to the same place of both disks.
  have hgrows : Disk.Grows (fun _ => False) disk other := by
    refine ⟨hhere, fun place hs => ?_, fun place hf => ?_, fun place data _ => ?_⟩ <;>
      rw [hlook place]
    · exact hs
    · exact hf
  obtain ⟨inside', hat'⟩ : ∃ inside', other.root.at? place = some (.folder inside') := by
    rw [← Disk.look_eq_folder_iff, hlook, Disk.look_eq_folder_iff]
    exact ⟨inside, hat⟩
  have hstart : other.start input = disk.start input := by rw [Disk.start, Disk.start, hhere]
  have hentry : other.entry input = .ok (.folder inside') :=
    Disk.entry_eq_folder_iff.mpr ⟨hchecked, place, hstart ▸ hgrows.follow hfollow, hat'⟩
  have hinside := hn.at? hat
  have hinside' := hother.at? hat'
  have hsame : ∀ rest, inside'.look rest = inside.look rest := by
    intro rest
    rw [← Folder.look_append hat, ← Folder.look_append hat']
    exact hlook (place ++ rest)
  have hperm := Folder.scripts_perm_of_look hinside hinside' hshort hsame
  have hsorted : ((inside'.scripts input).mergeSort Path.atOrBefore).Perm
      ((inside.scripts input).mergeSort Path.atOrBefore) :=
    (List.mergeSort_perm _ _).trans (hperm.trans (List.mergeSort_perm _ _).symm)
  rw [scripts, scripts, h, hentry]
  refine congrArg Except.ok (hsorted.eq_of_pairwise (fun a b _ _ hab hba => ?_)
    (pairwise_listedBefore hinside' hshort) (pairwise_listedBefore hinside hshort))
  exact absurd hba (not_listedBefore_of_listedBefore hab)

/-- The scripts below a folder. The path of each is listed once, strictly in the order of the
components, and a folder that lists its entries in another order gives the same list. Folders are
searched as long as their paths are not too long: then all scripts are listed and nothing else. A
folder with too long a path passes for a file. -/
theorem scripts_of_folder (hn : disk.root.WellNamed) (h : disk.entry input = .ok (.folder inside)) :
    ∃ paths, scripts disk input = .ok paths ∧ paths.Pairwise ListedBefore ∧
      (∀ found, found ∈ paths ↔ ∃ above name, Path.IsScriptName name ∧
        found = Path.below input (above ++ [name]) ∧
        Path.isLong (Path.below input above) = false ∧
        ((∃ data, inside.look (above ++ [name]) = some (some data)) ∨
          inside.look (above ++ [name]) = some none ∧ Path.isLong found = true)) ∧
      ((∀ place, inside.look place = some none → Path.isLong (Path.below input place) = false) →
        ∀ found, found ∈ paths ↔ ∃ above name data, Path.IsScriptName name ∧
          found = Path.below input (above ++ [name]) ∧
          inside.look (above ++ [name]) = some (some data)) ∧
      ∀ root, disk.root.Relisted root → scripts { disk with root := root } input = .ok paths := by
  obtain ⟨hchecked, place, -, hat⟩ := Disk.entry_eq_folder_iff.mp h
  have hshort := Disk.isLong_of_checkPath hchecked
  have hinside := hn.at? hat
  have hscripts : scripts disk input =
      .ok ((inside.scripts input).mergeSort Path.atOrBefore) := by rw [scripts, h]
  refine ⟨_, hscripts, pairwise_listedBefore hinside hshort, fun found => ?_,
    fun hall found => ?_, fun root hr => ?_⟩
  · rw [List.mem_mergeSort, Folder.mem_scripts_iff_exists_name hinside hshort]
  · rw [List.mem_mergeSort, Folder.mem_scripts_iff_of_short hinside hall]
  · rw [← hscripts]
    exact scripts_eq_of_look hn (hr.wellNamed hn) rfl (fun place => (hr.look place).symm) h

theorem scripts_of_folder_two_orders :
    let inside : Folder := .file "b.SQL" ⟨#[]⟩ (.file "a.sql" ⟨#[]⟩ (.file "c.txt" ⟨#[]⟩ .empty))
    let other : Folder := .file "a.sql" ⟨#[]⟩ (.file "b.SQL" ⟨#[]⟩ (.file "c.txt" ⟨#[]⟩ .empty))
    let disk : Disk := ⟨.folder "d" inside .empty, []⟩
    disk.root.WellNamed ∧ disk.entry "d" = .ok (.folder inside) ∧
      ∃ paths, scripts disk "d" = .ok paths ∧ Text.bytes "d/a.sql" ∈ paths ∧
        scripts { disk with root := .folder "d" other .empty } "d" = .ok paths := by
  intro inside other disk
  have hn : disk.root.WellNamed := by decide +kernel
  have he : disk.entry "d" = .ok (.folder inside) := rfl
  have hr : inside.Relisted other :=
    .swap (by decide +kernel) (.file ⟨#[]⟩) (.file ⟨#[]⟩) _
  obtain ⟨paths, hs, -, hmem, -, hrelisted⟩ := scripts_of_folder hn he
  refine ⟨hn, he, paths, hs, (hmem _).mpr ?_, hrelisted _ (.folder hr .empty)⟩
  exact ⟨[], "a.sql", ⟨"a", "sql", by decide +kernel⟩, by decide +kernel, by decide +kernel,
    .inl ⟨⟨#[]⟩, rfl⟩⟩

def openPath (slashes : Nat) : RawText :=
  Text.bytes "d" ++ List.replicate slashes Path.slash

theorem length_openPath (slashes : Nat) : (openPath slashes).length = slashes + 1 := by
  rw [openPath, List.length_append, List.length_replicate, Nat.add_comm]
  rfl

theorem contains_openPath (slashes : Nat) : (openPath slashes).contains 0 = false := by
  have hslash : (0 : UInt8) ≠ Path.slash := by decide
  have hfirst : (0 : UInt8) ∉ Text.bytes "d" := by decide
  simp [openPath, hslash, hfirst]

theorem pieces_openPath (slashes : Nat) : Path.pieces (openPath slashes) = [Text.bytes "d"] := by
  have hslashes : Text.splitAt Path.slash (List.replicate slashes Path.slash) =
      List.replicate (slashes + 1) [] := by
    induction slashes with
    | zero => rfl
    | succ slashes ih =>
      rw [List.replicate_succ, Text.splitAt, if_pos rfl, ih]
      rfl
  have hfirst : Text.bytes "d" = [0x64] := rfl
  rw [Path.pieces, Text.partsAt, openPath, hfirst, List.singleton_append, Text.splitAt,
    if_neg (by decide), hslashes, List.replicate_succ]
  simp

/-- A script in a folder of which the path is too long is not listed, though the script is there
and no folder is refused. -/
theorem scripts_misses_overlong :
    let inside : Folder := .folder "sub" (.file "a.sql" ⟨#[]⟩ .empty) .empty
    let disk : Disk := ⟨.folder "d" inside .empty, []⟩
    let input := openPath 4093
    disk.root.WellNamed ∧ disk.entry input = .ok (.folder inside) ∧
      inside.look ["sub", "a.sql"] = some (some ⟨#[]⟩) ∧ Path.IsScriptName "a.sql" ∧
      scripts disk input = .ok [] := by
  intro inside disk input
  have hsub : Path.IsName "sub" := by decide +kernel
  have hsize : input.length = 4094 := length_openPath 4093
  have hchecked : Disk.checkPath input = .ok () := by
    have hzero : input.contains 0 = false := contains_openPath 4093
    have hne : input ≠ [] := by
      rintro he
      rw [he] at hsize
      cases hsize
    rw [Disk.checkPath, hzero, if_neg Bool.false_ne_true, if_neg hne, Path.isLong, hsize]
    rfl
  have hstart : disk.start input = [] := by
    rw [Disk.start, ite_self]
  have he : disk.entry input = .ok (.folder inside) := by
    refine Disk.entry_eq_folder_iff.mpr ⟨hchecked, [Text.bytes "d"], ?_, rfl⟩
    rw [hstart, pieces_openPath]
    rfl
  have hlong : Path.isLong (Path.join input "sub") = true := by
    have hname : (Text.bytes "sub").length = 3 := rfl
    rw [Path.isLong, decide_eq_true_eq, Path.join]
    split <;> simp only [List.length_append, List.length_cons, hsize, hname] <;> decide
  have hother : Path.isScript (Path.join input "sub") = false := by
    rw [Bool.eq_false_iff, ne_eq, Path.isScript_join_iff hsub]
    rintro ⟨stem, extension, hname, -⟩
    have hm : Path.dot ∈ Text.bytes "sub" := by simp [hname]
    exact absurd hm (by decide)
  have hnone : inside.scripts input = [] := by
    simp [inside, Folder.scripts, hlong, Folder.scriptAt, hother]
  refine ⟨by decide +kernel, he, rfl, ⟨"a", "sql", by decide +kernel⟩, ?_⟩
  rw [scripts, he]
  simp [hnone]

end Command

end DdlCatalog
