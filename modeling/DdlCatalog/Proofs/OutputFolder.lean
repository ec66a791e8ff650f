import DdlCatalog.Proofs.ByteOrder
import DdlCatalog.Proofs.DiskGrowth
import DdlCatalog.Proofs.FileLoop
import DdlCatalog.Proofs.PathNames
import Mathlib.Data.List.Nodup

namespace DdlCatalog

theorem Folder.isScript_of_mem_scripts {inside : Folder} {path found : RawText}
    (h : found ∈ inside.scripts path) : Path.isScript found = true := by
  have hscript : ∀ {path : RawText}, found ∈ scriptAt path → Path.isScript found = true := by
    intro path hm
    unfold scriptAt at hm
    split at hm
    next hs => rwa [List.mem_singleton.mp hm]
    next => cases hm
  induction inside generalizing path with
  | empty => cases h
  | file name data others ih =>
    rcases List.mem_append.mp h with hm | hm
    · exact hscript hm
    · exact ih hm
  | folder name inside others ihinside ihothers =>
    rcases List.mem_append.mp h with hm | hm
    · split at hm
      next => exact hscript hm
      next => exact ihinside hm
    · exact ihothers hm

namespace Command

theorem isScript_of_mem_scripts {disk : Disk} {input : RawText} {paths : List RawText}
    (h : scripts disk input = .ok paths) : ∀ path ∈ paths, Path.isScript path = true := by
  unfold scripts at h
  intro path hp
  split at h
  next => cases h
  next =>
    cases h
    split at hp
    next hs => rwa [List.mem_singleton.mp hp]
    next => cases hp
  next inside _ =>
    cases h
    exact Folder.isScript_of_mem_scripts (List.mem_mergeSort.mp hp)

/-- The places where the output of that name may be written. -/
def OutputPlace (stem : String) (place : List RawText) : Prop :=
  place.getLast? = some (Text.bytes (stem ++ ".json"))

theorem outputName_injective {a b : String}
    (h : Text.bytes (a ++ ".json") = Text.bytes (b ++ ".json")) : a = b := by
  rw [Text.bytes_append, Text.bytes_append] at h
  exact Text.bytes_injective (List.append_cancel_right h)

theorem slash_notMem_outputName {path : RawText} (h : Path.isScript path = true) :
    Path.slash ∉ outputName path := by
  intro hm
  obtain ⟨c, hc, hbyte⟩ := List.mem_flatMap.mp hm
  have hslash : c = '/' :=
    Char.toNat_inj.mp (Text.toNat_eq_of_mem_utf8EncodeChar hbyte (by decide))
  rw [hslash, String.toList_append, List.mem_append] at hc
  rcases hc with hstem | hextension
  · obtain ⟨front, back, hsplit⟩ := Text.exists_of_mem_shown hstem (by decide)
    have hencode : String.utf8EncodeChar '/' = [Path.slash] := rfl
    refine Path.slash_notMem_stem h ?_
    rw [hsplit, hencode]
    simp
  · exact absurd hextension (by decide)

theorem outputName_ne_nil (path : RawText) : outputName path ≠ [] := by
  have hextension : Text.bytes ".json" ≠ [] := by decide
  rw [outputName, Text.bytes_append]
  exact List.append_ne_nil_of_right_ne_nil _ hextension

theorem pieces_target {path : RawText} (h : Path.isScript path = true) (folder : RawText) :
    Path.pieces (target folder path) = Path.pieces folder ++ [outputName path] :=
  Path.pieces_join (slash_notMem_outputName h) (outputName_ne_nil path) folder

theorem follow_of_leads_target {disk : Disk} {folder path name : RawText} {place : List RawText}
    (h : Path.isScript path = true) (hl : disk.Leads (target folder path) place name) :
    disk.follow (disk.start folder) (Path.pieces folder) = .ok place ∧ name = outputName path := by
  obtain ⟨above, hpieces, hfollow⟩ := hl.follows
  have hstart : disk.start (target folder path) = disk.start folder := by
    rw [Disk.start, Disk.start, target, Path.isAbsolute_join (slash_notMem_outputName h)]
  rw [pieces_target h] at hpieces
  obtain ⟨rfl, hname⟩ := List.append_inj' hpieces rfl
  exact ⟨hstart ▸ hfollow, (List.singleton_inj.mp hname).symm⟩

theorem ne_output_of_leads {disk : Disk} {path name : RawText} {place : List RawText}
    (h : Path.isScript path = true) (hl : disk.Leads path place name) (stem : String) :
    name ≠ Text.bytes (stem ++ ".json") := by
  obtain ⟨above, hpieces, -⟩ := hl.follows
  have hname := Path.fileName?_of_pieces hpieces ⟨hl.plain.1, hl.plain.2.1⟩
  exact Path.ne_output_of_isScript h hname stem

theorem target_eq_iff {folder a b : RawText} :
    target folder a = target folder b ↔ outputStem a = outputStem b := by
  refine ⟨fun h => ?_, fun h => by rw [target, target, outputName, outputName, h]⟩
  have hjoin : ∀ x y : RawText, Path.join folder x = Path.join folder y → x = y := by
    intro x y hxy
    unfold Path.join at hxy
    split at hxy <;> simpa using hxy
  exact outputName_injective (hjoin _ _ h)

theorem write_grows {path : RawText} (h : Path.isScript path = true) (disk : Disk)
    (folder : RawText) (text : String) :
    Disk.Grows (OutputPlace (outputStem path)) disk (write disk folder path text).2 ∧
      ((write disk folder path text).1 = .ok () →
        (write disk folder path text).2.entry (target folder path) =
          .ok (.file text.toUTF8)) := by
  have hfolders := (disk.makeFolders_grows folder).mono
    (fun place => False.elim : ∀ place, False → OutputPlace (outputStem path) place)
  unfold write
  split
  next e made hmade =>
    rw [hmade] at hfolders
    exact ⟨hfolders, nofun⟩
  next made hmade =>
    rw [hmade] at hfolders
    split
    next => exact ⟨hfolders, nofun⟩
    next written hwritten =>
      obtain ⟨place, name, hleads, hgrows, hdata⟩ := Disk.writeFile_grows hwritten
      have hname := (follow_of_leads_target h hleads).2
      have hplace : ∀ other, other = place ++ [name] → OutputPlace (outputStem path) other := by
        rintro _ rfl
        rw [OutputPlace, List.getLast?_concat, hname, outputName]
      exact ⟨hfolders.trans (hgrows.mono hplace), fun _ => hdata⟩

variable {options : Options} {folder : RawText}

/-- The turn of a script changes no file but that of its stem. If it does not fail, that file holds
the document of the script. -/
theorem turn_grows (hf : options.outputFolder = some folder) {path : RawText}
    (h : Path.isScript path = true) (disk : Disk) :
    Disk.Grows (OutputPlace (outputStem path)) disk (turn options disk path).after ∧
      ((turn options disk path).fault? = none → ∃ text json, disk.readText path = .ok text ∧
        Documented options path text json ∧
        (turn options disk path).after.entry (target folder path) =
          .ok (.file (rendered options json).toUTF8)) := by
  unfold turn Turn.fault? process
  cases hread : disk.readText path with
  | error e => exact ⟨.refl _ disk, nofun⟩
  | ok text =>
    cases hdocument : document options path text with
    | error fault => exact ⟨by simpa [hdocument] using .refl _ disk, by simp [hdocument]⟩
    | ok json =>
      obtain ⟨hgrows, hwritten⟩ := write_grows h disk folder (rendered options json)
      simp only [hdocument, hf]
      rcases hw : write disk folder path (rendered options json) with ⟨e | ⟨⟩, after⟩
      · rw [hw] at hgrows
        exact ⟨hgrows, nofun⟩
      · rw [hw] at hgrows hwritten
        exact ⟨hgrows, fun _ => ⟨text, json, rfl, document_eq_ok_iff.mp hdocument, hwritten rfl⟩⟩

theorem turns_grow (hf : options.outputFolder = some folder) {paths : List RawText}
    (h : ∀ path ∈ paths, Path.isScript path = true) (disk : Disk) :
    Disk.Grows (fun place => ∃ path ∈ paths, OutputPlace (outputStem path) place) disk
      (diskAfter disk (turns options disk paths)) := by
  induction paths generalizing disk with
  | nil => exact .refl _ disk
  | cons path paths ih =>
    obtain ⟨hscript, hscripts⟩ := List.forall_mem_cons.mp h
    have hfirst := (turn_grows hf hscript disk).1
    have hothers := ih hscripts (turn options disk path).after
    refine (hfirst.mono fun place hp => ⟨path, List.mem_cons_self, hp⟩).trans ?_
    exact hothers.mono fun place ⟨other, hm, hp⟩ => ⟨other, List.mem_cons_of_mem path hm, hp⟩

theorem exists_last_of_mem {α : Type} (key : α → String) {items : List α} {item : α}
    (h : item ∈ items) :
    ∃ front last back, items = front ++ last :: back ∧ key last = key item ∧
      ∀ later ∈ back, key later ≠ key item := by
  obtain ⟨last, hlast⟩ : ∃ last, items.reverse.find? (key · == key item) = some last := by
    rw [← Option.isSome_iff_exists, List.find?_isSome]
    exact ⟨item, List.mem_reverse.mpr h, beq_self_eq_true _⟩
  obtain ⟨hkey, back, front, hsplit, hnone⟩ := List.find?_eq_some_iff_append.mp hlast
  refine ⟨front.reverse, last, back.reverse, ?_, by simpa using hkey, fun later hl => ?_⟩
  · rw [← List.reverse_reverse items, hsplit]
    simp
  · simpa using hnone later (List.mem_reverse.mp hl)

theorem outputPlace_concat_iff {stem : String} {name : RawText} {place : List RawText} :
    OutputPlace stem (place ++ [name]) ↔ name = Text.bytes (stem ++ ".json") := by
  rw [OutputPlace, List.getLast?_concat, Option.some.injEq]

theorem entry_target_of_last {front back : List RawText} {last : RawText} {disk : Disk}
    (hf : options.outputFolder = some folder)
    (hscripts : ∀ path ∈ front ++ last :: back, Path.isScript path = true)
    (hlast : ∀ later ∈ back, outputStem later ≠ outputStem last)
    (hpass : ∀ turn ∈ turns options disk (front ++ last :: back), turn.fault? = none)
    {text : String} (ht : disk.readText last = .ok text) :
    ∃ json, Documented options last text json ∧
      (diskAfter disk (turns options disk (front ++ last :: back))).entry
        (target folder last) = .ok (.file (rendered options json).toUTF8) := by
  rw [turns_append, turns] at hpass ⊢
  rw [diskAfter_append, diskAfter_cons]
  generalize hbefore : diskAfter disk (turns options disk front) = before at hpass ⊢
  have hscript : Path.isScript last = true := hscripts last (by simp)
  have hfront : ∀ path ∈ front, Path.isScript path = true := fun path hp =>
    hscripts path (by simp [hp])
  have hback : ∀ path ∈ back, Path.isScript path = true := fun path hp =>
    hscripts path (by simp [hp])
  -- No turn before writes the script itself: outputs have other names.
  have hread : before.readText last = .ok text := by
    rw [← hbefore]
    refine (turns_grow hf hfront disk).readText ht fun place name hleads => ?_
    rintro ⟨path, -, hplace⟩
    exact ne_output_of_leads hscript hleads _ (outputPlace_concat_iff.mp hplace)
  obtain ⟨-, hwrites⟩ := turn_grows hf hscript before
  obtain ⟨same, json, hsame, hdocumented, hwritten⟩ := hwrites (hpass _ (by simp))
  obtain rfl : text = same := Except.ok.inj (hread.symm.trans hsame)
  refine ⟨json, hdocumented, ?_⟩
  -- No turn behind writes the file again: it would have the same stem.
  refine (turns_grow hf hback _).entry_file hwritten fun place name hleads => ?_
  rintro ⟨later, hm, hplace⟩
  rw [outputPlace_concat_iff, (follow_of_leads_target hscript hleads).2, outputName] at hplace
  exact hlast later hm (outputName_injective hplace).symm

/-- In an output folder the files are named by what the stems of the scripts show. After a run in
which all scripts are processed without a fault, the file of a stem holds the document of the last
script with that stem. Two scripts share a file only if their stems show the same, so no document is
lost where they all show something else. -/
theorem run_writes_by_stem {refuses : String → Option String} {words paths : List RawText}
    {disk : Disk} {options : Options} {folder : RawText}
    (h : Opens refuses words disk options paths) (hf : options.outputFolder = some folder)
    (hread : ∀ path ∈ paths, ∃ text, disk.readText path = .ok text)
    (hcode : (run refuses words disk).code = 0) :
    let outcome := run refuses words disk
    let stem := fun path => Text.shown (Path.stem path)
    let output := fun path => Path.join folder (Text.bytes (stem path ++ ".json"))
    let written := fun json : Json =>
      ((if options.pretty then json.pretty else json.compact) ++ "\n").toUTF8
    (∀ path ∈ paths, ∃ front last back text json, paths = front ++ last :: back ∧
      stem last = stem path ∧ (∀ later ∈ back, stem later ≠ stem path) ∧
      disk.readText last = .ok text ∧ Documented options last text json ∧
      outcome.disk.entry (output path) = .ok (.file (written json))) ∧
    (∀ a ∈ paths, ∀ b ∈ paths, output a = output b ↔ stem a = stem b) ∧
    ((paths.map stem).Nodup → ∀ path ∈ paths, ∃ text json,
      disk.readText path = .ok text ∧ Documented options path text json ∧
      outcome.disk.entry (output path) = .ok (.file (written json))) := by
  intro outcome stem output written
  have houtcome : outcome = processAll options disk paths := h.run_eq
  have hpass : ∀ turn ∈ turns options disk paths, turn.fault? = none :=
    no_fault_of_code_eq_zero (houtcome ▸ hcode)
  have hdisk : outcome.disk = diskAfter disk (turns options disk paths) := by
    rw [houtcome, processAll_of_no_fault hpass]
  obtain ⟨input, -, hs⟩ := h.found
  have hscripts := isScript_of_mem_scripts hs
  have hkept : ∀ path ∈ paths, ∃ front last back text json, paths = front ++ last :: back ∧
      stem last = stem path ∧ (∀ later ∈ back, stem later ≠ stem path) ∧
      disk.readText last = .ok text ∧ Documented options last text json ∧
      outcome.disk.entry (output path) = .ok (.file (written json)) := by
    intro path hp
    obtain ⟨front, last, back, hsplit, hstem, hlater⟩ := exists_last_of_mem stem hp
    obtain ⟨text, ht⟩ := hread last (by simp [hsplit])
    rw [hsplit] at hscripts hpass hdisk
    obtain ⟨json, hdocumented, hwritten⟩ :=
      entry_target_of_last hf hscripts
        (fun later hl he => hlater later hl (he.trans hstem)) hpass ht
    rw [target_eq_iff.mpr hstem, ← hdisk] at hwritten
    exact ⟨front, last, back, text, json, hsplit, hstem, hlater, ht, hdocumented, hwritten⟩
  refine ⟨hkept, fun a _ b _ => target_eq_iff, fun hdistinct path hp => ?_⟩
  obtain ⟨front, last, back, text, json, hsplit, hstem, -, ht, hdocumented, hwritten⟩ :=
    hkept path hp
  have hlast : last ∈ paths := by simp [hsplit]
  obtain rfl : last = path := List.inj_on_of_nodup_map hdistinct hlast hp hstem
  exact ⟨text, json, ht, hdocumented, hwritten⟩

theorem run_writes_by_stem_two_scripts :
    let refuses : String → Option String := fun _ => none
    let inside : Folder := .file "x.sql" "@p\n".toUTF8 (.file "y.SQL" "@q\n".toUTF8 .empty)
    let disk : Disk := ⟨.folder "d" inside .empty, []⟩
    let options : Options := { Options.none with input := some "d", outputFolder := some "out" }
    let words : List RawText := ["ddlscan", "--output-dir", "out", "d"]
    let paths : List RawText := ["d/x.sql", "d/y.SQL"]
    Opens refuses words disk options paths ∧ disk.readText "d/x.sql" = .ok "@p\n" ∧
      disk.readText "d/y.SQL" = .ok "@q\n" ∧ (run refuses words disk).code = 0 ∧
      (paths.map outputStem).Nodup ∧
      ∃ json, Documented options "d/x.sql" "@p\n" json ∧
        (run refuses words disk).disk.entry "out/x.json" =
          .ok (.file (json.compact ++ "\n").toUTF8) := by
  intro refuses inside disk options words paths
  have hline : Options.ofCommandLine words = .ok options := by decide +kernel
  have hlisted : inside.scripts "d" = paths := by decide +kernel
  have hsorted : paths.Pairwise (Path.atOrBefore · ·) := by decide +kernel
  have hopens : Opens refuses words disk options paths :=
    .of_folder hline rfl rfl rfl rfl hlisted hsorted (List.cons_ne_nil _ _)
  have hfirst : disk.readText "d/x.sql" = .ok "@p\n" := by decide +kernel
  have hsecond : disk.readText "d/y.SQL" = .ok "@q\n" := by decide +kernel
  have hcode : (run refuses words disk).code = 0 := by
    rw [hopens.run_eq]
    decide +kernel
  have hstems : (paths.map outputStem).Nodup := by decide +kernel
  have htexts : ∀ path ∈ paths, ∃ text, disk.readText path = .ok text := by
    simp only [paths, List.forall_mem_cons]
    exact ⟨⟨_, hfirst⟩, ⟨_, hsecond⟩, nofun⟩
  obtain ⟨-, -, hall⟩ := run_writes_by_stem hopens rfl htexts hcode
  obtain ⟨text, json, ht, hdocumented, hwritten⟩ := hall hstems "d/x.sql" List.mem_cons_self
  obtain rfl : "@p\n" = text := Except.ok.inj (hfirst.symm.trans ht)
  have houtput : Path.join "out" (Text.bytes (Text.shown (Path.stem "d/x.sql") ++ ".json")) =
      Text.bytes "out/x.json" := by decide +kernel
  dsimp only at hwritten
  rw [houtput] at hwritten
  exact ⟨hopens, hfirst, hsecond, hcode, hstems, json, hdocumented, hwritten⟩

/-- Of two scripts with one stem in different folders the document of the first is nowhere on the
disk, though the run succeeds. -/
theorem run_loses_document_of_same_stem :
    let refuses : String → Option String := fun _ => none
    let inside : Folder := .folder "a" (.file "x.sql" ⟨#[]⟩ .empty)
      (.folder "b" (.file "x.sql" ⟨#[]⟩ .empty) .empty)
    let disk : Disk := ⟨.folder "d" inside .empty, []⟩
    let options : Options := { Options.none with input := some "d", outputFolder := some "out" }
    let words : List RawText := ["ddlscan", "--output-dir", "out", "d"]
    let paths : List RawText := ["d/a/x.sql", "d/b/x.sql"]
    Opens refuses words disk options paths ∧ (run refuses words disk).code = 0 ∧
      disk.readText "d/a/x.sql" = .ok "" ∧
      target "out" "d/a/x.sql" = target "out" "d/b/x.sql" ∧
      ∃ json, Documented options "d/a/x.sql" "" json ∧
        ∀ file ∈ (run refuses words disk).disk.root.files,
          file.2 ≠ (json.compact ++ "\n").toUTF8 := by
  intro refuses inside disk options words paths
  have hline : Options.ofCommandLine words = .ok options := by decide +kernel
  have hlisted : inside.scripts "d" = paths := by decide +kernel
  have hsorted : paths.Pairwise (Path.atOrBefore · ·) := by decide +kernel
  have hopens : Opens refuses words disk options paths :=
    .of_folder hline rfl rfl rfl rfl hlisted hsorted (List.cons_ne_nil _ _)
  have hcode : (processAll options disk paths).code = 0 := by decide +kernel
  have hlost : ((document options "d/a/x.sql" "").toOption.any fun json =>
      (processAll options disk paths).disk.root.files.all fun file =>
        decide (file.2 ≠ (json.compact ++ "\n").toUTF8)) = true := by
    decide +kernel
  rw [hopens.run_eq]
  refine ⟨hopens, hcode, by decide +kernel, by decide +kernel, ?_⟩
  cases hd : document options "d/a/x.sql" "" with
  | error fault =>
    rw [hd] at hlost
    cases hlost
  | ok json =>
    rw [hd] at hlost
    refine ⟨json, document_eq_ok_iff.mp hd, fun file hm => ?_⟩
    exact of_decide_eq_true (List.all_eq_true.mp hlost file hm)

end Command

end DdlCatalog
