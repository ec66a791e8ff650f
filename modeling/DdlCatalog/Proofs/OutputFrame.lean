import DdlCatalog.Proofs.OutputFolder
import DdlCatalog.Proofs.ScriptListing

namespace DdlCatalog

namespace Disk

variable {disk before after : Disk} {path : RawText} {place : List RawText} {name : RawText}
  {Written : List RawText → Prop}

theorem Leads.unique {other : List RawText} {next : RawText} (h : disk.Leads path place name)
    (h' : disk.Leads path other next) : place = other ∧ name = next := by
  obtain ⟨above, hpieces, hfollow⟩ := h.follows
  obtain ⟨above', hpieces', hfollow'⟩ := h'.follows
  obtain ⟨rfl, hname⟩ := List.append_inj' (hpieces.symm.trans hpieces') rfl
  exact ⟨Except.ok.inj (hfollow.symm.trans hfollow'), List.singleton_inj.mp hname⟩

theorem Grows.start_eq (h : Grows Written before after) (path : RawText) :
    after.start path = before.start path := by
  rw [start, start, h.here]

theorem Grows.readText_before (h : Grows Written before after) (hl : before.Leads path place name)
    (hw : ¬Written (place ++ [name])) {text : String} (ht : after.readText path = .ok text) :
    before.readText path = .ok text := by
  obtain ⟨data, hdata, htext⟩ := readText_eq_ok_iff.mp ht
  obtain ⟨folder, next, hleads, hfile⟩ := entry_eq_file_iff.mp hdata
  obtain ⟨rfl, rfl⟩ := (h.leads hl).unique hleads
  have hbefore := entry_eq_file_iff.mpr ⟨place, name, hl, (h.files _ _ hw).mp hfile⟩
  exact readText_eq_ok_iff.mpr ⟨data, hbefore, htext⟩

theorem Grows.follow_before (h : Grows Written before after) {base : List RawText}
    {pieces : List RawText} {start : List RawText} (hbase : before.follow start pieces = .ok base)
    {rest : List RawText} (hnames : ∀ name ∈ rest, Path.IsName name)
    (hlook : (before.look (base ++ rest)).isSome = true)
    {reached : List RawText} (hafter : after.follow start (pieces ++ rest) = .ok reached) :
    before.follow start (pieces ++ rest) = .ok (base ++ rest) := by
  induction rest using List.reverseRecOn generalizing reached with
  | nil => rwa [List.append_nil, List.append_nil]
  | append_singleton front name ih =>
    rw [← List.append_assoc] at hlook
    rw [← List.append_assoc, follow_concat_eq_ok_iff] at hafter
    rw [← List.append_assoc, ← List.append_assoc, follow_concat_eq_ok_iff]
    obtain ⟨folder, hfront, hstep⟩ := hafter
    have hfolder : before.look (base ++ front) = some none := Folder.look_eq_folder_of_concat hlook
    have hbefore := ih (fun next hm => hnames next (List.mem_append_left _ hm))
      (Option.isSome_of_mem hfolder) hfront
    have hname := hnames name (by simp)
    obtain rfl : base ++ front = folder := Except.ok.inj ((h.follow hbefore).symm.trans hfront)
    -- Something stood there, so only too long a name could stop the path before and not after.
    refine ⟨_, hbefore, step_eq_ok_iff.mpr ⟨hfolder, .inr (.inr ⟨?_, hlook, rfl⟩)⟩⟩
    rcases (step_eq_ok_iff.mp hstep).2 with ⟨hdot, -⟩ | ⟨hup, -⟩ | ⟨hplain, -⟩
    · exact absurd hdot hname.plain.1
    · exact absurd hup hname.plain.2
    · exact hplain

theorem start_below {rest : List RawText} (h : ∀ name ∈ rest, Path.IsName name) (disk : Disk)
    (input : RawText) : disk.start (Path.below input rest) = disk.start input := by
  rw [start, start, Path.isAbsolute_below h]

theorem Grows.leads_below (h : Grows Written before after) {input last : RawText}
    {base above : List RawText}
    (hbase : before.follow (before.start input) (Path.pieces input) = .ok base)
    (hnames : ∀ name ∈ above ++ [last], Path.IsName name)
    (hlook : (before.look (base ++ above ++ [last])).isSome = true)
    (hl : after.Leads (Path.below input (above ++ [last])) place name) :
    before.Leads (Path.below input (above ++ [last])) (base ++ above) last := by
  obtain ⟨front, hpieces, hfollow⟩ := hl.follows
  have hsplit : Path.pieces (Path.below input (above ++ [last])) =
      Path.pieces input ++ above ++ [last] := by
    rw [Path.pieces_below hnames, List.append_assoc]
  obtain ⟨hfront, hlast⟩ := List.append_inj' (hsplit.symm.trans hpieces) rfl
  obtain rfl := List.singleton_inj.mp hlast
  rw [← hfront, start_below hnames, h.start_eq] at hfollow
  have habove : ∀ name ∈ above, Path.IsName name := fun name hm =>
    hnames name (List.mem_append_left _ hm)
  have hfolder := Folder.look_eq_folder_of_concat hlook
  have hbefore := h.follow_before hbase habove (Option.isSome_of_mem hfolder) hfollow
  exact ⟨hl.checked, ⟨_, hsplit, by rwa [start_below hnames]⟩, hl.plain, hl.closed⟩

end Disk

namespace Command

variable {disk after : Disk} {input path : RawText} {paths : List RawText} {options : Options}
  {folder : RawText} {Written : List RawText → Prop}

theorem leads_of_mem_scripts (hn : disk.root.WellNamed) (hs : scripts disk input = .ok paths)
    (hm : path ∈ paths) (hg : Disk.Grows Written disk after) {text : String}
    (ht : after.readText path = .ok text) : ∃ place name, disk.Leads path place name := by
  obtain ⟨data, hdata, -⟩ := Disk.readText_eq_ok_iff.mp ht
  obtain ⟨place, name, hleads, -⟩ := Disk.entry_eq_file_iff.mp hdata
  unfold scripts at hs
  split at hs
  next => cases hs
  next data hentry =>
    cases hs
    split at hm
    next =>
      obtain rfl := List.mem_singleton.mp hm
      obtain ⟨place, name, hleads, -⟩ := Disk.entry_eq_file_iff.mp hentry
      exact ⟨place, name, hleads⟩
    next => cases hm
  next inside hentry =>
    cases hs
    obtain ⟨hchecked, base, hbase, hat⟩ := Disk.entry_eq_folder_iff.mp hentry
    have hinside := hn.at? hat
    obtain ⟨rest, htaken, rfl, -⟩ := (Folder.mem_scripts_iff hinside
      (Disk.isLong_of_checkPath hchecked)).mp (List.mem_mergeSort.mp hm)
    have hnames := hinside.names htaken.isSome
    have hlook : (disk.look (base ++ rest)).isSome = true := by
      rw [Disk.look, Folder.look_append hat]
      exact htaken.isSome
    obtain ⟨above, last, rfl⟩ := (List.eq_nil_or_concat' rest).resolve_left htaken.named
    rw [← List.append_assoc] at hlook
    exact ⟨base ++ above, last, hg.leads_below hbase hnames hlook hleads⟩

theorem write_changes_one (h : Path.isScript path = true) {text : String}
    (hw : write disk folder path text = (.ok (), after)) :
    ∃ place, after.follow (after.start folder) (Path.pieces folder) = .ok place ∧
      Disk.Grows (· = place ++ [outputName path]) disk after := by
  have hfolders := disk.makeFolders_grows folder
  unfold write at hw
  split at hw
  next => cases hw
  next made hmade =>
    rw [hmade] at hfolders
    split at hw
    next => cases hw
    next written hwritten =>
      cases hw
      obtain ⟨place, name, hleads, hgrows, -⟩ := Disk.writeFile_grows hwritten
      obtain ⟨hfollow, rfl⟩ := follow_of_leads_target h (hgrows.leads hleads)
      exact ⟨place, hfollow, (hfolders.mono fun _ => False.elim).trans hgrows⟩

theorem turn_changes_one (hf : options.outputFolder = some folder)
    (h : Path.isScript path = true) (hpass : (turn options disk path).fault? = none) :
    (turn options disk path).printed = "" ∧
      ∃ place, (turn options disk path).after.follow
          ((turn options disk path).after.start folder) (Path.pieces folder) = .ok place ∧
        Disk.Grows (· = place ++ [outputName path]) disk
          (turn options disk path).after := by
  unfold turn Turn.fault? process at hpass
  unfold turn Turn.printed process
  cases hread : disk.readText path with
  | error e => simp [hread] at hpass
  | ok text =>
    cases hdocument : document options path text with
    | error fault => simp [hread, hdocument] at hpass
    | ok json =>
      rcases hw : write disk folder path (rendered options json) with ⟨e | ⟨⟩, after⟩
      · simp [hread, hdocument, hf, hw] at hpass
      · simp only [hdocument, hf, hw]
        exact ⟨trivial, write_changes_one h hw⟩

/-- Turns that do not fail change the files of their stems in the output folder and nothing else. -/
theorem turns_change_outputs_only (hf : options.outputFolder = some folder) (hne : paths ≠ [])
    (h : ∀ path ∈ paths, Path.isScript path = true)
    (hpass : ∀ turn ∈ turns options disk paths, turn.fault? = none) :
    let after := diskAfter disk (turns options disk paths)
    printedBy (turns options disk paths) = "" ∧
      ∃ place, after.follow (after.start folder) (Path.pieces folder) = .ok place ∧
        Disk.Grows (fun other => ∃ path ∈ paths, other = place ++ [outputName path])
          disk after := by
  induction paths generalizing disk with
  | nil => exact absurd rfl hne
  | cons path paths ih =>
    obtain ⟨hscript, hscripts⟩ := List.forall_mem_cons.mp h
    obtain ⟨hfirst, hothers⟩ := List.forall_mem_cons.mp hpass
    obtain ⟨hprinted, place, hfollow, hgrows⟩ := turn_changes_one hf hscript hfirst
    have hone : Disk.Grows (fun other => ∃ found ∈ path :: paths,
        other = place ++ [outputName found]) disk (turn options disk path).after :=
      hgrows.mono fun other ho => ⟨path, List.mem_cons_self, ho⟩
    cases paths with
    | nil => exact ⟨by simp [turns, hprinted], place, hfollow, hone⟩
    | cons next paths =>
      obtain ⟨hsilent, place', hfollow', hgrows'⟩ := ih (List.cons_ne_nil _ _) hscripts hothers
      -- The place that the first turn found for the output folder is that of all later turns.
      have hsame := hgrows'.follow hfollow
      rw [← hgrows'.start_eq, hfollow'] at hsame
      obtain rfl := Except.ok.inj hsame
      refine ⟨?_, place', hfollow', hone.trans (hgrows'.mono ?_)⟩
      · rw [turns, printedBy_cons, hprinted, hsilent]
        rfl
      · rintro other ⟨found, hm, ho⟩
        exact ⟨found, List.mem_cons_of_mem path hm, ho⟩

theorem readText_of_mem (hn : disk.root.WellNamed) (hs : scripts disk input = .ok paths)
    (hf : options.outputFolder = some folder)
    (hpass : ∀ turn ∈ turns options disk paths, turn.fault? = none) (hm : path ∈ paths) :
    (∃ place name, disk.Leads path place name) ∧ ∃ text, disk.readText path = .ok text := by
  have hscripts := isScript_of_mem_scripts hs
  obtain ⟨front, back, rfl⟩ := List.append_of_mem hm
  rw [turns_append, turns] at hpass
  have hgrows := turns_grow hf (fun path hp => hscripts path (List.mem_append_left _ hp)) disk
  obtain ⟨-, hwrites⟩ :=
    turn_grows hf (hscripts path hm) (diskAfter disk (turns options disk front))
  obtain ⟨text, json, ht, -, -⟩ := hwrites (hpass _ (by simp))
  obtain ⟨place, name, hleads⟩ := leads_of_mem_scripts hn hs hm hgrows ht
  refine ⟨⟨place, name, hleads⟩, text, hgrows.readText_before hleads ?_ ht⟩
  rintro ⟨other, -, hplace⟩
  exact ne_output_of_leads (hscripts path hm) hleads _ (outputPlace_concat_iff.mp hplace)

/-- A run that writes into an output folder and fails nowhere prints nothing. For what the stem of a
script shows, the file of that name in the output folder holds the document of the last script whose
stem shows the same. All other files have their old bytes, the scripts among them, and no other file
is new. -/
theorem run_changes_outputs_only {refuses : String → Option String} {words : List RawText}
    (hn : disk.root.WellNamed) (h : Opens refuses words disk options paths)
    (hf : options.outputFolder = some folder) (hcode : (run refuses words disk).code = 0) :
    let outcome := run refuses words disk
    let stem := fun path => Text.shown (Path.stem path)
    let output := fun path => Text.bytes (stem path ++ ".json")
    let written := fun json : Json =>
      ((if options.pretty then json.pretty else json.compact) ++ "\n").toUTF8
    outcome.stdout = "" ∧ paths.Pairwise (Path.atOrBefore · ·) ∧
    ∃ place, outcome.disk.follow (outcome.disk.start folder) (Path.pieces folder) = .ok place ∧
      (∀ path ∈ paths, ∃ front last back text json, paths = front ++ last :: back ∧
        stem last = stem path ∧ (∀ later ∈ back, stem later ≠ stem path) ∧
        disk.readText last = .ok text ∧ Documented options last text json ∧
        outcome.disk.entry (Path.join folder (output path)) = .ok (.file (written json)) ∧
        outcome.disk.look (place ++ [output path]) = some (some (written json))) ∧
      (∀ other data, (∀ path ∈ paths, other ≠ place ++ [output path]) →
        (outcome.disk.look other = some (some data) ↔ disk.look other = some (some data))) ∧
      ∀ path ∈ paths, ∃ data, disk.entry path = .ok (.file data) ∧
        outcome.disk.entry path = .ok (.file data) := by
  intro outcome stem output written
  obtain ⟨input, -, hs⟩ := h.found
  have hscripts := isScript_of_mem_scripts hs
  have houtcome : outcome = processAll options disk paths := h.run_eq
  have hpass : ∀ turn ∈ turns options disk paths, turn.fault? = none :=
    no_fault_of_code_eq_zero (houtcome ▸ hcode)
  obtain ⟨hprinted, place, hfollow, hgrows⟩ :=
    turns_change_outputs_only hf h.some_script hscripts hpass
  rw [processAll_of_no_fault hpass] at houtcome
  have hstdout : outcome.stdout = "" := by rw [houtcome, hprinted]
  have hdisk : outcome.disk = diskAfter disk (turns options disk paths) := by rw [houtcome]
  rw [hdisk]
  refine ⟨hstdout, h.pairwise, place, hfollow, fun path hp => ?_, fun other data ho => ?_,
    fun path hp => ?_⟩
  · obtain ⟨front, last, back, hsplit, hstem, hlater⟩ := exists_last_of_mem stem hp
    have hlast : last ∈ paths := by simp [hsplit]
    obtain ⟨-, text, ht⟩ := readText_of_mem hn hs hf hpass hlast
    obtain ⟨json, hdocumented, hwritten⟩ := entry_target_of_last hf (hsplit ▸ hscripts)
      (fun later hl he => hlater later hl (he.trans hstem)) (hsplit ▸ hpass) ht
    rw [target_eq_iff.mpr hstem, ← hsplit] at hwritten
    obtain ⟨above, name, hleads, hfile⟩ := Disk.entry_eq_file_iff.mp hwritten
    obtain ⟨habove, rfl⟩ := follow_of_leads_target (hscripts path hp) hleads
    obtain rfl := Except.ok.inj (hfollow.symm.trans habove)
    exact ⟨front, last, back, text, json, hsplit, hstem, hlater, ht, hdocumented, hwritten, hfile⟩
  · refine hgrows.files other data ?_
    rintro ⟨path, hp, he⟩
    exact ho path hp he
  · obtain ⟨⟨above, name, hleads⟩, text, ht⟩ := readText_of_mem hn hs hf hpass hp
    obtain ⟨data, hdata, -⟩ := Disk.readText_eq_ok_iff.mp ht
    refine ⟨data, hdata, hgrows.entry_file hdata fun place' name' hleads' => ?_⟩
    rintro ⟨other, -, he⟩
    have hname := List.singleton_inj.mp (List.append_inj' he rfl).2
    exact ne_output_of_leads (hscripts path hp) hleads' _ hname

theorem run_changes_outputs_only_same_stem :
    let refuses : String → Option String := fun _ => none
    let inside : Folder := .folder "a" (.file "x.sql" "@p\n".toUTF8 .empty)
      (.folder "b" (.file "x.SQL" "@q\n".toUTF8 .empty) .empty)
    let disk : Disk := ⟨.folder "d" inside .empty, []⟩
    let options : Options := { Options.none with input := some "d", outputFolder := some "d/a" }
    let words : List RawText := ["ddlscan", "--output-dir", "d/a", "d"]
    let paths : List RawText := ["d/a/x.sql", "d/b/x.SQL"]
    disk.root.WellNamed ∧ Opens refuses words disk options paths ∧
      (run refuses words disk).code = 0 ∧ (run refuses words disk).stdout = "" ∧
      ∃ json, Documented options "d/b/x.SQL" "@q\n" json ∧
        (run refuses words disk).disk.entry "d/a/x.json" =
          .ok (.file (json.compact ++ "\n").toUTF8) ∧
        ∃ data, disk.entry "d/a/x.sql" = .ok (.file data) ∧
          (run refuses words disk).disk.entry "d/a/x.sql" = .ok (.file data) := by
  intro refuses inside disk options words paths
  have hline : Options.ofCommandLine words = .ok options := by decide +kernel
  have hlisted : inside.scripts "d" = paths := by decide +kernel
  have hsorted : paths.Pairwise (Path.atOrBefore · ·) := by decide +kernel
  have hopens : Opens refuses words disk options paths :=
    .of_folder hline rfl rfl rfl rfl hlisted hsorted (List.cons_ne_nil _ _)
  have hn : disk.root.WellNamed := by decide +kernel
  have hcode : (run refuses words disk).code = 0 := by
    rw [hopens.run_eq]
    decide +kernel
  obtain ⟨hstdout, -, place, -, hwritten, -, hkept⟩ :=
    run_changes_outputs_only hn hopens rfl hcode
  obtain ⟨front, last, back, text, json, hsplit, -, hlater, ht, hdocumented, hdone, -⟩ :=
    hwritten "d/a/x.sql" List.mem_cons_self
  have hstems : outputStem "d/b/x.SQL" = outputStem "d/a/x.sql" := by decide +kernel
  have hread : disk.readText "d/b/x.SQL" = .ok "@q\n" := by decide +kernel
  have houtput : Path.join "d/a" (Text.bytes (Text.shown (Path.stem "d/a/x.sql") ++ ".json")) =
      Text.bytes "d/a/x.json" := by decide +kernel
  dsimp only at hdone
  rw [houtput] at hdone
  have hend : some (Text.bytes "d/b/x.SQL") = (front ++ last :: back).getLast? :=
    congrArg List.getLast? hsplit
  rcases List.eq_nil_or_concat' back with rfl | ⟨others, later, rfl⟩
  · rw [List.getLast?_concat] at hend
    obtain rfl := Option.some.inj hend
    obtain rfl : "@q\n" = text := Except.ok.inj (hread.symm.trans ht)
    exact ⟨hn, hopens, hcode, hstdout, json, hdocumented, hdone, hkept _ List.mem_cons_self⟩
  · rw [← List.cons_append, ← List.append_assoc, List.getLast?_concat] at hend
    obtain rfl := Option.some.inj hend
    exact absurd hstems (hlater _ (by simp))

/-- A stem that is no text is written as it is shown: the output has another name than the script.
Asked for help, a run prints the usage, though an output folder is given. -/
theorem run_writes_shown_stem :
    let refuses : String → Option String := fun _ => none
    let script : RawText := 0xFE :: Text.bytes ".sql"
    let disk : Disk := ⟨.folder "d" (.file script ⟨#[]⟩ .empty) .empty, []⟩
    let options : Options := { Options.none with input := some "d", outputFolder := some "out" }
    let words : List RawText := ["ddlscan", "--output-dir", "out", "d"]
    let outcome := run refuses words disk
    Opens refuses words disk options [Path.join "d" script] ∧ outcome.code = 0 ∧
      Path.stem (Path.join "d" script) = [0xFE] ∧
      outcome.disk.look [Text.bytes "out", 0xFE :: Text.bytes ".json"] = none ∧
      (outcome.disk.look ["out", Text.bytes "\uFFFD.json"]).isSome = true ∧
      (run refuses ("ddlscan" :: Text.bytes "--help" :: words.tail) disk).stdout = usage := by
  intro refuses script disk options words outcome
  have hline : Options.ofCommandLine words = .ok options := by decide +kernel
  have hlisted : (Folder.file script ⟨#[]⟩ .empty).scripts "d" = [Path.join "d" script] := by
    decide +kernel
  have hopens : Opens refuses words disk options [Path.join "d" script] :=
    .of_folder hline rfl rfl rfl rfl hlisted (List.pairwise_singleton _ _) (List.cons_ne_nil _ _)
  rw [show outcome = _ from hopens.run_eq]
  exact ⟨hopens, by decide +kernel, by decide +kernel, by decide +kernel, by decide +kernel,
    by decide +kernel⟩

end Command

end DdlCatalog
