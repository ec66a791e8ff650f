import DdlCatalog.Proofs.DiskGrowth
import DdlCatalog.Proofs.FileLoop
import DdlCatalog.Proofs.Positions
import DdlCatalog.Proofs.RoundTrip

namespace DdlCatalog

namespace Json

theorem newline_notMem_writeString (text : List Char) : '\n' ∉ writeString (escape text) := by
  have hescape : '\n' ∉ escape text := fun h =>
    absurd ((body_escape text).printable '\n' h) (by decide)
  simp [writeString, hescape]

@[simp] theorem Layout.line_dense (depth : Nat) : Layout.dense.line depth = [] := rfl

@[simp] theorem Layout.gap_dense : Layout.dense.gap = [] := rfl

theorem newline_notMem_writeItems {items : List Json} (depth : Nat)
    (h : ∀ item ∈ items, '\n' ∉ write .dense depth item) :
    '\n' ∉ writeItems .dense depth items := by
  induction items with
  | nil => simp [writeItems]
  | cons item items ih =>
    have hitem := h item List.mem_cons_self
    have hitems := ih fun other ho => h other (List.mem_cons_of_mem item ho)
    simp [writeItems, hitem, hitems]

theorem newline_notMem_writeFields {fields : List (List Char × Json)} (depth : Nat)
    (hk : ∀ field ∈ fields, ∃ text, field.1 = escape text)
    (hv : ∀ field ∈ fields, '\n' ∉ write .dense depth field.2) :
    '\n' ∉ writeFields .dense depth fields := by
  induction fields with
  | nil => simp [writeFields]
  | cons field fields ih =>
    obtain ⟨key, value⟩ := field
    obtain ⟨text, rfl⟩ := hk _ List.mem_cons_self
    have hvalue := hv _ List.mem_cons_self
    have hfields := ih (fun other ho => hk other (List.mem_cons_of_mem _ ho))
      fun other ho => hv other (List.mem_cons_of_mem _ ho)
    simp [writeFields, newline_notMem_writeString, hvalue, hfields]

theorem Regular.newline_notMem_write {json : Json} (h : Regular json) (depth : Nat) :
    '\n' ∉ write .dense depth json := by
  induction h generalizing depth with
  | null => simp [write]
  | bool value => cases value <;> simp [write]
  | number n =>
    intro hm
    exact absurd (Text.isDigit_of_mem_decimal hm) (by decide)
  | string text => exact newline_notMem_writeString text
  | @array items _ ih =>
    cases items with
    | nil => simp [write]
    | cons item items =>
      have hitem := ih item List.mem_cons_self (depth + 1)
      have hitems := newline_notMem_writeItems (depth + 1)
        fun other ho => ih other (List.mem_cons_of_mem item ho) (depth + 1)
      simp [write, hitem, hitems]
  | @object fields hkeys _ ih =>
    cases fields with
    | nil => simp [write]
    | cons field fields =>
      obtain ⟨key, value⟩ := field
      obtain ⟨text, rfl⟩ := hkeys _ List.mem_cons_self
      have hvalue := ih _ List.mem_cons_self (depth + 1)
      have hfields := newline_notMem_writeFields (depth + 1)
        (fun other ho => hkeys other (List.mem_cons_of_mem _ ho))
        fun other ho => ih other (List.mem_cons_of_mem _ ho) (depth + 1)
      simp [write, newline_notMem_writeString, hvalue, hfields]

theorem Regular.newline_notMem_compact {json : Json} (h : Regular json) :
    '\n' ∉ json.compact.toList := by
  rw [compact, String.toList_ofList]
  exact h.newline_notMem_write 0

end Json

namespace Command

/-- The catalogue of a script, if its text can be had and describes one. -/
def catalogue? (disk : Disk) (path : RawText) : Option Schema :=
  match disk.readText path with
  | .error _ => none
  | .ok text => (Schema.ofSource text (scriptOrigin path)).toOption

theorem catalogue?_eq_some_iff {disk : Disk} {path : RawText} {schema : Schema} :
    catalogue? disk path = some schema ↔ ∃ text, disk.readText path = .ok text ∧
      Schema.ofSource text (scriptOrigin path) = .ok schema := by
  unfold catalogue?
  cases disk.readText path with
  | error e => simp
  | ok text =>
    dsimp only
    cases hs : Schema.ofSource text (scriptOrigin path) <;> simp [Except.toOption, hs]

theorem catalogue?_eq_none_iff {disk : Disk} {path : RawText} :
    catalogue? disk path = none ↔ ∀ text, disk.readText path = .ok text →
      ∃ fault, Schema.ofSource text (scriptOrigin path) = .error fault := by
  unfold catalogue?
  cases disk.readText path with
  | error e => simp
  | ok text =>
    dsimp only
    cases hs : Schema.ofSource text (scriptOrigin path) <;> simp [Except.toOption, hs]

/-- Catalogues are asked for, on the standard output and on one line each. -/
structure PrintsCatalogues (options : Options) : Prop where
  outputFolder : options.outputFolder = none
  tokens : options.tokens = false
  pretty : options.pretty = false

theorem document_eq {options : Options} (h : options.tokens = false) (path : RawText)
    (text : String) :
    document options path text = (Schema.ofSource text (scriptOrigin path)).map Schema.toJson := by
  unfold document Schema.ofSource
  cases tokenize text with
  | error e => rfl
  | ok tokens =>
    dsimp only
    rw [h, if_neg Bool.false_ne_true]
    cases Schema.ofTokens tokens (scriptOrigin path) <;> rfl

namespace PrintsCatalogues

variable {options : Options} (h : PrintsCatalogues options)
include h

theorem turn_eq (disk : Disk) (path : RawText) :
    (turn options disk path).after = disk ∧
      ((turn options disk path).fault? = none ↔ (catalogue? disk path).isSome = true) ∧
      (turn options disk path).printed =
        ((catalogue? disk path).map fun schema => schema.toJson.compact ++ "\n").getD "" := by
  unfold turn process catalogue? Turn.fault? Turn.printed
  cases disk.readText path with
  | error e => simp
  | ok text =>
    dsimp only
    rw [document_eq h.tokens]
    cases Schema.ofSource text (scriptOrigin path) with
    | error fault => simp [Except.map, Except.toOption]
    | ok schema => simp [Except.map, Except.toOption, h.outputFolder, rendered, h.pretty]

theorem turns_eq (disk : Disk) (paths : List RawText) :
    turns options disk paths = paths.map (turn options disk) := by
  induction paths with
  | nil => rfl
  | cons path paths ih => rw [turns, (h.turn_eq disk path).1, ih, List.map_cons]

theorem of_mem {disk : Disk} {paths : List RawText} {found : Turn}
    (hm : found ∈ turns options disk paths) :
    found.path ∈ paths ∧ (found.fault? = none ↔ (catalogue? disk found.path).isSome = true) ∧
      found.printed =
        ((catalogue? disk found.path).map fun schema => schema.toJson.compact ++ "\n").getD "" := by
  rw [h.turns_eq] at hm
  obtain ⟨path, hp, rfl⟩ := List.mem_map.mp hm
  exact ⟨hp, (h.turn_eq disk path).2⟩

end PrintsCatalogues

theorem join_map_getD {α : Type} (text? : α → Option String) (items : List α) :
    String.join (items.map fun item => (text? item).getD "") =
      String.join (items.filterMap text?) := by
  induction items with
  | nil => rfl
  | cons item items ih =>
    rw [List.map_cons, String.join_cons, ih]
    cases ht : text? item with
    | none => rw [List.filterMap_cons_none ht, Option.getD_none, String.empty_append]
    | some text => rw [List.filterMap_cons_some ht, String.join_cons, Option.getD_some]

theorem positionsFit_of_catalogue? {disk : Disk} {path : RawText} {schema : Schema}
    (h : catalogue? disk path = some schema) : schema.PositionsFit := by
  obtain ⟨text, ht, hs⟩ := catalogue?_eq_some_iff.mp h
  obtain ⟨data, -, hsize, htext⟩ := Disk.readText_eq_ok_iff.mp ht
  have hbound : Disk.memoryLimit ≤ Column.positionBound := by decide
  refine Schema.positionsFit_ofSource hs ((Nat.le_of_eq ?_).trans (hsize.trans hbound))
  rw [← String.size_toByteArray, ← String.toUTF8_eq_toByteArray, Disk.toUTF8_eq htext]

theorem splitAt_join_compact {documents : List Json} (h : ∀ json ∈ documents, json.Regular) :
    Text.splitAt '\n' (String.join (documents.map fun json => json.compact ++ "\n")).toList =
      (documents.map fun json => json.compact.toList) ++ [[]] := by
  have hjoin : (String.join (documents.map fun json => json.compact ++ "\n")).toList =
      (documents.map fun json => json.compact.toList).flatMap (· ++ ['\n']) := by
    simp [String.toList_join, List.flatMap_map]
  rw [hjoin]
  refine Text.splitAt_flatMap fun line hl => ?_
  obtain ⟨json, hj, rfl⟩ := List.mem_map.mp hl
  exact (h json hj).newline_notMem_compact

theorem regular_of_mem_map_toJson (schemas : List Schema) :
    ∀ json ∈ schemas.map Schema.toJson, json.Regular := by
  intro json hj
  obtain ⟨schema, -, rfl⟩ := List.mem_map.mp hj
  exact schema.regular_toJson

/-- A run prints the catalogues of the scripts that it comes to and that do not fail, in the order
of their paths, each on a line of its own, from which it comes back. A script fails if its text
cannot be had or describes no catalogue, and a run succeeds if none of its scripts fails. -/
theorem run_prints_catalogues {refuses : String → Option String} {words paths : List RawText}
    {disk : Disk} {options : Options} (h : Opens refuses words disk options paths)
    (hp : PrintsCatalogues options) :
    let outcome := run refuses words disk
    let done := reached options.keepGoing (turns options disk paths)
    let schemas := done.filterMap fun turn => catalogue? disk turn.path
    paths.Pairwise (Path.atOrBefore · ·) ∧
    outcome.stdout = String.join (schemas.map fun schema => schema.toJson.compact ++ "\n") ∧
    (∀ schema ∈ schemas, '\n' ∉ schema.toJson.compact.toList) ∧
    (∃ lines, Text.splitAt '\n' outcome.stdout.toList = lines ++ [[]] ∧
      lines = schemas.map (fun schema => schema.toJson.compact.toList) ∧
      lines.map (fun line => (Json.read? (.ofList line)).bind Schema.ofJson?) =
        schemas.map some) ∧
    (∀ turn ∈ done, turn.fault?.isSome = true ↔
      ∀ text, disk.readText turn.path = .ok text →
        ∃ fault, Schema.ofSource text (Origin.oracle.withDescription
          ("parsed from " ++ Text.shown turn.path)) = .error fault) ∧
    (outcome.code = 0 ↔ ∀ turn ∈ done, turn.fault? = none) := by
  intro outcome done schemas
  have houtcome : outcome = processAll options disk paths := h.run_eq
  obtain ⟨hstdout, -, -, hcode⟩ := processAll_reached options disk paths
  rw [← houtcome] at hstdout hcode
  have hmem : ∀ turn ∈ done, turn ∈ turns options disk paths :=
    fun turn ht => (reached_isPrefix _ _).subset ht
  have hprinted : outcome.stdout =
      String.join (schemas.map fun schema => schema.toJson.compact ++ "\n") := by
    have hturns := List.map_congr_left fun turn ht => (hp.of_mem (hmem turn ht)).2.2
    rw [hstdout, printedBy, hturns, join_map_getD, List.map_filterMap]
  have hsplit : Text.splitAt '\n' outcome.stdout.toList =
      schemas.map (fun schema => schema.toJson.compact.toList) ++ [[]] := by
    have hdocuments := splitAt_join_compact (regular_of_mem_map_toJson schemas)
    rw [List.map_map, List.map_map] at hdocuments
    rw [hprinted]
    exact hdocuments
  refine ⟨h.pairwise, hprinted, fun schema _ => schema.regular_toJson.newline_notMem_compact,
    ⟨_, hsplit, rfl, ?_⟩, fun turn ht => ?_, hcode⟩
  · rw [List.map_map]
    refine List.map_congr_left fun schema hs => ?_
    obtain ⟨turn, -, hschema⟩ := List.mem_filterMap.mp hs
    change (Json.read? (.ofList schema.toJson.compact.toList)).bind Schema.ofJson? = some schema
    rw [String.ofList_toList]
    exact (Schema.recovers (positionsFit_of_catalogue? hschema)).readsBack.1
  · rw [← scriptOrigin, ← catalogue?_eq_none_iff, ← Option.isNone_iff_eq_none, ← Option.not_isSome,
      Option.isSome_iff_ne_none, ne_eq, (hp.of_mem (hmem turn ht)).2.1]
    simp

/-- Of three scripts one declares a table, one is no text, and one is empty. -/
theorem run_prints_catalogues_past_failure :
    let refuses : String → Option String := fun _ => none
    let script := Declaration.printAll [Declaration.parts]
    let inside : Folder := .file "a.sql" script.toUTF8
      (.file "b.sql" ⟨#[0xFF]⟩ (.file "c.sql" ⟨#[]⟩ .empty))
    let disk : Disk := ⟨.folder "d" inside .empty, []⟩
    let options : Options := { Options.none with input := some "d", keepGoing := true }
    let words : List RawText := ["ddlscan", "--keep-going", "d"]
    let paths : List RawText := ["d/a.sql", "d/b.sql", "d/c.sql"]
    let table : Schema := ⟨scriptOrigin "d/a.sql",
      NameMap.empty.insert "S.PARTS" Declaration.parts.meaning, [], [], []⟩
    let empty := Schema.empty (scriptOrigin "d/c.sql")
    let outcome := run refuses words disk
    Opens refuses words disk options paths ∧ PrintsCatalogues options ∧ outcome.code ≠ 0 ∧
      outcome.stdout = table.toJson.compact ++ "\n" ++ (empty.toJson.compact ++ "\n") ∧
      ∃ first second, Text.splitAt '\n' outcome.stdout.toList = [first, second, []] ∧
        (Json.read? (.ofList first)).bind Schema.ofJson? = some table ∧
        (Json.read? (.ofList second)).bind Schema.ofJson? = some empty := by
  intro refuses script inside disk options words paths table empty outcome
  have hline : Options.ofCommandLine words = .ok options := by decide +kernel
  have hlisted : inside.scripts "d" = paths := by decide +kernel
  have hsorted : paths.Pairwise (Path.atOrBefore · ·) := by decide +kernel
  have hopens : Opens refuses words disk options paths :=
    .of_folder hline rfl rfl rfl rfl hlisted hsorted (List.cons_ne_nil _ _)
  have hprints : PrintsCatalogues options := ⟨rfl, rfl, rfl⟩
  have hfirst : catalogue? disk "d/a.sql" = some table := by
    refine catalogue?_eq_some_iff.mpr ⟨script, Disk.readText_eq_ok_iff.mpr ?_,
      Declaration.ofSource_printAll_eq _ _⟩
    exact ⟨script.toUTF8, rfl, by decide +kernel, dif_pos script.isValidUTF8⟩
  have hsecond : catalogue? disk "d/b.sql" = none := by decide +kernel
  have hthird : catalogue? disk "d/c.sql" = some empty := by decide +kernel
  have hdone : reached options.keepGoing (turns options disk paths) =
      paths.map (turn options disk) := by
    rw [hprints.turns_eq]
    exact reached_true _
  have hschemas : (reached options.keepGoing (turns options disk paths)).filterMap
      (fun turn => catalogue? disk turn.path) = [table, empty] := by
    rw [hdone, List.filterMap_map]
    exact (List.filterMap_cons_some hfirst).trans (congrArg (table :: ·)
      ((List.filterMap_cons_none hsecond).trans (List.filterMap_cons_some hthird)))
  have hfails : (turn options disk "d/b.sql").fault? ≠ none := by
    rw [ne_eq, (hprints.turn_eq disk "d/b.sql").2.1, hsecond]
    exact Bool.false_ne_true
  obtain ⟨-, hstdout, -, ⟨lines, hsplit, rfl, hreads⟩, -, hcode⟩ :=
    run_prints_catalogues hopens hprints
  rw [hschemas] at hstdout hsplit hreads
  refine ⟨hopens, hprints, fun hz => hfails (hcode.mp hz _ ?_), by simpa using hstdout, _, _,
    hsplit, ?_⟩
  · rw [hdone]
    exact List.mem_map_of_mem (by simp [paths])
  · obtain ⟨hone, hrest⟩ := List.cons.inj hreads
    exact ⟨hone, (List.cons.inj hrest).1⟩

/-- Asked for help, a run prints the usage alone, though there is a script with a catalogue. -/
theorem run_help_prints_usage :
    let refuses : String → Option String := fun _ => none
    let disk : Disk := ⟨.file "a.sql" ⟨#[]⟩ .empty, []⟩
    let options : Options := { Options.none with input := some "a.sql", help := true }
    let schema := Schema.empty (Origin.oracle.withDescription "parsed from a.sql")
    let outcome := run refuses ["ddlscan", "--help", "a.sql"] disk
    Options.ofCommandLine ["ddlscan", "--help", "a.sql"] = .ok options ∧
      scripts disk "a.sql" = .ok ["a.sql"] ∧ PrintsCatalogues options ∧
      catalogue? disk "a.sql" = some schema ∧
      outcome.stdout = usage ∧ outcome.stdout ≠ schema.toJson.compact ++ "\n" := by
  intro refuses disk options schema outcome
  have hline : Options.ofCommandLine ["ddlscan", "--help", "a.sql"] = .ok options := by
    decide +kernel
  have hschema : catalogue? disk "a.sql" = some schema := by decide +kernel
  have hstdout : outcome.stdout = usage := by decide +kernel
  refine ⟨hline, by decide +kernel, ⟨rfl, rfl, rfl⟩, hschema, hstdout, ?_⟩
  rw [hstdout]
  decide +kernel

end Command

end DdlCatalog
