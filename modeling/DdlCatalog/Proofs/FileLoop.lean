import DdlCatalog.Proofs.CommandLine
import Mathlib.Data.List.Basic

namespace DdlCatalog

namespace Path

theorem atOrBefore_iff {a b : RawText} :
    atOrBefore a b = true ↔ ¬List.Lex (· < ·) (components b) (components a) := by
  rw [atOrBefore, Bool.not_eq_true', Bool.eq_false_iff, ne_eq, List.lex_eq_true_iff_lex]
  simp only [decide_eq_true_eq]

theorem pairwise_mergeSort_atOrBefore (paths : List RawText) :
    (paths.mergeSort atOrBefore).Pairwise (atOrBefore · ·) := by
  refine List.pairwise_mergeSort (fun a b c hab hbc => ?_) (fun a b => ?_) paths
  · rw [atOrBefore_iff] at hab hbc ⊢
    exact List.le_trans hab hbc
  · rw [Bool.or_eq_true, atOrBefore_iff, atOrBefore_iff]
    exact List.le_total (components a) (components b)

end Path

namespace Fault

theorem exitCode_mem (fault : Fault) : fault.exitCode ∈ [65, 70, 74] := by
  unfold exitCode
  cases fault.rootCause <;> simp [Cause.exitCode]

theorem exitCode_ne_zero (fault : Fault) : fault.exitCode ≠ 0 := by
  intro hz
  have hm := fault.exitCode_mem
  rw [hz] at hm
  exact absurd hm (by decide)

end Fault

namespace Command

theorem pairwise_scripts {disk : Disk} {input : RawText} {paths : List RawText}
    (h : scripts disk input = .ok paths) : paths.Pairwise (Path.atOrBefore · ·) := by
  unfold scripts at h
  cases he : disk.entry input with
  | error e => rw [he] at h; cases h
  | ok entry =>
    cases entry with
    | file data =>
      rw [he] at h
      cases h
      split
      · exact List.pairwise_singleton _ _
      · exact .nil
    | folder inside =>
      rw [he] at h
      cases h
      exact Path.pairwise_mergeSort_atOrBefore _

theorem Opens.of_folder {refuses : String → Option String} {words paths : List RawText} {disk : Disk}
    {options : Options} {input : RawText} {inside : Folder}
    (hline : Options.ofCommandLine words = .ok options) (hhelp : options.help = false)
    (hfilter : options.logFilter = none) (hinput : options.input = some input)
    (hentry : disk.entry input = .ok (.folder inside)) (hlisted : inside.scripts input = paths)
    (hsorted : paths.Pairwise (Path.atOrBefore · ·)) (hne : paths ≠ []) :
    Opens refuses words disk options paths where
  accepted := hline
  help := hhelp
  filter := fun filter hf => by simp [hfilter] at hf
  found := by
    refine ⟨input, hinput, ?_⟩
    rw [scripts, hentry]
    exact congrArg Except.ok (by rw [hlisted, List.mergeSort_of_pairwise hsorted])
  some_script := hne

theorem Opens.pairwise {refuses : String → Option String} {words paths : List RawText} {disk : Disk}
    {options : Options} (h : Opens refuses words disk options paths) :
    paths.Pairwise (Path.atOrBefore · ·) := by
  obtain ⟨input, -, hs⟩ := h.found
  exact pairwise_scripts hs

/-- The turn of one script: what it prints, or why it fails, and the disk before and after it. -/
structure Turn where
  path : RawText
  before : Disk
  result : Except Fault String
  after : Disk

namespace Turn

def fault? (turn : Turn) : Option Fault :=
  match turn.result with
  | .error fault => some fault
  | .ok _ => none

def printed (turn : Turn) : String :=
  match turn.result with
  | .error _ => ""
  | .ok printed => printed

end Turn

/-- A script whose text cannot be had, or is not made of tokens, or not of statements where its
catalogue is asked for. -/
inductive Undocumented (options : Options) (disk : Disk) (path : RawText) : Prop
  | unread {e : DiskError} (read : disk.readText path = .error e)
  | untokenized {text : String} {e : LexicalError} (read : disk.readText path = .ok text)
      (scanned : tokenize text = .error e)
  | unparsed {text : String} {tokens : List Token} {e : ParseError} (asked : options.tokens = false)
      (read : disk.readText path = .ok text) (scanned : tokenize text = .ok tokens)
      (parsed : Schema.ofTokens tokens (scriptOrigin path) = .error e)

/-- The document of a script: its tokens where they are asked for, and otherwise its catalogue. -/
inductive Documented (options : Options) (path : RawText) (text : String) : Json → Prop
  | tokens {tokens : List Token} (asked : options.tokens = true)
      (scanned : tokenize text = .ok tokens) :
    Documented options path text (.ofList Token.toJson tokens)
  | catalogue {tokens : List Token} {schema : Schema} (asked : options.tokens = false)
      (scanned : tokenize text = .ok tokens)
      (parsed : Schema.ofTokens tokens (scriptOrigin path) = .ok schema) :
    Documented options path text schema.toJson

theorem document_eq_ok_iff {options : Options} {path : RawText} {text : String} {json : Json} :
    document options path text = .ok json ↔ Documented options path text json := by
  constructor
  · intro h
    unfold document at h
    split at h
    next => cases h
    next tokens scanned =>
      split at h
      next asked =>
        cases h
        exact .tokens asked scanned
      next asked =>
        split at h
        next => cases h
        next schema parsed =>
          cases h
          exact .catalogue (Bool.eq_false_iff.mpr asked) scanned parsed
  · rintro (⟨asked, scanned⟩ | ⟨asked, scanned, parsed⟩)
    · simp [document, scanned, asked]
    · simp [document, scanned, asked, parsed]

def turn (options : Options) (disk : Disk) (path : RawText) : Turn :=
  ⟨path, disk, (process options disk path).1, (process options disk path).2⟩

/-- The turns of scripts one after the other, each on the disk that the one before it left. -/
def turns (options : Options) (disk : Disk) : List RawText → List Turn
  | [] => []
  | path :: paths =>
    turn options disk path :: turns options (turn options disk path).after paths

def printedBy (turns : List Turn) : String :=
  String.join (turns.map Turn.printed)

def reportedBy (turns : List Turn) : String :=
  String.join ((turns.filterMap Turn.fault?).map Fault.report)

def diskAfter (disk : Disk) (turns : List Turn) : Disk :=
  turns.foldl (fun _ turn => turn.after) disk

@[simp] theorem printedBy_nil : printedBy [] = "" := rfl

@[simp] theorem printedBy_cons (turn : Turn) (others : List Turn) :
    printedBy (turn :: others) = turn.printed ++ printedBy others :=
  String.join_cons

@[simp] theorem printedBy_append (front back : List Turn) :
    printedBy (front ++ back) = printedBy front ++ printedBy back := by
  rw [printedBy, List.map_append, String.join_append, printedBy, printedBy]

@[simp] theorem reportedBy_nil : reportedBy [] = "" := rfl

@[simp] theorem reportedBy_cons (turn : Turn) (others : List Turn) :
    reportedBy (turn :: others) = (turn.fault?.map Fault.report).getD "" ++ reportedBy others := by
  unfold reportedBy
  cases hf : turn.fault? <;> simp [hf]

theorem reportedBy_append_of_no_fault {front : List Turn}
    (h : ∀ turn ∈ front, turn.fault? = none) (back : List Turn) :
    reportedBy (front ++ back) = reportedBy back := by
  rw [reportedBy, List.filterMap_append, List.filterMap_eq_nil_iff.mpr h, List.nil_append,
    reportedBy]

@[simp] theorem diskAfter_nil (disk : Disk) : diskAfter disk [] = disk := rfl

@[simp] theorem diskAfter_cons (disk : Disk) (turn : Turn) (others : List Turn) :
    diskAfter disk (turn :: others) = diskAfter turn.after others := rfl

@[simp] theorem diskAfter_append (disk : Disk) (front back : List Turn) :
    diskAfter disk (front ++ back) = diskAfter (diskAfter disk front) back :=
  List.foldl_append

theorem turns_persisting (options : Options) (disk : Disk) (paths : List RawText) :
    turns options.persisting disk paths = turns options disk paths := by
  induction paths generalizing disk with
  | nil => rfl
  | cons path paths ih => exact congrArg (turn options disk path :: ·) (ih _)

theorem eq_turn_of_mem_turns {options : Options} {disk : Disk} {paths : List RawText} {found : Turn}
    (h : found ∈ turns options disk paths) : found = turn options found.before found.path := by
  induction paths generalizing disk with
  | nil => cases h
  | cons path paths ih =>
    rcases List.mem_cons.mp h with rfl | h
    · rfl
    · exact ih h

theorem turn_of_undocumented {options : Options} {disk : Disk} {path : RawText}
    (h : Undocumented options disk path) :
    (turn options disk path).fault?.isSome = true ∧ (turn options disk path).printed = "" ∧
      (turn options disk path).after = disk := by
  unfold turn process Turn.fault? Turn.printed
  cases h with
  | unread read => simp [read]
  | untokenized read scanned => simp [read, document, scanned]
  | unparsed asked read scanned parsed => simp [read, document, scanned, asked, parsed]

theorem processAll_of_printed {options : Options} {disk : Disk} {path : RawText}
    (h : (turn options disk path).fault? = none) (paths : List RawText) :
    processAll options disk (path :: paths) =
      let others := processAll options (turn options disk path).after paths
      { others with stdout := (turn options disk path).printed ++ others.stdout } := by
  unfold turn Turn.fault? at h
  rw [processAll]
  unfold turn Turn.printed
  rcases hp : process options disk path with ⟨fault | printed, after⟩
  · rw [hp] at h
    cases h
  · rfl

theorem processAll_of_failed {options : Options} {disk : Disk} {path : RawText} {fault : Fault}
    (h : (turn options disk path).fault? = some fault) (paths : List RawText) :
    processAll options disk (path :: paths) =
      if options.keepGoing then
        let others := processAll options (turn options disk path).after paths
        { others with code := 1, stderr := fault.report ++ others.stderr }
      else ⟨fault.exitCode, "", fault.report, (turn options disk path).after⟩ := by
  unfold turn Turn.fault? at h
  rw [processAll]
  unfold turn
  rcases hp : process options disk path with ⟨fault | printed, after⟩
  · rw [hp] at h
    cases h
    rfl
  · rw [hp] at h
    cases h

theorem Turn.printed_of_fault {turn : Turn} {fault : Fault} (h : turn.fault? = some fault) :
    turn.printed = "" := by
  unfold fault? at h
  unfold printed
  cases hr : turn.result with
  | error e => rfl
  | ok text => rw [hr] at h; cases h

theorem processAll_of_keepGoing {options : Options} (hk : options.keepGoing = true) (disk : Disk)
    (paths : List RawText) :
    processAll options disk paths =
      let all := turns options disk paths
      ⟨if all.any (·.fault?.isSome) then 1 else 0, printedBy all, reportedBy all,
        diskAfter disk all⟩ := by
  induction paths generalizing disk with
  | nil => rfl
  | cons path paths ih =>
    cases hf : (turn options disk path).fault? with
    | none =>
      rw [processAll_of_printed hf, ih]
      simp [turns, hf]
    | some fault =>
      rw [processAll_of_failed hf, if_pos hk, ih]
      simp [turns, hf, Turn.printed_of_fault hf]

theorem processAll_append {options : Options} {disk : Disk} {front : List RawText}
    (h : ∀ turn ∈ turns options disk front, turn.fault? = none) (back : List RawText) :
    processAll options disk (front ++ back) =
      let others := processAll options (diskAfter disk (turns options disk front)) back
      { others with stdout := printedBy (turns options disk front) ++ others.stdout } := by
  induction front generalizing disk with
  | nil => simp [turns]
  | cons path front ih =>
    rw [List.cons_append, processAll_of_printed (h _ List.mem_cons_self),
      ih fun turn ht => h turn (List.mem_cons_of_mem _ ht)]
    simp [turns, String.append_assoc]

theorem turns_append (options : Options) (disk : Disk) (front back : List RawText) :
    turns options disk (front ++ back) =
      turns options disk front ++
        turns options (diskAfter disk (turns options disk front)) back := by
  induction front generalizing disk with
  | nil => rfl
  | cons path front ih =>
    rw [List.cons_append, turns, turns, ih, List.cons_append]
    rfl

structure FirstFault (options : Options) (disk : Disk) (passed : List RawText) (path : RawText)
    (fault : Fault) : Prop where
  passes : ∀ turn ∈ turns options disk passed, turn.fault? = none
  fails : (turn options (diskAfter disk (turns options disk passed)) path).fault? = some fault

theorem no_fault_or_firstFault (options : Options) (disk : Disk) (paths : List RawText) :
    (∀ turn ∈ turns options disk paths, turn.fault? = none) ∨
      ∃ passed path others fault, paths = passed ++ path :: others ∧
        FirstFault options disk passed path fault := by
  induction paths generalizing disk with
  | nil => exact .inl nofun
  | cons path paths ih =>
    cases hf : (turn options disk path).fault? with
    | some fault => exact .inr ⟨[], path, paths, fault, rfl, nofun, hf⟩
    | none =>
      rcases ih (turn options disk path).after with
        hall | ⟨passed, next, others, fault, rfl, hfault⟩
      · exact .inl (List.forall_mem_cons.mpr ⟨hf, hall⟩)
      · exact .inr ⟨path :: passed, next, others, fault, rfl,
          List.forall_mem_cons.mpr ⟨hf, hfault.passes⟩, hfault.fails⟩

theorem processAll_of_no_fault {options : Options} {disk : Disk} {paths : List RawText}
    (h : ∀ turn ∈ turns options disk paths, turn.fault? = none) :
    processAll options disk paths =
      ⟨0, printedBy (turns options disk paths), "", diskAfter disk (turns options disk paths)⟩ := by
  have happend := processAll_append h []
  rw [List.append_nil] at happend
  rw [happend]
  simp [processAll]

theorem FirstFault.processAll_eq {options : Options} {disk : Disk} {passed : List RawText}
    {path : RawText} {fault : Fault} (h : FirstFault options disk passed path fault)
    (hk : options.keepGoing = false) (others : List RawText) :
    processAll options disk (passed ++ path :: others) =
      ⟨fault.exitCode, printedBy (turns options disk passed), fault.report,
        (turn options (diskAfter disk (turns options disk passed)) path).after⟩ := by
  rw [processAll_append h.passes, processAll_of_failed h.fails, if_neg (by simp [hk])]
  simp

/-- The turns that a run comes to: all of them, or those up to the first that fails. -/
def reached (keepGoing : Bool) : List Turn → List Turn
  | [] => []
  | turn :: others =>
    if keepGoing || turn.fault?.isNone then turn :: reached keepGoing others else [turn]

theorem reached_isPrefix (keepGoing : Bool) (turns : List Turn) :
    reached keepGoing turns <+: turns := by
  induction turns with
  | nil => exact List.prefix_refl []
  | cons turn others ih =>
    rw [reached]
    split
    · exact (List.prefix_cons_inj turn).mpr ih
    · exact ⟨others, rfl⟩

theorem reached_true (turns : List Turn) : reached true turns = turns := by
  induction turns with
  | nil => rfl
  | cons turn others ih => rw [reached, Bool.true_or, if_pos rfl, ih]

theorem reached_append_of_no_fault (keepGoing : Bool) {front : List Turn}
    (h : ∀ turn ∈ front, turn.fault? = none) (back : List Turn) :
    reached keepGoing (front ++ back) = front ++ reached keepGoing back := by
  induction front with
  | nil => rfl
  | cons turn front ih =>
    have hfront := ih fun other ho => h other (List.mem_cons_of_mem turn ho)
    simp [reached, h turn List.mem_cons_self, hfront]

theorem reached_cons_of_fault {turn : Turn} {fault : Fault} (h : turn.fault? = some fault)
    (others : List Turn) : reached false (turn :: others) = [turn] := by
  simp [reached, h]

/-- A run shows and leaves what the turns that it comes to do, and succeeds if none fails. -/
theorem processAll_reached (options : Options) (disk : Disk) (paths : List RawText) :
    let done := reached options.keepGoing (turns options disk paths)
    let outcome := processAll options disk paths
    outcome.stdout = printedBy done ∧ outcome.stderr = reportedBy done ∧
      outcome.disk = diskAfter disk done ∧
      (outcome.code = 0 ↔ ∀ turn ∈ done, turn.fault? = none) := by
  cases hk : options.keepGoing with
  | true =>
    rw [processAll_of_keepGoing hk, reached_true]
    exact ⟨rfl, rfl, rfl, by simp⟩
  | false =>
    rcases no_fault_or_firstFault options disk paths with
      hnone | ⟨passed, path, others, fault, rfl, hfault⟩
    · have hdone := reached_append_of_no_fault false hnone []
      have hreports := reportedBy_append_of_no_fault hnone []
      rw [List.append_nil, reached, List.append_nil] at hdone
      rw [List.append_nil, reportedBy_nil] at hreports
      rw [processAll_of_no_fault hnone, hdone]
      exact ⟨rfl, hreports.symm, rfl, by simpa using hnone⟩
    · rw [hfault.processAll_eq hk, turns_append, turns,
        reached_append_of_no_fault false hfault.passes, reached_cons_of_fault hfault.fails]
      simp [reportedBy_append_of_no_fault hfault.passes, hfault.fails,
        Turn.printed_of_fault hfault.fails, fault.exitCode_ne_zero]

theorem no_fault_of_code_eq_zero {options : Options} {disk : Disk} {paths : List RawText}
    (h : (processAll options disk paths).code = 0) :
    ∀ turn ∈ turns options disk paths, turn.fault? = none := by
  obtain ⟨-, -, -, hcode⟩ := processAll_reached options disk paths
  have hdone := hcode.mp h
  cases hk : options.keepGoing with
  | true => rwa [hk, reached_true] at hdone
  | false =>
    rcases no_fault_or_firstFault options disk paths with
      hnone | ⟨passed, path, others, fault, rfl, hfault⟩
    · exact hnone
    · rw [hfault.processAll_eq hk] at h
      exact absurd h fault.exitCode_ne_zero

theorem FirstFault.reportedBy_eq {options : Options} {disk : Disk} {passed : List RawText}
    {path : RawText} {fault : Fault} (h : FirstFault options disk passed path fault)
    (others : List RawText) :
    ∃ more, reportedBy (turns options disk (passed ++ path :: others)) = fault.report ++ more := by
  rw [turns_append, turns, reportedBy_append_of_no_fault h.passes, reportedBy_cons, h.fails]
  exact ⟨_, rfl⟩

theorem printedBy_turns_append (options : Options) (disk : Disk) (front back : List RawText) :
    ∃ more, printedBy (turns options disk (front ++ back)) =
      printedBy (turns options disk front) ++ more := by
  rw [turns_append, printedBy_append]
  exact ⟨_, rfl⟩

theorem FirstFault.any_fault {options : Options} {disk : Disk} {passed : List RawText}
    {path : RawText} {fault : Fault} (h : FirstFault options disk passed path fault)
    (others : List RawText) :
    (turns options disk (passed ++ path :: others)).any (·.fault?.isSome) = true := by
  rw [turns_append, turns, List.any_append, List.any_cons, h.fails]
  simp

end Command

namespace Outcome

/-- An outcome that only adds to what another printed, and adds nothing to a success. -/
structure Continues (second first : Outcome) : Prop where
  stdout : ∃ more, second.stdout = first.stdout ++ more
  stderr : ∃ more, second.stderr = first.stderr ++ more
  code : first.code = 0 ↔ second.code = 0
  success : first.code = 0 → second = first

theorem Continues.refl (outcome : Outcome) : outcome.Continues outcome :=
  ⟨⟨"", by simp⟩, ⟨"", by simp⟩, .rfl, fun _ => rfl⟩

end Outcome

namespace Command

theorem processAll_persisting (options : Options) (disk : Disk) (paths : List RawText) :
    processAll options.persisting disk paths =
      let all := turns options disk paths
      ⟨if all.any (·.fault?.isSome) then 1 else 0, printedBy all, reportedBy all,
        diskAfter disk all⟩ := by
  rw [processAll_of_keepGoing rfl, turns_persisting]

theorem continues_processAll {options : Options} (hk : options.keepGoing = false) (disk : Disk)
    (paths : List RawText) :
    (processAll options.persisting disk paths).Continues (processAll options disk paths) := by
  rcases no_fault_or_firstFault options disk paths with
    hall | ⟨passed, path, others, fault, rfl, hfault⟩
  · have hall' : ∀ turn ∈ turns options.persisting disk paths, turn.fault? = none := by
      rwa [turns_persisting]
    rw [processAll_of_no_fault hall, processAll_of_no_fault hall', turns_persisting]
    exact .refl _
  · have hprinted := printedBy_turns_append options disk passed (path :: others)
    rw [hfault.processAll_eq hk, processAll_persisting]
    refine ⟨hprinted, hfault.reportedBy_eq others, ?_,
      fun hz => absurd hz fault.exitCode_ne_zero⟩
    simp [hfault.any_fault, fault.exitCode_ne_zero]

/-- To keep going only adds. Where the run without it fails among the scripts, it ends with the
first fault and its exit code, and the run with it reports all faults and ends with 1. Scripts of
which no document can be made add nothing to what is printed or on the disk. -/
theorem run_keepGoing (refuses : String → Option String) {program : RawText}
    {front back : List RawText} {given options : Options}
    (hfront : Options.ofCommandLine (program :: front) = .ok given)
    (h : Options.ofCommandLine (program :: (front ++ back)) = .ok options)
    (hk : options.keepGoing = false) (disk : Disk) :
    let first := run refuses (program :: (front ++ back)) disk
    let second := run refuses (program :: (front ++ Text.bytes "--keep-going" :: back)) disk
    second.Continues first ∧
    ∀ paths, Opens refuses (program :: (front ++ back)) disk options paths →
      let all := turns options disk paths
      paths.Pairwise (Path.atOrBefore · ·) ∧
      (second.stdout = printedBy all ∧ second.stderr = reportedBy all ∧
        second.disk = diskAfter disk all) ∧
      (first.code ≠ 0 →
        (∃ passed path others fault, paths = passed ++ path :: others ∧
          FirstFault options disk passed path fault ∧ fault.exitCode ∈ [65, 70, 74] ∧
          first = ⟨fault.exitCode, printedBy (turns options disk passed), fault.report,
            (turn options (diskAfter disk (turns options disk passed)) path).after⟩) ∧
        second.code = 1) ∧
      ∀ turn ∈ all, Undocumented options turn.before turn.path →
        turn.fault?.isSome = true ∧ turn.printed = "" ∧ turn.after = turn.before := by
  intro first second
  have hsecond := Options.ofCommandLine_keepGoing hfront h
  constructor
  · by_cases hopens : ∃ paths, Opens refuses (program :: (front ++ back)) disk options paths
    · obtain ⟨paths, hopens⟩ := hopens
      have hfirst : first = _ := hopens.run_eq
      have hlast : second = _ := (hopens.persisting hsecond).run_eq
      rw [hfirst, hlast]
      exact continues_processAll hk disk paths
    · rw [show second = first from
        run_persisting_of_not_opens h hsecond fun paths hp => hopens ⟨paths, hp⟩]
      exact .refl first
  · intro paths hopens all
    have hfirst : first = processAll options disk paths := hopens.run_eq
    have hall : second = _ :=
      (hopens.persisting hsecond).run_eq.trans (processAll_persisting options disk paths)
    refine ⟨hopens.pairwise, by rw [hall]; exact ⟨rfl, rfl, rfl⟩, fun hcode => ?_, ?_⟩
    · rcases no_fault_or_firstFault options disk paths with
        hnone | ⟨passed, path, others, fault, rfl, hfault⟩
      · rw [hfirst, processAll_of_no_fault hnone] at hcode
        exact absurd rfl hcode
      · rw [hall]
        refine ⟨⟨passed, path, others, fault, rfl, hfault, fault.exitCode_mem, ?_⟩, ?_⟩
        · rw [hfirst, hfault.processAll_eq hk]
        · exact if_pos (hfault.any_fault others)
    · intro found hm hu
      rw [eq_turn_of_mem_turns hm]
      exact turn_of_undocumented hu

theorem run_keepGoing_two_scripts :
    let refuses : String → Option String := fun _ => none
    let inside : Folder := .file "a.sql" ⟨#[0xFF]⟩ (.file "b.sql" "@p\n".toUTF8 .empty)
    let disk : Disk := ⟨.folder "d" inside .empty, []⟩
    let options : Options := { Options.none with input := some "d" }
    let paths : List RawText := ["d/a.sql", "d/b.sql"]
    let unread := turn options disk "d/a.sql"
    let first := run refuses ["ddlscan", "d"] disk
    let second := run refuses ["ddlscan", "--keep-going", "d"] disk
    Opens refuses ["ddlscan", "d"] disk options paths ∧ first.code = 74 ∧ second.code = 1 ∧
      second.Continues first ∧ second.stdout = printedBy (turns options disk paths) ∧
      second.stdout ≠ first.stdout ∧ Undocumented options disk "d/a.sql" ∧
      unread.printed = "" ∧ unread.after = disk := by
  intro refuses inside disk options paths unread first second
  have hline : Options.ofCommandLine ["ddlscan", "d"] = .ok options := by decide +kernel
  have hlisted : inside.scripts "d" = paths := by decide +kernel
  have hsorted : paths.Pairwise (Path.atOrBefore · ·) := by decide +kernel
  have hopens : Opens refuses ["ddlscan", "d"] disk options paths :=
    .of_folder hline rfl rfl rfl rfl hlisted hsorted (List.cons_ne_nil _ _)
  have hrun : first = processAll options disk paths := hopens.run_eq
  have hcode : first.code = 74 := by
    rw [hrun]
    decide +kernel
  have hprogram : Options.ofCommandLine ["ddlscan"] = .ok .none := rfl
  have hadds : second.Continues first ∧ _ := run_keepGoing refuses hprogram hline rfl disk
  obtain ⟨-, ⟨hstdout, -⟩, hfails, hsilent⟩ := hadds.2 paths hopens
  have hfirst : first.code ≠ 0 := by simp [hcode]
  have hprinted : second.stdout = printedBy (turns options disk paths) := hstdout
  have hmore : second.stdout ≠ first.stdout := by
    rw [hprinted, hrun]
    decide +kernel
  have hread : disk.readText "d/a.sql" = .error .notText := by decide +kernel
  have hunread : Undocumented options disk "d/a.sql" := .unread hread
  obtain ⟨-, hnothing, hsame⟩ := hsilent unread List.mem_cons_self hunread
  exact ⟨hopens, hcode, (hfails hfirst).2, hadds.1, hprinted, hmore, hunread, hnothing, hsame⟩

/-- Asked for tokens, a run prints those of a script that is not made of statements. -/
theorem run_prints_tokens_of_unparsed :
    let refuses : String → Option String := fun _ => none
    let disk : Disk := ⟨.file "a.sql" ⟨#[0x3B]⟩ .empty, []⟩
    let options : Options := { Options.none with input := some "a.sql", tokens := true }
    let semicolon : Token := ⟨";", .symbol, 0, 1, 1, 1⟩
    let outcome := run refuses ["ddlscan", "--tokens", "a.sql"] disk
    Opens refuses ["ddlscan", "--tokens", "a.sql"] disk options ["a.sql"] ∧
      disk.readText "a.sql" = .ok ";" ∧ tokenize ";" = .ok [semicolon] ∧
      (∃ e, Schema.ofTokens [semicolon] (scriptOrigin "a.sql") = .error e) ∧
      outcome.stdout = (Json.ofList Token.toJson [semicolon]).compact ++ "\n" := by
  intro refuses disk options semicolon outcome
  have hopens : Opens refuses ["ddlscan", "--tokens", "a.sql"] disk options ["a.sql"] :=
    ⟨by decide +kernel, rfl, fun _ _ => rfl, ⟨"a.sql", rfl, by decide +kernel⟩,
      List.cons_ne_nil _ _⟩
  have hscanned : (tokenize ";").toOption = some [semicolon] := by decide +kernel
  have hparsed : (Schema.ofTokens [semicolon] (scriptOrigin "a.sql")).toOption = none := by
    decide +kernel
  refine ⟨hopens, by decide +kernel, ?_, ?_, ?_⟩
  · cases htokens : tokenize ";" with
    | error e =>
      rw [htokens] at hscanned
      cases hscanned
    | ok tokens =>
      rw [htokens] at hscanned
      exact congrArg Except.ok (Option.some.inj hscanned)
  · cases hschema : Schema.ofTokens [semicolon] (scriptOrigin "a.sql") with
    | error e => exact ⟨e, rfl⟩
    | ok schema =>
      rw [hschema] at hparsed
      cases hparsed
  · rw [show outcome = _ from hopens.run_eq]
    decide +kernel

end Command

end DdlCatalog
