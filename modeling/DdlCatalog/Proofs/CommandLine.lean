import DdlCatalog.Command.Run

namespace DdlCatalog

namespace Options

def persisting (options : Options) : Options :=
  { options with keepGoing := true }

theorem takeWord_persisting (options : Options) (word : RawText) :
    options.persisting.takeWord word = (options.takeWord word).map persisting := by
  unfold takeWord
  dsimp only
  repeat' split
  all_goals first | rfl | simp_all [persisting]

theorem takeWords_persisting (options : Options) (words : List RawText) :
    options.persisting.takeWords words = (options.takeWords words).map persisting := by
  fun_induction takeWords options words with
  | case1 => rfl
  | case2 options word hw => simp only [takeWords, if_pos hw]; rfl
  | case3 options word hw => simp only [takeWords, if_neg hw, takeWord_persisting]
  | case4 options word next rest hw ih =>
    rw [takeWords, if_pos hw]
    exact ih
  | case5 options word next rest hw hw' ih =>
    rw [takeWords, if_neg hw, if_pos hw']
    exact ih
  | case6 options word next rest hw hw' e he =>
    simp only [takeWords, if_neg hw, if_neg hw', takeWord_persisting, he]
    rfl
  | case7 options word next rest hw hw' taken ht ih =>
    simp only [takeWords, if_neg hw, if_neg hw', takeWord_persisting, ht]
    exact ih

theorem takeWords_append {options taken : Options} {front : List RawText}
    (h : options.takeWords front = .ok taken) (back : List RawText) :
    options.takeWords (front ++ back) = taken.takeWords back := by
  fun_induction takeWords options front with
  | case1 => cases h; rfl
  | case2 => cases h
  | case3 options word hw =>
    cases back with
    | nil =>
      simp only [List.append_nil, takeWords, if_neg hw, h]
    | cons next back =>
      rw [not_or] at hw
      simp only [List.singleton_append, takeWords, if_neg hw.1, if_neg hw.2, h]
  | case4 options word next rest hw ih =>
    rw [List.cons_append, List.cons_append, takeWords, if_pos hw]
    exact ih h
  | case5 options word next rest hw hw' ih =>
    rw [List.cons_append, List.cons_append, takeWords, if_neg hw, if_pos hw']
    exact ih h
  | case6 => cases h
  | case7 options word next rest hw hw' between hb ih =>
    simp only [List.cons_append, takeWords, if_neg hw, if_neg hw', hb]
    exact ih h

/-- The flag to keep going can stand before, between and behind the words of a line. -/
theorem ofCommandLine_keepGoing {program : RawText} {front back : List RawText}
    {given options : Options} (hfront : ofCommandLine (program :: front) = .ok given)
    (h : ofCommandLine (program :: (front ++ back)) = .ok options) :
    ofCommandLine (program :: (front ++ Text.bytes "--keep-going" :: back)) =
      .ok options.persisting := by
  have hflag : given.takeWords [Text.bytes "--keep-going"] = .ok given.persisting := rfl
  have hback : given.takeWords back = .ok options := (takeWords_append hfront back).symm.trans h
  calc none.takeWords (front ++ ([Text.bytes "--keep-going"] ++ back))
      = given.takeWords ([Text.bytes "--keep-going"] ++ back) := takeWords_append hfront _
    _ = given.persisting.takeWords back := takeWords_append hflag back
    _ = .ok options.persisting := by rw [takeWords_persisting, hback]; rfl

end Options

namespace Command

variable {refuses : String → Option String} {words : List RawText} {disk : Disk}
  {options : Options}

/-- The line is taken, nothing ends the run early, and there are scripts to be read. -/
structure Opens (refuses : String → Option String) (words : List RawText) (disk : Disk)
    (options : Options) (paths : List RawText) : Prop where
  accepted : Options.ofCommandLine words = .ok options
  help : options.help = false
  filter : ∀ filter, options.logFilter = some filter → refuses filter = none
  found : ∃ input, options.input = some input ∧ scripts disk input = .ok paths
  some_script : paths ≠ []

theorem complaint?_eq_none_iff : complaint? refuses options = none ↔
    ∀ filter, options.logFilter = some filter → refuses filter = none := by
  simp [complaint?]

theorem run_of_accepted (h : Options.ofCommandLine words = .ok options)
    (hhelp : options.help = false) :
    run refuses words disk =
      match complaint? refuses options, options.input with
      | some complaint, _ => ⟨2, "", complaint, disk⟩
      | none, none => ⟨2, "", "error: missing input path\n" ++ usage, disk⟩
      | none, some input => runOn options disk input := by
  simp only [run, h, hhelp, Bool.false_eq_true, if_false]
  cases complaint? refuses options <;> cases options.input <;> rfl

theorem Opens.run_eq {paths : List RawText} (h : Opens refuses words disk options paths) :
    run refuses words disk = processAll options disk paths := by
  obtain ⟨input, hi, hs⟩ := h.found
  obtain ⟨path, others, rfl⟩ := List.exists_cons_of_ne_nil h.some_script
  rw [run_of_accepted h.accepted h.help, complaint?_eq_none_iff.mpr h.filter, hi]
  simp [runOn, hs]

theorem Opens.persisting {others paths : List RawText}
    (h : Opens refuses words disk options paths)
    (ho : Options.ofCommandLine others = .ok options.persisting) :
    Opens refuses others disk options.persisting paths :=
  { h with accepted := ho }

theorem run_persisting_of_not_opens {others : List RawText}
    (h : Options.ofCommandLine words = .ok options)
    (ho : Options.ofCommandLine others = .ok options.persisting)
    (hn : ∀ paths, ¬Opens refuses words disk options paths) :
    run refuses others disk = run refuses words disk := by
  cases hhelp : options.help with
  | true => simp [run, h, ho, Options.persisting, hhelp]
  | false =>
    have hcomplaint : complaint? refuses options.persisting = complaint? refuses options := rfl
    have hinput : options.persisting.input = options.input := rfl
    rw [run_of_accepted h hhelp, run_of_accepted ho hhelp, hcomplaint, hinput]
    cases hfilter : complaint? refuses options with
    | some complaint => rfl
    | none =>
      cases hi : options.input with
      | none => rfl
      | some input =>
        have hscripts : ∀ path paths, scripts disk input ≠ .ok (path :: paths) :=
          fun path paths hs => hn _ ⟨h, hhelp, complaint?_eq_none_iff.mp hfilter,
            ⟨input, hi, hs⟩, List.cons_ne_nil _ _⟩
        simp only [runOn]
        rcases hs : scripts disk input with e | (_ | ⟨path, paths⟩)
        · rfl
        · rfl
        · exact absurd hs (hscripts path paths)

end Command

end DdlCatalog
