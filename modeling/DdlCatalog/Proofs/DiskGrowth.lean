import DdlCatalog.Proofs.DiskPlaces
import Mathlib.Data.List.Induction

namespace DdlCatalog

namespace Path

theorem isAbsolute_of_pieces_eq_nil {path : RawText} (h : pieces path = []) (hne : path ≠ []) :
    isAbsolute path = true := by
  unfold pieces Text.partsAt at h
  cases path with
  | nil => exact absurd rfl hne
  | cons byte path =>
    by_cases hb : byte = slash
    · simp [isAbsolute, hb]
    · rw [Text.splitAt, if_neg hb] at h
      split at h <;> simp at h

end Path

namespace Disk

/-- What is at a place of a disk: nothing, a folder, or a file with its data. -/
def look (disk : Disk) (place : List RawText) : Option (Option ByteArray) :=
  disk.root.look place

variable {disk before after : Disk} {path : RawText} {place : List RawText} {name : RawText}

theorem look_eq_folder_iff : disk.look place = some none ↔
    ∃ inside, disk.root.at? place = some (.folder inside) := by
  unfold look Folder.look
  cases disk.root.at? place with
  | none => simp
  | some entry => cases entry <;> simp [Entry.data?]

theorem look_eq_file_iff {data : ByteArray} : disk.look place = some (some data) ↔
    disk.root.at? place = some (.file data) := by
  unfold look Folder.look
  cases disk.root.at? place with
  | none => simp
  | some entry => cases entry <;> simp [Entry.data?]

theorem look_dropLast (h : disk.look place = some none) :
    disk.look place.dropLast = some none := by
  cases place using List.reverseRecOn with
  | nil => rfl
  | append_singleton above name =>
    rw [List.dropLast_concat]
    exact Folder.look_eq_folder_of_concat (Option.isSome_of_mem h)

/-- One piece of a path leads from a folder back to it, to the folder above, or to what is there
under that name. -/
theorem step_eq_ok_iff {piece : RawText} {next : List RawText} :
    disk.step place piece = .ok next ↔ disk.look place = some none ∧
      (piece = Path.same ∧ next = place ∨ piece = Path.up ∧ next = place.dropLast ∨
        (piece ≠ Path.same ∧ piece ≠ Path.up ∧ Path.isLongName piece = false) ∧
          (disk.look (place ++ [piece])).isSome = true ∧ next = place ++ [piece]) := by
  unfold step
  cases hat : disk.root.at? place with
  | none => simp [look, Folder.look, hat]
  | some entry =>
    cases entry with
    | file data => simp [look, Folder.look, hat, Entry.data?]
    | folder inside =>
      have hfolder : disk.look place = some none := look_eq_folder_iff.mpr ⟨inside, hat⟩
      have hbelow : (disk.look (place ++ [piece])).isSome = (inside.find? piece).isSome := by
        rw [look, Folder.look_concat hat, Option.isSome_map]
      rw [hbelow]
      by_cases hdot : piece = Path.same
      · simp [hfolder, hdot, eq_comm (a := next)]
      · by_cases hup : piece = Path.up
        · simp [hfolder, hup, eq_comm (a := next)]
        · cases hlong : Path.isLongName piece <;> cases hfind : inside.find? piece <;>
            simp [hfolder, hdot, hup, hfind, eq_comm (a := next)]

theorem follow_concat_eq_ok_iff {above : List RawText} {piece : RawText} {reached : List RawText} :
    disk.follow place (above ++ [piece]) = .ok reached ↔
      ∃ folder, disk.follow place above = .ok folder ∧ disk.step folder piece = .ok reached := by
  rw [follow, List.foldlM_append, ← follow]
  cases disk.follow place above with
  | error e => simp [bind, Except.bind]
  | ok folder =>
    simp only [bind, Except.bind, List.foldlM_cons, List.foldlM_nil]
    cases hstep : disk.step folder piece <;> simp [hstep, pure, Except.pure]

theorem ne_empty_of_checkPath (h : checkPath path = .ok ()) : path ≠ [] := by
  rintro rfl
  cases h

theorem isLong_of_checkPath (h : checkPath path = .ok ()) : Path.isLong path = false := by
  cases hlong : Path.isLong path with
  | false => rfl
  | true =>
    rw [checkPath, hlong, if_pos rfl] at h
    split at h
    next => cases h
    next => split at h <;> cases h

/-- The last piece of a path is a name, and the pieces before lead to a folder. -/
structure Leads (disk : Disk) (path : RawText) (folder : List RawText) (name : RawText) : Prop where
  checked : checkPath path = .ok ()
  follows : ∃ above, Path.pieces path = above ++ [name] ∧
    disk.follow (disk.start path) above = .ok folder
  plain : name ≠ Path.same ∧ name ≠ Path.up ∧ Path.isLongName name = false
  closed : Path.endsOpen path = false

theorem entry_eq_file_iff {data : ByteArray} : disk.entry path = .ok (.file data) ↔
    ∃ folder name, disk.Leads path folder name ∧
      disk.look (folder ++ [name]) = some (some data) := by
  have hplace : disk.entry path = .ok (.file data) ↔ checkPath path = .ok () ∧
      Path.endsOpen path = false ∧
      ∃ place, disk.follow (disk.start path) (Path.pieces path) = .ok place ∧
        disk.look place = some (some data) := by
    simp only [look_eq_file_iff]
    unfold entry
    cases checkPath path with
    | error e => simp [bind, Except.bind]
    | ok =>
      cases disk.follow (disk.start path) (Path.pieces path) with
      | error e => simp [bind, Except.bind]
      | ok place =>
        simp only [bind, Except.bind]
        cases hat : disk.root.at? place with
        | none => simp [hat, throw, throwThe, MonadExceptOf.throw]
        | some entry =>
          cases entry <;> cases Path.endsOpen path <;>
            simp [hat, throw, throwThe, MonadExceptOf.throw, pure, Except.pure]
  rw [hplace]
  constructor
  · rintro ⟨hchecked, hclosed, place, hfollow, hfile⟩
    rcases List.eq_nil_or_concat (Path.pieces path) with hpieces | ⟨above, name, hpieces⟩
    · have habsolute := Path.isAbsolute_of_pieces_eq_nil hpieces (ne_empty_of_checkPath hchecked)
      rw [hpieces, start, if_pos habsolute] at hfollow
      cases hfollow
      cases hfile
    · rw [List.concat_eq_append] at hpieces
      rw [hpieces, follow_concat_eq_ok_iff] at hfollow
      obtain ⟨folder, habove, hstep⟩ := hfollow
      obtain ⟨hfolder, ⟨-, rfl⟩ | ⟨-, rfl⟩ | ⟨hplain, -, rfl⟩⟩ := step_eq_ok_iff.mp hstep
      · rw [hfolder] at hfile
        cases hfile
      · rw [look_dropLast hfolder] at hfile
        cases hfile
      · exact ⟨folder, name, ⟨hchecked, ⟨above, hpieces, habove⟩, hplain, hclosed⟩, hfile⟩
  · rintro ⟨folder, name, ⟨hchecked, ⟨above, hpieces, hfollow⟩, hplain, hclosed⟩, hfile⟩
    refine ⟨hchecked, hclosed, folder ++ [name], ?_, hfile⟩
    have hstep : disk.step folder name = .ok (folder ++ [name]) := by
      have hsome := Option.isSome_of_mem hfile
      rw [step_eq_ok_iff]
      exact ⟨Folder.look_eq_folder_of_concat hsome, .inr (.inr ⟨hplain, hsome, rfl⟩)⟩
    rw [hpieces, follow_concat_eq_ok_iff]
    exact ⟨folder, hfollow, hstep⟩

theorem entry_eq_folder_iff {inside : Folder} : disk.entry path = .ok (.folder inside) ↔
    checkPath path = .ok () ∧
      ∃ place, disk.follow (disk.start path) (Path.pieces path) = .ok place ∧
      disk.root.at? place = some (.folder inside) := by
  unfold entry
  cases checkPath path with
  | error e => simp [bind, Except.bind]
  | ok =>
    cases disk.follow (disk.start path) (Path.pieces path) with
    | error e => simp [bind, Except.bind]
    | ok place =>
      simp only [bind, Except.bind]
      cases hat : disk.root.at? place with
      | none => simp [hat, throw, throwThe, MonadExceptOf.throw]
      | some entry =>
        cases entry <;> cases Path.endsOpen path <;>
          simp [hat, throw, throwThe, MonadExceptOf.throw, pure, Except.pure]

theorem toUTF8_eq {data : ByteArray} {text : String} (h : String.fromUTF8? data = some text) :
    text.toUTF8 = data := by
  unfold String.fromUTF8? at h
  split at h
  next => cases h; rfl
  next => cases h

/-- The text of a path is that of the file under it, if the file fits into memory. -/
theorem readText_eq_ok_iff {text : String} : disk.readText path = .ok text ↔
    ∃ data, disk.entry path = .ok (.file data) ∧ data.size ≤ memoryLimit ∧
      String.fromUTF8? data = some text := by
  unfold readText
  cases disk.entry path with
  | error e => simp [bind, Except.bind]
  | ok entry =>
    cases entry with
    | folder inside => simp [bind, Except.bind]
    | file data =>
      simp only [bind, Except.bind]
      by_cases hsize : memoryLimit < data.size
      · simp [hsize, Nat.not_le.mpr hsize]
      · cases hutf : String.fromUTF8? data <;>
          simp [hsize, Nat.not_lt.mp hsize, hutf, pure, Except.pure]

/-- Nothing goes away and folders stay folders. Files are the same, but for the places where
something is written. -/
structure Grows (Written : List RawText → Prop) (before after : Disk) : Prop where
  here : after.here = before.here
  stays : ∀ place, (before.look place).isSome = true → (after.look place).isSome = true
  folders : ∀ place, before.look place = some none → after.look place = some none
  files : ∀ place data, ¬Written place →
    (after.look place = some (some data) ↔ before.look place = some (some data))

namespace Grows

variable {Written Other : List RawText → Prop}

theorem refl (Written : List RawText → Prop) (disk : Disk) : Grows Written disk disk :=
  ⟨rfl, fun _ => id, fun _ => id, fun _ _ _ => Iff.rfl⟩

theorem trans {middle : Disk} (h : Grows Written before middle) (h' : Grows Written middle after) :
    Grows Written before after where
  here := h'.here.trans h.here
  stays := fun place hs => h'.stays place (h.stays place hs)
  folders := fun place hf => h'.folders place (h.folders place hf)
  files := fun place data hw => (h'.files place data hw).trans (h.files place data hw)

theorem mono (h : Grows Written before after) (hw : ∀ place, Written place → Other place) :
    Grows Other before after :=
  ⟨h.here, h.stays, h.folders, fun place data ho =>
    h.files place data fun hp => ho (hw place hp)⟩

theorem step (h : Grows Written before after) {piece : RawText} {next : List RawText}
    (hs : before.step place piece = .ok next) : after.step place piece = .ok next := by
  rw [step_eq_ok_iff] at hs ⊢
  refine ⟨h.folders place hs.1, hs.2.imp id (.imp id ?_)⟩
  rintro ⟨hplain, hsome, hnext⟩
  exact ⟨hplain, h.stays _ hsome, hnext⟩

theorem follow (h : Grows Written before after) {pieces : List RawText} {reached : List RawText}
    (hf : before.follow place pieces = .ok reached) : after.follow place pieces = .ok reached := by
  induction pieces using List.reverseRecOn generalizing reached with
  | nil => exact hf
  | append_singleton above piece ih =>
    rw [follow_concat_eq_ok_iff] at hf ⊢
    obtain ⟨folder, habove, hstep⟩ := hf
    exact ⟨folder, ih habove, h.step hstep⟩

theorem leads (h : Grows Written before after) {folder : List RawText}
    (hl : before.Leads path folder name) : after.Leads path folder name := by
  obtain ⟨above, hpieces, hfollow⟩ := hl.follows
  have hstart : after.start path = before.start path := by rw [start, start, h.here]
  exact ⟨hl.checked, ⟨above, hpieces, hstart ▸ h.follow hfollow⟩, hl.plain, hl.closed⟩

theorem entry_file (h : Grows Written before after) {data : ByteArray}
    (hd : before.entry path = .ok (.file data))
    (hw : ∀ folder name, before.Leads path folder name → ¬Written (folder ++ [name])) :
    after.entry path = .ok (.file data) := by
  obtain ⟨folder, name, hleads, hfile⟩ := entry_eq_file_iff.mp hd
  exact entry_eq_file_iff.mpr
    ⟨folder, name, h.leads hleads, (h.files _ _ (hw folder name hleads)).mpr hfile⟩

theorem readText (h : Grows Written before after) {text : String}
    (ht : before.readText path = .ok text)
    (hw : ∀ folder name, before.Leads path folder name → ¬Written (folder ++ [name])) :
    after.readText path = .ok text := by
  obtain ⟨data, hdata, htext⟩ := readText_eq_ok_iff.mp ht
  exact readText_eq_ok_iff.mpr ⟨data, h.entry_file hdata hw, htext⟩

end Grows

theorem grows_set {entry : Entry} (he : ∀ deeper, entry = .folder deeper → deeper = .empty)
    (hplace : disk.look place = some none) (hold : disk.look (place ++ [name]) ≠ some none) :
    Grows (· = place ++ [name]) disk (disk.set place name entry) ∧
      (disk.set place name entry).look (place ++ [name]) = some entry.data? := by
  have hlook := Folder.look_putAt he hplace hold
  refine ⟨⟨rfl, fun other hs => ?_, fun other hf => ?_, fun other data hw => ?_⟩, ?_⟩
  · rw [look, set, hlook]
    split
    · rfl
    · exact hs
  · rw [look, set, hlook, if_neg]
    · exact hf
    · rintro rfl
      exact hold hf
  · rw [look, set, hlook, if_neg hw, look]
  · rw [look, set, hlook, if_pos rfl]

theorem slot_eq_ok {inside : Folder} (h : disk.slot path = .ok (place, inside, name)) :
    checkPath path = .ok () ∧ (∃ above, Path.pieces path = above ++ [name] ∧
      disk.follow (disk.start path) above = .ok place) ∧
      disk.root.at? place = some (.folder inside) ∧ Path.isLongName name = false := by
  unfold slot at h
  cases hchecked : checkPath path with
  | error e => simp [hchecked, bind, Except.bind] at h
  | ok =>
    simp only [hchecked, bind, Except.bind] at h
    split at h
    next => cases h
    next found above hpieces =>
      have hsplit : Path.pieces path = above.reverse ++ [found] := by
        rw [← List.reverse_cons, ← hpieces, List.reverse_reverse]
      split at h
      next => cases h
      next reached hfollow =>
        split at h
        next => cases h
        next => cases h
        next inside' hat =>
          split at h
          next => cases h
          next hlong =>
            cases h
            exact ⟨rfl, ⟨above.reverse, hsplit, hfollow⟩, hat, by simpa using hlong⟩

theorem makeFolder_grows (h : disk.makeFolder path = .ok after) :
    Grows (fun _ => False) disk after := by
  unfold makeFolder at h
  cases hslot : disk.slot path with
  | error e => simp [hslot, bind, Except.bind] at h
  | ok found =>
    obtain ⟨place, inside, name⟩ := found
    obtain ⟨-, -, hat, -⟩ := slot_eq_ok hslot
    simp only [hslot, bind, Except.bind] at h
    split at h
    next => cases h
    next hfree =>
      cases h
      simp only [not_or, Bool.not_eq_true, Option.isSome_eq_false_iff, Option.isNone_iff_eq_none]
        at hfree
      have hnone : disk.look (place ++ [name]) = none := by
        rw [look, Folder.look_concat hat, hfree.2.2]
        rfl
      have hplace : disk.look place = some none := look_eq_folder_iff.mpr ⟨inside, hat⟩
      have hold : disk.look (place ++ [name]) ≠ some none := by simp [hnone]
      have hempty : ∀ deeper, Entry.folder .empty = .folder deeper → deeper = .empty := by simp
      obtain ⟨hgrows, hmade⟩ := grows_set hempty hplace hold
      refine ⟨hgrows.here, hgrows.stays, hgrows.folders, fun other data _ => ?_⟩
      by_cases ho : other = place ++ [name]
      · rw [ho, hmade, hnone]
        simp [Entry.data?]
      · exact hgrows.files other data ho

theorem makeAlong_grows (disk : Disk) (path : RawText) (above : List RawText) :
    Grows (fun _ => False) disk (disk.makeAlong path above).2 := by
  induction above generalizing path with
  | nil =>
    unfold makeAlong
    split
    next made hmade => exact makeFolder_grows hmade
    next => exact .refl _ disk
  | cons parent above ih =>
    unfold makeAlong
    split
    next made hmade => exact makeFolder_grows hmade
    next =>
      have habove := ih parent
      split
      next e changed hchanged =>
        rw [hchanged] at habove
        exact habove
      next changed hchanged =>
        rw [hchanged] at habove
        split
        next made hmade => exact habove.trans (makeFolder_grows hmade)
        next => exact habove
    next => exact .refl _ disk

theorem makeFolders_grows (disk : Disk) (path : RawText) :
    Grows (fun _ => False) disk (disk.makeFolders path).2 := by
  unfold makeFolders
  split
  next => exact .refl _ disk
  next => exact makeAlong_grows disk path _

theorem writeFile_grows {data : ByteArray} (h : disk.writeFile path data = .ok after) :
    ∃ folder name, disk.Leads path folder name ∧ Grows (· = folder ++ [name]) disk after ∧
      after.entry path = .ok (.file data) := by
  unfold writeFile at h
  cases hslot : disk.slot path with
  | error e => simp [hslot, bind, Except.bind] at h
  | ok found =>
    obtain ⟨place, inside, name⟩ := found
    obtain ⟨hchecked, hfollows, hat, hlong⟩ := slot_eq_ok hslot
    simp only [hslot, bind, Except.bind] at h
    split at h
    next => cases h
    next hplain =>
      simp only [not_or, Bool.not_eq_true] at hplain
      have hleads : disk.Leads path place name :=
        ⟨hchecked, hfollows, ⟨hplain.1, hplain.2.1, hlong⟩, hplain.2.2⟩
      have hplace : disk.look place = some none := look_eq_folder_iff.mpr ⟨inside, hat⟩
      split at h
      next => cases h
      next hfree =>
        cases h
        have hold : disk.look (place ++ [name]) ≠ some none := by
          rw [look, Folder.look_concat hat]
          cases hfind : inside.find? name with
          | none => simp
          | some held =>
            cases held with
            | file data => simp [Entry.data?]
            | folder deeper => exact absurd hfind (hfree deeper)
        have hfile : ∀ deeper, Entry.file data = .folder deeper → deeper = .empty := by
          intro deeper he
          cases he
        obtain ⟨hgrows, hwritten⟩ := grows_set hfile hplace hold
        exact ⟨place, name, hleads, hgrows,
          entry_eq_file_iff.mpr ⟨place, name, hgrows.leads hleads, hwritten⟩⟩

end Disk

end DdlCatalog
