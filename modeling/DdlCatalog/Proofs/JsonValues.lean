import DdlCatalog.Json.Decode
import DdlCatalog.Schema.Json
import DdlCatalog.Proofs.JsonText
import DdlCatalog.Proofs.NameLookup
import DdlCatalog.Proofs.Numerals

namespace DdlCatalog

theorem NameMap.ofList_entries {α : Type} (map : NameMap α) : ofList map.entries = map := by
  have hoverride : ofList map.entries = empty.override map := rfl
  refine ext_get? fun name => ?_
  rw [hoverride, get?_override, get?_empty, Option.or_none]

namespace Json

structure Recovers {α : Type} (encode : α → Json) (decode : Decoder α) (value : α) : Prop where
  regular : Regular (encode value)
  decoded : decode (encode value) = some value

/-- A value comes back from either text of its tree. -/
def ReadsBack {α : Type} (encode : α → Json) (decode : Decoder α) (value : α) : Prop :=
  (read? (encode value).compact).bind decode = some value ∧
    (read? (encode value).pretty).bind decode = some value

variable {α : Type} {encode : α → Json} {decode : Decoder α}

theorem Recovers.readsBack {value : α} (h : Recovers encode decode value) :
    ReadsBack encode decode value := by
  constructor
  · rw [h.regular.read?_compact, Option.bind_some, h.decoded]
  · rw [h.regular.read?_pretty, Option.bind_some, h.decoded]

@[simp] theorem regular_ofString (text : String) : Regular (ofString text) :=
  .string text.toList

@[simp] theorem string?_ofString (text : String) : string? (ofString text) = some text := by
  rw [ofString, string?, unescape?_escape, Option.map_some, String.ofList_toList]

theorem recovers_string (text : String) : Recovers ofString string? text :=
  ⟨regular_ofString text, string?_ofString text⟩

theorem recovers_below {bound n : Nat} (h : n < bound) : Recovers ofNat (below? bound) n where
  regular := .number n
  decoded := by
    have hdigits : Text.decimal? (Text.decimal n) = some n := by
      rw [Text.decimal?_of_digits (Text.decimal_ne_nil n)
        fun _ hc => Text.isDigit_of_mem_decimal hc, Text.decimalValue_decimal]
    simp only [ofNat, below?, hdigits, if_pos h]

theorem recovers_word (w : UInt32) : Recovers ofWord word? w where
  regular := .number w.toNat
  decoded := by
    rw [word?, ofWord, (recovers_below w.toNat_lt_size).decoded, Option.map_some,
      UInt32.ofNat_toNat]

@[simp] theorem regular_bool (value : Bool) : Regular (.bool value) :=
  .bool value

@[simp] theorem bool?_bool (value : Bool) : bool? (.bool value) = some value :=
  rfl

theorem Recovers.option (h : ∀ value, Recovers encode decode value)
    (hne : ∀ value, encode value ≠ .null) (held : Option α) :
    Recovers (ofOption encode) (option? decode) held := by
  cases held with
  | none => exact ⟨.null, rfl⟩
  | some value =>
    refine ⟨(h value).regular, ?_⟩
    rw [ofOption, option?, (h value).decoded, Option.map_some]
    exact hne value

theorem mapM_map_eq_some {β : Type} {f : β → Option α} {g : α → β} {items : List α}
    (h : ∀ item ∈ items, f (g item) = some item) : (items.map g).mapM f = some items := by
  induction items with
  | nil => rfl
  | cons item items ih =>
    have hitems := ih fun other ho => h other (List.mem_cons_of_mem item ho)
    simp [h item List.mem_cons_self, hitems]

theorem Recovers.list {items : List α} (h : ∀ item ∈ items, Recovers encode decode item) :
    Recovers (ofList encode) (list? decode) items where
  regular := .array fun json hj => by
    obtain ⟨item, hi, rfl⟩ := List.mem_map.mp hj
    exact (h item hi).regular
  decoded := mapM_map_eq_some fun item hi => (h item hi).decoded

theorem regular_record {fields : List (String × Json)}
    (h : ∀ field ∈ fields, Regular field.2) : Regular (record fields) := by
  refine .object ?_ ?_
  · intro field hf
    obtain ⟨held, -, rfl⟩ := List.mem_map.mp hf
    exact ⟨_, rfl⟩
  · intro field hf
    obtain ⟨held, hm, rfl⟩ := List.mem_map.mp hf
    exact h held hm

@[simp] theorem fields?_record (fields : List (String × Json)) :
    fields? (record fields) = some fields := by
  refine mapM_map_eq_some fun field _ => ?_
  rw [unescape?_escape, Option.map_some, String.ofList_toList]

@[simp] theorem record?_record (names : List String) (fields : List (String × Json)) :
    record? names (record fields) = some fields :=
  fields?_record fields

theorem regular_ofMap {map : NameMap α} (h : ∀ entry ∈ map.entries, Regular (encode entry.2)) :
    Regular (ofMap encode map) := by
  refine regular_record fun field hf => ?_
  obtain ⟨entry, he, rfl⟩ := List.mem_map.mp hf
  exact h entry he

theorem Recovers.map {map : NameMap α} (h : ∀ entry ∈ map.entries, Recovers encode decode entry.2) :
    Recovers (ofMap encode) (map? decode) map where
  regular := regular_ofMap fun entry he => (h entry he).regular
  decoded := by
    have hentries : (map.entries.map fun entry => (entry.1, encode entry.2)).mapM
        (fun field => (decode field.2).map fun value => (field.1, value)) = some map.entries := by
      refine mapM_map_eq_some fun entry he => ?_
      rw [(h entry he).decoded, Option.map_some]
    simp [map?, ofMap, NameMap.toList, hentries, NameMap.ofList_entries]

end Json

end DdlCatalog
