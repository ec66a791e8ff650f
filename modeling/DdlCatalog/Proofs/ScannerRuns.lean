import DdlCatalog.Proofs.TokenTiling

namespace DdlCatalog

/-- What a scanner can be asked for. A pattern tells how many characters it matches at the front. -/
inductive Request where
  | word (text : String) (anyCase : Bool)
  | anyWord (words : List String) (anyCase : Bool)
  | oneOf (charset : String)
  | run (charset : String)
  | upTo (terminators : String)
  | openedUntil (opening terminators : String)
  | delimited (delimiter : String) (keepDelimiters : Bool)
  | shape (s : Shape)
  | pattern (measure : List Char → Nat)

namespace Request

def recognizer : Request → Recognizer
  | word text anyCase => .word text anyCase
  | anyWord words anyCase => .anyWord words anyCase
  | oneOf charset => .oneOf charset
  | run charset => .run charset
  | upTo terminators => .upTo terminators
  | openedUntil opening terminators => .openedUntil opening terminators
  | delimited delimiter keepDelimiters => .delimited delimiter keepDelimiters
  | shape s => .shape s
  | pattern measure => fun text => .ok ⟨min (measure text) text.length, 0⟩

theorem fits (request : Request) : request.recognizer.Fits := by
  cases request with
  | word text anyCase => exact Recognizer.fits_anyWord [text] anyCase
  | anyWord words anyCase => exact Recognizer.fits_anyWord words anyCase
  | oneOf charset => exact Recognizer.fits_oneOf charset
  | run charset => exact Recognizer.fits_shape (.run charset)
  | upTo terminators => exact Recognizer.fits_upTo terminators
  | openedUntil opening terminators => exact Recognizer.fits_openedUntil opening terminators
  | delimited delimiter keepDelimiters =>
    exact Recognizer.fits_delimited delimiter keepDelimiters
  | shape s => exact Recognizer.fits_shape s
  | pattern measure =>
    intro text extent h
    cases h
    exact Nat.min_le_right _ _

end Request

inductive Answer where
  | found
  | missed
  | failed (reason : Unfinished)

namespace Scanner

/-- Answers a request for a token of a kind, and moves over the token if it is found. -/
def ask (scanner : Scanner) (kind : Token.Kind) (request : Request) : Answer × Scanner :=
  match scanner.scan kind request.recognizer with
  | .ok (some next) => (.found, next)
  | .ok none => (.missed, scanner)
  | .error reason => (.failed reason, scanner)

def askAll (scanner : Scanner) (requests : List (Token.Kind × Request)) : Scanner :=
  requests.foldl (fun reached asked => (reached.ask asked.1 asked.2).2) scanner

/-- A request either finds a lexeme inside the text ahead and makes one token of it, or changes
nothing. -/
theorem ask_cases (scanner : Scanner) (kind : Token.Kind) (request : Request) :
    (∃ extent, request.recognizer scanner.rest = .ok extent ∧
      extent.length ≤ scanner.rest.length ∧ extent.span scanner.rest ≠ [] ∧
      scanner.ask kind request = (.found, scanner.advance kind extent)) ∨
    (scanner.ask kind request).1 ≠ .found ∧ (scanner.ask kind request).2 = scanner := by
  cases h : scanner.scan kind request.recognizer with
  | error reason => exact .inr (by simp [ask, h])
  | ok result =>
    cases result with
    | none => exact .inr (by simp [ask, h])
    | some next =>
      obtain ⟨extent, hr, hs, rfl⟩ := scan_eq_some h
      exact .inl ⟨extent, hr, request.fits hr, hs, by simp [ask, h]⟩

/-- The tokens partition `before`, behind which the scanner stands. -/
structure Partitions (scanner : Scanner) (before : List Char) : Prop where
  place : scanner.At before
  none : scanner.tokens = [] → before = []
  first : ∀ first ∈ scanner.tokens.head?, first.start = 0
  chain : scanner.tokens.IsChain fun a b => a.stop = b.start
  last : ∀ last ∈ scanner.tokens.getLast?, last.stop = scanner.position
  pieces : ∀ token ∈ scanner.tokens, ∃ front span back, before = front ++ (span ++ back) ∧
    span ≠ [] ∧ token.start = Text.byteSize front ∧ token.stop = Text.byteSize (front ++ span)

theorem partitions_ofSource (source : String) : (ofSource source).Partitions [] where
  place := at_ofSource source
  none := fun _ => rfl
  first := by simp [ofSource, tokens]
  chain := .nil
  last := by simp [ofSource, tokens]
  pieces := by simp [ofSource, tokens]

theorem Partitions.advance {scanner : Scanner} {before : List Char}
    (h : scanner.Partitions before) {extent : Extent} (hs : extent.span scanner.rest ≠ [])
    (kind : Token.Kind) :
    (scanner.advance kind extent).Partitions (before ++ extent.span scanner.rest) := by
  have hstart : (scanner.token kind extent).start = scanner.position := rfl
  have hstop : (scanner.token kind extent).stop =
      Text.byteSize (before ++ extent.span scanner.rest) := by
    rw [Text.byteSize_append, ← h.place.position]
    rfl
  constructor
  · exact h.place.advance kind extent
  · simp
  · intro first hf
    rw [tokens_advance] at hf
    cases ht : scanner.tokens with
    | nil =>
      rw [ht] at hf
      cases hf
      rw [hstart, h.place.position, h.none ht]
      rfl
    | cons token tokens =>
      rw [ht] at hf
      exact h.first first (by rw [ht]; exact hf)
  · rw [tokens_advance, List.isChain_append]
    refine ⟨h.chain, .singleton _, fun last hl next hn => ?_⟩
    cases hn
    exact h.last last hl
  · intro last hl
    rw [tokens_advance, List.getLast?_concat] at hl
    cases hl
    rfl
  · intro token ht
    rw [tokens_advance, List.mem_append, List.mem_singleton] at ht
    rcases ht with ht | rfl
    · obtain ⟨front, span, back, rfl, hne, hfront, hspan⟩ := h.pieces token ht
      exact ⟨front, span, back ++ extent.span scanner.rest, by simp, hne, hfront, hspan⟩
    · refine ⟨before, extent.span scanner.rest, [], by simp, hs, ?_, hstop⟩
      rw [hstart, h.place.position]

theorem Partitions.ask {scanner : Scanner} {before : List Char} (h : scanner.Partitions before)
    (kind : Token.Kind) (request : Request) :
    ∃ span, scanner.rest = span ++ (scanner.ask kind request).2.rest ∧
      (scanner.ask kind request).2.Partitions (before ++ span) := by
  rcases scanner.ask_cases kind request with ⟨extent, -, -, hs, hask⟩ | ⟨-, hsame⟩
  · rw [hask]
    exact ⟨extent.span scanner.rest, (extent.span_append_rest scanner.rest).symm,
      h.advance hs kind⟩
  · rw [hsame]
    exact ⟨[], rfl, by rwa [List.append_nil]⟩

theorem Partitions.askAll {scanner : Scanner} {before : List Char} (h : scanner.Partitions before)
    (requests : List (Token.Kind × Request)) :
    ∃ span, scanner.rest = span ++ (scanner.askAll requests).rest ∧
      (scanner.askAll requests).Partitions (before ++ span) := by
  induction requests generalizing scanner before with
  | nil => exact ⟨[], rfl, by rwa [List.append_nil]⟩
  | cons asked requests ih =>
    obtain ⟨span, hspan, hnext⟩ := h.ask asked.1 asked.2
    obtain ⟨more, hmore, hreached⟩ := ih hnext
    refine ⟨span ++ more, by rw [hspan, hmore, List.append_assoc]; rfl, ?_⟩
    rw [← List.append_assoc]
    exact hreached

/-- Whatever is asked for, in whatever order: the tokens partition the script up to the scanner,
which stands between two characters on the line that it names. The next request that is found
appends the token over what was measured, and one that is missed or fails changes nothing. -/
theorem askAll_ofSource_partitions (source : String) (requests : List (Token.Kind × Request)) :
    ∃ (reached : Scanner) (before after : String),
      (ofSource source).askAll requests = reached ∧ source = before ++ after ∧
      reached.rest = after.toList ∧ reached.Partitions before.toList ∧
      reached.position = before.utf8ByteSize ∧ reached.position ≤ source.utf8ByteSize ∧
      (before.toList.count '\n' < 2 ^ 32 - 1 →
        reached.line.toNat = 1 + before.toList.count '\n') ∧
      ∀ kind request,
        (∃ token extent next, reached.ask kind request = (.found, next) ∧
          next.tokens = reached.tokens ++ [token] ∧ token.kind = kind ∧
          token.start = reached.position ∧ token.stop = next.position ∧
          token.start < token.stop ∧ request.recognizer reached.rest = .ok extent ∧
          extent.length ≤ reached.rest.length ∧
          next.rest = reached.rest.drop extent.length) ∨
        (reached.ask kind request).1 ≠ .found ∧ (reached.ask kind request).2 = reached := by
  obtain ⟨before, hsource, hpartitions⟩ := (partitions_ofSource source).askAll requests
  generalize (ofSource source).askAll requests = reached at hsource hpartitions
  rw [List.nil_append] at hpartitions
  have hposition : reached.position = Text.byteSize before := hpartitions.place.position
  have hwhole : source = String.ofList before ++ String.ofList reached.rest := by
    rw [← String.ofList_append, ← hsource]
    exact String.ofList_toList.symm
  refine ⟨reached, .ofList before, .ofList reached.rest, rfl, hwhole, ?_, ?_, ?_, ?_, ?_, ?_⟩
  · rw [String.toList_ofList]
  · rwa [String.toList_ofList]
  · rw [hposition, Text.byteSize_eq_utf8ByteSize]
  · rw [hwhole, String.utf8ByteSize_append, hposition, Text.byteSize_eq_utf8ByteSize]
    omega
  · intro hcount
    rw [hpartitions.place.line, UInt32.toNat_add, UInt32.toNat_ofNat', UInt32.toNat_one]
    rw [String.toList_ofList] at hcount ⊢
    unfold Text.newlines
    omega
  · intro kind request
    rcases reached.ask_cases kind request with ⟨extent, hr, hfits, hs, hask⟩ | hsame
    · refine .inl ⟨reached.token kind extent, extent, _, hask, tokens_advance _ _ _, rfl, rfl, rfl,
        ?_, hr, hfits, rfl⟩
      have hpos := Text.byteSize_pos hs
      simp only [token, Token.ofSpan]
      omega
    · exact .inr hsame

end Scanner

end DdlCatalog
