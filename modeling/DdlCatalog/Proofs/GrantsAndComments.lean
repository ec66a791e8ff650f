import DdlCatalog.Proofs.Concatenation
import DdlCatalog.Proofs.LiteralStrings
import DdlCatalog.Proofs.Segments
import Mathlib.Data.List.TakeWhile

namespace DdlCatalog

namespace Syntax

/-- Tokens cut at the first one that shows a keyword. Where none does, nothing is behind the cut. -/
inductive Cut (word : String) : List Token → List Token → List Token → Prop
  | found {front stop back} : (∀ token ∈ front, ¬token.isKeyword word) → stop.isKeyword word →
      Cut word (front ++ stop :: back) front back
  | missing {tokens} : (∀ token ∈ tokens, ¬token.isKeyword word) → Cut word tokens tokens []

/-- `privileges [ON object] TO grantees [WITH options]`, where each keyword counts once: the first
`TO`, the first `ON` before it and the first `WITH` behind it. -/
inductive GrantBody : List Token → Grant → Prop
  | mk {head stop tail privileges object grantees options} :
      (∀ token ∈ head, ¬token.isKeyword "TO") → stop.isKeyword "TO" →
      Cut "ON" head privileges object → Cut "WITH" tail grantees options →
      GrantBody (head ++ stop :: tail)
        ⟨Token.render privileges, Token.render object, Token.render grantees⟩

/-- `ON kind target IS text`. The kind is made of all keywords up to the target, and the text is one
literal that ends the body. -/
inductive CommentBody : List Token → Comment → Prop
  | mk {opening kind target stop strings} : opening.isKeyword "ON" → kind ≠ [] →
      (∀ token ∈ kind, token.kind = .keyword ∧ ¬token.isKeyword "IS") → target ≠ [] →
      (∀ token ∈ target.head?, token.kind ≠ .keyword) →
      (∀ token ∈ target, ¬token.isKeyword "IS") → stop.isKeyword "IS" → strings ≠ [] →
      Touching strings →
      CommentBody (opening :: (kind ++ (target ++ stop :: strings)))
        ⟨Token.render kind, Token.render target, Token.joined strings "'"⟩

variable {word : String} {tokens front back : List Token}

theorem Cut.exists (word : String) (tokens : List Token) :
    ∃ front back, Cut word tokens front back := by
  cases hn : tokens.findIdx? (·.isKeyword word) with
  | none =>
    have hfree := List.findIdx?_eq_none_iff.mp hn
    exact ⟨tokens, [], .missing fun token hm => by simp [hfree token hm]⟩
  | some n =>
    obtain ⟨front, stop, back, rfl, -, hfree, hstop⟩ := findIdx?_eq_some_iff_split.mp hn
    exact ⟨front, back, .found (fun token hm => by simp [hfree token hm]) hstop⟩

theorem findIdx?_of_first {stop : Token} (hf : ∀ token ∈ front, ¬token.isKeyword word)
    (hs : stop.isKeyword word) :
    (front ++ stop :: back).findIdx? (·.isKeyword word) = some front.length := by
  refine findIdx?_eq_some_iff_split.mpr ⟨front, stop, back, rfl, rfl, fun token hm => ?_, hs⟩
  exact Bool.eq_false_iff.mpr (hf token hm)

theorem findIdx?_of_missing (h : ∀ token ∈ tokens, ¬token.isKeyword word) :
    tokens.findIdx? (·.isKeyword word) = none :=
  List.findIdx?_eq_none_iff.mpr fun token hm => Bool.eq_false_iff.mpr (h token hm)

theorem take_drop_of_first (front back : List Token) (stop : Token) :
    (front ++ stop :: back).take front.length = front ∧
      (front ++ stop :: back).drop (front.length + 1) = back := by
  simp [List.drop_append]

theorem Cut.takeWhile_eq (h : Cut word tokens front back) :
    tokens.takeWhile (fun token => !token.isKeyword word) = front := by
  have hpass : ∀ {items : List Token}, (∀ token ∈ items, ¬token.isKeyword word) →
      ∀ token ∈ items, (!token.isKeyword word) = true := by
    intro items hn token hm
    simpa using hn token hm
  cases h with
  | found hf hs =>
    rw [List.takeWhile_append_of_pos (hpass hf), List.takeWhile_cons_of_neg (by simp [hs]),
      List.append_nil]
  | missing hn => exact List.takeWhile_eq_self_iff.mpr (hpass hn)

end Syntax

open Syntax

namespace Grant

theorem ofBody?_of_cuts {head tail privileges object grantees options : List Token} {stop : Token}
    (hhead : ∀ token ∈ head, ¬token.isKeyword "TO") (hstop : stop.isKeyword "TO")
    (hon : Cut "ON" head privileges object) (hwith : Cut "WITH" tail grantees options) :
    ofBody? (head ++ stop :: tail) =
      some ⟨Token.render privileges, Token.render object, Token.render grantees⟩ := by
  obtain ⟨htake, hdrop⟩ := take_drop_of_first head tail stop
  unfold ofBody?
  simp only [findIdx?_of_first hhead hstop, bind, Option.bind, htake, hdrop, hwith.takeWhile_eq]
  cases hon with
  | @found _ stop _ hf hs =>
    obtain ⟨htake, hdrop⟩ := take_drop_of_first privileges object stop
    simp only [findIdx?_of_first hf hs, htake, hdrop]
    rfl
  | missing hn =>
    simp only [findIdx?_of_missing hn]
    rfl

theorem exists_grantBody {body : List Token} {n : Nat}
    (h : body.findIdx? (·.isKeyword "TO") = some n) : ∃ grant, GrantBody body grant := by
  obtain ⟨head, stop, tail, rfl, -, hfree, hstop⟩ := findIdx?_eq_some_iff_split.mp h
  obtain ⟨privileges, object, hon⟩ := Cut.exists "ON" head
  obtain ⟨grantees, options, hwith⟩ := Cut.exists "WITH" tail
  exact ⟨_, .mk (fun token hm => by simp [hfree token hm]) hstop hon hwith⟩

theorem ofBody?_of_grantBody {body : List Token} {grant : Grant} (h : GrantBody body grant) :
    ofBody? body = some grant := by
  obtain ⟨hhead, hstop, hon, hwith⟩ := h
  exact ofBody?_of_cuts hhead hstop hon hwith

theorem ofBody?_eq_some_iff {body : List Token} {grant : Grant} :
    ofBody? body = some grant ↔ GrantBody body grant := by
  refine ⟨fun h => ?_, ofBody?_of_grantBody⟩
  obtain ⟨n, hn, -⟩ := Option.bind_eq_some_iff.mp h
  obtain ⟨found, hfound⟩ := exists_grantBody hn
  obtain rfl := Option.some.inj (h.symm.trans (ofBody?_of_grantBody hfound))
  exact hfound

theorem ofBody?_eq_none_iff {body : List Token} :
    ofBody? body = none ↔ ∀ grant, ¬GrantBody body grant := by
  simp only [Option.eq_none_iff_forall_ne_some, ne_eq, ofBody?_eq_some_iff]

theorem exists_grantBody_iff {body : List Token} :
    (∃ grant, GrantBody body grant) ↔ ∃ token ∈ body, token.isKeyword "TO" := by
  constructor
  · rintro ⟨_, ⟨-, hstop, -, -⟩⟩
    exact ⟨_, by simp, hstop⟩
  · rintro ⟨token, hm, ht⟩
    have hsome : (body.findIdx? (·.isKeyword "TO")).isSome = true := by
      rw [List.findIdx?_isSome, List.any_eq_true]
      exact ⟨token, hm, ht⟩
    obtain ⟨n, hn⟩ := Option.isSome_iff_exists.mp hsome
    exact exists_grantBody hn

end Grant

namespace Comment

theorem inKind_iff {token : Token} :
    inKind token = true ↔ token.kind = .keyword ∧ ¬token.isKeyword "IS" := by
  simp [inKind]

theorem takeWhile_inKind {kind target : List Token} (rest : List Token)
    (hkind : ∀ token ∈ kind, token.kind = .keyword ∧ ¬token.isKeyword "IS") (hne : target ≠ [])
    (hhead : ∀ token ∈ target.head?, token.kind ≠ .keyword) :
    (kind ++ (target ++ rest)).takeWhile inKind = kind ∧
      (kind ++ (target ++ rest)).dropWhile inKind = target ++ rest := by
  have hpass : ∀ token ∈ kind, inKind token = true := fun token hm =>
    inKind_iff.mpr (hkind token hm)
  obtain ⟨first, target, rfl⟩ := List.exists_cons_of_ne_nil hne
  have hstop : ¬inKind first = true := fun hf => hhead first rfl (inKind_iff.mp hf).1
  rw [List.takeWhile_append_of_pos hpass, List.dropWhile_append_of_pos hpass, List.cons_append,
    List.takeWhile_cons_of_neg hstop, List.dropWhile_cons_of_neg hstop, List.append_nil]
  exact ⟨rfl, rfl⟩

theorem ne_keyword_of_dropWhile {rest target back : List Token}
    (h : rest.dropWhile inKind = target ++ back) (hfree : ∀ token ∈ target, ¬token.isKeyword "IS") :
    ∀ token ∈ target.head?, token.kind ≠ .keyword := by
  intro token hm hkeyword
  obtain ⟨more, rfl⟩ := List.head?_eq_some_iff.mp hm
  have hin := inKind_iff.mpr ⟨hkeyword, hfree token List.mem_cons_self⟩
  have hbehind := List.head?_dropWhile_not inKind rest
  simp [h, hin] at hbehind

theorem ofBody?_of_parts {opening stop : Token} {kind target strings : List Token}
    (hopening : opening.isKeyword "ON") (hkind : kind ≠ [])
    (hwords : ∀ token ∈ kind, token.kind = .keyword ∧ ¬token.isKeyword "IS") (htarget : target ≠ [])
    (hhead : ∀ token ∈ target.head?, token.kind ≠ .keyword)
    (hfree : ∀ token ∈ target, ¬token.isKeyword "IS") (hstop : stop.isKeyword "IS") :
    ofBody? (opening :: (kind ++ (target ++ stop :: strings))) =
      (Token.literal? strings).map fun text =>
        ⟨Token.render kind, Token.render target, text⟩ := by
  obtain ⟨htakeWhile, hdropWhile⟩ :=
    takeWhile_inKind (stop :: strings) hwords htarget hhead
  obtain ⟨htake, hdrop⟩ := take_drop_of_first target strings stop
  simp only [ofBody?, hopening, htakeWhile, hdropWhile, findIdx?_of_first hfree hstop, htake, hdrop]
  simp [hkind, htarget]

theorem exists_parts_of_ofBody? {opening : Token} {rest : List Token} {comment : Comment}
    (h : ofBody? (opening :: rest) = some comment) :
    ∃ target stop strings text, opening.isKeyword "ON" ∧ rest.takeWhile inKind ≠ [] ∧
      rest.dropWhile inKind = target ++ stop :: strings ∧ target ≠ [] ∧
      (∀ token ∈ target, ¬token.isKeyword "IS") ∧ stop.isKeyword "IS" ∧
      Token.literal? strings = some text ∧
      comment = ⟨Token.render (rest.takeWhile inKind), Token.render target, text⟩ := by
  rw [ofBody?] at h
  split at h
  next => cases h
  next hopening =>
    simp only at h
    split at h
    next => cases h
    next length hlength =>
      obtain ⟨target, stop, strings, hsplit, rfl, hfree, hstop⟩ :=
        findIdx?_eq_some_iff_split.mp hlength
      obtain ⟨htake, hdrop⟩ := take_drop_of_first target strings stop
      rw [hsplit, htake, hdrop] at h
      split at h
      next => cases h
      next hnonempty =>
        simp only [Bool.or_eq_true, List.isEmpty_iff, not_or] at hnonempty
        obtain ⟨text, hliteral, rfl⟩ := Option.map_eq_some_iff.mp h
        exact ⟨target, stop, strings, text, by simpa using hopening, hnonempty.1, hsplit,
          hnonempty.2, fun token hm => by simp [hfree token hm], hstop, hliteral, rfl⟩

theorem ofBody?_eq_some_iff {body : List Token} {comment : Comment} :
    ofBody? body = some comment ↔ CommentBody body comment := by
  constructor
  · intro h
    cases body with
    | nil => cases h
    | cons opening rest =>
      obtain ⟨target, stop, strings, text, hopening, hkind, hsplit, htarget, hfree, hstop,
        hliteral, rfl⟩ := exists_parts_of_ofBody? h
      obtain ⟨hne, htouching, rfl⟩ := Token.literal?_eq_some_iff.mp hliteral
      have hrest := List.takeWhile_append_dropWhile (p := inKind) (l := rest)
      have hwords : ∀ token ∈ rest.takeWhile inKind,
          token.kind = .keyword ∧ ¬token.isKeyword "IS" := fun token hm =>
        inKind_iff.mp (List.mem_takeWhile_imp hm)
      have hhead := ne_keyword_of_dropWhile hsplit hfree
      have hparts := CommentBody.mk hopening hkind hwords htarget hhead hfree hstop hne htouching
      rwa [← hsplit, hrest] at hparts
  · rintro ⟨hopening, hkind, hwords, htarget, hhead, hfree, hstop, hne, htouching⟩
    rw [ofBody?_of_parts hopening hkind hwords htarget hhead hfree hstop]
    exact Option.map_eq_some_iff.mpr
      ⟨_, Token.literal?_eq_some_iff.mpr ⟨hne, htouching, rfl⟩, rfl⟩

theorem ofBody?_eq_none_iff {body : List Token} :
    ofBody? body = none ↔ ∀ comment, ¬CommentBody body comment := by
  simp only [Option.eq_none_iff_forall_ne_some, ne_eq, ofBody?_eq_some_iff]

end Comment

namespace Schema

/-- With a statement between a front and a back, tokens are accepted where they are accepted without
it, and describe the same but for grants and comments that the statement adds between those of the
front and those of the back. -/
def AddsBetween (tokens front back : List Token) (origin : Origin) (grants : List Grant)
    (comments : List Comment) : Prop :=
  ∀ schema, ofTokens tokens origin = .ok schema ↔
    ∃ first second, ofSignificant front origin = .ok first ∧
      ofSignificant back origin = .ok second ∧
      ofSignificant (front ++ back) origin = .ok (first.followedBy second) ∧
      schema = { first.followedBy second with
        grants := first.grants ++ (grants ++ second.grants)
        comments := first.comments ++ (comments ++ second.comments) }

variable {tokens front piece back : List Token} {origin : Origin} {statement : Statement}
  {grants : List Grant} {comments : List Comment}

/-- A statement that touches the grants and comments alone adds to them where it stands. -/
theorem addsBetween_of_sentence (ht : tokens.filter (!·.isTrivia) = front ++ (piece ++ back))
    (hf : ∃ first, ofSignificant front origin = .ok first) (hp : Sentence piece statement)
    (hadds : ∀ schema, statement.addTo schema = { schema with
      grants := schema.grants ++ grants, comments := schema.comments ++ comments }) :
    AddsBetween tokens front back origin grants comments := by
  obtain ⟨first, hfirst⟩ := hf
  obtain ⟨earlier, hearlier, hdescribed⟩ := ofSignificant_eq_ok_iff.mp hfirst
  have hopened : Script (front ++ piece) (earlier ++ [statement]) :=
    hearlier.append (by simpa using Many.cons hp .nil)
  have hschema : ∀ later, ofStatements origin (earlier ++ statement :: later) =
      { first.followedBy (ofStatements origin later) with
        grants := first.grants ++ (grants ++ (ofStatements origin later).grants)
        comments := first.comments ++ (comments ++ (ofStatements origin later).comments) } := by
    intro later
    have hone : ofStatements origin (earlier ++ [statement]) = statement.addTo first := by
      rw [← hdescribed, ofStatements, List.foldl_append]
      rfl
    rw [List.append_cons, ofStatements_append, hone, hadds]
    simp [followedBy, List.append_assoc]
  intro schema
  rw [ofTokens, ht, ← List.append_assoc, ofSignificant_eq_ok_iff]
  constructor
  · rintro ⟨statements, hscript, rfl⟩
    -- Up to the statement the tokens are read alike whatever follows, so the back is a script.
    obtain ⟨later, hlater, rfl⟩ := hscript.of_append hopened
    have hsecond : ofSignificant back origin = .ok (ofStatements origin later) :=
      ofSignificant_eq_ok_iff.mpr ⟨later, hlater, rfl⟩
    have hwithout := ofSignificant_eq_ok_iff.mpr
      ⟨earlier ++ later, hearlier.append hlater, ofStatements_append origin earlier later⟩
    rw [hdescribed] at hwithout
    refine ⟨first, ofStatements origin later, hfirst, hsecond, hwithout, ?_⟩
    rw [List.append_assoc, List.singleton_append, hschema]
  · rintro ⟨first', second, hfirst', hsecond, -, rfl⟩
    obtain rfl := Except.ok.inj (hfirst.symm.trans hfirst')
    obtain ⟨later, hlater, rfl⟩ := ofSignificant_eq_ok_iff.mp hsecond
    refine ⟨earlier ++ [statement] ++ later, hopened.append hlater, ?_⟩
    rw [List.append_assoc, List.singleton_append, hschema]

/-- A statement that opens with `GRANT` adds one grant where its body has a `TO`, and one that opens
with `COMMENT` adds one comment where its body is one. Otherwise they are passed over without an
effect. Nothing else in the catalogue is changed. -/
theorem addsBetween_grant_or_comment {body : List Token} {word stop : Token}
    (ht : tokens.filter (!·.isTrivia) = front ++ (word :: (body ++ [stop]) ++ back))
    (hf : ∃ first, ofSignificant front origin = .ok first) (hlength : body.length ≤ 255)
    (hopen : ∀ token ∈ body, ¬token.isSymbol ";") (hstop : stop.isSymbol ";") :
    (word.isKeyword "GRANT" →
      ((∃ grant, GrantBody body grant) ↔ ∃ token ∈ body, token.isKeyword "TO") ∧
      (∀ grant, GrantBody body grant → AddsBetween tokens front back origin [grant] []) ∧
      ((¬∃ token ∈ body, token.isKeyword "TO") → AddsBetween tokens front back origin [] [])) ∧
    (word.isKeyword "COMMENT" →
      (∀ comment, CommentBody body comment → AddsBetween tokens front back origin [] [comment]) ∧
      ((¬∃ comment, CommentBody body comment) → AddsBetween tokens front back origin [] [])) := by
  have hbody : Body (body ++ [stop]) body := .mk hlength hopen hstop
  refine ⟨fun hword => ?_, fun hword => ?_⟩
  · have hadds : AddsBetween tokens front back origin (Grant.ofBody? body).toList [] :=
      addsBetween_of_sentence ht hf (.grant hword hbody) fun schema => by simp [Statement.addTo]
    refine ⟨Grant.exists_grantBody_iff, fun grant hgrant => ?_, fun hto => ?_⟩
    · rwa [Grant.ofBody?_eq_some_iff.mpr hgrant] at hadds
    · have hno : ∀ grant, ¬GrantBody body grant := fun grant hgrant =>
        hto (Grant.exists_grantBody_iff.mp ⟨grant, hgrant⟩)
      rwa [Grant.ofBody?_eq_none_iff.mpr hno] at hadds
  · have hadds : AddsBetween tokens front back origin [] (Comment.ofBody? body).toList :=
      addsBetween_of_sentence ht hf (.comment hword hbody) fun schema => by simp [Statement.addTo]
    refine ⟨fun comment hcomment => ?_, fun hnot => ?_⟩
    · rwa [Comment.ofBody?_eq_some_iff.mpr hcomment] at hadds
    · rwa [Comment.ofBody?_eq_none_iff.mpr fun comment hcomment => hnot ⟨comment, hcomment⟩]
        at hadds

/-- Of two `TO` the first one counts, and of the `ON` only one that stands before it. -/
theorem addsBetween_grant_of_two_receivers :
    let front : List Token := [⟨"@a", .directive, 0, 2, 1, 1⟩]
    let word : Token := ⟨"grant", .keyword, 3, 8, 2, 2⟩
    let body : List Token := [⟨"SELECT", .keyword, 9, 15, 2, 2⟩, ⟨"TO", .keyword, 16, 18, 2, 2⟩,
      ⟨"A", .string, 19, 22, 2, 2⟩, ⟨"ON", .keyword, 23, 25, 2, 2⟩, ⟨"TO", .keyword, 26, 28, 2, 2⟩]
    let stop : Token := ⟨";", .symbol, 28, 29, 2, 2⟩
    let tokens := front ++ (word :: (body ++ [stop]) ++ [])
    tokens.filter (!·.isTrivia) = front ++ (word :: (body ++ [stop]) ++ []) ∧
      (∃ first, ofSignificant front .oracle = .ok first) ∧ body.length ≤ 255 ∧
      (∀ token ∈ body, ¬token.isSymbol ";") ∧ stop.isSymbol ";" ∧ word.isKeyword "GRANT" ∧
      AddsBetween tokens front [] .oracle [⟨"SELECT", "", "A ON TO"⟩] [] := by
  intro front word body stop tokens
  have ht : tokens.filter (!·.isTrivia) = front ++ (word :: (body ++ [stop]) ++ []) := by decide
  have hf : ∃ first, ofSignificant front .oracle = .ok first :=
    ⟨⟨.oracle, .empty, [], [], ["a"]⟩, by cbv⟩
  have hlength : body.length ≤ 255 := by decide
  have hopen : ∀ token ∈ body, ¬token.isSymbol ";" := by decide
  have hgrant : GrantBody body ⟨"SELECT", "", "A ON TO"⟩ :=
    Grant.ofBody?_eq_some_iff.mp (by decide)
  obtain ⟨hgrants, -⟩ := addsBetween_grant_or_comment ht hf hlength hopen (by decide)
  exact ⟨ht, hf, hlength, hopen, by decide, by decide, (hgrants (by decide)).2.1 _ hgrant⟩

end Schema

end DdlCatalog
