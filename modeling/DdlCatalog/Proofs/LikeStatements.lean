import DdlCatalog.Proofs.LikeGrammar
import Mathlib.Data.List.TakeWhile

namespace DdlCatalog

variable {Named Valued Rendered : String → String → Prop}
  {Alike : List Token → List Token → Prop} {as bs : List Token}

theorem Token.render_like (like : Likeness Named Valued Alike) (h : Alike as bs)
    (ht : ∀ a ∈ as, ∀ b, a.Like Named b → a.text = b.text) : render as = render bs := by
  induction as generalizing bs with
  | nil => rw [List.length_eq_zero_iff.mp (like.length h).symm]
  | cons a as ih =>
    obtain ⟨⟨⟩, _⟩ | ⟨_, _, b, bs, ⟨⟩, rfl, hab⟩ := like.split h
    have htext := ht a List.mem_cons_self b hab
    have hrest := ih (like.tail h) fun token hm => ht token (List.mem_cons_of_mem a hm)
    obtain ⟨rfl, rfl⟩ | ⟨c, as, d, bs, rfl, rfl, hcd⟩ := like.split (like.tail h)
    · exact htext
    · rw [render, render, htext, hrest, gap, gap, hab.isSymbol_eq, hcd.isSymbol_eq, hcd.isSymbol_eq]

structure Grant.Like (Rendered : String → String → Prop) (a b : Grant) : Prop where
  privilege : Rendered a.privilege b.privilege
  object : Rendered a.object b.object
  grantee : Rendered a.grantee b.grantee

theorem Grant.ofBody?_like (like : Likeness Named Valued Alike)
    (hr : ∀ ⦃as bs⦄, Alike as bs → Rendered (Token.render as) (Token.render bs))
    (h : Alike as bs) : Option.Rel (Like Rendered) (ofBody? as) (ofBody? bs) := by
  have hto := TokenReader.findIdx?_eq like (fun _ _ hab => hab.isKeyword_eq "TO") h
  unfold ofBody?
  rw [hto]
  cases bs.findIdx? (·.isKeyword "TO") with
  | none => exact .none
  | some n =>
    have hhead := like.take n h
    have hon := TokenReader.findIdx?_eq like (fun _ _ hab => hab.isKeyword_eq "ON") hhead
    have hwith : TokenReader.Blind Named fun token => !token.isKeyword "WITH" :=
      fun _ _ hab => congrArg _ (hab.isKeyword_eq "WITH")
    have hgrantees := (TokenReader.alike_takeWhile_dropWhile like hwith (like.drop h (n + 1))).1
    dsimp only [Option.bind_eq_bind, Option.bind_some, Option.pure_def]
    rw [hon]
    cases (bs.take n).findIdx? (·.isKeyword "ON") with
    | none => exact .some ⟨hr hhead, hr (like.take 0 h), hr hgrantees⟩
    | some m =>
      exact .some ⟨hr (like.take m hhead), hr (like.drop hhead (m + 1)), hr hgrantees⟩

structure Comment.Like (Rendered Valued : String → String → Prop) (a b : Comment) : Prop where
  kind : a.kind = b.kind
  target : Rendered a.target b.target
  text : Valued a.text b.text

theorem Comment.ofBody?_like (like : Likeness Named Valued Alike)
    (hr : ∀ ⦃as bs⦄, Alike as bs → Rendered (Token.render as) (Token.render bs))
    (h : Alike as bs) : Option.Rel (Like Rendered Valued) (ofBody? as) (ofBody? bs) := by
  obtain ⟨rfl, rfl⟩ | ⟨a, as, b, bs, rfl, rfl, hhead⟩ := like.split h
  · exact .none
  have hblind : TokenReader.Blind Named inKind := by
    intro a b hab
    rw [inKind, inKind, hab.kind, hab.isKeyword_eq]
  obtain ⟨hkinds, hothers⟩ :=
    TokenReader.alike_takeWhile_dropWhile like hblind (like.tail h)
  have hrender : Token.render (as.takeWhile inKind) = Token.render (bs.takeWhile inKind) := by
    refine Token.render_like like hkinds fun token ht other hlike => hlike.text fun hs => ?_
    have hin := List.mem_takeWhile_imp ht
    simp [inKind, hs] at hin
  have hsize : ∀ {as bs : List Token}, Alike as bs → as.isEmpty = bs.isEmpty := by
    intro as bs hab
    rw [Bool.eq_iff_iff, List.isEmpty_iff_length_eq_zero, List.isEmpty_iff_length_eq_zero,
      like.length hab]
  have his := TokenReader.findIdx?_eq like (fun _ _ hab => hab.isKeyword_eq "IS") hothers
  simp only [ofBody?, hhead.isKeyword_eq, hsize hkinds, hrender, his]
  split
  · exact .none
  cases (bs.dropWhile inKind).findIdx? (·.isKeyword "IS") with
  | none => exact .none
  | some n =>
    have htarget := like.take n hothers
    dsimp only
    rw [hsize htarget]
    split
    · exact .none
    have hliteral := like.literal (like.drop hothers (n + 1))
    generalize Token.literal? ((as.dropWhile inKind).drop (n + 1)) = text at hliteral ⊢
    generalize Token.literal? ((bs.dropWhile inKind).drop (n + 1)) = text' at hliteral ⊢
    cases hliteral with
    | none => exact .none
    | some hvalue => exact .some ⟨rfl, hr htarget, hvalue⟩

theorem eq_of_rel {α : Type} {Same : α → α → Prop} (hs : ∀ ⦃a b⦄, Same a b → a = b)
    {found found' : Option α} (h : Option.Rel Same found found') : found = found' := by
  cases h with
  | none => rfl
  | some h => rw [hs h]

theorem Column.Like.eq {a b : Column} (h : a.Like Eq Eq b) : a = b := by
  have hvalue := eq_of_rel (fun _ _ => id) h.defaultValue
  obtain ⟨name, type, value, position, nullable, primaryKey⟩ := a
  obtain ⟨rfl, rfl, -, rfl, rfl, rfl⟩ := h
  obtain rfl : value = b.defaultValue := hvalue
  rfl

theorem Token.Like.text_eq {a b : Token} (h : a.Like Eq b) : a.text = b.text :=
  h.valued_text (fun _ _ => id) fun _ => rfl

theorem Statement.Like.addTo_eq (like : Likeness Eq Eq Alike) {statement statement' : Statement}
    (h : Statement.Like Eq Eq Alike statement statement') (schema : Schema) :
    statement.addTo schema = statement'.addTo schema := by
  have hrender : ∀ ⦃as bs⦄, Alike as bs → Token.render as = Token.render bs :=
    fun _ _ hab => Token.render_like like hab fun _ _ _ => Token.Like.text_eq
  cases h with
  | directive content => rfl
  | grant hbody =>
    have hgrant := eq_of_rel (fun a b hab => ?_) (Grant.ofBody?_like like hrender hbody)
    · rw [addTo, addTo, hgrant]
    · obtain ⟨privilege, object, grantee⟩ := a
      obtain ⟨rfl, rfl, rfl⟩ := hab
      rfl
  | comment hbody =>
    have hcomment := eq_of_rel (fun a b hab => ?_) (Comment.ofBody?_like like hrender hbody)
    · rw [addTo, addTo, hcomment]
    · obtain ⟨kind, target, text⟩ := a
      obtain ⟨rfl, rfl, rfl⟩ := hab
      rfl
  | table hname hcolumns =>
    obtain rfl := hname
    obtain rfl := List.forall₂_eq_eq_eq ▸ hcolumns.imp fun _ _ => Column.Like.eq
    rfl

theorem Schema.foldl_addTo_like (like : Likeness Eq Eq Alike)
    {statements statements' : List Statement}
    (h : List.Forall₂ (Statement.Like Eq Eq Alike) statements statements') (schema : Schema) :
    statements.foldl Statement.addTo schema = statements'.foldl Statement.addTo schema := by
  induction h generalizing schema with
  | nil => rfl
  | cons hab _ ih => rw [List.foldl_cons, List.foldl_cons, hab.addTo_eq like, ih]

end DdlCatalog
