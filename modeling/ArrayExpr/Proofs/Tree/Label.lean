import ArrayExpr.Proofs.Text.Quoted
import ArrayExpr.Proofs.Tree.Preorder

/-!
# Labels

The label of a part tells its sort, and besides that the token of a name and the text of an operator or bracket. A label
with an opening parenthesis behind letters is that of a name, one that begins with a quotation mark is that of an
operator or bracket, and a rule has letters only. Two trees look alike if their parts have the same labels
(`Tree.LooksLike`, `Tree.looksLike_iff`). A label can be shown (`Tree.isPrintable_of_mem_label`), so it is one line.
-/

namespace ArrayExpr

open Text

/-! ## Names and quoted texts -/

theorem Kind.name_injective {k k' : Kind} (h : k.name = k'.name) : k = k' := by
  cases k <;> cases k' <;> first | rfl | exact absurd h (by decide)

theorem Kind.spelling_injective {k k' : Kind} (h : k.spelling = k'.spelling) : k = k' := by
  cases k <;> cases k' <;> first | rfl | exact absurd h (by decide)

theorem Nonterminal.name_injective {rule rule' : Nonterminal} (h : rule.name = rule'.name) : rule = rule' := by
  cases rule <;> cases rule' <;> first | rfl | exact absurd h (by decide)

theorem Text.notMem_of_isAlpha {word : String} (h : word.toList.all Char.isAlpha = true) {c : Char}
    (hc : c.isAlpha = false) : c ∉ word.toList := by
  intro hmem
  rw [List.all_eq_true.mp h c hmem] at hc
  cases hc

theorem Kind.notMem_name (k : Kind) {c : Char} (hc : c.isAlpha = false) : c ∉ k.name.toList :=
  notMem_of_isAlpha (by cases k <;> rfl) hc

theorem Kind.name_ne_nil (k : Kind) : k.name.toList ≠ [] := by
  cases k <;> decide

theorem Nonterminal.notMem_name (rule : Nonterminal) {c : Char} (hc : c.isAlpha = false) : c ∉ rule.name.toList :=
  notMem_of_isAlpha (by cases rule <;> rfl) hc

theorem Text.exists_quoted_cons (text : String) :
    ∃ mark rest, mark.isAlpha = false ∧ (quoted text).toList = mark :: rest := by
  refine ⟨quoteMark text.toList, _, ?_, String.toList_ofList⟩
  rcases quoteMark_cases text.toList with h | h <;> rw [h] <;> rfl

theorem Kind.isPrintable_of_mem_name (k : Kind) : ∀ c ∈ k.name.toList, isPrintable c = true :=
  -- computed along the name: to decide the quantifier itself may run through all characters
  List.all_eq_true.mp (by cases k <;> decide +kernel)

theorem Nonterminal.isPrintable_of_mem_name (rule : Nonterminal) : ∀ c ∈ rule.name.toList, isPrintable c = true :=
  List.all_eq_true.mp (by cases rule <;> decide +kernel)

theorem Text.isPrintable_of_mem_quoted (text : String) {c : Char} (h : c ∈ (quoted text).toList) :
    isPrintable c = true := by
  rw [quoted, String.toList_ofList] at h
  exact isPrintable_of_mem_quotedChars h

/-! ## Listings of tokens -/

/-- What stands before the first of some character is told from what stands behind it. -/
theorem append_cons_inj_of_notMem_fronts {c : Char} {front front' rest rest' : List Char} (hfront : c ∉ front)
    (hfront' : c ∉ front') (h : front ++ c :: rest = front' ++ c :: rest') : front = front' ∧ rest = rest' := by
  rcases List.append_eq_append_iff.mp h with ⟨more, rfl, hmore⟩ | ⟨more, rfl, hmore⟩
  · cases more with
    | nil => exact ⟨(List.append_nil front).symm, (List.cons.inj hmore).2⟩
    | cons d more =>
      rw [← (List.cons.inj hmore).1] at hfront'
      exact absurd (List.mem_append_right _ List.mem_cons_self) hfront'
  · cases more with
    | nil => exact ⟨List.append_nil front', (List.cons.inj hmore).2.symm⟩
    | cons d more =>
      rw [← (List.cons.inj hmore).1] at hfront
      exact absurd (List.mem_append_right _ List.mem_cons_self) hfront

namespace Token

theorem toList_listing (t : Token) :
    t.listing.toList = t.kind.name.toList ++ '(' :: ((quoted t.text).toList ++ [')']) := by
  simp [listing]

/-- The listing of a token tells its text and its kind. -/
theorem listing_eq_iff {t u : Token} : t.listing = u.listing ↔ t.content = u.content := by
  constructor
  · intro h
    have hchars := congrArg String.toList h
    rw [toList_listing, toList_listing] at hchars
    obtain ⟨hname, hrest⟩ := append_cons_inj_of_notMem_fronts (t.kind.notMem_name rfl)
      (u.kind.notMem_name rfl) hchars
    have htext := quoted_injective (String.toList_injective (List.append_cancel_right hrest))
    exact Prod.ext htext (Kind.name_injective (String.toList_injective hname))
  · intro h
    obtain ⟨htext, hkind⟩ := Prod.mk.inj h
    rw [listing, listing, htext, hkind]

theorem listing_ne_name (t : Token) (rule : Nonterminal) : t.listing ≠ rule.name := by
  intro h
  have hparenthesis : '(' ∈ rule.name.toList := by
    rw [← h, toList_listing]
    exact List.mem_append_right _ List.mem_cons_self
  exact rule.notMem_name rfl hparenthesis

/-- A listing is not a quoted text. -/
theorem listing_ne_quoted (t : Token) (text : String) : t.listing ≠ quoted text := by
  intro h
  obtain ⟨mark, rest, hmark, hquoted⟩ := exists_quoted_cons text
  rw [← h, toList_listing] at hquoted
  have hnot : mark ∉ t.kind.name.toList := t.kind.notMem_name hmark
  cases hname : t.kind.name.toList with
  | nil => exact t.kind.name_ne_nil hname
  | cons c cs =>
    rw [hname] at hquoted hnot
    exact hnot ((List.cons.inj hquoted).1 ▸ List.mem_cons_self)

end Token

theorem Nonterminal.name_ne_quoted (rule : Nonterminal) (text : String) : rule.name ≠ quoted text := by
  intro h
  obtain ⟨mark, rest, hmark, hquoted⟩ := exists_quoted_cons text
  refine rule.notMem_name hmark ?_
  rw [h, hquoted]
  exact List.mem_cons_self

/-! ## Labels of parts -/

namespace Tree

/-- The trees look alike: they have the same shape, with nodes of the same rules, names of the same text and kind, and
operators and brackets of the same text. -/
inductive LooksLike : Tree → Tree → Prop
  | node {rule : Nonterminal} {parts parts' : List Tree} {span span' : Option Span} :
      List.Forall₂ LooksLike parts parts' → LooksLike (node rule parts span) (node rule parts' span')
  | identifier {token token' : Token} {span span' : Span} : token.content = token'.content →
      LooksLike (leaf .identifier token span) (leaf .identifier token' span')
  | literal {token token' : Token} {span span' : Span} : token.text = token'.text →
      LooksLike (leaf .literal token span) (leaf .literal token' span')

/-- **Trees look alike exactly if their labels are the same and their children look alike.** -/
theorem looksLike_iff {t u : Tree} :
    t.LooksLike u ↔ t.label = u.label ∧ List.Forall₂ LooksLike t.children u.children := by
  constructor
  · intro h
    cases h with
    | node hparts => exact ⟨rfl, hparts⟩
    | identifier hcontent => exact ⟨Token.listing_eq_iff.mpr hcontent, .nil⟩
    | literal htext => exact ⟨congrArg quoted htext, .nil⟩
  · rintro ⟨hlabel, hchildren⟩
    match t, u with
    | node rule parts span, node rule' parts' span' =>
      cases Nonterminal.name_injective hlabel
      exact .node hchildren
    | leaf .identifier token _, leaf .identifier token' _ => exact .identifier (Token.listing_eq_iff.mp hlabel)
    | leaf .literal token _, leaf .literal token' _ => exact .literal (quoted_injective hlabel)
    | node rule _ _, leaf .identifier token _ => exact absurd hlabel.symm (token.listing_ne_name rule)
    | leaf .identifier token _, node rule _ _ => exact absurd hlabel (token.listing_ne_name rule)
    | node rule _ _, leaf .literal token _ => exact absurd hlabel (rule.name_ne_quoted token.text)
    | leaf .literal token _, node rule _ _ => exact absurd hlabel.symm (rule.name_ne_quoted token.text)
    | leaf .identifier token _, leaf .literal token' _ => exact absurd hlabel (token.listing_ne_quoted token'.text)
    | leaf .literal token _, leaf .identifier token' _ =>
      exact absurd hlabel.symm (token'.listing_ne_quoted token.text)

/-- A label can be shown. -/
theorem isPrintable_of_mem_label {t : Tree} {c : Char} (h : c ∈ t.label.toList) : isPrintable c = true := by
  cases t with
  | node rule children span => exact rule.isPrintable_of_mem_name c h
  | leaf role token span =>
    cases role with
    | identifier =>
      rw [label, Token.toList_listing] at h
      simp only [List.mem_append, List.mem_cons, List.not_mem_nil, or_false] at h
      rcases h with hname | rfl | htext | rfl
      · exact token.kind.isPrintable_of_mem_name c hname
      · decide +kernel
      · exact isPrintable_of_mem_quoted _ htext
      · decide +kernel
    | literal => exact isPrintable_of_mem_quoted _ h

end Tree

end ArrayExpr
