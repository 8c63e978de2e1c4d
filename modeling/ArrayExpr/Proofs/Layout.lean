import ArrayExpr.Proofs.Parser.Rejection
import ArrayExpr.Proofs.Parser.Relocation
import ArrayExpr.Proofs.Token.Layout

/-!
# Layout does not matter

Separators between two parts of a program may be replaced by others, if there are some before and after: the program has
tokens of the same contents as before, or is refused for the same character. Sequences of the same contents are parsed
to outcomes that agree in all but places (`parse_agree`), so the analysis of the program comes to the same as well
(`layout_irrelevant`).
-/

namespace ArrayExpr

open Text Token

/-- Analyses agree in all but places: in their trees, in the character for which the texts were refused, or in the
name of the problem with the tokens and the token that was found. -/
inductive Agree : Except Failure Tree → Except Failure Tree → Prop
  | tree {t u : Tree} : t.same u = true → Agree (.ok t) (.ok u)
  | lexical {d e : Diagnostic} {char : String} : d.problem = .unexpectedCharacter char →
      e.problem = .unexpectedCharacter char → Agree (.error (.lexical d)) (.error (.lexical e))
  | syntactic {d e : Diagnostic} {got got' : Token} : d.problem.name = e.problem.name →
      d.problem.got? = some got → e.problem.got? = some got' → got.same got' = true →
      Agree (.error (.syntactic d)) (.error (.syntactic e))

theorem exists_got_of_parse_error {tokens : List Token} (hended : Ended tokens) {program : String} {limit : Nat}
    {failure : Failure} (h : parse tokens program limit = .error failure) :
    ∃ d got, failure = .syntactic d ∧ d.problem.got? = some got := by
  obtain ⟨finish, _, hparse⟩ := parse_of_ended hended
  rw [hparse] at h
  obtain ⟨d, hverdict, rfl⟩ := exists_of_mapError_eq_error h
  exact ⟨d, _, rfl, Run.got?_of_verdict_eq_error hverdict⟩

/-- Results that become equal where errors and values are changed are both errors or both values. -/
theorem cases_of_mapError_map_eq {f f' : ε → ε'} {g g' : α → β} {x y : Except ε α}
    (h : (x.mapError f).map g = (y.mapError f').map g') :
    (∃ a b, x = .ok a ∧ y = .ok b ∧ g a = g' b) ∨ ∃ e e', x = .error e ∧ y = .error e' ∧ f e = f' e' := by
  cases x with
  | ok a =>
    cases y with
    | ok b => exact Or.inl ⟨a, b, rfl, rfl, Except.ok.inj h⟩
    | error e => cases h
  | error e =>
    cases y with
    | ok b => cases h
    | error e' => exact Or.inr ⟨e, e', rfl, rfl, Except.error.inj h⟩

/-- Problems that are equal without places have the same name, and the tokens that they name are the same. -/
theorem Problem.same_of_mapToken_unplaced {p q : Problem} (h : p.mapToken unplaced = q.mapToken unplaced)
    {got got' : Token} (hgot : p.got? = some got) (hgot' : q.got? = some got') :
    p.name = q.name ∧ got.same got' = true := by
  have hname := congrArg Problem.name h
  have hsame := congrArg Problem.got? h
  rw [name_mapToken, name_mapToken] at hname
  rw [got?_mapToken, got?_mapToken, hgot, hgot', Option.map_some, Option.map_some, Option.some.injEq,
    unplaced_eq_iff] at hsame
  exact ⟨hname, beq_iff_eq.mpr hsame⟩

/-- Sequences of the same contents are parsed alike, places apart. -/
theorem parse_agree {ts us : List Token} (hcontent : ts.map content = us.map content) (hts : Ended ts) (hus : Ended us)
    (program program' : String) (limit : Nat) : Agree (parse ts program limit) (parse us program' limit) := by
  -- without places both sequences are the same, and so is what parsing them gives
  have hmap : ts.map Relocation.unplaced.token = us.map Relocation.unplaced.token :=
    (map_unplaced_eq_iff ts us).mpr hcontent
  have hparse := (Relocation.unplaced.parse_map "" ts program limit).symm.trans
    ((congrArg (parse · "" limit) hmap).trans (Relocation.unplaced.parse_map "" us program' limit))
  rcases cases_of_mapError_map_eq hparse with ⟨t, u, ht, hu, htree⟩ | ⟨failure, failure', ht, hu, hfailure⟩
  · rw [ht, hu]
    exact .tree ((Tree.same_iff t u).mpr htree)
  · obtain ⟨d, got, rfl, hgot⟩ := exists_got_of_parse_error hts ht
    obtain ⟨e, got', rfl, hgot'⟩ := exists_got_of_parse_error hus hu
    have hproblem := congrArg Diagnostic.problem (Failure.syntactic.inj hfailure)
    obtain ⟨hname, hsame⟩ := Problem.same_of_mapToken_unplaced hproblem hgot hgot'
    rw [ht, hu]
    exact .syntactic hname hgot hgot' hsame

/-- **Layout does not matter.** If two programs differ in the separators between two parts only, of which there are some
in both, then they have tokens of the same contents, or are refused for the same character, and their analyses agree in
all but places. -/
theorem layout_irrelevant (limit : Nat) {a b w w' : String} (hne : w ≠ "") (hne' : w' ≠ "")
    (hw : ∀ c ∈ w.toList, isSeparator c = true) (hw' : ∀ c ∈ w'.toList, isSeparator c = true) :
    ((∃ ts us, tokenize (a ++ w ++ b) = .ok ts ∧ tokenize (a ++ w' ++ b) = .ok us ∧
        ts.map content = us.map content) ∨
      ∃ d e char, tokenize (a ++ w ++ b) = .error (.lexical d) ∧ tokenize (a ++ w' ++ b) = .error (.lexical e) ∧
        d.problem = .unexpectedCharacter char ∧ e.problem = .unexpectedCharacter char) ∧
    Agree (analyze (a ++ w ++ b) limit) (analyze (a ++ w' ++ b) limit) := by
  have halike : Lexer.Alike (a ++ w ++ b).toList (a ++ w' ++ b).toList := by
    have hlayout := Lexer.Alike.layout hw hw' (mt String.toList_eq_nil_iff.mp hne)
      (mt String.toList_eq_nil_iff.mp hne') a.toList b.toList
    simpa only [String.toList_append, List.append_assoc] using hlayout
  have htokens := tokenize_of_alike halike
  refine ⟨htokens, ?_⟩
  rcases htokens with ⟨ts, us, hts, hus, hcontent⟩ | ⟨d, e, char, hd, he, hchar, hchar'⟩
  · rw [analyze_of_tokenize hts, analyze_of_tokenize hus]
    exact parse_agree hcontent (tiling_body hts).1 (tiling_body hus).1 (a ++ w ++ b) (a ++ w' ++ b) limit
  · rw [analyze_eq_lexical_iff.mpr hd, analyze_eq_lexical_iff.mpr he]
    exact .lexical hchar hchar'

/-- A carriage return before the separators may form one break with a line feed, and is one by itself before a file
separator. -/
theorem agree_of_return_feed : Agree (analyze ("a +\r" ++ "\n" ++ "\nb")) (analyze ("a +\r" ++ "\x1c " ++ "\nb")) :=
  (layout_irrelevant nestingLimit (by decide) (by decide) (List.all_eq_true.mp (by decide)) (List.all_eq_true.mp (by decide))).2

end ArrayExpr
