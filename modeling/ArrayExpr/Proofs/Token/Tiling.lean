import ArrayExpr.Proofs.Span
import ArrayExpr.Proofs.Token.Lexeme
import Mathlib.Data.List.Pairwise

/-!
# Tilings of lines by tokens

Tokens are a `Tiling` of lines if each of them stands on a line with a whole lexeme (`Token.StandsOn`), they follow one
another, and what they do not cover is blank. There is at most one tiling of any lines (`Tiling.eq`): where two tilings
begin a token at the same place, they begin the same one, and no token can begin inside another.
-/

namespace ArrayExpr

open Text

/-- The token stands on a line of a given number, and what follows it there could not be part of it. -/
def Token.StandsOn (number : Int) (row : List Char) (t : Token) : Prop :=
  ∃ before after, row = before ++ t.text.toList ++ after ∧ t.kind.EndsBefore after ∧
    t.span = .onLine number before.length (before.length + t.text.toList.length : Nat)

/-- The first token ends where the second one begins or before. -/
def Token.Before (t u : Token) : Prop := t.span.Before u.span

/-- The token covers a column of a line. -/
def Token.Covers (t : Token) (number : Int) (col : Nat) : Prop :=
  t.span.startLine = number ∧ t.span.startCol ≤ col ∧ col < t.span.endCol

/-- **Whole lexemes, one after the other, that cover all but blank characters.** -/
structure Tiling (lines : List (List Char)) (tokens : List Token) : Prop where
  lexeme : ∀ t ∈ tokens, Lexeme t.kind t.text.toList
  place : ∀ t ∈ tokens, ∃ (n : Nat) (row : List Char), lines[n]? = some row ∧ t.StandsOn (n + 1) row
  ordered : tokens.Pairwise Token.Before
  cover : ∀ (n : Nat) (row : List Char), lines[n]? = some row → ∀ (col : Nat) (c : Char), row[col]? = some c →
    isBlank c = true ∨ ∃ t ∈ tokens, t.Covers (n + 1) col

/-! ## Tokens on a line -/

namespace Token

variable {number : Int} {row : List Char} {t u : Token}

/-- A token on a line begins at some column, with a character that begins its kind, and ends behind it. -/
theorem StandsOn.exists_start (h : t.StandsOn number row) (hlexeme : Lexeme t.kind t.text.toList) :
    ∃ (col : Nat) (c : Char), row[col]? = some c ∧ Kind.begunBy? c = some t.kind ∧
      t.span.startLine = number ∧ t.span.endLine = number ∧ t.span.startCol = col ∧ col < t.span.endCol := by
  obtain ⟨before, after, rfl, _, hspan⟩ := h
  obtain ⟨c, cs, htext, hbegun, _⟩ := hlexeme.exists_cons
  have hlen : 0 < t.text.toList.length := List.length_pos_iff.mpr hlexeme.ne_nil
  have hfirst : (before ++ t.text.toList ++ after)[before.length]? = some c := by
    rw [htext, List.append_assoc, List.getElem?_append_right (Nat.le_refl _), Nat.sub_self]
    rfl
  rw [hspan]
  refine ⟨before.length, c, hfirst, hbegun, rfl, rfl, rfl, ?_⟩
  show (before.length : Int) < (before.length + t.text.toList.length : Nat)
  omega

/-- Whole lexemes that begin at the same column of a line are the same token. -/
theorem StandsOn.eq (ht : t.StandsOn number row) (hu : u.StandsOn number row)
    (hlt : Lexeme t.kind t.text.toList) (hlu : Lexeme u.kind u.text.toList)
    (hcol : t.span.startCol = u.span.startCol) : t = u := by
  obtain ⟨before, after, hrow, hends, hspan⟩ := ht
  obtain ⟨before', after', hrow', hends', hspan'⟩ := hu
  have hlen : before.length = before'.length := by
    rw [hspan, hspan'] at hcol
    exact Int.ofNat.inj hcol
  rw [List.append_assoc] at hrow hrow'
  obtain ⟨_, hrest⟩ := List.append_inj (hrow.symm.trans hrow') hlen
  obtain ⟨hkind, htext⟩ := hlt.eq_of_append_eq hends hlu hends' hrest
  rw [← htext, ← hlen, ← hspan] at hspan'
  cases t
  cases u
  cases hkind
  cases String.toList_injective htext
  cases hspan'
  rfl

end Token

/-! ## Uniqueness -/

namespace Tiling

variable {lines : List (List Char)} {ts us : List Token}

theorem span_of_mem (h : Tiling lines ts) {t : Token} (ht : t ∈ ts) :
    t.span.endLine = t.span.startLine ∧ 0 ≤ t.span.startCol ∧ t.span.startCol < t.span.endCol := by
  obtain ⟨_, _, _, hstands⟩ := h.place t ht
  obtain ⟨col, _, _, _, hfirst, hlast, hstart, hend⟩ := hstands.exists_start (h.lexeme t ht)
  refine ⟨hlast.trans hfirst.symm, ?_, ?_⟩ <;> omega

/-- A token of a tiling that covers a column of a line stands on that line. -/
theorem standsOn_of_covers (h : Tiling lines ts) {t : Token} (ht : t ∈ ts) {n col : Nat} {row : List Char}
    (hrow : lines[n]? = some row) (hcovers : t.Covers (n + 1) col) : t.StandsOn (n + 1) row := by
  obtain ⟨m, row', hrow', hstands⟩ := h.place t ht
  obtain ⟨_, _, _, _, hfirst, _⟩ := hstands.exists_start (h.lexeme t ht)
  have hnumber : m = n := by
    have := hcovers.1
    omega
  rw [hnumber, hrow] at hrow'
  cases hrow'
  rwa [hnumber] at hstands

theorem not_before (hts : Tiling lines ts) (hus : Tiling lines us) {t u : Token} (ht : t ∈ ts) (hu : u ∈ us)
    (hbefore : t.Before u) : ¬ u.Before t := by
  intro hbefore'
  obtain ⟨_, _, _⟩ := hts.span_of_mem ht
  obtain ⟨_, _, _⟩ := hus.span_of_mem hu
  rcases hbefore with hlt | ⟨_, hle⟩ <;> rcases hbefore' with hlt' | ⟨_, hle'⟩ <;> omega

theorem before_or_before (h : Tiling lines ts) {t u : Token} (ht : t ∈ ts) (hu : u ∈ ts) (hne : t ≠ u) :
    t.Before u ∨ u.Before t := by
  have hsymm : Std.Symm fun a b : Token => a.Before b ∨ b.Before a := ⟨fun _ _ => Or.symm⟩
  have hpairs : ts.Pairwise fun a b => a.Before b ∨ b.Before a := h.ordered.imp Or.inl
  exact hpairs.forall ht hu hne

/-- No token begins inside another: where a token of a tiling covers the first character of another one, the two
are the same. -/
theorem eq_of_covers (h : Tiling lines ts) {t u : Token} (ht : t ∈ ts) (hu : u ∈ ts) {number : Int} {col : Nat}
    (hline : t.span.startLine = number) (hcol : t.span.startCol = col) (hcovers : u.Covers number col) : t = u := by
  by_contra hne
  obtain ⟨_, _, _⟩ := h.span_of_mem ht
  obtain ⟨_, _, _⟩ := h.span_of_mem hu
  obtain ⟨_, _, _⟩ := hcovers
  rcases h.before_or_before ht hu hne with (hlt | ⟨_, hle⟩) | (hlt | ⟨_, hle⟩)
  all_goals omega

/-- Tilings have the same tokens. By induction on the column at which a token begins: another tiling covers its
first character with a token that begins at the same column or before it. In the first case the two are the same, and
in the second the other token belongs to both tilings, so that the first one would begin inside it. -/
theorem mem_of_mem {col : Nat} (hts : Tiling lines ts) (hus : Tiling lines us) {t : Token} (ht : t ∈ ts)
    (hcol : t.span.startCol = col) : t ∈ us := by
  induction col using Nat.strongRecOn generalizing ts us t with
  | ind col ih =>
    obtain ⟨n, row, hrow, hstands⟩ := hts.place t ht
    obtain ⟨start, c, hc, hbegun, hfirst, _, hstart, _⟩ := hstands.exists_start (hts.lexeme t ht)
    have hsame : start = col := by omega
    rw [hsame] at hc
    rcases hus.cover n row hrow col c hc with hblank | ⟨u, hu, hcovers⟩
    · rw [begunBy?_of_isBlank hblank] at hbegun
      cases hbegun
    · have hstands' := hus.standsOn_of_covers hu hrow hcovers
      obtain ⟨start', _, _, _, hfirst', _, hstart', _⟩ := hstands'.exists_start (hus.lexeme u hu)
      rcases Nat.lt_or_eq_of_le (show start' ≤ col by have := hcovers.2.1; omega) with hlt | heq
      · have hu' : u ∈ ts := ih start' hlt hus hts hu hstart'
        rwa [hts.eq_of_covers ht hu' hfirst hcol hcovers]
      · have htu : t = u := hstands.eq hstands' (hts.lexeme t ht) (hus.lexeme u hu) (by omega)
        rwa [htu]

theorem nodup (h : Tiling lines ts) : ts.Nodup := by
  refine h.ordered.imp_of_mem fun ht _ hbefore => ?_
  rintro rfl
  exact h.not_before h ht ht hbefore hbefore

/-- There is at most one tiling of any lines. -/
theorem eq (hts : Tiling lines ts) (hus : Tiling lines us) : ts = us := by
  have hmem : ∀ {vs ws : List Token}, Tiling lines vs → Tiling lines ws → ∀ t ∈ vs, t ∈ ws := by
    intro vs ws hvs hws t ht
    obtain ⟨_, hstart, _⟩ := hvs.span_of_mem ht
    exact hvs.mem_of_mem hws ht (Int.toNat_of_nonneg hstart).symm
  have hperm : ts.Perm us :=
    (List.perm_ext_iff_of_nodup hts.nodup hus.nodup).mpr fun t => ⟨hmem hts hus t, hmem hus hts t⟩
  refine List.Perm.eq_of_pairwise (fun t u ht hu htu hut => ?_) hts.ordered hus.ordered hperm
  exact absurd hut (hts.not_before hus ht hu htu)

end Tiling

end ArrayExpr
