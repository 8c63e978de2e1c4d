import Mathlib.Algebra.Group.Nat.Defs
import Mathlib.Data.List.Basic
import ArrayExpr.Text.Quoted

/-!
# Quoted texts can be read back

A quoted text tells which text it quotes (`quoted_injective`), and all its characters can be shown
(`isPrintable_of_mem_quotedChars`). Between the marks every character is written as itself, or behind a backslash as a
letter and some digits; the letter tells how many there are (`escapeWidth`) and, if there are none, which character is
meant (`escapeMeaning`). So no written character goes on into the next one (`Written.append_inj`).
-/

namespace ArrayExpr.Text

/-! ## Hexadecimal digits -/

theorem length_hexDigits (width n : Nat) : (hexDigits width n).length = width := by
  induction width generalizing n with
  | zero => rfl
  | succ width ih => rw [hexDigits, List.length_append, ih, List.length_singleton]

theorem digitChar_inj {m n : Nat} (hm : m < 16) (hn : n < 16) (h : m.digitChar = n.digitChar) : m = n := by
  have hall : ∀ m < 16, ∀ n < 16, Nat.digitChar m = Nat.digitChar n → m = n := by decide
  exact hall m hm n hn h

/-- Numbers that have no more digits than are written are told apart. -/
theorem hexDigits_inj {width m n : Nat} (hm : m < 16 ^ width) (hn : n < 16 ^ width)
    (h : hexDigits width m = hexDigits width n) : m = n := by
  induction width generalizing m n with
  | zero => omega
  | succ width ih =>
    obtain ⟨hfront, hlast⟩ := List.append_inj' h rfl
    have hhigh : m / 16 = n / 16 := ih (by omega) (by omega) hfront
    have hlow : m % 16 = n % 16 :=
      digitChar_inj (Nat.mod_lt _ (by decide)) (Nat.mod_lt _ (by decide)) (List.cons.inj hlast).1
    omega

/-- Hexadecimal digits can be shown. -/
theorem isPrintable_of_mem_hexDigits {d : Char} {width n : Nat} (h : d ∈ hexDigits width n) :
    isPrintable d = true := by
  have hdigit : ∀ k < 16, isPrintable (Nat.digitChar k) = true := by decide +kernel
  induction width generalizing n with
  | zero => exact absurd h List.not_mem_nil
  | succ width ih =>
    rw [hexDigits, List.mem_append, List.mem_singleton] at h
    rcases h with h | rfl
    · exact ih h
    · exact hdigit _ (Nat.mod_lt _ (by decide))

/-! ## Written characters -/

/-- The number of digits behind the letter of an escape. -/
def escapeWidth : Char → Nat
  | 'x' => 2
  | 'u' => 4
  | 'U' => 8
  | _ => 0

/-- The character that an escape without digits means. -/
def escapeMeaning : Char → Char
  | 'n' => '\n'
  | 'r' => '\r'
  | 't' => '\t'
  | c => c

/-- Behind a backslash and this letter the character can be meant: by the letter alone, or by as many digits as follow
it. -/
def Escapes (letter c : Char) : Prop :=
  if escapeWidth letter = 0 then escapeMeaning letter = c else c.toNat < 16 ^ escapeWidth letter

/-- The letter of an escape and its digits tell the character. -/
theorem Escapes.eq {letter c d : Char} (hc : Escapes letter c) (hd : Escapes letter d)
    (h : hexDigits (escapeWidth letter) c.toNat = hexDigits (escapeWidth letter) d.toNat) : c = d := by
  unfold Escapes at hc hd
  by_cases hwidth : escapeWidth letter = 0
  · rw [if_pos hwidth] at hc hd
    exact hc.symm.trans hd
  · rw [if_neg hwidth] at hc hd
    exact Char.toNat_inj.mp (hexDigits_inj hc hd h)

/-- How a character is written: as itself, or as an escape. -/
inductive Written (c : Char) : List Char → Prop
  | plain : c ≠ '\\' → c ≠ '\n' → Written c [c]
  | escape {letter : Char} : letter ≠ '\n' → Escapes letter c →
      Written c ('\\' :: letter :: hexDigits (escapeWidth letter) c.toNat)

theorem quoteMark_cases (text : List Char) : quoteMark text = '\'' ∨ quoteMark text = '"' := by
  unfold quoteMark
  split
  · exact Or.inr rfl
  · exact Or.inl rfl

theorem toNat_lt_hex (c : Char) : c.toNat < 16 ^ 8 := by
  have hvalid := c.valid
  simp only [UInt32.isValidChar, Nat.isValidChar] at hvalid
  simp only [Char.toNat]
  omega

/-- Every character is written in one of these ways. -/
theorem written_escaped {mark : Char} (hmark : mark = '\'' ∨ mark = '"') (c : Char) : Written c (escaped mark c) := by
  unfold escaped
  split_ifs with hself hfeed hreturn htab hprintable hbyte hplane
  · rw [Bool.or_eq_true, beq_iff_eq, beq_iff_eq] at hself
    rcases hself with rfl | rfl
    · rcases hmark with rfl | rfl <;> exact .escape (by decide) rfl
    · exact .escape (by decide) rfl
  · exact .escape (by decide) (beq_iff_eq.mp hfeed).symm
  · exact .escape (by decide) (beq_iff_eq.mp hreturn).symm
  · exact .escape (by decide) (beq_iff_eq.mp htab).symm
  · exact .plain (fun hc => hself (by simp [hc])) fun hc => hfeed (beq_iff_eq.mpr hc)
  · exact .escape (by decide) hbyte
  · exact .escape (by decide) hplane
  · exact .escape (by decide) (toNat_lt_hex c)

theorem Written.ne_nil {c : Char} {cs : List Char} (h : Written c cs) : cs ≠ [] := by
  cases h <;> exact List.cons_ne_nil _ _

/-- No written character goes on into the next one. -/
theorem Written.append_inj {c d : Char} {cs ds rest rest' : List Char} (hc : Written c cs) (hd : Written d ds)
    (h : cs ++ rest = ds ++ rest') : c = d ∧ rest = rest' := by
  cases hc with
  | plain hc _ =>
    cases hd with
    | plain => exact List.cons.inj h
    | escape => exact absurd (List.cons.inj h).1 hc
  | escape _ hc =>
    cases hd with
    | plain hd _ => exact absurd (List.cons.inj h).1.symm hd
    | escape _ hd =>
      obtain ⟨rfl, hdigits⟩ := List.cons.inj (List.cons.inj h).2
      obtain ⟨hsame, hrest⟩ := List.append_inj hdigits (by rw [length_hexDigits, length_hexDigits])
      exact ⟨hc.eq hd hsame, hrest⟩

/-! ## Texts -/

/-- Texts that are written alike between the same marks are equal. -/
theorem flatMap_escaped_inj {mark : Char} (hmark : mark = '\'' ∨ mark = '"') : ∀ {text text' : List Char},
    text.flatMap (escaped mark) = text'.flatMap (escaped mark) → text = text'
  | [], [], _ => rfl
  | [], d :: text', h => absurd (List.append_eq_nil_iff.mp h.symm).1 (written_escaped hmark d).ne_nil
  | c :: text, [], h => absurd (List.append_eq_nil_iff.mp h).1 (written_escaped hmark c).ne_nil
  | c :: text, d :: text', h => by
    obtain ⟨rfl, hrest⟩ := (written_escaped hmark c).append_inj (written_escaped hmark d) h
    rw [flatMap_escaped_inj hmark hrest]

/-- **A quoted text tells which text it quotes.** -/
theorem quoted_injective {text text' : String} (h : quoted text = quoted text') : text = text' := by
  have hchars : quotedChars text.toList = quotedChars text'.toList := String.ofList_injective h
  unfold quotedChars at hchars
  obtain ⟨hmark, hrest⟩ := List.cons.inj hchars
  rw [← hmark] at hrest
  exact String.toList_injective (flatMap_escaped_inj (quoteMark_cases text.toList) (List.append_cancel_right hrest))

theorem forall_mem_escape {letter : Char} (h : isPrintable letter = true) (width n : Nat) :
    ∀ d ∈ '\\' :: letter :: hexDigits width n, isPrintable d = true :=
  List.forall_mem_cons.mpr ⟨by decide +kernel, List.forall_mem_cons.mpr ⟨h, fun _ => isPrintable_of_mem_hexDigits⟩⟩

/-- What is written for a character can be shown. -/
theorem forall_mem_escaped {mark : Char} (hmark : isPrintable mark = true) (c : Char) :
    ∀ d ∈ escaped mark c, isPrintable d = true := by
  unfold escaped
  split_ifs with hself hfeed hreturn htab hprintable hbyte hplane
  -- an escape without digits has none of them
  · refine forall_mem_escape ?_ 0 0
    rw [Bool.or_eq_true, beq_iff_eq, beq_iff_eq] at hself
    rcases hself with rfl | rfl
    · exact hmark
    · decide +kernel
  · exact forall_mem_escape (by decide +kernel) 0 0
  · exact forall_mem_escape (by decide +kernel) 0 0
  · exact forall_mem_escape (by decide +kernel) 0 0
  · exact List.forall_mem_singleton.mpr hprintable
  · exact forall_mem_escape (by decide +kernel) 2 c.toNat
  · exact forall_mem_escape (by decide +kernel) 4 c.toNat
  · exact forall_mem_escape (by decide +kernel) 8 c.toNat

/-- A quoted text can be shown. -/
theorem isPrintable_of_mem_quotedChars {text : List Char} {d : Char} (h : d ∈ quotedChars text) :
    isPrintable d = true := by
  have hmark : isPrintable (quoteMark text) = true := by
    rcases quoteMark_cases text with h | h <;> rw [h] <;> decide +kernel
  simp only [quotedChars, List.mem_cons, List.mem_append, List.mem_flatMap, List.not_mem_nil, or_false] at h
  rcases h with rfl | ⟨c, _, hd⟩ | rfl
  · exact hmark
  · exact forall_mem_escaped hmark c d hd
  · exact hmark

end ArrayExpr.Text
