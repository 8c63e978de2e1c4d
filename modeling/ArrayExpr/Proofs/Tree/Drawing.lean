import ArrayExpr.Proofs.Tree.Label
import ArrayExpr.Tree.Outline

/-!
# Drawings

`drawAll` draws a list of pending branches. Here a drawing is given the shape of the tree. What an indentation shows is
the path down to a part: for each node on it, whether it was a last child. The drawing of a tree at the end of a path is
the line of its label and after it the drawings of its children, one after the other, at the path with one step more
(`drawing_eq`, `drawings_cons`). A line tells its path, whether the branch is a last one, and the label (`lineAt_inj`).
A drawing ends in front of the first line with a path that is no longer than its own, so it can be told from what follows
it (`legible`). Hence trees are drawn alike exactly if they look alike (`drawing_eq_iff`).
-/

namespace ArrayExpr.Tree

/-! ## Lines -/

/-- What a branch adds to the indentation of what hangs below it. -/
def stem (isLast : Bool) : List Char := if isLast then [' ', ' ', ' ', ' '] else ['|', ' ', ' ', ' ']

/-- What stands between the indentation and the label. -/
def twig (isLast : Bool) : List Char := if isLast then ['-', '-', ' '] else ['|', '-', '-', ' ']

/-- The line of a label at the end of a path. -/
def lineAt (path : List Bool) (isLast : Bool) (label : List Char) : List Char :=
  path.flatMap stem ++ (twig isLast ++ label)

/-- A line tells its path, whether its branch is a last one, and its label. -/
theorem lineAt_inj {path path' : List Bool} {isLast isLast' : Bool} {label label' : List Char}
    (h : lineAt path isLast label = lineAt path' isLast' label') :
    path = path' ∧ isLast = isLast' ∧ label = label' := by
  induction path generalizing path' with
  | nil =>
    cases path' with
    | nil =>
      -- the first character of a twig is different for a last branch
      cases isLast <;> cases isLast' <;> simp_all [lineAt, twig]
    | cons b path' => cases isLast <;> cases b <;> simp [lineAt, stem, twig] at h
  | cons a path ih =>
    cases path' with
    | nil => cases a <;> cases isLast' <;> simp [lineAt, stem, twig] at h
    | cons b path' =>
      simp only [lineAt, List.flatMap_cons, List.append_assoc] at h
      obtain ⟨hstem, hrest⟩ := List.append_inj h (by cases a <;> cases b <;> rfl)
      obtain ⟨rfl, rfl, rfl⟩ := ih hrest
      cases a <;> cases b <;> first | exact ⟨rfl, rfl, rfl⟩ | simp [stem] at hstem

/-- The line of a label can be shown if the label can. -/
theorem isPrintable_of_mem_lineAt {label : List Char} (h : ∀ c ∈ label, Text.isPrintable c = true) (path : List Bool)
    (isLast : Bool) : ∀ c ∈ lineAt path isLast label, Text.isPrintable c = true := by
  have hstem (b : Bool) : ∀ c ∈ stem b, Text.isPrintable c = true :=
    List.all_eq_true.mp (by cases b <;> decide +kernel)
  have htwig (b : Bool) : ∀ c ∈ twig b, Text.isPrintable c = true :=
    List.all_eq_true.mp (by cases b <;> decide +kernel)
  intro c hc
  rw [lineAt, List.mem_append, List.mem_append, List.mem_flatMap] at hc
  rcases hc with ⟨b, -, hb⟩ | hb | hb
  · exact hstem b c hb
  · exact htwig isLast c hb
  · exact h c hb

/-! ## Drawings along the tree -/

theorem drawAll_append (bs cs : List Branch) : drawAll (bs ++ cs) = drawAll bs ++ drawAll cs := by
  fun_induction drawAll bs with
  | case1 => rfl
  | case2 b pending ih => rw [List.cons_append, drawAll, ← List.append_assoc, ih, List.cons_append]

/-- The indentation that shows a path. -/
def indentation (path : List Bool) : String := String.ofList (path.flatMap stem)

/-- The lines of a tree at the end of a path. -/
def drawing (path : List Bool) (isLast : Bool) (t : Tree) : List String := drawAll [⟨t, indentation path, isLast⟩]

/-- The lines of siblings at the end of a path. -/
def drawings (path : List Bool) (ts : List Tree) : List String := drawAll (Branch.siblings (indentation path) ts)

@[simp] theorem drawings_nil (path : List Bool) : drawings path [] = [] := by
  rw [drawings, Branch.siblings, drawAll]

/-- Siblings are drawn one after the other, the last of them as a last one. -/
theorem drawings_cons (path : List Bool) (t : Tree) (ts : List Tree) :
    drawings path (t :: ts) = drawing path ts.isEmpty t ++ drawings path ts := by
  rw [drawings, drawing, drawings, ← drawAll_append]
  cases ts <;> rfl

/-- The drawing of a tree: the line of its label, and then the drawings of its children. -/
theorem drawing_eq (path : List Bool) (isLast : Bool) (t : Tree) :
    drawing path isLast t =
      String.ofList (lineAt path isLast t.label.toList) :: drawings (path ++ [isLast]) t.children := by
  have hline : (Branch.mk t (indentation path) isLast).line = String.ofList (lineAt path isLast t.label.toList) := by
    apply String.toList_injective
    cases isLast <;> simp [Branch.line, lineAt, indentation, twig]
  have hinner : (Branch.mk t (indentation path) isLast).inner = indentation (path ++ [isLast]) := by
    apply String.toList_injective
    cases isLast <;> simp [Branch.inner, indentation, stem]
  rw [drawing, drawAll, List.append_nil, Branch.below, hline, hinner, drawings]

theorem outlineLines_eq (t : Tree) : t.outlineLines = drawing [] true t := rfl

/-- A line of siblings is one of the drawing of a sibling. -/
theorem exists_of_mem_drawings {path : List Bool} {line : String} : ∀ {ts : List Tree}, line ∈ drawings path ts →
    ∃ t ∈ ts, ∃ isLast, line ∈ drawing path isLast t
  | [], h => by simp at h
  | t :: ts, h => by
    rw [drawings_cons, List.mem_append] at h
    rcases h with h | h
    · exact ⟨t, List.mem_cons_self, _, h⟩
    · obtain ⟨u, hu, hline⟩ := exists_of_mem_drawings h
      exact ⟨u, List.mem_cons_of_mem t hu, hline⟩

/-- Every line of a drawing is that of a part. -/
theorem exists_of_mem_drawing {path : List Bool} {isLast : Bool} {t : Tree} {line : String}
    (h : line ∈ drawing path isLast t) : ∃ path' isLast', ∃ part ∈ t.walk,
      line = String.ofList (lineAt path' isLast' part.label.toList) := by
  induction t using byChildren generalizing path isLast with
  | step t ih =>
    rw [drawing_eq, List.mem_cons] at h
    rcases h with rfl | h
    · exact ⟨path, isLast, t, mem_walk_self t, rfl⟩
    · obtain ⟨child, hchild, _, hline⟩ := exists_of_mem_drawings h
      obtain ⟨path', isLast', part, hpart, rfl⟩ := ih child hchild hline
      exact ⟨path', isLast', part, mem_walk_iff.mpr (Or.inr ⟨child, hchild, hpart⟩), rfl⟩

/-! ## What a drawing tells -/

/-- No line follows, or one at the end of a path that is shorter than this. -/
def Returns (depth : Nat) (rest : List String) : Prop :=
  ∀ line ∈ rest.head?, ∃ (path : List Bool) (isLast : Bool) (label : List Char),
    path.length < depth ∧ line = String.ofList (lineAt path isLast label)

theorem Returns.mono {depth depth' : Nat} {rest : List String} (h : Returns depth rest) (hle : depth ≤ depth') :
    Returns depth' rest := by
  intro line hline
  obtain ⟨path, isLast, label, hlt, heq⟩ := h line hline
  exact ⟨path, isLast, label, Nat.lt_of_lt_of_le hlt hle, heq⟩

/-- The drawing of a tree returns to its path. -/
theorem returns_drawing (path : List Bool) (isLast : Bool) (t : Tree) (rest : List String) :
    Returns (path.length + 1) (drawing path isLast t ++ rest) := by
  intro line hline
  rw [drawing_eq, List.cons_append, List.head?_cons, Option.mem_some_iff] at hline
  exact ⟨path, isLast, _, Nat.lt_succ_self _, hline.symm⟩

/-- It returns no further. -/
theorem not_returns_drawing (path : List Bool) (isLast : Bool) (t : Tree) (rest : List String) :
    ¬ Returns path.length (drawing path isLast t ++ rest) := by
  intro h
  obtain ⟨path', isLast', label, hlt, heq⟩ := h _ (by rw [drawing_eq]; rfl)
  rw [(lineAt_inj (String.ofList_injective heq)).1] at hlt
  exact Nat.lt_irrefl _ hlt

/-- What follows a sibling returns to its path. -/
theorem returns_drawings {path : List Bool} {rest : List String} (hrest : Returns path.length rest) (ts : List Tree) :
    Returns (path.length + 1) (drawings path ts ++ rest) := by
  cases ts with
  | nil =>
    rw [drawings_nil, List.nil_append]
    exact hrest.mono (Nat.le_succ _)
  | cons t ts =>
    rw [drawings_cons, List.append_assoc]
    exact returns_drawing path _ t _

/-- The tree can be read off its drawing, wherever that stands. -/
def Legible (t : Tree) : Prop :=
  ∀ (u : Tree) (path : List Bool) (isLast isLast' : Bool) (rest rest' : List String),
    Returns (path.length + 1) rest → Returns (path.length + 1) rest' →
    drawing path isLast t ++ rest = drawing path isLast' u ++ rest' → t.LooksLike u ∧ rest = rest'

/-- Legible siblings can be read off their drawings. -/
theorem looksLike_of_drawings_eq {path : List Bool} {rest rest' : List String} (hrest : Returns path.length rest)
    (hrest' : Returns path.length rest') : ∀ {ts us : List Tree}, (∀ t ∈ ts, t.Legible) →
    drawings path ts ++ rest = drawings path us ++ rest' → List.Forall₂ LooksLike ts us ∧ rest = rest'
  | [], [], _, h => ⟨.nil, by simpa using h⟩
  | [], u :: us, _, h => by
    rw [drawings_nil, List.nil_append, drawings_cons, List.append_assoc] at h
    exact absurd (h ▸ hrest) (not_returns_drawing path _ u _)
  | t :: ts, [], _, h => by
    rw [drawings_nil, List.nil_append, drawings_cons, List.append_assoc] at h
    exact absurd (h ▸ hrest') (not_returns_drawing path _ t _)
  | t :: ts, u :: us, ht, h => by
    rw [drawings_cons, drawings_cons, List.append_assoc, List.append_assoc] at h
    obtain ⟨hlooks, hmore⟩ := ht t List.mem_cons_self u path _ _ _ _ (returns_drawings hrest ts)
      (returns_drawings hrest' us) h
    obtain ⟨hothers, hrest⟩ :=
      looksLike_of_drawings_eq hrest hrest' (fun t' ht' => ht t' (List.mem_cons_of_mem t ht')) hmore
    exact ⟨.cons hlooks hothers, hrest⟩

/-- Every tree is legible. -/
theorem legible (t : Tree) : t.Legible := by
  induction t using byChildren with
  | step t ih =>
    intro u path isLast isLast' rest rest' hrest hrest' h
    rw [drawing_eq, drawing_eq, List.cons_append, List.cons_append, List.cons.injEq] at h
    obtain ⟨hline, hmore⟩ := h
    obtain ⟨-, rfl, hlabel⟩ := lineAt_inj (String.ofList_injective hline)
    have hdepth : (path ++ [isLast]).length = path.length + 1 := List.length_append
    obtain ⟨hchildren, hrest⟩ := looksLike_of_drawings_eq (hdepth ▸ hrest) (hdepth ▸ hrest') ih hmore
    exact ⟨looksLike_iff.mpr ⟨String.toList_injective hlabel, hchildren⟩, hrest⟩

/-- Siblings that look alike are drawn alike, if each of them is. -/
theorem drawings_eq_of_forall₂ {ts us : List Tree} (h : List.Forall₂ LooksLike ts us)
    (ht : ∀ t ∈ ts, ∀ (u : Tree) (path : List Bool) (isLast : Bool), t.LooksLike u →
      drawing path isLast t = drawing path isLast u) (path : List Bool) : drawings path ts = drawings path us := by
  induction h with
  | nil => rfl
  | @cons t u ts us hlooks hothers ih =>
    have hlast : ts.isEmpty = us.isEmpty := by cases hothers <;> rfl
    rw [drawings_cons, drawings_cons, hlast, ht t List.mem_cons_self u path _ hlooks,
      ih fun t' ht' => ht t' (List.mem_cons_of_mem t ht')]

theorem drawing_eq_of_looksLike {t u : Tree} (h : t.LooksLike u) (path : List Bool) (isLast : Bool) :
    drawing path isLast t = drawing path isLast u := by
  induction t using byChildren generalizing u path isLast with
  | step t ih =>
    obtain ⟨hlabel, hchildren⟩ := looksLike_iff.mp h
    rw [drawing_eq, drawing_eq, hlabel,
      drawings_eq_of_forall₂ hchildren fun child hchild u path isLast hlooks => ih child hchild hlooks path isLast]

/-- Trees are drawn alike exactly if they look alike. -/
theorem drawing_eq_iff (path : List Bool) (isLast : Bool) {t u : Tree} :
    drawing path isLast t = drawing path isLast u ↔ t.LooksLike u := by
  refine ⟨fun h => ?_, fun h => drawing_eq_of_looksLike h path isLast⟩
  have hend : Returns (path.length + 1) [] := fun _ hline => nomatch hline
  exact (legible t u path isLast isLast [] [] hend hend (congrArg (· ++ []) h)).1

end ArrayExpr.Tree
