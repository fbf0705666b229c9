/-
Where a trailing comment begins, exactly.

A comment begins at a position of a line if the marker stands there and
an even number of quotes in front of it (`Line.CommentAt`). That is said
of the position and the line, with no scan; the scan keeps one bit and
stops at the least of these positions (`beforeComment?_eq_some_iff`). A
marker may have quotes and white space behind its first character, and
may overlap with itself: what counts is only whether it begins at a
position, and a scan that comes to the first one has looked for it at all
positions before.

# What is kept

What is kept of a line is a part of it from its beginning. A comment that
begins in that part begins at the same position of the line
(`BeginsAt.of_prefix`), and there is none before the least one, so that
nothing can be cut off a second time. A quoted section with an even number
of quotes in front has no position inside where a comment begins, so that
a cut is in front of it or behind it (`CommentAt.beside_section`).
-/
import LineScript.Proofs.Lexing
import Mathlib.Order.Bounds.Basic
import Mathlib.Order.Nat

set_option autoImplicit false

namespace LineScript

-- ====================================================== least positions

/-- Of positions behind the first one the least comes one later in all. -/
theorem isLeast_succ_iff {p : Nat → Prop} (hzero : ¬ p 0) {j : Nat} :
    IsLeast {i | p i} j ↔ ∃ i, j = i + 1 ∧ IsLeast {i | p (i + 1)} i := by
  constructor
  · rintro ⟨hj, hleast⟩
    cases j with
    | zero => exact absurd hj hzero
    | succ i =>
        exact ⟨i, rfl, hj, fun k hk => Nat.le_of_succ_le_succ (hleast hk)⟩
  · rintro ⟨i, rfl, hi, hleast⟩
    refine ⟨hi, fun k hk => ?_⟩
    cases k with
    | zero => exact absurd hk hzero
    | succ k => exact Nat.succ_le_succ (hleast hk)

namespace Text

/-- What ends in a character that is not white space is not cut off with
the white space at the end of a text. -/
theorem prefix_trimEnd {front text : Text} {c : Char} (hc : isBlank c = false)
    (h : front ++ [c] <+: text) : front ++ [c] <+: trimEnd text := by
  obtain ⟨rest, rfl⟩ := h
  by_cases hrest : trimEnd rest = []
  · have hblank := (trimEnd_eq_nil_iff rest).1 hrest
    have hkept :=
      (trimEnd_append_of_blank hblank _).trans (trimEnd_concat hc front)
    exact ⟨[], (List.append_nil _).trans hkept.symm⟩
  · rw [trimEnd_append hrest]
    exact List.prefix_append _ _

/-- What is left at the front of a text is a part of it. -/
theorem trimEnd_prefix (text : Text) : trimEnd text <+: text := by
  obtain ⟨blanks, -, htext⟩ := trimEnd_append_blank text
  exact ⟨blanks, htext.symm⟩

end Text

namespace Line

variable {marker line : Text}

-- ============================================================ positions

/-- A comment begins at a position of a line: the marker stands there, and
an even number of quotes in front of it. -/
def CommentAt (marker line : Text) (i : Nat) : Prop :=
  marker <+: line.drop i ∧ Even ((line.take i).count '\'')

instance (marker line : Text) (i : Nat) :
    Decidable (CommentAt marker line i) :=
  inferInstanceAs (Decidable (_ ∧ _))

/-- The same for a line that may begin inside quotes, as a scan sees it. -/
structure BeginsAt (marker : Text) (quoted : Bool) (line : Text) (i : Nat) :
    Prop where
  marker : marker <+: line.drop i
  outside : quotedAfter quoted (line.take i) = false

theorem commentAt_iff {i : Nat} :
    CommentAt marker line i ↔ BeginsAt marker false line i := by
  unfold CommentAt
  rw [← @quotedAfter_eq_iff false]
  exact ⟨fun ⟨hmarker, houtside⟩ => ⟨hmarker, houtside⟩,
    fun ⟨hmarker, houtside⟩ => ⟨hmarker, houtside⟩⟩

section

variable {quoted : Bool} {c : Char} {rest : Text}

theorem beginsAt_zero_iff :
    BeginsAt marker quoted line 0
      ↔ quoted = false ∧ Text.startsWith line marker = true := by
  constructor
  · rintro ⟨hmarker, houtside⟩
    exact ⟨houtside, List.isPrefixOf_iff_prefix.2 hmarker⟩
  · rintro ⟨houtside, hmarker⟩
    exact ⟨List.isPrefixOf_iff_prefix.1 hmarker, houtside⟩

theorem beginsAt_succ_iff {i : Nat} :
    BeginsAt marker quoted (c :: rest) (i + 1)
      ↔ BeginsAt marker (if c = '\'' then !quoted else quoted) rest i :=
  ⟨fun ⟨hmarker, houtside⟩ => ⟨hmarker, houtside⟩,
    fun ⟨hmarker, houtside⟩ => ⟨hmarker, houtside⟩⟩

/-- There is room for the marker behind a position where a comment
begins. -/
theorem BeginsAt.room {i : Nat} (h : BeginsAt marker quoted line i)
    (hne : marker ≠ []) :
    i + marker.length ≤ line.length := by
  have hlength := h.marker.length_le
  have hpos := List.length_pos_iff.2 hne
  rw [List.length_drop] at hlength
  omega

/-- What begins in the front part of a line begins in the line. -/
theorem BeginsAt.of_prefix {front : Text} {i : Nat}
    (h : BeginsAt marker quoted front i) (hne : marker ≠ [])
    (hfront : front <+: line) : BeginsAt marker quoted line i := by
  obtain ⟨back, rfl⟩ := hfront
  have hroom : i ≤ front.length := Nat.le_of_add_right_le (h.room hne)
  constructor
  · rw [List.drop_append_of_le_length hroom]
    exact h.marker.trans (List.prefix_append _ back)
  · rw [List.take_append_of_le_length hroom]
    exact h.outside

end

-- ============================================================= the scan

section

variable (hne : marker ≠ []) (hhead : marker.head? ≠ some '\'')

include hne

/-- In front of its comment a line has none. -/
theorem not_commentAt_take {i j : Nat}
    (hleast : IsLeast {i | CommentAt marker line i} i) :
    ¬ CommentAt marker (Text.trimEnd (line.take i)) j := by
  intro h
  rw [commentAt_iff] at h
  have hkept : Text.trimEnd (line.take i) <+: line :=
    (Text.trimEnd_prefix _).trans (List.take_prefix i line)
  have hi : i ≤ j := hleast.2 (commentAt_iff.2 (h.of_prefix hne hkept))
  have hlength : (Text.trimEnd (line.take i)).length ≤ i :=
    (Text.trimEnd_prefix _).length_le.trans (List.length_take_le i line)
  have hroom := h.room hne
  have hpos := List.length_pos_iff.2 hne
  omega

include hhead

/-- A marker that does not begin with a quote does not stand where a quote
stands. -/
theorem startsWith_quote_eq_false (rest : Text) :
    Text.startsWith ('\'' :: rest) marker = false := by
  cases marker with
  | nil => exact absurd rfl hne
  | cons m marker =>
      exact Text.startsWith_cons_of_ne rest marker fun heq =>
        hhead (congrArg some heq.symm)

/-- A scan finds what stands in front of the first position where a
comment begins. -/
theorem beforeComment?_eq_some_iff {quoted : Bool} {before : Text} :
    beforeComment? marker quoted line = some before
      ↔ ∃ i, IsLeast {i | BeginsAt marker quoted line i} i
        ∧ before = line.take i := by
  induction line generalizing quoted before with
  | nil =>
      constructor
      · nofun
      · rintro ⟨i, ⟨hi, -⟩, -⟩
        have hroom := hi.room hne
        have hpos := List.length_pos_iff.2 hne
        rw [List.length_nil] at hroom
        omega
  | cons c rest ih =>
      -- where no comment begins at once the scan goes on behind the first
      -- character
      have honward : ∀ side, side = (if c = '\'' then !quoted else quoted) →
          ¬ BeginsAt marker quoted (c :: rest) 0 →
          ((beforeComment? marker side rest).map (c :: ·) = some before
            ↔ ∃ i, IsLeast {i | BeginsAt marker quoted (c :: rest) i} i
                ∧ before = (c :: rest).take i) := by
        rintro side rfl hzero
        simp only [Option.map_eq_some_iff, ih, isLeast_succ_iff hzero,
          beginsAt_succ_iff]
        constructor
        · rintro ⟨_, ⟨i, hi, rfl⟩, rfl⟩
          exact ⟨i + 1, ⟨i, rfl, hi⟩, rfl⟩
        · rintro ⟨_, ⟨i, rfl, hi⟩, rfl⟩
          exact ⟨rest.take i, ⟨i, hi, rfl⟩, rfl⟩
      rw [beforeComment?]
      by_cases hc : c = '\''
      · rw [if_pos hc]
        refine honward _ (if_pos hc).symm fun hzero => ?_
        rw [beginsAt_zero_iff, hc,
          startsWith_quote_eq_false hne hhead] at hzero
        exact absurd hzero.2 Bool.false_ne_true
      · rw [if_neg hc]
        by_cases hfound :
            (!quoted && Text.startsWith (c :: rest) marker) = true
        · have hzero : BeginsAt marker quoted (c :: rest) 0 := by
            rw [beginsAt_zero_iff]
            simpa using hfound
          have hleast : IsLeast {i | BeginsAt marker quoted (c :: rest) i} 0 :=
            ⟨hzero, fun _ _ => Nat.zero_le _⟩
          rw [if_pos hfound]
          constructor
          · intro h
            cases h
            exact ⟨0, hleast, rfl⟩
          · rintro ⟨i, hi, rfl⟩
            rw [hi.unique hleast]
            rfl
        · rw [if_neg hfound]
          refine honward _ (if_neg hc).symm fun hzero => hfound ?_
          rw [beginsAt_zero_iff] at hzero
          simpa using hzero

/-- A scan finds nothing if there is no such position. -/
theorem beforeComment?_eq_none_iff {quoted : Bool} :
    beforeComment? marker quoted line = none
      ↔ ∀ i, ¬ BeginsAt marker quoted line i := by
  rw [Option.eq_none_iff_forall_ne_some]
  constructor
  · intro hnone i hi
    classical
    have hfirst := Nat.isLeast_find ⟨i, hi⟩
    exact hnone _ ((beforeComment?_eq_some_iff hne hhead).2 ⟨_, hfirst, rfl⟩)
  · intro hnone before hbefore
    obtain ⟨i, ⟨hi, -⟩, -⟩ := (beforeComment?_eq_some_iff hne hhead).1 hbefore
    exact hnone i hi

/-- What is kept of a line is what stands in front of its comment. -/
theorem stripComment?_eq_some_iff {kept : Text} :
    stripComment? marker line = some kept
      ↔ ∃ i, IsLeast {i | CommentAt marker line i} i
        ∧ kept = Text.trimEnd (line.take i) := by
  simp only [stripComment?, Option.map_eq_some_iff,
    beforeComment?_eq_some_iff hne hhead, commentAt_iff]
  constructor
  · rintro ⟨_, ⟨i, hi, rfl⟩, rfl⟩
    exact ⟨i, hi, rfl⟩
  · rintro ⟨i, hi, rfl⟩
    exact ⟨line.take i, ⟨i, hi, rfl⟩, rfl⟩

theorem stripComment?_eq_none_iff :
    stripComment? marker line = none ↔ ∀ i, ¬ CommentAt marker line i := by
  simp only [stripComment?, Option.map_eq_none_iff,
    beforeComment?_eq_none_iff hne hhead, commentAt_iff]

/-- A comment begins in front of a quoted section or behind it. -/
theorem CommentAt.beside_section {front body back : Text}
    (heven : Even (front.count '\'')) (hbody : '\'' ∉ body) {i : Nat}
    (h : CommentAt marker (front ++ '\'' :: (body ++ '\'' :: back)) i) :
    i < front.length ∨ (front ++ '\'' :: (body ++ ['\''])).length ≤ i := by
  by_contra hinside
  simp only [List.length_append, List.length_cons, List.length_nil, not_or,
    not_lt, not_le]
    at hinside
  obtain ⟨k, rfl⟩ := Nat.exists_eq_add_of_le hinside.1
  obtain ⟨hmarker, houtside⟩ := h
  cases k with
  | zero =>
      rw [Nat.add_zero, List.drop_left,
        ← List.isPrefixOf_iff_prefix] at hmarker
      exact Bool.false_ne_true
        ((startsWith_quote_eq_false hne hhead _).symm.trans hmarker)
  | succ k =>
      have hk : k ≤ body.length := by omega
      have hclosed : '\'' ∉ body.take k :=
        fun hmem => hbody (List.mem_of_mem_take hmem)
      rw [List.take_length_add_append, List.take_succ_cons,
        List.take_append_of_le_length hk, List.count_append,
        List.count_cons_self, List.count_eq_zero_of_not_mem hclosed,
        Nat.zero_add, Nat.even_add_one] at houtside
      exact houtside heven

/-- A quoted section in front of a comment is kept as it is. -/
theorem section_prefix_stripComment? {front body back : Text}
    (heven : Even (front.count '\'')) (hbody : '\'' ∉ body) :
    front ++ '\'' :: (body ++ ['\''])
        <+: (stripComment? marker
          (front ++ '\'' :: (body ++ '\'' :: back))).getD
          (front ++ '\'' :: (body ++ '\'' :: back))
      ∨ ∃ i, IsLeast
        {i | CommentAt marker (front ++ '\'' :: (body ++ '\'' :: back)) i} i
          ∧ i < front.length := by
  have hsection : front ++ '\'' :: (body ++ ['\''])
      <+: front ++ '\'' :: (body ++ '\'' :: back) := ⟨back, by simp⟩
  cases hstrip : stripComment? marker
    (front ++ '\'' :: (body ++ '\'' :: back)) with
  | none => exact .inl hsection
  | some kept =>
      obtain ⟨i, hi, rfl⟩ := (stripComment?_eq_some_iff hne hhead).1 hstrip
      rcases hi.1.beside_section hne hhead heven hbody with hbefore | hbehind
      · exact .inr ⟨i, hi, hbefore⟩
      · have htaken := List.prefix_take_iff.2 ⟨hsection, hbehind⟩
        have hclose : front ++ '\'' :: (body ++ ['\''])
            = (front ++ '\'' :: body) ++ ['\''] := by
          simp
        rw [hclose] at htaken ⊢
        exact .inl (Text.prefix_trimEnd rfl htaken)

end

/-- Where a trailing comment begins, for every line and every marker that
does not begin with a quote. The comment is cut off at the least position
at which the marker stands with an even number of quotes in front of it,
and with it the white space before; there is nothing to cut off if there
is no such position. What is kept has no comment. And a closed quoted
section stays as it is in what the language makes of the line, unless it
is part of the comment. -/
theorem stripComment?_exact (hne : marker ≠ [])
    (hhead : marker.head? ≠ some '\'') (line : Text) :
    (∀ kept, stripComment? marker line = some kept
        ↔ ∃ i, IsLeast {i | CommentAt marker line i} i
          ∧ kept = Text.trimEnd (line.take i))
      ∧ ((∃ kept, stripComment? marker line = some kept)
        ↔ ∃ i, CommentAt marker line i)
      ∧ (∀ kept, stripComment? marker line = some kept →
        stripComment? marker kept = none)
      ∧ ∀ front body back, line = front ++ '\'' :: (body ++ '\'' :: back) →
          Even (front.count '\'') → '\'' ∉ body →
          front ++ '\'' :: (body ++ ['\''])
            <+: (stripComment? marker line).getD line
            ∨ ∃ i, IsLeast {i | CommentAt marker line i} i
              ∧ i < front.length := by
  refine ⟨fun kept => stripComment?_eq_some_iff hne hhead, ?_, ?_, ?_⟩
  · rw [← not_iff_not]
    simp only [← Option.ne_none_iff_exists',
      stripComment?_eq_none_iff hne hhead, ne_eq, not_not, not_exists]
  · intro kept hkept
    obtain ⟨i, hi, rfl⟩ := (stripComment?_eq_some_iff hne hhead).1 hkept
    exact (stripComment?_eq_none_iff hne hhead).2 fun j =>
      not_commentAt_take hne hi
  · rintro front body back rfl heven hbody
    exact section_prefix_stripComment? hne hhead heven hbody

/-- For instance, a marker with a quote in it: it stands in the line
twice, the first time inside quotes. -/
theorem stripComment?_exact_of_quote_in_marker :
    ¬ CommentAt "#'".toList "set s, 'x#' #'note".toList 9
      ∧ IsLeast {i | CommentAt "#'".toList "set s, 'x#' #'note".toList i} 12
      ∧ stripComment? "#'".toList "set s, 'x#' #'note".toList
        = some "set s, 'x#'".toList
      ∧ stripComment? "#'".toList "set s, 'x#'".toList = none
      ∧ "set s, 'x#'".toList
        <+: (stripComment? "#'".toList "set s, 'x#' #'note".toList).getD
          [] := by
  have hne : "#'".toList ≠ [] := by decide
  obtain ⟨hcut, -, hstable, hsection⟩ :=
    stripComment?_exact hne (by decide) "set s, 'x#' #'note".toList
  have hleast :
      IsLeast {i | CommentAt "#'".toList "set s, 'x#' #'note".toList i}
        12 := by
    refine ⟨by decide, fun j hj => ?_⟩
    by_contra hlt
    have hnone : ∀ i < 12,
        ¬ CommentAt "#'".toList "set s, 'x#' #'note".toList i := by decide
    exact hnone j (Nat.lt_of_not_le hlt) hj
  have hkept := (hcut _).2 ⟨12, hleast, rfl⟩
  refine ⟨by decide, hleast, hkept, hstable _ hkept, ?_⟩
  rcases hsection "set s, ".toList "x#".toList " #'note".toList rfl (by decide)
    (by decide) with hprefix | ⟨i, hi, hlt⟩
  · rw [hkept] at hprefix ⊢
    exact hprefix
  · rw [hi.unique hleast] at hlt
    exact absurd hlt (by decide)

end Line

end LineScript
