/-
The printed form of a list, read again.

A list is printed with a quote on each side of an item, and nothing
inside an item is marked. So an item with a quote in it can print as two
items, and an item with an escape in it is read as another text. These
are the only ways in which a list is lost (`Literal.read?_display_iff`).

# Why nothing else is read as the list

That the items come back does not say at once that they were printed
harmlessly: with quotes inside, other bodies than the items stand
between the quotes, and their expansions might be the items again. What
excludes this is a count. A list of n bodies has 2n quotes
(`ListOf.count_quote`), and a list of n items prints as many besides
those in the items (`count_quote_display`), so that none is left for
these. Then the bodies are the items, and every item is its own
expansion. An escape has four characters and stands for one, hence a
text is its own expansion only if there is no escape in it
(`Text.expandEscapes_eq_self_iff`).
-/
import LineScript.Proofs.OperandForms
import Mathlib.Algebra.GroupWithZero.Nat

set_option autoImplicit false

namespace LineScript

namespace Text

-- =============================================================== escapes

/-- A backslash, the letter `x` and two hexadecimal digits stand in a row
somewhere in a text. -/
def HasEscape (text : Text) : Prop :=
  ∃ front high low back, text = front ++ '\\' :: 'x' :: high :: low :: back
    ∧ (hexDigit? high).isSome = true ∧ (hexDigit? low).isSome = true

theorem escaped?_isSome_iff {text : Text} :
    (escaped? text).isSome = true
      ↔ ∃ high low back, text = 'x' :: high :: low :: back
      ∧ (hexDigit? high).isSome = true ∧ (hexDigit? low).isSome = true := by
  constructor
  · intro h
    unfold escaped? at h
    split at h
    next high low back =>
      obtain ⟨d, hd⟩ := Option.isSome_iff_exists.1 h
      obtain ⟨x, hx, hd⟩ := Option.bind_eq_some_iff.1 hd
      obtain ⟨y, hy, -⟩ := Option.bind_eq_some_iff.1 hd
      exact ⟨high, low, back, rfl, by rw [hx]; rfl, by rw [hy]; rfl⟩
    next => cases h
  · rintro ⟨high, low, back, rfl, hhigh, hlow⟩
    obtain ⟨x, hx⟩ := Option.isSome_iff_exists.1 hhigh
    obtain ⟨y, hy⟩ := Option.isSome_iff_exists.1 hlow
    simp [escaped?, hx, hy]

theorem not_hasEscape_nil : ¬ HasEscape [] := by
  rintro ⟨front, high, low, back, heq, -⟩
  cases front <;> cases heq

/-- There is an escape at the head of a text or one behind it. -/
theorem hasEscape_cons_iff {c : Char} {rest : Text} :
    HasEscape (c :: rest)
      ↔ (c = '\\' ∧ (escaped? rest).isSome = true) ∨ HasEscape rest := by
  rw [escaped?_isSome_iff]
  constructor
  · rintro ⟨front, high, low, back, heq, hdigits⟩
    cases front with
    | nil =>
        cases heq
        exact .inl ⟨rfl, high, low, back, rfl, hdigits⟩
    | cons d front =>
        cases heq
        exact .inr ⟨front, high, low, back, rfl, hdigits⟩
  · rintro (⟨rfl, high, low, back, rfl, hdigits⟩
      | ⟨front, high, low, back, rfl, hdigits⟩)
    · exact ⟨[], high, low, back, rfl, hdigits⟩
    · exact ⟨c :: front, high, low, back, rfl, hdigits⟩

/-- Expansion does not make a text longer. -/
theorem expandFrom_length_le (skip : Nat) (text : Text) :
    (expandFrom skip text).length ≤ text.length - skip := by
  induction text generalizing skip with
  | nil => simp [expandFrom]
  | cons c rest ih =>
      cases skip with
      | succ skip =>
          have hrest := ih skip
          simp only [expandFrom, List.length_cons]
          omega
      | zero =>
          rw [expandFrom]
          split
          next d hd =>
            have hrest := ih 3
            simp only [List.length_cons]
            omega
          next =>
            have hrest := ih 0
            simp only [List.length_cons]
            omega

/-- A text is its own expansion if there is no escape in it, and only
then, since every escape makes the expansion shorter. -/
theorem expandEscapes_eq_self_iff {text : Text} :
    expandEscapes text = text ↔ ¬ HasEscape text := by
  unfold expandEscapes
  induction text with
  | nil => simp [expandFrom, not_hasEscape_nil]
  | cons c rest ih =>
      rw [hasEscape_cons_iff, expandFrom]
      split
      next d hd =>
        split at hd
        next hslash =>
          have hescape : (escaped? rest).isSome = true := by rw [hd]; rfl
          have hlong : 3 ≤ rest.length := by
            obtain ⟨high, low, back, rfl, -⟩ := escaped?_isSome_iff.1 hescape
            simp
          have hshort := expandFrom_length_le 3 rest
          refine iff_of_false (fun heq => ?_)
            (fun hnot => hnot (.inl ⟨hslash, hescape⟩))
          have hlength := congrArg List.length heq
          simp only [List.length_cons] at hlength
          omega
        next => cases hd
      next hnone =>
        have hhead : ¬ (c = '\\' ∧ (escaped? rest).isSome = true) := by
          rintro ⟨rfl, hescape⟩
          rw [if_pos rfl] at hnone
          rw [hnone] at hescape
          cases hescape
        simp only [List.cons.injEq, true_and, ih, hhead, false_or]

/-- A text that stands for itself between quotes. -/
structure Verbatim (text : Text) : Prop where
  quote : '\'' ∉ text
  escape : ¬ HasEscape text

end Text

namespace Literal

open Value (displayItems display)

-- =============================================================== a count

theorem count_quotedText {body : Text} (hbody : '\'' ∉ body) :
    (quotedText body).count '\'' = 2 := by
  simp [quotedText, List.count_eq_zero.2 hbody]

theorem count_gap {gap : Text} (hgap : Text.isAllBlank gap = true) :
    gap.count '\'' = 0 :=
  List.count_eq_zero.2 (Text.not_mem_of_isAllBlank hgap rfl)

theorem ItemsOf.count_quote {bodies : List Text} {text : Text}
    (h : ItemsOf bodies text) :
    text.count '\'' = 2 * bodies.length := by
  induction h with
  | last hbody hgap => simp [count_quotedText hbody, count_gap hgap]
  | more hbody hfront hback h ih =>
      simp [count_quotedText hbody, count_gap hfront, count_gap hback, ih]
      omega

/-- Two quotes belong to each body of a list, and there are no others. -/
theorem ListOf.count_quote {bodies : List Text} {text : Text}
    (h : ListOf bodies text) :
    text.count '\'' = 2 * bodies.length := by
  cases h with
  | empty hgap => simp [count_gap hgap]
  | items hgap h => simp [count_gap hgap, h.count_quote]

/-- A list prints two quotes for each item, besides those that are in the
items. -/
theorem count_quote_displayItems (items : List Text) :
    (displayItems items).count '\''
      = 2 * items.length + (items.map (List.count '\'')).sum := by
  fun_induction displayItems items with
  | case1 => rfl
  | case2 item => simp; omega
  | case3 item next rest ih =>
      simp [ih]
      omega

theorem count_quote_display (items : List Text) :
    (display (.list items)).count '\''
      = 2 * items.length + (items.map (List.count '\'')).sum := by
  simp [display, count_quote_displayItems]

-- ============================================================== printing

/-- Items without quotes are printed as the bodies of a list. -/
theorem itemsOf_displayItems {items : List Text} (hne : items ≠ [])
    (hquotes : ∀ item ∈ items, '\'' ∉ item) :
    ItemsOf items (displayItems items ++ [']']) := by
  have hgap : Text.isAllBlank [] = true := rfl
  fun_induction displayItems items with
  | case1 => exact absurd rfl hne
  | case2 item =>
      have hlast := ItemsOf.last (hquotes item List.mem_cons_self) hgap
      rwa [List.append_nil] at hlast
  | case3 item next rest ih =>
      have hrest := ih (List.cons_ne_nil _ _) fun i hi =>
        hquotes i (List.mem_cons_of_mem _ hi)
      have hmore :=
        ItemsOf.more (hquotes item List.mem_cons_self) hgap hgap hrest
      simpa [quotedText] using hmore

theorem listOf_display {items : List Text}
    (hquotes : ∀ item ∈ items, '\'' ∉ item) :
    ListOf items (display (.list items)) := by
  have hgap : Text.isAllBlank [] = true := rfl
  cases items with
  | nil => exact ListOf.empty hgap
  | cons item rest =>
      have hitems := itemsOf_displayItems (List.cons_ne_nil item rest) hquotes
      have hlist : ListOf (item :: rest)
          ('[' :: ([] ++ (displayItems (item :: rest) ++ [']']))) :=
        .items hgap hitems
      exact hlist

/-- If a list comes back with as many items as it had, there is no quote
in its items. -/
theorem not_mem_of_listOf_display {items bodies : List Text}
    (h : ListOf bodies (display (.list items)))
    (hlength : bodies.length = items.length) :
    ∀ item ∈ items, '\'' ∉ item := by
  have hcount := count_quote_display items
  rw [h.count_quote, hlength] at hcount
  have hsum : (items.map (List.count '\'')).sum = 0 := by omega
  intro item hitem
  exact List.count_eq_zero.1
    (List.sum_eq_zero_iff_forall_eq_nat.1 hsum _ (List.mem_map_of_mem hitem))

-- =============================================================== reading

/-- Expansion leaves a list of bodies as it is if there is no escape in
any of them, and only then. -/
theorem map_expandEscapes_eq_self_iff {items : List Text} :
    items.map Text.expandEscapes = items
      ↔ ∀ item ∈ items, ¬ item.HasEscape := by
  calc items.map Text.expandEscapes = items
      ↔ items.map Text.expandEscapes = items.map id := by rw [List.map_id]
    _ ↔ ∀ item ∈ items, Text.expandEscapes item = item := List.map_inj_left
    _ ↔ ∀ item ∈ items, ¬ item.HasEscape := by
      simp only [Text.expandEscapes_eq_self_iff]

/-- Verbatim items are read back. -/
theorem read?_display {items : List Text} (h : ∀ item ∈ items, item.Verbatim) :
    read? (display (.list items)) = some (.value (.list items)) := by
  have hlist := listOf_display fun item hitem => (h item hitem).quote
  have hexpanded :=
    map_expandEscapes_eq_self_iff.2 fun item hitem => (h item hitem).escape
  exact read?_of_list? (list?_eq_some_iff.2 ⟨items, hlist, hexpanded.symm⟩)

/-- Items that are read back are verbatim. -/
theorem verbatim_of_read?_display {items : List Text}
    (h : read? (display (.list items)) = some (.value (.list items))) :
    ∀ item ∈ items, item.Verbatim := by
  obtain ⟨bodies, hlist, hitems⟩ := list?_eq_some_iff.1 (read?_list_iff.1 h)
  have hlength : bodies.length = items.length := by
    rw [hitems, List.length_map]
  have hquotes := not_mem_of_listOf_display hlist hlength
  have hbodies : bodies = items :=
    hlist.quotedBodies_eq.symm.trans (listOf_display hquotes).quotedBodies_eq
  rw [hbodies] at hitems
  have hescapes := map_expandEscapes_eq_self_iff.1 hitems.symm
  exact fun item hitem => ⟨hquotes item hitem, hescapes item hitem⟩

/-- The printed form of a list is read as that list if no item has a
quote or an escape in it, and only then; so two such lists that are
printed alike are the same. -/
theorem read?_display_iff (items : List Text) :
    (read? (display (.list items)) = some (.value (.list items))
        ↔ ∀ item ∈ items, item.Verbatim)
      ∧ ∀ others : List Text, (∀ item ∈ items ++ others, item.Verbatim) →
          display (.list items) = display (.list others) → items = others := by
  refine ⟨⟨verbatim_of_read?_display, read?_display⟩,
    fun others h hprint => ?_⟩
  have hitems :=
    read?_display fun item hitem => h item (List.mem_append_left _ hitem)
  have hothers :=
    read?_display fun item hitem => h item (List.mem_append_right _ hitem)
  rw [hprint, hothers] at hitems
  cases hitems
  rfl

-- with a quote in an item, one item is printed as two
example : display (.list ["a','b".toList])
    = display (.list ["a".toList, "b".toList]) := rfl

end Literal

end LineScript
