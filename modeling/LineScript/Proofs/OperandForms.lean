/-
The four forms of an operand, and that the reader of operands knows them
and nothing else.

A form is a grammar written down by itself: a numeral with its sign and
its runs of digits, a quoted body, a list of quoted bodies with white
space between the marks, an identifier. No text has two of them, since
each begins with a character that none of the others begins with; so it
does not matter in which order they are tried. Each recogniser is shown
to accept its own grammar, and with it what it makes of the parts: the
nearest double of a numeral, the bodies with their escapes expanded.

# The bodies of a list

A list is read from left to right, an item and a mark at a time. There is
a simpler way to its bodies, which knows nothing of brackets, commas and
white space: go through the text and take what stands between two quotes
(`Literal.quotedBodies`). On a list the two agree. Whatever is between
two bodies has no quote in it, and whatever looks like a comma or a
bracket inside a body is passed over with the body.
-/
import LineScript.Proofs.Literals
import LineScript.Proofs.Rounding

set_option autoImplicit false

namespace LineScript

namespace Text

/-- A text is divided at the first occurrence of a character. -/
theorem splitAtFirst?_eq_some_iff {mark : Char} {text before after : Text} :
    splitAtFirst? mark text = some (before, after)
      ↔ text = before ++ mark :: after ∧ mark ∉ before := by
  constructor
  · intro h
    induction text generalizing before with
    | nil => cases h
    | cons c rest ih =>
        rw [splitAtFirst?] at h
        split at h
        next heq =>
          simp only [Option.some.injEq, Prod.mk.injEq] at h
          obtain ⟨rfl, rfl⟩ := h
          exact ⟨congrArg (· :: rest) heq, List.not_mem_nil⟩
        next hne =>
          obtain ⟨⟨front, back⟩, hfound, heq⟩ := Option.map_eq_some_iff.1 h
          cases heq
          obtain ⟨rfl, hfront⟩ := ih hfound
          refine ⟨rfl, fun hmem => ?_⟩
          rcases List.mem_cons.1 hmem with heq | hmem
          · exact hne heq.symm
          · exact hfront hmem
  · rintro ⟨rfl, hbefore⟩
    exact splitAtFirst?_append hbefore after

theorem splitAtFirst?_eq_none_iff {mark : Char} {text : Text} :
    splitAtFirst? mark text = none ↔ mark ∉ text := by
  induction text with
  | nil => simp [splitAtFirst?]
  | cons c rest ih =>
      rw [splitAtFirst?]
      split
      next heq => simp [heq]
      next hne => simp [ih, Ne.symm hne]

end Text

namespace Literal

-- ============================================================= the forms

/-- A numeral, taken apart. -/
structure Numeral where
  neg : Bool
  whole : Text
  /-- The digits behind the point, if there is a point. -/
  fraction : Option Text

/-- The text of a numeral. -/
def Numeral.text (numeral : Numeral) : Text :=
  (if numeral.neg then ['-'] else []) ++ numeral.whole
    ++ (numeral.fraction.map ('.' :: ·)).getD []

/-- There are digits in front of the point, and also behind it. -/
structure Numeral.Valid (numeral : Numeral) : Prop where
  whole : numeral.whole ≠ [] ∧ ∀ c ∈ numeral.whole, c.isDigit = true
  fraction : ∀ digits, numeral.fraction = some digits →
    digits ≠ [] ∧ ∀ c ∈ digits, c.isDigit = true

/-- A double is the nearest one to the number that a numeral stands for. -/
def Numeral.IsNearest (numeral : Numeral) (x : Double) : Prop :=
  Double.IsNearest numeral.neg
    (ofNumeral (numeral.whole ++ numeral.fraction.getD [])
      * Double.unitsPerOne)
    (power 10 (numeral.fraction.getD []).length) x

/-- A text between quotes. -/
def quotedText (body : Text) : Text := '\'' :: (body ++ ['\''])

/-- The items of a list by their bodies, from the first one to the bracket
that ends the list. -/
inductive ItemsOf : List Text → Text → Prop
  | last {body gap : Text} (hbody : '\'' ∉ body)
      (hgap : Text.isAllBlank gap = true) :
      ItemsOf [body] (quotedText body ++ gap ++ [']'])
  | more {body front back rest : Text} {bodies : List Text}
      (hbody : '\'' ∉ body)
      (hfront : Text.isAllBlank front = true)
      (hback : Text.isAllBlank back = true) (h : ItemsOf bodies rest) :
      ItemsOf (body :: bodies)
        (quotedText body ++ front ++ ',' :: (back ++ rest))

/-- A list by the bodies of its items. -/
inductive ListOf : List Text → Text → Prop
  | empty {gap : Text} (hgap : Text.isAllBlank gap = true) :
      ListOf [] ('[' :: (gap ++ [']']))
  | items {gap rest : Text} {bodies : List Text}
      (hgap : Text.isAllBlank gap = true)
      (h : ItemsOf bodies rest) : ListOf bodies ('[' :: (gap ++ rest))

/-- A text is a numeral. -/
def IsNumeral (text : Text) : Prop :=
  ∃ numeral : Numeral, numeral.Valid ∧ text = numeral.text

/-- A text is a body between quotes. -/
def IsQuoted (text : Text) : Prop :=
  ∃ body, '\'' ∉ body ∧ text = quotedText body

/-- A text is a list. -/
def IsList (text : Text) : Prop := ∃ bodies, ListOf bodies text

/-- A text is a run of letters, then one of digits, then one of letters,
the first not being empty. -/
def IsName (text : Text) : Prop :=
  ∃ letters digits more, Text.IdentifierParts letters digits more
    ∧ text = letters ++ digits ++ more

/-- The bodies between quotes in any text, from the left. A quote that is
not followed by another one begins no body. -/
def quotedBodies (text : Text) : List Text :=
  match text with
  | [] => []
  | c :: rest =>
    match _hfound : quoted? (c :: rest) with
    | some (body, after) => body :: quotedBodies after
    | none => quotedBodies rest
termination_by text.length
decreasing_by
  · exact quoted?_length _hfound
  · exact Nat.lt_succ_self _

-- ========================================================== first letters

theorem IsNumeral.head {text : Text} (h : IsNumeral text) :
    ∃ c rest, text = c :: rest ∧ (c = '-' ∨ c.isDigit = true) := by
  obtain ⟨⟨neg, whole, fraction⟩, ⟨⟨hne, hdigits⟩, -⟩, rfl⟩ := h
  cases neg with
  | true => exact ⟨'-', _, rfl, .inl rfl⟩
  | false =>
      cases whole with
      | nil => exact absurd rfl hne
      | cons c whole => exact ⟨c, _, rfl, .inr (hdigits c List.mem_cons_self)⟩

theorem IsQuoted.head {text : Text} (h : IsQuoted text) :
    ∃ rest, text = '\'' :: rest := by
  obtain ⟨body, -, rfl⟩ := h
  exact ⟨_, rfl⟩

theorem IsList.head {text : Text} (h : IsList text) :
    ∃ rest, text = '[' :: rest := by
  obtain ⟨bodies, hlist⟩ := h
  cases hlist with
  | empty hgap => exact ⟨_, rfl⟩
  | items hgap h => exact ⟨_, rfl⟩

theorem IsName.head {text : Text} (h : IsName text) :
    ∃ c rest, text = c :: rest ∧ isNameLetter c = true := by
  obtain ⟨letters, digits, more, hparts, rfl⟩ := h
  cases letters with
  | nil => exact absurd rfl hparts.ne_nil
  | cons c letters => exact ⟨c, _, rfl, hparts.letters c List.mem_cons_self⟩

theorem IsQuoted.not_isNumeral {text : Text} (h : IsQuoted text) :
    ¬ IsNumeral text := by
  intro hnumeral
  obtain ⟨rest, rfl⟩ := h.head
  obtain ⟨c, rest', heq, hc⟩ := hnumeral.head
  cases heq
  exact absurd hc (by decide)

theorem IsList.not_isNumeral {text : Text} (h : IsList text) :
    ¬ IsNumeral text := by
  intro hnumeral
  obtain ⟨rest, rfl⟩ := h.head
  obtain ⟨c, rest', heq, hc⟩ := hnumeral.head
  cases heq
  exact absurd hc (by decide)

theorem IsList.not_isQuoted {text : Text} (h : IsList text) :
    ¬ IsQuoted text := by
  intro hquoted
  obtain ⟨rest, rfl⟩ := h.head
  obtain ⟨rest', heq⟩ := hquoted.head
  cases heq

theorem IsName.not_isNumeral {text : Text} (h : IsName text) :
    ¬ IsNumeral text := by
  intro hnumeral
  obtain ⟨d, rest, rfl, hd⟩ := h.head
  obtain ⟨c, rest', heq, hc⟩ := hnumeral.head
  cases heq
  rcases hc with rfl | hc
  · exact absurd hd (by decide)
  · rw [Text.not_letter_of_digit hc] at hd
    cases hd

theorem IsName.not_isQuoted {text : Text} (h : IsName text) :
    ¬ IsQuoted text := by
  intro hquoted
  obtain ⟨d, rest, rfl, hd⟩ := h.head
  obtain ⟨rest', heq⟩ := hquoted.head
  cases heq
  exact absurd hd (by decide)

theorem IsName.not_isList {text : Text} (h : IsName text) : ¬ IsList text := by
  intro hlist
  obtain ⟨d, rest, rfl, hd⟩ := h.head
  obtain ⟨rest', heq⟩ := hlist.head
  cases heq
  exact absurd hd (by decide)

/-- No text has two of the forms. -/
theorem forms_disjoint (text : Text) :
    [IsNumeral text, IsQuoted text, IsList text, IsName text].Pairwise
      fun a b => ¬ (a ∧ b) := by
  simp only [List.pairwise_cons, List.mem_cons, List.not_mem_nil, or_false,
    forall_eq_or_imp, forall_eq, false_imp_iff, implies_true,
    List.Pairwise.nil, and_true]
  refine ⟨⟨?_, ?_, ?_⟩, ⟨?_, ?_⟩, ?_⟩
  · exact fun h => h.2.not_isNumeral h.1
  · exact fun h => h.2.not_isNumeral h.1
  · exact fun h => h.2.not_isNumeral h.1
  · exact fun h => h.2.not_isQuoted h.1
  · exact fun h => h.2.not_isQuoted h.1
  · exact fun h => h.2.not_isList h.1

-- ============================================================== numerals

theorem isDigits_iff {text : Text} :
    isDigits text = true ↔ text ≠ [] ∧ ∀ c ∈ text, c.isDigit = true := by
  simp [isDigits]

/-- The nearest double of a numeral is the one that the reader makes of
its digits. -/
theorem Numeral.isNearest_iff {numeral : Numeral} {x : Double} :
    numeral.IsNearest x ↔ x = Double.ofDecimal numeral.neg
      (ofNumeral (numeral.whole ++ numeral.fraction.getD []))
      (numeral.fraction.getD []).length :=
  Double.isNearest_iff (Nat.pow_pos (by decide))

/-- The reader of magnitudes accepts digits, perhaps with a point and
digits behind them. -/
theorem magnitude?_eq_some_iff {neg : Bool} {text : Text} {x : Double} :
    magnitude? neg text = some x
      ↔ ∃ whole fraction, Numeral.Valid ⟨neg, whole, fraction⟩
          ∧ text = whole ++ (fraction.map ('.' :: ·)).getD []
          ∧ Numeral.IsNearest ⟨neg, whole, fraction⟩ x := by
  unfold magnitude?
  constructor
  · intro h
    split at h
    next hpoint =>
      split at h
      next hdigits =>
        rw [Option.some.injEq] at h
        refine ⟨text, none,
          ⟨isDigits_iff.1 hdigits, fun _ h => by cases h⟩, ?_, ?_⟩
        · exact (List.append_nil text).symm
        · rw [Numeral.isNearest_iff, ← h]
          simp
      next => cases h
    next whole fraction hpoint =>
      obtain ⟨rfl, -⟩ := Text.splitAtFirst?_eq_some_iff.1 hpoint
      split at h
      next hdigits =>
        rw [Option.some.injEq] at h
        rw [Bool.and_eq_true] at hdigits
        refine ⟨whole, some fraction, ⟨isDigits_iff.1 hdigits.1, ?_⟩, rfl, ?_⟩
        · rintro digits heq
          cases heq
          exact isDigits_iff.1 hdigits.2
        · rw [Numeral.isNearest_iff, ← h]
          simp
      next => cases h
  · rintro ⟨whole, fraction, ⟨hwhole, hfraction⟩, rfl, hnearest⟩
    have hpoint : '.' ∉ whole :=
      fun hmem => absurd (hwhole.2 _ hmem) (by decide)
    rw [Numeral.isNearest_iff] at hnearest
    cases fraction with
    | none =>
        simp only [Option.map_none, Option.getD_none, List.append_nil,
          List.length_nil]
          at hnearest ⊢
        rw [Text.splitAtFirst?_eq_none_iff.2 hpoint]
        simp only [isDigits_iff.2 hwhole, if_true, hnearest]
    | some digits =>
        simp only [Option.map_some, Option.getD_some] at hnearest ⊢
        rw [Text.splitAtFirst?_append hpoint]
        simp only [isDigits_iff.2 hwhole,
          isDigits_iff.2 (hfraction digits rfl), Bool.and_self, if_true,
          hnearest]

/-- The reader of numbers accepts numerals, and makes of one the nearest
double. -/
theorem number?_eq_some_iff {text : Text} {x : Double} :
    number? text = some x
      ↔ ∃ numeral : Numeral,
        numeral.Valid ∧ text = numeral.text ∧ numeral.IsNearest x := by
  unfold number?
  constructor
  · intro h
    split at h
    next rest =>
      obtain ⟨whole, fraction, hvalid, rfl, hnearest⟩ :=
        magnitude?_eq_some_iff.1 h
      exact ⟨⟨true, whole, fraction⟩, hvalid, rfl, hnearest⟩
    next =>
      obtain ⟨whole, fraction, hvalid, rfl, hnearest⟩ :=
        magnitude?_eq_some_iff.1 h
      exact ⟨⟨false, whole, fraction⟩, hvalid, rfl, hnearest⟩
  · rintro ⟨⟨neg, whole, fraction⟩, hvalid, rfl, hnearest⟩
    have hread :=
      magnitude?_eq_some_iff.2 ⟨whole, fraction, hvalid, rfl, hnearest⟩
    cases neg with
    | true => exact hread
    | false =>
        split
        next rest heq =>
          -- a minus sign is no digit
          cases whole with
          | nil => exact absurd rfl hvalid.whole.1
          | cons c whole =>
              cases heq
              exact absurd (hvalid.whole.2 _ List.mem_cons_self) (by decide)
        next => exact hread

/-- The reader of numbers fails on nothing but what is no numeral. -/
theorem number?_eq_none_iff {text : Text} :
    number? text = none ↔ ¬ IsNumeral text := by
  rw [Option.eq_none_iff_forall_ne_some]
  constructor
  · rintro h ⟨numeral, hvalid, htext⟩
    exact h _ (number?_eq_some_iff.2
      ⟨numeral, hvalid, htext, Numeral.isNearest_iff.2 rfl⟩)
  · intro h x hx
    obtain ⟨numeral, hvalid, htext, -⟩ := number?_eq_some_iff.1 hx
    exact h ⟨numeral, hvalid, htext⟩

-- =============================================================== strings

/-- A quoted body at the head of a text. -/
theorem quoted?_eq_some_iff {text body rest : Text} :
    quoted? text = some (body, rest)
      ↔ '\'' ∉ body ∧ text = '\'' :: (body ++ '\'' :: rest) := by
  unfold quoted?
  split
  next tail =>
    rw [Text.splitAtFirst?_eq_some_iff, List.cons.injEq, and_comm]
    simp
  next hother =>
    constructor
    · intro h
      cases h
    · rintro ⟨-, rfl⟩
      exact absurd rfl (hother _)

/-- The reader of strings accepts a body between quotes. -/
theorem string?_eq_some_iff {text s : Text} :
    string? text = some s
      ↔ ∃ body, '\'' ∉ body ∧ text = quotedText body
        ∧ s = Text.expandEscapes body := by
  unfold string?
  constructor
  · intro h
    split at h
    next body hquoted =>
      cases h
      obtain ⟨hbody, rfl⟩ := quoted?_eq_some_iff.1 hquoted
      exact ⟨body, hbody, rfl, rfl⟩
    next => cases h
  · rintro ⟨body, hbody, rfl, rfl⟩
    rw [quotedText, quoted?_eq_some_iff.2 ⟨hbody, rfl⟩]

theorem string?_eq_none_iff {text : Text} :
    string? text = none ↔ ¬ IsQuoted text := by
  rw [Option.eq_none_iff_forall_ne_some]
  constructor
  · rintro h ⟨body, hbody, htext⟩
    exact h _ (string?_eq_some_iff.2 ⟨body, hbody, htext, rfl⟩)
  · intro h s hs
    obtain ⟨body, hbody, htext, -⟩ := string?_eq_some_iff.1 hs
    exact h ⟨body, hbody, htext⟩

-- ================================================================= lists

theorem quotedText_append (body rest : Text) :
    quotedText body ++ rest = '\'' :: (body ++ '\'' :: rest) := by
  simp [quotedText]

/-- The items of a list begin with a quote. -/
theorem ItemsOf.head {bodies : List Text} {text : Text}
    (h : ItemsOf bodies text) :
    ∃ rest, text = '\'' :: rest := by
  cases h with
  | last hbody hgap => exact ⟨_, rfl⟩
  | more hbody hfront hback h => exact ⟨_, rfl⟩

theorem ItemsOf.trimStart_eq {bodies : List Text} {text : Text}
    (h : ItemsOf bodies text) :
    Text.trimStart text = text := by
  obtain ⟨rest, rfl⟩ := h.head
  exact Text.trimStart_cons_of_not_blank rfl rest

/-- The items of a list are read as the bodies that they are made of. -/
theorem ItemsOf.items?_eq {bodies : List Text} {text : Text}
    (h : ItemsOf bodies text) :
    items? text = some (bodies.map Text.expandEscapes) := by
  induction h with
  | @last body gap hbody hgap =>
      have hquoted : quoted? (quotedText body ++ gap ++ [']'])
          = some (body, gap ++ [']']) := by
        rw [List.append_assoc, quotedText_append]
        exact quoted?_eq_some_iff.2 ⟨hbody, rfl⟩
      rw [items?_of_quoted hquoted, Text.trimStart_append_of_blank hgap]
      rfl
  | @more body front back rest bodies hbody hfront hback h ih =>
      have hquoted : quoted?
          (quotedText body ++ front ++ ',' :: (back ++ rest))
          = some (body, front ++ ',' :: (back ++ rest)) := by
        rw [List.append_assoc, quotedText_append]
        exact quoted?_eq_some_iff.2 ⟨hbody, rfl⟩
      have hcomma : Text.trimStart (',' :: (back ++ rest))
          = ',' :: (back ++ rest) :=
        Text.trimStart_cons_of_not_blank rfl _
      rw [items?_of_quoted hquoted,
        Text.trimStart_append_of_blank hfront, hcomma]
      simp only [Text.trimStart_append_of_blank hback, h.trimStart_eq, ih]
      rfl

/-- What is read as items is made of bodies. -/
theorem itemsOf_of_items? {text : Text} {items : List Text}
    (h : items? text = some items) :
    ∃ bodies, ItemsOf bodies text ∧ items = bodies.map Text.expandEscapes := by
  fun_induction items? text generalizing items with
  | case1 text hquoted => cases h
  | case2 text body rest hquoted htail =>
      cases h
      obtain ⟨hbody, rfl⟩ := quoted?_eq_some_iff.1 hquoted
      obtain ⟨gap, hgap, hrest⟩ := Text.exists_blank_append_trimStart rest
      rw [htail] at hrest
      refine ⟨[body], ?_, rfl⟩
      rw [hrest, ← quotedText_append, ← List.append_assoc]
      exact .last hbody hgap
  | case3 text body rest hquoted more htail ih =>
      obtain ⟨found, hfound, rfl⟩ := Option.map_eq_some_iff.1 h
      obtain ⟨bodies, hitems, rfl⟩ := ih hfound
      obtain ⟨hbody, rfl⟩ := quoted?_eq_some_iff.1 hquoted
      obtain ⟨front, hfront, hrest⟩ := Text.exists_blank_append_trimStart rest
      obtain ⟨back, hback, hmore⟩ := Text.exists_blank_append_trimStart more
      rw [htail, hmore] at hrest
      refine ⟨body :: bodies, ?_, rfl⟩
      rw [hrest, ← quotedText_append, ← List.append_assoc]
      exact .more hbody hfront hback hitems
  | case4 text body rest hquoted hbracket hcomma => cases h

/-- The reader of lists accepts lists. -/
theorem list?_eq_some_iff {text : Text} {items : List Text} :
    list? text = some items
      ↔ ∃ bodies, ListOf bodies text
        ∧ items = bodies.map Text.expandEscapes := by
  constructor
  · intro h
    unfold list? at h
    split at h
    next rest =>
      obtain ⟨gap, hgap, hrest⟩ := Text.exists_blank_append_trimStart rest
      split at h
      next htail =>
        cases h
        rw [hrest, htail]
        exact ⟨[], .empty hgap, rfl⟩
      next =>
        obtain ⟨bodies, hitems, hbodies⟩ := itemsOf_of_items? h
        rw [hrest]
        exact ⟨bodies, .items hgap hitems, hbodies⟩
    next => cases h
  · rintro ⟨bodies, hlist, rfl⟩
    cases hlist with
    | @empty gap hgap =>
        unfold list?
        simp only [Text.trimStart_append_of_blank hgap]
        rfl
    | @items gap rest bodies hgap h =>
        unfold list?
        simp only [Text.trimStart_append_of_blank hgap, h.trimStart_eq]
        split
        next =>
          obtain ⟨rest', heq⟩ := h.head
          cases heq
        next => exact h.items?_eq

theorem list?_eq_none_iff {text : Text} :
    list? text = none ↔ ¬ IsList text := by
  rw [Option.eq_none_iff_forall_ne_some]
  constructor
  · rintro h ⟨bodies, hlist⟩
    exact h _ (list?_eq_some_iff.2 ⟨bodies, hlist, rfl⟩)
  · intro h items hitems
    obtain ⟨bodies, hlist, -⟩ := list?_eq_some_iff.1 hitems
    exact h ⟨bodies, hlist⟩

-- ================================================================ bodies

/-- Before the first quote there is no body. -/
theorem quotedBodies_append {front : Text} (hfront : '\'' ∉ front)
    (text : Text) :
    quotedBodies (front ++ text) = quotedBodies text := by
  induction front with
  | nil => rfl
  | cons c front ih =>
      obtain ⟨hc, hrest⟩ := List.ne_and_not_mem_of_not_mem_cons hfront
      have hnone : quoted? (c :: (front ++ text)) = none := by
        unfold quoted?
        split
        next heq => exact absurd (List.cons.inj heq).1.symm hc
        next => rfl
      rw [List.cons_append, quotedBodies]
      split
      next hsome =>
        rw [hnone] at hsome
        cases hsome
      next => exact ih hrest

theorem quotedBodies_quoted {body : Text} (hbody : '\'' ∉ body) (rest : Text) :
    quotedBodies (quotedText body ++ rest) = body :: quotedBodies rest := by
  have hquoted : quoted? ('\'' :: (body ++ '\'' :: rest))
      = some (body, rest) :=
    quoted?_eq_some_iff.2 ⟨hbody, rfl⟩
  rw [quotedText_append, quotedBodies]
  split
  next hsome =>
    rw [hquoted] at hsome
    cases hsome
    rfl
  next hnone =>
    rw [hquoted] at hnone
    cases hnone

/-- The bodies of the items are what stands between quotes. -/
theorem ItemsOf.quotedBodies_eq {bodies : List Text} {text : Text}
    (h : ItemsOf bodies text) :
    quotedBodies text = bodies := by
  induction h with
  | @last body gap hbody hgap =>
      have hbracket : '\'' ∉ gap ++ [']'] := by
        have hquote := Text.not_mem_of_isAllBlank hgap (c := '\'') rfl
        simp [hquote]
      have hnothing := quotedBodies_append hbracket []
      rw [List.append_nil] at hnothing
      rw [List.append_assoc, quotedBodies_quoted hbody, hnothing, quotedBodies]
  | @more body front back rest bodies hbody hfront hback h ih =>
      have hcomma : '\'' ∉ front ++ ',' :: back := by
        have hquote := Text.not_mem_of_isAllBlank hfront (c := '\'') rfl
        have hquote' := Text.not_mem_of_isAllBlank hback (c := '\'') rfl
        simp [hquote, hquote']
      have hshape : quotedText body ++ front ++ ',' :: (back ++ rest)
          = quotedText body ++ ((front ++ ',' :: back) ++ rest) := by simp
      rw [hshape, quotedBodies_quoted hbody, quotedBodies_append hcomma, ih]

/-- The bodies of a list are what stands between quotes: none is lost,
none is added, and no two are taken for one. -/
theorem ListOf.quotedBodies_eq {bodies : List Text} {text : Text}
    (h : ListOf bodies text) :
    quotedBodies text = bodies := by
  cases h with
  | @empty gap hgap =>
      have hbracket : '\'' ∉ '[' :: (gap ++ [']']) := by
        have hquote := Text.not_mem_of_isAllBlank hgap (c := '\'') rfl
        simp [hquote]
      have hnothing := quotedBodies_append hbracket []
      rw [List.append_nil] at hnothing
      rw [hnothing, quotedBodies]
  | @items gap rest bodies hgap h =>
      have hbracket : '\'' ∉ '[' :: gap := by
        have hquote := Text.not_mem_of_isAllBlank hgap (c := '\'') rfl
        simp [hquote]
      rw [← List.cons_append, quotedBodies_append hbracket, h.quotedBodies_eq]

-- ============================================================ identifiers

/-- The reader of identifiers accepts the three runs. -/
theorem isIdentifier_iff {text : Text} :
    Text.isIdentifier text = true ↔ IsName text := by
  constructor
  · intro h
    unfold Text.isIdentifier at h
    split at h
    next found hfound =>
      obtain ⟨htext, letters, digits, more, hparts, rfl⟩ :=
        Text.parts_of_splitIdentifier? hfound
      rw [List.append_nil] at htext
      exact ⟨letters, digits, more, hparts, htext⟩
    next => cases h
  · rintro ⟨letters, digits, more, hparts, rfl⟩
    unfold Text.isIdentifier
    rw [hparts.splitIdentifier?_eq]

-- ============================================================ the reader

/-- Whatever the reader makes of a text, one of the recognisers has made. -/
theorem form_of_read? {text : Text} {literal : Literal}
    (h : read? text = some literal) :
    (∃ x, number? text = some x ∧ literal = .value (.number x))
      ∨ (∃ s, string? text = some s ∧ literal = .value (.string s))
      ∨ (∃ items, list? text = some items ∧ literal = .value (.list items))
      ∨ (IsName text ∧ literal = .reference text) := by
  unfold read? at h
  split at h
  next x hnumber =>
    rw [Option.some.injEq] at h
    exact .inl ⟨x, hnumber, h.symm⟩
  next =>
    split at h
    next s hstring =>
      cases h
      exact .inr (.inl ⟨s, hstring, rfl⟩)
    next =>
      split at h
      next items hlist =>
        cases h
        exact .inr (.inr (.inl ⟨items, hlist, rfl⟩))
      next =>
        split at h
        next hname =>
          cases h
          exact .inr (.inr (.inr ⟨isIdentifier_iff.1 hname, rfl⟩))
        next => cases h

theorem read?_of_number? {text : Text} {x : Double}
    (h : number? text = some x) :
    read? text = some (.value (.number x)) := by
  rw [read?, h]

-- The recognisers that are tried before the right one fail, since no text
-- has two forms.

theorem read?_of_string? {text s : Text} (h : string? text = some s) :
    read? text = some (.value (.string s)) := by
  obtain ⟨body, hbody, htext, -⟩ := string?_eq_some_iff.1 h
  have hquoted : IsQuoted text := ⟨body, hbody, htext⟩
  rw [read?, number?_eq_none_iff.2 hquoted.not_isNumeral, h]

theorem read?_of_list? {text : Text} {items : List Text}
    (h : list? text = some items) :
    read? text = some (.value (.list items)) := by
  obtain ⟨bodies, hbodies, -⟩ := list?_eq_some_iff.1 h
  have hlist : IsList text := ⟨bodies, hbodies⟩
  rw [read?, number?_eq_none_iff.2 hlist.not_isNumeral,
    string?_eq_none_iff.2 hlist.not_isQuoted, h]

theorem read?_of_isName {text : Text} (h : IsName text) :
    read? text = some (.reference text) := by
  rw [read?, number?_eq_none_iff.2 h.not_isNumeral,
    string?_eq_none_iff.2 h.not_isQuoted, list?_eq_none_iff.2 h.not_isList]
  simp only [isIdentifier_iff.2 h, if_true]

theorem read?_number_iff {text : Text} {x : Double} :
    read? text = some (.value (.number x)) ↔ number? text = some x := by
  refine ⟨fun h => ?_, read?_of_number?⟩
  obtain ⟨y, hy, heq⟩ | ⟨s, -, heq⟩ | ⟨items, -, heq⟩ | ⟨-, heq⟩ :=
    form_of_read? h
  all_goals cases heq
  exact hy

theorem read?_string_iff {text s : Text} :
    read? text = some (.value (.string s)) ↔ string? text = some s := by
  refine ⟨fun h => ?_, read?_of_string?⟩
  obtain ⟨y, -, heq⟩ | ⟨s, hs, heq⟩ | ⟨items, -, heq⟩ | ⟨-, heq⟩ :=
    form_of_read? h
  all_goals cases heq
  exact hs

theorem read?_list_iff {text : Text} {items : List Text} :
    read? text = some (.value (.list items)) ↔ list? text = some items := by
  refine ⟨fun h => ?_, read?_of_list?⟩
  obtain ⟨y, -, heq⟩ | ⟨s, -, heq⟩ | ⟨found, hfound, heq⟩ | ⟨-, heq⟩ :=
    form_of_read? h
  all_goals cases heq
  exact hfound

theorem read?_reference_iff {text name : Text} :
    read? text = some (.reference name) ↔ name = text ∧ IsName text := by
  constructor
  · intro h
    obtain ⟨y, -, heq⟩ | ⟨s, -, heq⟩ | ⟨items, -, heq⟩ | ⟨hname, heq⟩ :=
      form_of_read? h
    all_goals cases heq
    exact ⟨rfl, hname⟩
  · rintro ⟨rfl, hname⟩
    exact read?_of_isName hname

theorem read?_eq_none_iff {text : Text} :
    read? text = none
      ↔ ¬ IsNumeral text ∧ ¬ IsQuoted text ∧ ¬ IsList text
        ∧ ¬ IsName text := by
  constructor
  · intro h
    unfold read? at h
    split at h
    next => cases h
    next hnumber =>
      split at h
      next => cases h
      next hstring =>
        split at h
        next => cases h
        next hlist =>
          split at h
          next => cases h
          next hname =>
            exact ⟨number?_eq_none_iff.1 hnumber,
              string?_eq_none_iff.1 hstring, list?_eq_none_iff.1 hlist,
              fun h => hname (isIdentifier_iff.2 h)⟩
  · rintro ⟨hnumber, hstring, hlist, hname⟩
    rw [read?, number?_eq_none_iff.2 hnumber, string?_eq_none_iff.2 hstring,
      list?_eq_none_iff.2 hlist]
    exact if_neg fun h => hname (isIdentifier_iff.1 h)

/-- The reader of operands accepts four forms, of which no text has two,
and makes of each what the form stands for: of a numeral, always, the one
nearest double; of a quoted body the body with its escapes expanded; of a
list its bodies with theirs, which are the bodies that a search for pairs
of quotes finds; of an identifier a reference to the variable of that
name. It fails on every other text. -/
theorem read?_exact (text : Text) :
    [IsNumeral text, IsQuoted text, IsList text, IsName text].Pairwise
      (fun a b => ¬ (a ∧ b))
      ∧ (∀ x, read? text = some (.value (.number x))
          ↔ ∃ numeral : Numeral,
            numeral.Valid ∧ text = numeral.text ∧ numeral.IsNearest x)
      ∧ (IsNumeral text → ∃ x, read? text = some (.value (.number x)))
      ∧ (∀ s, read? text = some (.value (.string s))
          ↔ ∃ body, '\'' ∉ body ∧ text = quotedText body
            ∧ s = Text.expandEscapes body)
      ∧ (∀ items, read? text = some (.value (.list items))
          ↔ ∃ bodies, ListOf bodies text
            ∧ items = bodies.map Text.expandEscapes)
      ∧ (∀ bodies, ListOf bodies text → quotedBodies text = bodies)
      ∧ (∀ name, read? text = some (.reference name)
        ↔ name = text ∧ IsName text)
      ∧ (read? text = none
          ↔ ¬ IsNumeral text ∧ ¬ IsQuoted text ∧ ¬ IsList text
            ∧ ¬ IsName text) := by
  refine ⟨forms_disjoint text, fun x => ?_, fun hnumeral => ?_, fun s => ?_,
    fun items => ?_, fun bodies => ListOf.quotedBodies_eq,
    fun name => read?_reference_iff, read?_eq_none_iff⟩
  · exact read?_number_iff.trans number?_eq_some_iff
  · obtain ⟨x, hx⟩ :=
      Option.ne_none_iff_exists'.1 fun h => number?_eq_none_iff.1 h hnumeral
    exact ⟨x, read?_of_number? hx⟩
  · exact read?_string_iff.trans string?_eq_some_iff
  · exact read?_list_iff.trans list?_eq_some_iff

end Literal

end LineScript
