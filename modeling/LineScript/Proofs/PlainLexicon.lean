/-
The plain lexicon is one that can be relied on.

No token of it is longer for a closing bracket that comes behind it: what
is cut off a text stays the same when the text goes on with one (`Steady`).
That goes from the readers of escapes, sets and counts to the reader of
tokens. The plain lexicon has no comments, so that there is no exception.
-/
import LineScript.Pattern.Plain
import LineScript.Proofs.Lexing
import LineScript.Proofs.PatternReading

set_option autoImplicit false

namespace LineScript

namespace Pattern

/-- A reader that takes the same off a text, and leaves as much, if a
closing bracket comes behind the text. -/
def Steady {α : Type} (read : Text → Option (α × Text)) (text : Text) : Prop :=
  ∀ a rest, read text = some (a, rest) →
    ∀ behind, read (text ++ ')' :: behind) = some (a, rest ++ ')' :: behind)

variable {text : Text}

theorem item?_of_ne {c : Char} (h : c ≠ '\\') (rest : Text) :
    item? (c :: rest) = some (.range c c, rest) := by
  rw [item?]
  · exact fun d more hc _ => h hc
  · exact fun hc _ => h hc

theorem steady_item? (text : Text) : Steady item? text := by
  intro item rest h behind
  cases text with
  | nil => cases h
  | cons c tail =>
      by_cases hc : c = '\\'
      · subst hc
        cases tail with
        | nil => cases h
        | cons d after =>
            rw [item?] at h
            obtain ⟨found, hfound, heq⟩ := Option.map_eq_some_iff.1 h
            cases heq
            rw [List.cons_append, List.cons_append, item?, hfound]
            rfl
      · rw [item?_of_ne hc] at h
        cases h
        rw [List.cons_append, item?_of_ne hc]

/-- A closing bracket begins no joining of sets, and ends none. -/
theorem startsSetOperation_append (c : Char) (tail behind : Text) :
    startsSetOperation (c :: tail ++ ')' :: behind)
      = startsSetOperation (c :: tail) := by
  by_cases hc : c = '['
  · subst hc
    rfl
  · cases tail with
    | nil =>
        rw [List.cons_append, List.nil_append]
        unfold startsSetOperation
        split <;> simp_all
    | cons d tail =>
        rw [List.cons_append, List.cons_append]
        unfold startsSetOperation
        split <;> split <;> simp_all

/-- The items of a set whose first item has just been read. -/
def itemsAfter? (first : SetItem) : Text → Option (List SetItem × Text)
  | '-' :: rest =>
    if rest.head? = some ']' ∨ rest.head? = some '-' then
      (items? ('-' :: rest)).map fun found => (first :: found.1, found.2)
    else
      (item? rest).bind fun second =>
        (rangeBetween? first second.1).bind fun range =>
        (items? second.2).map fun found => (range :: found.1, found.2)
  | rest => (items? rest).map fun found => (first :: found.1, found.2)

theorem items?_cons {c : Char} (h : c ≠ ']') (tail : Text) :
    items? (c :: tail) = if startsSetOperation (c :: tail) then none
      else (item? (c :: tail)).bind fun first =>
        itemsAfter? first.1 first.2 := by
  rw [items?]
  · split
    · rfl
    · cases hitem : item? (c :: tail) with
      | none => simp
      | some found =>
          obtain ⟨first, rest⟩ := found
          cases rest with
          | nil => simp [itemsAfter?]
          | cons d rest =>
              by_cases hd : d = '-'
              · subst hd
                by_cases hhead : rest.head? = some ']' ∨ rest.head? = some '-'
                · simp [itemsAfter?, hhead]
                · simp only [itemsAfter?, hhead, Option.bind_some, ↓reduceIte]
                  split
                  next hsecond =>
                    rw [hsecond]
                    simp
                  next second rest' hsecond =>
                    rw [hsecond]
                    cases hrange : rangeBetween? first second with
                    | none => simp [hrange]
                    | some range => simp [hrange]
              · simp [itemsAfter?, hd]
  · exact h

theorem Steady.map {α β : Type} {read : Text → Option (α × Text)}
    (h : Steady read text) (f : α → β) :
    Steady (fun text => (read text).map fun found => (f found.1, found.2))
      text := by
  intro b rest hread behind
  obtain ⟨⟨a, after⟩, ha, heq⟩ := Option.map_eq_some_iff.1 hread
  obtain ⟨rfl, rfl⟩ := Prod.mk.inj heq
  simp only [h a after ha behind]
  rfl

theorem steady_itemsAfter? (first : SetItem) (rest : Text)
    (h : ∀ text : Text, text.length ≤ rest.length → Steady items? text) :
    Steady (itemsAfter? first) rest := by
  have hplain : Steady
      (fun rest => (items? rest).map fun found => (first :: found.1, found.2))
      rest := (h rest (Nat.le_refl _)).map (first :: ·)
  have hafter : ∀ {c : Char} {rest : Text}, c ≠ '-' →
      itemsAfter? first (c :: rest)
      = (items? (c :: rest)).map fun found => (first :: found.1, found.2) := by
    intro c rest hc
    rw [itemsAfter?]
    intro more hmore
    exact hc (List.cons.inj hmore).1
  intro items after hread behind
  cases rest with
  | nil =>
      rw [itemsAfter?, items?] at hread
      · cases hread
      · exact fun more hmore => List.cons_ne_nil _ _ hmore.symm
  | cons c rest =>
      by_cases hc : c = '-'
      · subst hc
        -- an item follows the minus sign, so what comes next is the same
        -- either way
        cases rest with
        | nil => simp [itemsAfter?, item?] at hread
        | cons d rest =>
            rw [itemsAfter?, List.head?_cons] at hread
            rw [List.cons_append, List.cons_append, itemsAfter?,
              List.head?_cons, ← List.cons_append, ← List.cons_append]
            split at hread
            next hhead =>
              rw [if_pos hhead]
              exact hplain items after hread behind
            next hhead =>
              rw [if_neg hhead]
              obtain ⟨⟨second, rest'⟩, hitem, hrange⟩ :=
                Option.bind_eq_some_iff.1 hread
              obtain ⟨range, hrange, hitems⟩ :=
                Option.bind_eq_some_iff.1 hrange
              have hless := item?_length hitem
              have hshort : rest'.length ≤ ('-' :: d :: rest).length := by
                simp only [List.length_cons] at hless ⊢
                omega
              have hsteady :=
                (h rest' hshort).map (range :: ·) items after hitems behind
              rw [steady_item? _ _ _ hitem behind]
              simp only [Option.bind_some, hrange]
              exact hsteady
      · rw [hafter hc] at hread
        rw [List.cons_append, hafter hc, ← List.cons_append]
        exact hplain items after hread behind

theorem steady_items? (text : Text) : Steady items? text := by
  induction hlength : text.length using Nat.strongRecOn generalizing text with
  | ind length ih =>
      intro items rest h behind
      cases text with
      | nil => rw [items?] at h; cases h
      | cons c tail =>
          by_cases hc : c = ']'
          · subst hc
            rw [items?] at h
            cases h
            rw [List.cons_append, items?]
          · rw [items?_cons hc] at h
            rw [List.cons_append, items?_cons hc, ← List.cons_append,
              startsSetOperation_append]
            split at h
            · cases h
            · obtain ⟨⟨first, after⟩, hitem, hafter⟩ :=
                Option.bind_eq_some_iff.1 h
              have hless := item?_length hitem
              have hsteady : Steady (itemsAfter? first) after :=
                steady_itemsAfter? first after fun shorter hshorter =>
                  ih shorter.length (by omega) shorter rfl
              rw [if_neg ‹_›, steady_item? _ _ _ hitem behind]
              exact hsteady items rest hafter behind

theorem complementSign_append (text behind : Text) :
    complementSign (text ++ ')' :: behind)
      = ((complementSign text).1,
        (complementSign text).2 ++ ')' :: behind) := by
  cases text with
  | nil => rfl
  | cons c rest =>
      by_cases hc : c = '^'
      · subst hc
        rfl
      · simp [complementSign, hc]

theorem leadingMinus_append (text behind : Text) :
    leadingMinus (text ++ ')' :: behind)
      = ((leadingMinus text).1, (leadingMinus text).2 ++ ')' :: behind) := by
  induction text with
  | nil => rfl
  | cons c rest ih =>
      by_cases hc : c = '-'
      · subst hc
        rw [List.cons_append, leadingMinus, ih]
        rfl
      · simp [leadingMinus, hc]

theorem leadingBracket_append (minus : List SetItem) (text behind : Text) :
    leadingBracket minus (text ++ ')' :: behind)
      = ((leadingBracket minus text).1,
        (leadingBracket minus text).2 ++ ')' :: behind) := by
  cases minus with
  | cons item minus => rfl
  | nil =>
      cases text with
      | nil => rfl
      | cons c rest =>
          by_cases hc : c = ']'
          · subst hc
            rfl
          · simp [leadingBracket, hc]

theorem set?_eq (text : Text) :
    set? text
      = (items? (leadingBracket (leadingMinus (complementSign text).2).1
          (leadingMinus (complementSign text).2).2).2).map
        fun (items, rest) =>
          (⟨(leadingBracket (leadingMinus (complementSign text).2).1
            (leadingMinus (complementSign text).2).2).1 ++ items,
            (complementSign text).1⟩, rest) :=
  rfl

theorem steady_set? (text : Text) : Steady set? text := by
  intro set rest h behind
  rw [set?_eq] at h
  obtain ⟨⟨items, after⟩, hitems, heq⟩ := Option.map_eq_some_iff.1 h
  obtain ⟨rfl, rfl⟩ := Prod.mk.inj heq
  rw [set?_eq, complementSign_append, leadingMinus_append,
    leadingBracket_append, steady_items? _ _ _ hitems behind]
  rfl

/-- A count ends where there is neither a digit nor white space. -/
theorem count?_append (text behind : Text) :
    count? (text ++ ')' :: behind)
      = (count? text).map fun found =>
        (found.1, found.2 ++ ')' :: behind) := by
  have htrim : ∀ text,
      Text.trimStart (text ++ ')' :: behind)
        = Text.trimStart text ++ ')' :: behind :=
    fun text => Text.dropWhile_append_cons (by decide) text behind
  have hdigit : Char.isDigit ')' = false := by decide
  unfold count?
  simp only [htrim, Text.takeWhile_append_cons hdigit,
    Text.dropWhile_append_cons hdigit]
  split
  · rfl
  · rfl

theorem steady_bounds? (text : Text) : Steady bounds? text := by
  intro bounds rest h behind
  unfold bounds? at h
  split at h
  next => cases h
  next least after hcount =>
    cases h
    rw [bounds?, count?_append, hcount]
    rfl
  next least after hcount =>
    cases h
    rw [bounds?, count?_append, hcount]
    rfl
  next least after hcomma hcount =>
    split at h
    next most after' hmost =>
      split at h
      next hle =>
        cases h
        have hnext : ∀ more, after ++ ')' :: behind = '}' :: more → False := by
          intro more heq
          cases after with
          | nil => cases heq
          | cons d after => exact hcomma after (by rw [(List.cons.inj heq).1])
        have hmost' : count? (after ++ ')' :: behind)
            = some (most, '}' :: rest ++ ')' :: behind) := by
          rw [count?_append, hmost]
          rfl
        rw [bounds?, count?_append, hcount]
        simp [hmost', hle]
      next => cases h
    next => cases h
  next => cases h

theorem steady_repetition (least : Nat) (most : Option Nat)
    (text behind : Text) :
    repetition least most (text ++ ')' :: behind)
      = ((repetition least most text).1,
        (repetition least most text).2 ++ ')' :: behind) := by
  cases text with
  | nil => rfl
  | cons c rest =>
      by_cases hc : c = '?'
      · subst hc
        rfl
      · simp [repetition, greediness, hc]

/-- A closing bracket is no brace. -/
theorem escapedToken?_append (c : Char) (rest behind : Text) :
    escapedToken? c (rest ++ ')' :: behind) = escapedToken? c rest := by
  have hhead : (rest ++ ')' :: behind).head? = some '{'
      ↔ rest.head? = some '{' := by
    cases rest with
    | nil => simp
    | cons d rest => rfl
  simp only [escapedToken?, hhead]

theorem steady_token? (text : Text) : Steady token? text := by
  intro token rest h behind
  unfold token? at h
  -- the rows of the reader, in their order
  split at h
  · cases h
  · split at h
    next c after =>
      obtain ⟨found, hfound, heq⟩ := Option.map_eq_some_iff.1 h
      cases heq
      rw [List.cons_append, List.cons_append, token?,
        escapedToken?_append, hfound]
      rfl
    next => cases h
  · cases h; rfl
  · cases h; rfl
  · cases h; rfl
  · cases h; rfl
  · cases h; rfl
  · cases h; rfl
  · cases h
  next after hnotopen hnoflag =>
    cases h
    cases rest with
    | nil => rfl
    | cons d rest =>
        have hd : d ≠ '?' := fun heq => hnoflag rest (by rw [heq])
        simp [token?, hd]
  next after =>
    have heq := Option.some.inj h
    rw [List.cons_append, token?, steady_repetition, heq]
  next after =>
    have heq := Option.some.inj h
    rw [List.cons_append, token?, steady_repetition, heq]
  next after =>
    have heq := Option.some.inj h
    rw [List.cons_append, token?, steady_repetition, heq]
  next after =>
    obtain ⟨⟨⟨least, most⟩, after'⟩, hbounds, heq⟩ :=
      Option.map_eq_some_iff.1 h
    simp only at heq
    rw [List.cons_append, token?, steady_bounds? _ _ _ hbounds behind,
      Option.map_some]
    simp only [steady_repetition, heq]
  next after =>
    obtain ⟨⟨set, after'⟩, hset, heq⟩ := Option.map_eq_some_iff.1 h
    obtain ⟨rfl, rfl⟩ := Prod.mk.inj heq
    rw [List.cons_append, token?, steady_set? _ _ _ hset behind]
    rfl
  next c after _ _ _ _ _ _ _ _ hopen _ _ _ _ _ =>
    cases h
    rw [List.cons_append, token?]
    case x_7 => exact fun _ hc => (hopen hc).elim
    case x_8 => exact fun _ hc => (hopen hc).elim
    all_goals assumption

instance : @Lexicon.Lawful Lexicon.plain where
  startSign _ := rfl
  endSign _ := rfl
  groupHead _ := rfl
  groupEnd _ _ := ⟨(), rfl⟩
  complete := by
    intro flags text token flags' rest h
    obtain ⟨⟨found, after⟩, hfound, heq⟩ := Option.map_eq_some_iff.1 h
    cases heq
    left
    intro behind
    exact Option.map_eq_some_iff.2
      ⟨_, steady_token? text _ _ hfound behind, rfl⟩

end Pattern

end LineScript
