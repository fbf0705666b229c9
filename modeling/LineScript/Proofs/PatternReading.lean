/-
Reading an expression with a bracket behind it.

Of a library of regular expressions little is relied on
(`Lexicon.Lawful`): the signs for the two ends of a text and the brackets
of a group are what they are, and no token but a comment is longer for a
closing bracket that comes behind it. So the tokens of an expression with a
bracket behind it are its own, and then those of what follows, unless it
ends in a comment, which takes the bracket in. Putting tokens together goes
on in the innermost open group and looks at the groups around it only
where one is closed; hence the groups around an expression do not matter to
it, provided that its brackets pair off.
-/
import LineScript.Pattern.Lexicon

set_option autoImplicit false

namespace LineScript

namespace Pattern

-- ================================================ statement vocabulary

/-- What a library of regular expressions is relied on for. -/
class Lexicon.Lawful [Lexicon] : Prop where
  /-- Without flags, `^` is the beginning of the text. -/
  startSign : ∀ rest, token? initial ('^' :: rest)
    = some (.look .textStart, initial, rest)
  /-- Without flags, `$` is the end of the text. -/
  endSign : ∀ rest, token? initial ('$' :: rest)
    = some (.look .textEnd, initial, rest)
  /-- `(?:` opens a group that is not remembered, and sets no flags. -/
  groupHead : ∀ rest, token? initial ('(' :: '?' :: ':' :: rest)
    = some (.opening .plain, initial, rest)
  /-- `)` closes a group, whatever the flags. -/
  groupEnd : ∀ flags rest, ∃ flags', token? flags (')' :: rest)
    = some (.closing, flags', rest)
  /-- A token is complete where it ends: an escape, a class, a repetition
  and the head of a group are not read on into a closing bracket. The one
  exception is a comment that has no line feed behind it yet. -/
  complete : ∀ {flags text token flags' rest},
    token? flags text = some (token, flags', rest) →
      (∀ behind, token? flags (text ++ ')' :: behind)
        = some (token, flags', rest ++ ')' :: behind))
      ∨ (token = .skipped ∧ rest = [] ∧ ∀ behind, '\n' ∉ behind →
        token? flags (text ++ ')' :: behind) = some (.skipped, flags', []))

-- ================================================================ tokens

section

variable [Lexicon] {text : Text} {modes modes' : Modes} {flags : Lexicon.Flags}
  {token : Token} {fuel : Nat} {tokens : List Token}

/-- Flags with those around one more group. -/
def Modes.within (modes : Modes) (outer : Lexicon.Flags) : Modes :=
  { modes with around := modes.around ++ [outer] }

theorem after?_within (h : modes.after? flags token = some modes')
    (outer : Lexicon.Flags) :
    (modes.within outer).after? flags token = some (modes'.within outer) := by
  obtain ⟨here, around⟩ := modes
  cases token with
  | opening grouping => cases h; rfl
  | closing =>
      cases around with
      | nil => cases h
      | cons first around => cases h; rfl
  | one set => cases h; rfl
  | look look => cases h; rfl
  | bar => cases h; rfl
  | repeated least most greedy => cases h; rfl
  | setting => cases h; rfl
  | skipped => cases h; rfl

/-- The first token of an expression, and the others. -/
theorem tokensWithin_cons_eq_some {c : Char} {rest : Text}
    (h : tokensWithin (fuel + 1) modes (c :: rest) = some tokens) :
    ∃ token flags after modes' later, Lexicon.token? modes.here (c :: rest)
        = some (token, flags, after)
      ∧ modes.after? flags token = some modes'
      ∧ tokensWithin fuel modes' after = some later
      ∧ tokens = token :: later := by
  rw [tokensWithin] at h
  split at h
  next => cases h
  next token flags after htoken =>
    split at h
    next => cases h
    next modes' hafter =>
      obtain ⟨later, hlater, heq⟩ := Option.map_eq_some_iff.1 h
      exact ⟨token, flags, after, modes', later, htoken, hafter,
        hlater, heq.symm⟩

theorem tokensWithin_nil_eq_some
    (h : tokensWithin fuel modes [] = some tokens) :
    tokens = [] ∧ modes.around = [] := by
  rw [tokensWithin] at h
  split at h
  next hempty => exact ⟨(Option.some.inj h).symm, List.isEmpty_iff.1 hempty⟩
  next => cases h

theorem length_le_of_tokensWithin
    (h : tokensWithin fuel modes text = some tokens) :
    tokens.length ≤ fuel := by
  induction fuel generalizing modes text tokens with
  | zero =>
      cases text with
      | nil =>
          rw [(tokensWithin_nil_eq_some h).1]
          exact Nat.le_refl 0
      | cons c rest => cases h
  | succ fuel ih =>
      cases text with
      | nil =>
          rw [(tokensWithin_nil_eq_some h).1]
          exact Nat.zero_le _
      | cons c rest =>
          obtain ⟨_, _, _, _, _, -, -, hlater, rfl⟩ :=
            tokensWithin_cons_eq_some h
          exact Nat.succ_le_succ (ih hlater)

variable [Lexicon.Lawful]

/-- In a group, the tokens of a closing bracket and what follows it. -/
theorem tokensWithin_groupEnd (here outer : Lexicon.Flags) (behind : Text)
    (more : Nat) :
    tokensWithin (more + 1) ⟨here, [outer]⟩ (')' :: behind)
      = (tokensWithin more ⟨outer, []⟩ behind).map (.closing :: ·) := by
  obtain ⟨flags', hclosing⟩ := Lexicon.Lawful.groupEnd here behind
  rw [tokensWithin, hclosing]
  rfl

/-- Behind the end of an expression in a group the bracket is next. -/
theorem tokensWithin_nil_append (h : tokensWithin fuel modes [] = some tokens)
    (outer : Lexicon.Flags) (behind : Text) (more : Nat) :
    tokensWithin (tokens.length + (more + 1)) (modes.within outer)
      (')' :: behind)
      = (tokensWithin more ⟨outer, []⟩ behind).map
        (tokens ++ .closing :: ·) := by
  obtain ⟨htokens, haround⟩ := tokensWithin_nil_eq_some h
  rw [htokens, Modes.within, haround, List.length_nil, Nat.zero_add]
  exact tokensWithin_groupEnd modes.here outer behind more

/-- The tokens of an expression in a group are its own, the bracket that
closes the group, and those of what follows. If it ends in a comment, the
group is not closed. -/
theorem tokensWithin_append (h : tokensWithin fuel modes text = some tokens)
    (outer : Lexicon.Flags) {behind : Text} (hfeed : '\n' ∉ behind)
    (more : Nat) :
    tokensWithin (tokens.length + (more + 1)) (modes.within outer)
      (text ++ ')' :: behind)
        = (tokensWithin more ⟨outer, []⟩ behind).map (tokens ++ .closing :: ·)
      ∨ tokensWithin (tokens.length + (more + 1)) (modes.within outer)
        (text ++ ')' :: behind) = none := by
  induction fuel generalizing modes text tokens with
  | zero =>
      cases text with
      | nil => exact .inl (tokensWithin_nil_append h outer behind more)
      | cons c rest => cases h
  | succ fuel ih =>
      cases text with
      | nil => exact .inl (tokensWithin_nil_append h outer behind more)
      | cons c rest =>
          obtain ⟨token, flags, after, modes', later, htoken, hafter, hlater,
            rfl⟩ := tokensWithin_cons_eq_some h
          have hwithin := after?_within hafter outer
          rw [List.length_cons, Nat.add_right_comm, List.cons_append,
            tokensWithin, ← List.cons_append]
          rcases Lexicon.Lawful.complete htoken with hsteady | ⟨-, -, hcomment⟩
          · have hsteady : Lexicon.token? (modes.within outer).here
                (c :: rest ++ ')' :: behind)
                  = some (token, flags, after ++ ')' :: behind) :=
              hsteady behind
            simp only [hsteady, hwithin]
            rcases ih hlater with hgoes | hends
            · left
              rw [hgoes, Option.map_map]
              rfl
            · right
              rw [hends]
              rfl
          · -- the comment takes in what is behind, and the group stays open
            have hcomment : Lexicon.token? (modes.within outer).here
                (c :: rest ++ ')' :: behind) = some (.skipped, flags, []) :=
              hcomment behind hfeed
            have hopen : tokensWithin (later.length + (more + 1))
                { modes.within outer with here := flags } [] = none := by
              rw [tokensWithin, if_neg]
              simp [Modes.within]
            right
            simp only [hcomment, Modes.after?, hopen]
            rfl

end

-- ============================================================ assembling

/-- Whether every closing bracket among tokens closes a group that was
opened among them, or one of `opened` groups before. -/
def closesOwn (opened : Nat) : List Token → Bool
  | [] => true
  | .opening _ :: tokens => closesOwn (opened + 1) tokens
  | .closing :: tokens => opened != 0 && closesOwn (opened - 1) tokens
  | .one _ :: tokens | .look _ :: tokens | .bar
      :: tokens | .repeated _ _ _ :: tokens
  | .setting :: tokens | .skipped :: tokens => closesOwn opened tokens

/-- The brackets of an expression pair off. -/
theorem closesOwn_of_tokensWithin [Lexicon] {fuel : Nat} {modes : Modes}
    {text : Text} {tokens : List Token}
    (h : tokensWithin fuel modes text = some tokens) :
    closesOwn modes.around.length tokens = true := by
  induction fuel generalizing modes text tokens with
  | zero =>
      cases text with
      | nil => rw [(tokensWithin_nil_eq_some h).1]; rfl
      | cons c rest => cases h
  | succ fuel ih =>
      cases text with
      | nil => rw [(tokensWithin_nil_eq_some h).1]; rfl
      | cons c rest =>
          obtain ⟨token, flags, after, modes', later, -, hafter,
            hlater, rfl⟩ :=
            tokensWithin_cons_eq_some h
          have hlater := ih hlater
          cases token with
          | opening grouping => cases hafter; exact hlater
          | closing =>
              rw [Modes.after?] at hafter
              split at hafter
              next => cases hafter
              next outer around haround =>
                cases hafter
                rw [haround]
                exact hlater
          | one set => cases hafter; exact hlater
          | look look => cases hafter; exact hlater
          | bar => cases hafter; exact hlater
          | repeated least most greedy => cases hafter; exact hlater
          | setting => cases hafter; exact hlater
          | skipped => cases hafter; exact hlater

/-- A pattern under construction with further open groups around it. -/
def Assembly.within (assembly : Assembly) (around : List (Option Nat × Part)) :
    Assembly :=
  { assembly with outer := assembly.outer ++ around }

section

variable {assembly assembly' : Assembly} {around : List (Option Nat × Part)}
  {token : Token} {tokens : List Token}

/-- A token does the same with further groups around, unless it closes one
of them. -/
theorem take_within (h : token = .closing → assembly.outer ≠ []) :
    (assembly.within around).take token
      = (assembly.take token).map (·.within around) := by
  obtain ⟨inner, outer, groups, names⟩ := assembly
  cases token with
  | one set => rfl
  | look look => rfl
  | bar => rfl
  | opening grouping =>
      cases grouping with
      | plain => rfl
      | numbered => rfl
      | named name =>
          by_cases hname : name ∈ names
          · simp [Assembly.take, Assembly.begin?, Assembly.within, hname]
          · simp [Assembly.take, Assembly.begin?, Assembly.within, hname]
  | closing =>
      cases outer with
      | nil => exact absurd rfl (h rfl)
      | cons first outer => rfl
  | repeated least most greedy =>
      simp only [Assembly.take, Assembly.within, Option.map_map]
      rfl
  | setting => rfl
  | skipped => rfl

/-- How many groups are open is a matter of the brackets alone. -/
theorem closesOwn_cons_of_take (h : assembly.take token = some assembly')
    (tokens : List Token) :
    closesOwn assembly.outer.length (token :: tokens)
      = closesOwn assembly'.outer.length tokens := by
  cases token with
  | one set => cases h; rfl
  | look look => cases h; rfl
  | bar => cases h; rfl
  | opening grouping =>
      cases grouping with
      | plain => cases h; rfl
      | numbered => cases h; rfl
      | named name =>
          simp only [Assembly.take, Assembly.begin?] at h
          split at h
          · cases h
          · cases h; rfl
  | closing =>
      rw [Assembly.take, Assembly.end?] at h
      cases houter : assembly.outer with
      | nil => simp only [houter] at h; cases h
      | cons first outer =>
          simp only [houter] at h
          cases h
          rfl
  | repeated least most greedy =>
      obtain ⟨part, -, rfl⟩ := Option.map_eq_some_iff.1 h
      rfl
  | setting => cases h; rfl
  | skipped => cases h; rfl

/-- Tokens that close no group but their own do the same with further groups
around. -/
theorem foldlM_within (h : closesOwn assembly.outer.length tokens = true) :
    tokens.foldlM Assembly.take (assembly.within around)
      = (tokens.foldlM Assembly.take assembly).map (·.within around) := by
  induction tokens generalizing assembly with
  | nil => rfl
  | cons token tokens ih =>
      have hclosing : token = .closing → assembly.outer ≠ [] := by
        intro htoken hnil
        rw [htoken, hnil] at h
        cases h
      rw [List.foldlM_cons, List.foldlM_cons, take_within hclosing]
      cases htake : assembly.take token with
      | none => rfl
      | some between =>
          rw [closesOwn_cons_of_take htake] at h
          exact ih h

/-- Tokens whose brackets pair off, put together between the signs for the
two ends of a text. -/
theorem assemble?_between_anchors (hown : closesOwn 0 tokens = true) :
    assemble? (.look .textStart :: .opening .plain
      :: (tokens ++ [.closing, .look .textEnd]))
      = (assemble? tokens).map fun node =>
        .sequence (.look .textStart) (.sequence node (.look .textEnd)) := by
  have hstart : (Token.look .textStart :: .opening .plain ::
        (tokens ++ [.closing, .look .textEnd])).foldlM Assembly.take {}
      = (tokens ++ [Token.closing, .look .textEnd]).foldlM Assembly.take
          (({} : Assembly).within
            [(none, { items := [.look .textStart], repeatable := true })]) :=
          rfl
  have hinner : closesOwn ({} : Assembly).outer.length tokens = true := hown
  unfold assemble?
  rw [hstart, List.foldlM_append, foldlM_within hinner]
  cases tokens.foldlM Assembly.take {} with
  | none => rfl
  | some assembly =>
      obtain ⟨inner, outer, groups, names⟩ := assembly
      cases outer with
      | nil => rfl
      | cons first outer => cases outer <;> rfl

end

-- =============================================================== reading

section

variable [Lexicon] [Lexicon.Lawful] {text : Text} {tokens : List Token}
  {node : Node}

/-- The tokens of an expression between the signs for the two ends of a
text. If it ends in a comment there are none. -/
theorem tokens?_between_anchors (h : tokens? text = some tokens) :
    tokens? ("^(?:".toList ++ text ++ ")$".toList)
        = some (.look .textStart :: .opening .plain
          :: (tokens ++ [.closing, .look .textEnd]))
      ∨ tokens? ("^(?:".toList ++ text ++ ")$".toList) = none := by
  obtain ⟨spare, hspare⟩ :=
    Nat.exists_eq_add_of_le (length_le_of_tokensWithin h)
  have hsource : "^(?:".toList ++ text ++ ")$".toList
      = '^' :: '(' :: '?' :: ':' :: (text ++ ')' :: ['$']) := by
    simp
  have hfuel : ('^' :: '(' :: '?' :: ':' :: (text ++ ')' :: ['$'])).length
      = tokens.length + (spare + 3 + 1) + 1 + 1 := by
    simp only [List.length_cons, List.length_append, List.length_nil]
    omega
  have hlast : tokensWithin (spare + 3) (⟨Lexicon.initial, []⟩ : Modes) ['$']
      = some [.look .textEnd] := by
    rw [tokensWithin, Lexicon.Lawful.endSign]
    rfl
  have hfeed : '\n' ∉ ['$'] := by decide
  have hhead : ∀ fuel, tokensWithin (fuel + 1 + 1) {}
        ('^' :: '(' :: '?' :: ':' :: (text ++ ')' :: ['$']))
      = (tokensWithin fuel (({} : Modes).within Lexicon.initial)
          (text ++ ')' :: ['$'])).map
            (.look .textStart :: .opening .plain :: ·) := by
    intro fuel
    simp only [tokensWithin, Lexicon.Lawful.startSign, Modes.after?,
      Lexicon.Lawful.groupHead, Option.map_map]
    rfl
  rw [hsource, tokens?, hfuel, hhead]
  rcases tokensWithin_append h Lexicon.initial hfeed
    (spare + 3) with happend | hopen
  · left
    rw [happend, hlast]
    rfl
  · right
    rw [hopen]
    rfl

/-- What a library takes between the signs for the two ends of a text, if
the brackets of the text pair off: the pattern that the text writes down,
between its anchors. -/
theorem read?_of_compile?_between_anchors
    (htokens : tokens? text = some tokens)
    (h : compile? ("^(?:".toList ++ text ++ ")$".toList) = some node) :
    ∃ inner, read? text = some inner
      ∧ node = .sequence (.look .textStart)
        (.sequence inner (.look .textEnd)) := by
  obtain ⟨all, hall, hassemble⟩ := Option.bind_eq_some_iff.1 h
  obtain ⟨hall, -⟩ := Option.filter_eq_some_iff.1 hall
  rcases tokens?_between_anchors htokens with hsome | hnone
  · obtain rfl := Option.some.inj (hall.symm.trans hsome)
    rw [assemble?_between_anchors (closesOwn_of_tokensWithin htokens)]
      at hassemble
    obtain ⟨inner, hinner, heq⟩ := Option.map_eq_some_iff.1 hassemble
    exact ⟨inner, by rw [read?, htokens]; exact hinner, heq.symm⟩
  · rw [hnone] at hall
    cases hall

end

end Pattern

end LineScript
