/-
Signatures by a pattern, and what they take.

A signature is made of its source by putting the source between the signs
for the two ends of a text, in brackets, and reading the result. That the
result can be read is all that is asked of it. Where the brackets of the
source pair off this is as good as reading the source and anchoring what
it says: the source is a pattern, and an argument text is taken exactly if
that pattern can match it from the first character to the last. Where the
source closes the bracket it was put in, it is no pattern itself, and the
signs for the two ends fall to different branches.

How a source falls into tokens is left to the library, whatever escapes,
classes and flags it has; what it is relied on for is `Lexicon.Lawful`.
-/
import LineScript.Proofs.PatternSearch
import LineScript.Proofs.PlainLexicon
import LineScript.Signature

set_option autoImplicit false

namespace LineScript

namespace Pattern

-- ================================================ statement vocabulary

/-- A source that can be cut into tokens, all its brackets in pairs. -/
def SelfContained [Lexicon] (source : Text) : Prop :=
  (tokens? source).isSome = true

-- =============================================================== anchors

variable {node : Node} {text rest : Text}

theorem isAt_textStart_iff (h : rest <:+ text) :
    Look.textStart.isAt text rest = true ↔ rest = text := by
  obtain ⟨front, rfl⟩ := h
  have hfront : (front ++ rest).length - rest.length = front.length := by
    rw [List.length_append, Nat.add_sub_cancel]
  rw [Look.isAt, Look.holds, charBefore?, hfront, List.take_left',
    Option.isNone_iff_eq_none, List.getLast?_eq_none_iff,
    List.self_eq_append_left]
  rfl

theorem isAt_textEnd_iff : Look.textEnd.isAt text rest = true ↔ rest = [] := by
  rw [Look.isAt, Look.holds, Option.isNone_iff_eq_none, List.head?_eq_none_iff]

/-- A pattern between the two ends of a text. -/
def Node.anchored (node : Node) : Node :=
  .sequence (.look .textStart) (.sequence node (.look .textEnd))

/-- A pattern between anchors may take a part of a text exactly if the
pattern alone can match the whole of it. -/
theorem Node.isSome_search_anchored_iff :
    (node.anchored.search text).isSome = true ↔ node.MatchesWhole text := by
  rw [isSome_search_iff]
  constructor
  · rintro ⟨rest, rest', hsuffix, start, ⟨hstart, rfl⟩, stop,
      htakes, hstop, rfl⟩
    obtain rfl := (isAt_textStart_iff hsuffix).1 hstart
    obtain rfl := isAt_textEnd_iff.1 hstop
    exact htakes
  · intro h
    have hsuffix := List.suffix_refl text
    exact ⟨text, [], hsuffix, text, ⟨(isAt_textStart_iff hsuffix).2 rfl, rfl⟩,
      [], h, isAt_textEnd_iff.2 rfl, rfl⟩

theorem Node.groups_anchored : node.anchored.groups = node.groups := by
  simp [anchored, groups]

end Pattern

namespace Signature

open Pattern (Lexicon SelfContained)

/-- A signature that is what its source says: the source is a pattern with
a group for every argument, and the signature takes the texts that the
pattern can match from the first character to the last. -/
def Anchored [Lexicon] (arity : Nat) (source : Text) (signature : Signature) :
    Prop :=
  ∃ pattern, Pattern.read? source = some pattern ∧ arity ≤ pattern.groups
    ∧ ∀ text, (∃ arguments, signature.extract text = .ok arguments)
      ↔ pattern.MatchesWhole text

variable {arity : Nat} {source : Text} {signature : Signature}
  {pattern : Pattern.Node}

theorem exists_extract_custom_iff {text : Text} :
    (∃ arguments, (custom arity pattern).extract text = .ok arguments)
      ↔ (pattern.search text).isSome = true := by
  rw [extract]
  cases pattern.search text with
  | none => simp
  | some found => simp

/-- A source whose brackets pair off makes no signature but the one that
the pattern it writes down makes between anchors. -/
theorem eq_custom_of_selfContained [Lexicon] [Lexicon.Lawful]
    (hown : SelfContained source)
    (h : ofPattern arity source = .ok signature) :
    ∃ pattern, Pattern.read? source = some pattern ∧ arity ≤ pattern.groups
      ∧ signature = .custom arity pattern.anchored := by
  obtain ⟨tokens, htokens⟩ := Option.isSome_iff_exists.1 hown
  unfold ofPattern at h
  split at h
  next => cases h
  next node hcompile =>
    obtain ⟨pattern, hread, rfl⟩ :=
      Pattern.read?_of_compile?_between_anchors htokens hcompile
    split at h
    next => cases h
    next hgroups =>
      cases h
      refine ⟨pattern, hread, ?_, rfl⟩
      rw [← Pattern.Node.groups_anchored]
      exact Nat.le_of_not_lt hgroups

end Signature

end LineScript
