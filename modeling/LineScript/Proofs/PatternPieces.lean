/-
What the pieces of patterns prefer to take.

Which match a search finds is said of whole patterns (`Node.Prefers`). Here
it is said of the pieces that the patterns of the language are made of, so
that their matches can be put together from left to right: a piece is
preferred to take what it does on condition that what is left then leads
on, and that the pieces behind it see to (`prefers_sequence`).

A run of characters is as long or as short as it is preferred
(`prefers_ofSet`). Where a greedy run takes all it can, that is so whatever
comes behind (`prefers_run`): names, and mostly white space, are of this
kind.
-/
import LineScript.Proofs.JumpPatterns
import LineScript.Proofs.PatternPreference

set_option autoImplicit false

namespace LineScript

open Literal (IsName)

namespace Pattern

-- ============================================================== searches

/-- What a group matched is read off the texts of all groups. -/
theorem group_eq {found : Thread} {texts : GroupTexts}
    (h : found.groups = texts) (index : Nat) :
    found.group index = (texts.lookup index).getD [] := by
  rw [Thread.group, h]

/-- Something is read off what a search finds, if both are possible under
the same condition. -/
theorem Node.eq_bind_search {α : Type} {node : Node} {text : Text}
    {result : Option α} {read : Thread → Option α} (Fits : Prop)
    (hfound : ∀ found, node.search text = some found → Fits)
    (hresult : ∀ value, result = some value → Fits)
    (hfits : Fits → ∃ found, node.search text = some found
      ∧ result = read found) :
    result = (node.search text).bind read := by
  by_cases h : Fits
  · obtain ⟨found, hsearch, hread⟩ := hfits h
    rw [hsearch, hread]
    rfl
  · have hsearch : node.search text = none :=
      Option.eq_none_iff_forall_ne_some.2 fun found hsome =>
        h (hfound found hsome)
    rw [hsearch]
    exact Option.eq_none_iff_forall_ne_some.2 fun value hsome =>
      h (hresult value hsome)

-- ==================================================== runs of characters

section Runs

variable {text rest rest' taken : Text} {goal : Text → Prop} {set : CharSet}
  {p : Char → Bool} {count least : Nat} {greedy : Bool}

theorem CharSet.has_any {c : Char} :
    (CharSet.named .any false).has c = true ↔ (c != '\n') = true := by
  simp [CharSet.has, named, SetItem.has, CharClass.has]

theorem forall_bne_feed (h : '\n' ∉ text) : ∀ c ∈ text, (c != '\n') = true :=
  fun _ hc => bne_iff_ne.2 fun hfeed => h (hfeed ▸ hc)

theorem rounds_one_iff :
    Rounds ((Node.one set).Takes text) count rest rest'
      ↔ ∃ taken, taken.length = count ∧ (∀ c ∈ taken, set.has c = true)
        ∧ rest = taken ++ rest' := by
  rw [Finding.rounds_iff fun _ _ => Node.takes_iff]
  simp only [Node.Reads.rounds_one_iff, exists_eq_left]

theorem anyRounds_one_iff :
    AnyRounds ((Node.one set).Takes text) rest rest'
      ↔ ∃ taken, (∀ c ∈ taken, set.has c = true) ∧ rest = taken ++ rest' := by
  simp only [AnyRounds, rounds_one_iff]
  constructor
  · rintro ⟨_, taken, -, htaken⟩
    exact ⟨taken, htaken⟩
  · rintro ⟨taken, htaken⟩
    exact ⟨_, taken, rfl, htaken⟩

theorem prefers_rounds_one (hlength : taken.length = count)
    (hall : ∀ c ∈ taken, set.has c = true) (hgoal : goal rest) :
    Preference.rounds ((Node.one set).Takes text) ((Node.one set).Prefers text)
      count goal (taken ++ rest) rest [] := by
  induction taken generalizing count with
  | nil =>
      subst hlength
      exact ⟨hgoal, rfl, rfl⟩
  | cons c taken ih =>
      subst hlength
      obtain ⟨hc, hlater⟩ := List.forall_mem_cons.1 hall
      have hleads : Leads
          (Rounds ((Node.one set).Takes text) taken.length) goal
          (taken ++ rest) :=
        ⟨rest, rounds_one_iff.2 ⟨taken, rfl, hlater, rfl⟩, hgoal⟩
      exact ⟨taken ++ rest, [], [], ⟨c, hc, rfl, rfl, hleads⟩,
        ih rfl hlater, rfl⟩

/-- A run that is as long or as short as it is preferred. -/
theorem repeats_one (hall : ∀ c ∈ taken, set.has c = true) (hgoal : goal rest)
    (hwanted : ∀ front back, taken = front ++ back → back ≠ [] →
      greedy = true ∨ ¬ goal (back ++ rest))
    (hlast : ∀ more behind, more ≠ [] → (∀ c ∈ more, set.has c = true) →
      rest = more ++ behind → greedy = true → ¬ goal behind) :
    Preference.Repeats ((Node.one set).Takes text)
      ((Node.one set).Prefers text)
      greedy goal (taken ++ rest) rest [] := by
  induction taken with
  | nil =>
      refine .leave hgoal fun hgreedy hleads => ?_
      obtain ⟨between, ⟨c, hc, hrest⟩, behind, hany, hbehind⟩ := hleads
      obtain ⟨more, hmore, rfl⟩ := anyRounds_one_iff.1 hany
      exact hlast (c :: more) behind (List.cons_ne_nil _ _)
        (List.forall_mem_cons.2 ⟨hc, hmore⟩) hrest hgreedy hbehind
  | cons c taken ih =>
      obtain ⟨hc, hlater⟩ := List.forall_mem_cons.1 hall
      have hleads : Leads (AnyRounds ((Node.one set).Takes text)) goal
          (taken ++ rest) :=
        ⟨rest, anyRounds_one_iff.2 ⟨taken, hlater, rfl⟩, hgoal⟩
      have hmore := ih hlater fun front back htaken =>
        hwanted (c :: front) back (congrArg (c :: ·) htaken)
      exact .enter (hwanted [] _ rfl (List.cons_ne_nil _ _))
        ⟨c, hc, rfl, rfl, hleads⟩ hmore

/-- A run of at least so many characters of a set. A shorter one is not
preferred if the run is greedy or if less does not lead to the goal, and a
longer one is not preferred if it is not greedy or more does not. -/
theorem prefers_ofSet (hset : ∀ c, set.has c = true ↔ p c = true)
    (hall : ∀ c ∈ taken, p c = true) (hleast : least ≤ taken.length)
    (hwanted : ∀ front back, taken = front ++ back → least ≤ front.length →
      back ≠ [] → greedy = true ∨ ¬ goal (back ++ rest))
    (hlast : ∀ more behind, more ≠ [] → (∀ c ∈ more, p c = true) →
      rest = more ++ behind → greedy = true → ¬ goal behind)
    (hgoal : goal rest) :
    (Node.repetition (.one set) least none greedy).Prefers text goal
      (taken ++ rest) rest [] := by
  simp only [← hset] at hall hlast
  have hlength : (taken.take least).length = least :=
    List.length_take_of_le hleast
  have hlater : ∀ c ∈ taken.drop least, set.has c = true :=
    fun c hc => hall c (List.mem_of_mem_drop hc)
  have hleads : Leads (AnyRounds ((Node.one set).Takes text)) goal
      (taken.drop least ++ rest) :=
    ⟨rest, anyRounds_one_iff.2 ⟨_, hlater, rfl⟩, hgoal⟩
  have hsplit : taken ++ rest
      = taken.take least ++ (taken.drop least ++ rest) := by
    rw [← List.append_assoc, List.take_append_drop]
  rw [hsplit]
  refine ⟨taken.drop least ++ rest, [], [], ?_,
    repeats_one hlater hgoal ?_ hlast, rfl⟩
  · exact prefers_rounds_one hlength
      (fun c hc => hall c (List.mem_of_mem_take hc)) hleads
  · intro front back htaken hback
    refine hwanted (taken.take least ++ front) back ?_ ?_ hback
    · rw [List.append_assoc, ← htaken, List.take_append_drop]
    · rw [List.length_append, hlength]
      exact Nat.le_add_right _ _

/-- A greedy run behind which no further character of its set stands is
preferred whatever the goal is. -/
theorem prefers_run (hset : ∀ c, set.has c = true ↔ p c = true)
    (hall : ∀ c ∈ taken, p c = true) (hleast : least ≤ taken.length)
    (hend : ∀ c ∈ rest.head?, p c = false) (hgoal : goal rest) :
    (Node.repetition (.one set) least none true).Prefers text goal
      (taken ++ rest) rest [] := by
  refine prefers_ofSet hset hall hleast (fun _ _ _ _ _ => .inl rfl) ?_ hgoal
  rintro more behind hne hmore rfl
  cases more with
  | nil => exact absurd rfl hne
  | cons c more =>
      have hc := hend c rfl
      rw [hmore c List.mem_cons_self] at hc
      cases hc

end Runs

-- ================================================================ pieces

namespace Node

variable {node first second : Node} {text rest rest' between taken name : Text}
  {goal : Text → Prop} {earlier later texts : GroupTexts} {asked : Look}

theorem prefers_sequence
    (h : Leads (second.Takes text) goal between →
      first.Prefers text (Leads (second.Takes text) goal) rest between earlier)
    (h' : second.Prefers text goal between rest' later) :
    (sequence first second).Prefers text goal rest rest'
      (later ++ earlier) := by
  obtain ⟨htakes, hgoal⟩ := second.sound_prefers _ _ _ _ h'
  exact ⟨between, earlier, later, h ⟨rest', htakes, hgoal⟩, h', rfl⟩

theorem prefers_look (h : asked.isAt text rest = true) (hgoal : goal rest) :
    (look asked).Prefers text goal rest rest [] :=
  ⟨h, rfl, rfl, hgoal⟩

/-- From the beginning of a text. -/
theorem prefers_fromStart (h : node.Prefers text goal text rest' texts) :
    (sequence (look .textStart) node).Prefers text goal text rest' texts := by
  have hwhole := prefers_sequence
    (prefers_look ((isAt_textStart_iff (List.suffix_refl text)).2 rfl)) h
  rwa [List.append_nil] at hwhole

theorem prefers_textEnd (text : Text) :
    (look .textEnd).Prefers text (fun _ => True) [] [] [] :=
  prefers_look (isAt_textEnd_iff.2 rfl) trivial

theorem prefers_one {set : CharSet} {c : Char} (hc : set.has c = true)
    (hgoal : goal rest) : (one set).Prefers text goal (c :: rest) rest [] :=
  ⟨c, hc, rfl, rfl, hgoal⟩

theorem prefers_single (c : Char) (hgoal : goal rest) :
    (one (.single c)).Prefers text goal (c :: rest) rest [] :=
  prefers_one (CharSet.has_single.2 rfl) hgoal

theorem prefers_group (index : Nat)
    (h : node.Prefers text goal (taken ++ rest) rest texts) :
    (group index node).Prefers text goal (taken ++ rest) rest
      ((index, taken) :: texts) :=
  ⟨texts, h, by simp⟩

/-- No more rounds lead to the goal where it is met. -/
theorem leads_noRounds (takes : Text → Text → Prop) (goal : Text → Prop) :
    Leads (RoundsUpTo takes 0) goal = goal := by
  funext rest
  simp [Leads, RoundsUpTo, Rounds]

/-- What may be left out is not left out if it leads to the goal. -/
theorem prefers_optional (h : node.Prefers text goal rest rest' texts) :
    (repetition node 0 (some 1) true).Prefers text goal rest rest' texts := by
  obtain ⟨htakes, hgoal⟩ := node.sound_prefers _ _ _ _ h
  have honce : RoundsUpTo (node.Takes text) 1 rest rest' :=
    ⟨1, Nat.le_refl 1, rest', htakes, rfl⟩
  rw [← leads_noRounds (node.Takes text) goal] at h
  refine ⟨rest, [], texts, ⟨⟨rest', honce, hgoal⟩, rfl, rfl⟩,
    .inl ⟨.inl rfl, ?_⟩, (List.append_nil texts).symm⟩
  exact ⟨rest', texts, [], h, ⟨hgoal, rfl, rfl⟩, rfl⟩

theorem prefers_without (hgoal : goal rest)
    (h : ¬ Leads (node.Takes text) goal rest) :
    (repetition node 0 (some 1) true).Prefers text goal rest rest [] := by
  rw [← leads_noRounds (node.Takes text) goal] at h
  refine ⟨rest, [], [], ⟨⟨rest, ⟨0, Nat.zero_le 1, rfl⟩, hgoal⟩, rfl, rfl⟩,
    .inr ⟨hgoal, fun _ => h, rfl, rfl⟩, rfl⟩

theorem prefers_blanks (htaken : Text.isAllBlank taken = true)
    (hend : ∀ c ∈ rest.head?, isBlank c = false) (hgoal : goal rest) :
    blanks.Prefers text goal (taken ++ rest) rest [] :=
  prefers_run (fun c => by rw [CharSet.has_blank])
    (Text.isAllBlank_iff.1 htaken) (Nat.zero_le _) hend hgoal

/-- A name is taken whole. Where it has no digits, all of its letters are
taken at once. -/
theorem prefers_name (hname : IsName name)
    (hend : ∀ c ∈ rest.head?, isNameChar c = false) (hgoal : goal rest) :
    Node.name.Prefers text goal (name ++ rest) rest [] := by
  obtain ⟨letters, digits, more, hparts, hnone, rfl⟩ : ∃ letters digits more,
      Text.IdentifierParts letters digits more ∧ (digits = [] → more = [])
        ∧ name = letters ++ digits ++ more := by
    obtain ⟨letters, digits, more, hparts, rfl⟩ := hname
    cases digits with
    | cons d digits => exact ⟨letters, d :: digits, more, hparts, nofun, rfl⟩
    | nil =>
        refine ⟨letters ++ more, [], [], ⟨?_, ?_, nofun, nofun⟩,
          fun _ => rfl, by simp⟩
        · exact List.append_ne_nil_of_left_ne_nil hparts.ne_nil more
        · intro c hc
          rcases List.mem_append.1 hc with hc | hc
          · exact hparts.letters c hc
          · exact hparts.more c hc
  have hletter : ∀ c ∈ rest.head?, isNameLetter c = false
      ∧ c.isDigit = false := by
    intro c hc
    simpa [isNameChar] using hend c hc
  have hdigits : ∀ c ∈ (more ++ rest).head?, c.isDigit = false := by
    intro c hc
    cases more with
    | nil => exact (hletter c hc).2
    | cons d more =>
        obtain rfl : d = c := Option.some.inj hc
        exact Text.not_digit_of_letter (hparts.more d List.mem_cons_self)
  have hletters : ∀ c ∈ (digits ++ (more ++ rest)).head?,
      isNameLetter c = false := by
    intro c hc
    cases digits with
    | nil =>
        rw [hnone rfl] at hc
        exact (hletter c hc).1
    | cons d digits =>
        obtain rfl : d = c := Option.some.inj hc
        exact Text.not_letter_of_digit (hparts.digits d List.mem_cons_self)
  have hmore : (run .letters).Prefers text goal (more ++ rest) rest [] :=
    prefers_run (fun c => CharSet.has_letters) hparts.more (Nat.zero_le _)
      (fun c hc => (hletter c hc).1) hgoal
  have hnumber := prefers_sequence (prefers_run (fun c => CharSet.has_digits)
    hparts.digits (Nat.zero_le _) hdigits) hmore
  have hname := prefers_sequence (prefers_run (fun c => CharSet.has_letters)
    hparts.letters (List.length_pos_of_ne_nil hparts.ne_nil) hletters) hnumber
  rw [List.append_assoc, List.append_assoc]
  exact hname

theorem prefers_labelName (hname : Text.isLabelName name = true)
    (hend : ∀ c ∈ rest.head?, isNameChar c = false) (hgoal : goal rest) :
    labelName.Prefers text goal (name ++ rest) rest [] := by
  cases name with
  | nil => cases hname
  | cons c name =>
      obtain ⟨hletter, hchars⟩ := Text.isLabelName_cons_iff.1 hname
      have hlater : (run .nameChars).Prefers text goal
          (name ++ rest) rest [] :=
        prefers_run (fun c => CharSet.has_nameChars) hchars
          (Nat.zero_le _) hend hgoal
      exact prefers_sequence
        (prefers_one (CharSet.has_letters.2 hletter)) hlater

theorem leads_textEnd :
    Leads ((look .textEnd).Takes text) (fun _ => True) = fun rest =>
      rest = [] := by
  funext rest
  simp [Leads, Takes, isAt_textEnd_iff]

/-- A pattern between anchors finds what it prefers in the whole text. -/
theorem search_anchored_of_prefers (hunnested : node.unnested = true)
    (h : node.Prefers text (fun rest => rest = []) text [] texts) :
    ∃ found, node.anchored.search text = some found
      ∧ found.groups = texts := by
  have hanchored : node.anchored.unnested = true := by
    simp only [anchored, unnested, hunnested, Bool.and_true]
  rw [← leads_textEnd] at h
  exact search_of_prefers hanchored
    (prefers_fromStart (prefers_sequence (fun _ => h) (prefers_textEnd text)))

theorem takes_blanks_iff :
    blanks.Takes text rest rest'
      ↔ ∃ taken, Text.isAllBlank taken = true ∧ rest = taken ++ rest' := by
  rw [takes_iff]
  simp [Reads.blanks text rest rest', Form.plain]

theorem leads_blanks :
    Leads (blanks.Takes text) (fun rest => rest = [])
      = fun rest => Text.isAllBlank rest = true := by
  funext rest
  simp [Leads, takes_blanks_iff]

/-- A name and a comma with white space around the name. -/
theorem prefers_nameComma {behind : Node} {front back : Text} (index : Nat)
    (hname : IsName name) (hfront : Text.isAllBlank front = true)
    (hback : Text.isAllBlank back = true)
    (h : behind.Prefers text goal rest rest' texts) :
    (nameComma index behind).Prefers text goal
      (front ++ (name ++ (back ++ ',' :: rest))) rest'
      (texts ++ [(index, name)]) := by
  obtain ⟨hne, hchars⟩ := Text.isNameChar_of_isLabelName hname.isLabelName
  have hstart : ∀ c ∈ (name ++ (back ++ ',' :: rest)).head?,
      isBlank c = false := by
    rw [List.head?_append_of_ne_nil _ hne]
    exact fun c hc =>
      (Text.plain_of_nameChars hchars).2 c (List.mem_of_mem_head? hc)
  have hend : ∀ c ∈ (back ++ ',' :: rest).head?, isNameChar c = false :=
    Text.not_nameChar_of_head? hback fun c hc => by
      cases hc
      rfl
  have hcomma := prefers_sequence (prefers_single ',') h
  have hgap := prefers_sequence
    (prefers_blanks hback fun c hc => by cases hc; rfl) hcomma
  have hgroup := prefers_sequence
    (fun hleads => prefers_group index (prefers_name hname hend hleads)) hgap
  have hwhole : (nameComma index behind).Prefers text goal _ rest' _ :=
    prefers_sequence (prefers_blanks hfront hstart) hgroup
  simpa using hwhole

namespace Reads

variable {node : Node} {form : Form}

theorem optional (h : node.Reads form) :
    (repetition node 0 (some 1) true).Reads fun taken found =>
      (taken = [] ∧ found = []) ∨ form taken found := by
  intro text rest rest' found
  constructor
  · rintro ⟨count, ⟨-, hbound⟩, hrounds⟩
    have hcount : count ≤ 1 := hbound 1 rfl
    cases count with
    | zero =>
        obtain ⟨rfl, rfl⟩ := hrounds
        exact ⟨[], .inl ⟨rfl, rfl⟩, rfl⟩
    | succ count =>
        obtain rfl : count = 0 := Nat.le_zero.1 (Nat.le_of_succ_le_succ hcount)
        obtain ⟨_, earlier, _, hround, ⟨rfl, rfl⟩, rfl⟩ := hrounds
        obtain ⟨taken, hform, hrest⟩ := (h _ _ _ _).1 hround
        exact ⟨taken, .inr hform, hrest⟩
  · rintro ⟨taken, ⟨rfl, rfl⟩ | hform, rfl⟩
    · exact ⟨0, ⟨Nat.le_refl 0, fun _ _ => Nat.zero_le _⟩, rfl, rfl⟩
    · refine ⟨1, ⟨Nat.zero_le 1, fun _ hbound => ?_⟩,
        ⟨rest', found, [], (h _ _ _ _).2 ⟨taken, hform, rfl⟩, ⟨rfl, rfl⟩, rfl⟩⟩
      cases hbound
      exact Nat.le_refl 1

end Reads

end Node

end Pattern

end LineScript
