/-
Trailing comments are invisible.

A comment is taken off a line in two places that know nothing of one
another. On a label line it is the recogniser of labels that allows for
it; on a line of the language it is the hook that cuts it off, once it
has counted the quotes in front. And a line may become one of another
kind when something is put behind it: a blank line becomes a comment.

What matters of a line is the same with a comment and without
(`Engine.ReadAlike`): the label that it defines, and what remains of it
up to white space at its end. That a line is read alike with a comment
behind it is about the line and the comment (`readAlike_append_remark`).
The rest is about any two scripts whose lines are read alike: their label
tables are one table (`ScriptsAlike.readFrom`), and their listings are
embedded in one another line by line (`ScriptsAlike.embedding`). Since it
is known exactly what preparing a script leaves behind, no second pass
over the lines is needed for that, and runs of embedded listings have
been simulated already.
-/
import LineScript.Proofs.History
import LineScript.Proofs.Lexing
import LineScript.Proofs.Preparation

set_option autoImplicit false

namespace LineScript

variable {σ η : Type}

-- ============================================== a comment behind a line

namespace Line

variable {marker : Text}

/-- Where a line has no comment none begins behind a label name. -/
theorem startsWith_label_tail (hmarker : CommentMarker marker)
    {blanks name after : Text}
    (hblanks : Text.isAllBlank blanks = true)
    (hname : ∀ c ∈ name, isNameChar c = true)
    (hnone : beforeComment? marker false
      (blanks ++ ':' :: (name ++ after)) = none) :
    Text.startsWith (Text.trimStart after) marker = false := by
  obtain ⟨blanks', hblanks', hafter⟩ :=
    Text.exists_blank_append_trimStart after
  have hsplit : blanks ++ ':' :: (name ++ after)
      = (blanks ++ ':' :: (name ++ blanks')) ++ Text.trimStart after := by
    calc blanks ++ ':' :: (name ++ after)
        = blanks ++ ':' :: (name ++ (blanks' ++ Text.trimStart after)) := by
          rw [← hafter]
      _ = (blanks ++ ':' :: (name ++ blanks')) ++ Text.trimStart after := by
          simp
  have hfront : '\'' ∉ blanks ++ ':' :: (name ++ blanks') := by
    intro hmem
    simp only [List.mem_append, List.mem_cons] at hmem
    rcases hmem with hmem | heq | hmem | hmem
    · exact Text.not_mem_of_isAllBlank hblanks rfl hmem
    · exact absurd heq (by decide)
    · exact absurd (hname _ hmem) (by decide)
    · exact Text.not_mem_of_isAllBlank hblanks' rfl hmem
  rw [hsplit] at hnone
  exact startsWith_eq_false_of_append hmarker.ne_nil hmarker.quote_not_mem
    hfront hnone

section

variable {line remark : Text} (hmarker : CommentMarker marker)
  (hremark : Remark marker remark)

include hmarker hremark

/-- A marker that begins in a line ends there. -/
theorem startsWith_append_remark (text : Text) :
    Text.startsWith (text ++ remark) marker = Text.startsWith text marker := by
  obtain ⟨d, rest, hd, rfl⟩ := hremark.exists_cons
  exact Text.startsWith_append_cons (hmarker.not_mem_of_blank hd) text rest

/-- What may stand behind the name on a label line: nothing, or, if there
is a comment, nothing but that. -/
theorem label_tail_append_remark {after : Text}
    (hstart : Text.startsWith (Text.trimStart after) marker = false) :
    ('\n' ∉ Text.trimStart (after ++ remark)
      ∧ ((Text.trimStart (after ++ remark)).isEmpty
        ∨ Text.startsWith (Text.trimStart (after ++ remark)) marker))
      ↔ ('\n' ∉ Text.trimStart after ∧ ((Text.trimStart after).isEmpty
        ∨ Text.startsWith (Text.trimStart after) marker)) := by
  by_cases htail : Text.trimStart after = []
  · obtain ⟨text, htext, hfeedText⟩ := hremark.trimStart_eq hmarker
    rw [Text.trimStart_append_of_blank (Text.trimStart_eq_nil_iff.1 htail),
      htail, htext]
    simp [hfeedText]
  · rw [Text.trimStart_append htail,
      startsWith_append_remark hmarker hremark, hstart]
    simp [htail]

/-- A comment makes no label of a line and takes none from it. -/
theorem label?_append_remark (hnone : beforeComment? marker false line = none)
    (hbody : Text.trimStart line ≠ []) :
    label? marker (line ++ remark) = label? marker line := by
  obtain ⟨blanks, hblanks, hline⟩ := Text.exists_blank_append_trimStart line
  obtain ⟨d, rest, hd, hcons⟩ := hremark.exists_cons
  unfold label?
  rw [Text.trimStart_append hbody]
  cases hstart : Text.trimStart line with
  | nil => exact absurd hstart hbody
  | cons c body =>
      by_cases hc : c = ':'
      · subst hc
        simp only [List.cons_append]
        rw [hcons,
          Text.splitLabelName?_append (isNameChar_of_isBlank hd), ← hcons]
        cases hname : Text.splitLabelName? body with
        | none => rfl
        | some found =>
            -- what is behind the name decides, and no comment begins there
            obtain ⟨name, after⟩ := found
            obtain ⟨rfl, hchars⟩ := Text.append_of_splitLabelName? hname
            rw [hline, hstart] at hnone
            have htail := startsWith_label_tail hmarker hblanks hchars hnone
            simp only [Option.map_some]
            rw [if_congr
              (label_tail_append_remark hmarker hremark htail) rfl rfl]
      · simp only [List.cons_append]
        split
        next heq => exact absurd (List.cons.inj heq).1 hc
        next =>
          split
          next heq => exact absurd (List.cons.inj heq).1 hc
          next => rfl

/-- The kind of a line with a comment behind it. -/
theorem classify_append_remark
    (hnone : beforeComment? marker false line = none) :
    classify marker line ≠ .comment
      ∧ classify marker (line ++ remark)
          = if classify marker line = .empty then .comment
            else classify marker line := by
  obtain ⟨blanks, hblanks, hline⟩ := Text.exists_blank_append_trimStart line
  have hblanksQuote : '\'' ∉ blanks := Text.not_mem_of_isAllBlank hblanks rfl
  rw [hline] at hnone
  have hstart :=
    startsWith_eq_false_of_append hmarker.ne_nil hmarker.quote_not_mem
    hblanksQuote hnone
  rw [← hline] at hnone
  by_cases hbody : Text.trimStart line = []
  · obtain ⟨text, htext, -⟩ := hremark.trimStart_eq hmarker
    have hempty : classify marker line = .empty := by
      unfold classify
      rw [hbody]
      rfl
    have hne : (marker ++ text).isEmpty = false := by
      rw [List.isEmpty_eq_false_iff]
      exact List.append_ne_nil_of_left_ne_nil hmarker.ne_nil text
    constructor
    · rw [hempty]
      exact LineKind.noConfusion
    · rw [hempty, if_pos rfl, classify, Text.trimStart_append_of_blank
        (Text.trimStart_eq_nil_iff.1 hbody), htext, hne,
        Text.startsWith_append_self]
      rfl
  · have hclass := classify_eq_elim hbody hstart
    have hclass' : classify marker (line ++ remark)
        = (label? marker line).elim .other .label := by
      have hbody' : Text.trimStart (line ++ remark)
          = Text.trimStart line ++ remark :=
        Text.trimStart_append hbody remark
      rw [← label?_append_remark hmarker hremark hnone hbody]
      apply classify_eq_elim
      · rw [hbody']
        exact List.append_ne_nil_of_left_ne_nil hbody remark
      · rw [hbody', startsWith_append_remark hmarker hremark, hstart]
    rw [hclass', hclass]
    cases label? marker line with
    | some name => simp
    | none => simp

end

end Line

-- ====================================================== lines read alike

namespace Engine

/-- Two lines of which the same is left when a script is read: the label,
and up to white space at the end what remains of them. -/
structure ReadAlike (engine : Engine σ) (raw raw' : Text) : Prop where
  label : ∀ name, engine.kind raw' = .label name
    ↔ engine.kind raw = .label name
  remains : Text.trimEnd (engine.remains raw')
    = Text.trimEnd (engine.remains raw)

theorem ReadAlike.refl (engine : Engine σ) (raw : Text) :
    engine.ReadAlike raw raw :=
  ⟨fun _ => Iff.rfl, rfl⟩

/-- A line is read alike with a comment behind it. -/
theorem readAlike_append_remark {engine : Engine σ} {line remark : Text}
    (hmarker : Line.CommentMarker engine.settings.marker)
    (hremark : Line.Remark engine.settings.marker remark)
    (heven : Even (line.count '\''))
    (hnone : Line.stripComment? engine.settings.marker line = none) :
    engine.ReadAlike line (line ++ remark) := by
  have hscan : Line.Passes engine.settings.marker false line false :=
    ⟨Option.map_eq_none_iff.1 hnone, Line.quotedAfter_eq_iff.2 heven⟩
  have hkind : engine.kind (line ++ remark)
      = if engine.kind line = .empty then .comment else engine.kind line :=
    (Line.classify_append_remark hmarker hremark hscan.none).2
  constructor
  · intro name
    rw [hkind]
    split
    next hempty => simp [hempty]
    next => exact Iff.rfl
  · unfold remains
    rw [hkind, hnone, Line.stripComment?_append_remark hmarker hscan hremark]
    by_cases hother : engine.kind line = .other
    · simp [hother]
    · by_cases hempty : engine.kind line = .empty
      · simp [hempty]
      · simp [hempty, hother]

-- ==================================================== scripts read alike

variable {engine : Engine σ} {raws raws' : List Text}

/-- Two scripts whose lines are read alike, one by one. -/
def ScriptsAlike (engine : Engine σ) (raws raws' : List Text) : Prop :=
  ∀ i : Nat, Option.Rel engine.ReadAlike raws[i]? raws'[i]?

namespace ScriptsAlike

theorem defines_iff (h : engine.ScriptsAlike raws raws') {i : Nat}
    {name : Text} :
    engine.Defines raws' i name ↔ engine.Defines raws i name := by
  have hline := h i
  unfold Defines
  generalize raws[i]? = found at hline ⊢
  generalize raws'[i]? = found' at hline ⊢
  cases hline with
  | none => exact Iff.rfl
  | some hraw => simp [hraw.label]

theorem redefines_iff (h : engine.ScriptsAlike raws raws') {j : Nat}
    {name : Text} :
    engine.Redefines raws' j name ↔ engine.Redefines raws j name := by
  unfold Redefines
  simp only [h.defines_iff]

/-- Scripts that are read alike are read through together, or refused at
the same line for the same label. The labels are the same either way. -/
theorem readFrom (h : engine.ScriptsAlike raws raws')
    (hcut : engine.CutsComments) (own : σ) :
    (engine.readFrom 0 .empty own raws').labels
      = (engine.readFrom 0 .empty own raws).labels
      ∧ (((engine.readFrom 0 .empty own raws).lines
        = .ok (raws.map engine.remains)
            ∧ (engine.readFrom 0 .empty own raws').lines
              = .ok (raws'.map engine.remains))
        ∨ ∃ j raw raw' name, raws[j]? = some raw ∧ raws'[j]? = some raw'
            ∧ (engine.readFrom 0 .empty own raws).lines
                = .error (.preprocessing ⟨j, raw⟩ (.labelDefined name))
            ∧ (engine.readFrom 0 .empty own raws').lines
                = .error (.preprocessing ⟨j, raw'⟩ (.labelDefined name))) := by
  obtain ⟨offers, hread⟩ := engine.readFrom_of_cutsComments hcut own raws
  obtain ⟨offers', hread'⟩ := engine.readFrom_of_cutsComments hcut own raws'
  rcases hread with ⟨hlines, hthrough⟩
    | ⟨j, raw, name, hlines, hredefines, hrefused⟩
  · rcases hread' with ⟨hlines', hthrough'⟩
      | ⟨j, raw', name, -, hredefines', -⟩
    · refine ⟨Table.ext fun name => Option.ext fun i => ?_,
        .inl ⟨hlines, hlines'⟩⟩
      rw [hthrough'.label, hthrough.label, h.defines_iff]
    · exact absurd (h.redefines_iff.1 hredefines')
        (hthrough.not_redefines j name)
  · rcases hread' with ⟨-, hthrough'⟩
      | ⟨j', raw', name', hlines', hredefines', hrefused'⟩
    · exact absurd (h.redefines_iff.2 hredefines)
        (hthrough'.not_redefines j name)
    · -- neither of the two lines is above the other
      obtain rfl : j' = j := by
        rcases Nat.lt_trichotomy j j' with hlt | heq | hlt
        · exact absurd (h.redefines_iff.2 hredefines)
            (hrefused'.above j hlt name)
        · exact heq.symm
        · exact absurd (h.redefines_iff.1 hredefines')
            (hrefused.above j' hlt name')
      obtain rfl : name' = name := by
        obtain ⟨first, hfirst, hkind⟩ := hredefines.1
        obtain ⟨second, hsecond, hkind'⟩ := h.defines_iff.1 hredefines'.1
        rw [hfirst] at hsecond
        cases hsecond
        rw [hkind] at hkind'
        exact (LineKind.label.inj hkind').symm
      refine ⟨Table.ext fun other => Option.ext fun i => ?_,
        .inr ⟨j', raw, raw', name', hrefused.line, hrefused'.line,
          hlines, hlines'⟩⟩
      rw [hrefused'.label, hrefused.label, h.defines_iff]

/-- The listings of scripts that are read alike are embedded in one
another. -/
theorem embedding (h : engine.ScriptsAlike raws raws') :
    Embedding (fun line line' => Text.trimEnd line' = Text.trimEnd line) id
      (raws.map engine.remains).toArray
        (raws'.map engine.remains).toArray := by
  have hnone : ∀ i : Nat, raws'.length ≤ i ↔ raws.length ≤ i := by
    intro i
    rw [← List.getElem?_eq_none_iff, ← List.getElem?_eq_none_iff]
    have hline := h i
    generalize raws[i]? = found at hline ⊢
    generalize raws'[i]? = found' at hline ⊢
    cases hline with
    | none => exact Iff.rfl
    | some hraw => simp
  have hlength : raws'.length = raws.length :=
    Nat.le_antisymm ((hnone _).2 (Nat.le_refl _)) ((hnone _).1 (Nat.le_refl _))
  refine ⟨fun h => h, fun i => ?_, ?_, .refl _ 0, fun i _ => .refl _ (i + 1)⟩
  · have hline := h i
    simp only [List.getElem?_toArray, List.getElem?_map, id_eq]
    generalize raws[i]? = found at hline ⊢
    generalize raws'[i]? = found' at hline ⊢
    cases hline with
    | none => exact .none
    | some hraw => exact .some hraw.remains
  · simp [hlength]

/-- A script with one line exchanged for one that is read alike. -/
theorem set {k : Nat} {line line' : Text} (hline : raws[k]? = some line)
    (h : engine.ReadAlike line line') :
    engine.ScriptsAlike raws (raws.set k line') := by
  intro i
  by_cases hi : k = i
  · subst hi
    obtain ⟨hk, -⟩ := List.getElem?_eq_some_iff.1 hline
    rw [List.getElem?_set_self hk, hline]
    exact .some h
  · rw [List.getElem?_set_ne hi]
    cases raws[i]? with
    | none => exact .none
    | some raw => exact .some (.refl engine raw)

end ScriptsAlike

end Engine

-- ========================================================== runs, alike

/-- One failure in two scripts, at the same line and for the same reason.
Of a line that is refused the failure shows all, and of a line that is
carried out what there was to carry out, which can differ by white space
at the end. -/
inductive Failure.Alike (lines lines' : List Text) : Failure → Failure → Prop
  | preprocessing {index : Nat} {raw raw' : Text} {fault : ListingFault}
      (h : lines[index]? = some raw) (h' : lines'[index]? = some raw') :
      Alike lines lines' (.preprocessing ⟨index, raw⟩ fault)
        (.preprocessing ⟨index, raw'⟩ fault)
  | decoding {index : Nat} {raw raw' : Text} {fault : DecodingFault}
      (h : Text.trimEnd raw' = Text.trimEnd raw) :
      Alike lines lines' (.decoding ⟨index, raw⟩ fault)
        (.decoding ⟨index, raw'⟩ fault)
  | runtime {index : Nat} {raw raw' : Text} {fault : RuntimeFault}
      (h : Text.trimEnd raw' = Text.trimEnd raw) :
      Alike lines lines' (.runtime ⟨index, raw⟩ fault)
        (.runtime ⟨index, raw'⟩ fault)

/-- Two runs that end well, or in one failure. -/
inductive Verdict.Alike (lines lines' : List Text) : Verdict → Verdict → Prop
  | ok : Alike lines lines' (.ok ()) (.ok ())
  | error {failure failure' : Failure}
      (h : failure.Alike lines lines' failure') :
      Alike lines lines' (.error failure) (.error failure')

namespace Interpreter

variable [Host η] {interpreter : Interpreter} {settings : Settings}
  {source source' : Text} {lines lines' : List Text}

/-- The runs of two scripts are alike: both end or neither, and if they
end they leave the same behind. -/
def RunsAlike (interpreter : Interpreter) (source source' : Text) (host : η)
    (alike : Verdict → Verdict → Prop) : Prop :=
  ((∃ after verdict host', interpreter.RunsTo source host after verdict host')
      ↔ ∃ after verdict host',
        interpreter.RunsTo source' host after verdict host')
    ∧ ∀ after after' verdict verdict' host₁ host₂,
        interpreter.RunsTo source host after verdict host₁ →
        interpreter.RunsTo source' host after' verdict' host₂ →
        after' = after ∧ host₂ = host₁ ∧ alike verdict verdict'

/-- The runs of scripts that are read through run alike if the readings
are placed alike: they take the same calls, and end with one state. -/
theorem runsAlike_of_placed (built : interpreter.BuiltFor settings)
    {listing : Listing}
    (hread : (interpreter.reading source).listing = .ok listing)
    (hlabels : (interpreter.reading source').labels
      = (interpreter.reading source).labels)
    (hplaced : (interpreter.reading source).Placed
      (fun line line' => Text.trimEnd line' = Text.trimEnd line) id .empty
      (interpreter.reading source'))
    (host : η) :
    interpreter.RunsAlike source source' host
      (Verdict.Alike lines lines') := by
  constructor
  · constructor
    · rintro ⟨after, verdict, host', hrun⟩
      obtain ⟨after', verdict', hrun', -⟩ := hrun.placed built built hplaced
      exact ⟨after', verdict', host', hrun'⟩
    · rintro ⟨after', verdict', host', hrun'⟩
      exact hrun'.placed_rev built built hplaced
  · intro after after' verdict verdict' host₁ host₂ hrun hrun'
    obtain ⟨after'', verdict'', hrun'', hagree, hmachine, hverdict⟩ :=
      hrun.placed built built hplaced
    obtain ⟨rfl, rfl, rfl⟩ := hrun'.unique hrun''
    have hmachines : after'.state.machine = after.state.machine := by
      rcases hmachine with hparallel | ⟨hstate, hstate'⟩
      · exact hparallel.machine_eq
      · rw [hstate, hstate']
        exact congrArg (fun labels => ({ labels := labels } : Machine)) hlabels
    have howns : after'.state.own = after.state.own := by
      rw [hagree.own, Output.onto_empty]
    have hengines : after'.engine = after.engine :=
      (runsTo_iff.1 hrun').1.trans (runsTo_iff.1 hrun).1.symm
    refine ⟨?_, rfl, ?_⟩
    · obtain ⟨engine, machine, own⟩ := after
      obtain ⟨engine', machine', own'⟩ := after'
      simp only at hengines hmachines howns
      rw [hengines, hmachines, howns]
    · cases hverdict with
      | ok _ => exact .ok
      | error hfailure =>
          cases hfailure with
          | preprocessing _ =>
              rw [hrun.listing_eq_of_preprocessing built] at hread
              cases hread
          | decoding hraw => exact .error (.decoding hraw)
          | runtime hraw => exact .error (.runtime hraw)

/-- Scripts whose lines are read alike run alike. -/
theorem runsAlike_of_scriptsAlike (built : interpreter.BuiltFor settings)
    (hpieces : interpreter.engine.pieces source = lines)
    (hpieces' : interpreter.engine.pieces source' = lines')
    (h : interpreter.engine.ScriptsAlike lines lines') (host : η) :
    interpreter.RunsAlike source source' host
      (Verdict.Alike lines lines') := by
  subst hpieces hpieces'
  obtain ⟨hlabels, hlines⟩ :=
    h.readFrom built.isScript.cutsComments interpreter.state.own
  change (interpreter.reading source').labels
    = (interpreter.reading source).labels at hlabels
  have hown : (interpreter.reading source').own
      = (interpreter.reading source).own :=
    (own_reading built source').trans (own_reading built source).symm
  rcases hlines with ⟨hread, hread'⟩
    | ⟨j, raw, raw', name, hraw, hraw', hread, hread'⟩
  · have hlisting : (interpreter.reading source).listing = .ok _ :=
      congrArg (Except.map List.toArray) hread
    have hlisting' : (interpreter.reading source').listing = .ok _ :=
      congrArg (Except.map List.toArray) hread'
    apply runsAlike_of_placed built hlisting hlabels
    refine ⟨fun name => ?_, ?_, ?_⟩
    · rw [hlabels, Option.map_id_apply]
    · rw [hown, Output.onto_empty]
    · rw [hlisting, hlisting']
      exact .ok h.embedding
  · have hrefused :=
      interpreter.runsTo_of_refused host
        (congrArg (Except.map List.toArray) hread)
    have hrefused' :=
      interpreter.runsTo_of_refused host
        (congrArg (Except.map List.toArray) hread')
    refine ⟨⟨fun _ => ⟨_, _, _, hrefused'⟩, fun _ => ⟨_, _, _, hrefused⟩⟩, ?_⟩
    intro after after' verdict verdict' host₁ host₂ hrun hrun'
    obtain ⟨rfl, rfl, rfl⟩ := hrun.unique hrefused
    obtain ⟨rfl, rfl, rfl⟩ := hrun'.unique hrefused'
    refine ⟨?_, rfl, .error (.preprocessing hraw hraw')⟩
    unfold Reading.state
    rw [hlabels, hown]

variable {line gap text remark : Text} {k : Nat}

/-- A script and the same with a comment behind a line. -/
theorem runsAlike_set_remark (built : interpreter.BuiltFor settings)
    (hseparator : settings.separator = none)
    (hmarker : Line.CommentMarker settings.marker)
    (hremark : Line.Remark settings.marker remark) (hreturn : '\r' ∉ remark)
    (hlines : ∀ line ∈ lines, '\r' ∉ line ∧ '\n' ∉ line)
    (hline : lines[k]? = some line) (heven : Even (line.count '\''))
    (hnone : Line.stripComment? settings.marker line = none) (host : η) :
    interpreter.RunsAlike (Text.unlines lines)
      (Text.unlines (lines.set k (line ++ remark))) host
      (Verdict.Alike lines (lines.set k (line ++ remark))) := by
  obtain rfl := built.settings_eq
  have halike :=
    interpreter.engine.readAlike_append_remark hmarker hremark heven hnone
  have hmem : line ∈ lines := List.mem_of_getElem? hline
  have hne : lines ≠ [] := List.ne_nil_of_mem hmem
  refine runsAlike_of_scriptsAlike built
    (Engine.pieces_unlines hseparator hne hlines)
    (Engine.pieces_unlines hseparator ?_ ?_) (.set hline halike) host
  · intro hnil
    rw [List.set_eq_nil_iff] at hnil
    exact hne hnil
  · intro other hother
    rcases List.mem_or_eq_of_mem_set hother with hold | rfl
    · exact hlines other hold
    · obtain ⟨hlineReturn, hlineFeed⟩ := hlines line hmem
      constructor
      · rw [List.mem_append, not_or]
        exact ⟨hlineReturn, hreturn⟩
      · rw [List.mem_append, not_or]
        exact ⟨hlineFeed, hremark.feed⟩

/-- Trailing comments are invisible. If a line has an even number of
quotes and no comment, then with white space, the marker and any text
behind it the script ends if and only if it ends without them, and leaves
the same behind: variables, labels and counter, the lines put out, and
the files. If it fails it fails at the same line for the same reason; of
a line that is refused the failure shows all there is, comment included,
and otherwise it shows the line as it was, up to white space at the
end. -/
theorem runSource_set_comment (built : interpreter.BuiltFor settings)
    (hseparator : settings.separator = none)
    (hmarker : ∀ c ∈ settings.marker, isBlank c = false ∧ c ≠ '\'')
    (hlines : ∀ line ∈ lines, '\r' ∉ line ∧ '\n' ∉ line)
    (hline : lines[k]? = some line) (heven : Even (line.count '\''))
    (hnone : Line.stripComment? settings.marker line = none) (hgap : gap ≠ [])
    (hblank : Text.isAllBlank gap = true) (hgapLine : '\r' ∉ gap ∧ '\n' ∉ gap)
    (htext : '\r' ∉ text ∧ '\n' ∉ text) (host : η) :
    interpreter.RunsAlike (Text.unlines lines)
      (Text.unlines
        (lines.set k (line ++ gap ++ settings.marker ++ text))) host
      (Verdict.Alike lines
        (lines.set k (line ++ gap ++ settings.marker ++ text))) := by
  obtain ⟨hne, hlabel, -, -⟩ := Settings.fault?_eq_none_iff.1 built.valid
  have hcomment : Line.CommentMarker settings.marker := ⟨hne, hlabel, hmarker⟩
  have hshape : line ++ gap ++ settings.marker ++ text
      = line ++ (gap ++ (settings.marker ++ text)) := by simp
  have hapart : ∀ d, isBlank d = true → d ∉ gap → d ∉ text →
      d ∉ gap ++ (settings.marker ++ text) := by
    intro d hd hnotGap hnotText hmem
    simp only [List.mem_append] at hmem
    rcases hmem with hmem | hmem | hmem
    · exact hnotGap hmem
    · exact hcomment.not_mem_of_blank hd hmem
    · exact hnotText hmem
  have hremark : Line.Remark settings.marker
      (gap ++ (settings.marker ++ text)) :=
    ⟨hapart '\n' rfl hgapLine.2 htext.2, gap, text, hgap, hblank, rfl⟩
  rw [hshape]
  exact runsAlike_set_remark built hseparator hcomment hremark
    (hapart '\r' rfl hgapLine.1 htext.1) hlines hline heven hnone host

/-- For instance, a comment with a quote behind a line that fails, in a
script with the marker inside quotes. -/
theorem runSource_set_comment_of_failing_line :
    ∃ after after' failure failure',
      standard.RunsTo
          (Text.unlines (["set x, '#a'", "echo x", "boom"].map String.toList))
          (⟨.empty⟩ : MemoryHost) after (.error failure) ⟨.empty⟩
        ∧ standard.RunsTo
            (Text.unlines
              ((["set x, '#a'", "echo x", "boom"].map String.toList).set 2
                ("boom".toList ++ " ".toList ++ "#".toList ++ " it's".toList)))
            (⟨.empty⟩ : MemoryHost) after' (.error failure') ⟨.empty⟩
        ∧ after' = after ∧ after.output = ["#a".toList]
        ∧ failure.line? = some 3
        ∧ failure.Alike (["set x, '#a'", "echo x", "boom"].map String.toList)
            ((["set x, '#a'", "echo x", "boom"].map String.toList).set 2
              ("boom".toList ++ " ".toList ++ "#".toList ++ " it's".toList))
            failure' := by
  have hrun : standard.RunsTo
      (Text.unlines (["set x, '#a'", "echo x", "boom"].map String.toList))
      (⟨.empty⟩ : MemoryHost) _ (.error _) ⟨.empty⟩ :=
    runsTo_of_stepsWithin rfl 5 rfl
  have hlines : ∀ line ∈ ["set x, '#a'", "echo x", "boom"].map String.toList,
      '\r' ∉ line ∧ '\n' ∉ line := by decide
  have hmarker : ∀ c ∈ ['#'], isBlank c = false ∧ c ≠ '\'' := by
    intro c hc
    rw [List.mem_singleton.1 hc]
    decide
  have hline : (["set x, '#a'", "echo x", "boom"].map String.toList)[2]?
      = some "boom".toList := rfl
  have hgap : " ".toList ≠ [] := by decide
  have htext : '\r' ∉ " it's".toList ∧ '\n' ∉ " it's".toList := by decide
  obtain ⟨hends, hlike⟩ :=
    runSource_set_comment builtFor_standard rfl hmarker hlines hline
    (by decide) (by decide) hgap rfl (by decide) htext (⟨.empty⟩ : MemoryHost)
  obtain ⟨after', verdict', host', hrun'⟩ := hends.1 ⟨_, _, _, hrun⟩
  obtain ⟨rfl, rfl, hverdict⟩ := hlike _ _ _ _ _ _ hrun hrun'
  cases hverdict with
  | error hfailure => exact ⟨_, _, _, _, hrun, hrun', rfl, rfl, rfl, hfailure⟩

end Interpreter

end LineScript
