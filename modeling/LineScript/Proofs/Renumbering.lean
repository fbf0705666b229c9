/-
Lines that do nothing can be put anywhere.

A blank line or a comment that is put into a script moves the lines
behind it by one (`shift`). With the lines their labels move, and a
jump, which goes to where the label now is, arrives at the same line: so
a run of the longer script is parallel to one of the shorter, and passes
over one blank line now and then.

The listings are embedded in one another whatever they contain
(`Embedding.insertIdx`). That the label tables correspond is the work of
the reading, which is followed line by line: as far as the place of the
new line nothing has moved (`moved_readFrom_insertIdx`), and behind it
the same lines are read one place further down (`moved_readFrom`). This
includes scripts that are refused, at whichever line.
-/
import LineScript.Proofs.History

set_option autoImplicit false

namespace LineScript

variable {η : Type} [Host η]

-- ============================================================== places

/-- Where a line is when another has been put in at an index. -/
def shift (k i : Nat) : Nat := if k ≤ i then i + 1 else i

theorem shift_of_le {k i : Nat} (h : k ≤ i) : shift k i = i + 1 := if_pos h

theorem shift_of_lt {k i : Nat} (h : i < k) : shift k i = i :=
  if_neg (Nat.not_le.2 h)

-- ============================================================ listings

theorem getElem?_insertIdx_shift {α : Type} (items : List α) (item : α)
    (k i : Nat) :
    (items.insertIdx k item)[shift k i]? = items[i]? := by
  by_cases h : k ≤ i
  · rw [shift_of_le h, List.getElem?_insertIdx_of_gt (Nat.lt_succ_of_le h)]
    rfl
  · have hlt : i < k := Nat.not_le.1 h
    rw [shift_of_lt hlt, List.getElem?_insertIdx_of_lt hlt]

/-- A listing is embedded in itself with a blank line put in. -/
theorem Embedding.insertIdx {lines : List Text} {k : Nat}
    (hk : k ≤ lines.length) :
    Embedding Eq (shift k) lines.toArray (lines.insertIdx k []).toArray := by
  have hnew : (lines.insertIdx k []).toArray[k]? = some [] := by
    rw [List.getElem?_toArray, List.getElem?_insertIdx_self, if_pos hk]
  refine ⟨fun h => by rw [h], ?_, ?_, ?_, ?_⟩
  · intro i
    rw [List.getElem?_toArray, List.getElem?_toArray, getElem?_insertIdx_shift]
    cases lines[i]? with
    | none => exact .none
    | some line => exact .some rfl
  · show shift k lines.length = (lines.insertIdx k []).length
    rw [shift_of_le hk, List.length_insertIdx_of_le_length hk]
  · by_cases h : k = 0
    · subst h
      exact BlankBetween.single hnew
    · rw [shift_of_lt (Nat.pos_of_ne_zero h)]
      exact BlankBetween.refl _ 0
  · intro i _
    by_cases hle : k ≤ i
    · rw [shift_of_le hle, shift_of_le (Nat.le_succ_of_le hle)]
      exact BlankBetween.refl _ _
    · rw [shift_of_lt (Nat.not_le.1 hle)]
      by_cases hnext : k = i + 1
      · subst hnext
        rw [shift_of_le (Nat.le_refl _)]
        exact BlankBetween.single hnew
      · rw [shift_of_lt (by omega)]
        exact BlankBetween.refl _ _

-- ============================================================= reading

/-- Two label tables with the same names, the lines having got to other
places. -/
def LabelsMoved (place : Nat → Nat) (labels labels' : Table Nat) : Prop :=
  ∀ name, labels'.get? name = (labels.get? name).map place

theorem LabelsMoved.contains_eq {place : Nat → Nat}
    {labels labels' : Table Nat} (h : LabelsMoved place labels labels')
    (name : Text) :
    labels'.contains name = labels.contains name := by
  unfold Table.contains
  rw [h name, Option.isSome_map]

theorem LabelsMoved.insert {place : Nat → Nat} {labels labels' : Table Nat}
    (h : LabelsMoved place labels labels') (name : Text) (index : Nat) :
    LabelsMoved place (labels.insert name index)
      (labels'.insert name (place index)) := by
  intro other
  rw [Table.get?_insert, Table.get?_insert]
  by_cases hname : other = name
  · rw [if_pos hname, if_pos hname]
    rfl
  · rw [if_neg hname, if_neg hname, h other]

/-- Two readings of which the second has the lines of the first, in other
places and with others put in. -/
structure Reading.Moved (place : Nat → Nat) (relist : List Text → List Text)
    (reading reading' : Reading Output) : Prop where
  labels : LabelsMoved place reading.labels reading'.labels
  own : reading'.own = reading.own
  lines : ResultPlaced Eq place (fun lines lines' => lines' = relist lines)
    reading.lines reading'.lines

namespace Reading.Moved

variable {place : Nat → Nat} {relist relist' : List Text → List Text}
  {reading reading' : Reading Output}

/-- A line in front of both readings. -/
theorem consLine (h : reading.Moved place relist reading') {entry : Text}
    (hrelist : ∀ lines, relist' (entry :: lines) = entry :: relist lines) :
    (reading.consLine entry).Moved place relist'
      (reading'.consLine entry) := by
  refine ⟨h.labels, h.own, h.lines.map ?_⟩
  intro lines lines' hlines
  rw [hrelist, hlines]

/-- A line in front of the second reading. -/
theorem consLine_right (h : reading.Moved place id reading') (entry : Text) :
    reading.Moved place (entry :: ·) (reading'.consLine entry) := by
  refine ⟨h.labels, h.own, h.lines.map_right ?_⟩
  intro lines lines' hlines
  rw [hlines]
  rfl

/-- Readings whose lines have moved are readings of scripts that run in
parallel, if the listings are embedded. -/
theorem placed (h : reading.Moved place relist reading')
    (hembedding : ∀ lines, reading.lines = .ok lines →
      Embedding Eq place lines.toArray (relist lines).toArray) :
    reading.Placed Eq place .empty reading' := by
  refine ⟨h.labels, ?_, ?_⟩
  · rw [h.own, Output.onto_empty]
  · have hlines := h.lines
    unfold Reading.listing
    cases hread : reading.lines with
    | ok lines =>
        rw [hread] at hlines
        obtain ⟨lines', hread', rfl⟩ := hlines.of_ok
        rw [hread']
        exact .ok (hembedding lines hread)
    | error failure =>
        rw [hread] at hlines
        obtain ⟨failure', hread', hplaced⟩ := hlines.of_error
        rw [hread']
        exact .error hplaced

end Reading.Moved

namespace Engine

variable {script : Engine Output} {place : Nat → Nat}
  {labels labels' : Table Nat}

/-- A line is read in the same way wherever it is. -/
theorem readLine_moved (hs : script.IsScript)
    (hlabels : LabelsMoved place labels labels') (index : Nat) (own : Output)
    (raw : Text) :
    LabelsMoved place (script.readLine index labels own raw).1
        (script.readLine (place index) labels' own raw).1
      ∧ (script.readLine (place index) labels' own raw).2.1
          = (script.readLine index labels own raw).2.1
      ∧ ResultPlaced Eq place Eq (script.readLine index labels own raw).2.2
          (script.readLine (place index) labels' own raw).2.2 := by
  unfold readLine
  rw [hs.hook]
  cases Line.classify script.settings.marker raw with
  | empty => exact ⟨hlabels, rfl, .ok rfl⟩
  | comment => exact ⟨hlabels, rfl, .ok rfl⟩
  | label name =>
      simp only [hlabels.contains_eq name]
      by_cases hdefined : labels.contains name = true
      · rw [if_pos hdefined, if_pos hdefined]
        exact ⟨hlabels, rfl, .error (.preprocessing rfl)⟩
      · rw [if_neg hdefined, if_neg hdefined]
        exact ⟨hlabels.insert name index, rfl, .ok rfl⟩
  | other => exact ⟨hlabels, rfl, .ok rfl⟩

/-- Two readings begin with the same line, wherever it is. -/
theorem readFrom_cons_moved (hs : script.IsScript)
    (hlabels : LabelsMoved place labels labels')
    {index index' : Nat} (hindex : index' = place index) (own : Output)
    (raw : Text)
    {rest rest' : List Text} {relist relist' : List Text → List Text}
    (hrelist : ∀ entry lines, relist' (entry :: lines) = entry :: relist lines)
    (hrest : ∀ {labels labels' own}, LabelsMoved place labels labels' →
      (script.readFrom (index + 1) labels own rest).Moved place relist
        (script.readFrom (index' + 1) labels' own rest')) :
    (script.readFrom index labels own (raw :: rest)).Moved place relist'
      (script.readFrom index' labels' own (raw :: rest')) := by
  subst hindex
  obtain ⟨hafter, hown, hentry⟩ := readLine_moved hs hlabels index own raw
  rw [readFrom_cons, readFrom_cons]
  generalize script.readLine index labels own raw
    = line at hafter hown hentry ⊢
  generalize script.readLine (place index) labels' own raw
    = line' at hafter hown hentry ⊢
  obtain ⟨labels₁, own₁, entry⟩ := line
  obtain ⟨labels₂, own₂, entry'⟩ := line'
  obtain rfl : own₂ = own₁ := hown
  cases hentry with
  | ok hsame =>
      subst hsame
      exact (hrest hafter).consLine (hrelist _)
  | error hplaced => exact ⟨hafter, rfl, .error hplaced⟩

/-- The same lines, read further down. -/
theorem moved_readFrom (hs : script.IsScript) (own : Output) (raws : List Text)
    {index : Nat} (hplace : ∀ j, index ≤ j → place j = j + 1)
    (hlabels : LabelsMoved place labels labels') :
    (script.readFrom index labels own raws).Moved place id
      (script.readFrom (index + 1) labels' own raws) := by
  induction raws generalizing index labels labels' own with
  | nil => exact ⟨hlabels, rfl, .ok rfl⟩
  | cons raw rest ih =>
      refine readFrom_cons_moved hs hlabels
        (hplace index (Nat.le_refl index)).symm own raw (fun _ _ => rfl) ?_
      intro labels₁ labels₂ own₁ hafter
      exact ih own₁ (fun j hj => hplace j (Nat.le_of_succ_le hj)) hafter

/-- Lines with a blank line or a comment put in. -/
theorem moved_readFrom_insertIdx (hs : script.IsScript) {added : Text}
    (hadded : Line.classify script.settings.marker added = .empty
      ∨ Line.classify script.settings.marker added = .comment)
    (own : Output) {raws : List Text} {d index : Nat} (hd : d ≤ raws.length)
    (hlabels : LabelsMoved (shift (index + d)) labels labels') :
    (script.readFrom index labels own raws).Moved (shift (index + d))
      (·.insertIdx d [])
      (script.readFrom index labels' own (raws.insertIdx d added)) := by
  induction d generalizing index labels labels' own raws with
  | zero =>
      -- the new line is read and forgotten; all that follows is one further
      -- down
      have hmoved :=
        moved_readFrom hs own raws (fun j hj => shift_of_le hj) hlabels
      have hline : script.readLine index labels' own added
          = (labels', own, .ok []) := by
        unfold readLine
        rcases hadded with hclass | hclass
        · rw [hclass]
        · rw [hclass]
      rw [List.insertIdx_zero, readFrom_cons, hline]
      exact hmoved.consLine_right []
  | succ d ih =>
      cases raws with
      | nil => cases hd
      | cons raw rest =>
          -- above the new line nothing has moved
          rw [List.insertIdx_succ_cons]
          refine readFrom_cons_moved hs hlabels
            (shift_of_lt (by omega)).symm own raw (fun _ _ => rfl) ?_
          intro labels₁ labels₂ own₁ hafter
          have hindex : index + (d + 1) = index + 1 + d := by omega
          rw [hindex] at hafter ⊢
          exact ih own₁ (Nat.le_of_succ_le_succ hd) hafter

end Engine

-- ========================================================== whole runs

namespace Interpreter

variable {interpreter : Interpreter} {settings : Settings} {lines : List Text}
  {added : Text} {k : Nat}

/-- The lines of a script with one more put in are its pieces. -/
theorem pieces_insertIdx (built : interpreter.BuiltFor settings)
    (hseparator : settings.separator = none)
    (hlines : ∀ line ∈ lines, '\r' ∉ line ∧ '\n' ∉ line)
    (hk : k ≤ lines.length) (hadded : '\r' ∉ added ∧ '\n' ∉ added) :
    interpreter.engine.pieces (Text.unlines (lines.insertIdx k added))
      = lines.insertIdx k added := by
  rw [← built.settings_eq] at hseparator
  apply Engine.pieces_unlines hseparator
  · intro hnil
    have hlength := List.length_insertIdx_of_le_length hk added
    rw [hnil] at hlength
    cases hlength
  · intro line hmem
    rcases (List.mem_insertIdx hk).1 hmem with rfl | hmem
    · exact hadded
    · exact hlines line hmem

/-- The reading of a script with a line put in, which is blank or a
comment. -/
theorem placed_reading_insertIdx (built : interpreter.BuiltFor settings)
    (hseparator : settings.separator = none) (hne : lines ≠ [])
    (hlines : ∀ line ∈ lines, '\r' ∉ line ∧ '\n' ∉ line)
    (hk : k ≤ lines.length) (hadded : '\r' ∉ added ∧ '\n' ∉ added)
    (hkind : Line.classify settings.marker added = .empty
      ∨ Line.classify settings.marker added = .comment) :
    (interpreter.reading (Text.unlines lines)).Placed Eq (shift k) .empty
      (interpreter.reading (Text.unlines (lines.insertIdx k added))) := by
  have hpieces' := pieces_insertIdx built hseparator hlines hk hadded
  rw [← built.settings_eq] at hseparator hkind
  have hpieces := Engine.pieces_unlines hseparator hne hlines
  unfold reading Engine.read
  rw [hpieces, hpieces']
  have hempty : LabelsMoved (shift (0 + k)) .empty .empty := fun _ => rfl
  have hmoved :=
    Engine.moved_readFrom_insertIdx built.isScript hkind
      interpreter.state.own hk
    hempty
  rw [Nat.zero_add] at hmoved
  apply hmoved.placed
  intro lines' hread
  rw [← (Engine.lines_readFrom hread).1] at hk
  exact Embedding.insertIdx hk

/-- A script of one line, blank or a comment, does nothing. -/
theorem runsTo_of_blank {source raw : Text} (host : η)
    (hpieces : interpreter.engine.pieces source = [raw])
    (hkind : Line.classify interpreter.engine.settings.marker raw = .empty
      ∨ Line.classify interpreter.engine.settings.marker raw = .comment) :
    interpreter.RunsTo source host
      ⟨interpreter.engine, ⟨{ pc := 1, lineCount := 1 },
        interpreter.state.own⟩⟩ (.ok ()) host := by
  have hreading : interpreter.reading source
      = ⟨.empty, interpreter.state.own, .ok [[]]⟩ := by
    unfold reading Engine.read
    rw [hpieces, Engine.readFrom]
    rcases hkind with hclass | hclass
    · rw [hclass]
      rfl
    · rw [hclass]
      rfl
  have hlisting : (interpreter.reading source).listing = .ok #[[]] := by
    rw [hreading]
    rfl
  apply runsTo_of_stepsWithin hlisting 2
  rw [hreading]
  rfl

/-- Lines that do nothing are invisible. A script ends with a blank line
or a comment put in, at whatever place, if and only if it ends without;
the verdicts are the same but for the number of the line that failed,
which is one more if the line was put in above it; variables, files and
the lines put out are the same; and each label has moved with its line. -/
theorem runSource_insertIdx (built : interpreter.BuiltFor settings)
    (hseparator : settings.separator = none)
    (hlines : ∀ line ∈ lines, '\r' ∉ line ∧ '\n' ∉ line)
    (hk : k ≤ lines.length) (hadded : '\r' ∉ added ∧ '\n' ∉ added)
    (hkind : Line.classify settings.marker added = .empty
      ∨ Line.classify settings.marker added = .comment)
    (host : η) :
    ((∃ after verdict host',
          interpreter.RunsTo (Text.unlines lines) host after verdict host')
        ↔ ∃ after verdict host',
            interpreter.RunsTo (Text.unlines (lines.insertIdx k added)) host
              after verdict host')
      ∧ ∀ after after' verdict verdict' host₁ host₂,
          interpreter.RunsTo (Text.unlines lines) host after verdict host₁ →
          interpreter.RunsTo (Text.unlines (lines.insertIdx k added)) host
            after' verdict' host₂ →
          verdict' = verdict.mapError (Failure.relocate (shift k))
            ∧ after'.vars = after.vars ∧ host₂ = host₁
            ∧ (∃ echoed, after.output = interpreter.output ++ echoed
                ∧ after'.output = interpreter.output ++ echoed)
            ∧ ∀ name, after'.label? name
                = (after.label? name).map (shift k) := by
  by_cases hne : lines = []
  · -- joined, no line and one empty line are the same text
    subst hne
    obtain rfl : k = 0 := Nat.le_zero.1 hk
    have hpieces := pieces_insertIdx built hseparator hlines hk hadded
    rw [← built.settings_eq] at hkind
    have hrun :=
      interpreter.runsTo_of_blank host (Text.splitOn_nil _) (.inl rfl)
    have hrun' := interpreter.runsTo_of_blank host hpieces hkind
    refine ⟨⟨fun _ => ⟨_, _, _, hrun'⟩, fun _ => ⟨_, _, _, hrun⟩⟩, ?_⟩
    intro after after' verdict verdict' host₁ host₂ h h'
    obtain ⟨rfl, rfl, rfl⟩ := h.unique hrun
    obtain ⟨rfl, rfl, rfl⟩ := h'.unique hrun'
    refine ⟨rfl, rfl, rfl, ⟨[], ?_, ?_⟩, fun _ => rfl⟩
    · exact (List.append_nil _).symm
    · exact (List.append_nil _).symm
  · have hreading :=
      placed_reading_insertIdx built hseparator hne hlines hk hadded hkind
    constructor
    · constructor
      · rintro ⟨after, verdict, host', h⟩
        obtain ⟨after', verdict', h', -⟩ := h.placed built built hreading
        exact ⟨after', verdict', host', h'⟩
      · rintro ⟨after', verdict', host', h'⟩
        exact h'.placed_rev built built hreading
    · intro after after' verdict verdict' host₁ host₂ h h'
      obtain ⟨after'', verdict'', h'', hagree, -, hverdict⟩ :=
        h.placed built built hreading
      obtain ⟨rfl, rfl, rfl⟩ := h'.unique h''
      obtain ⟨fresh, -, -, houtput⟩ := h.renewed built
      have hown : after'.state.own = after.state.own := by
        rw [hagree.own, Output.onto_empty]
      refine ⟨hverdict.eq_relocate, hagree.vars, rfl,
        ⟨fresh.output, houtput, ?_⟩, hagree.labels⟩
      rw [← houtput]
      exact congrArg Output.lines hown

/-- For instance, a comment put in behind the first line of a script: its
label and its failing line are one further down, and nothing else is
different. -/
theorem runSource_insertIdx_of_comment :
    ∃ after after' failure failure',
      standard.RunsTo (Text.unlines
        (["set x, 'a'", ":l", "echo x", "boom"].map String.toList))
          (⟨.empty⟩ : MemoryHost) after (.error failure) ⟨.empty⟩
        ∧ standard.RunsTo
            (Text.unlines
              ((["set x, 'a'", ":l", "echo x", "boom"].map
                String.toList).insertIdx 1
              "# here".toList))
            (⟨.empty⟩ : MemoryHost) after' (.error failure') ⟨.empty⟩
        ∧ failure.line? = some 4 ∧ failure'.line? = some 5
        ∧ failure'.raw? = failure.raw?
        ∧ after.label? "l".toList = some 1 ∧ after'.label? "l".toList = some 2
        ∧ after.output = ["a".toList] ∧ after'.output = after.output := by
  have hrun : standard.RunsTo
      (Text.unlines (["set x, 'a'", ":l", "echo x", "boom"].map String.toList))
      (⟨.empty⟩ : MemoryHost) _ (.error _) ⟨.empty⟩ :=
    runsTo_of_stepsWithin rfl 5 rfl
  have hlines : ∀ line
      ∈ ["set x, 'a'", ":l", "echo x", "boom"].map String.toList,
      '\r' ∉ line ∧ '\n' ∉ line := by decide
  have hk : 1 ≤ (["set x, 'a'", ":l", "echo x", "boom"].map
      String.toList).length := by decide
  have hadded : '\r' ∉ "# here".toList ∧ '\n' ∉ "# here".toList := by decide
  obtain ⟨hends, hlike⟩ :=
    runSource_insertIdx builtFor_standard rfl hlines hk hadded (.inr rfl)
    (⟨.empty⟩ : MemoryHost)
  obtain ⟨after', verdict', host', hrun'⟩ := hends.1 ⟨_, _, _, hrun⟩
  obtain ⟨rfl, hvars, rfl, ⟨echoed, houtput, houtput'⟩, hlabels⟩ :=
    hlike _ _ _ _ _ _ hrun hrun'
  exact ⟨_, after', _, _, hrun, hrun', rfl, rfl, rfl, rfl, hlabels "l".toList,
    rfl, houtput'.trans houtput.symm⟩

end Interpreter

end LineScript
