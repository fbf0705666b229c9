/-
The word behind `-f`, and clusters.

Whether `-f` takes the next word is decided by looking ahead: it does if
some later word looks as if it could supply the script, being plain or
beginning with `-c`. What the later words do supply is found out when
they are read. The two disagree on scripts that are supplied in another
way (a word with a minus sign behind `--`, a lone minus sign, a `-c`
that is not the first flag of its cluster), and then the word meant for
`-f` is read as a second script.

# Reading behind other words

What words ask for is independent of the words in front of them but for
two things: a settings source that was given stands until another one is,
and the plain words in front are counted with theirs. So reading with
something in front is reading without it and then putting it in front
(`readWords_onto`), and the two ways to read `-f` and a word are two
instances of that.

# Clusters

The two flags without a value do nothing but note themselves down, so
whether the next flag stands in the same cluster or at the head of the
next one makes no difference to it: it finds the same draft and, since
words that hold such flags only are used up by then, the same words behind
it (`readCluster_switches`, `readWords_switches`).
-/
import LineScript.Program.Arguments

set_option autoImplicit false

namespace LineScript

/-- A settings source, or another one where none was given. -/
def SettingsSource.orElse : SettingsSource → SettingsSource → SettingsSource
  | .search, fallback => fallback
  | settings, _ => settings

namespace Invocation

variable {settings : SettingsSource} {plain : List Text}
  {invocation : Invocation} {word : Text} {rest : List Text}

-- ============================================ reading behind other words

/-- A draft with a settings source and plain words in front of it. -/
def Draft.onto (settings : SettingsSource) (plain : List Text)
    (draft : Draft) : Draft :=
  { draft with
    settings := draft.settings.orElse settings, plain := plain ++ draft.plain }

/-- A cluster is read alike whatever is in front of it. -/
theorem readCluster_onto (draft : Draft) (after : List Text) (flags : Text) :
    readCluster (draft.onto settings plain) after flags
      = (readCluster draft after flags).map fun read =>
        (read.1.onto settings plain, read.2) := by
  fun_induction readCluster draft after flags with
  | case1 draft => rfl
  | case2 draft flags ih => exact ih
  | case3 draft flags ih => exact ih
  | case4 draft next rest hafter htake =>
      subst hafter
      rw [readCluster, if_pos htake]
      rfl
  | case5 draft next rest hafter hskip =>
      subst hafter
      rw [readCluster, if_neg hskip]
      rfl
  | case6 draft hafter =>
      subst hafter
      rfl
  | case7 draft c value => rfl
  | case8 draft next rest hafter =>
      subst hafter
      rfl
  | case9 draft hafter =>
      subst hafter
      rfl
  | case10 draft c value => rfl
  | case11 draft flag flags hd hv hf hfile hc hsource =>
      rw [readCluster]
      · rfl
      all_goals assumption

/-- Words are read alike whatever is in front of them. -/
theorem readWords_onto (draft : Draft) (taken : Bool) (words : List Text) :
    readWords (draft.onto settings plain) taken words
      = (readWords draft taken words).map (Draft.onto settings plain) := by
  fun_induction readWords draft taken words with
  | case1 draft taken => rfl
  | case2 draft value words ih => exact ih
  | case3 draft words =>
      simp only [readWords, if_true, Draft.onto, List.append_assoc]
      rfl
  | case4 draft word words hdashes hplain ih =>
      rw [readWords, if_neg hdashes, if_pos hplain, ← ih]
      simp only [Draft.onto, List.append_assoc]
  | case5 draft word words hdashes hplain fault hcluster =>
      rw [readWords, if_neg hdashes, if_neg hplain, readCluster_onto, hcluster]
      rfl
  | case6 draft word words hdashes hplain next taken hcluster ih =>
      rw [readWords, if_neg hdashes, if_neg hplain, readCluster_onto, hcluster]
      exact ih

-- ===================================================== the invocation

/-- What words ask for is read off their draft. -/
theorem ofArguments_eq_ok_iff {words : List Text} :
    ofArguments words = .ok invocation
      ↔ ∃ draft, readWords {} false words = .ok draft
        ∧ ofDraft draft = .ok invocation := by
  unfold ofArguments
  cases readWords {} false words with
  | error fault =>
      constructor
      · intro h
        cases h
      · rintro ⟨draft, h, -⟩
        cases h
  | ok draft =>
      constructor
      · intro h
        exact ⟨draft, rfl, h⟩
      · rintro ⟨found, hfound, h⟩
        cases hfound
        exact h

/-- The fault of a plain word beside a script. -/
def secondScript : ScriptSource → UsageFault
  | .file _ => .tooMany 2
  | .inline _ => .twoScripts

/-- A complete draft has its script either as a plain word or inline. -/
theorem script_of_ofDraft {draft : Draft}
    (h : ofDraft draft = .ok invocation) :
    (∃ path, draft.plain = [path] ∧ draft.inline = none ∧ invocation
        = ⟨draft.settings, .file path, draft.showVariables, draft.debug⟩)
      ∨ ∃ text, draft.plain = [] ∧ draft.inline = some text ∧ invocation
        = ⟨draft.settings, .inline text, draft.showVariables,
          draft.debug⟩ := by
  unfold ofDraft at h
  split at h
  next => cases h
  next text hplain hinline =>
    cases h
    exact .inr ⟨text, hplain, hinline, rfl⟩
  next path hplain hinline =>
    cases h
    exact .inl ⟨path, hplain, hinline, rfl⟩
  next => cases h
  next => cases h

/-- A settings source in front of a complete draft stands if the draft
has none. -/
theorem ofDraft_onto {draft : Draft} (h : ofDraft draft = .ok invocation) :
    ofDraft (draft.onto settings [])
      = .ok { invocation with
          settings := invocation.settings.orElse settings } := by
  obtain ⟨path, hplain, hinline, rfl⟩ | ⟨text, hplain, hinline, rfl⟩ :=
    script_of_ofDraft h
  · simp [ofDraft, Draft.onto, hplain, hinline]
  · simp [ofDraft, Draft.onto, hplain, hinline]

/-- A plain word in front of a complete draft is one script too many. -/
theorem ofDraft_onto_plain {draft : Draft} (h : ofDraft draft = .ok invocation)
    (word : Text) :
    ofDraft (draft.onto settings [word])
      = .error (secondScript invocation.script) := by
  obtain ⟨path, hplain, hinline, rfl⟩ | ⟨text, hplain, hinline, rfl⟩ :=
    script_of_ofDraft h
  · simp [ofDraft, Draft.onto, hplain, hinline, secondScript]
  · simp [ofDraft, Draft.onto, hplain, hinline, secondScript]

/-- A plain word in front is put in front of what is read. -/
theorem readWords_cons_of_plain (draft : Draft)
    (hplain : isDashed word = false) (rest : List Text) :
    readWords draft false (word :: rest)
      = readWords { draft with
          plain := draft.plain ++ [word] } false rest := by
  -- a word without a minus sign is not the double one either
  have hdashes : word ≠ ['-', '-'] := by
    rintro rfl
    cases hplain
  have hword : (!isDashed word || decide (word = ['-'])) = true := by
    rw [hplain]
    rfl
  rw [readWords, if_neg hdashes, if_pos hword]

/-- A minus sign and flags are read as a cluster. -/
theorem readWords_cons_of_flags (draft : Draft) {flags : Text}
    (hne : flags ≠ []) (hhead : flags.head? ≠ some '-') (rest : List Text) :
    readWords draft false (('-' :: flags) :: rest)
      = (readCluster draft rest flags).bind fun read =>
        readWords read.1 read.2 rest := by
  have hdashes : '-' :: flags ≠ ['-', '-'] := by
    intro heq
    rw [(List.cons.inj heq).2] at hhead
    exact hhead rfl
  have hword : ¬ (!isDashed ('-' :: flags) || decide ('-' :: flags = ['-']))
      = true := by
    simp [isDashed, hne]
  rw [readWords, if_neg hdashes, if_neg hword, List.tail_cons]
  cases readCluster draft rest flags with
  | error fault => rfl
  | ok read => rfl

/-- `-f` in front of a plain word, by what the look-ahead says of the
words behind that. -/
theorem readWords_settingsFile (hplain : isDashed word = false)
    (rest : List Text) :
    readWords {} false ("-f".toList :: word :: rest)
      = if leavesScript rest
        then (readWords {} false rest).map (Draft.onto (.explicit word) [])
        else (readWords {} false rest).map (Draft.onto .skip [word]) := by
  have hword : "-f".toList = '-' :: ['f'] := rfl
  rw [hword, readWords_cons_of_flags {} (by decide) (by decide), readCluster,
    hplain, Bool.not_false, Bool.true_and]
  cases leavesScript rest with
  | true =>
      calc readWords { settings := .explicit word } true (word :: rest)
          = readWords (Draft.onto (.explicit word) [] {}) false rest := rfl
        _ = (readWords {} false rest).map (Draft.onto (.explicit word) []) :=
            readWords_onto {} false rest
  | false =>
      calc readWords { settings := .skip } false (word :: rest)
          = readWords (Draft.onto .skip [word] {}) false rest :=
            readWords_cons_of_plain _ hplain rest
        _ = (readWords {} false rest).map (Draft.onto .skip [word]) :=
          readWords_onto {} false rest

theorem leavesScript_iff {words : List Text} :
    leavesScript words = true
      ↔ ∃ word ∈ words, isDashed word = false
        ∨ Text.startsWith word "-c".toList = true := by
  simp [leavesScript]

/-- `-f` takes the plain word behind it exactly when the look-ahead finds
a word that could be the script: a plain one, or one that begins with
`-c`. Then all is as without the two words, but that the settings are in
the file unless the words behind say otherwise. If the look-ahead finds
none, though the words behind do supply a script, the word is taken for a
second script and the arguments are refused. -/
theorem ofArguments_settingsFile_iff (hplain : isDashed word = false)
    (h : ofArguments rest = .ok invocation) :
    (ofArguments ("-f".toList :: word :: rest)
        = .ok { invocation with
            settings := invocation.settings.orElse (.explicit word) }
      ↔ ∃ other ∈ rest, isDashed other = false
        ∨ Text.startsWith other "-c".toList = true)
    ∧ ((¬ ∃ other ∈ rest, isDashed other = false
          ∨ Text.startsWith other "-c".toList = true) →
        ofArguments ("-f".toList :: word :: rest)
          = .error (secondScript invocation.script)) := by
  obtain ⟨draft, hread, hdraft⟩ := ofArguments_eq_ok_iff.1 h
  have hall : ofArguments ("-f".toList :: word :: rest)
      = if leavesScript rest
        then .ok { invocation with
          settings := invocation.settings.orElse (.explicit word) }
        else .error (secondScript invocation.script) := by
    unfold ofArguments
    rw [readWords_settingsFile hplain, hread]
    cases leavesScript rest with
    | true => exact ofDraft_onto hdraft
    | false => exact ofDraft_onto_plain hdraft word
  rw [hall, ← leavesScript_iff]
  cases leavesScript rest with
  | true => simp
  | false => simp

/-- For instance, with the script inline and one more `-f`, which has the
last word. -/
theorem ofArguments_settingsFile_iff_of_inline :
    ofArguments (["-vfother", "-c", "end"].map String.toList)
        = .ok ⟨.explicit "other".toList, .inline "end".toList, true, false⟩
      ∧ ofArguments (["-f", "mine", "-vfother", "-c", "end"].map String.toList)
        = .ok
          ⟨.explicit "other".toList, .inline "end".toList, true, false⟩ := by
  have hrest : ofArguments (["-vfother", "-c", "end"].map String.toList)
      = .ok ⟨.explicit "other".toList, .inline "end".toList, true, false⟩ :=
    rfl
  have hplain : isDashed "mine".toList = false := by decide
  refine ⟨hrest, (ofArguments_settingsFile_iff hplain hrest).1.2 ?_⟩
  exact ⟨"-c".toList, by decide, .inr (by decide)⟩

/-- A script with a minus sign in front of its name can be named behind
`--`, but not behind `-f` and a settings file as well. -/
theorem ofArguments_settingsFile_refused :
    isDashed "myrc".toList = false
      ∧ ofArguments (["--", "-odd-name.ls"].map String.toList)
        = .ok ⟨.search, .file "-odd-name.ls".toList, false, false⟩
      ∧ ofArguments (["-f", "myrc", "--", "-odd-name.ls"].map String.toList)
        = .error (.tooMany 2) :=
  ⟨rfl, rfl, rfl⟩

-- =============================================================== clusters

/-- A draft that a flag without a value is noted down in. -/
def Draft.switch (draft : Draft) : Char → Draft
  | 'd' => { draft with debug := true }
  | 'v' => { draft with showVariables := true }
  | _ => draft

variable {switches flags : Text}

/-- A cluster that begins with such flags goes on as if they were not in
it. -/
theorem readCluster_switches (h : ∀ flag ∈ switches, flag = 'd' ∨ flag = 'v')
    (draft : Draft) (after : List Text) (flags : Text) :
    readCluster draft after (switches ++ flags)
      = readCluster (switches.foldl Draft.switch draft) after flags := by
  induction switches generalizing draft with
  | nil => rfl
  | cons flag switches ih =>
      obtain ⟨hflag, hlater⟩ := List.forall_mem_cons.1 h
      rcases hflag with rfl | rfl
      · exact ih hlater (draft.switch 'd')
      · exact ih hlater (draft.switch 'v')

/-- So do the words behind words that are nothing but such flags. -/
theorem readWords_switches (h : ∀ flag ∈ switches, flag = 'd' ∨ flag = 'v')
    (draft : Draft) (rest : List Text) :
    readWords draft false (switches.map (fun flag => ['-', flag]) ++ rest)
      = readWords (switches.foldl Draft.switch draft) false rest := by
  induction switches generalizing draft with
  | nil => rfl
  | cons flag switches ih =>
      obtain ⟨hflag, hlater⟩ := List.forall_mem_cons.1 h
      rw [List.map_cons, List.cons_append]
      rcases hflag with rfl | rfl
      · rw [readWords_cons_of_flags draft (by decide) (by decide)]
        exact ih hlater (draft.switch 'd')
      · rw [readWords_cons_of_flags draft (by decide) (by decide)]
        exact ih hlater (draft.switch 'v')

/-- Flags without a value mean the same in front of others in a cluster and
as words of their own in front of the cluster of the others, whatever the
others are and whatever words follow: a value may be in the cluster, or
taken from the words behind, or missing, and a flag may be unknown. -/
theorem ofArguments_switches
    (hswitches : ∀ flag ∈ switches, flag = 'd' ∨ flag = 'v') (hne : flags ≠ [])
    (hhead : flags.head? ≠ some '-') (rest : List Text) :
    ofArguments (('-' :: (switches ++ flags)) :: rest)
      = ofArguments (switches.map (fun flag => ['-', flag]) ++ ('-' :: flags)
        :: rest) := by
  have hne' : switches ++ flags ≠ [] :=
    fun hnil => hne (List.append_eq_nil_iff.1 hnil).2
  have hhead' : (switches ++ flags).head? ≠ some '-' := by
    cases switches with
    | nil => exact hhead
    | cons flag switches =>
        rcases hswitches flag List.mem_cons_self with rfl | rfl
        · exact fun heq => absurd (Option.some.inj heq) (by decide)
        · exact fun heq => absurd (Option.some.inj heq) (by decide)
  unfold ofArguments
  rw [readWords_cons_of_flags {} hne' hhead', readCluster_switches hswitches,
    readWords_switches hswitches, readWords_cons_of_flags _ hne hhead]

/-- For instance, in front of a flag that takes the word behind its
cluster, and of one that is unknown. -/
theorem ofArguments_switches_of_value :
    ofArguments (["-dvf", "mine", "a.ls"].map String.toList)
        = ofArguments (["-d", "-v", "-f", "mine", "a.ls"].map String.toList)
      ∧ ofArguments (["-vq", "a.ls"].map String.toList)
        = ofArguments (["-v", "-q", "a.ls"].map String.toList)
      ∧ ofArguments (["-dvf", "mine", "a.ls"].map String.toList)
        = .ok ⟨.explicit "mine".toList, .file "a.ls".toList, true, true⟩ := by
  have hboth : ∀ flag ∈ ['d', 'v'], flag = 'd' ∨ flag = 'v' := by simp
  have hone : ∀ flag ∈ ['v'], flag = 'd' ∨ flag = 'v' := by simp
  have hhead : ['f'].head? ≠ some '-' ∧ ['q'].head? ≠ some '-' := by simp
  exact ⟨ofArguments_switches hboth (List.cons_ne_nil _ _) hhead.1 _,
    ofArguments_switches hone (List.cons_ne_nil _ _) hhead.2 _, rfl⟩

end Invocation

end LineScript
