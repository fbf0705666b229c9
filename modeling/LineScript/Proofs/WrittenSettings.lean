/-
Settings that are written to a file are read back from it.

What is written for a key is one line, `key = text`, and the three lines
may come in any order. A marker and a suffix are written as they are; a
separator is spelt, since a carriage return and a line feed would end the
line. What reading takes away again, white space around the line, around
the key and around the text, must not belong to the value, and a text must
be read as the separator it was spelt from: these are the conditions of
`Writable`.
-/
import LineScript.Proofs.SettingsFiles

set_option autoImplicit false

namespace LineScript

-- ==================================================== the ends of a text

namespace Text

variable {p q : Char → Prop} {text : Text}

/-- Where every character is spelt on its own, the spelling of a text ends
as the spellings of its ends do. -/
theorem Ends.flatMap {f : Char → Text} (h : Ends p text)
    (hf : ∀ c, p c → f c ≠ [] ∧ Ends q (f c)) : Ends q (text.flatMap f) := by
  constructor
  · intro d hd
    cases text with
    | nil => cases hd
    | cons c rest =>
        obtain ⟨hne, hends⟩ := hf c (h.first c rfl)
        rw [List.flatMap_cons, List.head?_append_of_ne_nil _ hne] at hd
        exact hends.first d hd
  · intro d hd
    rcases List.eq_nil_or_concat text with rfl | ⟨front, c, rfl⟩
    · cases hd
    · obtain ⟨hne, hends⟩ := hf c (h.last c (by simp))
      rw [List.concat_eq_append, List.flatMap_append, List.flatMap_singleton,
        List.getLast?_append_of_ne_nil _ hne] at hd
      exact hends.last d hd

-- ======================================================= spelled phrases

/-- A phrase is replaced character by character where it never begins
within one spelling and ends in the next. -/
theorem replace_flatMap {phrase substitute : Text} {f g : Char → Text}
    (h : ∀ c ∈ text, ∀ rest,
      replace phrase substitute (f c ++ rest)
        = g c ++ replace phrase substitute rest) :
    replace phrase substitute (text.flatMap f) = text.flatMap g := by
  induction text with
  | nil => rfl
  | cons c text ih =>
      rw [List.flatMap_cons, List.flatMap_cons, h c List.mem_cons_self,
        ih fun d hd => h d (List.mem_cons_of_mem c hd)]

theorem replace_cons_of_ne {c d : Char} (h : c ≠ d)
    (phrase substitute rest : Text) :
    replace (d :: phrase) substitute (c :: rest)
      = c :: replace (d :: phrase) substitute rest := by
  unfold replace
  rw [replaceFrom, startsWith_cons_of_ne rest phrase h, if_neg (by simp)]

/-- A phrase of two characters is replaced where it stands. -/
theorem replace_cons_cons_self (c d : Char) (substitute rest : Text) :
    replace [c, d] substitute (c :: d :: rest)
      = substitute ++ replace [c, d] substitute rest := by
  unfold replace
  rw [replaceFrom, if_pos ⟨List.cons_ne_nil c [d], by simp [startsWith]⟩]
  rfl

/-- It is not found where only its first character stands. -/
theorem replace_cons_cons_of_ne {c d e : Char} (hd : e ≠ d) (hc : e ≠ c)
    (substitute rest : Text) :
    replace [c, d] substitute (c :: e :: rest)
      = c :: e :: replace [c, d] substitute rest := by
  rw [← replace_cons_of_ne hc]
  unfold replace
  rw [replaceFrom, if_neg]
  intro h
  simp [startsWith, List.isPrefixOf, Ne.symm hd] at h

end Text

namespace Settings

-- ================================================ statement vocabulary

/-- How a character of a separator is written. -/
def spellChar (c : Char) : Text :=
  if c = '\r' then ['\\', 'r'] else if c = '\n' then ['\\', 'n'] else [c]

/-- How a value for a key is written. -/
def Key.spelling : (key : Key) → key.Value → Text
  | .comment, value => value
  | .separator, none => "auto".toList
  | .separator, some marks => marks.flatMap spellChar
  | .extension, value => value

/-- The line for a key of some settings. -/
def written (settings : Settings) (key : Key) : Text :=
  key.name ++ " = ".toList ++ key.spelling (settings.value key)

/-- A value that stands on a line as it is. -/
structure OnLine (value : Text) : Prop where
  feed : '\n' ∉ value
  tight : Text.Tight value

/-- A separator that can be spelt. -/
structure Spellable (separator : Text) : Prop where
  ne_nil : separator ≠ []
  backslash : '\\' ∉ separator
  ends : Text.Ends (fun c => c = '\r' ∨ c = '\n' ∨ isBlank c = false) separator
  noWord : ∀ word ∈ ["auto", "lf", "crlf", "cr"], separator ≠ word.toList

/-- Settings that a file can hold. -/
structure Writable (settings : Settings) : Prop where
  marker : OnLine settings.marker
  separator : ∀ separator, settings.separator = some separator →
    Spellable separator
  suffix : OnLine settings.suffix

variable {settings : Settings} {text separator : Text} {key : Key}

-- ======================================================== the separator

/-- How a character is written whose carriage returns are read already. -/
def spellFeed (c : Char) : Text := if c = '\n' then ['\\', 'n'] else [c]

/-- The carriage returns are read first, and what is spelt a line feed
stays. -/
theorem replace_return_spelt (h : '\\' ∉ separator) :
    Text.replace ['\\', 'r'] ['\r'] (separator.flatMap spellChar)
      = separator.flatMap spellFeed := by
  refine Text.replace_flatMap fun c hc rest => ?_
  by_cases hreturn : c = '\r'
  · subst hreturn
    exact Text.replace_cons_cons_self '\\' 'r' ['\r'] rest
  · unfold spellChar spellFeed
    rw [if_neg hreturn]
    by_cases hfeed : c = '\n'
    · subst hfeed
      exact Text.replace_cons_cons_of_ne (by decide) (by decide) ['\r'] rest
    · rw [if_neg hfeed]
      exact Text.replace_cons_of_ne (ne_of_mem_of_not_mem hc h)
        ['r'] ['\r'] rest

theorem replace_feed_spelt (h : '\\' ∉ separator) :
    Text.replace ['\\', 'n'] ['\n'] (separator.flatMap spellFeed)
      = separator := by
  rw [Text.replace_flatMap (g := fun c => [c]), List.flatMap_singleton']
  intro c hc rest
  unfold spellFeed
  by_cases hfeed : c = '\n'
  · subst hfeed
    exact Text.replace_cons_cons_self '\\' 'n' ['\n'] rest
  · rw [if_neg hfeed]
    exact Text.replace_cons_of_ne (ne_of_mem_of_not_mem hc h) ['n'] ['\n'] rest

theorem feed_not_mem_spellChar (c : Char) : '\n' ∉ spellChar c := by
  unfold spellChar
  split
  · decide
  · split
    · decide
    next hfeed => simpa using Ne.symm hfeed

/-- A character is written as it is or behind a backslash. -/
theorem spellChar_eq_or (c : Char) :
    spellChar c = [c] ∨ '\\' ∈ spellChar c := by
  unfold spellChar
  split
  · exact .inr (by decide)
  · split
    · exact .inr (by decide)
    · exact .inl rfl

/-- A spelling without a backslash is the separator as it is. -/
theorem spelling_eq_self (h : '\\' ∉ separator.flatMap spellChar) :
    separator.flatMap spellChar = separator := by
  have hplain : ∀ c ∈ separator, spellChar c = [c] := fun c hc =>
    (spellChar_eq_or c).resolve_right fun hmem =>
      h (List.mem_flatMap.2 ⟨c, hc, hmem⟩)
  rw [List.flatMap_congr hplain, List.flatMap_singleton']

/-- No separator that can be spelt is spelt like one of the four words. -/
theorem Spellable.spelling_ne_word (h : Spellable separator) {word : String}
    (hword : word ∈ ["auto", "lf", "crlf", "cr"]) :
    separator.flatMap spellChar ≠ word.toList := by
  intro heq
  have hwords : ∀ word ∈ ["auto", "lf", "crlf", "cr"], '\\' ∉ word.toList := by
    decide
  refine h.noWord word hword ?_
  rw [← heq, spelling_eq_self]
  rw [heq]
  exact hwords word hword

/-- A separator that can be spelt is read from its spelling. -/
theorem Spellable.separatorNamed?_spelling (h : Spellable separator) :
    separatorNamed? (separator.flatMap spellChar) = some (some separator) := by
  have hword : ∀ word ∈ ["auto", "lf", "crlf", "cr"],
      separator.flatMap spellChar ≠ word.toList :=
    fun word => h.spelling_ne_word
  have hempty : separator.isEmpty ≠ true :=
    fun hnil => h.ne_nil (List.isEmpty_iff.1 hnil)
  unfold separatorNamed?
  rw [if_neg (hword "auto" (by decide)), if_neg (hword "lf" (by decide)),
    if_neg (hword "crlf" (by decide)), if_neg (hword "cr" (by decide)),
    replace_return_spelt h.backslash, replace_feed_spelt h.backslash]
  exact if_neg hempty

theorem ends_spellChar {c : Char}
    (h : c = '\r' ∨ c = '\n' ∨ isBlank c = false) :
    spellChar c ≠ [] ∧ Text.Tight (spellChar c) := by
  unfold spellChar
  split
  · exact ⟨List.cons_ne_nil _ _, by decide⟩
  next hreturn =>
    split
    · exact ⟨List.cons_ne_nil _ _, by decide⟩
    next hfeed =>
      have hc : isBlank c = false :=
        (h.resolve_left hreturn).resolve_left hfeed
      refine ⟨List.cons_ne_nil _ _, fun d hd => ?_, fun d hd => ?_⟩
      · cases hd
        exact hc
      · cases hd
        exact hc

theorem Spellable.onLine (h : Spellable separator) :
    OnLine (separator.flatMap spellChar) := by
  refine ⟨fun hfeed => ?_, h.ends.flatMap fun c => ends_spellChar⟩
  obtain ⟨c, -, hc⟩ := List.mem_flatMap.1 hfeed
  exact feed_not_mem_spellChar c hc

-- ============================================================= the lines

/-- What is written for a key stands on a line, and the value is read from
it. -/
theorem Writable.spelling (h : Writable settings) (key : Key) :
    OnLine (key.spelling (settings.value key))
      ∧ key.value? (key.spelling (settings.value key))
        = some (settings.value key) := by
  cases key with
  | comment => exact ⟨h.marker, rfl⟩
  | extension => exact ⟨h.suffix, rfl⟩
  | separator =>
      rw [value]
      cases hmarks : settings.separator with
      | none => exact ⟨⟨by decide, by decide⟩, rfl⟩
      | some marks =>
          have hspellable := h.separator marks hmarks
          exact ⟨hspellable.onLine, hspellable.separatorNamed?_spelling⟩

/-- White space in front of a text stays if the text does. -/
theorem trimEnd_space_cons (h : Text.Tight text) :
    Text.trim (Text.trimEnd (' ' :: text)) = text := by
  by_cases hempty : text = []
  · subst hempty
    rfl
  · have hkept : Text.trimEnd (' ' :: text) = ' ' :: text := by
      rw [Text.trimEnd_cons_of_ne_nil (by rwa [h.trimEnd_eq]), h.trimEnd_eq]
    rw [hkept, Text.trim, Text.trimStart_cons_of_blank (by decide),
      ← Text.trim, h.trim_eq]

theorem trim_written (key : Key) (text : Text) :
    Text.trim (key.name ++ " = ".toList ++ text)
      = key.name ++ [' '] ++ '=' :: Text.trimEnd (' ' :: text) := by
  have hstart : Text.trimStart (key.name ++ " = ".toList ++ text)
      = key.name ++ [' '] ++ ('=' :: ' ' :: text) := by
    cases key <;> rfl
  have hequals : Text.trimEnd ('=' :: ' ' :: text)
      = '=' :: Text.trimEnd (' ' :: text) := by
    by_cases h : Text.trimEnd (' ' :: text) = []
    · rw [Text.trimEnd_cons_of_nil h, h]
      rfl
    · exact Text.trimEnd_cons_of_ne_nil h
  rw [Text.trim, hstart,
    Text.trimEnd_append (by rw [hequals]; exact List.cons_ne_nil _ _), hequals]

theorem Key.name_eq_cons (key : Key) :
    ∃ c rest, key.name = c :: rest ∧ c ≠ '#' ∧ c ≠ ';' := by
  cases key with
  | comment => exact ⟨'c', "omment".toList, rfl, by decide, by decide⟩
  | separator => exact ⟨'s', "eparator".toList, rfl, by decide, by decide⟩
  | extension => exact ⟨'e', "xtension".toList, rfl, by decide, by decide⟩

/-- The line for a key assigns what is written for it. -/
theorem assigns_written (h : Text.Tight text) (key : Key) :
    Assigns (key.name ++ " = ".toList ++ text) key.name text := by
  have hline := trim_written key text
  have hspeaks : Speaks (key.name ++ " = ".toList ++ text) := by
    obtain ⟨c, rest, hname, hhash, hsemicolon⟩ := key.name_eq_cons
    rw [hname] at hline ⊢
    refine ⟨?_, ?_, ?_⟩
    · rw [hline]
      exact List.cons_ne_nil _ _
    · rw [hline]
      exact fun heq => hhash (Option.some.inj heq)
    · rw [hline]
      exact fun heq => hsemicolon (Option.some.inj heq)
  have hequals : '=' ∉ key.name ++ [' '] := by cases key <;> decide
  have hword : Text.trim (key.name ++ [' ']) = key.name := by
    have htight : Text.Tight key.name := by cases key <;> decide
    rw [Text.trim, Text.trimEnd_trimStart,
      Text.trimEnd_append_of_blank (by decide), ← Text.trimEnd_trimStart,
      ← Text.trim, htight.trim_eq]
  exact ⟨hspeaks, _, _, hline, hequals, hword, trimEnd_space_cons h⟩

theorem Writable.gives (h : Writable settings) (key : Key) :
    Gives key (settings.written key) (settings.value key) :=
  ⟨_, assigns_written (h.spelling key).1.tight key, (h.spelling key).2⟩

theorem Writable.feed_not_mem_written (h : Writable settings) (key : Key) :
    '\n' ∉ settings.written key := by
  have hname : '\n' ∉ key.name ++ " = ".toList := by cases key <;> decide
  unfold written
  rw [List.mem_append, not_or]
  exact ⟨hname, (h.spelling key).1.feed⟩

-- ============================================================== the file

theorem ext_value {a b : Settings} (h : ∀ key, a.value key = b.value key) :
    a = b := by
  obtain ⟨marker, separator, suffix⟩ := a
  obtain ⟨marker', separator', suffix'⟩ := b
  have hmarker : marker = marker' := h .comment
  have hseparator : separator = separator' := h .separator
  have hsuffix : suffix = suffix' := h .extension
  rw [hmarker, hseparator, hsuffix]

theorem Faulty.speaks {raw : Text} {fault : LineFault} (h : Faulty raw fault) :
    Speaks raw := by
  cases h with
  | noEquals h => exact h
  | unknownKey h => exact h.1
  | emptySeparator h => exact h.1

/-- Lines that give what some settings hold, and leave out no key, are
read as those settings. -/
theorem readLines_of_given {raws : List Text}
    (hall : ∀ key, ∃ raw ∈ raws, Gives key raw (settings.value key))
    (honly : ∀ raw ∈ raws, ¬ Speaks raw
      ∨ ∃ key, Gives key raw (settings.value key)) :
    settle {} raws = settings ∧ complaints 1 raws = [] := by
  constructor
  · refine ext_value fun key => ?_
    rcases value_settle key raws with
      ⟨value, ⟨front, raw, back, rfl, hgives, -⟩, hvalue⟩ | ⟨hnowhere, -⟩
    · rw [hvalue {}]
      rcases honly raw (List.mem_append_right _ List.mem_cons_self)
        with hsilent | ⟨key', hown⟩
      · obtain ⟨-, ⟨hspeaks, -⟩, -⟩ := hgives
        exact absurd hspeaks hsilent
      · obtain ⟨rfl, hsame⟩ := hgives.unique hown
        exact eq_of_heq hsame
    · obtain ⟨raw, hraw, hgives⟩ := hall key
      exact absurd hgives (hnowhere raw hraw _)
  · refine List.eq_nil_iff_forall_not_mem.2 fun complaint hmem => ?_
    obtain ⟨i, raw, -, hget, hfaulty⟩ := mem_complaints_iff.1 hmem
    rcases honly raw (List.mem_of_getElem? hget) with hsilent | ⟨key, hgives⟩
    · exact hsilent hfaulty.speaks
    · exact hgives.not_faulty hfaulty

/-- Settings that are written to a file are read back, in whatever order
the lines are, and whether or not the last one is ended. -/
theorem ofFile_written (h : Writable settings) {lines : List Text}
    (hlines : lines.Perm
      ([.comment, .separator, .extension].map settings.written)) :
    ofFile (Text.unlines lines) = (settings, [])
      ∧ ofFile (Text.unlines lines ++ ['\n']) = (settings, []) := by
  have hkeys : ∀ key : Key, key ∈ [Key.comment, .separator, .extension] := by
    intro key
    cases key <;> decide
  have hall : ∀ key, settings.written key ∈ lines := fun key =>
    hlines.mem_iff.2 (List.mem_map_of_mem (hkeys key))
  have honly : ∀ raw ∈ lines, ∃ key, settings.written key = raw := by
    intro raw hraw
    obtain ⟨key, -, hkey⟩ := List.mem_map.1 (hlines.mem_iff.1 hraw)
    exact ⟨key, hkey⟩
  have hfile : fileLines (Text.unlines lines) = lines := by
    refine Text.splitOn_unlines (List.ne_nil_of_mem (hall .comment))
      fun raw hraw => ?_
    obtain ⟨key, rfl⟩ := honly raw hraw
    exact h.feed_not_mem_written key
  have hended : fileLines (Text.unlines lines ++ ['\n']) = lines ++ [[]] := by
    have happend : fileLines (Text.unlines lines ++ ['\n'])
        = fileLines (Text.unlines lines) ++ fileLines [] :=
      Text.splitOn_append_cons (Text.unlines lines) []
    rw [happend, hfile]
    rfl
  have hgives : ∀ raw ∈ lines, ∃ key, Gives key raw (settings.value key) := by
    intro raw hraw
    obtain ⟨key, rfl⟩ := honly raw hraw
    exact ⟨key, h.gives key⟩
  constructor
  · obtain ⟨hsettings, hcomplaints⟩ := readLines_of_given
      (fun key => ⟨_, hall key, h.gives key⟩)
      (fun raw hraw => .inr (hgives raw hraw))
    rw [ofFile_eq, hfile, hsettings, hcomplaints]
  · have heach : ∀ raw ∈ lines ++ [[]],
        ¬ Speaks raw ∨ ∃ key, Gives key raw (settings.value key) := by
      intro raw hraw
      rcases List.mem_append.1 hraw with hline | hempty
      · exact .inr (hgives raw hline)
      · rw [List.mem_singleton.1 hempty]
        exact .inl (not_speaks_of_blank rfl)
    obtain ⟨hsettings, hcomplaints⟩ := readLines_of_given
      (fun key => ⟨_, List.mem_append_left _ (hall key), h.gives key⟩) heach
    rw [ofFile_eq, hended, hsettings, hcomplaints]

/-- For instance, settings whose values look like comments, assignments and
line ends, written last key first. -/
theorem ofFile_written_of_marks :
    ofFile "extension = .a b\nseparator = ;\\r\\n =\\r\ncomment = #=;".toList
      = (⟨"#=;".toList, some ";\r\n =\r".toList, ".a b".toList⟩, []) := by
  have h : Writable
      ⟨"#=;".toList, some ";\r\n =\r".toList, ".a b".toList⟩ := by
    refine ⟨⟨by decide, by decide⟩, fun separator hseparator => ?_,
      ⟨by decide, by decide⟩⟩
    obtain rfl := Option.some.inj hseparator
    exact ⟨by decide, by decide, by decide, by decide⟩
  exact (ofFile_written h (List.reverse_perm _)).1

end Settings

end LineScript
