/-
What is left of a script when it is prepared for a run, exactly.

# The record

A hook is a function, so that it is called once for a line and not twice
is nothing that its answers show. Its calls are made visible by a hook
that keeps a record of them in its own state (`Hook.recorded`). The
record changes nothing else (`readFrom_recorded`), and what is said of it
is what is said of the calls.

# The invariant

The lines are read from first to last, and four things have to stay in
step: the entries of the table, the indices of the lines, the labels and
the calls. The invariant (`ReadThrough`) says of the lines read so far
what all four are. One more line either extends it or is refused
(`ReadThrough.concat`, `ReadThrough.refusedAt`), and once a line is
refused nothing more is read (`RefusedAt.concat`). So the induction is on
the lines from the end: a script is a shorter script and its last line.
-/
import LineScript.Host.Memory
import LineScript.Proofs.Reading

set_option autoImplicit false

namespace LineScript

variable {σ η : Type}

-- ================================================ statement vocabulary

/-- A line that a hook was offered, and the hook's answer. -/
structure Offer where
  index : Nat
  raw : Text
  answer : Except Failure (Option Text)

def Offer.line (offer : Offer) : Nat × Text := (offer.index, offer.raw)

/-- A hook that keeps a record of its calls, the latest last. -/
def Hook.recorded (hook : Hook σ) : Hook (σ × List Offer) :=
  fun settings index raw own =>
  let called := hook settings index raw own.1
  (called.1, (called.2, own.2 ++ [⟨index, raw, called.1⟩]))

namespace Engine

/-- An engine for reading only, whose hook keeps a record. -/
def recorded (engine : Engine σ) : Engine (σ × List Offer) where
  settings := engine.settings
  hook := engine.hook.recorded
  commands := .empty

/-- Calls of the hook one after the other, each with the own state that
the one before left. -/
inductive Consulted (engine : Engine σ) (own : σ) : List Offer → σ → Prop
  | none : Consulted engine own [] own
  | concat {offers : List Offer} {before after : σ} {index : Nat} {raw : Text}
      {answer : Except Failure (Option Text)}
      (h : Consulted engine own offers before)
      (hcall : engine.hook engine.settings index raw before
        = (answer, after)) :
      Consulted engine own (offers ++ [⟨index, raw, answer⟩]) after

/-- The kind of a line. -/
def kind (engine : Engine σ) (raw : Text) : LineKind :=
  Line.classify engine.settings.marker raw

/-- The lines that are a matter of the language, with their indices. -/
def otherLines (engine : Engine σ) (raws : List Text) : List (Nat × Text) :=
  (raws.zipIdx.filter fun entry => engine.kind entry.1 = .other).map Prod.swap

/-- The line at an index is a label line. -/
def Defines (engine : Engine σ) (raws : List Text) (i : Nat) (name : Text) :
    Prop :=
  ∃ raw, raws[i]? = some raw ∧ engine.kind raw = .label name

/-- A line defines a label that a line above it defines. -/
def Redefines (engine : Engine σ) (raws : List Text) (j : Nat) (name : Text) :
    Prop :=
  engine.Defines raws j name ∧ ∃ i, i < j ∧ engine.Defines raws i name

/-- Lines that have been read: with what calls of the hook, labels and
entries. -/
structure ReadThrough (engine : Engine σ) (raws : List Text)
    (offers : List Offer) (labels : Table Nat) (entries : List Text) :
    Prop where
  length : entries.length = raws.length
  offered : offers.map Offer.line = engine.otherLines raws
  answered : ∀ offer ∈ offers, ∃ replacement, offer.answer = .ok replacement
    ∧ entries[offer.index]? = some (replacement.getD offer.raw)
  emptied : ∀ (i : Nat) (raw : Text), raws[i]? = some raw →
    engine.kind raw ≠ .other → entries[i]? = some []
  label : ∀ name i, labels.get? name = some i ↔ engine.Defines raws i name

/-- Lines of which the one at an index is refused, and none above it. -/
structure RefusedAt (engine : Engine σ) (raws : List Text)
    (offers : List Offer) (labels : Table Nat) (j : Nat) (raw : Text)
    (failure : Failure) : Prop where
  line : raws[j]? = some raw
  offered : offers.map Offer.line = engine.otherLines (raws.take (j + 1))
  above : ∀ i, i < j → ∀ name, ¬ engine.Redefines raws i name
  accepted : ∀ offer ∈ offers, offer.index < j →
    ∃ replacement, offer.answer = .ok replacement
  reason : (∃ name, engine.Redefines raws j name
      ∧ failure = .preprocessing ⟨j, raw⟩ (.labelDefined name))
    ∨ (engine.kind raw = .other ∧ (⟨j, raw, .error failure⟩ : Offer) ∈ offers)
  label : ∀ name i, labels.get? name = some i
    ↔ i < j ∧ engine.Defines raws i name

end Engine

/-- What can be at an index of some things and one more. -/
theorem getElem?_concat_eq_some_iff {α : Type} {items : List α}
    {last found : α} {i : Nat} :
    (items ++ [last])[i]? = some found
      ↔ items[i]? = some found ∨ (i = items.length ∧ found = last) := by
  constructor
  · intro h
    obtain ⟨hi, -⟩ := List.getElem?_eq_some_iff.1 h
    rw [List.length_append, List.length_singleton] at hi
    by_cases hlt : i < items.length
    · rw [List.getElem?_append_left hlt] at h
      exact .inl h
    · obtain rfl : i = items.length := by omega
      rw [List.getElem?_concat_length] at h
      exact .inr ⟨rfl, (Option.some.inj h).symm⟩
  · rintro (h | ⟨rfl, rfl⟩)
    · obtain ⟨hi, -⟩ := List.getElem?_eq_some_iff.1 h
      rw [List.getElem?_append_left hi]
      exact h
    · exact List.getElem?_concat_length

namespace Engine

variable {engine : Engine σ} {raws entries : List Text} {offers : List Offer}
  {labels : Table Nat} {raw : Text}

-- ============================================================ the record

/-- A hook that keeps a record reads a line as it would without. -/
theorem readLine_recorded (engine : Engine σ) (index : Nat)
    (labels : Table Nat) (own : σ) (offers : List Offer) (raw : Text) :
    engine.readLine index labels own raw
      = ((engine.recorded.readLine index labels (own, offers) raw).1,
          (engine.recorded.readLine index labels (own, offers) raw).2.1.1,
          (engine.recorded.readLine index labels (own, offers) raw).2.2) := by
  simp only [readLine, recorded, Hook.recorded]
  generalize Line.classify engine.settings.marker raw = kind
  generalize engine.hook engine.settings index raw own = called
  cases kind with
  | empty => rfl
  | comment => rfl
  | label name =>
      simp only
      split
      · rfl
      · rfl
  | other =>
      obtain ⟨answer, after⟩ := called
      cases answer with
      | ok replacement => rfl
      | error failure => rfl

/-- A script is read with a record as it would be without. -/
theorem readFrom_recorded (engine : Engine σ) (raws : List Text) (index : Nat)
    (labels : Table Nat) (own : σ) (offers : List Offer) :
    engine.readFrom index labels own raws
      = ⟨(engine.recorded.readFrom index labels (own, offers) raws).labels,
          (engine.recorded.readFrom index labels (own, offers) raws).own.1,
          (engine.recorded.readFrom index labels (own, offers)
            raws).lines⟩ := by
  induction raws generalizing index labels own offers with
  | nil => rfl
  | cons raw rest ih =>
      rw [readFrom_cons, readFrom_cons,
        readLine_recorded engine index labels own offers raw]
      rcases engine.recorded.readLine index labels (own, offers) raw with
        ⟨labels', ⟨own', offers'⟩, entry⟩
      cases entry with
      | error failure => rfl
      | ok entry =>
          simp only [Reading.consLine]
          rw [ih (index + 1) labels' own' offers']

-- ========================================================= the last line

/-- Reading lines is reading all but the last, and that one unless one of
them was refused. -/
theorem readFrom_concat (engine : Engine σ) (raws : List Text) (raw : Text)
    (index : Nat) (labels : Table Nat) (own : σ) :
    engine.readFrom index labels own (raws ++ [raw])
      = match engine.readFrom index labels own raws with
        | ⟨labels, own, .error failure⟩ => ⟨labels, own, .error failure⟩
        | ⟨labels, own, .ok entries⟩ =>
          match engine.readLine (index + raws.length) labels own raw with
          | (labels, own, .error failure) => ⟨labels, own, .error failure⟩
          | (labels, own, .ok entry) =>
            ⟨labels, own, .ok (entries ++ [entry])⟩ := by
  induction raws generalizing index labels own with
  | nil =>
      rw [List.nil_append, readFrom_cons]
      simp only [readFrom, List.length_nil, Nat.add_zero]
      rcases engine.readLine index labels own raw with ⟨labels', own', entry⟩
      cases entry with
      | error failure => rfl
      | ok entry => rfl
  | cons first rest ih =>
      rw [List.cons_append, readFrom_cons, readFrom_cons]
      rcases engine.readLine index labels own first with ⟨labels', own', entry⟩
      cases entry with
      | error failure => rfl
      | ok entry =>
          simp only
          rw [ih (index + 1) labels' own']
          rcases engine.readFrom (index + 1) labels' own'
            rest with ⟨labels₁, own₁, lines⟩
          cases lines with
          | error failure => rfl
          | ok entries =>
              simp only [Reading.consLine, Except.map, List.length_cons]
              rw [Nat.add_assoc index 1, Nat.add_comm 1 rest.length]
              rcases engine.readLine (index + (rest.length + 1)) labels₁
                own₁ raw with
                ⟨labels₂, own₂, last⟩
              cases last with
              | error failure => rfl
              | ok last => rfl

theorem otherLines_concat (engine : Engine σ) (raws : List Text) (raw : Text) :
    engine.otherLines (raws ++ [raw])
      = engine.otherLines raws
        ++ if engine.kind raw = .other then [(raws.length, raw)] else [] := by
  unfold otherLines
  rw [List.zipIdx_append, List.filter_append, List.map_append,
    List.zipIdx_singleton, List.filter_singleton, Nat.zero_add]
  by_cases h : engine.kind raw = .other
  · simp [h]
  · simp [h]

theorem Defines.lt_length {i : Nat} {name : Text}
    (h : engine.Defines raws i name) :
    i < raws.length := by
  obtain ⟨raw, hraw, -⟩ := h
  exact (List.getElem?_eq_some_iff.1 hraw).1

theorem defines_concat_iff {i : Nat} {name : Text} :
    engine.Defines (raws ++ [raw]) i name
      ↔ engine.Defines raws i name
        ∨ (i = raws.length ∧ engine.kind raw = .label name) := by
  unfold Defines
  simp only [getElem?_concat_eq_some_iff]
  constructor
  · rintro ⟨found, hfound | ⟨hi, rfl⟩, hkind⟩
    · exact .inl ⟨found, hfound, hkind⟩
    · exact .inr ⟨hi, hkind⟩
  · rintro (⟨found, hfound, hkind⟩ | ⟨hi, hkind⟩)
    · exact ⟨found, .inl hfound, hkind⟩
    · exact ⟨raw, .inr ⟨hi, rfl⟩, hkind⟩

theorem defines_concat_of_lt {i : Nat} {name : Text} (h : i < raws.length) :
    engine.Defines (raws ++ [raw]) i name ↔ engine.Defines raws i name := by
  unfold Defines
  rw [List.getElem?_append_left h]

theorem redefines_concat_of_lt {i : Nat} {name : Text} (h : i < raws.length) :
    engine.Redefines (raws ++ [raw]) i name
      ↔ engine.Redefines raws i name := by
  unfold Redefines
  rw [defines_concat_of_lt h]
  constructor
  · rintro ⟨hi, k, hlt, hk⟩
    exact ⟨hi, k, hlt, (defines_concat_of_lt (Nat.lt_trans hlt h)).1 hk⟩
  · rintro ⟨hi, k, hlt, hk⟩
    exact ⟨hi, k, hlt, (defines_concat_of_lt (Nat.lt_trans hlt h)).2 hk⟩

/-- What can become of a line: the labels, the own state and the calls
afterwards, and the entry or the refusal. -/
inductive LineRead (engine : Engine σ) (index : Nat) (labels : Table Nat)
    (own : σ) (offers : List Offer) (raw : Text) :
    Table Nat → σ → List Offer → Except Failure Text → Prop
  | passed (h : engine.kind raw = .empty ∨ engine.kind raw = .comment) :
      LineRead engine index labels own offers raw labels own offers (.ok [])
  | defines {name : Text} (h : engine.kind raw = .label name)
      (hnew : labels.get? name = none) :
      LineRead engine index labels own offers raw (labels.insert name index)
        own offers (.ok [])
  | redefines {name : Text} {i : Nat} (h : engine.kind raw = .label name)
      (hold : labels.get? name = some i) :
      LineRead engine index labels own offers raw labels own offers
        (.error (.preprocessing ⟨index, raw⟩ (.labelDefined name)))
  | accepted {replacement : Option Text} {after : σ}
      (h : engine.kind raw = .other)
      (hcall : engine.hook engine.settings index raw own
        = (.ok replacement, after)) :
      LineRead engine index labels own offers raw labels after
        (offers ++ [⟨index, raw, .ok replacement⟩])
        (.ok (replacement.getD raw))
  | rejected {failure : Failure} {after : σ} (h : engine.kind raw = .other)
      (hcall : engine.hook engine.settings index raw own
        = (.error failure, after)) :
      LineRead engine index labels own offers raw labels after
        (offers ++ [⟨index, raw, .error failure⟩]) (.error failure)

theorem lineRead (engine : Engine σ) (index : Nat) (labels : Table Nat)
    (own : σ) (offers : List Offer) (raw : Text) :
    engine.LineRead index labels own offers raw
      (engine.recorded.readLine index labels (own, offers) raw).1
      (engine.recorded.readLine index labels (own, offers) raw).2.1.1
      (engine.recorded.readLine index labels (own, offers) raw).2.1.2
      (engine.recorded.readLine index labels (own, offers) raw).2.2 := by
  simp only [readLine, recorded, Hook.recorded]
  generalize hkind : Line.classify engine.settings.marker raw = kind
  generalize hcall : engine.hook engine.settings index raw own = called
  cases kind with
  | empty => exact .passed (.inl hkind)
  | comment => exact .passed (.inr hkind)
  | label name =>
      simp only
      split
      next hold =>
        obtain ⟨i, hi⟩ := Option.isSome_iff_exists.1 hold
        exact .redefines hkind hi
      next hnew => exact .defines hkind (Option.not_isSome_iff_eq_none.1 hnew)
  | other =>
      obtain ⟨answer, after⟩ := called
      cases answer with
      | ok replacement => exact .accepted hkind hcall
      | error failure => exact .rejected hkind hcall

/-- Reading a line goes on with the calls. -/
theorem LineRead.consulted {first own own' : σ} {index : Nat}
    {labels' : Table Nat} {offers' : List Offer} {result : Except Failure Text}
    (hline : engine.LineRead index labels own offers raw labels' own'
      offers' result)
    (h : engine.Consulted first offers own) :
    engine.Consulted first offers' own' := by
  cases hline with
  | passed _ => exact h
  | defines _ _ => exact h
  | redefines _ _ => exact h
  | accepted _ hcall => exact h.concat hcall
  | rejected _ hcall => exact h.concat hcall

-- ========================================================= the invariant

theorem readThrough_nil (engine : Engine σ) :
    engine.ReadThrough [] [] .empty [] where
  length := rfl
  offered := rfl
  answered offer h := by cases h
  emptied i raw h := by cases h
  label name i := by
    constructor
    · intro h
      cases h
    · rintro ⟨raw, h, -⟩
      cases h

namespace ReadThrough

variable {own own' : σ} {labels' : Table Nat} {offers' : List Offer}
  {entry : Text} {failure : Failure}

/-- No label is on two lines. -/
theorem unique (h : engine.ReadThrough raws offers labels entries) {i j : Nat}
    {name : Text} (hi : engine.Defines raws i name)
    (hj : engine.Defines raws j name) : i = j := by
  rw [← h.label name i] at hi
  rw [← h.label name j, hi] at hj
  exact Option.some.inj hj

theorem not_redefines (h : engine.ReadThrough raws offers labels entries)
    (j : Nat) (name : Text) : ¬ engine.Redefines raws j name := by
  rintro ⟨hj, i, hlt, hi⟩
  exact absurd (h.unique hi hj) (Nat.ne_of_lt hlt)

/-- The labels of some lines and one more. -/
theorem defines_concat (h : engine.ReadThrough raws offers labels entries)
    (name : Text) (i : Nat) :
    engine.Defines (raws ++ [raw]) i name
      ↔ labels.get? name = some i
        ∨ (i = raws.length ∧ engine.kind raw = .label name) := by
  rw [h.label, defines_concat_iff]

/-- What was answered stays answered when one more line is read. -/
theorem answered_concat (h : engine.ReadThrough raws offers labels entries)
    (entry : Text) :
    ∀ offer ∈ offers, ∃ replacement, offer.answer = .ok replacement
      ∧ (entries ++ [entry])[offer.index]?
        = some (replacement.getD offer.raw) := by
  intro offer hoffer
  obtain ⟨replacement, hanswer, hentry⟩ := h.answered offer hoffer
  exact ⟨replacement, hanswer, getElem?_concat_eq_some_iff.2 (.inl hentry)⟩

/-- One more entry, at the index of the line that it is of. -/
theorem last_entry (h : engine.ReadThrough raws offers labels entries)
    (entry : Text) :
    (entries ++ [entry])[raws.length]? = some entry :=
  getElem?_concat_eq_some_iff.2 (.inr ⟨h.length.symm, rfl⟩)

/-- Blank lines, comments and labels leave nothing, up to the one more
that is read. -/
theorem emptied_concat (h : engine.ReadThrough raws offers labels entries)
    (hentry : engine.kind raw ≠ .other → entry = []) (i : Nat) (found : Text)
    (hfound : (raws ++ [raw])[i]? = some found)
    (hkind : engine.kind found ≠ .other) :
    (entries ++ [entry])[i]? = some [] := by
  rcases getElem?_concat_eq_some_iff.1 hfound with hold | ⟨rfl, rfl⟩
  · exact getElem?_concat_eq_some_iff.2 (.inl (h.emptied i found hold hkind))
  · rw [h.last_entry, hentry hkind]

/-- One more line that is not refused. -/
theorem concat (h : engine.ReadThrough raws offers labels entries)
    (hline : engine.LineRead raws.length labels own offers raw labels' own'
      offers' (.ok entry)) :
    engine.ReadThrough (raws ++ [raw]) offers' labels'
      (entries ++ [entry]) := by
  have hlength : (entries ++ [entry]).length = (raws ++ [raw]).length := by
    rw [List.length_append, List.length_append, h.length]
    rfl
  cases hline with
  | passed hkind =>
      have hnot : engine.kind raw ≠ .other
          ∧ ∀ name, engine.kind raw ≠ .label name := by
        rcases hkind with hkind | hkind
        · simp [hkind]
        · simp [hkind]
      refine ⟨hlength, ?_, h.answered_concat [], h.emptied_concat fun _ => rfl,
        fun name i => ?_⟩
      · rw [otherLines_concat, if_neg hnot.1, List.append_nil]
        exact h.offered
      · rw [h.defines_concat]
        simp [hnot.2 name]
  | @defines name hkind hnew =>
      have hother : engine.kind raw ≠ .other := by simp [hkind]
      refine ⟨hlength, ?_, h.answered_concat [], h.emptied_concat fun _ => rfl,
        fun other i => ?_⟩
      · rw [otherLines_concat, if_neg hother, List.append_nil]
        exact h.offered
      · rw [h.defines_concat, hkind, Table.get?_insert]
        by_cases hname : other = name
        · subst hname
          rw [if_pos rfl, hnew]
          simp [eq_comm]
        · rw [if_neg hname]
          simp [Ne.symm hname]
  | @accepted replacement _ hkind _ =>
      refine ⟨hlength, ?_, ?_,
        h.emptied_concat fun hother => absurd hkind hother, fun name i => ?_⟩
      · rw [otherLines_concat, if_pos hkind, List.map_append, h.offered]
        rfl
      · intro offer hoffer
        rcases List.mem_append.1 hoffer with hold | hnew
        · exact h.answered_concat _ offer hold
        · obtain rfl := List.mem_singleton.1 hnew
          exact ⟨replacement, rfl, h.last_entry _⟩
      · rw [h.defines_concat, hkind]
        simp

/-- The labels of the lines read are those above one more line. -/
theorem label_above (h : engine.ReadThrough raws offers labels entries)
    (raw name : Text) (i : Nat) :
    labels.get? name = some i
      ↔ i < raws.length ∧ engine.Defines (raws ++ [raw]) i name := by
  rw [h.label]
  constructor
  · intro hdefines
    exact ⟨hdefines.lt_length,
      (defines_concat_of_lt hdefines.lt_length).2 hdefines⟩
  · rintro ⟨hlt, hdefines⟩
    exact (defines_concat_of_lt hlt).1 hdefines

/-- One more line that is refused. -/
theorem refusedAt (h : engine.ReadThrough raws offers labels entries)
    (hline : engine.LineRead raws.length labels own offers raw labels'
      own' offers' (.error failure)) :
    engine.RefusedAt (raws ++ [raw]) offers' labels' raws.length raw
      failure := by
  have hlast : (raws ++ [raw])[raws.length]? = some raw :=
    List.getElem?_concat_length
  have htake : (raws ++ [raw]).take (raws.length + 1) = raws ++ [raw] := by
    apply List.take_of_length_le
    rw [List.length_append]
    exact Nat.le_refl _
  have habove : ∀ i, i < raws.length →
      ∀ name, ¬ engine.Redefines (raws ++ [raw]) i name := by
    intro i hi name hredefines
    exact h.not_redefines i name ((redefines_concat_of_lt hi).1 hredefines)
  have haccepted : ∀ offer ∈ offers, ∃ replacement,
      offer.answer = .ok replacement := by
    intro offer hoffer
    obtain ⟨replacement, hanswer, -⟩ := h.answered offer hoffer
    exact ⟨replacement, hanswer⟩
  cases hline with
  | @redefines name i hkind hold =>
      refine ⟨hlast, ?_, habove, fun offer hoffer _ => haccepted offer hoffer,
        .inl ⟨name, ?_, rfl⟩, h.label_above raw⟩
      · rw [htake, otherLines_concat, hkind, h.offered]
        simp
      · have hdefines := (h.label name i).1 hold
        exact ⟨⟨raw, hlast, hkind⟩, i, hdefines.lt_length,
          defines_concat_iff.2 (.inl hdefines)⟩
  | rejected hkind _ =>
      refine ⟨hlast, ?_, habove, ?_,
        .inr ⟨hkind, List.mem_append_right _ List.mem_cons_self⟩,
        h.label_above raw⟩
      · rw [htake, otherLines_concat, if_pos hkind, List.map_append, h.offered]
        rfl
      · intro offer hoffer hlt
        rcases List.mem_append.1 hoffer with hold | hnew
        · exact haccepted offer hold
        · obtain rfl := List.mem_singleton.1 hnew
          exact absurd hlt (Nat.lt_irrefl _)

end ReadThrough

/-- Behind a line that is refused nothing is read. -/
theorem RefusedAt.concat {j : Nat} {refused : Text} {failure : Failure}
    (h : engine.RefusedAt raws offers labels j refused failure) (raw : Text) :
    engine.RefusedAt (raws ++ [raw]) offers labels j refused failure := by
  obtain ⟨hj, -⟩ := List.getElem?_eq_some_iff.1 h.line
  refine ⟨getElem?_concat_eq_some_iff.2 (.inl h.line), ?_, ?_,
    h.accepted, ?_, ?_⟩
  · rw [List.take_append_of_le_length hj]
    exact h.offered
  · intro i hi name hredefines
    exact h.above i hi name
      ((redefines_concat_of_lt (Nat.lt_trans hi hj)).1 hredefines)
  · rcases h.reason with ⟨name, hredefines, hfailure⟩ | hrejected
    · exact .inl ⟨name, (redefines_concat_of_lt hj).2 hredefines, hfailure⟩
    · exact .inr hrejected
  · intro name i
    rw [h.label]
    constructor
    · rintro ⟨hlt, hdefines⟩
      exact ⟨hlt, (defines_concat_of_lt (Nat.lt_trans hlt hj)).2 hdefines⟩
    · rintro ⟨hlt, hdefines⟩
      exact ⟨hlt, (defines_concat_of_lt (Nat.lt_trans hlt hj)).1 hdefines⟩

/-- Reading lines either reads them through or comes to one that is
refused. -/
theorem readFrom_exact (engine : Engine σ) (own : σ) (raws : List Text) :
    match engine.recorded.readFrom 0 .empty (own, []) raws with
    | ⟨labels, (after, offers), .ok entries⟩ =>
      engine.Consulted own offers after
        ∧ engine.ReadThrough raws offers labels entries
    | ⟨labels, (after, offers), .error failure⟩ =>
      engine.Consulted own offers after
        ∧ ∃ j raw, engine.RefusedAt raws offers labels j raw failure := by
  induction raws using List.reverseRecOn with
  | nil => exact ⟨.none, readThrough_nil engine⟩
  | append_singleton raws raw ih =>
      rw [readFrom_concat, Nat.zero_add]
      generalize engine.recorded.readFrom 0 .empty (own, []) raws
        = reading at ih ⊢
      obtain ⟨labels, ⟨own', offers⟩, result⟩ := reading
      cases result with
      | error failure =>
          obtain ⟨hcalls, j, refused, hrefused⟩ := ih
          exact ⟨hcalls, j, refused, hrefused.concat raw⟩
      | ok entries =>
          obtain ⟨hcalls, hthrough⟩ := ih
          have hline := engine.lineRead raws.length labels own' offers raw
          simp only
          generalize engine.recorded.readLine raws.length labels
            (own', offers) raw = line
            at hline ⊢
          obtain ⟨labels', ⟨own₁, offers'⟩, entry⟩ := line
          cases entry with
          | error failure =>
              exact ⟨hline.consulted hcalls, raws.length, raw,
                hthrough.refusedAt hline⟩
          | ok entry => exact ⟨hline.consulted hcalls, hthrough.concat hline⟩

-- ========================================================== the listing

theorem mem_otherLines_iff {i : Nat} :
    (i, raw) ∈ engine.otherLines raws
      ↔ raws[i]? = some raw ∧ engine.kind raw = .other := by
  unfold otherLines
  rw [List.mem_map]
  constructor
  · rintro ⟨⟨found, k⟩, hmem, heq⟩
    obtain ⟨hentry, hkind⟩ := List.mem_filter.1 hmem
    cases heq
    exact ⟨List.mem_zipIdx_iff_getElem?.1 hentry, of_decide_eq_true hkind⟩
  · rintro ⟨hentry, hkind⟩
    exact ⟨(raw, i), List.mem_filter.2 ⟨List.mem_zipIdx_iff_getElem?.2 hentry,
      decide_eq_true hkind⟩, rfl⟩

-- ================================================== comments cut off

/-- The language cuts off trailing comments and does nothing else to a
script, as the script language does. -/
def CutsComments (engine : Engine σ) : Prop :=
  ∀ index raw own, engine.hook engine.settings index raw own
    = (.ok (Line.stripComment? engine.settings.marker raw), own)

theorem IsScript.cutsComments {script : Engine Output} (hs : script.IsScript) :
    script.CutsComments := by
  intro index raw own
  rw [hs.hook]
  rfl

/-- What is left of a line where comments are cut off. -/
def remains (engine : Engine σ) (raw : Text) : Text :=
  if engine.kind raw = .other then
    (Line.stripComment? engine.settings.marker raw).getD raw
  else []

section

variable {own own' : σ} (hcut : engine.CutsComments)
  (hcalls : engine.Consulted own offers own')

include hcut hcalls

theorem CutsComments.answers : ∀ offer ∈ offers,
    offer.answer = .ok
      (Line.stripComment? engine.settings.marker offer.raw) := by
  induction hcalls with
  | none =>
      intro offer hoffer
      cases hoffer
  | concat _ hcall ih =>
      intro offer hoffer
      rw [hcut] at hcall
      cases hcall
      rcases List.mem_append.1 hoffer with hold | hnew
      · exact ih offer hold
      · obtain rfl := List.mem_singleton.1 hnew
        rfl

/-- A script that is read through, as a function of its lines. -/
theorem ReadThrough.entries_eq
    (h : engine.ReadThrough raws offers labels entries) :
    entries = raws.map engine.remains := by
  apply List.ext_getElem?
  intro i
  rw [List.getElem?_map]
  cases hraw : raws[i]? with
  | none =>
      apply List.getElem?_eq_none
      rw [h.length]
      exact List.getElem?_eq_none_iff.1 hraw
  | some raw =>
      rw [Option.map_some, remains]
      by_cases hkind : engine.kind raw = .other
      · have hmem : (i, raw) ∈ offers.map Offer.line := by
          rw [h.offered]
          exact mem_otherLines_iff.2 ⟨hraw, hkind⟩
        obtain ⟨offer, hoffer, hline⟩ := List.mem_map.1 hmem
        cases hline
        obtain ⟨replacement, hanswer, hentry⟩ := h.answered offer hoffer
        rw [hcut.answers hcalls offer hoffer] at hanswer
        cases hanswer
        rw [if_pos hkind]
        exact hentry
      · rw [if_neg hkind]
        exact h.emptied i raw hraw hkind

/-- The only reason to refuse a line is a label that it defines again. -/
theorem RefusedAt.redefines {j : Nat} {failure : Failure}
    (h : engine.RefusedAt raws offers labels j raw failure) :
    ∃ name, engine.Redefines raws j name
      ∧ failure = .preprocessing ⟨j, raw⟩ (.labelDefined name) := by
  rcases h.reason with hlabel | ⟨-, hrejected⟩
  · exact hlabel
  · have hanswer := hcut.answers hcalls _ hrejected
    cases hanswer

end

/-- What reading lines leaves behind where comments are cut off. -/
theorem readFrom_of_cutsComments (hcut : engine.CutsComments) (own : σ)
    (raws : List Text) :
    ∃ offers,
      ((engine.readFrom 0 .empty own raws).lines
        = .ok (raws.map engine.remains)
          ∧ engine.ReadThrough raws offers
            (engine.readFrom 0 .empty own raws).labels
              (raws.map engine.remains))
        ∨ ∃ j raw name,
            (engine.readFrom 0 .empty own raws).lines
                = .error (.preprocessing ⟨j, raw⟩ (.labelDefined name))
              ∧ engine.Redefines raws j name
              ∧ engine.RefusedAt raws offers
                (engine.readFrom 0 .empty own raws).labels j raw
                  (.preprocessing ⟨j, raw⟩ (.labelDefined name)) := by
  have hexact := engine.readFrom_exact own raws
  rw [engine.readFrom_recorded raws 0 .empty own []]
  generalize engine.recorded.readFrom 0 .empty (own, []) raws
    = reading at hexact ⊢
  obtain ⟨labels, ⟨after, offers⟩, lines⟩ := reading
  refine ⟨offers, ?_⟩
  cases lines with
  | ok entries =>
      obtain ⟨hcalls, hthrough⟩ := hexact
      obtain rfl := hthrough.entries_eq hcut hcalls
      exact .inl ⟨rfl, hthrough⟩
  | error failure =>
      obtain ⟨hcalls, j, raw, hrefused⟩ := hexact
      obtain ⟨name, hredefines, rfl⟩ := hrefused.redefines hcut hcalls
      exact .inr ⟨j, raw, name, rfl, hredefines, hrefused⟩

-- ======================================================= preparing a run

variable [Host η]

/-- Preparing a run is reading the pieces of the text. -/
theorem result_preprocess (engine : Engine σ) (text : Text) (state : State σ)
    (host : η) :
    (engine.preprocess text state).result host
      = (((engine.read text state.own).state,
        (engine.read text state.own).listing), host) := by
  simp only [preprocess, Plan.bind_eq, Plan.result_bind, Plan.result_log,
    Plan.result_logAll, Plan.pure_eq_done, Plan.result_done]

/-- Preparing a run, exactly, for every language. Under settings without
a fault, whatever was run before, the text is cut into pieces at the
separator, and the variables are gone afterwards.

- If no piece is refused, there is one entry for each. It is empty for a
  blank line, a comment and a label, and otherwise what the hook put in
  the line's place, if anything, and else the line. The hook was offered
  just the other lines, each once and in order, with its index. The
  labels are those of the label lines, no two of which share one.
- If one is refused, it is the first that defines a label again or that
  the hook rejects, and nothing behind it was offered to the hook.

Where the hook only cuts comments off, a label defined again is the only
reason to refuse a line, and the entries are a function of the lines. -/
theorem preprocess_exact (engine : Engine σ)
    (valid : engine.settings.fault? = none) (text : Text) (state : State σ)
    (host : η) :
    ∃ (raws : List Text) (after : State σ) (offers : List Offer)
        (outcome : Except Failure Listing),
      Text.Cut (engine.settings.separatorFor text) text raws
      ∧ (engine.preprocess text state).result host = ((after, outcome), host)
      ∧ (engine.recorded.preprocess text
            ⟨state.machine, (state.own, [])⟩).result host
          = ((⟨after.machine, (after.own, offers)⟩, outcome), host)
      ∧ engine.Consulted state.own offers after.own
      ∧ after.machine.vars = .empty
      ∧ (∀ listing, outcome = .ok listing →
          engine.ReadThrough raws offers after.machine.labels listing.toList
            ∧ (∀ j name, ¬ engine.Redefines raws j name)
            ∧ (engine.CutsComments → listing.toList = raws.map engine.remains))
      ∧ ∀ failure, outcome = .error failure →
          ∃ j raw,
            engine.RefusedAt raws offers after.machine.labels j raw failure
            ∧ (engine.CutsComments → ∃ name, engine.Redefines raws j name
                ∧ failure = .preprocessing ⟨j, raw⟩ (.labelDefined name)) := by
  have hexact := engine.readFrom_exact state.own (engine.pieces text)
  have hplain :=
    engine.readFrom_recorded (engine.pieces text) 0 .empty state.own []
  have hrecorded : engine.recorded.read text (state.own, [])
      = engine.recorded.readFrom 0 .empty (state.own, [])
        (engine.pieces text) := rfl
  rw [result_preprocess, result_preprocess, hrecorded, read, hplain]
  generalize engine.recorded.readFrom 0 .empty (state.own, [])
    (engine.pieces text) = reading at hexact ⊢
  obtain ⟨labels, ⟨own, offers⟩, lines⟩ := reading
  refine ⟨engine.pieces text, ⟨{ labels := labels }, own⟩, offers,
    lines.map List.toArray,
    Text.cut_splitOn (Settings.separatorFor_ne_nil valid text) text, rfl, rfl,
    ?_, rfl, ?_, ?_⟩
  · cases lines with
    | ok entries => exact hexact.1
    | error failure => exact hexact.1
  · intro listing houtcome
    obtain ⟨entries, rfl, rfl⟩ := map_eq_ok_iff.1 houtcome
    obtain ⟨hcalls, hthrough⟩ := hexact
    exact ⟨hthrough, hthrough.not_redefines,
      fun hcut => hthrough.entries_eq hcut hcalls⟩
  · intro failure houtcome
    obtain rfl := map_eq_error_iff.1 houtcome
    obtain ⟨hcalls, j, raw, hrefused⟩ := hexact
    exact ⟨j, raw, hrefused, fun hcut => hrefused.redefines hcut hcalls⟩

/-- For instance, a label that is defined again: the line behind it is not
offered to the hook any more. -/
theorem preprocess_exact_of_label_again :
    ∃ (raws : List Text) (offers : List Offer) (j : Nat) (raw : Text),
      ((Engine.mk {} (.keep : Hook Unit) .empty).recorded.preprocess
          ":a\nput\n\n:a\nput".toList
          ⟨.fresh, ((), [])⟩).result (⟨.empty⟩ : MemoryHost)
        = ((⟨{ labels := Table.empty.insert "a".toList 0 }, ((), offers)⟩,
            .error (.preprocessing ⟨3, ":a".toList⟩
              (.labelDefined "a".toList))), ⟨.empty⟩)
      ∧ offers.map Offer.line = [(1, "put".toList)]
      ∧ (Engine.mk {} (.keep : Hook Unit) .empty).RefusedAt raws offers
          (Table.empty.insert "a".toList 0) j raw
          (.preprocessing ⟨3, ":a".toList⟩ (.labelDefined "a".toList)) := by
  obtain ⟨raws, after, offers, outcome, -, hplain, hrecorded, -, -, -,
    hrefused⟩ :=
    preprocess_exact (Engine.mk {} (.keep : Hook Unit) .empty) rfl
      ":a\nput\n\n:a\nput".toList ⟨.fresh, ()⟩ (⟨.empty⟩ : MemoryHost)
  have hrun : ((Engine.mk {} (.keep : Hook Unit) .empty).preprocess
      ":a\nput\n\n:a\nput".toList ⟨.fresh, ()⟩).result (⟨.empty⟩ : MemoryHost)
        = ((⟨{ labels := Table.empty.insert "a".toList 0 }, ()⟩,
            .error (.preprocessing ⟨3, ":a".toList⟩
              (.labelDefined "a".toList))), ⟨.empty⟩) := by
    rw [result_preprocess]
    rfl
  rw [hrun] at hplain
  cases hplain
  obtain ⟨j, raw, hrefused, -⟩ := hrefused _ rfl
  have hoffers : offers = [⟨1, "put".toList, .ok none⟩] := by
    rw [result_preprocess] at hrecorded
    cases hrecorded
    rfl
  refine ⟨raws, offers, j, raw, hrecorded, ?_, hrefused⟩
  rw [hoffers]
  rfl

end Engine

end LineScript
