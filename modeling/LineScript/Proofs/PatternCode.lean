/-
What a pattern takes from a text, and that its code takes just that.

A pattern stands for a relation between what is left of a text before it
and behind it (`Node.Takes`): it says which matches there are, and nothing
about which of them is preferred. The code of a pattern is right if,
entered with a text, it can be run to its end exactly when the code it
leads to can be run to its end with some text that the pattern leaves over
(`Runs`). Being right in this sense goes from the parts of code to the
whole, since nothing in it is about where the parts stand.

Only a repetition without a bound has code that leads back to itself. There
the induction is on the steps still to be made: a round makes one step at
least, the one over the split.
-/
import LineScript.Pattern.Search

set_option autoImplicit false

namespace LineScript

namespace Pattern

-- ================================================ statement vocabulary

/-- A number of rounds, each beginning with what the one before left. -/
def Rounds (round : Text → Text → Prop) : (count : Nat) → Text → Text → Prop
  | 0, rest, rest' => rest = rest'
  | count + 1, rest, rest' =>
    ∃ between, round rest between ∧ Rounds round count between rest'

/-- What a pattern may take: in a text of which `rest` is left, whatever
comes before `rest'`. A repetition whose bounds are the
wrong way round, which cannot be written, would be one of `least` rounds. -/
def Node.Takes (text : Text) : Node → Text → Text → Prop
  | .empty, rest, rest' => rest = rest'
  | .one set, rest, rest' => ∃ c, set.has c = true ∧ rest = c :: rest'
  | .look asked, rest, rest' => asked.isAt text rest = true ∧ rest = rest'
  | .sequence first second, rest, rest' =>
    ∃ between, first.Takes text rest between ∧ second.Takes text between rest'
  | .choice first second, rest, rest' =>
    first.Takes text rest rest' ∨ second.Takes text rest rest'
  | .group _ body, rest, rest' => body.Takes text rest rest'
  | .repetition body least most _, rest, rest' =>
    ∃ count, (least ≤ count ∧ ∀ bound ∈ most, count ≤ max least bound)
      ∧ Rounds (body.Takes text) count rest rest'

/-- A pattern that can match a text from its first character to its last. -/
def Node.MatchesWhole (node : Node) (text : Text) : Prop :=
  node.Takes text text []

-- ================================================================= steps

/-- A place: an address in the code, and what is left of the text there. -/
abbrev Place := Nat × Text

/-- The places that an instruction leads to, in a text of which `rest` is
left. -/
def Instr.leads (text : Text) (rest : Text) : Instr → List Place
  | .one set next =>
    match rest with
    | c :: rest => if set.has c then [(next, rest)] else []
    | [] => []
  | .look asked next => if asked.isAt text rest then [(next, rest)] else []
  | .goOn next => [(next, rest)]
  | .split first second => [(first, rest), (second, rest)]
  | .openGroup _ next => [(next, rest)]
  | .closeGroup _ next => [(next, rest)]

/-- The code can be run from a place to its end, in `count` steps. -/
inductive Escapes (code : Array Instr) (text : Text) :
    (count : Nat) → Place → Prop
  | out {address : Nat} {rest : Text} (h : code[address]? = none) :
      Escapes code text 0 (address, rest)
  | step {address count : Nat} {rest : Text} {instr : Instr} {place : Place}
      (hinstr : code[address]? = some instr)
      (hplace : place ∈ instr.leads text rest)
      (h : Escapes code text count place) :
      Escapes code text (count + 1) (address, rest)

variable {code : Array Instr} {text : Text} {rest rest' : Text}
  {base mid next count : Nat}

theorem escapes_iff_of_instr {instr : Instr} (h : code[base]? = some instr) :
    Escapes code text count (base, rest)
      ↔ ∃ left, count = left + 1
        ∧ ∃ place ∈ instr.leads text rest, Escapes code text left place := by
  constructor
  · intro hescapes
    cases hescapes with
    | out hout => exact absurd (hout.symm.trans h) nofun
    | step hinstr hplace hrest =>
        obtain rfl := Option.some.inj (hinstr.symm.trans h)
        exact ⟨_, rfl, _, hplace, hrest⟩
  · intro hway
    obtain ⟨left, hcount, place, hplace, hrest⟩ := hway
    subst hcount
    exact .step h hplace hrest

/-- Code that takes what a relation says and leads to an address. -/
structure Runs (code : Array Instr) (text : Text) (takes : Text → Text → Prop)
    (base next : Nat) :
    Prop where
  complete : ∀ {rest rest' : Text} {count : Nat}, takes rest rest' →
    Escapes code text count (next, rest') →
    ∃ more, Escapes code text more (base, rest)
  sound : ∀ {rest : Text} {count : Nat}, Escapes code text count (base, rest) →
    ∃ rest' left, left ≤ count ∧ takes rest rest'
      ∧ Escapes code text left (next, rest')

namespace Runs

variable {first second round : Text → Text → Prop}

theorem congr (h : Runs code text first base next)
    (heq : ∀ rest rest', first rest rest' ↔ second rest rest') :
    Runs code text second base next := by
  have hsame : first = second :=
    funext fun rest => funext fun rest' => propext (heq rest rest')
  rw [← hsame]
  exact h

/-- No code takes nothing. -/
theorem nothing (base : Nat) :
    Runs code text (fun rest rest' => rest = rest') base base := by
  constructor
  · intro rest rest' count heq h
    subst heq
    exact ⟨count, h⟩
  · intro rest count h
    exact ⟨rest, count, Nat.le_refl count, rfl, h⟩

theorem instr {instr : Instr} {takes : Text → Text → Prop}
    (h : code[base]? = some instr) (hleads : ∀ rest place,
      place ∈ instr.leads text rest
        ↔ ∃ rest', takes rest rest' ∧ place = (next, rest')) :
    Runs code text takes base next := by
  constructor
  · intro rest rest' count htakes hescapes
    exact ⟨count + 1,
      .step h ((hleads rest _).2 ⟨rest', htakes, rfl⟩) hescapes⟩
  · intro rest count hescapes
    obtain ⟨left, hcount, place, hplace, hrest⟩ :=
      (escapes_iff_of_instr h).1 hescapes
    obtain ⟨rest', htakes, hplaceeq⟩ := (hleads rest place).1 hplace
    subst hplaceeq
    exact ⟨rest', left, by omega, htakes, hrest⟩

/-- An instruction that takes nothing and leads to one address. -/
theorem onward {instr : Instr} (h : code[base]? = some instr)
    (hleads : ∀ rest, instr.leads text rest = [(next, rest)]) :
    Runs code text (fun rest rest' => rest = rest') base next := by
  refine Runs.instr h fun rest place => ?_
  rw [hleads, List.mem_singleton]
  constructor
  · exact fun hplace => ⟨rest, rfl, hplace⟩
  · intro htakes
    obtain ⟨rest', heq, hplace⟩ := htakes
    rw [heq, hplace]

theorem sequence (h : Runs code text first base mid)
    (h' : Runs code text second mid next) :
    Runs code text
      (fun rest rest' => ∃ between, first rest between ∧ second between rest')
      base next := by
  constructor
  · intro rest rest' count htakes hescapes
    obtain ⟨between, hfirst, hsecond⟩ := htakes
    obtain ⟨more, hmid⟩ := h'.complete hsecond hescapes
    exact h.complete hfirst hmid
  · intro rest count hescapes
    obtain ⟨between, left, hleft, hfirst, hmid⟩ := h.sound hescapes
    obtain ⟨rest', left', hleft', hsecond, hnext⟩ := h'.sound hmid
    exact ⟨rest', left', Nat.le_trans hleft' hleft,
      ⟨between, hfirst, hsecond⟩, hnext⟩

/-- A split leads on both ways, whichever it prefers. -/
theorem escapes_choose {greedy : Bool} {more leave : Nat}
    (h : code[base]? = some (Code.choose greedy more leave)) :
    Escapes code text count (base, rest)
      ↔ ∃ left, count = left + 1
        ∧ (Escapes code text left (more, rest)
          ∨ Escapes code text left (leave, rest)) := by
  rw [escapes_iff_of_instr h]
  cases greedy <;> simp [Code.choose, Instr.leads, or_comm]

theorem choose {greedy : Bool} {more leave : Nat}
    (h : code[base]? = some (Code.choose greedy more leave))
    (hmore : Runs code text first more next)
    (hleave : Runs code text second leave next) :
    Runs code text (fun rest rest' => first rest rest' ∨ second rest rest')
      base next := by
  constructor
  · intro rest rest' count htakes hescapes
    rcases htakes with hfirst | hsecond
    · obtain ⟨steps, hmid⟩ := hmore.complete hfirst hescapes
      exact ⟨steps + 1, (escapes_choose h).2 ⟨steps, rfl, .inl hmid⟩⟩
    · obtain ⟨steps, hmid⟩ := hleave.complete hsecond hescapes
      exact ⟨steps + 1, (escapes_choose h).2 ⟨steps, rfl, .inr hmid⟩⟩
  · intro rest count hescapes
    obtain ⟨left, hcount, hway⟩ := (escapes_choose h).1 hescapes
    rcases hway with hway | hway
    · obtain ⟨rest', left', hleft, htakes, hnext⟩ := hmore.sound hway
      exact ⟨rest', left', by omega, .inl htakes, hnext⟩
    · obtain ⟨rest', left', hleft, htakes, hnext⟩ := hleave.sound hway
      exact ⟨rest', left', by omega, .inr htakes, hnext⟩

-- =============================================================== rounds

/-- Code behind which a split leads back to its beginning, or on. -/
theorem loop {greedy : Bool} {back : Nat}
    (hround : Runs code text round base back)
    (hback : code[back]? = some (Code.choose greedy base next)) :
    Runs code text
      (fun rest rest' => ∃ count, Rounds round (count + 1) rest rest')
      base next := by
  constructor
  · intro rest rest' steps htakes hescapes
    obtain ⟨count, hrounds⟩ := htakes
    induction count generalizing rest with
    | zero =>
        obtain ⟨between, hfirst, heq⟩ := hrounds
        subst heq
        exact hround.complete hfirst
          ((escapes_choose hback).2 ⟨steps, rfl, .inr hescapes⟩)
    | succ count ih =>
        obtain ⟨between, hfirst, hlater⟩ := hrounds
        obtain ⟨more, hbase⟩ := ih hlater
        exact hround.complete hfirst
          ((escapes_choose hback).2 ⟨more, rfl, .inl hbase⟩)
  · intro rest steps
    -- on the steps still to be made, of which the split takes one
    induction steps using Nat.strongRecOn generalizing rest with
    | ind steps ih =>
        intro hescapes
        obtain ⟨between, left, hleft, hfirst, hsplit⟩ := hround.sound hescapes
        obtain ⟨left', heq, hway⟩ := (escapes_choose hback).1 hsplit
        rcases hway with hmore | hleave
        · obtain ⟨rest', last, hlast, ⟨count, hlater⟩, hnext⟩ :=
            ih left' (by omega) hmore
          exact ⟨rest', last, by omega,
            ⟨count + 1, between, hfirst, hlater⟩, hnext⟩
        · exact ⟨between, left', by omega, ⟨0, between, hfirst, rfl⟩, hleave⟩

/-- A loop that need not be entered. -/
theorem anyRounds {greedy greedy' : Bool} {back : Nat}
    (hbase : code[base]? = some (Code.choose greedy mid next))
    (hround : Runs code text round mid back)
    (hback : code[back]? = some (Code.choose greedy' mid next)) :
    Runs code text (fun rest rest' => ∃ count, Rounds round count rest rest')
      base next := by
  refine (choose hbase (hround.loop hback) (nothing next)).congr
    fun rest rest' => ⟨?_, ?_⟩
  · intro hrounds
    rcases hrounds with ⟨count, hrounds⟩ | heq
    · exact ⟨count + 1, hrounds⟩
    · exact ⟨0, heq⟩
  · intro htakes
    obtain ⟨count, hrounds⟩ := htakes
    cases count with
    | zero => exact .inr hrounds
    | succ count => exact .inl ⟨count, hrounds⟩

end Runs

-- ============================================================= segments

/-- Instructions stand in the code, the first of them at `base`. -/
def Holds (code : Array Instr) (base : Nat) (instrs : List Instr) : Prop :=
  ∀ i instr, instrs[i]? = some instr → code[base + i]? = some instr

theorem holds_cons_iff {instr : Instr} {instrs : List Instr} :
    Holds code base (instr :: instrs)
      ↔ code[base]? = some instr ∧ Holds code (base + 1) instrs := by
  constructor
  · intro h
    refine ⟨h 0 instr rfl, fun i found hfound => ?_⟩
    rw [Nat.add_right_comm]
    exact h (i + 1) found hfound
  · intro hboth i found hfound
    obtain ⟨hfirst, hlater⟩ := hboth
    cases i with
    | zero =>
        rw [← Option.some.inj hfound]
        exact hfirst
    | succ i =>
        have h := hlater i found hfound
        rwa [Nat.add_right_comm] at h

theorem holds_append_iff {front back : List Instr} :
    Holds code base (front ++ back)
      ↔ Holds code base front ∧ Holds code (base + front.length) back := by
  induction front generalizing base with
  | nil => exact ⟨fun h => ⟨nofun, h⟩, fun h => h.2⟩
  | cons instr front ih =>
      rw [List.cons_append, holds_cons_iff, holds_cons_iff, ih, and_assoc,
        List.length_cons, Nat.add_right_comm, Nat.add_assoc]

/-- Code holds itself. -/
theorem holds_toArray (instrs : List Instr) :
    Holds instrs.toArray 0 instrs := by
  intro i instr h
  rw [Nat.zero_add, List.getElem?_toArray]
  exact h

/-- A body takes what a relation says, wherever its code stands and
wherever that leads to. -/
def Body.Sound (code : Array Instr) (text : Text) (body : Body)
    (takes : Text → Text → Prop) : Prop :=
  ∀ base next, Holds code base (body base next) →
    Runs code text takes base next

variable {body : Body} {size least : Nat} {greedy : Bool}
  {takes : Text → Text → Prop}

theorem rounds_add (round : Text → Text → Prop) (first second : Nat)
    (rest rest' : Text) :
    Rounds round (first + second) rest rest'
      ↔ ∃ between, Rounds round first rest between
        ∧ Rounds round second between rest' := by
  induction first generalizing rest with
  | zero => simp [Rounds]
  | succ first ih =>
      rw [Nat.succ_add_eq_add_succ, Nat.add_succ]
      simp only [Rounds, ih]
      constructor
      · intro hrounds
        obtain ⟨between, hfirst, last, hlater, hlast⟩ := hrounds
        exact ⟨last, ⟨between, hfirst, hlater⟩, hlast⟩
      · intro hrounds
        obtain ⟨last, ⟨between, hfirst, hlater⟩, hlast⟩ := hrounds
        exact ⟨between, hfirst, last, hlater, hlast⟩

theorem runs_copies (hbody : body.Sound code text takes)
    (hsize : body.HasSize size)
    (h : Holds code base (Code.copies body size count base)) :
    Runs code text (Rounds takes count) base (base + count * size) := by
  induction count generalizing base with
  | zero =>
      rw [Nat.zero_mul]
      exact Runs.nothing base
  | succ count ih =>
      rw [Code.copies, holds_append_iff, hsize] at h
      have hend : base + (count + 1) * size = base + size + count * size := by
        rw [Nat.succ_mul]
        omega
      rw [hend]
      exact (hbody base (base + size) h.1).sequence (ih h.2)

theorem runs_upTo (hbody : body.Sound code text takes)
    (hsize : body.HasSize size)
    (h : Holds code base (Code.upTo body size greedy count base next)) :
    Runs code text (fun rest rest' =>
      ∃ rounds, rounds ≤ count ∧ Rounds takes rounds rest rest')
      base next := by
  induction count generalizing base with
  | zero =>
      refine (Runs.onward (h 0 _ rfl) fun _ => rfl).congr
        fun rest rest' => ⟨?_, ?_⟩
      · exact fun heq => ⟨0, Nat.le_refl 0, heq⟩
      · intro htakes
        obtain ⟨rounds, hle, hrounds⟩ := htakes
        rw [Nat.le_zero.1 hle] at hrounds
        exact hrounds
  | succ count ih =>
      rw [Code.upTo, holds_cons_iff, holds_append_iff, hsize] at h
      obtain ⟨hsplit, hround, hlater⟩ := h
      have hmore := (hbody _ _ hround).sequence (ih hlater)
      refine (Runs.choose hsplit hmore (Runs.nothing next)).congr
        fun rest rest' => ⟨?_, ?_⟩
      · intro htakes
        rcases htakes with ⟨between, hfirst, rounds, hle, hrounds⟩ | heq
        · exact ⟨rounds + 1, Nat.succ_le_succ hle, between, hfirst, hrounds⟩
        · exact ⟨0, Nat.zero_le _, heq⟩
      · intro htakes
        obtain ⟨rounds, hle, hrounds⟩ := htakes
        cases rounds with
        | zero => exact .inr hrounds
        | succ rounds =>
            obtain ⟨between, hfirst, hrounds⟩ := hrounds
            exact .inl
              ⟨between, hfirst, rounds, Nat.le_of_succ_le_succ hle, hrounds⟩

/-- The code of a repetition makes the rounds that its bounds allow. -/
theorem runs_repetitionCode (hbody : body.Sound code text takes)
    (hsize : body.HasSize size)
    {nullable : Bool} {most : Option Nat}
    (h : Holds code base
      (repetitionCode nullable body size least most greedy base next)) :
    Runs code text
      (fun rest rest' =>
        ∃ count, (least ≤ count ∧ ∀ bound ∈ most, count ≤ max least bound)
        ∧ Rounds takes count rest rest')
      base next := by
  cases most with
  | some most =>
      rw [repetitionCode, holds_append_iff, Code.length_copies hsize] at h
      have hruns :=
        (runs_copies hbody hsize h.1).sequence (runs_upTo hbody hsize h.2)
      refine hruns.congr fun rest rest' => ⟨?_, ?_⟩
      · intro htakes
        obtain ⟨between, hcopies, rounds, hle, hrounds⟩ := htakes
        refine ⟨least + rounds,
          ⟨Nat.le_add_right _ _, fun bound hbound => ?_⟩, ?_⟩
        · obtain rfl := Option.some.inj hbound
          omega
        · exact (rounds_add takes least rounds rest rest').2
            ⟨between, hcopies, hrounds⟩
      · intro htakes
        obtain ⟨count, ⟨hleast, hmost⟩, hrounds⟩ := htakes
        have hbound := hmost most rfl
        obtain ⟨rounds, rfl⟩ := Nat.exists_eq_add_of_le hleast
        obtain ⟨between, hcopies, hrounds⟩ :=
          (rounds_add takes least rounds rest rest').1 hrounds
        exact ⟨between, hcopies, rounds, by omega, hrounds⟩
  | none =>
      have hunbounded : ∀ count, ∀ bound ∈ (none : Option Nat),
          count ≤ max least bound :=
        fun _ bound hbound => absurd hbound (Option.not_mem_none bound)
      cases least with
      | zero =>
          have hany : Runs code text
              (fun rest rest' => ∃ count, Rounds takes count rest rest')
              base next := by
            cases nullable with
            | true =>
                rw [repetitionCode, if_pos rfl, Code.anyNumber,
                  Code.atLeastOne, holds_cons_iff, holds_append_iff,
                  hsize] at h
                exact Runs.anyRounds h.1 (hbody _ _ h.2.1) (h.2.2 0 _ rfl)
            | false =>
                rw [repetitionCode, if_neg Bool.false_ne_true, Code.loop,
                  holds_cons_iff] at h
                exact Runs.anyRounds h.1 (hbody _ _ h.2) h.1
          refine hany.congr fun rest rest' => ⟨?_, ?_⟩
          · intro htakes
            obtain ⟨count, hrounds⟩ := htakes
            exact ⟨count, ⟨Nat.zero_le count, hunbounded count⟩, hrounds⟩
          · intro htakes
            obtain ⟨count, -, hrounds⟩ := htakes
            exact ⟨count, hrounds⟩
      | succ least =>
          rw [repetitionCode, Code.atLeastOne, holds_append_iff,
            holds_append_iff, Code.length_copies hsize, hsize] at h
          obtain ⟨hcopies, hround, hback⟩ := h
          have hloop := Runs.loop (hbody _ _ hround) (hback 0 _ rfl)
          refine ((runs_copies hbody hsize hcopies).sequence hloop).congr
            fun rest rest' => ⟨?_, ?_⟩
          · intro htakes
            obtain ⟨between, hcopies, count, hrounds⟩ := htakes
            refine ⟨least + (count + 1), ⟨by omega, hunbounded _⟩, ?_⟩
            exact (rounds_add takes least (count + 1) rest rest').2
              ⟨between, hcopies, hrounds⟩
          · intro htakes
            obtain ⟨count, ⟨hleast, -⟩, hrounds⟩ := htakes
            obtain ⟨more, rfl⟩ := Nat.exists_eq_add_of_le hleast
            have heq : least + 1 + more = least + (more + 1) := by omega
            rw [heq] at hrounds
            obtain ⟨between, hcopies, hrounds⟩ :=
              (rounds_add takes least (more + 1) rest rest').1 hrounds
            exact ⟨between, hcopies, more, hrounds⟩

/-- The code of a pattern takes what the pattern may take. -/
theorem Node.sound_code (node : Node) :
    Body.Sound code text node.code (node.Takes text) := by
  induction node with
  | empty => exact fun base next h => Runs.onward (h 0 _ rfl) fun _ => rfl
  | one set =>
      intro base next h
      refine Runs.instr (h 0 _ rfl) fun rest place => ?_
      cases rest with
      | nil => simp [Instr.leads, Takes]
      | cons c rest =>
          rw [Instr.leads]
          constructor
          · intro hplace
            split at hplace
            next hc => exact ⟨rest, ⟨c, hc, rfl⟩, List.mem_singleton.1 hplace⟩
            next => exact absurd hplace List.not_mem_nil
          · intro htakes
            obtain ⟨rest', ⟨d, hd, heq⟩, hplace⟩ := htakes
            cases heq
            rw [if_pos hd, hplace]
            exact List.mem_singleton_self _
  | look look =>
      intro base next h
      refine Runs.instr (h 0 _ rfl) fun rest place => ?_
      by_cases hlook : look.isAt text rest = true
      · simp [Instr.leads, Takes, hlook]
      · simp [Instr.leads, Takes, hlook]
  | sequence first second ih ih' =>
      intro base next h
      rw [Node.code, holds_append_iff, first.hasSize_code] at h
      exact (ih _ _ h.1).sequence (ih' _ _ h.2)
  | choice first second ih ih' =>
      intro base next h
      rw [Node.code, holds_cons_iff, holds_append_iff, first.hasSize_code] at h
      have hsplit : code[base]?
          = some (Code.choose true (base + 1) (base + 1 + first.size)) := h.1
      exact Runs.choose hsplit (ih _ _ h.2.1) (ih' _ _ h.2.2)
  | group index body ih =>
      intro base next h
      rw [Node.code, holds_cons_iff, holds_append_iff, body.hasSize_code] at h
      obtain ⟨hopen, hbody, hclose⟩ := h
      have hruns := (Runs.onward hopen fun _ => rfl).sequence
        ((ih _ _ hbody).sequence (Runs.onward (hclose 0 _ rfl) fun _ => rfl))
      refine hruns.congr fun rest rest' => ⟨?_, ?_⟩
      · intro htakes
        obtain ⟨start, hstart, last, htakes, hlast⟩ := htakes
        rwa [hstart, ← hlast]
      · intro htakes
        exact ⟨rest, rfl, rest', htakes, rfl⟩
  | repetition body least most greedy ih =>
      intro base next h
      exact runs_repetitionCode ih body.hasSize_code h

end Pattern

end LineScript
