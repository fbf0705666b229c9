/-
What the groups of a match took.

A search that finds a match also says what its groups took. A thread notes
down where a group begins, and when the group ends it notes down the text
since then. What a match can come with is a matter of the pattern alone:
`Node.Finds` is `Node.Takes` with the texts of the groups, the latest
first, and the match that a search finds is one of these
(`finds_of_search`). Which one, where a pattern can match a text in several
ways, is a matter of preference and not said here.

Groups are told apart by their numbers. A group inside a group of the same
number would overwrite the place where the outer one began, so such
patterns are left out (`Node.unnested`); no pattern that is read from its
written form is one, since the numbers count the opening brackets.

The argument follows the code as for matches without groups, but only in
the one direction: from a thread that leaves the code back to what the
pattern says.
-/
import LineScript.Proofs.PatternSearch

set_option autoImplicit false

namespace LineScript

namespace Pattern

-- ================================================ statement vocabulary

/-- The texts that numbered groups took, the latest first. -/
abbrev GroupTexts := List (Nat × Text)

/-- A relation between what is left of a text before a match and behind it,
and what the groups of the match took. -/
abbrev Finding := Text → Text → GroupTexts → Prop

namespace Finding

/-- Nothing is taken. -/
def nothing : Finding := fun rest rest' found => rest = rest' ∧ found = []

/-- One match and then another. -/
def andThen (first second : Finding) : Finding := fun rest rest' found =>
  ∃ between earlier later,
    first rest between earlier ∧ second between rest' later
    ∧ found = later ++ earlier

/-- A number of matches, one behind the other. -/
def rounds (round : Finding) : (count : Nat) → Finding
  | 0 => nothing
  | count + 1 => round.andThen (rounds round count)

end Finding

/-- What a pattern may take, as `Takes` says it, together with what its
groups take on the way. -/
def Node.Finds (text : Text) : Node → Finding
  | .empty => .nothing
  | .one set => fun rest rest' found =>
    ∃ c, set.has c = true ∧ rest = c :: rest' ∧ found = []
  | .look asked => fun rest rest' found =>
    asked.isAt text rest = true ∧ rest = rest' ∧ found = []
  | .sequence first second => (first.Finds text).andThen (second.Finds text)
  | .choice first second => fun rest rest' found =>
    first.Finds text rest rest' found ∨ second.Finds text rest rest' found
  | .group index body => fun rest rest' found =>
    ∃ inner, body.Finds text rest rest' inner
      ∧ found = (index, rest.take (rest.length - rest'.length)) :: inner
  | .repetition body least most _ => fun rest rest' found =>
    ∃ count, (least ≤ count ∧ ∀ bound ∈ most, count ≤ max least bound)
      ∧ (Finding.rounds (body.Finds text)) count rest rest' found

/-- The numbers of the groups in a pattern. -/
def Node.indices : Node → List Nat
  | .empty | .one _ | .look _ => []
  | .sequence first second => first.indices ++ second.indices
  | .choice first second => first.indices ++ second.indices
  | .group index body => index :: body.indices
  | .repetition body _ _ _ => body.indices

/-- Whether no group of a pattern is inside a group of the same number. -/
def Node.unnested : Node → Bool
  | .empty | .one _ | .look _ => true
  | .sequence first second => first.unnested && second.unnested
  | .choice first second => first.unnested && second.unnested
  | .group index body => decide (index ∉ body.indices) && body.unnested
  | .repetition body _ _ _ => body.unnested

-- ================================================================ threads

/-- From one thread to a later one something was taken and the texts of
groups were noted down; where groups began was noted down anew only for
some numbers. -/
structure Thread.Passes (indices : List Nat) (finding : Finding)
    (thread thread' : Thread) :
    Prop where
  groups : ∃ found, finding thread.rest thread'.rest found
    ∧ thread'.groups = found ++ thread.groups
  begun : ∀ index ∉ indices,
    thread'.begun.lookup index = thread.begun.lookup index

/-- A thread can be run to the end of the code, in `count` steps, and
`found` is the thread that arrives there. -/
inductive Exits (code : Array Instr) (text : Text) :
    (count : Nat) → Thread → Thread → Prop
  | out {thread : Thread} (h : code[thread.address]? = none) :
      Exits code text 0 thread thread
  | step {thread next found : Thread} {instr : Instr} {count : Nat}
      (hinstr : code[thread.address]? = some instr)
      (hnext : next ∈ thread.ways text instr)
      (h : Exits code text count next found) :
      Exits code text (count + 1) thread found

/-- Code in which every thread that leaves it has passed from one address
to another. -/
def Carries (code : Array Instr) (text : Text) (indices : List Nat)
    (finding : Finding) (base next : Nat) : Prop :=
  ∀ (thread found : Thread) (count : Nat), thread.address = base →
    Exits code text count thread found →
      ∃ thread' left, left ≤ count
        ∧ thread'.address = next ∧ thread.Passes indices finding thread'
        ∧ Exits code text left thread' found

variable {code : Array Instr} {text : Text} {indices : List Nat}
  {base mid next count : Nat} {first second round : Finding}
  {thread thread' thread'' found : Thread}

theorem exits_of_instr {instr : Instr} (h : code[thread.address]? = some instr)
    (hexits : Exits code text count thread found) :
    ∃ left, count = left + 1
      ∧ ∃ next ∈ thread.ways text instr, Exits code text left next found := by
  cases hexits with
  | out hout => exact absurd (hout.symm.trans h) nofun
  | step hinstr hnext hrest =>
      obtain rfl := Option.some.inj (hinstr.symm.trans h)
      exact ⟨_, rfl, _, hnext, hrest⟩

/-- What a search finds has come from one of the threads at its start. -/
theorem exits_of_searchFrom {fuel visited : Nat} {threads : List Thread}
    (h : searchFrom code text fuel visited threads = some found) :
    ∃ thread ∈ threads, ∃ count, Exits code text count thread found := by
  fun_induction searchFrom code text fuel visited threads with
  | case1 => cases h
  | case2 => cases h
  | case3 fuel visited thread others hout =>
      cases h
      exact ⟨found, List.mem_cons_self, 0, .out hout⟩
  | case4 fuel visited thread others instr hinstr key hvisited ih =>
      obtain ⟨start, hstart, count, hexits⟩ := ih h
      exact ⟨start, List.mem_cons_of_mem thread hstart, count, hexits⟩
  | case5 fuel visited thread others instr hinstr key hvisited ih =>
      obtain ⟨start, hstart, count, hexits⟩ := ih h
      rcases List.mem_append.1 hstart with hway | hother
      · exact ⟨thread, List.mem_cons_self, count + 1, .step hinstr hway hexits⟩
      · exact ⟨start, List.mem_cons_of_mem thread hother, count, hexits⟩

namespace Thread.Passes

theorem mono {indices' : List Nat} (h : thread.Passes indices first thread')
    (hindices : indices ⊆ indices')
    (hfinding : ∀ rest rest' texts, first rest rest' texts →
      second rest rest' texts) :
    thread.Passes indices' second thread' := by
  obtain ⟨⟨texts, htexts, hgroups⟩, hbegun⟩ := h
  exact ⟨⟨texts, hfinding _ _ _ htexts, hgroups⟩,
    fun index hindex => hbegun index fun hmem => hindex (hindices hmem)⟩

/-- A thread that only changes its address takes nothing. -/
theorem goTo (thread : Thread) (address : Nat) :
    thread.Passes indices .nothing (thread.goTo address) :=
  ⟨⟨[], ⟨rfl, rfl⟩, rfl⟩, fun _ _ => rfl⟩

/-- Nor does it matter for what is taken later. -/
theorem of_goTo {address : Nat}
    (h : (thread.goTo address).Passes indices first thread') :
    thread.Passes indices first thread' :=
  ⟨h.groups, h.begun⟩

theorem andThen (h : thread.Passes indices first thread')
    (h' : thread'.Passes indices second thread'') :
    thread.Passes indices (first.andThen second) thread'' := by
  obtain ⟨⟨earlier, hearlier, hgroups⟩, hbegun⟩ := h
  obtain ⟨⟨later, hlater, hgroups'⟩, hbegun'⟩ := h'
  refine ⟨⟨later ++ earlier, ⟨_, earlier, later, hearlier, hlater, rfl⟩, ?_⟩,
    fun index hindex => ?_⟩
  · rw [hgroups', hgroups, List.append_assoc]
  · rw [hbegun' index hindex, hbegun index hindex]

end Thread.Passes

-- ================================================================== code

namespace Carries

theorem mono {indices' : List Nat}
    (h : Carries code text indices first base next)
    (hindices : indices ⊆ indices')
    (hfinding : ∀ rest rest' texts, first rest rest' texts →
      second rest rest' texts) :
    Carries code text indices' second base next := by
  intro thread found count haddress hexits
  obtain ⟨thread', left, hleft, hnext, hpasses, hrest⟩ :=
    h thread found count haddress hexits
  exact ⟨thread', left, hleft, hnext, hpasses.mono hindices hfinding, hrest⟩

theorem weaken (h : Carries code text indices first base next)
    (hfinding : ∀ rest rest' texts, first rest rest' texts →
      second rest rest' texts) :
    Carries code text indices second base next :=
  h.mono (List.Subset.refl indices) hfinding

/-- No code takes nothing. -/
theorem nothing (base : Nat) :
    Carries code text indices .nothing base base := by
  intro thread found count haddress hexits
  exact ⟨thread.goTo base, count, Nat.le_refl count, rfl, .goTo thread base,
    haddress ▸ hexits⟩

theorem instr {instr : Instr} (h : code[base]? = some instr)
    (hways : ∀ thread thread' : Thread, thread' ∈ thread.ways text instr →
      thread'.address = next ∧ thread.Passes indices first thread') :
    Carries code text indices first base next := by
  intro thread found count haddress hexits
  subst haddress
  obtain ⟨left, hcount, thread', hthread', hrest⟩ := exits_of_instr h hexits
  obtain ⟨hnext, hpasses⟩ := hways thread thread' hthread'
  exact ⟨thread', left, by omega, hnext, hpasses, hrest⟩

theorem andThen (h : Carries code text indices first base mid)
    (h' : Carries code text indices second mid next) :
    Carries code text indices (first.andThen second) base next := by
  intro thread found count haddress hexits
  obtain ⟨thread', left, hleft, hmid, hpasses, hrest⟩ :=
    h thread found count haddress hexits
  obtain ⟨thread'', left', hleft', hnext, hpasses', hrest'⟩ :=
    h' thread' found left hmid hrest
  exact ⟨thread'', left', Nat.le_trans hleft' hleft, hnext,
    hpasses.andThen hpasses', hrest'⟩

/-- A split leads on both ways, whichever it prefers. -/
theorem exits_choose {greedy : Bool} {more leave : Nat}
    (h : code[thread.address]? = some (Code.choose greedy more leave))
    (hexits : Exits code text count thread found) :
    ∃ left, count = left + 1 ∧ (Exits code text left (thread.goTo more) found
      ∨ Exits code text left (thread.goTo leave) found) := by
  obtain ⟨left, hcount, way, hway, hrest⟩ := exits_of_instr h hexits
  have hboth : way = thread.goTo more ∨ way = thread.goTo leave := by
    cases greedy with
    | true => exact List.mem_pair.1 hway
    | false => exact (List.mem_pair.1 hway).symm
  refine ⟨left, hcount, ?_⟩
  rcases hboth with heq | heq
  · exact .inl (heq ▸ hrest)
  · exact .inr (heq ▸ hrest)

theorem choose {greedy : Bool} {more leave : Nat}
    (h : code[base]? = some (Code.choose greedy more leave))
    (hmore : Carries code text indices first more next)
    (hleave : Carries code text indices first leave next) :
    Carries code text indices first base next := by
  intro thread found count haddress hexits
  subst haddress
  obtain ⟨left, hcount, hway⟩ := exits_choose h hexits
  rcases hway with hway | hway
  · obtain ⟨thread', left', hleft, hnext, hpasses, hrest⟩ :=
      hmore _ found left rfl hway
    exact ⟨thread', left', by omega, hnext, hpasses.of_goTo, hrest⟩
  · obtain ⟨thread', left', hleft, hnext, hpasses, hrest⟩ :=
      hleave _ found left rfl hway
    exact ⟨thread', left', by omega, hnext, hpasses.of_goTo, hrest⟩

-- =============================================================== rounds

/-- Code behind which a split leads back to its beginning, or on. -/
theorem loop {greedy : Bool} {back : Nat}
    (hround : Carries code text indices round base back)
    (hback : code[back]? = some (Code.choose greedy base next)) :
    Carries code text indices
      (fun rest rest' texts =>
        ∃ count, round.rounds (count + 1) rest rest' texts) base next := by
  intro thread found count
  -- on the steps still to be made, of which the split takes one
  induction count using Nat.strongRecOn generalizing thread with
  | ind count ih =>
      intro haddress hexits
      obtain ⟨thread', left, hleft, hmid, hpasses, hrest⟩ :=
        hround thread found count haddress hexits
      obtain ⟨left', hcount, hway⟩ := exits_choose (hmid ▸ hback) hrest
      rcases hway with hmore | hleave
      · obtain ⟨thread'', last, hlast, hnext, hlater, hend⟩ :=
          ih left' (by omega) (thread'.goTo base) rfl hmore
        refine ⟨thread'', last, by omega, hnext, ?_, hend⟩
        refine (hpasses.andThen hlater.of_goTo).mono (List.Subset.refl _) ?_
        intro rest rest' texts hboth
        obtain ⟨between, earlier, later, hfirst, ⟨rounds, hrounds⟩, htexts⟩ :=
          hboth
        exact ⟨rounds + 1, between, earlier, later, hfirst, hrounds, htexts⟩
      · have hall := hpasses.andThen (.goTo thread' next)
        exact ⟨thread'.goTo next, left', by omega, rfl,
          hall.mono (List.Subset.refl _) fun _ _ _ hboth => ⟨0, hboth⟩, hleave⟩

/-- A loop that need not be entered. -/
theorem anyRounds {greedy greedy' : Bool} {back : Nat}
    (hbase : code[base]? = some (Code.choose greedy mid next))
    (hround : Carries code text indices round mid back)
    (hback : code[back]? = some (Code.choose greedy' mid next)) :
    Carries code text indices
      (fun rest rest' texts => ∃ count, round.rounds count rest rest' texts)
      base next :=
  choose hbase
    ((hround.loop hback).weaken fun _ _ _ ⟨count, hrounds⟩ =>
      ⟨count + 1, hrounds⟩)
    ((nothing next).weaken fun _ _ _ hnothing => ⟨0, hnothing⟩)

end Carries

theorem Finding.rounds_add {first second : Nat} {rest rest' : Text}
    {texts : GroupTexts}
    (h : (round.rounds first).andThen (round.rounds second) rest rest' texts) :
    round.rounds (first + second) rest rest' texts := by
  obtain ⟨between, earlier, later, hfirst, hsecond, rfl⟩ := h
  induction first generalizing rest earlier with
  | zero =>
      obtain ⟨rfl, rfl⟩ := hfirst
      rwa [Nat.zero_add, List.append_nil]
  | succ first ih =>
      obtain ⟨inside, before, behind, hround, hrounds, rfl⟩ := hfirst
      rw [Nat.succ_add, ← List.append_assoc]
      exact ⟨inside, before, later ++ behind, hround, ih behind hrounds, rfl⟩

/-- A body carries threads as a relation says, wherever its code stands
and wherever that leads to. -/
def Body.Carried (code : Array Instr) (text : Text) (indices : List Nat)
    (body : Body) (finding : Finding) : Prop :=
  ∀ base next, Holds code base (body base next) →
    Carries code text indices finding base next

variable {body : Body} {size least : Nat} {greedy : Bool}

theorem carries_copies (hbody : body.Carried code text indices round)
    (hsize : body.HasSize size)
    (h : Holds code base (Code.copies body size count base)) :
    Carries code text indices (round.rounds count) base
      (base + count * size) := by
  induction count generalizing base with
  | zero =>
      rw [Nat.zero_mul]
      exact Carries.nothing base
  | succ count ih =>
      rw [Code.copies, holds_append_iff, hsize] at h
      have hend : base + (count + 1) * size = base + size + count * size := by
        rw [Nat.succ_mul]
        omega
      rw [hend]
      exact (hbody base (base + size) h.1).andThen (ih h.2)

theorem carries_upTo (hbody : body.Carried code text indices round)
    (hsize : body.HasSize size)
    (h : Holds code base (Code.upTo body size greedy count base next)) :
    Carries code text indices
      (fun rest rest' texts =>
        ∃ rounds, rounds ≤ count ∧ round.rounds rounds rest rest' texts)
      base next := by
  induction count generalizing base with
  | zero =>
      have hnone : Carries code text indices .nothing base next := by
        refine Carries.instr (h 0 _ rfl) fun thread thread' hthread' => ?_
        obtain rfl := List.mem_singleton.1 hthread'
        exact ⟨rfl, .goTo thread next⟩
      exact hnone.weaken fun _ _ _ hnothing => ⟨0, Nat.le_refl 0, hnothing⟩
  | succ count ih =>
      rw [Code.upTo, holds_cons_iff, holds_append_iff, hsize] at h
      obtain ⟨hsplit, hround, hlater⟩ := h
      refine Carries.choose hsplit
        (((hbody _ _ hround).andThen (ih hlater)).weaken ?_)
        ((Carries.nothing next).weaken fun _ _ _ hnothing =>
          ⟨0, Nat.zero_le _, hnothing⟩)
      intro rest rest' texts hboth
      obtain ⟨between, earlier, later, hfirst, ⟨rounds, hle, hrounds⟩,
        htexts⟩ := hboth
      exact ⟨rounds + 1, Nat.succ_le_succ hle, between, earlier, later, hfirst,
        hrounds, htexts⟩

/-- The code of a repetition makes the rounds that its bounds allow. -/
theorem carries_repetitionCode (hbody : body.Carried code text indices round)
    (hsize : body.HasSize size) {nullable : Bool} {most : Option Nat}
    (h : Holds code base
      (repetitionCode nullable body size least most greedy base next)) :
    Carries code text indices
      (fun rest rest' texts =>
        ∃ count, (least ≤ count ∧ ∀ bound ∈ most, count ≤ max least bound)
        ∧ round.rounds count rest rest' texts) base next := by
  cases most with
  | some most =>
      rw [repetitionCode, holds_append_iff, Code.length_copies hsize] at h
      refine ((carries_copies hbody hsize h.1).andThen
        (carries_upTo hbody hsize h.2)).weaken ?_
      intro rest rest' texts hboth
      obtain ⟨between, earlier, later, hcopies, ⟨rounds, hle, hrounds⟩,
        htexts⟩ := hboth
      refine ⟨least + rounds, ⟨Nat.le_add_right _ _, fun bound hbound => ?_⟩,
        Finding.rounds_add ⟨between, earlier, later, hcopies, hrounds, htexts⟩⟩
      obtain rfl := Option.some.inj hbound
      omega
  | none =>
      have hunbounded : ∀ count, ∀ bound ∈ (none : Option Nat),
          count ≤ max least bound :=
        fun _ bound hbound => absurd hbound (Option.not_mem_none bound)
      cases least with
      | zero =>
          have hany : Carries code text indices
              (fun rest rest' texts =>
                ∃ count, round.rounds count rest rest' texts) base next := by
            cases nullable with
            | true =>
                rw [repetitionCode, if_pos rfl, Code.anyNumber,
                  Code.atLeastOne, holds_cons_iff, holds_append_iff,
                  hsize] at h
                exact Carries.anyRounds h.1 (hbody _ _ h.2.1) (h.2.2 0 _ rfl)
            | false =>
                rw [repetitionCode, if_neg Bool.false_ne_true, Code.loop,
                  holds_cons_iff] at h
                exact Carries.anyRounds h.1 (hbody _ _ h.2) h.1
          refine hany.weaken ?_
          rintro rest rest' texts ⟨count, hrounds⟩
          exact ⟨count, ⟨Nat.zero_le count, hunbounded count⟩, hrounds⟩
      | succ least =>
          rw [repetitionCode, Code.atLeastOne, holds_append_iff,
            holds_append_iff, Code.length_copies hsize, hsize] at h
          obtain ⟨hcopies, hround, hback⟩ := h
          have hloop := Carries.loop (hbody _ _ hround) (hback 0 _ rfl)
          refine ((carries_copies hbody hsize hcopies).andThen hloop).weaken ?_
          intro rest rest' texts hboth
          obtain ⟨between, earlier, later, hcopies, ⟨count, hrounds⟩,
            htexts⟩ := hboth
          exact ⟨least + (count + 1), ⟨by omega, hunbounded _⟩,
            Finding.rounds_add
              ⟨between, earlier, later, hcopies, hrounds, htexts⟩⟩

/-- A group notes down what its body took. -/
theorem carries_group {index : Nat} {inner : Finding}
    (hindex : index ∉ indices)
    (hopen : code[base]? = some (.openGroup index (base + 1)))
    (hbody : Carries code text indices inner (base + 1) mid)
    (hclose : code[mid]? = some (.closeGroup index next)) :
    Carries code text (index :: indices)
      (fun rest rest' texts => ∃ found, inner rest rest' found
        ∧ texts = (index, rest.take (rest.length - rest'.length)) :: found)
      base next := by
  intro thread found count haddress hexits
  subst haddress
  obtain ⟨left, hcount, opened, hopened, hrest⟩ := exits_of_instr hopen hexits
  obtain rfl := List.mem_singleton.1 hopened
  obtain ⟨last, left', hleft, hmid,
    ⟨⟨texts, htexts, hgroups⟩, hbegun⟩, hrest'⟩ :=
    hbody _ found left rfl hrest
  subst hmid
  obtain ⟨left'', hcount', closed, hclosed, hend⟩ :=
    exits_of_instr hclose hrest'
  obtain rfl := List.mem_singleton.1 hclosed
  -- the body has left alone where the group began
  have hstart : last.begun.lookup index = some thread.rest := by
    rw [hbegun index hindex]
    exact List.lookup_cons_self
  have htext : last.groupText index
      = thread.rest.take (thread.rest.length - last.rest.length) := by
    rw [Thread.groupText, hstart]
  refine ⟨{ last with
    address := next, groups := (index, last.groupText index) :: last.groups },
    left'', by omega, rfl, ⟨⟨_, ⟨texts, htexts, rfl⟩, ?_⟩, ?_⟩, hend⟩
  · rw [htext, hgroups]
    rfl
  · intro other hother
    obtain ⟨hne, hout⟩ := List.ne_and_not_mem_of_not_mem_cons hother
    have hbeq : (other == index) = false := beq_false_of_ne hne
    have hlookup : List.lookup other ((index, thread.rest) :: thread.begun)
        = thread.begun.lookup other := by
      simp only [List.lookup_cons, hbeq]
    exact (hbegun other hout).trans hlookup

/-- The code of a pattern finds what the pattern may take, with the texts
that its groups may take. -/
theorem Node.carried_code (node : Node) (h : node.unnested = true) :
    Body.Carried code text node.indices node.code (node.Finds text) := by
  induction node with
  | empty =>
      intro base next hcode
      refine Carries.instr (hcode 0 _ rfl) fun thread thread' hthread' => ?_
      obtain rfl := List.mem_singleton.1 hthread'
      exact ⟨rfl, .goTo thread next⟩
  | one set =>
      intro base next hcode
      refine Carries.instr (hcode 0 _ rfl) fun thread thread' hthread' => ?_
      rw [Thread.ways] at hthread'
      split at hthread'
      next c rest hrest =>
        split at hthread'
        next hc =>
          obtain rfl := List.mem_singleton.1 hthread'
          exact ⟨rfl, ⟨[], ⟨c, hc, hrest, rfl⟩, rfl⟩, fun _ _ => rfl⟩
        next => cases hthread'
      next => cases hthread'
  | look look =>
      intro base next hcode
      refine Carries.instr (hcode 0 _ rfl) fun thread thread' hthread' => ?_
      rw [Thread.ways] at hthread'
      split at hthread'
      next hlook =>
        obtain rfl := List.mem_singleton.1 hthread'
        exact ⟨rfl, ⟨[], ⟨hlook, rfl, rfl⟩, rfl⟩, fun _ _ => rfl⟩
      next => cases hthread'
  | sequence first second ih ih' =>
      intro base next hcode
      rw [unnested, Bool.and_eq_true] at h
      rw [Node.code, holds_append_iff, first.hasSize_code] at hcode
      exact ((ih h.1 _ _ hcode.1).mono (List.subset_append_left _ _)
        fun _ _ _ => id).andThen
        ((ih' h.2 _ _ hcode.2).mono (List.subset_append_right _ _)
          fun _ _ _ => id)
  | choice first second ih ih' =>
      intro base next hcode
      rw [unnested, Bool.and_eq_true] at h
      rw [Node.code, holds_cons_iff, holds_append_iff,
        first.hasSize_code] at hcode
      have hsplit : code[base]?
          = some (Code.choose true (base + 1) (base + 1 + first.size)) :=
        hcode.1
      exact Carries.choose hsplit
        ((ih h.1 _ _ hcode.2.1).mono (List.subset_append_left _ _)
          fun _ _ _ => .inl)
        ((ih' h.2 _ _ hcode.2.2).mono (List.subset_append_right _ _)
          fun _ _ _ => .inr)
  | group index body ih =>
      intro base next hcode
      rw [unnested, Bool.and_eq_true, decide_eq_true_eq] at h
      rw [Node.code, holds_cons_iff, holds_append_iff,
        body.hasSize_code] at hcode
      exact carries_group h.1 hcode.1 (ih h.2 _ _ hcode.2.1)
        (hcode.2.2 0 _ rfl)
  | repetition body least most greedy ih =>
      intro base next hcode
      exact carries_repetitionCode (ih h) body.hasSize_code hcode

-- ================================================================ matches

theorem eq_of_mem_starts {text : Text} (h : thread ∈ starts text) :
    ∃ rest, rest <:+ text ∧ thread = { address := 0, rest := rest } := by
  induction text with
  | nil => exact ⟨[], List.suffix_refl [], List.mem_singleton.1 h⟩
  | cons c rest ih =>
      rcases List.mem_cons.1 h with heq | hlater
      · exact ⟨c :: rest, List.suffix_refl _, heq⟩
      · obtain ⟨later, hsuffix, heq⟩ := ih hlater
        exact ⟨later, hsuffix.trans (List.suffix_cons c rest), heq⟩

/-- What a search finds is a match of the pattern in a part of the text,
and the texts of its groups are those of this match. -/
theorem Node.finds_of_search {node : Node} (hunnested : node.unnested = true)
    {text : Text} (h : node.search text = some found) :
    ∃ rest rest', rest <:+ text ∧ node.Finds text rest rest' found.groups := by
  have hcarries : Carries (node.code 0 node.size).toArray text node.indices
      (node.Finds text) 0 node.size :=
    node.carried_code hunnested 0 node.size (holds_toArray _)
  have hend : (node.code 0 node.size).toArray[node.size]? = none := by
    rw [List.getElem?_toArray, List.getElem?_eq_none]
    exact Nat.le_of_eq (node.hasSize_code 0 node.size)
  obtain ⟨start, hstart, count, hexits⟩ := exits_of_searchFrom h
  obtain ⟨rest, hrest, rfl⟩ := eq_of_mem_starts hstart
  obtain ⟨last, left, -, hnext, ⟨⟨texts, hfinds, hgroups⟩, -⟩, hlast⟩ :=
    hcarries _ found count rfl hexits
  -- behind its code a pattern goes no further
  obtain rfl : last = found := by
    cases hlast with
    | out hout => rfl
    | step hinstr hway hlater =>
        rw [hnext, hend] at hinstr
        cases hinstr
  rw [List.append_nil] at hgroups
  exact ⟨rest, last.rest, hrest, hgroups ▸ hfinds⟩

/-- A pattern takes something exactly if its groups take something then. -/
theorem Finding.rounds_iff {takes : Text → Text → Prop} {rest rest' : Text}
    (h : ∀ rest rest', takes rest rest' ↔ ∃ texts, round rest rest' texts) :
    Rounds takes count rest rest'
      ↔ ∃ texts, round.rounds count rest rest' texts := by
  induction count generalizing rest with
  | zero => simp [Rounds, rounds, Finding.nothing]
  | succ count ih =>
      simp only [Rounds, rounds, Finding.andThen, h, ih]
      constructor
      · rintro ⟨between, ⟨earlier, hround⟩, later, hrounds⟩
        exact ⟨later ++ earlier, between, earlier, later, hround, hrounds, rfl⟩
      · rintro ⟨texts, between, earlier, later, hround, hrounds, -⟩
        exact ⟨between, ⟨earlier, hround⟩, later, hrounds⟩

theorem Node.takes_iff {node : Node} {rest rest' : Text} :
    node.Takes text rest rest'
      ↔ ∃ texts, node.Finds text rest rest' texts := by
  induction node generalizing rest rest' with
  | empty => simp [Takes, Finds, Finding.nothing]
  | one set => simp [Takes, Finds]
  | look look => simp [Takes, Finds]
  | sequence first second ih ih' =>
      simp only [Takes, Finds, Finding.andThen, ih, ih']
      constructor
      · rintro ⟨between, ⟨earlier, hfirst⟩, later, hsecond⟩
        exact ⟨later ++ earlier, between, earlier, later, hfirst, hsecond, rfl⟩
      · rintro ⟨texts, between, earlier, later, hfirst, hsecond, -⟩
        exact ⟨between, ⟨earlier, hfirst⟩, later, hsecond⟩
  | choice first second ih ih' => simp only [Takes, Finds, ih, ih', exists_or]
  | group index body ih =>
      simp only [Takes, Finds, ih]
      constructor
      · rintro ⟨inner, hbody⟩
        exact ⟨_, inner, hbody, rfl⟩
      · rintro ⟨texts, inner, hbody, -⟩
        exact ⟨inner, hbody⟩
  | repetition body least most greedy ih =>
      simp only [Takes, Finds, Finding.rounds_iff fun _ _ => ih]
      constructor
      · rintro ⟨count, hbounds, texts, hrounds⟩
        exact ⟨texts, count, hbounds, hrounds⟩
      · rintro ⟨texts, count, hbounds, hrounds⟩
        exact ⟨count, hbounds, texts, hrounds⟩

end Pattern

end LineScript
