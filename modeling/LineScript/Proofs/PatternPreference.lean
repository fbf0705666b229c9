/-
Which match a search finds.

Of all the ways to match, a search takes the preferred one: the first
branch of a choice that leads on to a match, one more round of a greedy
repetition if that leads on, and one of a sparing repetition only where it
has to. What leads on depends on what comes behind, so that preference is
said of a pattern and a goal for what it leaves over (`Node.Prefers`).

# The search

The search never visits a place twice, and a match of a pattern that
comes back to a place without taking a character would be preferred for
ever. So the preferred way is described by its steps, of which there are
finitely many (`Best`). How many are left depends on the place alone;
hence no place on the preferred way has been visited when the search
arrives there, for what was visited either leads nowhere or has more steps
left. What is tried in between leads nowhere and is used up
(`searchFrom_of_best`).

# The code

The code of a pattern steers a thread to where the pattern prefers to go
(`Steers`). As for what a pattern takes, that goes from the parts of code
to the whole, and the goal of a part is that the code behind it can be
run to its end.
-/
import LineScript.Proofs.PatternGroups

set_option autoImplicit false

namespace LineScript

namespace Pattern

-- ================================================ statement vocabulary

/-- What is left of a text can be taken on to where a goal is met. -/
def Leads (takes : Text → Text → Prop) (goal : Text → Prop) (rest : Text) :
    Prop :=
  ∃ rest', takes rest rest' ∧ goal rest'

/-- A number of rounds, at most so many. -/
def RoundsUpTo (takes : Text → Text → Prop) (most : Nat) (rest rest' : Text) :
    Prop :=
  ∃ count, count ≤ most ∧ Rounds takes count rest rest'

/-- Any number of rounds. -/
def AnyRounds (takes : Text → Text → Prop) (rest rest' : Text) : Prop :=
  ∃ count, Rounds takes count rest rest'

/-- A finding for every goal: of the ways to match after which the goal is
met, the preferred one. -/
abbrev Preference := (goal : Text → Prop) → Finding

namespace Preference

/-- Nothing is taken. -/
def nothing : Preference := fun goal rest rest' texts =>
  goal rest ∧ rest = rest' ∧ texts = []

/-- One match and then another, which may take what `takes` says. -/
def andThen (first : Preference) (takes : Text → Text → Prop)
    (second : Preference) : Preference := fun goal =>
  (first (Leads takes goal)).andThen (second goal)

/-- A number of rounds. -/
def rounds (takes : Text → Text → Prop) (round : Preference) :
    (count : Nat) → Preference
  | 0 => nothing
  | count + 1 => round.andThen (Rounds takes count) (rounds takes round count)

/-- One more round is made if it leads to the goal and is preferred, or if
it has to be made. -/
structure Enters (greedy : Bool) (goal : Text → Prop) (more : Finding)
    (rest rest' : Text) (texts : GroupTexts) : Prop where
  wanted : greedy = true ∨ ¬ goal rest
  more : more rest rest' texts

/-- No more round is made: the goal is met, and one more round is not
preferred or does not lead to it. -/
structure Leaves (greedy : Bool) (goal : Text → Prop) (leads : Text → Prop)
    (rest rest' : Text) (texts : GroupTexts) : Prop where
  goal : goal rest
  last : greedy = true → ¬ leads rest
  nothing : rest = rest' ∧ texts = []

/-- Rounds, at most so many. -/
def upTo (takes : Text → Text → Prop) (round : Preference) (greedy : Bool) :
    (most : Nat) → Preference
  | 0 => nothing
  | most + 1 => fun goal rest rest' texts =>
    Enters greedy goal
        (round.andThen (RoundsUpTo takes most)
          (upTo takes round greedy most) goal)
        rest rest' texts
      ∨ Leaves greedy goal (Leads takes (Leads (RoundsUpTo takes most) goal))
        rest rest' texts

/-- Any number of rounds. -/
inductive Repeats (takes : Text → Text → Prop) (round : Preference)
    (greedy : Bool) (goal : Text → Prop) : Finding
  | enter {rest between rest' : Text} {earlier later : GroupTexts}
      (hwanted : greedy = true ∨ ¬ goal rest)
      (hround : round (Leads (AnyRounds takes) goal) rest between earlier)
      (hlater : Repeats takes round greedy goal between rest' later) :
      Repeats takes round greedy goal rest rest' (later ++ earlier)
  | leave {rest : Text} (hgoal : goal rest)
      (hlast : greedy = true →
        ¬ Leads takes (Leads (AnyRounds takes) goal) rest) :
      Repeats takes round greedy goal rest rest []

/-- A repetition: the least number of rounds, and then those that are
preferred. -/
def repetition (takes : Text → Text → Prop) (round : Preference) (least : Nat)
    (greedy : Bool) : (most : Option Nat) → Preference
  | some most => (rounds takes round least).andThen
      (RoundsUpTo takes (most - least))
      (upTo takes round greedy (most - least))
  | none => (rounds takes round least).andThen (AnyRounds takes)
      (Repeats takes round greedy)

end Preference

/-- What a pattern prefers to take in a text, with the texts of its
groups. -/
def Node.Prefers (text : Text) : Node → Preference
  | .empty => .nothing
  | .one set => fun goal rest rest' texts =>
    ∃ c, set.has c = true ∧ rest = c :: rest' ∧ texts = [] ∧ goal rest'
  | .look asked => fun goal rest rest' texts =>
    asked.isAt text rest = true ∧ rest = rest' ∧ texts = [] ∧ goal rest
  | .sequence first second =>
    (first.Prefers text).andThen (second.Takes text) (second.Prefers text)
  | .choice first second => fun goal rest rest' texts =>
    first.Prefers text goal rest rest' texts
      ∨ (¬ Leads (first.Takes text) goal rest
        ∧ second.Prefers text goal rest rest' texts)
  | .group index body => fun goal rest rest' texts =>
    ∃ inner, body.Prefers text goal rest rest' inner
      ∧ texts = (index, rest.take (rest.length - rest'.length)) :: inner
  | .repetition body least most greedy =>
    .repetition (body.Takes text) (body.Prefers text) least greedy most

variable {code : Array Instr} {text : Text} {fuel visited count : Nat}
  {thread thread' found : Thread} {threads others : List Thread}
  {place : Place}

-- ========================================================= preferred ways

/-- No end of the code can be reached from a place. -/
def Stuck (code : Array Instr) (text : Text) (place : Place) : Prop :=
  ∀ count, ¬ Escapes code text count place

/-- All ways from a place that leads nowhere lead nowhere. -/
theorem Stuck.of_mem_ways {instr : Instr} {way : Thread}
    (h : Stuck code text thread.place)
    (hinstr : code[thread.address]? = some instr)
    (hway : way ∈ thread.ways text instr) : Stuck code text way.place := by
  intro count hescapes
  have hplace : way.place ∈ instr.leads text thread.rest := by
    rw [← map_place_ways]
    exact List.mem_map_of_mem hway
  exact h (count + 1) (.step hinstr hplace hescapes)

/-- A thread leaves the code as `found` in `count` steps, and at each of
them it goes the first way that leads to an end. -/
inductive Best (code : Array Instr) (text : Text) :
    (count : Nat) → Thread → Thread → Prop
  | out {thread : Thread} (h : code[thread.address]? = none) :
      Best code text 0 thread thread
  | step {thread way found : Thread} {instr : Instr} {count : Nat}
      {front back : List Thread} (hinstr : code[thread.address]? = some instr)
      (hways : thread.ways text instr = front ++ way :: back)
      (hfront : ∀ other ∈ front, Stuck code text other.place)
      (h : Best code text count way found) :
      Best code text (count + 1) thread found

/-- The first way of all leads to an end. -/
theorem Best.first {instr : Instr} {way : Thread} {back : List Thread}
    (hinstr : code[thread.address]? = some instr)
    (hways : thread.ways text instr = way :: back)
    (h : Best code text count way found) :
    Best code text (count + 1) thread found :=
  .step hinstr (hways.trans (List.nil_append _).symm) nofun h

/-- The first way leads nowhere, and the second to an end. -/
theorem Best.second {instr : Instr} {other way : Thread} {back : List Thread}
    (hinstr : code[thread.address]? = some instr)
    (hways : thread.ways text instr = other :: way :: back)
    (hother : Stuck code text other.place)
    (h : Best code text count way found) :
    Best code text (count + 1) thread found :=
  .step hinstr (hways.trans (List.singleton_append).symm)
    (List.forall_mem_singleton.2 hother) h

theorem Best.escapes (h : Best code text count thread found) :
    Escapes code text count thread.place := by
  induction h with
  | out hout => exact .out hout
  | step hinstr hways _ _ ih =>
      refine .step hinstr ?_ ih
      rw [← map_place_ways, hways]
      exact List.mem_map_of_mem (by simp)

/-- Among ways to the same places the first that leads to an end is at the
same place. -/
theorem place_eq_of_ways {front front' back back' : List Thread}
    {way way' : Thread}
    (hplaces : (front ++ way :: back).map Thread.place
      = (front' ++ way' :: back').map Thread.place)
    (hfront : ∀ other ∈ front, Stuck code text other.place)
    (hfront' : ∀ other ∈ front', Stuck code text other.place)
    (hway : ¬ Stuck code text way.place)
    (hway' : ¬ Stuck code text way'.place) : way.place = way'.place := by
  induction front generalizing front' with
  | nil =>
      cases front' with
      | nil => exact (List.cons.inj hplaces).1
      | cons other front' =>
          have hplace : way.place = other.place := (List.cons.inj hplaces).1
          exact absurd (hplace ▸ hfront' other List.mem_cons_self) hway
  | cons other front ih =>
      obtain ⟨hother, hlater⟩ := List.forall_mem_cons.1 hfront
      cases front' with
      | nil =>
          have hplace : other.place = way'.place := (List.cons.inj hplaces).1
          exact absurd (hplace ▸ hother) hway'
      | cons other' front' =>
          exact ih (List.cons.inj hplaces).2 hlater
            (List.forall_mem_cons.1 hfront').2

/-- How many steps are left depends on the place alone. -/
theorem Best.count_eq {count' : Nat} {found' : Thread}
    (h : Best code text count thread found)
    (h' : Best code text count' thread' found')
    (hplace : thread.place = thread'.place) : count = count' := by
  induction h generalizing thread' count' with
  | out hout =>
      cases h' with
      | out _ => rfl
      | step hinstr _ _ _ =>
          have haddress := congrArg Prod.fst hplace
          exact absurd ((congrArg (code[·]?) haddress).symm.trans hout)
            (by rw [Thread.place, hinstr]; exact Option.some_ne_none _)
  | @step thread way found instr count front back hinstr hways
      hfront hbest ih =>
      have haddress : thread.address = thread'.address :=
        congrArg Prod.fst hplace
      have hrest : thread.rest = thread'.rest := congrArg Prod.snd hplace
      cases h' with
      | out hout =>
          rw [← haddress, hinstr] at hout
          cases hout
      | step hinstr' hways' hfront' hbest' =>
          rw [← haddress] at hinstr'
          obtain rfl := Option.some.inj (hinstr.symm.trans hinstr')
          have hplaces := (map_place_ways thread text instr).trans
            (hrest ▸ (map_place_ways thread' text instr).symm)
          rw [hways, hways'] at hplaces
          have hnext := place_eq_of_ways hplaces hfront hfront'
            (fun hstuck => hstuck _ hbest.escapes)
            (fun hstuck => hstuck _ hbest'.escapes)
          exact congrArg (· + 1) (ih hbest' hnext)

-- ============================================================== the search

/-- What a search has visited is of no use any more: it leads nowhere, or
more than `count` steps are left from it. -/
def Spent (code : Array Instr) (text : Text) (visited count : Nat) : Prop :=
  ∀ place, Visited text visited place → Stuck code text place
    ∨ ∃ steps thread found, count < steps ∧ thread.place = place
      ∧ Best code text steps thread found

/-- Threads that lead nowhere are used up, and nothing else is visited on
the way than places that lead nowhere. -/
theorem searchFrom_stuck
    (hstuck : ∀ thread ∈ threads, Stuck code text thread.place)
    (hsuffix : ∀ thread ∈ threads, thread.rest <:+ text)
    (hfuel : 2 * unvisited (code.size * (text.length + 1)) visited
      + (threads.length + others.length) ≤ fuel) :
    ∃ fuel' visited', searchFrom code text fuel visited (threads ++ others)
        = searchFrom code text fuel' visited' others
      ∧ 2 * unvisited (code.size * (text.length + 1)) visited' + others.length
        ≤ fuel'
      ∧ ∀ place, Visited text visited' place →
        Visited text visited place ∨ Stuck code text place := by
  induction fuel generalizing visited threads with
  | zero =>
      have hnil : threads = [] := List.eq_nil_of_length_eq_zero (by omega)
      subst hnil
      exact ⟨0, visited, rfl, by simpa using hfuel, fun _ => .inl⟩
  | succ fuel ih =>
      cases threads with
      | nil =>
          exact ⟨fuel + 1, visited, rfl, by simpa using hfuel, fun _ => .inl⟩
      | cons thread threads =>
          obtain ⟨hthread, hlater⟩ := List.forall_mem_cons.1 hstuck
          obtain ⟨hrest, hsuffix⟩ := List.forall_mem_cons.1 hsuffix
          rw [List.length_cons] at hfuel
          rw [List.cons_append, searchFrom]
          cases hinstr : code[thread.address]? with
          | none => exact absurd (.out hinstr) (hthread 0)
          | some instr =>
              simp only
              by_cases hbit : visited.testBit (thread.key text) = true
              · rw [if_pos hbit]
                exact ih hlater hsuffix (by omega)
              · have hkey : thread.place.key text
                    < code.size * (text.length + 1) :=
                  Place.key_lt hrest hinstr
                have hless :=
                  unvisited_visit_lt hkey (Bool.eq_false_iff.2 hbit)
                obtain ⟨hlength, hways⟩ := ways_parts thread text instr
                have hall : ∀ way ∈ thread.ways text instr ++ threads,
                    Stuck code text way.place :=
                  List.forall_mem_append.2
                    ⟨fun _ hway => hthread.of_mem_ways hinstr hway, hlater⟩
                have hsuffixes : ∀ way ∈ thread.ways text instr ++ threads,
                    way.rest <:+ text :=
                  List.forall_mem_append.2
                    ⟨fun way hway => (hways way hway).trans hrest, hsuffix⟩
                rw [if_neg hbit, ← List.append_assoc]
                have hroom : 2 * unvisited (code.size * (text.length + 1))
                      (visited ||| power 2 (thread.place.key text))
                    + ((thread.ways text instr ++ threads).length
                      + others.length)
                    ≤ fuel := by
                  rw [List.length_append]
                  omega
                obtain ⟨fuel', visited', hsearch, hfuel', hvisited⟩ :=
                  ih hall hsuffixes hroom
                refine ⟨fuel', visited', hsearch, hfuel',
                  fun place hplace => ?_⟩
                rcases hvisited place hplace with hold | hnew
                · rcases (@visited_visit_iff text visited thread.place place
                    hrest).1 hold with hold | rfl
                  · exact .inl hold
                  · exact .inr hthread
                · exact .inr hnew

/-- A search goes the preferred way of its first thread. -/
theorem searchFrom_of_best (h : Best code text count thread found)
    (hsuffix : thread.rest <:+ text) (hspent : Spent code text visited count)
    (hfuel : 2 * unvisited (code.size * (text.length + 1)) visited
      + (others.length + 1) ≤ fuel) :
    searchFrom code text fuel visited (thread :: others) = some found := by
  induction h generalizing fuel visited others with
  | out hout =>
      cases fuel with
      | zero => omega
      | succ fuel => rw [searchFrom, hout]
  | @step thread way found instr count front back hinstr hways
      hfront hbest ih =>
      cases fuel with
      | zero => omega
      | succ fuel =>
          have hhere : Best code text (count + 1) thread found :=
            .step hinstr hways hfront hbest
          have hbit : ¬ visited.testBit (thread.key text) = true := by
            intro hbit
            rcases hspent thread.place ⟨hsuffix, hbit⟩ with
              hstuck | ⟨steps, other, _, hsteps, hplace, hother⟩
            · exact hstuck _ hhere.escapes
            · exact absurd (hhere.count_eq hother hplace.symm) (by omega)
          have hkey : thread.place.key text < code.size * (text.length + 1) :=
            Place.key_lt hsuffix hinstr
          have hless : unvisited (code.size * (text.length + 1))
                (visited ||| power 2 (thread.key text))
              < unvisited (code.size * (text.length + 1)) visited :=
            unvisited_visit_lt hkey (Bool.eq_false_iff.2 hbit)
          obtain ⟨hlength, hrests⟩ := ways_parts thread text instr
          rw [hways] at hlength hrests
          rw [List.length_append, List.length_cons] at hlength
          have hrests : ∀ next ∈ front ++ way :: back, next.rest <:+ text :=
            fun next hnext => (hrests next hnext).trans hsuffix
          have hroom : 2 * unvisited (code.size * (text.length + 1))
                (visited ||| power 2 (thread.key text))
              + (front.length + (way :: (back ++ others)).length) ≤ fuel := by
            rw [List.length_cons, List.length_append]
            omega
          have htried : ∀ next ∈ front, next.rest <:+ text :=
            fun next hnext => hrests next (List.mem_append_left _ hnext)
          have hway : way.rest <:+ text := hrests way (by simp)
          obtain ⟨fuel', visited', hsearch, hfuel', hvisited⟩ :=
            searchFrom_stuck hfront htried hroom
          rw [searchFrom, hinstr]
          simp only [if_neg hbit, hways, List.append_assoc, List.cons_append]
          rw [hsearch]
          refine ih hway (fun place hplace => ?_) (by simpa using hfuel')
          rcases hvisited place hplace with hold | hnew
          · rcases (@visited_visit_iff text visited thread.place place
              hsuffix).1 hold with hold | rfl
            · rcases hspent place hold with
                hstuck | ⟨steps, other, last, hsteps, hother⟩
              · exact .inl hstuck
              · exact .inr ⟨steps, other, last, by omega, hother⟩
            · exact .inr ⟨count + 1, thread, found, Nat.lt_succ_self count,
                rfl, hhere⟩
          · exact .inl hnew

-- ================================================================ the code

/-- What is left of a text allows the code to be run from an address to
its end. -/
def Ends (code : Array Instr) (text : Text) (address : Nat) (rest : Text) :
    Prop :=
  ∃ count, Escapes code text count (address, rest)

/-- Code that takes a thread from one address to another, the way that is
preferred if the goal is to run the code from there to its end. -/
def Steers (code : Array Instr) (text : Text) (indices : List Nat)
    (prefers : Preference) (base next : Nat) : Prop :=
  ∀ (thread : Thread) (rest' : Text) (texts : GroupTexts),
    thread.address = base →
    prefers (Ends code text next) thread.rest rest' texts →
      ∃ thread' : Thread, thread'.address = next ∧ thread'.rest = rest'
        ∧ thread.Passes indices (fun _ _ noted => noted = texts) thread'
        ∧ ∀ found count, Best code text count thread' found →
          ∃ more, Best code text more thread found

variable {indices : List Nat} {base mid back next : Nat}
  {prefers prefers' round : Preference} {takes takes' : Text → Text → Prop}

theorem Runs.ends_iff (h : Runs code text takes base next) {rest : Text} :
    Ends code text base rest ↔ Leads takes (Ends code text next) rest := by
  constructor
  · rintro ⟨count, hescapes⟩
    obtain ⟨rest', left, -, htakes, hnext⟩ := h.sound hescapes
    exact ⟨rest', htakes, left, hnext⟩
  · rintro ⟨rest', htakes, count, hnext⟩
    exact h.complete htakes hnext

theorem Runs.ends_eq (h : Runs code text takes base next) :
    Ends code text base = Leads takes (Ends code text next) :=
  funext fun _ => propext h.ends_iff

/-- A thread at another address goes on where the code can be run to its
end. -/
theorem stuck_goTo_iff {address : Nat} :
    Stuck code text (thread.goTo address).place
      ↔ ¬ Ends code text address thread.rest :=
  not_exists.symm

/-- One thread has passed to another, which noted down some texts. -/
abbrev Thread.Notes (indices : List Nat) (texts : GroupTexts)
    (thread thread' : Thread) : Prop :=
  thread.Passes indices (fun _ _ noted => noted = texts) thread'

theorem Thread.Notes.nothing (indices : List Nat) (thread : Thread)
    (address : Nat) : thread.Notes indices [] (thread.goTo address) :=
  ⟨⟨[], rfl, rfl⟩, fun _ _ => rfl⟩

theorem Thread.Notes.andThen {thread'' : Thread} {earlier later : GroupTexts}
    (h : thread.Notes indices earlier thread')
    (h' : thread'.Notes indices later thread'') :
    thread.Notes indices (later ++ earlier) thread'' :=
  (Passes.andThen h h').mono (List.Subset.refl indices) (by
    rintro _ _ _ ⟨_, _, _, rfl, rfl, rfl⟩
    rfl)

namespace Steers

theorem mono {indices' : List Nat}
    (h : Steers code text indices prefers base next)
    (hindices : indices ⊆ indices') :
    Steers code text indices' prefers base next := by
  intro thread rest' texts haddress hprefers
  obtain ⟨thread', hnext, hrest, hnotes, hbest⟩ :=
    h thread rest' texts haddress hprefers
  exact ⟨thread', hnext, hrest, hnotes.mono hindices fun _ _ _ => id, hbest⟩

/-- No code takes nothing. -/
theorem nothing (base : Nat) :
    Steers code text indices .nothing base base := by
  rintro thread rest' texts haddress ⟨-, hrest, rfl⟩
  refine ⟨thread, haddress, hrest, ⟨⟨[], rfl, rfl⟩, fun _ _ => rfl⟩, ?_⟩
  exact fun _ count hbest => ⟨count, hbest⟩

/-- An instruction that leads on one way. -/
theorem instr {instr : Instr} (h : code[base]? = some instr)
    (hways : ∀ (thread : Thread) (rest' : Text) (texts : GroupTexts),
      prefers (Ends code text next) thread.rest rest' texts →
        ∃ thread', thread.ways text instr = [thread'] ∧ thread'.address = next
          ∧ thread'.rest = rest' ∧ thread.Notes indices texts thread') :
    Steers code text indices prefers base next := by
  rintro thread rest' texts rfl hprefers
  obtain ⟨thread', hway, hnext, hrest, hnotes⟩ :=
    hways thread rest' texts hprefers
  refine ⟨thread', hnext, hrest, hnotes, fun found count hbest => ?_⟩
  exact ⟨count + 1, .first h hway hbest⟩

theorem andThen (h : Steers code text indices prefers base mid)
    (hruns : Runs code text takes mid next)
    (h' : Steers code text indices prefers' mid next) :
    Steers code text indices (prefers.andThen takes prefers') base next := by
  rintro thread rest' texts haddress
    ⟨between, earlier, later, hfirst, hsecond, rfl⟩
  rw [← hruns.ends_eq] at hfirst
  obtain ⟨thread', hmid, rfl, hnotes, hbest⟩ :=
    h thread between earlier haddress hfirst
  obtain ⟨thread'', hnext, hrest, hnotes', hbest'⟩ :=
    h' thread' rest' later hmid hsecond
  refine ⟨thread'', hnext, hrest, Thread.Notes.andThen hnotes hnotes', ?_⟩
  intro found count hfound
  obtain ⟨more, hmore⟩ := hbest' found count hfound
  exact hbest found more hmore

/-- A split leads on to one more round if that is preferred, or if no end
can be reached otherwise. -/
theorem best_more {greedy : Bool} {more leave : Nat}
    (h : code[thread.address]? = some (Code.choose greedy more leave))
    (hwanted : greedy = true ∨ ¬ Ends code text leave thread.rest)
    (hbest : Best code text count (thread.goTo more) found) :
    Best code text (count + 1) thread found := by
  cases greedy with
  | true =>
      exact .first h rfl hbest
  | false =>
      have hstuck : Stuck code text (thread.goTo leave).place :=
        stuck_goTo_iff.2 (hwanted.resolve_left Bool.false_ne_true)
      exact .second h rfl hstuck hbest

/-- And it leaves where one more round is not preferred, or does not lead
to an end. -/
theorem best_leave {greedy : Bool} {more leave : Nat}
    (h : code[thread.address]? = some (Code.choose greedy more leave))
    (hlast : greedy = true → ¬ Ends code text more thread.rest)
    (hbest : Best code text count (thread.goTo leave) found) :
    Best code text (count + 1) thread found := by
  cases greedy with
  | true =>
      have hstuck : Stuck code text (thread.goTo more).place :=
        stuck_goTo_iff.2 (hlast rfl)
      exact .second h rfl hstuck hbest
  | false =>
      exact .first h rfl hbest

/-- A choice takes its first branch if that leads to the goal, and its
second if not. -/
theorem choice {first second : Nat}
    (h : code[base]? = some (Code.choose true first second))
    (hruns : Runs code text takes first next)
    (hfirst : Steers code text indices prefers first next)
    (hsecond : Steers code text indices prefers' second next) :
    Steers code text indices
      (fun goal rest rest' texts => prefers goal rest rest' texts
        ∨ (¬ Leads takes goal rest ∧ prefers' goal rest rest' texts))
      base next := by
  rintro thread rest' texts rfl hprefers
  rcases hprefers with hprefers | ⟨hstuck, hprefers⟩
  · obtain ⟨thread', hnext, hrest, hnotes, hbest⟩ :=
      hfirst (thread.goTo first) rest' texts rfl hprefers
    refine ⟨thread', hnext, hrest, hnotes.of_goTo,
      fun found count hfound => ?_⟩
    obtain ⟨more, hmore⟩ := hbest found count hfound
    exact ⟨more + 1, best_more h (.inl rfl) hmore⟩
  · obtain ⟨thread', hnext, hrest, hnotes, hbest⟩ :=
      hsecond (thread.goTo second) rest' texts rfl hprefers
    refine ⟨thread', hnext, hrest, hnotes.of_goTo,
      fun found count hfound => ?_⟩
    obtain ⟨more, hmore⟩ := hbest found count hfound
    rw [← hruns.ends_iff] at hstuck
    exact ⟨more + 1, best_leave h (fun _ => hstuck) hmore⟩

/-- A round that may be left out. -/
theorem optional {greedy : Bool} {more : Preference}
    (h : code[base]? = some (Code.choose greedy mid next))
    (hmore : Steers code text indices more mid next) :
    Steers code text indices (fun goal rest rest' texts =>
      Preference.Enters greedy goal (more goal) rest rest' texts
        ∨ Preference.Leaves greedy goal (Ends code text mid) rest rest' texts)
      base next := by
  rintro thread rest' texts rfl hprefers
  rcases hprefers with ⟨hwanted, hprefers⟩ | ⟨-, hlast, hrest, rfl⟩
  · obtain ⟨thread', hnext, hrest, hnotes, hbest⟩ :=
      hmore (thread.goTo mid) rest' texts rfl hprefers
    refine ⟨thread', hnext, hrest, hnotes.of_goTo,
      fun found count hfound => ?_⟩
    obtain ⟨steps, hsteps⟩ := hbest found count hfound
    exact ⟨steps + 1, best_more h hwanted hsteps⟩
  · refine ⟨thread.goTo next, rfl, hrest, Thread.Notes.nothing _ _ _, ?_⟩
    exact fun found count hfound => ⟨count + 1, best_leave h hlast hfound⟩

/-- Code behind which a split leads back to it, or on; `base` is that
split, or another one that leads to the same addresses. -/
theorem repeats {greedy : Bool}
    (hbase : code[base]? = some (Code.choose greedy mid next))
    (hruns : Runs code text takes mid back)
    (hround : Steers code text indices round mid back)
    (hback : code[back]? = some (Code.choose greedy mid next)) :
    Steers code text indices (.Repeats takes round greedy) base next := by
  have hends : Ends code text back
      = Leads (AnyRounds takes) (Ends code text next) :=
    (Runs.anyRounds hback hruns hback).ends_eq
  intro thread rest' texts haddress hprefers
  generalize hstart : thread.rest = start at hprefers
  -- on the rounds; only the first one may come in at another split
  induction hprefers generalizing thread base with
  | @enter rest between rest' earlier later hwanted hfirst _ ih =>
      subst haddress hstart
      rw [← hends] at hfirst
      obtain ⟨middle, hmid, hrest, hnotes, hbest⟩ :=
        hround (thread.goTo mid) between earlier rfl hfirst
      obtain ⟨thread', hnext, hrest', hnotes', hbest'⟩ :=
        ih hback middle hmid hrest
      refine ⟨thread', hnext, hrest',
        Thread.Notes.andThen hnotes.of_goTo hnotes',
        fun found count hfound => ?_⟩
      obtain ⟨more, hmore⟩ := hbest' found count hfound
      obtain ⟨steps, hsteps⟩ := hbest found more hmore
      exact ⟨steps + 1, best_more hbase hwanted hsteps⟩
  | @leave rest hgoal hlast =>
      subst haddress hstart
      have hlast : greedy = true → ¬ Ends code text mid thread.rest := by
        rw [hruns.ends_iff, hends]
        exact hlast
      refine ⟨thread.goTo next, rfl, rfl, Thread.Notes.nothing _ _ _, ?_⟩
      exact fun found count hfound =>
        ⟨count + 1, best_leave hbase hlast hfound⟩

end Steers

/-- A body steers threads as a preference says, wherever its code stands
and wherever that leads to. -/
def Body.Steered (code : Array Instr) (text : Text) (indices : List Nat)
    (body : Body) (prefers : Preference) : Prop :=
  ∀ base next, Holds code base (body base next) →
    Steers code text indices prefers base next

variable {body : Body} {size least : Nat} {greedy : Bool}

theorem steers_copies (hsound : body.Sound code text takes)
    (hbody : body.Steered code text indices round) (hsize : body.HasSize size)
    (h : Holds code base (Code.copies body size count base)) :
    Steers code text indices (.rounds takes round count) base
      (base + count * size) := by
  induction count generalizing base with
  | zero =>
      rw [Nat.zero_mul]
      exact Steers.nothing base
  | succ count ih =>
      rw [Code.copies, holds_append_iff, hsize] at h
      have hend : base + (count + 1) * size = base + size + count * size := by
        rw [Nat.succ_mul]
        omega
      rw [hend]
      exact (hbody base (base + size) h.1).andThen
        (runs_copies hsound hsize h.2) (ih h.2)

theorem steers_upTo (hsound : body.Sound code text takes)
    (hbody : body.Steered code text indices round) (hsize : body.HasSize size)
    (h : Holds code base (Code.upTo body size greedy count base next)) :
    Steers code text indices (.upTo takes round greedy count) base next := by
  induction count generalizing base with
  | zero =>
      refine Steers.instr (h 0 _ rfl) ?_
      rintro thread rest' texts ⟨-, hrest, rfl⟩
      exact ⟨thread.goTo next, rfl, rfl, hrest, Thread.Notes.nothing _ _ _⟩
  | succ count ih =>
      rw [Code.upTo, holds_cons_iff, holds_append_iff, hsize] at h
      obtain ⟨hsplit, hround, hlater⟩ := h
      have hruns := runs_upTo hsound hsize hlater
      have hmore := (hbody _ _ hround).andThen hruns (ih hlater)
      have hends : Ends code text (base + 1) = Leads takes
          (Leads (RoundsUpTo takes count) (Ends code text next)) := by
        rw [(hsound _ _ hround).ends_eq, hruns.ends_eq]
        rfl
      have hall := Steers.optional hsplit hmore
      rw [hends] at hall
      exact hall

/-- One copy more stands behind the others. -/
theorem Code.copies_succ (body : Body) (size count base : Nat) :
    copies body size (count + 1) base = copies body size count base
      ++ body (base + count * size) (base + (count + 1) * size) := by
  induction count generalizing base with
  | zero => simp [copies]
  | succ count ih =>
      have hbase : base + size + count * size = base + (count + 1) * size := by
        rw [Nat.succ_mul]
        omega
      have hend : base + size + (count + 1) * size
          = base + (count + 1 + 1) * size := by
        rw [Nat.succ_mul (count + 1)]
        omega
      rw [copies, ih, hbase, hend, copies, List.append_assoc]

/-- The code of a repetition makes the rounds that are preferred. -/
theorem steers_repetitionCode (hsound : body.Sound code text takes)
    (hbody : body.Steered code text indices round) (hsize : body.HasSize size)
    {nullable : Bool} {most : Option Nat}
    (h : Holds code base
      (repetitionCode nullable body size least most greedy base next)) :
    Steers code text indices (.repetition takes round least greedy most) base
      next := by
  cases most with
  | some most =>
      rw [repetitionCode, holds_append_iff, Code.length_copies hsize] at h
      exact (steers_copies hsound hbody hsize h.1).andThen
        (runs_upTo hsound hsize h.2) (steers_upTo hsound hbody hsize h.2)
  | none =>
      cases least with
      | zero =>
          cases nullable with
          | true =>
              rw [repetitionCode, if_pos rfl, Code.anyNumber, Code.atLeastOne,
                holds_cons_iff, holds_append_iff, hsize] at h
              have hback := h.2.2 0 _ rfl
              have hruns := hsound _ _ h.2.1
              exact (Steers.nothing base).andThen
                (Runs.anyRounds h.1 hruns hback)
                (Steers.repeats h.1 hruns (hbody _ _ h.2.1) hback)
          | false =>
              rw [repetitionCode, if_neg Bool.false_ne_true, Code.loop,
                holds_cons_iff] at h
              have hruns := hsound _ _ h.2
              exact (Steers.nothing base).andThen
                (Runs.anyRounds h.1 hruns h.1)
                (Steers.repeats h.1 hruns (hbody _ _ h.2) h.1)
      | succ least =>
          rw [repetitionCode, Code.atLeastOne, ← List.append_assoc,
            holds_append_iff] at h
          obtain ⟨hcopies, hback⟩ := h
          have hend : base + least * size + size
              = base + (least + 1) * size := by
            rw [Nat.succ_mul]
            omega
          rw [hend, ← Code.copies_succ] at hcopies
          rw [hend, ← Code.copies_succ, Code.length_copies hsize] at hback
          have hback := hback 0 _ rfl
          have hround : Holds code (base + least * size)
              (body (base + least * size) (base + (least + 1) * size)) := by
            rw [Code.copies_succ, holds_append_iff,
              Code.length_copies hsize] at hcopies
            exact hcopies.2
          have hruns := hsound _ _ hround
          exact (steers_copies hsound hbody hsize hcopies).andThen
            (Runs.anyRounds hback hruns hback)
            (Steers.repeats hback hruns (hbody _ _ hround) hback)

/-- A group notes down what its body prefers to take. -/
theorem steers_group {index : Nat} (hindex : index ∉ indices)
    (hopen : code[base]? = some (.openGroup index (base + 1)))
    (hruns : Runs code text takes (base + 1) mid)
    (hbody : Steers code text indices prefers (base + 1) mid)
    (hclose : code[mid]? = some (.closeGroup index next)) :
    Steers code text (index :: indices) (fun goal rest rest' texts =>
      ∃ inner, prefers goal rest rest' inner
        ∧ texts = (index, rest.take (rest.length - rest'.length)) :: inner)
      base next := by
  rintro thread rest' _ rfl ⟨inner, hprefers, rfl⟩
  have hends : Ends code text mid = Ends code text next := by
    rw [(Runs.onward hclose fun _ => rfl).ends_eq]
    funext rest
    simp [Leads]
  rw [← hends] at hprefers
  obtain ⟨last, hmid, rfl, ⟨⟨_, rfl, hgroups⟩, hbegun⟩, hbest⟩ :=
    hbody { thread with
      address := thread.address + 1
      begun := (index, thread.rest) :: thread.begun } rest' inner rfl hprefers
  -- the body has left alone where the group began
  have hstart : last.begun.lookup index = some thread.rest := by
    rw [hbegun index hindex]
    exact List.lookup_cons_self
  have htext : last.groupText index
      = thread.rest.take (thread.rest.length - last.rest.length) := by
    rw [Thread.groupText, hstart]
  refine ⟨{ last with
      address := next
      groups := (index, last.groupText index) :: last.groups }, rfl, rfl,
    ⟨⟨_, rfl, ?_⟩, fun other hother => ?_⟩, fun found count hfound => ?_⟩
  · rw [htext, hgroups]
    rfl
  · obtain ⟨hne, hout⟩ := List.ne_and_not_mem_of_not_mem_cons hother
    have hbeq : (other == index) = false := beq_false_of_ne hne
    have hlookup : List.lookup other ((index, thread.rest) :: thread.begun)
        = thread.begun.lookup other := by
      simp only [List.lookup_cons, hbeq]
    exact (hbegun other hout).trans hlookup
  · subst hmid
    obtain ⟨more, hmore⟩ := hbest found (count + 1) (.first hclose rfl hfound)
    exact ⟨more + 1, .first hopen rfl hmore⟩

/-- The code of a pattern steers threads to where the pattern prefers to
go. -/
theorem Node.steered_code (node : Node) (h : node.unnested = true) :
    Body.Steered code text node.indices node.code (node.Prefers text) := by
  induction node with
  | empty =>
      intro base next hcode
      refine Steers.instr (hcode 0 _ rfl) ?_
      rintro thread rest' texts ⟨-, hrest, rfl⟩
      exact ⟨thread.goTo next, rfl, rfl, hrest, Thread.Notes.nothing _ _ _⟩
  | one set =>
      intro base next hcode
      refine Steers.instr (hcode 0 _ rfl) ?_
      rintro thread rest' texts ⟨c, hc, hrest, rfl, -⟩
      refine ⟨{ thread with address := next, rest := rest' }, ?_, rfl, rfl,
        ⟨⟨[], rfl, rfl⟩, fun _ _ => rfl⟩⟩
      rw [Thread.ways, hrest]
      simp only [hc, if_true]
  | look asked =>
      intro base next hcode
      refine Steers.instr (hcode 0 _ rfl) ?_
      rintro thread rest' texts ⟨hasked, hrest, rfl, -⟩
      refine ⟨thread.goTo next, ?_, rfl, hrest, Thread.Notes.nothing _ _ _⟩
      rw [Thread.ways, if_pos hasked]
  | sequence first second ih ih' =>
      intro base next hcode
      rw [unnested, Bool.and_eq_true] at h
      rw [Node.code, holds_append_iff, first.hasSize_code] at hcode
      exact ((ih h.1 _ _ hcode.1).mono (List.subset_append_left _ _)).andThen
        (second.sound_code _ _ hcode.2)
        ((ih' h.2 _ _ hcode.2).mono (List.subset_append_right _ _))
  | choice first second ih ih' =>
      intro base next hcode
      rw [unnested, Bool.and_eq_true] at h
      rw [Node.code, holds_cons_iff, holds_append_iff,
        first.hasSize_code] at hcode
      have hsplit : code[base]?
          = some (Code.choose true (base + 1) (base + 1 + first.size)) :=
        hcode.1
      exact Steers.choice hsplit (first.sound_code _ _ hcode.2.1)
        ((ih h.1 _ _ hcode.2.1).mono (List.subset_append_left _ _))
        ((ih' h.2 _ _ hcode.2.2).mono (List.subset_append_right _ _))
  | group index body ih =>
      intro base next hcode
      rw [unnested, Bool.and_eq_true, decide_eq_true_eq] at h
      rw [Node.code, holds_cons_iff, holds_append_iff,
        body.hasSize_code] at hcode
      exact steers_group h.1 hcode.1 (body.sound_code _ _ hcode.2.1)
        (ih h.2 _ _ hcode.2.1) (hcode.2.2 0 _ rfl)
  | repetition body least most greedy ih =>
      intro base next hcode
      exact steers_repetitionCode body.sound_code (ih h)
        body.hasSize_code hcode

-- ================================================== ways that are taken

/-- What is preferred is taken, and leads to the goal. -/
def Preference.Sound (takes : Text → Text → Prop) (prefers : Preference) :
    Prop :=
  ∀ goal rest rest' texts, prefers goal rest rest' texts →
    takes rest rest' ∧ goal rest'

namespace Preference.Sound

theorem rounds (h : round.Sound takes) (count : Nat) :
    (Preference.rounds takes round count).Sound (Rounds takes count) := by
  induction count with
  | zero =>
      rintro goal rest rest' texts ⟨hgoal, hrest, -⟩
      exact ⟨hrest, hrest ▸ hgoal⟩
  | succ count ih =>
      rintro goal rest rest' _ ⟨between, earlier, later, hround, hlater, rfl⟩
      obtain ⟨htakes, -⟩ := h _ _ _ _ hround
      obtain ⟨hrounds, hgoal⟩ := ih _ _ _ _ hlater
      exact ⟨⟨between, htakes, hrounds⟩, hgoal⟩

theorem upTo (h : round.Sound takes) (greedy : Bool) (most : Nat) :
    (Preference.upTo takes round greedy most).Sound
      (RoundsUpTo takes most) := by
  induction most with
  | zero =>
      rintro goal rest rest' texts ⟨hgoal, hrest, -⟩
      exact ⟨⟨0, Nat.le_refl 0, hrest⟩, hrest ▸ hgoal⟩
  | succ most ih =>
      rintro goal rest rest' texts hprefers
      rcases hprefers with ⟨-, between, earlier, later, hround, hlater, -⟩
        | ⟨hgoal, -, hrest, -⟩
      · obtain ⟨htakes, -⟩ := h _ _ _ _ hround
        obtain ⟨⟨count, hcount, hrounds⟩, hgoal⟩ := ih _ _ _ _ hlater
        exact ⟨⟨count + 1, Nat.succ_le_succ hcount, between, htakes, hrounds⟩,
          hgoal⟩
      · exact ⟨⟨0, Nat.zero_le _, hrest⟩, hrest ▸ hgoal⟩

theorem repeats (h : round.Sound takes) (greedy : Bool) :
    Sound (AnyRounds takes) (Preference.Repeats takes round greedy) := by
  rintro goal rest rest' texts hprefers
  induction hprefers with
  | enter _ hround _ ih =>
      obtain ⟨htakes, -⟩ := h _ _ _ _ hround
      obtain ⟨⟨count, hrounds⟩, hgoal⟩ := ih
      exact ⟨⟨count + 1, _, htakes, hrounds⟩, hgoal⟩
  | leave hgoal _ => exact ⟨⟨0, rfl⟩, hgoal⟩

end Preference.Sound

theorem rounds_append {first second : Nat} {rest between rest' : Text}
    (h : Rounds takes first rest between)
    (h' : Rounds takes second between rest') :
    Rounds takes (first + second) rest rest' := by
  induction first generalizing rest with
  | zero =>
      rw [Rounds] at h
      rwa [h, Nat.zero_add]
  | succ first ih =>
      obtain ⟨middle, hround, hlater⟩ := h
      rw [Nat.succ_add]
      exact ⟨middle, hround, ih hlater⟩

/-- What a pattern prefers to take, it takes. -/
theorem Node.sound_prefers (node : Node) :
    Preference.Sound (node.Takes text) (node.Prefers text) := by
  induction node with
  | empty =>
      rintro goal rest rest' texts ⟨hgoal, hrest, -⟩
      exact ⟨hrest, hrest ▸ hgoal⟩
  | one set =>
      rintro goal rest rest' texts ⟨c, hc, hrest, -, hgoal⟩
      exact ⟨⟨c, hc, hrest⟩, hgoal⟩
  | look asked =>
      rintro goal rest rest' texts ⟨hasked, hrest, -, hgoal⟩
      exact ⟨⟨hasked, hrest⟩, hrest ▸ hgoal⟩
  | sequence first second ih ih' =>
      rintro goal rest rest' texts
        ⟨between, earlier, later, hfirst, hsecond, -⟩
      obtain ⟨htakes, -⟩ := ih _ _ _ _ hfirst
      obtain ⟨htakes', hgoal⟩ := ih' _ _ _ _ hsecond
      exact ⟨⟨between, htakes, htakes'⟩, hgoal⟩
  | choice first second ih ih' =>
      rintro goal rest rest' texts (hfirst | ⟨-, hsecond⟩)
      · obtain ⟨htakes, hgoal⟩ := ih _ _ _ _ hfirst
        exact ⟨.inl htakes, hgoal⟩
      · obtain ⟨htakes, hgoal⟩ := ih' _ _ _ _ hsecond
        exact ⟨.inr htakes, hgoal⟩
  | group index body ih =>
      rintro goal rest rest' texts ⟨inner, hbody, -⟩
      exact ih _ _ _ _ hbody
  | repetition body least most greedy ih =>
      rintro goal rest rest' texts hprefers
      cases most with
      | some most =>
          obtain ⟨between, earlier, later, hfirst, hmore, -⟩ := hprefers
          obtain ⟨hleast, -⟩ := ih.rounds least _ _ _ _ hfirst
          obtain ⟨⟨count, hcount, hrounds⟩, hgoal⟩ :=
            ih.upTo greedy _ _ _ _ _ hmore
          refine ⟨⟨least + count, ⟨Nat.le_add_right _ _, ?_⟩,
            rounds_append hleast hrounds⟩, hgoal⟩
          rintro bound hbound
          obtain rfl := Option.some.inj hbound
          omega
      | none =>
          obtain ⟨between, earlier, later, hfirst, hmore, -⟩ := hprefers
          obtain ⟨hleast, -⟩ := ih.rounds least _ _ _ _ hfirst
          obtain ⟨⟨count, hrounds⟩, hgoal⟩ := ih.repeats greedy _ _ _ _ hmore
          exact ⟨⟨least + count, ⟨Nat.le_add_right _ _, nofun⟩,
            rounds_append hleast hrounds⟩, hgoal⟩

-- ================================================================ matches

/-- A search finds the match that its pattern prefers at the beginning of
the text, if it can match there. -/
theorem Node.search_of_prefers {node : Node} (hunnested : node.unnested = true)
    {rest' : Text} {texts : GroupTexts}
    (h : node.Prefers text (fun _ => True) text rest' texts) :
    ∃ found, node.search text = some found ∧ found.groups = texts := by
  have hend : (node.code 0 node.size).toArray[node.size]? = none := by
    rw [List.getElem?_toArray, List.getElem?_eq_none]
    exact Nat.le_of_eq (node.hasSize_code 0 node.size)
  have hgoal : Ends (node.code 0 node.size).toArray text node.size
      = fun _ => True :=
    funext fun rest => propext ⟨fun _ => trivial, fun _ => ⟨0, .out hend⟩⟩
  rw [← hgoal] at h
  obtain ⟨last, hlast, -, ⟨⟨_, rfl, hgroups⟩, -⟩, hbest⟩ :=
    node.steered_code hunnested 0 node.size (holds_toArray _)
      { address := 0, rest := text } rest' texts rfl h
  obtain ⟨count, hbest⟩ := hbest last 0 (.out (hlast ▸ hend))
  obtain ⟨others, hstarts⟩ : ∃ others,
      starts text = { address := 0, rest := text } :: others := by
    cases text with
    | nil => exact ⟨[], rfl⟩
    | cons c rest => exact ⟨starts rest, rfl⟩
  have hlength := length_starts text
  rw [hstarts, List.length_cons] at hlength
  refine ⟨last, ?_, by simpa using hgroups⟩
  rw [search, hstarts]
  refine searchFrom_of_best hbest (List.suffix_refl text) ?_ ?_
  · exact fun place hvisited => absurd hvisited.2 (by simp)
  · have hle := unvisited_le
      ((node.code 0 node.size).toArray.size * (text.length + 1)) 0
    omega

end Pattern

end LineScript
