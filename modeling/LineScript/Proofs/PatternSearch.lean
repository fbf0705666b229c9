/-
The search for a match finds one exactly when there is one.

That a thread which leaves the code has come from one of the threads at the
start is a matter of going backwards along the search. The other direction
is about a search that has found nothing: the places it has visited are
closed under the steps of the code and none of them is an end of the code,
so no place among them leads to one. While the search is under way this
holds but for the places that are waiting (`Explored`), and no place is
lost sight of (`Searching`).

The fuel is enough, since every turn either drops a waiting thread or
visits a pair of places for the first time and adds two threads at most.
-/
import LineScript.Proofs.PatternCode
import Mathlib.Data.Finset.Card

set_option autoImplicit false

namespace LineScript

namespace Pattern

-- ================================================================ places

/-- Where a thread is. -/
def Thread.place (thread : Thread) : Place := (thread.address, thread.rest)

/-- The number of a place. -/
def Place.key (text : Text) (place : Place) : Nat :=
  place.1 * (text.length + 1) + place.2.length

variable {code : Array Instr} {text : Text} {fuel visited : Nat}
  {thread : Thread} {threads others : List Thread} {place : Place}
  {instr : Instr}

/-- Where a thread goes on is a matter of where it is. -/
theorem map_place_ways (thread : Thread) (text : Text) (instr : Instr) :
    (thread.ways text instr).map Thread.place
      = instr.leads text thread.rest := by
  obtain ⟨address, rest, begun, groups⟩ := thread
  cases instr with
  | one set next =>
      cases rest with
      | nil => rfl
      | cons c rest =>
          by_cases hc : set.has c = true
          · simp only [Thread.ways, Instr.leads, if_pos hc]
            rfl
          · simp only [Thread.ways, Instr.leads, if_neg hc]
            rfl
  | look look next =>
      by_cases hlook : look.isAt text rest = true
      · rw [Thread.ways, Instr.leads, if_pos hlook, if_pos hlook]
        rfl
      · rw [Thread.ways, Instr.leads, if_neg hlook, if_neg hlook, List.map_nil]
  | goOn next => rfl
  | split first second => rfl
  | openGroup index next => rfl
  | closeGroup index next => rfl

/-- An instruction leads on two ways at most, and what was taken does not
come back. -/
theorem leads_parts (text : Text) (rest : Text) (instr : Instr) :
    (instr.leads text rest).length ≤ 2
      ∧ ∀ place ∈ instr.leads text rest, place.2 <:+ rest := by
  have hsame : ∀ next, ∀ place ∈ [((next, rest) : Place)],
      place.2 <:+ rest := by
    intro next place hplace
    rw [List.mem_singleton.1 hplace]
  have hnone : ∀ place ∈ ([] : List Place), place.2 <:+ rest :=
    fun place hplace => absurd hplace List.not_mem_nil
  cases instr with
  | one set next =>
      cases rest with
      | nil => exact ⟨Nat.zero_le 2, hnone⟩
      | cons c rest =>
          rw [Instr.leads]
          split
          · refine ⟨Nat.le_succ 1, fun place hplace => ?_⟩
            rw [List.mem_singleton.1 hplace]
            exact List.suffix_cons c rest
          · exact ⟨Nat.zero_le 2, hnone⟩
  | look look next =>
      rw [Instr.leads]
      split
      · exact ⟨Nat.le_succ 1, hsame next⟩
      · exact ⟨Nat.zero_le 2, hnone⟩
  | goOn next => exact ⟨Nat.le_succ 1, hsame next⟩
  | split first second =>
      exact ⟨Nat.le_refl 2,
        List.forall_mem_cons.2 ⟨List.suffix_refl rest, hsame second⟩⟩
  | openGroup index next => exact ⟨Nat.le_succ 1, hsame next⟩
  | closeGroup index next => exact ⟨Nat.le_succ 1, hsame next⟩

theorem ways_parts (thread : Thread) (text : Text) (instr : Instr) :
    (thread.ways text instr).length ≤ 2
      ∧ ∀ next ∈ thread.ways text instr, next.rest <:+ thread.rest := by
  obtain ⟨hlength, hsuffix⟩ := leads_parts text thread.rest instr
  rw [← map_place_ways, List.length_map] at hlength
  refine ⟨hlength, fun next hnext => hsuffix next.place ?_⟩
  rw [← map_place_ways]
  exact List.mem_map_of_mem hnext

/-- Two places in one text have different numbers. -/
theorem Place.key_injective {place place' : Place} (h : place.2 <:+ text)
    (h' : place'.2 <:+ text) (hkey : place.key text = place'.key text) :
    place = place' := by
  obtain ⟨address, rest⟩ := place
  obtain ⟨address', rest'⟩ := place'
  have hle : rest.length < text.length + 1 := Nat.lt_succ_of_le h.length_le
  have hle' : rest'.length < text.length + 1 := Nat.lt_succ_of_le h'.length_le
  have hlength : rest.length = rest'.length := by
    have hmod := congrArg (· % (text.length + 1)) hkey
    simpa [Place.key, Nat.mod_eq_of_lt hle, Nat.mod_eq_of_lt hle'] using hmod
  have haddress : address = address' := by
    rw [Place.key, Place.key, hlength] at hkey
    exact Nat.eq_of_mul_eq_mul_right (Nat.succ_pos text.length)
      (Nat.add_right_cancel hkey)
  have hrest : rest = text.drop (text.length - rest.length) :=
    List.suffix_iff_eq_drop.1 h
  have hrest' : rest' = text.drop (text.length - rest'.length) :=
    List.suffix_iff_eq_drop.1 h'
  rw [haddress, hrest, hlength, ← hrest']

/-- The numbers of places in the code are below the number of pairs. -/
theorem Place.key_lt (h : place.2 <:+ text)
    (hinstr : code[place.1]? = some instr) :
    place.key text < code.size * (text.length + 1) := by
  have haddress : place.1 + 1 ≤ code.size :=
    (Array.getElem?_eq_some_iff.1 hinstr).1
  have hle : place.2.length < text.length + 1 := Nat.lt_succ_of_le h.length_le
  calc place.1 * (text.length + 1) + place.2.length
      < place.1 * (text.length + 1) + (text.length + 1) :=
        Nat.add_lt_add_left hle _
    _ = (place.1 + 1) * (text.length + 1) := (Nat.succ_mul _ _).symm
    _ ≤ code.size * (text.length + 1) := Nat.mul_le_mul_right _ haddress

-- ======================================================== what is found

/-- The thread that is found has come from one of those at the start. -/
theorem escapes_of_searchFrom {found : Thread}
    (h : searchFrom code text fuel visited threads = some found) :
    ∃ thread ∈ threads, ∃ count, Escapes code text count thread.place := by
  induction fuel generalizing visited threads with
  | zero => cases h
  | succ fuel ih =>
      cases threads with
      | nil => cases h
      | cons thread others =>
          rw [searchFrom] at h
          cases hinstr : code[thread.address]? with
          | none => exact ⟨thread, List.mem_cons_self, 0, .out hinstr⟩
          | some instr =>
              simp only [hinstr] at h
              split at h
              · obtain ⟨origin, hmem, hescapes⟩ := ih h
                exact ⟨origin, List.mem_cons_of_mem _ hmem, hescapes⟩
              · obtain ⟨origin, hmem, count, hescapes⟩ := ih h
                rcases List.mem_append.1 hmem with hway | hother
                · have hplace : origin.place
                      ∈ instr.leads text thread.rest := by
                    rw [← map_place_ways]
                    exact List.mem_map_of_mem hway
                  exact ⟨thread, List.mem_cons_self, count + 1,
                    .step hinstr hplace hescapes⟩
                · exact ⟨origin, List.mem_cons_of_mem _ hother,
                    count, hescapes⟩

-- ==================================================== what is not found

/-- A place in a text that the search has visited. -/
def Visited (text : Text) (visited : Nat) (place : Place) : Prop :=
  place.2 <:+ text ∧ visited.testBit (place.key text) = true

/-- A place that the search has visited, or that waits to be. -/
def Known (text : Text) (visited : Nat) (waiting : List Place)
    (place : Place) : Prop :=
  Visited text visited place ∨ place ∈ waiting

/-- The places that a search has visited: none of them is an end of the
code, and each leads to places that are visited or waiting. -/
def Explored (code : Array Instr) (text : Text) (visited : Nat)
    (waiting : List Place) : Prop :=
  ∀ place, Visited text visited place →
    ∃ instr, code[place.1]? = some instr
      ∧ ∀ way ∈ instr.leads text place.2, Known text visited waiting way

/-- Where nothing waits, no place that is known leads to an end. -/
theorem Explored.not_escapes (h : Explored code text visited []) {count : Nat}
    (hknown : Known text visited [] place) :
    ¬ Escapes code text count place := by
  intro hescapes
  induction hescapes with
  | out hout =>
      obtain ⟨instr, hinstr, -⟩ := h _ (hknown.resolve_right List.not_mem_nil)
      exact absurd (hout.symm.trans hinstr) nofun
  | step hinstr hplace _ ih =>
      obtain ⟨instr, hinstr', hways⟩ :=
        h _ (hknown.resolve_right List.not_mem_nil)
      obtain rfl := Option.some.inj (hinstr'.symm.trans hinstr)
      exact ih (hways _ hplace)

/-- How many of the first `pairs` numbers are no visited place's. -/
def unvisited (pairs visited : Nat) : Nat :=
  ((Finset.range pairs).filter fun key => visited.testBit key = false).card

theorem testBit_visit (visited key key' : Nat) :
    (visited ||| power 2 key).testBit key'
      = (visited.testBit key' || decide (key = key')) := by
  rw [Nat.testBit_or]
  exact congrArg _ Nat.testBit_two_pow

/-- A visit leaves fewer places unvisited. -/
theorem unvisited_visit_lt {pairs key : Nat} (hkey : key < pairs)
    (h : visited.testBit key = false) :
    unvisited pairs (visited ||| power 2 key) < unvisited pairs visited := by
  refine Finset.card_lt_card
    (Finset.ssubset_iff_of_subset ?_ |>.2 ⟨key, ?_, ?_⟩)
  · intro other hother
    rw [Finset.mem_filter, testBit_visit, Bool.or_eq_false_iff] at hother
    exact Finset.mem_filter.2 ⟨hother.1, hother.2.1⟩
  · exact Finset.mem_filter.2 ⟨Finset.mem_range.2 hkey, h⟩
  · rw [Finset.mem_filter, testBit_visit]
    simp

theorem visited_visit_iff {place' : Place} (hplace : place.2 <:+ text) :
    Visited text (visited ||| power 2 (place.key text)) place'
      ↔ Visited text visited place' ∨ place' = place := by
  unfold Visited
  rw [testBit_visit, Bool.or_eq_true, decide_eq_true_iff]
  constructor
  · intro hbits
    obtain ⟨hsuffix, hbit⟩ := hbits
    rcases hbit with hold | hkey
    · exact .inl ⟨hsuffix, hold⟩
    · exact .inr (Place.key_injective hsuffix hplace hkey.symm)
  · intro h
    rcases h with ⟨hsuffix, hold⟩ | heq
    · exact ⟨hsuffix, .inl hold⟩
    · subst heq
      exact ⟨hplace, .inr rfl⟩

variable {waiting : List Place} {other start : Place}

/-- A place that is visited already need not wait. -/
theorem Known.drop (h : Known text visited (place :: waiting) other)
    (hplace : Visited text visited place) :
    Known text visited waiting other := by
  rcases h with hvisited | hwaiting
  · exact .inl hvisited
  · rcases List.mem_cons.1 hwaiting with heq | hlater
    · subst heq
      exact .inl hplace
    · exact .inr hlater

/-- A place that is visited need not wait any longer. -/
theorem Known.visit (h : Known text visited (place :: waiting) other)
    (hplace : place.2 <:+ text) (ways : List Place) :
    Known text (visited ||| power 2 (place.key text))
      (ways ++ waiting) other := by
  rcases h with hvisited | hwaiting
  · exact .inl ((visited_visit_iff hplace).2 (.inl hvisited))
  · rcases List.mem_cons.1 hwaiting with heq | hlater
    · exact .inl ((visited_visit_iff hplace).2 (.inr heq))
    · exact .inr (List.mem_append_right ways hlater)

/-- A search under way that has not lost sight of a place. -/
structure Searching (code : Array Instr) (text : Text) (start : Place)
    (visited : Nat) (threads : List Thread) : Prop where
  explored : Explored code text visited (threads.map Thread.place)
  suffix : ∀ thread ∈ threads, thread.rest <:+ text
  known : Known text visited (threads.map Thread.place) start

/-- A thread at a place that is visited already is dropped. -/
theorem Searching.drop
    (h : Searching code text start visited (thread :: others))
    (hbit : visited.testBit (thread.key text) = true) :
    Searching code text start visited others := by
  obtain ⟨hthread, hothers⟩ := List.forall_mem_cons.1 h.suffix
  have hplace : Visited text visited thread.place := ⟨hthread, hbit⟩
  refine ⟨fun other hother => ?_, hothers, h.known.drop hplace⟩
  obtain ⟨instr, hinstr, hways⟩ := h.explored other hother
  exact ⟨instr, hinstr, fun way hway => (hways way hway).drop hplace⟩

/-- A thread at a new place visits it, and the threads it goes on as wait in
its stead. -/
theorem Searching.visit
    (h : Searching code text start visited (thread :: others))
    (hinstr : code[thread.address]? = some instr) :
    Searching code text start (visited ||| power 2 (thread.key text))
      (thread.ways text instr ++ others) := by
  obtain ⟨hthread, hothers⟩ := List.forall_mem_cons.1 h.suffix
  have hplaces : (thread.ways text instr ++ others).map Thread.place
      = instr.leads text thread.rest ++ others.map Thread.place := by
    rw [List.map_append, map_place_ways]
  have hvisit : ∀ {other},
      Known text visited (thread.place :: others.map Thread.place) other →
      Known text (visited ||| power 2 (thread.key text))
        (instr.leads text thread.rest ++ others.map Thread.place) other :=
    fun hknown => Known.visit hknown hthread _
  refine ⟨fun other hother => ?_, fun next hnext => ?_, ?_⟩
  · rw [hplaces]
    rcases (@visited_visit_iff text visited thread.place other hthread).1
      hother with hold | heq
    · obtain ⟨instr', hinstr', hways⟩ := h.explored other hold
      exact ⟨instr', hinstr', fun way hway => hvisit (hways way hway)⟩
    · subst heq
      exact ⟨instr, hinstr, fun way hway => .inr (List.mem_append_left _ hway)⟩
  · rcases List.mem_append.1 hnext with hway | hother
    · exact ((ways_parts thread text instr).2 next hway).trans hthread
    · exact hothers next hother
  · rw [hplaces]
    exact hvisit h.known

/-- A search that finds nothing, with fuel enough, has not missed an end of
the code: no place that it knew of leads there. -/
theorem Searching.not_escapes
    (hsearching : Searching code text start visited threads)
    (hfuel : 2 * unvisited (code.size * (text.length + 1)) visited
      + threads.length ≤ fuel)
    (h : searchFrom code text fuel visited threads = none) (count : Nat) :
    ¬ Escapes code text count start := by
  induction fuel generalizing visited threads with
  | zero =>
      have hnil : threads = [] := List.eq_nil_of_length_eq_zero (by omega)
      subst hnil
      exact hsearching.explored.not_escapes hsearching.known
  | succ fuel ih =>
      cases threads with
      | nil => exact hsearching.explored.not_escapes hsearching.known
      | cons thread others =>
          rw [List.length_cons] at hfuel
          rw [searchFrom] at h
          cases hinstr : code[thread.address]? with
          | none => simp only [hinstr] at h; cases h
          | some instr =>
              simp only [hinstr] at h
              by_cases hbit : visited.testBit (thread.key text) = true
              · rw [if_pos hbit] at h
                exact ih (hsearching.drop hbit) (by omega) h
              · rw [if_neg hbit] at h
                have hkey : thread.place.key text
                    < code.size * (text.length + 1) :=
                  Place.key_lt
                    (hsearching.suffix thread List.mem_cons_self) hinstr
                have hless : unvisited (code.size * (text.length + 1))
                      (visited ||| power 2 (thread.key text))
                    < unvisited (code.size * (text.length + 1)) visited :=
                  unvisited_visit_lt hkey (Bool.eq_false_iff.2 hbit)
                have hways := (ways_parts thread text instr).1
                refine ih (hsearching.visit hinstr) ?_ h
                rw [List.length_append]
                omega

-- ================================================================ matches

theorem mem_map_place_starts_iff :
    place ∈ (starts text).map Thread.place
      ↔ ∃ rest, rest <:+ text ∧ place = (0, rest) := by
  induction text with
  | nil => simp [starts, Thread.place]
  | cons c rest ih =>
      rw [starts, List.map_cons, List.mem_cons, ih]
      simp only [List.suffix_cons_iff]
      constructor
      · intro h
        rcases h with heq | ⟨later, hlater, heq⟩
        · exact ⟨c :: rest, .inl rfl, heq⟩
        · exact ⟨later, .inr hlater, heq⟩
      · intro hsome
        obtain ⟨start, hstart, heq⟩ := hsome
        rcases hstart with hwhole | hlater
        · rw [hwhole] at heq
          exact .inl heq
        · exact .inr ⟨start, hlater, heq⟩

theorem length_starts (text : Text) :
    (starts text).length = text.length + 1 := by
  induction text with
  | nil => rfl
  | cons c rest ih => rw [starts, List.length_cons, List.length_cons, ih]

theorem unvisited_le (pairs visited : Nat) : unvisited pairs visited ≤ pairs :=
  (Finset.card_filter_le _ _).trans_eq (Finset.card_range pairs)

/-- The search finds a match exactly when the pattern may take a part of the
text. -/
theorem Node.isSome_search_iff (node : Node) (text : Text) :
    (node.search text).isSome = true
      ↔ ∃ rest rest', rest <:+ text ∧ node.Takes text rest rest' := by
  have hruns : Runs (node.code 0 node.size).toArray text (node.Takes text) 0
      node.size := node.sound_code 0 node.size (holds_toArray _)
  have hend : (node.code 0 node.size).toArray[node.size]? = none := by
    rw [List.getElem?_toArray, List.getElem?_eq_none]
    exact Nat.le_of_eq (node.hasSize_code 0 node.size)
  constructor
  · intro hfound
    obtain ⟨found, hsearch⟩ := Option.isSome_iff_exists.1 hfound
    obtain ⟨thread, hthread, count, hescapes⟩ := escapes_of_searchFrom hsearch
    obtain ⟨rest, hrest, hplace⟩ :=
      mem_map_place_starts_iff.1 (List.mem_map_of_mem hthread)
    rw [hplace] at hescapes
    obtain ⟨rest', -, -, htakes, -⟩ := hruns.sound hescapes
    exact ⟨rest, rest', hrest, htakes⟩
  · intro hmatch
    obtain ⟨rest, rest', hrest, htakes⟩ := hmatch
    rw [Option.isSome_iff_ne_none]
    intro hnone
    obtain ⟨count, hescapes⟩ := hruns.complete htakes (.out hend)
    have hstart : (0, rest) ∈ (starts text).map Thread.place :=
      mem_map_place_starts_iff.2 ⟨rest, hrest, rfl⟩
    have hsearching : Searching (node.code 0 node.size).toArray text (0, rest)
        0 (starts text) := by
      refine ⟨fun place hvisited => ?_, fun thread hthread => ?_, .inr hstart⟩
      · exact absurd hvisited.2 (by simp)
      · obtain ⟨later, hsuffix, hplace⟩ :=
          mem_map_place_starts_iff.1 (List.mem_map_of_mem hthread)
        have hlater : thread.rest = later := congrArg Prod.snd hplace
        rwa [hlater]
    refine hsearching.not_escapes ?_ hnone count hescapes
    have hle :=
      unvisited_le ((node.code 0 node.size).toArray.size * (text.length + 1)) 0
    rw [length_starts]
    omega

end Pattern

end LineScript
