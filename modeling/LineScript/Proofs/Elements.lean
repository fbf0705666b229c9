/-
Elements by their index, and their number.

A string has its characters for elements, a list its items, and both the
command for an element and the one for their number go by them. The index
is a number, and any number may stand there: it is truncated, brought into
the range of 64-bit integers and tried as a place. The middle step is no
loss. It leaves the sign as it is and what is in range, and what is too
large for the range is too large for a place still, since nothing has as
many elements as that (`getElem?_clampInt64`). So an element is found just
for the numbers whose integer part is a place (`result?_cut_eq_some_iff`),
and whoever goes through all the places has the whole value in parts.
-/
import LineScript.Proofs.Bits
import LineScript.Proofs.Traces

set_option autoImplicit false

namespace LineScript

-- ================================================================= places

variable {elements : List Text} {element : Text}

/-- In a list that is not too long, an integer brought into the range of
64-bit integers is the place that it was. -/
theorem getElem?_clampInt64 (hsize : elements.length < power 2 63) (n : Int) :
    (if Double.clampInt64 n < 0 then none
      else elements[(Double.clampInt64 n).toNat]?)
        = some element
      ↔ ∃ i : Nat, n = i ∧ elements[i]? = some element := by
  have hpower : power 2 63 = 9223372036854775808 := by decide
  rw [hpower] at hsize
  rw [Double.clampInt64, hpower]
  constructor
  · intro h
    split at h
    next => cases h
    next hsign =>
      -- a place that is found lies below the bound, so nothing was cut off
      obtain ⟨hlt, -⟩ := List.getElem?_eq_some_iff.1 h
      have hplace : (max (-9223372036854775808)
          (min (9223372036854775808 - 1) n)).toNat
          = n.toNat := by omega
      refine ⟨n.toNat, by omega, ?_⟩
      rw [← hplace]
      exact h
  · rintro ⟨i, rfl, h⟩
    obtain ⟨hlt, -⟩ := List.getElem?_eq_some_iff.1 h
    have hplace : max (-9223372036854775808)
        (min (9223372036854775808 - 1) (i : Int)) = i := by
      omega
    simp only [Nat.cast_ofNat, hplace, Int.toNat_natCast, h]
    exact if_neg (by omega)

/-- The command for an element has a result just for the numbers whose
integer part is a place, and it is the element there. -/
theorem Instruction.result?_cut_eq_some_iff {η : Type} [Host η] {host : η}
    {call : Call} {machine : Machine} {value result : Value} {x : Double}
    (hvalue : call.value? machine 0 = some value)
    (helements : value.elements? = some elements)
    (hsize : elements.length < power 2 63)
    (hindex : call.value? machine 1 = some (.number x)) :
    cut.result? call machine host = some result
      ↔ ∃ (i : Nat) (element : Text), x.truncate? = some (i : Int)
          ∧ elements[i]? = some element ∧ result = .string element := by
  have hinteger : call.integer? machine 1
      = x.truncate?.map Double.clampInt64 := by
    rw [Call.integer?, Call.number?_eq hindex, Value.number?, Option.bind_some]
  have hresult : cut.result? call machine host
      = x.truncate?.bind fun n => (if Double.clampInt64 n < 0 then none
          else elements[(Double.clampInt64 n).toNat]?).map Value.string := by
    rw [result?, Call.elements?_eq hvalue, helements, hinteger]
    cases x.truncate? with
    | none => rfl
    | some n =>
        simp only [Option.map_some, Option.bind_eq_bind, Option.bind_some]
        split
        · rfl
        · rfl
  simp only [hresult, Option.bind_eq_some_iff, Option.map_eq_some_iff,
    getElem?_clampInt64 hsize]
  constructor
  · rintro ⟨_, htruncate, element, ⟨i, rfl, helement⟩, rfl⟩
    exact ⟨i, element, htruncate, helement, rfl⟩
  · rintro ⟨i, element, htruncate, helement, rfl⟩
    exact ⟨i, htruncate, element, ⟨i, rfl, helement⟩, rfl⟩

/-- A value by its elements. -/
theorem Value.eq_of_elements? {value : Value}
    (h : value.elements? = some elements) :
    value = .string elements.flatten ∨ value = .list elements := by
  cases value with
  | number x => cases h
  | list items => exact .inr (congrArg Value.list (Option.some.inj h))
  | string text =>
      obtain rfl := Option.some.inj h
      left
      rw [← List.flatMap_def, List.flatMap_singleton']

-- =============================================================== commands

namespace Engine

variable {η : Type} [Host η] {engine : Engine Output} {listing : Listing}
  {vars : Table Value} {source index target : Text} {value : Value}
  {x : Double} {pc : Nat} {state : State Output} {host : η}

/-- An element is stored just for the numbers whose integer part is a
place. -/
theorem HasCall.stores_cut_iff
    (h : engine.HasCall listing pc .cut [source, index, target])
    (hvalue : vars.get? source = some value)
    (helements : value.elements? = some elements)
    (hsize : elements.length < power 2 63)
    (hindex : vars.get? index = some (.number x)) {result : Value} :
    engine.Stores listing state host vars pc target result
      ↔ ∃ (i : Nat) (element : Text), x.truncate? = some (i : Int)
          ∧ elements[i]? = some element ∧ result = .string element := by
  obtain ⟨line, keyword, hcall⟩ := h
  have hfound : Call.value? ⟨pc, line, keyword, [source, index, target]⟩
      (state.holding vars pc).machine 0 = some value := hvalue
  have hplace : Call.value? ⟨pc, line, keyword, [source, index, target]⟩
      (state.holding vars pc).machine 1 = some (.number x) := hindex
  exact Iff.trans (hcall.stores_iff rfl)
    (Instruction.result?_cut_eq_some_iff hfound helements hsize hplace)

/-- For all other numbers the command fails. -/
theorem HasCall.cut_fails
    (h : engine.HasCall listing pc .cut [source, index, target])
    (hvalue : vars.get? source = some value)
    (helements : value.elements? = some elements)
    (hsize : elements.length < power 2 63)
    (hindex : vars.get? index = some (.number x))
    (hplace : ¬ ∃ i : Nat, x.truncate? = some (i : Int)
      ∧ i < elements.length) :
    engine.Fails listing state host vars pc := by
  obtain ⟨line, keyword, hcall⟩ := h
  refine hcall.fails rfl
    (Option.eq_none_iff_forall_ne_some.2 fun result hresult => ?_)
  have hstores : engine.Stores listing state host vars pc target result :=
    hcall.stores rfl hresult
  obtain ⟨i, element, htruncate, helement, -⟩ :=
    (HasCall.stores_cut_iff ⟨line, keyword, hcall⟩ hvalue helements hsize
      hindex).1 hstores
  exact hplace ⟨i, htruncate, (List.getElem?_eq_some_iff.1 helement).1⟩

/-- The commands for an element and for the number of elements go by the
same elements: the characters of a string, the items of a list.

- The one stores the number of elements. That is a double without rounding
  up to two to the fifty-third power.
- The other stores an element exactly if the index has an integer part and
  this is a place, and then the element at this place. For all other numbers,
  those that are not finite and those out of any range among them, it fails
  and changes nothing.
- The elements that are stored for all the places in turn are, one behind
  the other, the string, or they are the items of the list.

No value has as many elements as two to the sixty-third power. -/
theorem cut_agrees_with_length (state : State Output) (host : η)
    (hvalue : vars.get? source = some value)
    (helements : value.elements? = some elements)
    (hsize : elements.length < power 2 63) :
    (∀ pc target, engine.HasCall listing pc .length [source, target] →
        engine.Stores listing state host vars pc target
          (.number (.ofNat elements.length)))
      ∧ (elements.length ≤ power 2 53 →
        (Double.ofNat elements.length).IsInteger elements.length)
      ∧ (∀ pc index target x, vars.get? index = some (.number x) →
          engine.HasCall listing pc .cut [source, index, target] →
          ((∃ result, engine.Stores listing state host vars pc target result)
              ↔ ∃ i : Nat, x.truncate? = some (i : Int) ∧ i < elements.length)
            ∧ (∀ (i : Nat) element, x.truncate? = some (i : Int) →
              elements[i]? = some element →
                engine.Stores listing state host vars pc target
                  (.string element))
            ∧ ((¬ ∃ i : Nat, x.truncate? = some (i : Int)
              ∧ i < elements.length) →
                engine.Fails listing state host vars pc))
      ∧ ∀ pieces : List Text, pieces.length = elements.length →
          (∀ (i : Nat) piece, pieces[i]? = some piece →
            ∃ (state : State Output) (host : η) (vars : Table Value) (pc : Nat)
                (index target : Text) (x : Double),
              vars.get? source = some value
                ∧ vars.get? index = some (.number x)
                ∧ x.truncate? = some (i : Int)
                ∧ engine.HasCall listing pc .cut [source, index, target]
                ∧ engine.Stores listing state host vars pc target
                  (.string piece)) →
          value = .string pieces.flatten ∨ value = .list pieces := by
  refine ⟨?_, fun hexact =>
    Double.isInteger_ofInt (Double.isExact_natCast.2 hexact),
    fun pc index target x hindex hcall =>
      ⟨⟨?_, ?_⟩, ?_, hcall.cut_fails hvalue helements hsize hindex⟩, ?_⟩
  · rintro pc target ⟨_, _, hcall⟩
    exact hcall.stores_length state host hvalue helements
  · rintro ⟨result, hstores⟩
    obtain ⟨i, element, htruncate, helement, -⟩ :=
      (hcall.stores_cut_iff hvalue helements hsize hindex).1 hstores
    exact ⟨i, htruncate, (List.getElem?_eq_some_iff.1 helement).1⟩
  · rintro ⟨i, htruncate, hi⟩
    exact ⟨.string elements[i],
      (hcall.stores_cut_iff hvalue helements hsize hindex).2
      ⟨i, elements[i], htruncate, List.getElem?_eq_getElem hi, rfl⟩⟩
  · intro i element htruncate helement
    exact (hcall.stores_cut_iff hvalue helements hsize hindex).2
      ⟨i, element, htruncate, helement, rfl⟩
  · intro pieces hlength hpieces
    have hsame : pieces = elements := by
      refine List.ext_getElem hlength fun i hi hi' => ?_
      obtain ⟨_, _, _, _, _, _, x, hvalue', hindex, htruncate, hcall,
        hstores⟩ := hpieces i pieces[i] (List.getElem?_eq_getElem hi)
      obtain ⟨j, element, htruncate', helement, hpiece⟩ :=
        (hcall.stores_cut_iff hvalue' helements hsize hindex).1 hstores
      have hplace : (i : Int) = j :=
        Option.some.inj (htruncate.symm.trans htruncate')
      obtain rfl := Int.ofNat_inj.1 hplace
      rw [List.getElem?_eq_getElem hi'] at helement
      cases hpiece
      exact (Option.some.inj helement).symm
    rw [hsame]
    exact value.eq_of_elements? helements

/-- For instance, a string of three characters: the first of them for an
index a little below zero, and none for an infinite one. -/
theorem cut_agrees_with_length_of_characters :
    Interpreter.standard.engine.Stores #["cut s, i, c".toList]
        Interpreter.standard.state (⟨.empty⟩ : MemoryHost)
        ((Table.empty.insert "s".toList
          (.string "a\u00e9\u20ac".toList)).insert "i".toList
          (.number (.ofDecimal true 5 1))) 0 "c".toList (.string "a".toList)
      ∧ Interpreter.standard.engine.Fails #["cut s, i, c".toList]
          Interpreter.standard.state (⟨.empty⟩ : MemoryHost)
          ((Table.empty.insert "s".toList
            (.string "a\u00e9\u20ac".toList)).insert "i".toList
            (.number (.infinite false))) 0 := by
  have hcall : Interpreter.standard.engine.HasCall #["cut s, i, c".toList] 0
      .cut ["s".toList, "i".toList, "c".toList] :=
    ⟨"cut s, i, c".toList, "cut".toList, rfl, rfl, rfl, rfl⟩
  have htruncate : (Double.ofDecimal true 5 1).truncate? = some 0 := by
    decide +kernel
  constructor
  · exact ((cut_agrees_with_length Interpreter.standard.state
      (⟨.empty⟩ : MemoryHost) rfl rfl (by decide)).2.2.1 0 "i".toList
      "c".toList _ rfl hcall).2.1 0 _ htruncate rfl
  · refine ((cut_agrees_with_length Interpreter.standard.state
      (⟨.empty⟩ : MemoryHost) rfl rfl (by decide)).2.2.1 0 "i".toList
      "c".toList _ rfl hcall).2.2 ?_
    rintro ⟨i, hfinite, -⟩
    cases hfinite

end Engine

end LineScript
