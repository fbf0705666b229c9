/-
Files are kept: what a host is given under a path it gives back, and no
other file changes.

`Host.Faithful` is this law for any host, with the relation that says
which paths lead to one file. In memory that is equality of the paths. In
a tree two paths are one file if they end at one place, so the law needs
to know how a write bears on the resolution of every other path, and
there the point is that a write never replaces a directory: whatever
could be entered before can be entered after, and nothing else
(`Tree.enter_put`). Faults are not part of the law, and could not be: a
name with nothing under it and a name with a file under it fail in
different ways as a directory.

A tree keeps bytes, so the text that is read back has gone through UTF-8
and back (`Utf8.text?_encode`).
-/
import LineScript.Host.Memory
import LineScript.Host.Tree
import LineScript.Proofs.Language

set_option autoImplicit false

namespace LineScript

-- ======================================================== texts in bytes

namespace Utf8

/-- A small number as a byte. -/
theorem toNat_byte {n : Nat} (h : n < 256) : (UInt8.ofNat n).toNat = n := by
  rw [UInt8.toNat_ofNat']
  exact Nat.mod_eq_of_lt h

/-- The first byte of a sequence. -/
theorem decodeFrom_opens {n : Nat} {pending : Pending} (rest : List UInt8)
    (hbyte : n < 256) (h : lead n = .opens pending) :
    decodeFrom none (UInt8.ofNat n :: rest)
      = decodeFrom (some pending) rest := by
  rw [decodeFrom, toNat_byte hbyte, h]

/-- A byte in range that is not the last adds six bits to the code. -/
theorem decodeFrom_more {n : Nat} {pending : Pending} (rest : List UInt8)
    (hbyte : n < 256) (hrange : pending.low ≤ n ∧ n ≤ pending.high)
    (hmissing : 1 < pending.missing) :
    decodeFrom (some pending) (UInt8.ofNat n :: rest)
      = decodeFrom (some
        ⟨pending.code * 64 + (n - 0x80), pending.missing - 1, 0x80, 0xBF⟩)
          rest := by
  rw [decodeFrom, toNat_byte hbyte, if_pos hrange, if_neg (by omega)]

/-- The last byte gives the character of the code. -/
theorem decodeFrom_last {n : Nat} {pending : Pending} (rest : List UInt8)
    (hbyte : n < 256) (hrange : pending.low ≤ n ∧ n ≤ pending.high)
    (hmissing : pending.missing = 1) :
    decodeFrom (some pending) (UInt8.ofNat n :: rest)
      = some (Char.ofNat (pending.code * 64 + (n - 0x80)))
        :: decodeFrom none rest := by
  rw [decodeFrom, toNat_byte hbyte, if_pos hrange, if_pos (by omega)]

/-- The first of two bytes. -/
theorem lead_two {b : Nat} (hlow : 0xC2 ≤ b) (hhigh : b < 0xE0) :
    lead b = .opens ⟨b - 0xC0, 1, 0x80, 0xBF⟩ := by
  unfold lead
  rw [if_neg (by omega), if_neg (by omega), if_pos hhigh]

/-- The first of three bytes: after the least the second byte is not
small, before the surrogates not large. -/
theorem lead_three {b : Nat} (hlow : 0xE0 ≤ b) (hhigh : b < 0xF0) :
    lead b = .opens ⟨b - 0xE0, 2, if b = 0xE0 then 0xA0 else 0x80,
      if b = 0xED then 0x9F else 0xBF⟩ := by
  unfold lead
  rw [if_neg (by omega), if_neg (by omega), if_neg (by omega)]
  by_cases hleast : b = 0xE0
  · subst hleast
    rfl
  · rw [if_neg hleast, if_neg hleast]
    by_cases hsurrogate : b = 0xED
    · subst hsurrogate
      rfl
    · rw [if_neg hsurrogate, if_neg hsurrogate, if_pos hhigh]

/-- The first of four bytes: after the least the second byte is not
small, after the greatest not large. -/
theorem lead_four {b : Nat} (hlow : 0xF0 ≤ b) (hhigh : b ≤ 0xF4) :
    lead b = .opens ⟨b - 0xF0, 3, if b = 0xF0 then 0x90 else 0x80,
      if b = 0xF4 then 0x8F else 0xBF⟩ := by
  unfold lead
  rw [if_neg (by omega), if_neg (by omega), if_neg (by omega),
    if_neg (by omega), if_neg (by omega), if_neg (by omega)]
  by_cases hleast : b = 0xF0
  · subst hleast
    rfl
  · rw [if_neg hleast, if_neg hleast]
    by_cases hgreatest : b = 0xF4
    · subst hgreatest
      rfl
    · rw [if_pos (by omega), if_neg hgreatest]

/-- A character is read back from its bytes, whatever follows them. -/
theorem decodeFrom_encodeChar (c : Char) (rest : List UInt8) :
    decodeFrom none (String.utf8EncodeChar c ++ rest)
      = some c :: decodeFrom none rest := by
  have hscalar : c.toNat < 0xD800 ∨ (0xDFFF < c.toNat ∧ c.toNat < 0x110000) :=
    c.valid
  -- what is left in each case once the code of the bytes is computed
  have finish : ∀ code, code = c.toNat →
      some (Char.ofNat code) :: decodeFrom none rest
        = some c :: decodeFrom none rest := by
    rintro code rfl
    rw [Char.ofNat_toNat]
  simp only [String.utf8EncodeChar, Char.toNat_val]
  generalize hn : c.toNat = n at hscalar finish
  split
  next hone =>
    have hlead : lead n = .char (Char.ofNat n) := by
      rw [lead, if_pos (by omega)]
    rw [List.singleton_append, decodeFrom, toNat_byte (by omega), hlead]
    exact finish n rfl
  next hone =>
    split
    next htwo =>
      simp only [List.cons_append, List.nil_append]
      rw [decodeFrom_opens _ (by omega) (lead_two (by omega) (by omega)),
        decodeFrom_last _ (by omega) (by simp only; omega) rfl]
      exact finish _ (by simp only; omega)
    next htwo =>
      split
      next hthree =>
        simp only [List.cons_append, List.nil_append]
        rw [decodeFrom_opens _ (by omega) (lead_three (by omega) (by omega)),
          decodeFrom_more _ (by omega) (by constructor <;> simp only <;> split
            <;> omega) (by simp only; omega),
          decodeFrom_last _ (by omega) (by simp only; omega) rfl]
        exact finish _ (by simp only; omega)
      next hthree =>
        simp only [List.cons_append, List.nil_append]
        rw [decodeFrom_opens _ (by omega) (lead_four (by omega) (by omega)),
          decodeFrom_more _ (by omega) (by constructor <;> simp only <;> split
            <;> omega) (by simp only; omega),
          decodeFrom_more _ (by omega) (by simp only; omega)
            (by simp only; omega),
          decodeFrom_last _ (by omega) (by simp only; omega) rfl]
        exact finish _ (by simp only; omega)

/-- A text is read back from its bytes. -/
theorem text?_encode (text : Text) : text? (encode text) = some text := by
  have hdecode : decode (encode text) = text.map some := by
    unfold decode encode
    induction text with
    | nil => rfl
    | cons c rest ih =>
        rw [List.flatMap_cons, decodeFrom_encodeChar, ih, List.map_cons]
  have hall : ∀ characters : Text,
      (characters.map some).mapM id = some characters := by
    intro characters
    induction characters with
    | nil => rfl
    | cons c rest ih => rw [List.map_cons, List.mapM_cons, ih]; rfl
  rw [text?, hdecode, hall]

end Utf8

-- =============================================================== the law

/-- A host that keeps its files: a text that is written is the file at
its path from then on, and every other file stays as it is. `Same` says
which paths lead to one file. -/
structure Host.Faithful (η : Type) [Host η] (Same : η → Text → Text → Prop) :
    Prop where
  isFile_written : ∀ {host host' : η} {path contents : Text},
    Host.write host path contents = .ok host' → Host.isFile host' path = true
  read_written : ∀ {host host' : η} {path contents : Text},
    Host.write host path contents = .ok host' →
    Host.read host' path = .ok contents
  isFile_other : ∀ {host host' : η} {path contents other : Text},
    Host.write host path contents = .ok host' → ¬ Same host path other →
      Host.isFile host' other = Host.isFile host other
  read_other : ∀ {host host' : η} {path contents other : Text},
    Host.write host path contents = .ok host' → ¬ Same host path other →
      ∀ text, Host.read host' other = .ok text
        ↔ Host.read host other = .ok text

-- ============================================================= in memory

namespace MemoryHost

/-- Whether there is a file, and what it reads, is one look-up. -/
theorem read_eq_ok_iff {host : MemoryHost} {path text : Text} :
    Host.read host path = .ok text ↔ host.get? path = some text := by
  simp only [Host.read]
  cases host.get? path with
  | none => simp
  | some contents => simp

/-- Files in memory are kept, each path a file of its own. -/
theorem faithful :
    Host.Faithful MemoryHost fun _ path other => path = other where
  isFile_written h := by
    cases h
    simp [Host.isFile, put, Table.contains]
  read_written h := by
    cases h
    simp [read_eq_ok_iff, get?, put]
  isFile_other h hother := by
    cases h
    simp [Host.isFile, put, Table.contains,
      Table.get?_insert_of_ne _ _ (Ne.symm hother)]
  read_other h hother text := by
    cases h
    rw [read_eq_ok_iff, read_eq_ok_iff, get?, put,
      Table.get?_insert_of_ne _ _ (Ne.symm hother), get?]

end MemoryHost

-- ============================================================= in a tree

namespace Tree

/-- Two paths end at one place. -/
def SameFile (tree : Tree) (path other : Text) : Prop :=
  ∃ place name slash place' name' slash',
    tree.pathEnd path = .ok (.named place name slash)
      ∧ tree.pathEnd other = .ok (.named place' name' slash')
      ∧ pathOf (name' :: place') = pathOf (name :: place)

/-- What a name leads to from a directory. -/
theorem enter_eq_ok_iff {tree : Tree} {place there : List Text} {name : Text} :
    tree.enter place name = .ok there ↔
      if name = ['.'] then there = place
      else if name = ['.', '.'] then there = place.tail
      else Utf8.size name ≤ nameLimit
        ∧ tree.entryAt? (name :: place) = some .directory
        ∧ there = name :: place := by
  unfold enter
  split
  next => simp [eq_comm]
  next =>
    split
    next => simp [eq_comm]
    next =>
      split
      next hlong => simp [Nat.not_le.2 hlong]
      next hshort =>
        split
        next hentry => simp [hentry]
        next hentry => simp [hentry]
        next hentry => simp [hentry, Nat.not_lt.1 hshort, eq_comm]

/-- What is read at a path. -/
theorem readBytes_eq_ok_iff {tree : Tree} {path : Text} {bytes : List UInt8} :
    tree.readBytes path = .ok bytes ↔
      ∃ place name, tree.pathEnd path = .ok (.named place name false)
        ∧ Utf8.size name ≤ nameLimit
        ∧ tree.entryAt? (name :: place) = some (.file bytes) := by
  unfold readBytes
  rw [bind_eq_ok_iff]
  constructor
  · rintro ⟨found, hfound, h⟩
    cases found with
    | nameless => cases h
    | named place name slash =>
        simp only at h
        split at h
        next => cases h
        next hshort =>
          split at h
          next => cases h
          next => cases h
          next bytes' hentry =>
            cases slash with
            | true => cases h
            | false =>
                cases h
                exact ⟨place, name, hfound, Nat.not_lt.1 hshort, hentry⟩
  · rintro ⟨place, name, hfound, hshort, hentry⟩
    refine ⟨_, hfound, ?_⟩
    simp only [if_neg (Nat.not_lt.2 hshort), hentry]
    rfl

/-- What a write does: it puts a file where no directory is. -/
theorem writeBytes_eq_ok_iff {tree tree' : Tree} {path : Text}
    {bytes : List UInt8} :
    tree.writeBytes path bytes = .ok tree' ↔
      ∃ place name, tree.pathEnd path = .ok (.named place name false)
        ∧ Utf8.size name ≤ nameLimit
        ∧ tree.entryAt? (name :: place) ≠ some .directory
        ∧ tree' = tree.put (name :: place) bytes := by
  unfold writeBytes
  rw [bind_eq_ok_iff]
  constructor
  · rintro ⟨found, hfound, h⟩
    cases found with
    | nameless => cases h
    | named place name slash =>
        cases slash with
        | true => cases h
        | false =>
            simp only [Bool.false_eq_true, if_false] at h
            split at h
            next => cases h
            next hshort =>
              split at h
              next => cases h
              next hentry =>
                cases h
                exact ⟨place, name, hfound, Nat.not_lt.1 hshort, hentry, rfl⟩
  · rintro ⟨place, name, hfound, hshort, hentry, rfl⟩
    refine ⟨_, hfound, ?_⟩
    simp only [Bool.false_eq_true, if_false, if_neg (Nat.not_lt.2 hshort)]
    rfl

section put

variable {tree : Tree} {place : List Text} {bytes : List UInt8}

/-- A put changes what is at its own place and nothing else. -/
theorem entryAt?_put (other : List Text) :
    (tree.put place bytes).entryAt? other
      = if other ≠ [] ∧ pathOf other = pathOf place then some (.file bytes)
        else tree.entryAt? other := by
  cases other with
  | nil => rfl
  | cons name rest =>
      simp only [entryAt?, put, List.isEmpty_cons, Bool.false_eq_true,
        if_false, Table.get?_insert, ne_eq, reduceCtorEq, not_false_eq_true,
        true_and]

variable (hplace : place ≠ []) (hfile : tree.entryAt? place ≠ some .directory)
include hplace hfile

/-- A put that replaces no directory leaves the directories as they are. -/
theorem directory_put (other : List Text) :
    (tree.put place bytes).entryAt? other = some .directory
      ↔ tree.entryAt? other = some .directory := by
  rw [entryAt?_put]
  split
  next hsame =>
    obtain ⟨hother, hpath⟩ := hsame
    have hentry : tree.entryAt? other = tree.entryAt? place := by
      rw [entryAt?, entryAt?, hpath, if_neg (by simpa using hother),
        if_neg (by simpa using hplace)]
    simp [hentry, hfile]
  next => exact Iff.rfl

/-- So the same names can be entered before and after. -/
theorem enter_put (here : List Text) (name : Text) (there : List Text) :
    (tree.put place bytes).enter here name = .ok there
      ↔ tree.enter here name = .ok there := by
  rw [enter_eq_ok_iff, enter_eq_ok_iff, directory_put hplace hfile]

theorem endFrom_put (slash : Bool) (names : List Text) (here : List Text)
    (found : PathEnd) :
    (tree.put place bytes).endFrom slash here names = .ok found
      ↔ tree.endFrom slash here names = .ok found := by
  induction names generalizing here with
  | nil => exact Iff.rfl
  | cons name rest ih =>
      cases rest with
      | nil => exact Iff.rfl
      | cons next rest =>
          simp only [endFrom, bind_eq_ok_iff, enter_put hplace hfile, ih]

/-- And the same paths have an end, the same one. -/
theorem pathEnd_put (path : Text) (found : PathEnd) :
    (tree.put place bytes).pathEnd path = .ok found
      ↔ tree.pathEnd path = .ok found := by
  unfold pathEnd
  split
  next => exact Iff.rfl
  next =>
    split
    next => exact Iff.rfl
    next =>
      split
      next => exact Iff.rfl
      next => exact endFrom_put hplace hfile _ _ _ _

end put

/-- The bytes that a write puts at a path are read there. -/
theorem readBytes_written {tree tree' : Tree} {path : Text}
    {bytes : List UInt8} (h : tree.writeBytes path bytes = .ok tree') :
    tree'.readBytes path = .ok bytes := by
  obtain ⟨place, name, hfound, hshort, hentry, rfl⟩ := writeBytes_eq_ok_iff.1 h
  refine readBytes_eq_ok_iff.2 ⟨place, name, ?_, hshort, ?_⟩
  · exact (pathEnd_put (List.cons_ne_nil _ _) hentry path _).2 hfound
  · rw [entryAt?_put, if_pos ⟨List.cons_ne_nil _ _, rfl⟩]

/-- What a write does not put at a path is read there as before. -/
theorem readBytes_other {tree tree' : Tree} {path other : Text}
    {bytes : List UInt8} (h : tree.writeBytes path bytes = .ok tree')
    (hother : ¬ tree.SameFile path other) (bytes' : List UInt8) :
    tree'.readBytes other = .ok bytes'
      ↔ tree.readBytes other = .ok bytes' := by
  obtain ⟨place, name, hfound, hshort, hentry, rfl⟩ := writeBytes_eq_ok_iff.1 h
  rw [readBytes_eq_ok_iff, readBytes_eq_ok_iff]
  refine exists_congr fun place' => exists_congr fun name' => ?_
  rw [pathEnd_put (List.cons_ne_nil _ _) hentry]
  refine and_congr_right fun hfound' => and_congr_right fun _ => ?_
  rw [entryAt?_put, if_neg]
  rintro ⟨-, hpath⟩
  exact hother
    ⟨place, name, false, place', name', false, hfound, hfound', hpath⟩

theorem isFile_iff {tree : Tree} {path : Text} :
    Host.isFile tree path = true
      ↔ ∃ bytes, tree.readBytes path = .ok bytes := by
  simp only [Host.isFile]
  cases tree.readBytes path with
  | error fault => simp
  | ok bytes => simp

theorem read_eq_ok_iff {tree : Tree} {path text : Text} :
    Host.read tree path = .ok text
      ↔ ∃ bytes, tree.readBytes path = .ok bytes
        ∧ Utf8.text? bytes = some text := by
  simp only [Host.read]
  cases tree.readBytes path with
  | error fault => simp
  | ok bytes =>
      simp only [Except.ok.injEq, exists_eq_left']
      split
      next text' hdecoded => simp [hdecoded]
      next hdecoded => simp [hdecoded]

/-- Files in a tree are kept. -/
theorem faithful : Host.Faithful Tree SameFile where
  isFile_written h := isFile_iff.2 ⟨_, readBytes_written h⟩
  read_written h :=
    read_eq_ok_iff.2 ⟨_, readBytes_written h, Utf8.text?_encode _⟩
  isFile_other h hother := by
    rw [Bool.eq_iff_iff, isFile_iff, isFile_iff]
    exact exists_congr (readBytes_other h hother)
  read_other h hother text := by
    rw [read_eq_ok_iff, read_eq_ok_iff]
    exact exists_congr fun bytes => and_congr_left fun _ =>
      readBytes_other h hother bytes

end Tree

end LineScript
