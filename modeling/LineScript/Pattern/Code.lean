/-
Patterns as code for a machine that reads a text from left to right.

Each instruction says where to go on. Code is laid out without gaps: the
code of a pattern starts at a given address, `base`, which is also where
it is entered, takes `size` instructions, and leads to another address,
`next`, wherever that is. Since sizes are known beforehand, every address
is known when an instruction is written, and code is a list that is never
patched.

A split names the preferred address first. That is where greedy and
sparing repetitions differ, and nowhere else.
-/
import LineScript.Pattern.Basic

set_option autoImplicit false

namespace LineScript

namespace Pattern

/-- The instructions. -/
inductive Instr where
  /-- Take one character of a set. -/
  | one (set : CharSet) (next : Nat)
  /-- Go on where a look allows it. -/
  | look (look : Look) (next : Nat)
  | goOn (next : Nat)
  /-- Go on at the first address, or else at the second. -/
  | split (first second : Nat)
  /-- A group begins here. -/
  | openGroup (index next : Nat)
  /-- A group ends here. -/
  | closeGroup (index next : Nat)
  deriving DecidableEq, Repr

/-- The code of a body, for the address it starts at and the one it leads
to. -/
abbrev Body := (base next : Nat) → List Instr

namespace Code

/-- A split that prefers to go on if `greedy` and to leave if not. -/
def choose (greedy : Bool) (more leave : Nat) : Instr :=
  if greedy then .split more leave else .split leave more

/-- Copies of a body of a given size, one leading to the other and the
last one to the address after it. -/
def copies (body : Body) (size : Nat) : (count base : Nat) → List Instr
  | 0, _ => []
  | count + 1, base =>
    body base (base + size) ++ copies body size count (base + size)

/-- A body at most `count` times. -/
def upTo (body : Body) (size : Nat) (greedy : Bool) :
    (count base next : Nat) → List Instr
  | 0, _, next => [.goOn next]
  | count + 1, base, next =>
    choose greedy (base + 1) next ::
      (body (base + 1) (base + 1 + size)
        ++ upTo body size greedy count (base + 1 + size) next)

/-- A body at least once. -/
def atLeastOne (body : Body) (size : Nat) (greedy : Bool) (base next : Nat) :
    List Instr :=
  body base (base + size) ++ [choose greedy base next]

/-- A body any number of times, for a body that always takes a character:
one place to come back to. -/
def loop (body : Body) (greedy : Bool) (base next : Nat) : List Instr :=
  choose greedy (base + 1) next :: body (base + 1) base

/-- A body any number of times: not at all, or at least once. -/
def anyNumber (body : Body) (size : Nat) (greedy : Bool) (base next : Nat) :
    List Instr :=
  choose greedy (base + 1) next :: atLeastOne body size greedy (base + 1) next

end Code

/-- Whether a pattern may match without taking a character. -/
def Node.nullable : Node → Bool
  | .empty | .look _ => true
  | .one _ => false
  | .sequence first second => first.nullable && second.nullable
  | .choice first second => first.nullable || second.nullable
  | .group _ body => body.nullable
  | .repetition body least _ _ => least == 0 || body.nullable

/-- How many instructions the code of a repetition takes. -/
def repetitionSize (nullable : Bool) (size least : Nat) :
    (most : Option Nat) → Nat
  | some most => least * size + ((most - least) * (size + 1) + 1)
  | none =>
    match least with
    | 0 => if nullable then size + 2 else size + 1
    | least + 1 => least * size + (size + 1)

/-- The code of a repetition. Where a round may take no character, the
place to come back to is kept apart from the place to come in, so that
the first round may be empty and no later one. -/
def repetitionCode (nullable : Bool) (body : Body) (size least : Nat)
    (most : Option Nat) (greedy : Bool) (base next : Nat) : List Instr :=
  match most, least with
  | some most, least =>
    Code.copies body size least base
      ++ Code.upTo body size greedy (most - least) (base + least * size) next
  | none, 0 =>
    if nullable then Code.anyNumber body size greedy base next
    else Code.loop body greedy base next
  | none, least + 1 =>
    Code.copies body size least base
      ++ Code.atLeastOne body size greedy (base + least * size) next

/-- How many instructions the code of a pattern takes. -/
def Node.size : Node → Nat
  | .empty | .one _ | .look _ => 1
  | .sequence first second => first.size + second.size
  | .choice first second => first.size + second.size + 1
  | .group _ body => body.size + 2
  | .repetition body least most _ =>
    repetitionSize body.nullable body.size least most

/-- The code of a pattern. -/
def Node.code : Node → Body
  | .empty, _, next => [.goOn next]
  | .one set, _, next => [.one set next]
  | .look asked, _, next => [.look asked next]
  | .sequence first second, base, next =>
    first.code base (base + first.size) ++ second.code (base + first.size) next
  | .choice first second, base, next =>
    .split (base + 1) (base + 1 + first.size) ::
      (first.code (base + 1) next ++ second.code (base + 1 + first.size) next)
  | .group index body, base, next =>
    .openGroup index (base + 1) ::
      (body.code (base + 1) (base + 1 + body.size) ++ [.closeGroup index next])
  | .repetition body least most greedy, base, next =>
    repetitionCode body.nullable body.code body.size least most
      greedy base next

-- ====================================================== small lemmas

/-- A body whose code always takes `size` instructions. -/
def Body.HasSize (body : Body) (size : Nat) : Prop :=
  ∀ base next, (body base next).length = size

theorem Code.length_copies {body : Body} {size : Nat} (h : body.HasSize size)
    (count base : Nat) :
    (copies body size count base).length = count * size := by
  induction count generalizing base with
  | zero => simp [copies]
  | succ count ih =>
    simp only [copies, List.length_append, h base, ih]
    rw [Nat.succ_mul, Nat.add_comm]

theorem Code.length_upTo {body : Body} {size : Nat} (h : body.HasSize size)
    (greedy : Bool) (count base next : Nat) :
    (upTo body size greedy count base next).length
      = count * (size + 1) + 1 := by
  induction count generalizing base with
  | zero => simp [upTo]
  | succ count ih =>
    simp only [upTo, List.length_cons, List.length_append, h (base + 1), ih,
      Nat.succ_mul]
    omega

theorem Code.length_atLeastOne {body : Body} {size : Nat}
    (h : body.HasSize size) (greedy : Bool) (base next : Nat) :
    (atLeastOne body size greedy base next).length = size + 1 := by
  simp [atLeastOne, h base]

theorem length_repetitionCode {body : Body} {size : Nat}
    (h : body.HasSize size) (nullable : Bool) (least : Nat) (most : Option Nat)
    (greedy : Bool) (base next : Nat) :
    (repetitionCode nullable body size least most greedy base next).length =
      repetitionSize nullable size least most := by
  cases most with
  | some most =>
    simp [repetitionCode, repetitionSize, Code.length_copies h,
      Code.length_upTo h]
  | none =>
    cases least with
    | zero =>
      cases nullable with
      | true =>
          simp [repetitionCode, repetitionSize, Code.anyNumber,
            Code.length_atLeastOne h]
      | false => simp [repetitionCode, repetitionSize, Code.loop, h (base + 1)]
    | succ least =>
      simp [repetitionCode, repetitionSize, Code.length_copies h,
        Code.length_atLeastOne h]

/-- Code takes as many instructions as its size says. -/
theorem Node.hasSize_code (node : Node) :
    Body.HasSize node.code node.size := by
  induction node with
  | empty => exact fun _ _ => rfl
  | one set => exact fun _ _ => rfl
  | look look => exact fun _ _ => rfl
  | sequence first second ih1 ih2 =>
    intro base next
    simp [code, size, ih1 base, ih2 (base + first.size)]
  | choice first second ih1 ih2 =>
    intro base next
    simp [code, size, ih1 (base + 1), ih2 (base + 1 + first.size)]
  | group index body ih =>
    intro base next
    simp [code, size, ih (base + 1)]
  | repetition body least most greedy ih =>
    exact fun base next =>
      length_repetitionCode ih body.nullable least most greedy base next

end Pattern

end LineScript
