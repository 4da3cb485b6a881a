import Mathlib.Tactic.Ring

/-!
Arithmetic on signed words of sixty-four bits that breaks off where a result does not fit. Main
statements: an operation whose exact result lies strictly within the range goes through with this
result, and steps that follow exact ones do so one after the other.
-/

set_option autoImplicit false

namespace MapChain.Words

/-- How a computation ends early: with a fault of its input, or broken off, since a number leaves
the range, a shift goes too far, an index lies outside or the rounds of a loop are used up. -/
inductive Halt (Fault : Type) where
  | fault (fault : Fault)
  | broken
  deriving DecidableEq, Repr

abbrev Run (Fault Value : Type) := Except (Halt Fault) Value

def Fits (number : Int) : Prop := -2 ^ 63 < number ∧ number < 2 ^ 63

instance (number : Int) : Decidable (Fits number) := inferInstanceAs (Decidable (_ ∧ _))

section Operations

variable {Fault : Type}

/-- Lets the word of an operation through if it is the exact result and this fits. -/
def exactly (word : Int64) (number : Int) : Run Fault Int64 :=
  if word.toInt = number ∧ Fits number then .ok word else .error .broken

def add (left right : Int64) : Run Fault Int64 :=
  exactly (left + right) (left.toInt + right.toInt)

def subtract (left right : Int64) : Run Fault Int64 :=
  exactly (left - right) (left.toInt - right.toInt)

def negate (word : Int64) : Run Fault Int64 := exactly (-word) (-word.toInt)

def shiftUp (word : Int64) (places : Nat) : Run Fault Int64 :=
  if places < 64 then exactly (word <<< Int64.ofNat places) (word.toInt * 2 ^ places)
  else .error .broken

def shiftDown (word : Int64) (places : Nat) : Run Fault Int64 :=
  if places < 64 then exactly (word >>> Int64.ofNat places) (word.toInt / 2 ^ places)
  else .error .broken

variable {word left right : Int64} {number : Int} {places : Nat}

theorem fits_nat {number : Nat} (small : number < 2 ^ 63) : Fits number := by
  constructor <;> omega

theorem bmod_of_fits (fits : Fits number) : number.bmod (2 ^ 64) = number := by
  obtain ⟨low, high⟩ := fits
  apply Int.bmod_eq_of_le <;> omega

variable (Fault)

theorem exactly_eq (same : word.toInt = number) (fits : Fits number) :
    ∃ passed, (exactly word number : Run Fault Int64) = .ok passed ∧ passed.toInt = number :=
  ⟨word, if_pos ⟨same, fits⟩, same⟩

/-- Operations wrap, which shows only where the exact result does not fit. -/
theorem exactly_of_wrapped (wrapped : word.toInt = number.bmod (2 ^ 64)) (fits : Fits number) :
    ∃ passed, (exactly word number : Run Fault Int64) = .ok passed ∧ passed.toInt = number :=
  exactly_eq Fault (wrapped.trans (bmod_of_fits fits)) fits

theorem add_eq (fits : Fits (left.toInt + right.toInt)) :
    ∃ sum, (add left right : Run Fault Int64) = .ok sum ∧
      sum.toInt = left.toInt + right.toInt :=
  exactly_of_wrapped Fault (Int64.toInt_add left right) fits

theorem subtract_eq (fits : Fits (left.toInt - right.toInt)) :
    ∃ difference, (subtract left right : Run Fault Int64) = .ok difference ∧
      difference.toInt = left.toInt - right.toInt :=
  exactly_of_wrapped Fault (Int64.toInt_sub left right) fits

theorem negate_eq (fits : Fits (-word.toInt)) :
    ∃ opposite, (negate word : Run Fault Int64) = .ok opposite ∧
      opposite.toInt = -word.toInt :=
  exactly_of_wrapped Fault (Int64.toInt_neg word) fits

/-- A distance is taken by its remainder, which is the distance itself below the length of a
word. -/
theorem distance_eq (near : places < 64) :
    ((Int64.ofNat places).toBitVec.smod 64).toNat = places := by
  have all : ∀ distance : Fin 64,
      ((Int64.ofNat distance.val).toBitVec.smod 64).toNat = distance.val := by decide
  exact all ⟨places, near⟩

theorem shift_up_eq (near : places < 64) (fits : Fits (word.toInt * 2 ^ places)) :
    ∃ shifted, (shiftUp word places : Run Fault Int64) = .ok shifted ∧
      shifted.toInt = word.toInt * 2 ^ places := by
  have wrapped : (word <<< Int64.ofNat places).toInt =
      (word.toInt * 2 ^ places).bmod (2 ^ 64) := by
    change (word.toBitVec <<< ((Int64.ofNat places).toBitVec.smod 64).toNat).toInt = _
    rw [distance_eq near, BitVec.toInt_shiftLeft, Nat.shiftLeft_eq, Int.natCast_mul,
      ← Int.bmod_mul_bmod, ← BitVec.toInt_eq_toNat_bmod, Int.natCast_pow]
    rfl
  rw [shiftUp, if_pos near]
  exact exactly_of_wrapped Fault wrapped fits

theorem shift_down_eq (near : places < 64) (fits : Fits (word.toInt / 2 ^ places)) :
    ∃ shifted, (shiftDown word places : Run Fault Int64) = .ok shifted ∧
      shifted.toInt = word.toInt / 2 ^ places := by
  have same : (word >>> Int64.ofNat places).toInt = word.toInt / 2 ^ places := by
    change (word.toBitVec.sshiftRight ((Int64.ofNat places).toBitVec.smod 64).toNat).toInt = _
    rw [distance_eq near, BitVec.toInt_sshiftRight, Int.shiftRight_eq_div_pow]
    rfl
  rw [shiftDown, if_pos near]
  exact exactly_eq Fault same fits

end Operations

section Bits

variable {left right word : Int64} {number other : Nat}

theorem to_nat_of_to_int (same : word.toInt = number) :
    word.toBitVec.toNat = number ∧ number < 2 ^ 63 := by
  have bound := word.toBitVec.isLt
  have cond := BitVec.toInt_eq_toNat_cond word.toBitVec
  change word.toInt = _ at cond
  rw [same] at cond
  split at cond <;> omega

theorem to_int_of_to_nat (same : word.toBitVec.toNat = number) (small : number < 2 ^ 63) :
    word.toInt = number := by
  have cond := BitVec.toInt_eq_toNat_cond word.toBitVec
  rw [same, if_pos (by omega)] at cond
  exact cond

theorem to_int_and (same : left.toInt = number) (alike : right.toInt = other) :
    (left &&& right).toInt = (number &&& other : Nat) := by
  obtain ⟨first, small⟩ := to_nat_of_to_int same
  obtain ⟨second, -⟩ := to_nat_of_to_int alike
  apply to_int_of_to_nat
  · rw [Int64.toBitVec_and, BitVec.toNat_and, first, second]
  · exact Nat.lt_of_le_of_lt Nat.and_le_left small

theorem to_int_or (same : left.toInt = number) (alike : right.toInt = other) :
    (left ||| right).toInt = (number ||| other : Nat) := by
  obtain ⟨first, small⟩ := to_nat_of_to_int same
  obtain ⟨second, less⟩ := to_nat_of_to_int alike
  apply to_int_of_to_nat
  · rw [Int64.toBitVec_or, BitVec.toNat_or, first, second]
  · exact Nat.or_lt_two_pow small less

theorem eq_iff_to_int (same : left.toInt = number) (alike : right.toInt = other) :
    left = right ↔ number = other := by
  rw [← Int64.toInt_inj, same, alike, Int.natCast_inj]

theorem low_bits_eq (same : word.toInt = number) :
    (word &&& 31).toInt = (number % 32 : Nat) := by
  have low : number &&& 31 = number % 32 := Nat.and_two_pow_sub_one_eq_mod number 5
  rw [to_int_and same (by rfl : (31 : Int64).toInt = (31 : Nat)), low]

theorem is_odd_iff (same : word.toInt = number) : word &&& 1 = 1 ↔ number % 2 = 1 := by
  have one : (1 : Int64).toInt = (1 : Nat) := by rfl
  rw [eq_iff_to_int (to_int_and same one) one, Nat.and_one_is_mod]

theorem is_unmarked_iff (same : word.toInt = number) (digit : number < 64) :
    word &&& 32 = 0 ↔ number < 32 := by
  have all : ∀ digit : Fin 64, digit.val &&& 32 = 0 ↔ digit.val < 32 := by decide
  rw [eq_iff_to_int (to_int_and same (by rfl : (32 : Int64).toInt = (32 : Nat)))
    (by rfl : (0 : Int64).toInt = (0 : Nat))]
  exact all ⟨number, digit⟩

theorem marked_eq (same : word.toInt = number) (small : number < 32) :
    (word ||| 32).toInt = (number + 32 : Nat) := by
  have all : ∀ digit : Fin 32, digit.val ||| 32 = digit.val + 32 := by decide
  rw [to_int_or same (by rfl : (32 : Int64).toInt = (32 : Nat)), all ⟨number, small⟩]

theorem odd_eq (same : word.toInt = (2 * number : Nat)) :
    (word ||| 1).toInt = (2 * number + 1 : Nat) := by
  rw [to_int_or same (by rfl : (1 : Int64).toInt = (1 : Nat)),
    ← Nat.two_pow_add_eq_or_of_lt (i := 1) (by decide) number, Nat.pow_one]

end Bits

section Following

variable {Fault Value Number Result Other : Type}

/-- A run on words does what an exact computation does: both end with the same fault, or go through
to related results. -/
inductive Follows (related : Value → Number → Prop) : Run Fault Value → Except Fault Number → Prop
  | ok {value : Value} {number : Number} (same : related value number) :
      Follows related (.ok value) (.ok number)
  | fault (fault : Fault) : Follows related (.error (.fault fault)) (.error fault)

variable {related : Value → Number → Prop} {alike : Result → Other → Prop}
  {run : Run Fault Value} {plain : Except Fault Number}

theorem Follows.bind {next : Value → Run Fault Result} {after : Number → Except Fault Other}
    (first : Follows related run plain)
    (later : ∀ value number, related value number → Follows alike (next value) (after number)) :
    Follows alike (run >>= next) (plain >>= after) := by
  cases first with
  | ok same => exact later _ _ same
  | fault fault => exact .fault fault

theorem Follows.map {change : Value → Result} {after : Number → Other}
    (follows : Follows related run plain)
    (later : ∀ value number, related value number → alike (change value) (after number)) :
    Follows alike (run >>= fun value => pure (change value)) (plain.map after) := by
  cases follows with
  | ok same => exact .ok (later _ _ same)
  | fault fault => exact .fault fault

theorem bind_of_ok {value : Value} {next : Value → Run Fault Result} (done : run = .ok value) :
    run >>= next = next value := by
  rw [done]
  rfl

/-- A step on words that goes through has no part in what the exact computation does. -/
theorem Follows.step {value : Value} {next : Value → Run Fault Result} {plain : Except Fault Other}
    (done : run = .ok value) (later : Follows alike (next value) plain) :
    Follows alike (run >>= next) plain := by
  rw [bind_of_ok done]
  exact later

theorem Follows.mono {wider : Value → Number → Prop} (follows : Follows related run plain)
    (wide : ∀ value number, related value number → wider value number) :
    Follows wider run plain := by
  cases follows with
  | ok same => exact .ok (wide _ _ same)
  | fault fault => exact .fault fault

theorem Follows.map_eq {view : Value → Number}
    (follows : Follows (fun value number => view value = number) run plain) :
    run.map view = plain.mapError .fault := by
  cases follows with
  | ok same =>
      rw [← same]
      rfl
  | fault fault => rfl

end Following

end MapChain.Words
