/-
When two values are the same.

Floats are the same if neither is a NaN and they are one pattern or two zeros, lists if they
have the same length and the same values at each place, objects if they are one object, and
all other values if they are equal.  What floats leave open decides for all values:
`Value.same_iff` says that two values are the same exactly if no NaN occurs in them and they
become one value once every zero has lost its sign.  Sameness is symmetric and transitive
for that reason, and a value is the same as itself exactly if no NaN occurs in it, however
deep in lists: `Value.partial_equivalence`.

The fields of a float are read off its number, `Binary64.exponent` and `Binary64.fraction`,
so that what a NaN is and what a zero is are said without the masks that the comparison uses.
-/
import Strands.Value
import Mathlib.Algebra.Group.Nat.Defs
import Mathlib.Data.List.Forall2

namespace Strands

namespace Binary64

def exponent (x : Binary64) : Nat := x.toNat / 2 ^ 52 % 2 ^ 11

def fraction (x : Binary64) : Nat := x.toNat % 2 ^ 52

/-- All bits of the exponent are set, and some bit of the fraction is. -/
def NotANumber (x : Binary64) : Prop := x.exponent = 2 ^ 11 - 1 ∧ x.fraction ≠ 0

/-- No bit is set but that of the sign. -/
def Zero (x : Binary64) : Prop := x.exponent = 0 ∧ x.fraction = 0

def negativeZero : Binary64 := 0x8000000000000000

def unsigned (x : Binary64) : Binary64 := if x = negativeZero then 0 else x

variable {x y : Binary64}

theorem toNat_magnitude (x : Binary64) : x.magnitude.toNat = x.toNat % 2 ^ 63 := by
  rw [magnitude, UInt64.toNat_and]
  exact Nat.and_two_pow_sub_one_eq_mod x.toNat 63

theorem exponent_add_fraction (x : Binary64) :
    x.exponent * 2 ^ 52 + x.fraction = x.magnitude.toNat := by
  rw [toNat_magnitude, exponent, fraction]
  omega

theorem isNaN_iff : x.isNaN = true ↔ x.NotANumber := by
  have parts := x.exponent_add_fraction
  have small : x.exponent < 2 ^ 11 := Nat.mod_lt _ (by decide)
  have below : x.fraction < 2 ^ 52 := Nat.mod_lt _ (by decide)
  have greater : x.isNaN = true ↔ (0x7ff0000000000000 : UInt64).toNat < x.magnitude.toNat := by
    rw [isNaN, decide_eq_true_eq]
    exact UInt64.lt_iff_toNat_lt
  rw [greater, ← parts, NotANumber,
    show (0x7ff0000000000000 : UInt64).toNat = 2047 * 2 ^ 52 from rfl]
  omega

theorem isZero_iff : x.isZero = true ↔ x.Zero := by
  have parts := x.exponent_add_fraction
  rw [isZero, beq_iff_eq, ← UInt64.toNat_inj, ← parts, Zero]
  show _ = 0 ↔ _
  omega

theorem zero_iff : x.Zero ↔ x = 0 ∨ x = negativeZero := by
  have bound : x.toNat < 2 ^ 64 := UInt64.toNat_lt x
  rw [← UInt64.toNat_inj, ← UInt64.toNat_inj, show (0 : Binary64).toNat = 0 from rfl,
    show negativeZero.toNat = 2 ^ 63 from rfl, Zero, exponent, fraction]
  omega

theorem isNaN_unsigned (x : Binary64) : x.unsigned.isNaN = x.isNaN := by
  unfold unsigned
  split
  · rename_i negative
    rw [negative]
    decide
  · rfl

theorem unsigned_eq_unsigned_iff :
    x.unsigned = y.unsigned ↔ x = y ∨ x.Zero ∧ y.Zero := by
  rw [zero_iff, zero_iff, unsigned, unsigned]
  split <;> split <;> grind

theorem same_iff :
    x.same y = true ↔ ¬ x.NotANumber ∧ ¬ y.NotANumber ∧ (x = y ∨ x.Zero ∧ y.Zero) := by
  simp [same, ← isNaN_iff, ← isZero_iff, and_assoc]

theorem same_iff_unsigned : x.same y = true ↔ x.isNaN = false ∧ x.unsigned = y.unsigned := by
  rw [same_iff, ← unsigned_eq_unsigned_iff, ← isNaN_iff, ← isNaN_iff, Bool.not_eq_true,
    Bool.not_eq_true]
  refine and_congr_right fun number => and_iff_right_of_imp fun eq => ?_
  rw [← isNaN_unsigned, ← eq, isNaN_unsigned, number]

end Binary64

namespace Value

/-- A value occurs in another one, or is it. -/
inductive Occurs (x : Value) : Value → Prop
  | here : Occurs x x
  | inside {v : Value} {items : List Value} : v ∈ items → Occurs x v → Occurs x (.list items)

/-- Some float that occurs in a value, at any depth, is a NaN. -/
def HasNaN (v : Value) : Prop := ∃ x : Binary64, x.NotANumber ∧ Occurs (.float x) v

mutual

def unsigned : Value → Value
  | float x => .float x.unsigned
  | list items => .list (unsignedAll items)
  | v => v

def unsignedAll : List Value → List Value
  | [] => []
  | v :: rest => unsigned v :: unsignedAll rest

end

theorem unsignedAll_eq_map (items : List Value) : unsignedAll items = items.map unsigned := by
  induction items with
  | nil => rfl
  | cons v rest ih => rw [unsignedAll, ih, List.map_cons]

@[elab_as_elim]
theorem nested_induction {motive : Value → Prop} (nil : motive .nil)
    (bool : ∀ b, motive (.bool b)) (int : ∀ n, motive (.int n)) (float : ∀ x, motive (.float x))
    (string : ∀ text, motive (.string text)) (object : ∀ id, motive (.object id))
    (list : ∀ items, (∀ v ∈ items, motive v) → motive (.list items)) : ∀ v, motive v
  | .nil => nil
  | .bool b => bool b
  | .int n => int n
  | .float x => float x
  | .string text => string text
  | .object id => object id
  | .list items => list items fun v mem =>
      have smaller : sizeOf v < sizeOf (Value.list items) := by
        have inside := List.sizeOf_lt_of_mem mem
        rw [Value.list.sizeOf_spec]
        omega
      nested_induction nil bool int float string object list v
termination_by v => sizeOf v
decreasing_by exact smaller

/-! ## NaNs -/

@[simp] theorem hasNaN_float (x : Binary64) : HasNaN (.float x) ↔ x.isNaN = true := by
  rw [Binary64.isNaN_iff]
  refine ⟨fun ⟨y, nan, occurs⟩ => ?_, fun nan => ⟨x, nan, .here⟩⟩
  cases occurs
  exact nan

@[simp] theorem hasNaN_list (items : List Value) :
    HasNaN (.list items) ↔ ∃ v ∈ items, HasNaN v := by
  refine ⟨fun ⟨x, nan, occurs⟩ => ?_, fun ⟨v, mem, x, nan, occurs⟩ =>
    ⟨x, nan, .inside mem occurs⟩⟩
  cases occurs with
  | inside mem occurs => exact ⟨_, mem, x, nan, occurs⟩

theorem not_hasNaN_of_plain {v : Value} (noList : ∀ items, v ≠ .list items)
    (noFloat : ∀ x, v ≠ .float x) : ¬ HasNaN v := fun ⟨x, _, occurs⟩ => by
  cases occurs with
  | here => exact noFloat x rfl
  | inside mem occurs => exact noList _ rfl

theorem hasNaN_unsigned (v : Value) : HasNaN v.unsigned ↔ HasNaN v := by
  induction v using nested_induction with
  | float x => simp only [unsigned, hasNaN_float, Binary64.isNaN_unsigned]
  | list items ih =>
    simp only [unsigned, unsignedAll_eq_map, hasNaN_list, List.mem_map, exists_exists_and_eq_and]
    exact exists_congr fun v => and_congr_right fun mem => ih v mem
  | _ => exact Iff.rfl

/-! ## Sameness -/

theorem sameAll_iff {xs ys : List Value} :
    sameAll xs ys = true ↔ List.Forall₂ (fun x y => x.same y = true) xs ys := by
  induction xs generalizing ys with
  | nil => cases ys <;> simp [sameAll]
  | cons x xs ih => cases ys <;> simp [sameAll, ih]

theorem same_list_iff {xs ys : List Value} : same (.list xs) (.list ys) = true ↔
    xs.length = ys.length ∧ ∀ pair ∈ xs.zip ys, pair.1.same pair.2 = true := by
  rw [same, sameAll_iff, List.forall₂_iff_zip]
  exact and_congr_right fun _ => by simp

theorem sameAll_iff_of_each {xs ys : List Value}
    (each : ∀ v ∈ xs, ∀ {w : Value}, v.same w = true ↔ ¬ v.HasNaN ∧ v.unsigned = w.unsigned) :
    sameAll xs ys = true ↔ (∀ v ∈ xs, ¬ v.HasNaN) ∧ xs.map unsigned = ys.map unsigned := by
  induction xs generalizing ys with
  | nil => cases ys <;> simp [sameAll]
  | cons x xs ih =>
    obtain ⟨here, others⟩ := List.forall_mem_cons.1 each
    cases ys with
    | nil => simp [sameAll]
    | cons y ys =>
      rw [sameAll, Bool.and_eq_true, here, ih others, List.forall_mem_cons, List.map_cons,
        List.map_cons, List.cons.injEq]
      exact and_and_and_comm

/-- Values are the same if no NaN occurs in them and nothing but signs of zeros tells them
apart. -/
theorem same_iff {v w : Value} : v.same w = true ↔ ¬ v.HasNaN ∧ v.unsigned = w.unsigned := by
  induction v using nested_induction generalizing w with
  | float x => cases w <;> simp [same, unsigned, Binary64.same_iff_unsigned]
  | list xs ih =>
    cases w with
    | list ys =>
      simp only [same, unsigned, unsignedAll_eq_map, hasNaN_list, list.injEq, not_exists, not_and]
      exact sameAll_iff_of_each ih
    | _ => simp [same, unsigned]
  | _ => cases w <;> simp [same, unsigned, not_hasNaN_of_plain]

theorem same_comm (v w : Value) : v.same w = w.same v := by
  -- Neither side has a NaN if the other has none, as signs do not matter to NaNs.
  have oneWay {v w : Value} (same : v.same w = true) : w.same v = true := by
    obtain ⟨noNaN, unsigned⟩ := same_iff.1 same
    refine same_iff.2 ⟨fun nan => noNaN ?_, unsigned.symm⟩
    rwa [← hasNaN_unsigned, unsigned, hasNaN_unsigned]
  exact Bool.eq_iff_iff.2 ⟨oneWay, oneWay⟩

theorem same_trans {u v w : Value} (first : u.same v = true) (second : v.same w = true) :
    u.same w = true := by
  obtain ⟨noNaN, unsigned⟩ := same_iff.1 first
  exact same_iff.2 ⟨noNaN, unsigned.trans (same_iff.1 second).2⟩

theorem same_self_iff {v : Value} : v.same v = true ↔ ¬ v.HasNaN := by
  rw [same_iff, and_iff_left rfl]

theorem ctorIdx_unsigned (v : Value) : v.unsigned.ctorIdx = v.ctorIdx := by
  cases v <;> rfl

theorem ctorIdx_eq_of_same {v w : Value} (same : v.same w = true) : v.ctorIdx = w.ctorIdx := by
  rw [← ctorIdx_unsigned v, (same_iff.1 same).2, ctorIdx_unsigned]

/-- Sameness is symmetric and transitive, and a value is the same as itself exactly if no NaN
occurs in it.  Values that are the same are built by one constructor, lists have the same
length and the same values at each place, and nothing but signs of zeros tells the two apart;
where no NaN occurs, signs of zeros never do.  Floats are compared as numbers, and objects by
their identity. -/
theorem partial_equivalence :
    (∀ v w : Value, v.same w = w.same v) ∧
    (∀ u v w : Value, u.same v = true → v.same w = true → u.same w = true) ∧
    (∀ v : Value, v.same v = true ↔ ¬ v.HasNaN) ∧
    (∀ v w : Value, v.same w = true → v.ctorIdx = w.ctorIdx) ∧
    (∀ xs ys : List Value, same (.list xs) (.list ys) = true ↔
      xs.length = ys.length ∧ ∀ pair ∈ xs.zip ys, pair.1.same pair.2 = true) ∧
    (∀ v w : Value, v.same w = true ↔ ¬ v.HasNaN ∧ v.unsigned = w.unsigned) ∧
    (∀ x y : Binary64, same (.float x) (.float y) = true ↔
      ¬ x.NotANumber ∧ ¬ y.NotANumber ∧ (x = y ∨ x.Zero ∧ y.Zero)) ∧
    ∀ a b : ObjectId, same (.object a) (.object b) = true ↔ a = b :=
  ⟨same_comm, fun _ _ _ => same_trans, fun _ => same_self_iff, fun _ _ => ctorIdx_eq_of_same,
    fun _ _ => same_list_iff, fun _ _ => same_iff, fun _ _ => Binary64.same_iff,
    fun _ _ => beq_iff_eq⟩

def nested (x : Binary64) : Value := .list [.list [.float x, .string "x"], .object 3]

theorem partial_equivalence_nested :
    nested 0 ≠ nested Binary64.negativeZero ∧
    (nested 0).same (nested Binary64.negativeZero) = true ∧
    (nested Binary64.negativeZero).same (nested 0) = true ∧
    (nested 0).same (nested 0) = true ∧
    (nested Binary64.quietNaN).same (nested Binary64.quietNaN) = false := by
  obtain ⟨comm, trans, self, _, _, iff, _⟩ := partial_equivalence
  have number : Binary64.isNaN 0 = false := rfl
  have numbers : ¬ (nested 0).HasNaN := by simp [nested, not_hasNaN_of_plain, number]
  have there : (nested 0).same (nested Binary64.negativeZero) = true :=
    (iff _ _).2 ⟨numbers, rfl⟩
  have back := (comm _ _).trans there
  have nan : (nested Binary64.quietNaN).HasNaN :=
    ⟨_, Binary64.isNaN_iff.1 rfl, .inside List.mem_cons_self (.inside List.mem_cons_self .here)⟩
  refine ⟨by simp [nested, Binary64.negativeZero], there, back, trans _ _ _ there back, ?_⟩
  exact Bool.eq_false_iff.2 fun same => (self _).1 same nan

end Value
end Strands
