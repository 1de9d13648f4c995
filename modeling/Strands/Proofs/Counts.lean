/-
How counts are written.

A text `Writes` a number if it is made of white space, at most one plus sign, one or more decimal
digits that stand for the number, and white space again.  This says nothing about how a text is
read.  Reading finds the number that a text writes, if it writes one
(`Text.numeral?_strip_eq_some_iff`), and so the settings of a scheduler have the pool size that
was written, or else nothing but the text is reported: `Settings.fromLookup_reads`.
-/
import Mathlib.Data.List.DropRight
import Mathlib.Data.Nat.Digits.Defs
import Strands.Settings

namespace Strands

namespace Text

def digitChar (d : Fin 10) : Char := Char.ofNat ('0'.toNat + d)

def valueOf (digits : List (Fin 10)) : Nat := Nat.ofDigits 10 (digits.reverse.map Fin.val)

def Blank (cs : List Char) : Prop := ∀ c ∈ cs, isBlank c = true

instance (cs : List Char) : Decidable (Blank cs) :=
  decidable_of_iff (cs.all isBlank = true) List.all_eq_true

/-- Digits with a plus sign before them or none. -/
def signed (plus : Bool) (digits : List (Fin 10)) : List Char :=
  (if plus then ['+'] else []) ++ digits.map digitChar

/-- A text writes a number. -/
inductive Writes (text : List Char) (n : Nat) : Prop
  | intro (before after : List Char) (plus : Bool) (digits : List (Fin 10)) :
      text = before ++ signed plus digits ++ after → Blank before → Blank after → digits ≠ [] →
      n = valueOf digits → Writes text n

/-! ## Digits -/

theorem digit?_digitChar (d : Fin 10) : digit? (digitChar d) = some d.val := by
  revert d
  decide

theorem exists_of_digit? {c : Char} {n : Nat} (h : digit? c = some n) :
    ∃ d : Fin 10, c = digitChar d ∧ n = d := by
  unfold digit? at h
  split at h
  · rename_i range
    cases h
    have low : '0'.toNat ≤ c.toNat := range.1
    have high : c.toNat ≤ '9'.toNat := range.2
    have bound : c.toNat - '0'.toNat < 10 := by
      have nine : '9'.toNat = '0'.toNat + 9 := rfl
      omega
    refine ⟨⟨c.toNat - '0'.toNat, bound⟩, ?_, rfl⟩
    rw [digitChar, Nat.add_sub_cancel' low, Char.ofNat_toNat]
  · cases h

theorem valueOf_cons (d : Fin 10) (digits : List (Fin 10)) :
    valueOf (d :: digits) = d * 10 ^ digits.length + valueOf digits := by
  rw [valueOf, List.reverse_cons, List.map_append, Nat.ofDigits_append, List.length_map,
    List.length_reverse, valueOf, Nat.add_comm, Nat.mul_comm]
  rfl

theorem digitsFrom_eq_some_iff {acc n : Nat} {cs : List Char} :
    digitsFrom acc cs = some n ↔ ∃ digits : List (Fin 10),
      cs = digits.map digitChar ∧ n = acc * 10 ^ digits.length + valueOf digits := by
  induction cs generalizing acc with
  | nil =>
    constructor
    · intro h
      cases h
      exact ⟨[], rfl, by simp [valueOf]⟩
    · rintro ⟨digits, eq, rfl⟩
      obtain rfl := List.map_eq_nil_iff.1 eq.symm
      simp [digitsFrom, valueOf]
  | cons c cs ih =>
    constructor
    · intro h
      cases first : digit? c with
      | none => simp [digitsFrom, first] at h
      | some v =>
        obtain ⟨d, rfl, rfl⟩ := exists_of_digit? first
        simp only [digitsFrom, first] at h
        obtain ⟨digits, rfl, rfl⟩ := ih.1 h
        refine ⟨d :: digits, rfl, ?_⟩
        rw [valueOf_cons, List.length_cons, Nat.pow_succ]
        ring
    · rintro ⟨digits, eq, rfl⟩
      obtain ⟨d, digits, rfl, rfl, rfl⟩ := List.map_eq_cons_iff.1 eq.symm
      simp only [digitsFrom, digit?_digitChar]
      refine ih.2 ⟨digits, rfl, ?_⟩
      rw [valueOf_cons, List.length_cons, Nat.pow_succ]
      ring

theorem digits?_eq_some_iff {cs : List Char} {n : Nat} :
    digits? cs = some n ↔ ∃ digits : List (Fin 10),
      digits ≠ [] ∧ cs = digits.map digitChar ∧ n = valueOf digits := by
  cases cs with
  | nil =>
    constructor
    · intro h
      cases h
    · rintro ⟨digits, nonempty, eq, _⟩
      exact absurd (List.map_eq_nil_iff.1 eq.symm) nonempty
  | cons c cs =>
    have reads : digitsFrom 0 (c :: cs) = some n ↔ _ := digitsFrom_eq_some_iff
    simp only [Nat.zero_mul, Nat.zero_add] at reads
    refine reads.trans ⟨?_, fun ⟨digits, _, eq, value⟩ => ⟨digits, eq, value⟩⟩
    rintro ⟨digits, eq, value⟩
    refine ⟨digits, ?_, eq, value⟩
    rintro rfl
    cases eq

theorem digitChar_ne_plus (d : Fin 10) : digitChar d ≠ '+' := by
  revert d
  decide

/-- A numeral is read as the number that its digits stand for. -/
theorem numeral?_eq_some_iff {cs : List Char} {n : Nat} :
    numeral? cs = some n ↔ ∃ plus digits, digits ≠ [] ∧ cs = signed plus digits ∧
      n = valueOf digits := by
  unfold numeral?
  split
  · rename_i rest
    rw [digits?_eq_some_iff]
    constructor
    · rintro ⟨digits, nonempty, rfl, value⟩
      exact ⟨true, digits, nonempty, rfl, value⟩
    · rintro ⟨plus, digits, nonempty, eq, value⟩
      cases plus with
      | true =>
        cases eq
        exact ⟨digits, nonempty, rfl, value⟩
      | false =>
        obtain ⟨d, others, _, first, _⟩ := List.map_eq_cons_iff.1 eq.symm
        exact absurd first (digitChar_ne_plus d)
  · rename_i unsigned
    rw [digits?_eq_some_iff]
    constructor
    · rintro ⟨digits, nonempty, rfl, value⟩
      exact ⟨false, digits, nonempty, rfl, value⟩
    · rintro ⟨plus, digits, nonempty, eq, value⟩
      cases plus with
      | true => exact absurd eq (unsigned _)
      | false => exact ⟨digits, nonempty, eq, value⟩

/-! ## White space -/

theorem dropWhile_blank {before cs : List Char} (blank : Blank before)
    (begins : ∀ c ∈ cs.head?, isBlank c = false) :
    (before ++ cs).dropWhile isBlank = cs := by
  rw [List.dropWhile_append_of_pos blank]
  cases cs with
  | nil => rfl
  | cons c cs => rw [List.dropWhile_cons_of_neg (by simp [begins c rfl])]

theorem strip_eq {before core after : List Char} (blank : Blank before) (blank' : Blank after)
    (nonempty : core ≠ []) (begins : ∀ c ∈ core.head?, isBlank c = false)
    (ends : ∀ c ∈ core.getLast?, isBlank c = false) :
    strip (before ++ core ++ after) = core := by
  have first : ∀ c ∈ (core ++ after).head?, isBlank c = false := by
    rwa [List.head?_append_of_ne_nil _ nonempty]
  have last : ∀ c ∈ core.reverse.head?, isBlank c = false := by
    rwa [List.head?_reverse]
  rw [strip, List.append_assoc, dropWhile_blank blank first, List.reverse_append,
    dropWhile_blank (fun c mem => blank' c (List.mem_reverse.1 mem)) last, List.reverse_reverse]

theorem exists_strip (cs : List Char) : ∃ before after, cs = before ++ strip cs ++ after ∧
    Blank before ∧ Blank after := by
  refine ⟨cs.takeWhile isBlank, (cs.dropWhile isBlank).rtakeWhile isBlank, ?_,
    fun c => List.mem_takeWhile_imp, fun c => List.mem_rtakeWhile_imp⟩
  rw [List.append_assoc]
  show cs = _ ++ ((cs.dropWhile isBlank).rdropWhile isBlank ++ _)
  rw [List.rdropWhile_append_rtakeWhile, List.takeWhile_append_dropWhile]

theorem not_blank_digitChar (d : Fin 10) : isBlank (digitChar d) = false := by
  revert d
  decide

theorem not_blank_signed {plus : Bool} {digits : List (Fin 10)} :
    ∀ c ∈ signed plus digits, isBlank c = false := by
  intro c mem
  rcases List.mem_append.1 mem with sign | digit
  · cases plus with
    | true =>
      obtain rfl := List.mem_singleton.1 sign
      decide
    | false => cases sign
  · obtain ⟨d, _, rfl⟩ := List.mem_map.1 digit
    exact not_blank_digitChar d

/-! ## Reading -/

theorem numeral?_strip_eq_some_iff {cs : List Char} {n : Nat} :
    numeral? (strip cs) = some n ↔ Writes cs n := by
  rw [numeral?_eq_some_iff]
  constructor
  · rintro ⟨plus, digits, nonempty, eq, value⟩
    obtain ⟨before, after, whole, blank, blank'⟩ := exists_strip cs
    rw [eq] at whole
    exact .intro before after plus digits whole blank blank' nonempty value
  · rintro ⟨before, after, plus, digits, rfl, blank, blank', nonempty, value⟩
    refine ⟨plus, digits, nonempty, strip_eq blank blank' ?_ ?_ ?_, value⟩
    · simp [signed, nonempty]
    · exact fun c mem => not_blank_signed c (List.mem_of_mem_head? mem)
    · exact fun c mem => not_blank_signed c (List.mem_of_mem_getLast? mem)

theorem count?_eq_some_iff {text : String} {n : Nat} :
    count? text = some n ↔ Writes text.toList n ∧ 1 ≤ n ∧ n ≤ 2 ^ 64 - 1 := by
  have bounds (m : Nat) : 0 < m ∧ m < wordLimit ↔ 1 ≤ m ∧ m ≤ 2 ^ 64 - 1 := by
    rw [wordLimit]
    omega
  rw [← numeral?_strip_eq_some_iff, count?]
  cases numeral? (strip text.toList) with
  | none => simp
  | some m =>
    simp only [bounds, Option.ite_none_right_eq_some, Option.some.injEq]
    constructor
    · rintro ⟨fits, rfl⟩
      exact ⟨rfl, fits⟩
    · rintro ⟨rfl, fits⟩
      exact ⟨fits, rfl⟩

end Text

namespace Settings

theorem readPoolSize_eq_ok_iff {text : String} {n : Nat} :
    readPoolSize text = .ok n ↔ Text.Writes text.toList n ∧ 1 ≤ n ∧ n ≤ 2 ^ 64 - 1 := by
  rw [← Text.count?_eq_some_iff, readPoolSize]
  cases Text.count? text <;> simp

theorem readPoolSize_eq_error_iff {text : String} {e : SettingsError} :
    readPoolSize text = .error e ↔ e = .invalidPoolSize text ∧
      ¬ ∃ n, Text.Writes text.toList n ∧ 1 ≤ n ∧ n ≤ 2 ^ 64 - 1 := by
  simp only [← Text.count?_eq_some_iff, readPoolSize]
  cases Text.count? text <;> simp [eq_comm]

def ofAnswer (parallelism : Option Nat) : Option String → Except SettingsError Settings
  | none => .ok (default parallelism)
  | some text => (readPoolSize text).map fun n => { default parallelism with poolSize := n }

/-- Settings are read from one answer, that to the key of the pool size.  Without a text they are
the default ones.  With a text they are the default ones but for the pool size, which is the count
that the text writes; a text that writes no count is what the error carries. -/
theorem fromLookup_reads {m : Type → Type} [Monad m] [LawfulMonad m] (parallelism : Option Nat)
    (lookup : String → m (Option String)) :
    fromLookup parallelism lookup = ofAnswer parallelism <$> lookup poolSizeKey ∧
    ofAnswer parallelism none = .ok (default parallelism) ∧
    ∀ text : String,
      (∀ settings, ofAnswer parallelism (some text) = .ok settings ↔
        ∃ n, Text.Writes text.toList n ∧ 1 ≤ n ∧ n ≤ 2 ^ 64 - 1 ∧
          settings = { default parallelism with poolSize := n }) ∧
      ∀ e, ofAnswer parallelism (some text) = .error e ↔ e = .invalidPoolSize text ∧
        ¬ ∃ n, Text.Writes text.toList n ∧ 1 ≤ n ∧ n ≤ 2 ^ 64 - 1 := by
  refine ⟨?_, rfl, fun text => ⟨fun settings => ?_, fun e => ?_⟩⟩
  · rw [fromLookup, map_eq_pure_bind]
    refine bind_congr fun answer => ?_
    cases answer <;> rfl
  · constructor
    · intro read
      cases found : readPoolSize text with
      | error e =>
        rw [ofAnswer, found] at read
        cases read
      | ok n =>
        rw [ofAnswer, found] at read
        cases read
        obtain ⟨writes, low, high⟩ := readPoolSize_eq_ok_iff.1 found
        exact ⟨n, writes, low, high, rfl⟩
    · rintro ⟨n, writes, low, high, rfl⟩
      rw [ofAnswer, readPoolSize_eq_ok_iff.2 ⟨writes, low, high⟩]
      rfl
  · rw [← readPoolSize_eq_error_iff, ofAnswer]
    cases readPoolSize text <;> simp [Except.map]

/-- An ideographic space, a plus sign, leading zeros and a tab: twelve workers. -/
theorem fromLookup_reads_padded : LawfulMonad Id ∧
    (fromLookup (some 8) fun _ => some "\u3000+0012\t" : Id (Except SettingsError Settings)) =
      .ok { poolSize := 12, workerName := "skein-worker", idleRest := 5000 } := by
  refine ⟨inferInstance, ?_⟩
  let lookup : String → Id (Option String) := fun _ => some "\u3000+0012\t"
  have writes : Text.Writes "\u3000+0012\t".toList 12 :=
    .intro ['\u3000'] ['\t'] true [0, 0, 1, 2] (by decide) (by decide) (by decide) (by decide)
      (by decide)
  obtain ⟨looks, _, reads⟩ := fromLookup_reads (some 8) lookup
  exact looks.trans (((reads _).1 _).2 ⟨12, writes, by decide, by decide, rfl⟩)

end Settings
end Strands
