/-
# Texts as lists of characters

Splitting at a separator and joining, trimming, and reading numbers, as the
standard library of the source does them.

`splitOn` and `intercalate` are inverse to each other on pieces without the
separator, so that what holds of a text can be said of its pieces: how many
there are (`length_splitOn`), and when two separators stand side by side
(`pair_infix_iff`).

`fromStrRadix` accepts a sign, any number of leading zeros and digits of
either case. `fromStrRadix_eq` says so in one equation: a text is read when it
is a numeral whose magnitude is in range.
-/
import Mathlib.Data.List.DropRight
import Mathlib.Algebra.Ring.Nat
import Mathlib.Tactic.Common
import Mathlib.Tactic.IntervalCases

namespace Text

/-- A string, by its characters. -/
abbrev Str := List Char

/-! ### Pieces -/

section Split

variable {α : Type*}

theorem intercalate_append {x : α} {ls ls' : List (List α)} (h : ls ≠ []) (h' : ls' ≠ []) :
    [x].intercalate (ls ++ ls') = [x].intercalate ls ++ x :: [x].intercalate ls' := by
  induction ls with
  | nil => exact absurd rfl h
  | cons l ls ih =>
    by_cases hls : ls = []
    · subst hls
      rw [List.singleton_append, List.intercalate_cons_of_ne_nil h', List.intercalate_singleton]
      simp
    · rw [List.cons_append, List.intercalate_cons_of_ne_nil (by simp [hls]), List.intercalate_cons_of_ne_nil hls,
        ih hls]
      simp

theorem mem_intercalate {x y : α} {ls : List (List α)} (h : y ∈ [x].intercalate ls) : y = x ∨ ∃ l ∈ ls, y ∈ l := by
  induction ls with
  | nil => cases h
  | cons l ls ih =>
    by_cases hls : ls = []
    · subst hls
      rw [List.intercalate_singleton] at h
      exact Or.inr ⟨l, List.mem_cons_self, h⟩
    · rw [List.intercalate_cons_of_ne_nil hls, List.mem_append, List.mem_append, List.mem_singleton] at h
      rcases h with (h | h) | h
      · exact Or.inr ⟨l, List.mem_cons_self, h⟩
      · exact Or.inl h
      · exact (ih h).imp_right fun ⟨l', hl', hy⟩ => ⟨l', List.mem_cons_of_mem _ hl', hy⟩

theorem mem_intercalate_of_mem {x y : α} {l : List α} {ls : List (List α)} (hl : l ∈ ls) (hy : y ∈ l) :
    y ∈ [x].intercalate ls := by
  obtain ⟨before, after, rfl⟩ := List.append_of_mem hl
  have hlast : y ∈ [x].intercalate (l :: after) := by
    by_cases hafter : after = []
    · rwa [hafter, List.intercalate_singleton]
    · rw [List.intercalate_cons_of_ne_nil hafter]
      exact List.mem_append_left _ (List.mem_append_left _ hy)
  by_cases hbefore : before = []
  · rwa [hbefore]
  · rw [intercalate_append hbefore (List.cons_ne_nil _ _)]
    exact List.mem_append_right _ (List.mem_cons_of_mem _ hlast)

variable [DecidableEq α]

theorem not_mem_of_mem_splitOn {x : α} {xs l : List α} (h : l ∈ xs.splitOn x) : x ∉ l := by
  induction xs generalizing l with
  | nil =>
    rw [List.splitOn_nil, List.mem_singleton] at h
    rw [h]
    exact List.not_mem_nil
  | cons y xs ih =>
    obtain ⟨head, tail, hsplit⟩ := List.exists_cons_of_ne_nil (List.splitOn_ne_nil x xs)
    rw [List.splitOn_cons_eq_if_modifyHead, hsplit] at h
    rw [hsplit] at ih
    by_cases hy : y = x
    · rw [if_pos (beq_iff_eq.mpr hy), List.mem_cons] at h
      rcases h with rfl | h
      · exact List.not_mem_nil
      · exact ih h
    · rw [if_neg fun h => hy (beq_iff_eq.mp h), List.modifyHead_cons, List.mem_cons] at h
      rcases h with rfl | h
      · rw [List.mem_cons, not_or]
        exact ⟨Ne.symm hy, ih List.mem_cons_self⟩
      · exact ih (List.mem_cons_of_mem _ h)

/-- There is one more piece than separators. -/
theorem length_splitOn (x : α) (xs : List α) : (xs.splitOn x).length = xs.count x + 1 := by
  induction xs with
  | nil => rfl
  | cons y xs ih =>
    rw [List.splitOn_cons_eq_if_modifyHead, List.count_cons]
    by_cases hy : y = x
    · rw [if_pos (beq_iff_eq.mpr hy), if_pos (beq_iff_eq.mpr hy), List.length_cons, ih]
    · rw [if_neg fun h => hy (beq_iff_eq.mp h), if_neg fun h => hy (beq_iff_eq.mp h), List.length_modifyHead, ih]

/-- Two separators stand side by side when a piece between others is empty. -/
theorem pair_infix_iff {x : α} {xs : List α} :
    [x, x] <:+: xs ↔ ∃ before after, before ≠ [] ∧ after ≠ [] ∧ xs.splitOn x = before ++ [] :: after := by
  constructor
  · rintro ⟨a, c, rfl⟩
    refine ⟨a.splitOn x, c.splitOn x, List.splitOn_ne_nil x a, List.splitOn_ne_nil x c, ?_⟩
    have hpair : a ++ [x, x] ++ c = a ++ x :: ([] ++ x :: c) := by simp
    rw [hpair, List.splitOn_append_cons_self, List.splitOn_append_cons_self, List.splitOn_nil]
    rfl
  · rintro ⟨before, after, hbefore, hafter, hsplit⟩
    refine ⟨[x].intercalate before, [x].intercalate after, ?_⟩
    have hjoin : [x].intercalate (xs.splitOn x) = xs := List.intercalate_splitOn x
    have hempty : [x].intercalate ([] :: after) = x :: [x].intercalate after := by
      rw [List.intercalate_cons_of_ne_nil hafter]
      rfl
    rw [hsplit, intercalate_append hbefore (List.cons_ne_nil _ _), hempty] at hjoin
    rw [← hjoin]
    simp

end Split

/-- `str::contains` of a pattern. -/
def contains (pattern : Str) : Str → Bool
  | [] => pattern.isPrefixOf []
  | c :: cs => pattern.isPrefixOf (c :: cs) || contains pattern cs

theorem contains_iff {pattern s : Str} : contains pattern s = true ↔ pattern <:+: s := by
  induction s with
  | nil => rw [contains, List.isPrefixOf_iff_prefix, List.prefix_nil, List.infix_nil]
  | cons c cs ih => rw [contains, Bool.or_eq_true, ih, List.isPrefixOf_iff_prefix, List.infix_cons_iff]

/-! ### Blanks -/

/-- The code points of the property `White_Space`. -/
def isWhitespace (c : Char) : Bool :=
  (0x9 ≤ c.toNat && c.toNat ≤ 0xd) || c.toNat == 0x20 || c.toNat == 0x85 || c.toNat == 0xa0 || c.toNat == 0x1680 ||
    (0x2000 ≤ c.toNat && c.toNat ≤ 0x200a) || c.toNat == 0x2028 || c.toNat == 0x2029 || c.toNat == 0x202f ||
    c.toNat == 0x205f || c.toNat == 0x3000

/-- No character is white space. -/
def NotBlank (s : Str) : Prop := ∀ c ∈ s, isWhitespace c = false

instance (s : Str) : Decidable (NotBlank s) := List.decidableBAll _ _

/-- `str::trim`. -/
def trim (s : Str) : Str := (s.dropWhile isWhitespace).rdropWhile isWhitespace

theorem trim_eq_self {s : Str} (h : NotBlank s) : trim s = s := by
  have hl : s.dropWhile isWhitespace = s := by
    cases s with
    | nil => rfl
    | cons c s => exact List.dropWhile_cons_of_neg (by simp [h c List.mem_cons_self])
  rw [trim, hl, List.rdropWhile_eq_self_iff]
  intro hs
  rw [h _ (List.getLast_mem hs)]
  exact Bool.false_ne_true

theorem mem_trim {s : Str} {c : Char} (hc : c ∈ trim s) : c ∈ s :=
  (List.dropWhile_sublist _).subset ((List.rdropWhile_prefix _ _).subset hc)

/-- What is trimmed is blank. -/
theorem mem_of_trim {s : Str} {c : Char} (hc : c ∈ s) : isWhitespace c = true ∨ c ∈ trim s := by
  rw [← List.takeWhile_append_dropWhile (p := isWhitespace) (l := s), List.mem_append] at hc
  rcases hc with hc | hc
  · exact Or.inl (List.mem_takeWhile_imp hc)
  · rw [← List.reverse_reverse (s.dropWhile isWhitespace), List.mem_reverse,
      ← List.takeWhile_append_dropWhile (p := isWhitespace) (l := (s.dropWhile isWhitespace).reverse),
      List.mem_append] at hc
    rcases hc with hc | hc
    · exact Or.inl (List.mem_takeWhile_imp hc)
    · exact Or.inr (List.mem_reverse.mpr hc)

/-! ### Numbers -/

/-- The digits up to `f`; 16 for what is no digit. -/
def digitValue (c : Char) : ℕ :=
  if '0' ≤ c ∧ c ≤ '9' then c.toNat - 48
  else if 'a' ≤ c ∧ c ≤ 'f' then c.toNat - 87
  else if 'A' ≤ c ∧ c ≤ 'F' then c.toNat - 55
  else 16

/-- `char::to_digit`, for a radix up to 16. -/
def toDigit (radix : ℕ) (c : Char) : Option ℕ := if digitValue c < radix then some (digitValue c) else none

/-- The digits after `acc`, if the number stays in range. -/
def fromDigits (max radix : ℕ) : ℕ → Str → Option ℕ
  | acc, [] => some acc
  | acc, c :: cs => (toDigit radix c).bind fun digit =>
    if acc * radix + digit ≤ max then fromDigits max radix (acc * radix + digit) cs else none

/-- `from_str_radix` of an unsigned type: a number up to `max`. -/
def fromStrRadix (max radix : ℕ) : Str → Option ℕ
  | [] => none
  | ['+'] => none
  | '+' :: cs => fromDigits max radix 0 cs
  | cs => fromDigits max radix 0 cs

/-- The text without its sign. -/
def unsigned : Str → Str
  | '+' :: cs => cs
  | cs => cs

/-- The number that digits denote. -/
def value (radix : ℕ) (cs : Str) : ℕ := cs.foldl (fun acc c => acc * radix + (toDigit radix c).getD 0) 0

/-- The number that the digits denote. -/
def magnitude (radix : ℕ) (s : Str) : ℕ := value radix (unsigned s)

/-- All characters are digits of the radix. -/
def Digits (radix : ℕ) (s : Str) : Prop := ∀ c ∈ s, (toDigit radix c).isSome = true

instance (radix : ℕ) (s : Str) : Decidable (Digits radix s) := List.decidableBAll _ _

/-- Digits, with or without a sign. -/
def Numeral (radix : ℕ) (s : Str) : Prop := unsigned s ≠ [] ∧ Digits radix (unsigned s)

instance (radix : ℕ) (s : Str) : Decidable (Numeral radix s) := inferInstanceAs (Decidable (_ ∧ _))

/-- A numeral of a number in range. -/
def Readable (max radix : ℕ) (s : Str) : Prop := Numeral radix s ∧ magnitude radix s ≤ max

instance (max radix : ℕ) (s : Str) : Decidable (Readable max radix s) := inferInstanceAs (Decidable (_ ∧ _))

section Radix

variable {radix : ℕ}

@[simp]
theorem digits_nil : Digits radix [] := fun _ hc => by cases hc

@[simp]
theorem digits_cons {c : Char} {cs : Str} :
    Digits radix (c :: cs) ↔ (toDigit radix c).isSome = true ∧ Digits radix cs := List.forall_mem_cons

theorem lt_of_toDigit {c : Char} {digit : ℕ} (h : toDigit radix c = some digit) : digit < radix := by
  unfold toDigit at h
  by_cases hlt : digitValue c < radix
  · rw [if_pos hlt] at h
    rwa [← Option.some.inj h]
  · rw [if_neg hlt] at h
    cases h

/-- The digits of every radix are among these. -/
theorem toNat_of_toDigit {c : Char} (hradix : radix ≤ 16) (h : (toDigit radix c).isSome = true) :
    (48 ≤ c.toNat ∧ c.toNat ≤ 57) ∨ (97 ≤ c.toNat ∧ c.toNat ≤ 102) ∨ (65 ≤ c.toNat ∧ c.toNat ≤ 70) := by
  by_contra hno
  have hdecimal : ¬ ('0' ≤ c ∧ c ≤ '9') := fun hc => hno (Or.inl hc)
  have hlower : ¬ ('a' ≤ c ∧ c ≤ 'f') := fun hc => hno (Or.inr (Or.inl hc))
  have hupper : ¬ ('A' ≤ c ∧ c ≤ 'F') := fun hc => hno (Or.inr (Or.inr hc))
  have hvalue : ¬ digitValue c < radix := by
    rw [digitValue, if_neg hdecimal, if_neg hlower, if_neg hupper]
    omega
  rw [toDigit, if_neg hvalue] at h
  cases h

theorem Digits.ascii {s : Str} (hradix : radix ≤ 16) (h : Digits radix s) : ∀ c ∈ s, c.toNat < 128 := by
  intro c hc
  have hrange := toNat_of_toDigit hradix (h c hc)
  omega

theorem Digits.not_blank {s : Str} (hradix : radix ≤ 16) (h : Digits radix s) : NotBlank s := by
  intro c hc
  have hrange := toNat_of_toDigit hradix (h c hc)
  unfold isWhitespace
  simp only [Bool.or_eq_false_iff, Bool.and_eq_false_iff, decide_eq_false_iff_not, beq_eq_false_iff_ne]
  omega

/-- The decimal digits are no letters. -/
theorem isDigit_of_toDigit {c : Char} (h : (toDigit 10 c).isSome = true) : c.isDigit = true := by
  by_contra hno
  have hdecimal : ¬ ('0' ≤ c ∧ c ≤ '9') := fun hc => hno (Bool.and_eq_true_iff.mpr (hc.imp decide_eq_true decide_eq_true))
  have hvalue : ¬ digitValue c < 10 := by
    rw [digitValue, if_neg hdecimal]
    split
    · rename_i hlower
      have hle : 97 ≤ c.toNat := hlower.1
      omega
    · split
      · rename_i hupper
        have hle : 65 ≤ c.toNat := hupper.1
        omega
      · omega
  rw [toDigit, if_neg hvalue] at h
  cases h

theorem le_foldl (hradix : 0 < radix) (cs : Str) (acc : ℕ) :
    acc ≤ cs.foldl (fun acc c => acc * radix + (toDigit radix c).getD 0) acc := by
  induction cs generalizing acc with
  | nil => exact Nat.le_refl acc
  | cons c cs ih =>
    calc acc ≤ acc * radix := Nat.le_mul_of_pos_right acc hradix
      _ ≤ acc * radix + (toDigit radix c).getD 0 := Nat.le_add_right _ _
      _ ≤ _ := ih _

theorem foldl_lt {cs : Str} (h : Digits radix cs) (acc : ℕ) :
    cs.foldl (fun acc c => acc * radix + (toDigit radix c).getD 0) acc < (acc + 1) * radix ^ cs.length := by
  induction cs generalizing acc with
  | nil => simp
  | cons c cs ih =>
    obtain ⟨digit, hdigit⟩ := Option.isSome_iff_exists.mp (h c List.mem_cons_self)
    have hlt : digit + 1 ≤ radix := lt_of_toDigit hdigit
    have hnext : acc * radix + digit + 1 ≤ (acc + 1) * radix := by
      rw [Nat.add_mul, Nat.one_mul]
      omega
    rw [List.foldl_cons, hdigit, List.length_cons, Nat.pow_succ', ← Nat.mul_assoc]
    exact Nat.lt_of_lt_of_le (ih (fun c hc => h c (List.mem_cons_of_mem _ hc)) _) (Nat.mul_le_mul_right _ hnext)

/-- A number of `n` digits is less than `radix ^ n`. -/
theorem value_lt {cs : Str} (h : Digits radix cs) : value radix cs < radix ^ cs.length := by
  have hlt := foldl_lt h 0
  rwa [Nat.zero_add, Nat.one_mul] at hlt

theorem value_replicate_append (n : ℕ) (cs : Str) : value radix (List.replicate n '0' ++ cs) = value radix cs := by
  induction n with
  | zero => rfl
  | succ n ih =>
    have hdigit : digitValue '0' = 0 := rfl
    have hzero : 0 * radix + (toDigit radix '0').getD 0 = 0 := by
      rw [toDigit, hdigit, Nat.zero_mul, Nat.zero_add]
      split <;> rfl
    rw [← ih, List.replicate_succ, List.cons_append, value, List.foldl_cons, hzero]
    rfl

theorem fromDigits_eq (hradix : 0 < radix) (max : ℕ) (cs : Str) (acc : ℕ) (hacc : acc ≤ max) :
    fromDigits max radix acc cs =
      if Digits radix cs ∧ cs.foldl (fun acc c => acc * radix + (toDigit radix c).getD 0) acc ≤ max
      then some (cs.foldl (fun acc c => acc * radix + (toDigit radix c).getD 0) acc) else none := by
  induction cs generalizing acc with
  | nil => simp [fromDigits, hacc]
  | cons c cs ih =>
    rw [fromDigits, List.foldl_cons]
    cases hdigit : toDigit radix c with
    | none =>
      rw [if_neg fun h => by simpa [hdigit] using h.1 c List.mem_cons_self]
      rfl
    | some digit =>
      rw [Option.bind_some, Option.getD_some]
      by_cases hmax : acc * radix + digit ≤ max
      · rw [if_pos hmax, ih _ hmax]
        simp [hdigit]
      · rw [if_neg hmax, if_neg fun h => hmax (Nat.le_trans (le_foldl hradix cs _) h.2)]

theorem unsigned_eq {c : Char} (hc : c ≠ '+') (cs : Str) : unsigned (c :: cs) = c :: cs := by
  unfold unsigned
  split
  · rename_i heq
    exact absurd (List.cons.inj heq).1 hc
  · rfl

theorem unsigned_of_digits {s : Str} (hradix : radix ≤ 16) (h : Digits radix s) :
    unsigned s = s := by
  cases s with
  | nil => rfl
  | cons c cs =>
    refine unsigned_eq (fun hc => ?_) cs
    have hrange := toNat_of_toDigit hradix (h c List.mem_cons_self)
    have hplus : '+'.toNat = 43 := rfl
    rw [hc, hplus] at hrange
    omega

/-- A numeral consists of digits, and of a sign. -/
theorem mem_of_numeral {s : Str} (hs : Numeral radix s) {c : Char} (hc : c ∈ s) :
    c = '+' ∨ (toDigit radix c).isSome = true := by
  cases s with
  | nil => cases hc
  | cons c' cs =>
    by_cases hplus : c' = '+'
    · subst hplus
      exact (List.mem_cons.mp hc).imp_right (hs.2 c)
    · have hdigits := hs.2
      rw [unsigned_eq hplus] at hdigits
      exact Or.inr (hdigits c hc)

theorem fromStrRadix_unsigned (max : ℕ) {s : Str} (hs : unsigned s ≠ []) :
    fromStrRadix max radix s = fromDigits max radix 0 (unsigned s) := by
  cases s with
  | nil => exact absurd rfl hs
  | cons c cs =>
    by_cases hc : c = '+'
    · subst hc
      cases cs with
      | nil => exact absurd rfl hs
      | cons c' cs => rfl
    · rw [unsigned_eq hc]
      unfold fromStrRadix
      split
      · rename_i heq
        cases heq
      · rename_i heq
        exact absurd (List.cons.inj heq).1 hc
      · rename_i heq
        exact absurd (List.cons.inj heq).1 hc
      · rfl

theorem fromStrRadix_of_unsigned_nil (max : ℕ) {s : Str} (hs : unsigned s = []) :
    fromStrRadix max radix s = none := by
  cases s with
  | nil => rfl
  | cons c cs =>
    by_cases hc : c = '+'
    · subst hc
      have hcs : cs = [] := hs
      subst hcs
      rfl
    · rw [unsigned_eq hc] at hs
      cases hs

/-- What is readable is read as its magnitude. -/
theorem fromStrRadix_eq (hradix : 0 < radix) (max : ℕ) (s : Str) :
    fromStrRadix max radix s = if Readable max radix s then some (magnitude radix s) else none := by
  by_cases hs : unsigned s = []
  · rw [fromStrRadix_of_unsigned_nil max hs, if_neg fun h => h.1.1 hs]
  · rw [fromStrRadix_unsigned max hs, fromDigits_eq hradix max (unsigned s) 0 (Nat.zero_le max)]
    have hnumeral : Numeral radix s ↔ Digits radix (unsigned s) := ⟨fun h => h.2, fun h => ⟨hs, h⟩⟩
    exact if_congr (and_congr_left fun _ => hnumeral.symm) rfl rfl

end Radix

/-! ### Decimal numbers -/

theorem toDigit_digitChar {n : ℕ} (h : n < 10) : toDigit 10 (Nat.digitChar n) = some n := by
  interval_cases n <;> rfl

theorem digits_toDigits (n : ℕ) : Digits 10 (Nat.toDigits 10 n) := by
  induction n using Nat.strong_induction_on with
  | _ n ih =>
    have hlast {m : ℕ} (hm : m < 10) : Digits 10 [Nat.digitChar m] := by
      rw [digits_cons, toDigit_digitChar hm]
      exact ⟨rfl, digits_nil⟩
    rw [Nat.toDigits_eq_if (by decide)]
    by_cases hlt : n < 10
    · rw [if_pos hlt]
      exact hlast hlt
    · rw [if_neg hlt]
      exact List.forall_mem_append.mpr ⟨ih (n / 10) (by omega), hlast (Nat.mod_lt _ (by decide))⟩

/-- A number is written so that it is read again. -/
theorem value_toDigits (n : ℕ) : value 10 (Nat.toDigits 10 n) = n := by
  induction n using Nat.strong_induction_on with
  | _ n ih =>
    rw [Nat.toDigits_eq_if (by decide)]
    by_cases hlt : n < 10
    · rw [if_pos hlt, value, List.foldl_cons, List.foldl_nil, toDigit_digitChar hlt, Option.getD_some]
      omega
    · have hprefix : value 10 (Nat.toDigits 10 (n / 10)) = n / 10 := ih (n / 10) (by omega)
      rw [value] at hprefix
      rw [if_neg hlt, value, List.foldl_append, hprefix, List.foldl_cons, List.foldl_nil,
        toDigit_digitChar (Nat.mod_lt _ (by decide)), Option.getD_some]
      omega

theorem magnitude_toDigits (n : ℕ) : magnitude 10 (Nat.toDigits 10 n) = n := by
  rw [magnitude, unsigned_of_digits (by decide) (digits_toDigits n), value_toDigits]

theorem readable_toDigits {max n : ℕ} (h : n ≤ max) : Readable max 10 (Nat.toDigits 10 n) := by
  refine ⟨?_, by rwa [magnitude_toDigits]⟩
  rw [Numeral, unsigned_of_digits (by decide) (digits_toDigits n)]
  exact ⟨Nat.toDigits_ne_nil, digits_toDigits n⟩

end Text
