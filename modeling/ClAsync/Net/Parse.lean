/-
# What the parser computes

One equation for each function of the parser, on the pieces of the text
between the separators rather than on the text.

The `::` of a compressed address is an empty piece between two others
(`pair_infix_iff`). Around it, `uncompress_v6` drops a blank piece at either
end, pads what is left and puts groups of zeroes where the empty piece was
(`uncompressV6_eq`).

Key theorems: `uncompressedV6AsBytes_eq`, `uncompressV6_eq`, `v6_bracket`.
-/
import ClAsync.Net.Address

namespace ClAsync
namespace Net

open Text

/-! ### Characters -/

/-- A character that no part has: no digit, no sign and no blank. -/
def Foreign (c : Char) : Prop := isWhitespace c = false ∧ c ≠ '+' ∧ 16 ≤ digitValue c

instance (c : Char) : Decidable (Foreign c) := inferInstanceAs (Decidable (_ ∧ _ ∧ _))

theorem Foreign.toDigit {c : Char} (h : Foreign c) {radix : ℕ} (hradix : radix ≤ 16) : toDigit radix c = none :=
  if_neg (Nat.not_lt.mpr (Nat.le_trans hradix h.2.2))

theorem not_mem_numeral {c : Char} (hc : Foreign c) {radix : ℕ} (hradix : radix ≤ 16) {s : Str}
    (hs : Numeral radix s) : c ∉ s := by
  intro hmem
  rcases mem_of_numeral hs hmem with hplus | hdigit
  · exact hc.2.1 hplus
  · rw [hc.toDigit hradix] at hdigit
    cases hdigit

theorem not_mem_of_trim {c : Char} (hc : Foreign c) {s : Str} (hs : c ∉ trim s) : c ∉ s := fun hmem =>
  (mem_of_trim hmem).elim (fun h => Bool.false_ne_true (hc.1.symm.trans h)) hs

/-! ### Numbers -/

theorem parseParts_eq {ε : Type} {radix : ℕ} (hradix : 0 < radix) (max : ℕ) (error : ε) (parts : List Str) :
    parseParts max radix error parts =
      if ∀ part ∈ parts, Readable max radix part then .ok (parts.map (magnitude radix)) else .error error := by
  induction parts with
  | nil => simp [parseParts]
  | cons part parts ih =>
    rw [parseParts, fromStrRadix_eq hradix]
    by_cases hpart : Readable max radix part
    · rw [if_pos hpart, ih]
      by_cases hparts : ∀ part ∈ parts, Readable max radix part
      · rw [if_pos hparts, if_pos (List.forall_mem_cons.mpr ⟨hpart, hparts⟩)]
        rfl
      · rw [if_neg hparts, if_neg fun h => hparts (List.forall_mem_cons.mp h).2]
        rfl
    · rw [if_neg hpart, if_neg fun h => hpart (List.forall_mem_cons.mp h).1]

/-- A text is read as `n` numbers when it is `n` numerals joined. -/
theorem parseSplit_ok_iff {ε β : Type} {sep : Char} (hsep : Foreign sep) {radix : ℕ} (hpos : 0 < radix)
    (hradix : radix ≤ 16) {n : ℕ} (hn : n ≠ 0) {max : ℕ} {format error : ε} {f : List ℕ → β} {addr : Str} {v : β} :
    (if (addr.splitOn sep).length ≠ n then .error format
      else (parseParts max radix error (addr.splitOn sep)).map f) = .ok v ↔
    ∃ parts : List Str, addr = [sep].intercalate parts ∧ parts.length = n ∧
      (∀ part ∈ parts, Readable max radix part) ∧ v = f (parts.map (magnitude radix)) := by
  rw [parseParts_eq hpos]
  constructor
  · intro h
    by_cases hlen : (addr.splitOn sep).length = n
    · rw [if_neg fun hne => hne hlen] at h
      by_cases hread : ∀ part ∈ addr.splitOn sep, Readable max radix part
      · rw [if_pos hread] at h
        exact ⟨_, (List.intercalate_splitOn sep).symm, hlen, hread, (Except.ok.inj h).symm⟩
      · rw [if_neg hread] at h
        cases h
    · rw [if_pos hlen] at h
      cases h
  · rintro ⟨parts, rfl, hlen, hread, rfl⟩
    have hne : parts ≠ [] := fun h => hn (by rw [← hlen, h]; rfl)
    rw [List.splitOn_intercalate sep (fun part hpart => not_mem_numeral hsep hradix (hread part hpart).1) hne,
      if_neg fun h => h hlen, if_pos hread]
    rfl

theorem uncompressedV6AsBytes_ok_iff {addr : Str} {bytes : Vector UInt8 16} :
    uncompressedV6AsBytes addr = .ok bytes ↔ ∃ gs : List Str, addr = [':'].intercalate gs ∧ gs.length = 8 ∧
      (∀ g ∈ gs, Readable 65535 16 g) ∧ bytes = ofGroups (gs.map (magnitude 16)) :=
  parseSplit_ok_iff (by decide) (by decide) (by decide) (by decide)

theorem v4BytesFromStr_ok_iff {addr : Str} {bytes : Vector UInt8 4} :
    v4BytesFromStr addr = .ok bytes ↔ ∃ os : List Str, addr = ['.'].intercalate os ∧ os.length = 4 ∧
      (∀ o ∈ os, Readable 255 10 o) ∧ bytes = ofOctets (os.map (magnitude 10)) :=
  parseSplit_ok_iff (by decide) (by decide) (by decide) (by decide)

/-! ### Compressed addresses -/

/-- A part that can be padded. -/
def Short (part : Str) : Prop := part ≠ [] ∧ len part ≤ 4

instance (part : Str) : Decidable (Short part) := inferInstanceAs (Decidable (_ ∧ _))

/-- After the empty part there must be no other. -/
theorem padParts_some (addr : Str) (parts : List Str) : ∀ (i d : ℕ),
    padParts addr i (some d) parts =
      if ∀ part ∈ parts, Short part then .ok (some d, parts.map padded)
      else .error (.invalidCompressedV6Value addr) := by
  induction parts with
  | nil => simp [padParts]
  | cons part parts ih =>
    intro i d
    rw [padParts]
    by_cases hlen : len part > 4
    · rw [if_pos hlen, if_neg fun h => absurd (List.forall_mem_cons.mp h).1.2 (by omega)]
    · rw [if_neg hlen]
      by_cases hempty : part = []
      · rw [if_pos hempty, if_neg (by simp), if_neg fun h => (List.forall_mem_cons.mp h).1.1 hempty]
      · rw [if_neg hempty, ih]
        by_cases hparts : ∀ part ∈ parts, Short part
        · rw [if_pos hparts, if_pos (List.forall_mem_cons.mpr ⟨⟨hempty, by omega⟩, hparts⟩)]
          rfl
        · rw [if_neg hparts, if_neg fun h => hparts (List.forall_mem_cons.mp h).2]
          rfl

/-- The parts before the empty one and after it are padded. -/
theorem padParts_none (addr : Str) (left right : List Str) : ∀ i : ℕ,
    padParts addr i none (left ++ [] :: right) =
      if ∀ part ∈ left ++ right, Short part then
        .ok (some (i + left.length), left.map padded ++ [] :: right.map padded)
      else .error (.invalidCompressedV6Value addr) := by
  induction left with
  | nil =>
    intro i
    rw [List.nil_append, List.nil_append, padParts, if_neg (by decide), if_pos rfl, if_pos rfl, padParts_some]
    by_cases hright : ∀ part ∈ right, Short part
    · rw [if_pos hright, if_pos hright]
      rfl
    · rw [if_neg hright, if_neg hright]
      rfl
  | cons part left ih =>
    intro i
    rw [List.cons_append, List.cons_append, padParts]
    by_cases hlen : len part > 4
    · rw [if_pos hlen, if_neg fun h => absurd (List.forall_mem_cons.mp h).1.2 (by omega)]
    · rw [if_neg hlen]
      by_cases hempty : part = []
      · -- the first empty part is too early
        have hagain : ¬ ∀ part ∈ left ++ [] :: right, Short part := fun h =>
          (h [] (List.mem_append_right _ List.mem_cons_self)).1 rfl
        rw [if_pos hempty, if_pos rfl, padParts_some, if_neg hagain,
          if_neg fun h => (List.forall_mem_cons.mp h).1.1 hempty]
        rfl
      · rw [if_neg hempty, ih]
        by_cases hparts : ∀ part ∈ left ++ right, Short part
        · rw [if_pos hparts, if_pos (List.forall_mem_cons.mpr ⟨⟨hempty, by omega⟩, hparts⟩)]
          simp [Except.map]
          omega
        · rw [if_neg hparts, if_neg fun h => hparts (List.forall_mem_cons.mp h).2]
          rfl

theorem insertIdx_append (left right : List Str) (part : Str) :
    (left ++ right).insertIdx left.length part = left ++ part :: right := by
  induction left with
  | nil => rfl
  | cons head left ih =>
    rw [List.cons_append, List.length_cons, List.insertIdx_succ_cons, ih]
    rfl

theorem insertZeroes_eq (left right : List Str) (n : ℕ) :
    insertZeroes left.length n (left ++ right) = left ++ (List.replicate n zeroes ++ right) := by
  induction n generalizing right with
  | zero => rfl
  | succ n ih =>
    rw [insertZeroes, insertIdx_append, ih, List.replicate_succ', List.append_assoc]
    rfl

/-- What may stand at an end, next to the parts: a blank part, or nothing if
the next part is not blank. -/
def Edge (edge : List Str) (next : Option Str) : Prop :=
  (edge = [] ∧ ∃ part ∈ next, trim part ≠ []) ∨ ∃ blank, edge = [blank] ∧ trim blank = []

theorem exists_first_edge {parts : List Str} (h : parts ≠ []) :
    ∃ edge left, parts = edge ++ left ∧ Edge edge left.head? := by
  cases parts with
  | nil => exact absurd rfl h
  | cons part parts =>
    by_cases hblank : trim part = []
    · exact ⟨[part], parts, rfl, Or.inr ⟨part, rfl, hblank⟩⟩
    · exact ⟨[], part :: parts, rfl, Or.inl ⟨rfl, part, rfl, hblank⟩⟩

theorem exists_last_edge {parts : List Str} (h : parts ≠ []) :
    ∃ right edge, parts = right ++ edge ∧ Edge edge right.getLast? := by
  have hlast : parts.dropLast ++ [parts.getLast h] = parts := List.dropLast_append_getLast h
  by_cases hblank : trim (parts.getLast h) = []
  · exact ⟨parts.dropLast, [parts.getLast h], hlast.symm, Or.inr ⟨_, rfl, hblank⟩⟩
  · exact ⟨parts, [], (List.append_nil parts).symm, Or.inl ⟨rfl, _, List.getLast?_eq_some_getLast h, hblank⟩⟩

theorem dropEmptyFirst_eq {edge left : List Str} (h : Edge edge left.head?) (rest : List Str) :
    dropEmptyFirst ((edge ++ (left ++ rest)).map trim) = (left ++ rest).map trim := by
  unfold dropEmptyFirst
  rcases h with ⟨rfl, part, hpart, hne⟩ | ⟨blank, rfl, hblank⟩
  · obtain ⟨parts, rfl⟩ := List.head?_eq_some_iff.mp hpart
    exact if_neg fun h => hne (Option.some.inj h)
  · exact if_pos (congrArg some hblank)

theorem dropEmptyLast_eq {edge right : List Str} (h : Edge edge right.getLast?) (rest : List Str) :
    dropEmptyLast ((rest ++ (right ++ edge)).map trim) = (rest ++ right).map trim := by
  unfold dropEmptyLast
  rcases h with ⟨rfl, part, hpart, hne⟩ | ⟨blank, rfl, hblank⟩
  · obtain ⟨parts, rfl⟩ := List.getLast?_eq_some_iff.mp hpart
    rw [List.append_nil, ← List.append_assoc, List.map_append, List.map_singleton, List.getLast?_concat,
      if_neg fun h => hne (Option.some.inj h)]
  · rw [← List.append_assoc, List.map_append, List.map_singleton, List.getLast?_concat,
      if_pos (congrArg some hblank),
      List.dropLast_concat]

/-- What is left of the pieces is the parts around the empty one. -/
theorem dropEmpty_eq {first left right last : List Str} (hfirst : Edge first left.head?)
    (hlast : Edge last right.getLast?) :
    dropEmptyLast (dropEmptyFirst ((first ++ (left ++ [] :: (right ++ last))).map trim)) =
      left.map trim ++ [] :: right.map trim := by
  have hassoc : left ++ [] :: (right ++ last) = (left ++ [[]]) ++ (right ++ last) := by simp
  rw [dropEmptyFirst_eq hfirst, hassoc, dropEmptyLast_eq hlast, List.append_assoc, List.map_append]
  rfl

/-- The eight groups around a `::`, as `uncompress_v6` writes them. -/
def expanded (left right : List Str) : List Str :=
  left.map (fun part => padded (trim part)) ++
    (List.replicate (8 - (left.length + right.length)) zeroes ++ right.map fun part => padded (trim part))

theorem length_expanded {left right : List Str} (h : left.length + right.length ≤ 8) :
    (expanded left right).length = 8 := by
  simp only [expanded, List.length_append, List.length_map, List.length_replicate]
  omega

theorem Edge.pos_first {edge left : List Str} (h : Edge edge left.head?) : 0 < edge.length + left.length := by
  rcases h with ⟨-, part, hpart, -⟩ | ⟨blank, rfl, -⟩
  · obtain ⟨parts, rfl⟩ := List.head?_eq_some_iff.mp hpart
    rw [List.length_cons]
    omega
  · rw [List.length_singleton]
    omega

theorem Edge.pos_last {edge right : List Str} (h : Edge edge right.getLast?) : 0 < right.length + edge.length := by
  rcases h with ⟨-, part, hpart, -⟩ | ⟨blank, rfl, -⟩
  · obtain ⟨parts, rfl⟩ := List.getLast?_eq_some_iff.mp hpart
    rw [List.length_append, List.length_singleton]
    omega
  · rw [List.length_singleton]
    omega

theorem uncompressV6_eq {addr : Str} {first left right last : List Str}
    (hsplit : addr.splitOn ':' = first ++ (left ++ [] :: (right ++ last))) (hfirst : Edge first left.head?)
    (hlast : Edge last right.getLast?) (hlen : (addr.splitOn ':').length ≤ 8) :
    uncompressV6 addr =
      if ∀ part ∈ left ++ right, Short (trim part) then .ok ([':'].intercalate (expanded left right))
      else .error (.invalidCompressedV6Value addr) := by
  have hpos := hfirst.pos_first
  have hpos' := hlast.pos_last
  have hshort : (∀ part ∈ left.map trim ++ right.map trim, Short part) ↔
      ∀ part ∈ left ++ right, Short (trim part) := by
    rw [← List.map_append]
    exact List.forall_mem_map
  rw [hsplit] at hlen
  simp only [List.length_append, List.length_cons] at hlen
  unfold uncompressV6
  simp only [hsplit, List.length_map, dropEmpty_eq hfirst hlast, padParts_none, hshort]
  rw [if_neg (by simp only [List.length_append, List.length_cons]; omega)]
  by_cases hparts : ∀ part ∈ left ++ right, Short (trim part)
  · rw [if_pos hparts, if_pos hparts]
    have hset : ((left.map trim).map padded ++ [] :: (right.map trim).map padded).set (0 + left.length) zeroes =
        (left.map trim).map padded ++ zeroes :: (right.map trim).map padded := by
      rw [Nat.zero_add, List.set_append_right _ _ (by simp)]
      simp
    have hfill : insertZeroes (0 + left.length)
        (8 - ((left.map trim).map padded ++ zeroes :: (right.map trim).map padded).length)
        ((left.map trim).map padded ++ zeroes :: (right.map trim).map padded) = expanded left right := by
      have hinsert := insertZeroes_eq ((left.map trim).map padded) (zeroes :: (right.map trim).map padded)
        (8 - (left.length + (right.length + 1)))
      have hcount : 8 - (left.length + right.length) = 8 - (left.length + (right.length + 1)) + 1 := by omega
      simp only [List.length_map, List.length_append, List.length_cons, Nat.zero_add] at hinsert ⊢
      rw [hinsert, expanded, hcount, List.replicate_succ', List.append_assoc, List.map_map, List.map_map]
      rfl
    simp only [hset, hfill]
  · rw [if_neg hparts, if_neg hparts]

/-- Digits of one group. -/
def Group (g : Str) : Prop := g ≠ [] ∧ g.length ≤ 4 ∧ Digits 16 g

instance (g : Str) : Decidable (Group g) := inferInstanceAs (Decidable (_ ∧ _ ∧ _))

/-- What may stand between the colons of a compressed address: a group, or a
sign and three digits, and blanks around it. -/
def Field (part : Str) : Prop := Group (trim part) ∨ ∃ g, trim part = '+' :: g ∧ g.length = 3 ∧ Group g

theorem len_eq_length {s : Str} (h : ∀ c ∈ s, c.toNat < 128) : len s = s.length := by
  induction s with
  | nil => rfl
  | cons c s ih =>
    have hsize : c.utf8Size = 1 := Char.utf8Size_eq_one_iff.mpr (Nat.le_of_lt_succ (h c List.mem_cons_self))
    rw [len, List.map_cons, List.sum_cons, hsize, List.length_cons, Nat.add_comm]
    exact congrArg (· + 1) (ih fun c hc => h c (List.mem_cons_of_mem _ hc))

theorem Group.len {g : Str} (hg : Group g) : len g = g.length := len_eq_length (hg.2.2.ascii (Nat.le_refl 16))

theorem Group.unsigned {g : Str} (hg : Group g) : unsigned g = g := unsigned_of_digits (Nat.le_refl 16) hg.2.2

theorem Group.numeral {g : Str} (hg : Group g) : Numeral 16 g := by
  rw [Numeral, hg.unsigned]
  exact ⟨hg.1, hg.2.2⟩

theorem Group.value_le {g : Str} (hg : Group g) : value 16 g ≤ 65535 := by
  have hlt := value_lt hg.2.2
  have hpow : 16 ^ g.length ≤ 16 ^ 4 := Nat.pow_le_pow_right (by decide) hg.2.1
  omega

theorem padded_of_len {part : Str} (h : len part = 4) : padded part = part := by
  rw [padded, h]
  rfl

/-- A group with zeroes in front is one of the same number. -/
theorem Group.padded {g : Str} (hg : Group g) : Numeral 16 (padded g) ∧ magnitude 16 (padded g) = value 16 g := by
  have hdigits : Digits 16 (Net.padded g) := by
    intro c hc
    rcases List.mem_append.mp hc with hc | hc
    · rw [List.eq_of_mem_replicate hc]
      rfl
    · exact hg.2.2 c hc
  have hunsigned := unsigned_of_digits (Nat.le_refl 16) hdigits
  rw [Numeral, magnitude, hunsigned]
  refine ⟨⟨fun hnil => hg.1 (List.append_eq_nil_iff.mp hnil).2, hdigits⟩, ?_⟩
  exact value_replicate_append _ g

theorem Field.magnitude_padded {part : Str} (h : Field part) :
    magnitude 16 (padded (trim part)) = magnitude 16 (trim part) := by
  rcases h with hg | ⟨g, htrim, hlen, hg⟩
  · rw [hg.padded.2, magnitude, hg.unsigned]
  · rw [htrim, padded_of_len]
    rw [len, List.map_cons, List.sum_cons, ← len, hg.len, hlen]
    rfl

theorem len_of_numeral {s : Str} (hs : Numeral 16 s) : len s = s.length :=
  len_eq_length fun c hc => by
    obtain rfl | hdigit := mem_of_numeral hs hc
    · decide
    · have hrange := toNat_of_toDigit (Nat.le_refl 16) hdigit
      omega

/-- The parts that are padded and read. -/
theorem field_iff {part : Str} :
    Short (trim part) ∧ Readable 65535 16 (padded (trim part)) ↔ Field part := by
  constructor
  · rintro ⟨⟨hne, hshort⟩, hnumeral, -⟩
    by_cases hfull : len (trim part) = 4
    · rw [padded_of_len hfull] at hnumeral
      have hlen := len_of_numeral hnumeral
      obtain ⟨c, g, htrim⟩ := List.exists_cons_of_ne_nil hne
      rw [htrim] at hnumeral hlen hfull
      rw [hfull, List.length_cons] at hlen
      by_cases hplus : c = '+'
      · subst hplus
        have hg : g.length = 3 := by omega
        exact Or.inr ⟨g, htrim, hg, hnumeral.1, by omega, hnumeral.2⟩
      · have hdigits := hnumeral.2
        rw [unsigned_eq hplus] at hdigits
        refine Or.inl ?_
        rw [htrim]
        exact ⟨List.cons_ne_nil c g, by rw [List.length_cons]; omega, hdigits⟩
    · -- the first character of the padded part is a zero
      obtain ⟨n, hn⟩ : ∃ n, 4 - len (trim part) = n + 1 := ⟨3 - len (trim part), by omega⟩
      have hdigits := hnumeral.2
      rw [padded, hn, List.replicate_succ, List.cons_append, unsigned_eq (by decide)] at hdigits
      have hpart : Digits 16 (trim part) := fun c hc =>
        hdigits c (List.mem_cons_of_mem _ (List.mem_append_right _ hc))
      have hlen := len_eq_length (hpart.ascii (Nat.le_refl 16))
      exact Or.inl ⟨hne, by omega, hpart⟩
  · intro h
    have hmagnitude := h.magnitude_padded
    rcases h with hg | ⟨g, htrim, hlen, hg⟩
    · refine ⟨⟨hg.1, by rw [hg.len]; exact hg.2.1⟩, hg.padded.1, ?_⟩
      rw [hg.padded.2]
      exact hg.value_le
    · have hfull : len (trim part) = 4 := by
        rw [htrim, len, List.map_cons, List.sum_cons, ← len, hg.len, hlen]
        rfl
      refine ⟨⟨by rw [htrim]; exact List.cons_ne_nil _ _, Nat.le_of_eq hfull⟩, ?_⟩
      rw [padded_of_len hfull, htrim]
      exact ⟨⟨hg.1, hg.2.2⟩, hg.value_le⟩

/-- The groups that the fields around a `::` denote. -/
def fields (left right : List Str) : List ℕ :=
  left.map (fun part => magnitude 16 (trim part)) ++
    (List.replicate (8 - (left.length + right.length)) 0 ++ right.map fun part => magnitude 16 (trim part))

theorem mem_expanded {left right : List Str} {p : Str} (h : p ∈ expanded left right) :
    p = zeroes ∨ ∃ part ∈ left ++ right, p = padded (trim part) := by
  rw [expanded, List.mem_append, List.mem_append] at h
  rcases h with h | h | h
  · obtain ⟨part, hpart, rfl⟩ := List.mem_map.mp h
    exact Or.inr ⟨part, List.mem_append_left _ hpart, rfl⟩
  · exact Or.inl (List.eq_of_mem_replicate h)
  · obtain ⟨part, hpart, rfl⟩ := List.mem_map.mp h
    exact Or.inr ⟨part, List.mem_append_right _ hpart, rfl⟩

theorem padded_mem_expanded {left right : List Str} {part : Str} (h : part ∈ left ++ right) :
    padded (trim part) ∈ expanded left right := by
  rcases List.mem_append.mp h with h | h
  · exact List.mem_append_left _ (List.mem_map_of_mem h)
  · exact List.mem_append_right _ (List.mem_append_right _ (List.mem_map_of_mem h))

theorem map_magnitude_expanded {left right : List Str} (h : ∀ part ∈ left ++ right, Field part) :
    (expanded left right).map (magnitude 16) = fields left right := by
  have hmap : ∀ parts : List Str, (∀ part ∈ parts, Field part) →
      (parts.map fun part => padded (trim part)).map (magnitude 16) =
        parts.map fun part => magnitude 16 (trim part) := by
    intro parts hparts
    rw [List.map_map]
    exact List.map_congr_left fun part hpart => (hparts part hpart).magnitude_padded
  have hzero : magnitude 16 zeroes = 0 := by decide
  rw [expanded, List.map_append, List.map_append, List.map_replicate, hzero,
    hmap left fun part hpart => h part (List.mem_append_left _ hpart),
    hmap right fun part hpart => h part (List.mem_append_right _ hpart), fields]

/-- A compressed address is read when the parts around the `::` are fields. -/
theorem uncompressV6_ok_iff {addr : Str} {first left right last : List Str}
    (hsplit : addr.splitOn ':' = first ++ (left ++ [] :: (right ++ last))) (hfirst : Edge first left.head?)
    (hlast : Edge last right.getLast?) (hlen : (addr.splitOn ':').length ≤ 8) {bytes : Vector UInt8 16} :
    (uncompressV6 addr).bind uncompressedV6AsBytes = .ok bytes ↔
      (∀ part ∈ left ++ right, Field part) ∧ bytes = ofGroups (fields left right) := by
  have hcolon : ∀ part ∈ left ++ right, ':' ∉ part := by
    intro part hpart
    have hmem : part ∈ addr.splitOn ':' := by
      rw [hsplit]
      rcases List.mem_append.mp hpart with h | h <;> simp [h]
    exact not_mem_of_mem_splitOn hmem
  have hfree : ∀ p ∈ expanded left right, ':' ∉ p := by
    intro p hp hmem
    rcases mem_expanded hp with rfl | ⟨part, hpart, rfl⟩
    · revert hmem
      decide
    · rcases List.mem_append.mp hmem with h | h
      · exact absurd (List.eq_of_mem_replicate h) (by decide)
      · exact hcolon part hpart (mem_trim h)
  have hcount : (expanded left right).length = 8 := by
    apply length_expanded
    rw [hsplit] at hlen
    simp only [List.length_append, List.length_cons] at hlen
    omega
  have hne : expanded left right ≠ [] := by
    intro h
    rw [h] at hcount
    cases hcount
  rw [uncompressV6_eq hsplit hfirst hlast hlen]
  by_cases hshort : ∀ part ∈ left ++ right, Short (trim part)
  · rw [if_pos hshort, Except.bind, uncompressedV6AsBytes_ok_iff]
    constructor
    · rintro ⟨gs, hjoin, hgs, hread, rfl⟩
      have heq : expanded left right = gs := by
        have hgsne : gs ≠ [] := by
          rintro rfl
          cases hgs
        rw [← List.splitOn_intercalate ':' hfree hne, hjoin]
        exact List.splitOn_intercalate ':'
          (fun g hg => not_mem_numeral (by decide) (by decide) (hread g hg).1) hgsne
      have hfield : ∀ part ∈ left ++ right, Field part := fun part hpart =>
        field_iff.mp ⟨hshort part hpart, hread _ (heq ▸ padded_mem_expanded hpart)⟩
      exact ⟨hfield, by rw [← heq, map_magnitude_expanded hfield]⟩
    · rintro ⟨hfield, rfl⟩
      refine ⟨expanded left right, rfl, hcount, fun p hp => ?_, by rw [map_magnitude_expanded hfield]⟩
      rcases mem_expanded hp with rfl | ⟨part, hpart, rfl⟩
      · decide
      · exact (field_iff.mpr (hfield part hpart)).2
  · rw [if_neg hshort]
    constructor
    · intro h
      cases h
    · rintro ⟨hfield, -⟩
      exact absurd (fun part hpart => (field_iff.mpr (hfield part hpart)).1) hshort

/-! ### Brackets -/

/-- A text in `n` pairs of brackets. -/
def bracket (n : ℕ) (addr : Str) : Str := List.replicate n '[' ++ (addr ++ List.replicate n ']')

theorem bracket_zero (addr : Str) : bracket 0 addr = addr := List.append_nil addr

theorem bracket_succ (n : ℕ) (addr : Str) : bracket (n + 1) addr = '[' :: (bracket n addr ++ [']']) := by
  rw [bracket, bracket, List.replicate_succ, List.replicate_succ', List.append_assoc, List.append_assoc]
  rfl

/-- What `v6` looks for. -/
def Bracketed (addr : Str) : Prop := addr.head? = some '[' ∧ addr.getLast? = some ']'

theorem bracketed_iff {addr : Str} : Bracketed addr ↔ ∃ inner, addr = '[' :: (inner ++ [']']) := by
  constructor
  · rintro ⟨hhead, hlast⟩
    obtain ⟨tail, rfl⟩ := List.head?_eq_some_iff.mp hhead
    obtain ⟨init, hinit⟩ := List.getLast?_eq_some_iff.mp hlast
    cases init with
    | nil => cases hinit
    | cons c inner => exact ⟨inner, by rw [hinit, (List.cons.inj hinit).1]; rfl⟩
  · rintro ⟨inner, rfl⟩
    exact ⟨rfl, by rw [← List.cons_append, List.getLast?_concat]⟩

/-- `v6` takes a text out of its brackets. -/
theorem v6_bracket {addr : Str} (h : ¬ Bracketed addr) (n : ℕ) : v6 (bracket n addr) = v6Plain addr := by
  induction n with
  | zero =>
    rw [bracket_zero, v6]
    exact if_neg h
  | succ n ih =>
    have hbracketed : Bracketed ('[' :: (bracket n addr ++ [']'])) := bracketed_iff.mpr ⟨_, rfl⟩
    rw [Bracketed] at hbracketed
    rw [bracket_succ, v6, if_pos hbracketed, List.tail_cons, List.dropLast_concat, ih]

/-- Every text is one that is not in brackets, in some pairs of brackets. -/
theorem exists_bracket (s : Str) : ∃ n addr, s = bracket n addr ∧ ¬ Bracketed addr := by
  induction hlen : s.length using Nat.strong_induction_on generalizing s with
  | _ length ih =>
    by_cases hs : Bracketed s
    · obtain ⟨inner, rfl⟩ := bracketed_iff.mp hs
      have hlt : inner.length < length := by
        rw [← hlen, List.length_cons, List.length_append]
        omega
      obtain ⟨n, addr, rfl, haddr⟩ := ih inner.length hlt inner rfl
      exact ⟨n + 1, addr, (bracket_succ n addr).symm, haddr⟩
    · exact ⟨0, s, (bracket_zero s).symm, hs⟩

end Net
end ClAsync
