/-
# The text of an address, read back

What `Display` writes for an address of version 6 is a literal, with one
exception. `compress_v6` remembers where the longest run of zeroes begins also
when that run is one group, which it leaves as it is; and when the run begins
at the first group or is the last one, it adds an empty part there. The text
then has eight colons and no `::`, so that it is taken for a host name
(`not_reads`).

The search for the longest run is a loop with four variables. `Scan.Ok` says
what they are after a prefix of the parts.

Key definitions: `Scan.Ok`, `Reads`, `Legible`.
Key theorems: `Scan.Ok.part`, one part, and `reads_iff`, for every address.
-/
import ClAsync.Net.Literal
import Mathlib.Tactic.IntervalCases

namespace ClAsync
namespace Net

open Text

/-! ### Groups as texts -/

/-- A group as `compress_v6` writes it. -/
def hexGroup (n : ℕ) : Str := stripZeroes (hex4 n)

theorem toDigit_digitChar : ∀ d < 16, toDigit 16 (Nat.digitChar d) = some d := by decide

theorem digits_hex4 (n : ℕ) : Digits 16 (hex4 n) := by
  have hdigit : ∀ d < 16, (toDigit 16 (Nat.digitChar d)).isSome = true := fun d hd => by
    rw [toDigit_digitChar d hd]
    rfl
  simp only [Digits, hex4, List.forall_mem_cons]
  exact ⟨hdigit _ (by omega), hdigit _ (by omega), hdigit _ (by omega), hdigit _ (by omega), by simp⟩

theorem value_hex4 {n : ℕ} (h : n < 65536) : value 16 (hex4 n) = n := by
  simp only [value, hex4, List.foldl_cons, List.foldl_nil]
  rw [toDigit_digitChar _ (by omega), toDigit_digitChar _ (by omega), toDigit_digitChar _ (by omega),
    toDigit_digitChar _ (by omega)]
  simp only [Option.getD_some]
  omega

theorem stripZeroes_eq (s : Str) : ∃ n, s = List.replicate n '0' ++ stripZeroes s := by
  induction s using stripZeroes.induct with
  | case1 c cs ih =>
    obtain ⟨n, hn⟩ := ih
    refine ⟨n + 1, ?_⟩
    rw [stripZeroes, List.replicate_succ, List.cons_append, ← hn]
  | case2 s hs =>
    refine ⟨0, ?_⟩
    rw [stripZeroes]
    · rfl
    · exact hs

theorem stripZeroes_ne_nil {s : Str} (h : s ≠ []) : stripZeroes s ≠ [] := by
  induction s using stripZeroes.induct with
  | case1 c cs ih =>
    rw [stripZeroes]
    exact ih (List.cons_ne_nil c cs)
  | case2 s hs =>
    rw [stripZeroes]
    · exact h
    · exact hs

theorem group_hexGroup (n : ℕ) : Group (hexGroup n) := by
  obtain ⟨k, hk⟩ := stripZeroes_eq (hex4 n)
  have hlen := congrArg List.length hk
  rw [List.length_append, List.length_replicate] at hlen
  have hfour : (hex4 n).length = 4 := rfl
  refine ⟨stripZeroes_ne_nil (List.cons_ne_nil _ _), by rw [hexGroup]; omega, fun c hc => ?_⟩
  apply digits_hex4 n
  rw [hk]
  exact List.mem_append_right _ hc

theorem value_hexGroup {n : ℕ} (h : n < 65536) : value 16 (hexGroup n) = n := by
  obtain ⟨k, hk⟩ := stripZeroes_eq (hex4 n)
  have hvalue := value_hex4 h
  rwa [hk, value_replicate_append] at hvalue

theorem group_lt (bytes : Vector UInt8 16) (i : Fin 8) : group bytes i < 65536 := by
  have hhigh := bytes[2 * i.val].toNat_lt
  have hlow := bytes[2 * i.val + 1].toNat_lt
  rw [group]
  omega

theorem lt_of_mem_groups {bytes : Vector UInt8 16} {n : ℕ} (h : n ∈ groups bytes) : n < 65536 := by
  obtain ⟨i, rfl⟩ := List.mem_ofFn.mp h
  exact group_lt bytes i

/-- The groups are all there is of an address. -/
theorem ofGroups_groups (bytes : Vector UInt8 16) : ofGroups (groups bytes) = bytes := by
  have hhigh : ∀ a b : UInt8, UInt8.ofNat ((a.toNat * 256 + b.toNat) / 256) = a := by
    intro a b
    have hb := b.toNat_lt
    have hdiv : (a.toNat * 256 + b.toNat) / 256 = a.toNat := by omega
    rw [hdiv, UInt8.ofNat_toNat]
  have hlow : ∀ a b : UInt8, UInt8.ofNat (a.toNat * 256 + b.toNat) = b := by
    intro a b
    have hb := b.toNat_lt
    apply UInt8.toNat_inj.mp
    rw [UInt8.toNat_ofNat']
    omega
  apply Vector.ext
  intro i hi
  have hget : (groups bytes).getD (i / 2) 0 = group bytes ⟨i / 2, by omega⟩ := by
    rw [groups, List.getD_eq_getElem?_getD, List.getElem?_ofFn, dif_pos (by omega), Option.getD_some]
  rw [ofGroups, Vector.getElem_ofFn]
  dsimp only
  rw [hget, group]
  by_cases heven : i % 2 = 0
  · have hi : 2 * (i / 2) = i := by omega
    simp only [if_pos heven, hi]
    exact hhigh _ _
  · have hi : 2 * (i / 2) + 1 = i := by omega
    simp only [if_neg heven, hi]
    exact hlow _ _

/-! ### The longest run of zeroes -/

/-- What the loop has found after some parts. -/
structure Scan.Ok (parts : List Str) (scan : Scan) : Prop where
  i : scan.i = parts.length
  /-- The run that the parts end with. -/
  zeroCount : ∃ before, parts = before ++ List.replicate scan.zeroCount ['0'] ∧ before.getLast? ≠ some ['0']
  le : scan.zeroCount ≤ scan.mostZeroes
  nothing : scan.mostZeroes = 0 → scan.doubleColonIndex = none ∧ ['0'] ∉ parts
  /-- The run that was found. -/
  found : 0 < scan.mostZeroes → ∃ before after, parts = before ++ (List.replicate scan.mostZeroes ['0'] ++ after) ∧
    scan.doubleColonIndex = some before.length ∧ (scan.mostZeroes = 1 → ['0'] ∉ before)
  short : scan.mostZeroes ≤ 1 → ¬ [['0'], ['0']] <:+: parts

theorem Scan.Ok.init : Scan.Ok [] ⟨none, 0, 0, 0⟩ where
  i := rfl
  zeroCount := ⟨[], rfl, by simp⟩
  le := Nat.le_refl 0
  nothing _ := ⟨rfl, List.not_mem_nil⟩
  found h := absurd h (Nat.lt_irrefl 0)
  short _ h := by
    have hlen := h.length_le
    simp at hlen

/-- Two zeroes at the end of the parts are the last part and the one before. -/
theorem pair_concat {parts : List Str} {part : Str} (h : [['0'], ['0']] <:+: parts ++ [part]) :
    [['0'], ['0']] <:+: parts ∨ part = ['0'] ∧ parts.getLast? = some ['0'] := by
  rcases List.infix_concat_iff.mp h with ⟨before, hbefore⟩ | h
  · have hconcat : (before ++ [['0']]) ++ [['0']] = parts ++ [part] := by
      rw [← hbefore, List.append_assoc]
      rfl
    obtain ⟨rfl, hpart⟩ := List.append_inj' hconcat rfl
    exact Or.inr ⟨(List.cons.inj hpart).1.symm, List.getLast?_concat⟩
  · exact Or.inl h

section Part

variable {parts : List Str} {scan : Scan} (h : scan.Ok parts)

include h

theorem Scan.Ok.lastRun {before : List Str} (hbefore : parts = before ++ List.replicate scan.zeroCount ['0']) :
    parts ++ [['0']] = before ++ List.replicate (scan.zeroCount + 1) ['0'] ∧
      scan.i = before.length + scan.zeroCount := by
  rw [h.i, List.replicate_succ', ← List.append_assoc, ← hbefore]
  refine ⟨rfl, ?_⟩
  rw [hbefore, List.length_append, List.length_replicate]

/-- The run at the end gets longer than the one that was found. -/
theorem Scan.Ok.longer (hmost : scan.zeroCount + 1 > scan.mostZeroes) :
    Scan.Ok (parts ++ [['0']])
      ⟨some (scan.i + 1 - (scan.zeroCount + 1)), scan.zeroCount + 1, scan.zeroCount + 1, scan.i + 1⟩ := by
  obtain ⟨before, hbefore, hlast⟩ := h.zeroCount
  obtain ⟨hrun, hi⟩ := h.lastRun hbefore
  have hfirst : scan.zeroCount + 1 = 1 → ['0'] ∉ parts := fun hone => (h.nothing (by omega)).2
  refine ⟨?_, ⟨before, hrun, hlast⟩, Nat.le_refl _, fun hzero => absurd hzero (Nat.succ_ne_zero _),
    fun _ => ?_, ?_⟩
  · rw [List.length_append, List.length_singleton, ← h.i]
  · refine ⟨before, [], by rw [List.append_nil]; exact hrun, ?_, fun hone hmem => ?_⟩
    · have hindex : scan.i + 1 - (scan.zeroCount + 1) = before.length := by omega
      exact congrArg some hindex
    · apply hfirst hone
      rw [hbefore]
      exact List.mem_append_left _ hmem
  · intro hone hpair
    have hno := hfirst (Nat.le_antisymm hone (Nat.succ_le_succ (Nat.zero_le _)))
    rcases pair_concat hpair with hpair | ⟨-, hend⟩
    · exact hno (hpair.subset List.mem_cons_self)
    · exact hno (List.mem_of_getLast? hend)

/-- The run that was found stays the longest. -/
theorem Scan.Ok.notLonger (hmost : ¬ scan.zeroCount + 1 > scan.mostZeroes) :
    Scan.Ok (parts ++ [['0']]) { scan with zeroCount := scan.zeroCount + 1, i := scan.i + 1 } := by
  obtain ⟨before, hbefore, hlast⟩ := h.zeroCount
  obtain ⟨hrun, -⟩ := h.lastRun hbefore
  refine ⟨?_, ⟨before, hrun, hlast⟩, Nat.not_lt.mp hmost, fun hzero => ?_, fun hpos => ?_, fun hone hpair => ?_⟩
  · rw [List.length_append, List.length_singleton, ← h.i]
  · dsimp only at hzero
    omega
  · obtain ⟨front, back, hparts, hindex, hfront⟩ := h.found hpos
    refine ⟨front, back ++ [['0']], ?_, hindex, hfront⟩
    rw [hparts, List.append_assoc, List.append_assoc]
  · have hzero : scan.zeroCount = 0 := by
      dsimp only at hone
      omega
    rw [hzero, List.replicate_zero, List.append_nil] at hbefore
    rcases pair_concat hpair with hpair | ⟨-, hend⟩
    · exact h.short hone hpair
    · rw [hbefore] at hend
      exact hlast hend

/-- The run at the end is over. -/
theorem Scan.Ok.other {part : Str} (hpart : part ≠ ['0']) :
    Scan.Ok (parts ++ [part]) { scan with zeroCount := 0, i := scan.i + 1 } := by
  refine ⟨?_, ⟨parts ++ [part], by simp, ?_⟩, Nat.zero_le _, fun hzero => ?_, fun hpos => ?_, fun hone hpair => ?_⟩
  · rw [List.length_append, List.length_singleton, ← h.i]
  · rw [List.getLast?_concat]
    exact fun heq => hpart (Option.some.inj heq)
  · obtain ⟨hnone, hmem⟩ := h.nothing hzero
    refine ⟨hnone, fun hzero => ?_⟩
    rcases List.mem_append.mp hzero with hzero | hzero
    · exact hmem hzero
    · exact hpart (List.mem_singleton.mp hzero).symm
  · obtain ⟨front, back, hparts, hindex, hfront⟩ := h.found hpos
    refine ⟨front, back ++ [part], ?_, hindex, hfront⟩
    rw [hparts, List.append_assoc, List.append_assoc]
  · rcases pair_concat hpair with hpair | ⟨hzero, -⟩
    · exact h.short hone hpair
    · exact hpart hzero

/-- The loop goes on by one part. -/
theorem Scan.Ok.part (part : Str) : (scan.part part).Ok (parts ++ [part]) := by
  unfold Scan.part
  by_cases hpart : part = ['0']
  · rw [if_pos hpart, hpart]
    by_cases hmost : scan.zeroCount + 1 > scan.mostZeroes
    · exact (if_pos hmost).symm ▸ h.longer hmost
    · exact (if_neg hmost).symm ▸ h.notLonger hmost
  · rw [if_neg hpart]
    exact h.other hpart

end Part

/-- What the loop finds in the parts. -/
def scanned (parts : List Str) : Scan := parts.foldl Scan.part ⟨none, 0, 0, 0⟩

theorem scanned_concat (parts : List Str) (part : Str) : scanned (parts ++ [part]) = (scanned parts).part part := by
  rw [scanned, List.foldl_concat, scanned]

theorem scanned_ok (parts : List Str) : (scanned parts).Ok parts := by
  induction parts using List.reverseRecOn with
  | nil => exact Scan.Ok.init
  | append_singleton parts part ih =>
    rw [scanned_concat]
    exact ih.part part

theorem scanParts_eq (addr : Str) {parts : List Str} (hne : ∀ part ∈ parts, part ≠ []) (scan : Scan) :
    scanParts addr scan parts = .ok (parts.foldl Scan.part scan) := by
  induction parts generalizing scan with
  | nil => rfl
  | cons part parts ih =>
    rw [scanParts, if_neg (hne part List.mem_cons_self)]
    exact ih (fun p hp => hne p (List.mem_cons_of_mem _ hp)) _

/-! ### The text of the parts -/

theorem removeParts_eq (before after : List Str) (n : ℕ) :
    removeParts before.length n (before ++ (List.replicate n ['0'] ++ after)) = before ++ after := by
  induction n with
  | zero => rfl
  | succ n ih =>
    have herase : (before ++ (List.replicate (n + 1) ['0'] ++ after)).eraseIdx before.length =
        before ++ (List.replicate n ['0'] ++ after) := by
      rw [List.eraseIdx_append_of_length_le (Nat.le_refl _), Nat.sub_self]
      rfl
    rw [removeParts, herase, ih]

theorem Scan.clear_of_le {scan : Scan} (hmost : scan.mostZeroes ≤ 1) (parts : List Str) :
    scan.clear parts = parts := by
  unfold Scan.clear
  split
  · rw [if_neg (by omega)]
  · rfl

/-- A run of one zero is left, and leaves its mark at an end. -/
theorem Scan.recombined_of_le {scan : Scan} {parts : List Str} (hmost : scan.mostZeroes ≤ 1)
    (hlen : parts.length = 8) :
    scan.recombined (scan.clear parts) =
      if scan.doubleColonIndex = some 0 then [':'].intercalate ([] :: parts)
      else if scan.doubleColonIndex = some 7 then [':'].intercalate (parts ++ [[]])
      else [':'].intercalate parts := by
  have hne : parts ≠ [[]] := by
    rintro rfl
    cases hlen
  rw [Scan.clear_of_le hmost, Scan.recombined, if_neg hne, hlen]

/-- A run of two zeroes or more becomes a `::`. -/
theorem Scan.recombined_of_lt {parts before after : List Str} {scan : Scan} (hmost : 1 < scan.mostZeroes)
    (hparts : parts = before ++ (List.replicate scan.mostZeroes ['0'] ++ after))
    (hindex : scan.doubleColonIndex = some before.length) :
    scan.recombined (scan.clear parts) =
      [':'].intercalate (edge before ++ (before ++ [] :: (after ++ edge after))) := by
  have hclear : scan.clear parts = before ++ [] :: after := by
    obtain ⟨n, hn⟩ : ∃ n, scan.mostZeroes = n + 1 := ⟨scan.mostZeroes - 1, by omega⟩
    rw [Scan.clear, hindex]
    dsimp only
    rw [if_pos hmost, hparts, hn, List.replicate_succ', List.append_assoc, Nat.add_sub_cancel, removeParts_eq,
      List.set_append_right _ _ (Nat.le_refl _), Nat.sub_self]
    rfl
  rw [hclear, Scan.recombined, hindex]
  by_cases hbefore : before = []
  · subst hbefore
    by_cases hafter : after = []
    · subst hafter
      rfl
    · have hedge : edge after = [] := if_neg hafter
      have hfirst : some ([] : List Str).length = some 0 := rfl
      rw [if_neg (by simpa using hafter), if_pos hfirst, hedge, List.append_nil]
      rfl
  · have hpos : before.length ≠ 0 := fun hzero => hbefore (List.length_eq_zero_iff.mp hzero)
    have hzero : some before.length ≠ some 0 := fun heq => hpos (Option.some.inj heq)
    have hne : before ++ [] :: after ≠ [[]] := by
      intro heq
      have hlen := congrArg List.length heq
      rw [List.length_append, List.length_cons, List.length_singleton] at hlen
      omega
    have hlast : some before.length = some ((before ++ [] :: after).length - 1) ↔ after = [] := by
      rw [Option.some.injEq, List.length_append, List.length_cons, ← List.length_eq_zero_iff]
      omega
    rw [if_neg hne, if_neg hzero, edge, if_neg hbefore, edge]
    by_cases hafter : after = []
    · rw [if_pos (hlast.mpr hafter), if_pos hafter, hafter]
      simp
    · rw [if_neg fun heq => hafter (hlast.mp heq), if_neg hafter, List.append_nil]
      rfl

theorem stripParts_eq (addr : Str) {parts : List Str} (h : ∀ part ∈ parts, len part = 4) :
    stripParts addr parts = .ok (parts.map stripZeroes) := by
  induction parts with
  | nil => rfl
  | cons part parts ih =>
    have hlen := h part List.mem_cons_self
    rw [stripParts, if_neg (by omega), ih fun p hp => h p (List.mem_cons_of_mem _ hp)]
    rfl

theorem len_hex4 (n : ℕ) : len (hex4 n) = 4 := len_eq_length (Digits.ascii (Nat.le_refl 16) (digits_hex4 n))

/-- What `compress_v6` makes of the eight groups. -/
theorem compressV6_groups (bytes : Vector UInt8 16) {scan : Scan}
    (hscan : scanned ((groups bytes).map hexGroup) = scan) :
    compressV6 (bytesAsUncompressedV6 bytes) =
      .ok (scan.recombined (scan.clear ((groups bytes).map hexGroup))) := by
  have hgroup : ∀ n, Group (hex4 n) := fun n => ⟨List.cons_ne_nil _ _, Nat.le_refl 4, digits_hex4 n⟩
  have hgroups : ∀ g ∈ (groups bytes).map hex4, Group g := List.forall_mem_map.mpr fun n _ => hgroup n
  have hlen : ((groups bytes).map hex4).length = 8 := by simp [groups]
  have hsplit : (bytesAsUncompressedV6 bytes).splitOn ':' = (groups bytes).map hex4 :=
    splitOn_numbers (by decide) (Nat.le_refl 16) (by omega) fun g hg => (hgroups g hg).readable
  have htrim : ((groups bytes).map hex4).map trim = (groups bytes).map hex4 := by
    rw [List.map_map]
    exact List.map_congr_left fun n _ => trim_group (hgroup n)
  have hstrip : stripParts (bytesAsUncompressedV6 bytes) ((groups bytes).map hex4) =
      .ok ((groups bytes).map hexGroup) := by
    rw [stripParts_eq _ (List.forall_mem_map.mpr fun n _ => len_hex4 n), List.map_map]
    rfl
  have hne : ∀ part ∈ (groups bytes).map hexGroup, part ≠ [] :=
    List.forall_mem_map.mpr fun n _ => (group_hexGroup n).1
  have hloop : scanParts (bytesAsUncompressedV6 bytes) ⟨none, 0, 0, 0⟩ ((groups bytes).map hexGroup) = .ok scan := by
    rw [scanParts_eq _ hne, ← hscan, scanned]
  unfold compressV6
  simp only [hsplit, htrim, hstrip]
  rw [if_neg fun h => h hlen, Except.bind, hloop]
  rfl

/-- The text of an address that is not mapped. -/
theorem toString_groups {bytes : Vector UInt8 16} (hmapped : isV4MappedV6 bytes = false) {scan : Scan}
    (hscan : scanned ((groups bytes).map hexGroup) = scan) :
    (IpAddress.v6 bytes).toString = scan.recombined (scan.clear ((groups bytes).map hexGroup)) := by
  rw [IpAddress.toString, hmapped, if_neg Bool.false_ne_true]
  simp only [compressV6_groups bytes hscan]

/-! ### Reading it back -/

/-- Brackets change nothing that `is_v4` and `is_v6` look at. -/
theorem colons_bracket (n : ℕ) (addr : Str) : isCompressedV6 (bracket n addr) = isCompressedV6 addr ∧
    isUncompressedV6 (bracket n addr) = isUncompressedV6 addr ∧ (':' ∈ bracket n addr ↔ ':' ∈ addr) := by
  have hcount : (bracket n addr).count ':' = addr.count ':' := by
    rw [bracket, List.count_append, List.count_append, List.count_replicate, List.count_replicate]
    simp
  have hpair : contains [':', ':'] (bracket n addr) = contains [':', ':'] addr := by
    rw [Bool.eq_iff_iff, contains_iff, contains_iff]
    induction n with
    | zero => rw [bracket_zero]
    | succ n ih =>
      rw [bracket_succ, List.infix_cons_iff, List.infix_concat_iff, ih (by simp [bracket, List.count_replicate])]
      refine ⟨fun h => (h.resolve_left fun h => ?_).resolve_left fun h => ?_, fun h => Or.inr (Or.inr h)⟩
      · exact absurd (List.cons_prefix_cons.mp h).1 (by decide)
      · obtain ⟨before, hbefore⟩ := h
        have hlast := congrArg List.getLast? hbefore
        rw [List.getLast?_concat, List.getLast?_append] at hlast
        exact absurd (Option.some.inj hlast) (by decide)
  rw [isCompressedV6, isUncompressedV6, hcount, hpair, ← List.count_pos_iff, hcount, List.count_pos_iff]
  exact ⟨rfl, rfl, Iff.rfl⟩

theorem Accepted.colons {addr : Str} {bytes : Vector UInt8 16} (h : Accepted addr bytes) :
    (isCompressedV6 addr = true ∨ isUncompressedV6 addr = true) ∧ ':' ∈ addr := by
  have hcolon : 1 < (addr.splitOn ':').length → ':' ∈ addr := by
    intro hlen
    rw [length_splitOn] at hlen
    exact List.count_pos_iff.mp (by omega)
  cases h with
  | full hlen hgs =>
    rename_i gs
    have hsplit : ([':'].intercalate gs).splitOn ':' = gs :=
      splitOn_numbers (by decide) (Nat.le_refl 16) (by omega) hgs
    have hpair : ¬ contains [':', ':'] ([':'].intercalate gs) = true := by
      rw [contains_iff, pair_infix_iff, hsplit]
      rintro ⟨before, after, -, -, rfl⟩
      exact (hgs [] (List.mem_append_right _ List.mem_cons_self)).1.1 rfl
    refine ⟨Or.inr ?_, hcolon (by rw [hsplit, hlen]; decide)⟩
    have hcount := length_splitOn ':' ([':'].intercalate gs)
    rw [hsplit, hlen] at hcount
    rw [isUncompressedV6, Bool.and_eq_true, Bool.eq_false_iff.mpr hpair, beq_iff_eq]
    exact ⟨by omega, rfl⟩
  | compressed hfirst hlast hlen hparts =>
    rename_i first left right last
    have hpos := hfirst.pos_first
    have hpos' := hlast.pos_last
    have hsplit := splitOn_pieces hfirst hlast hparts
    have hpieces := congrArg List.length hsplit
    simp only [List.length_append, List.length_cons] at hpieces
    refine ⟨Or.inl (isCompressedV6_iff.mpr ⟨⟨first ++ left, right ++ last, ?_, ?_, ?_⟩, by omega⟩),
      hcolon (by omega)⟩
    · exact List.ne_nil_of_length_pos (by rw [List.length_append]; exact hpos)
    · exact List.ne_nil_of_length_pos (by rw [List.length_append]; exact hpos')
    · rw [hsplit, List.append_assoc]
  | mapped hlen hos =>
    rename_i os
    -- the colons of the prefix are the only ones
    have hno : ':' ∉ ['.'].intercalate os := fun hmem =>
      (mem_intercalate hmem).elim (by decide) fun ⟨o, ho, hc⟩ =>
        not_mem_numeral (by decide) (by decide) (hos o ho).1 hc
    have hcount : (mappedPrefix ++ ['.'].intercalate os).count ':' = 3 := by
      rw [List.count_append, List.count_eq_zero_of_not_mem hno]
      rfl
    refine ⟨Or.inl ?_, List.mem_append_left _ (by decide)⟩
    rw [isCompressedV6, hcount, Bool.and_eq_true, contains_iff]
    exact ⟨⟨[], "ffff:".toList ++ ['.'].intercalate os, rfl⟩, by decide⟩

/-- An accepted text is not taken for an address of version 4 or a host name,
in brackets or not. -/
theorem tryFrom_of_accepted {addr : Str} {bytes : Vector UInt8 16} (h : Accepted addr bytes) {s : Str} {n : ℕ}
    (hs : trim s = bracket n addr) (getaddrinfo : Str → Except (Str × ℤ) (List IpAddress)) :
    tryFrom getaddrinfo s = .ok (.v6 bytes) := by
  have hread := (v6_bracket_iff (n := n) h.not_bracketed).mpr h
  obtain ⟨hcompressed, huncompressed, hcolon⟩ := colons_bracket n addr
  have hv4 : isV4 (bracket n addr) = false := by
    rw [isV4, Bool.and_eq_false_iff]
    refine Or.inr ?_
    rw [List.contains_iff_mem.mpr (hcolon.mpr h.colons.2)]
    rfl
  have hv6 : isV6 (bracket n addr) = true := by
    rw [isV6, hcompressed, huncompressed, Bool.or_eq_true, Bool.or_eq_true]
    exact Or.inl h.colons.1
  unfold tryFrom
  simp only [hs, hv4, hv6, Bool.false_eq_true, if_false, if_true, hread]

theorem resolveHostname_error (hostname : Str) (e : Str × ℤ) :
    ∃ e', resolveHostname (fun _ => .error e) hostname = .error e' := by
  unfold resolveHostname
  split
  · exact ⟨_, rfl⟩
  · exact ⟨_, rfl⟩

/-- A text of nine pieces without dots is taken for a host name. -/
theorem tryFrom_of_nine {addr : Str} (hlen : (addr.splitOn ':').length = 9) (hdot : '.' ∉ addr)
    (hblank : NotBlank addr) (e : Str × ℤ) (a : IpAddress) :
    tryFrom (fun _ => .error e) addr ≠ .ok a := by
  have hcount : addr.count ':' = 8 := by
    rw [length_splitOn] at hlen
    omega
  have hv4 : isV4 addr = false := by
    rw [isV4, Bool.and_eq_false_iff]
    refine Or.inr ?_
    rw [List.contains_iff_mem.mpr (List.count_pos_iff.mp (by omega))]
    rfl
  have hv6 : isV6 addr = false := by
    rw [isV6, isCompressedV6, isUncompressedV6, isMappedV6, hcount]
    have hnodot : addr.contains '.' = false := by
      rw [← Bool.not_eq_true, List.contains_iff_mem]
      exact hdot
    rw [hnodot]
    simp
  obtain ⟨e', hresolve⟩ := resolveHostname_error addr e
  unfold tryFrom
  simp only [trim_eq_self hblank, hv4, hv6, Bool.false_eq_true, if_false, hresolve]
  intro h
  cases h

theorem not_blank_join {parts : List Str} (h : ∀ part ∈ parts, NotBlank part) :
    NotBlank ([':'].intercalate parts) := by
  intro c hc
  rcases mem_intercalate hc with rfl | ⟨part, hpart, hc⟩
  · decide
  · exact h part hpart c hc

/-! ### Every address -/

/-- The text of the address is read as the address, whatever the resolver
says. -/
def Reads (a : IpAddress) : Prop := ∀ getaddrinfo, tryFrom getaddrinfo a.toString = .ok a

/-- Two groups of zeroes stand side by side; or the first group is not zero,
and the last is not zero or one between them is. -/
def LegibleGroups (gs : List ℕ) : Prop :=
  [0, 0] <:+: gs ∨ (gs.head? ≠ some 0 ∧ (gs.getLast? ≠ some 0 ∨ 0 ∈ gs.tail.dropLast))

instance (gs : List ℕ) : Decidable (LegibleGroups gs) := inferInstanceAs (Decidable (_ ∨ _))

def Legible : IpAddress → Prop
  | .v4 _ => True
  | .v6 addr => LegibleGroups (groups addr)

/-- Where the first zero stands when no two stand side by side. -/
theorem legibleGroups_iff {before after : List ℕ} (hbefore : 0 ∉ before)
    (hpair : ¬ [0, 0] <:+: before ++ 0 :: after) :
    LegibleGroups (before ++ 0 :: after) ↔ before ≠ [] ∧ after ≠ [] := by
  constructor
  · rintro (h | ⟨hhead, hlast⟩)
    · exact absurd h hpair
    · have hne : before ≠ [] := by
        rintro rfl
        exact hhead rfl
      refine ⟨hne, ?_⟩
      rintro rfl
      rcases hlast with hlast | hmem
      · exact hlast List.getLast?_concat
      · rw [List.tail_append_of_ne_nil hne, List.dropLast_concat] at hmem
        exact hbefore (List.mem_of_mem_tail hmem)
  · rintro ⟨hne, hne'⟩
    obtain ⟨n, before, rfl⟩ := List.exists_cons_of_ne_nil hne
    refine Or.inr ⟨fun h => hbefore ?_, Or.inr ?_⟩
    · rw [← Option.some.inj h]
      exact List.mem_cons_self
    · rw [List.cons_append, List.tail_cons, List.dropLast_append_of_ne_nil (List.cons_ne_nil _ _),
        List.dropLast_cons_of_ne_nil hne']
      exact List.mem_append_right _ List.mem_cons_self

section Groups

variable (bytes : Vector UInt8 16)

theorem length_groups : (groups bytes).length = 8 := List.length_ofFn

theorem group_parts : ∀ part ∈ (groups bytes).map hexGroup, Group part :=
  List.forall_mem_map.mpr fun n _ => group_hexGroup n

theorem map_value_parts : ((groups bytes).map hexGroup).map (value 16) = groups bytes := by
  rw [List.map_map]
  have hid : ∀ n ∈ groups bytes, (value 16 ∘ hexGroup) n = id n := fun n hn => value_hexGroup (lt_of_mem_groups hn)
  rw [List.map_congr_left hid, List.map_id]

/-- Eight groups are read back. -/
theorem tryFrom_full (getaddrinfo : Str → Except (Str × ℤ) (List IpAddress)) :
    tryFrom getaddrinfo ([':'].intercalate ((groups bytes).map hexGroup)) = .ok (.v6 bytes) := by
  have hgroups := group_parts bytes
  have hlen : ((groups bytes).map hexGroup).length = 8 := by rw [List.length_map, length_groups]
  have haccepted := Accepted.full hlen fun part hpart => (hgroups part hpart).readable
  rw [← List.map_congr_left fun g hg => (hgroups g hg).magnitude.symm, map_value_parts,
    ofGroups_groups] at haccepted
  refine tryFrom_of_accepted (n := 0) haccepted ?_ getaddrinfo
  rw [bracket_zero, trim_eq_self (not_blank_join fun part hpart => (hgroups part hpart).not_blank)]

/-- The groups around a run of zeroes are read back. -/
theorem tryFrom_compressed {before after : List Str} {n : ℕ} (hn : 2 ≤ n)
    (hparts : (groups bytes).map hexGroup = before ++ (List.replicate n ['0'] ++ after))
    (getaddrinfo : Str → Except (Str × ℤ) (List IpAddress)) :
    tryFrom getaddrinfo ([':'].intercalate (edge before ++ (before ++ [] :: (after ++ edge after)))) =
      .ok (.v6 bytes) := by
  have hgroups := group_parts bytes
  rw [hparts] at hgroups
  have hbefore : ∀ g ∈ before, Group g := fun g hg => hgroups g (List.mem_append_left _ hg)
  have hafter : ∀ g ∈ after, Group g := fun g hg =>
    hgroups g (List.mem_append_right _ (List.mem_append_right _ hg))
  have hfields : ∀ g ∈ before ++ after, Field g := fun g hg =>
    (List.mem_append.mp hg).elim (fun h => (hbefore g h).field) fun h => (hafter g h).field
  have hlen : before.length + n + after.length = 8 := by
    have hlen := congrArg List.length hparts
    simp only [List.length_map, length_groups, List.length_append, List.length_replicate] at hlen
    omega
  have hvalues : fields before after = groups bytes := by
    have hzeroes : 8 - (before.length + after.length) = n := by omega
    have hzero : value 16 ['0'] = 0 := by decide
    rw [← map_value_parts bytes, hparts, fields, hzeroes, ← map_value_eq hbefore, ← map_value_eq hafter]
    rw [List.map_append, List.map_append, List.map_replicate, hzero]
  have hcount : (edge before).length + before.length + after.length + (edge after).length ≤ 7 := by
    rw [length_edge, length_edge]
    split <;> split <;> omega
  have haccepted := Accepted.compressed (edge_first hbefore) (edge_last hafter) hcount hfields
  rw [hvalues, ofGroups_groups] at haccepted
  refine tryFrom_of_accepted (n := 0) haccepted ?_ getaddrinfo
  rw [bracket_zero, trim_eq_self (not_blank_join fun part hpart => ?_)]
  have hempty : part = [] → NotBlank part := by
    rintro rfl c hc
    cases hc
  rw [List.mem_append, List.mem_append, List.mem_cons, List.mem_append] at hpart
  rcases hpart with h | h | h | h | h
  · exact hempty (eq_nil_of_mem_edge h)
  · exact (hbefore part h).not_blank
  · exact hempty h
  · exact (hafter part h).not_blank
  · exact hempty (eq_nil_of_mem_edge h)

/-- A zero too many at an end makes the text a host name. -/
theorem tryFrom_nine {parts : List Str} (hlen : parts.length = 9) (hparts : ∀ part ∈ parts, part = [] ∨ Group part)
    (e : Str × ℤ) (a : IpAddress) : tryFrom (fun _ => .error e) ([':'].intercalate parts) ≠ .ok a := by
  have hforeign : ∀ {c : Char}, Foreign c → ∀ part ∈ parts, c ∉ part := by
    intro c hc part hpart
    rcases hparts part hpart with rfl | hg
    · exact List.not_mem_nil
    · exact not_mem_group hc hg
  have hsplit : ([':'].intercalate parts).splitOn ':' = parts :=
    List.splitOn_intercalate ':' (hforeign (by decide)) (List.ne_nil_of_length_pos (by omega))
  refine tryFrom_of_nine (by rw [hsplit, hlen]) (not_mem_join (by decide) (hforeign (by decide))) ?_ e a
  refine not_blank_join fun part hpart => ?_
  rcases hparts part hpart with rfl | hg
  · intro c hc
    cases hc
  · exact hg.not_blank

/-- Where the parts have a run of zeroes the groups have one. -/
theorem groups_of_parts {before after : List Str} {n : ℕ}
    (hparts : (groups bytes).map hexGroup = before ++ (List.replicate n ['0'] ++ after)) :
    groups bytes = before.map (value 16) ++ (List.replicate n 0 ++ after.map (value 16)) := by
  have hzero : value 16 ['0'] = 0 := by decide
  rw [← map_value_parts bytes, hparts, List.map_append, List.map_append, List.map_replicate, hzero]

/-- When the first zero stands alone, it must stand between other groups. -/
theorem legible_of_one {before after : List Str} (hpair : ¬ [0, 0] <:+: groups bytes)
    (hparts : (groups bytes).map hexGroup = before ++ (List.replicate 1 ['0'] ++ after))
    (hfront : ['0'] ∉ before) :
    LegibleGroups (groups bytes) ↔ before ≠ [] ∧ after ≠ [] := by
  have hbefore : 0 ∉ before.map (value 16) := by
    intro hmem
    obtain ⟨part, hpart, hvalue⟩ := List.mem_map.mp hmem
    have hmem : part ∈ (groups bytes).map hexGroup := by
      rw [hparts]
      exact List.mem_append_left _ hpart
    obtain ⟨n, hn, rfl⟩ := List.mem_map.mp hmem
    rw [value_hexGroup (lt_of_mem_groups hn)] at hvalue
    subst hvalue
    exact hfront hpart
  have hgroups := groups_of_parts bytes hparts
  rw [List.replicate_one, List.singleton_append] at hgroups
  rw [hgroups] at hpair ⊢
  rw [legibleGroups_iff hbefore hpair, ne_eq, ne_eq, List.map_eq_nil_iff, List.map_eq_nil_iff]

/-- A zero that stands alone is no `::`: the text has eight parts if the zero
stands between other groups, and nine otherwise. -/
theorem recombined_one {P : Str → Prop} (hplain : P ([':'].intercalate ((groups bytes).map hexGroup)))
    (hnine : ∀ parts : List Str, parts.length = 9 → (∀ part ∈ parts, part = [] ∨ Group part) →
      ¬ P ([':'].intercalate parts)) {before after : List Str}
    (hparts : (groups bytes).map hexGroup = before ++ (List.replicate 1 ['0'] ++ after)) {text : Str}
    (htext : text = if some before.length = some 0 then [':'].intercalate ([] :: (groups bytes).map hexGroup)
      else if some before.length = some 7 then [':'].intercalate ((groups bytes).map hexGroup ++ [[]])
      else [':'].intercalate ((groups bytes).map hexGroup)) :
    P text ↔ before ≠ [] ∧ after ≠ [] := by
  have hlen : ((groups bytes).map hexGroup).length = 8 := by rw [List.length_map, length_groups]
  have hcount : before.length + 1 + after.length = 8 := by
    rw [hparts] at hlen
    simp only [List.length_append, List.length_replicate] at hlen
    omega
  have hnine : ∀ {extra : List Str}, extra.length = 9 →
      (∀ part ∈ extra, part = [] ∨ part ∈ (groups bytes).map hexGroup) → ¬ P ([':'].intercalate extra) :=
    fun hextra hmem => hnine _ hextra fun part hpart => (hmem part hpart).imp_right (group_parts bytes part)
  by_cases hfirst : before = []
  · subst hfirst
    rw [htext, if_pos (by rfl)]
    refine iff_of_false (hnine (by rw [List.length_cons, hlen]) fun part hpart => ?_) fun h => h.1 rfl
    exact List.mem_cons.mp hpart
  · have hne : before.length ≠ 0 := fun h => hfirst (List.length_eq_zero_iff.mp h)
    rw [htext, if_neg fun h => hne (Option.some.inj h)]
    by_cases hlast : after = []
    · subst hlast
      have hseven : before.length = 7 := by
        rw [List.length_nil] at hcount
        omega
      rw [if_pos (congrArg some hseven)]
      refine iff_of_false (hnine (by rw [List.length_append, hlen]; rfl) fun part hpart => ?_) fun h => h.2 rfl
      exact (List.mem_append.mp hpart).symm.imp_left List.mem_singleton.mp
    · have hne' : after.length ≠ 0 := fun h => hlast (List.length_eq_zero_iff.mp h)
      have hseven : before.length ≠ 7 := by omega
      rw [if_neg fun h => hseven (Option.some.inj h)]
      exact iff_of_true hplain ⟨hfirst, hlast⟩

/-- What holds of the text with a `::` and of the eight groups, and of no text
of nine parts, holds of the text of an address exactly if it is legible. -/
theorem toString_iff (hmapped : isV4MappedV6 bytes = false) {P : Str → Prop}
    (hrun : ∀ scan : Scan, scanned ((groups bytes).map hexGroup) = scan → 1 < scan.mostZeroes →
      P (scan.recombined (scan.clear ((groups bytes).map hexGroup))))
    (hplain : ¬ [0, 0] <:+: groups bytes → P ([':'].intercalate ((groups bytes).map hexGroup)))
    (hnine : ¬ [0, 0] <:+: groups bytes → ∀ parts : List Str, parts.length = 9 →
      (∀ part ∈ parts, part = [] ∨ Group part) → ¬ P ([':'].intercalate parts)) :
    P (IpAddress.v6 bytes).toString ↔ LegibleGroups (groups bytes) := by
  obtain ⟨scan, hscan⟩ : ∃ scan, scanned ((groups bytes).map hexGroup) = scan := ⟨_, rfl⟩
  have hok := hscan ▸ scanned_ok ((groups bytes).map hexGroup)
  have hlen : ((groups bytes).map hexGroup).length = 8 := by rw [List.length_map, length_groups]
  rw [toString_groups hmapped hscan]
  by_cases hmost : 1 < scan.mostZeroes
  · refine iff_of_true (hrun scan hscan hmost) (Or.inl ?_)
    obtain ⟨before, after, hparts, -⟩ := hok.found (by omega)
    obtain ⟨n, hn⟩ : ∃ n, scan.mostZeroes = 2 + n := ⟨scan.mostZeroes - 2, by omega⟩
    rw [groups_of_parts bytes hparts, hn, List.replicate_add]
    exact ⟨before.map (value 16), List.replicate n 0 ++ after.map (value 16), by simp⟩
  have hle := Nat.not_lt.mp hmost
  have hpair : ¬ [0, 0] <:+: groups bytes := fun h => hok.short hle (h.map hexGroup)
  rcases Nat.eq_zero_or_pos scan.mostZeroes with hnothing | hpos
  · -- no group is zero
    obtain ⟨hnone, hno⟩ := hok.nothing hnothing
    have hmem : 0 ∉ groups bytes := fun h => hno (List.mem_map_of_mem (f := hexGroup) h)
    rw [Scan.recombined_of_le hle hlen, hnone, if_neg (by simp), if_neg (by simp)]
    refine iff_of_true (hplain hpair) (Or.inr ⟨fun h => ?_, Or.inl fun h => ?_⟩)
    · exact hmem (List.mem_of_mem_head? h)
    · exact hmem (List.mem_of_getLast? h)
  · have hone : scan.mostZeroes = 1 := by omega
    obtain ⟨before, after, hparts, hindex, hfront⟩ := hok.found hpos
    rw [hone] at hparts
    rw [legible_of_one bytes hpair hparts (hfront hone)]
    exact recombined_one bytes (hplain hpair) (hnine hpair) hparts
      (by rw [Scan.recombined_of_le hle hlen, hindex])

/-- The eight groups, when they are not those of a mapped address. -/
theorem reads_groups (hmapped : isV4MappedV6 bytes = false) :
    Reads (.v6 bytes) ↔ LegibleGroups (groups bytes) := by
  refine toString_iff bytes hmapped (P := fun text => ∀ getaddrinfo, tryFrom getaddrinfo text = .ok (.v6 bytes))
    ?_ ?_ ?_
  · intro scan hscan hmost getaddrinfo
    obtain ⟨before, after, hparts, hindex, -⟩ := (hscan ▸ scanned_ok ((groups bytes).map hexGroup)).found (by omega)
    rw [Scan.recombined_of_lt hmost hparts hindex]
    exact tryFrom_compressed bytes hmost hparts getaddrinfo
  · exact fun _ getaddrinfo => tryFrom_full bytes getaddrinfo
  · exact fun _ parts hlen hparts h => tryFrom_nine hlen hparts ([], 0) _ (h _)

end Groups

/-! ### Mapped addresses and addresses of version 4 -/

theorem mapped_zero (octets : Vector UInt8 4) : ∀ i (_ : i < 10), (mapped octets)[i] = 0 := by
  intro i hi
  interval_cases i <;> rfl

/-- The bytes of a mapped address. -/
theorem eq_mapped {bytes : Vector UInt8 16} (h : isV4MappedV6 bytes = true) :
    bytes = mapped #v[bytes[12], bytes[13], bytes[14], bytes[15]] := by
  rw [isV4MappedV6, Bool.and_eq_true, Bool.and_eq_true, beq_iff_eq, beq_iff_eq, List.all_eq_true] at h
  obtain ⟨⟨hzero, hten⟩, heleven⟩ := h
  apply Vector.ext
  intro i hi
  by_cases hlow : i < 10
  · have hmem : bytes[i] ∈ bytes.toList.take 10 := List.mem_take_iff_getElem.mpr ⟨i, by simpa using hlow, by simp⟩
    rw [mapped_zero _ i hlow]
    exact eq_of_beq (hzero _ hmem)
  · interval_cases i
    · exact hten
    · exact heleven
    · rfl
    · rfl
    · rfl
    · rfl

theorem toString_mapped (octets : Vector UInt8 4) :
    (IpAddress.v6 (mapped octets)).toString = mappedPrefix ++ ['.'].intercalate (octets.toList.map decimal) := by
  have hdrop : (mapped octets).toList.drop 12 = octets.toList := by
    apply List.ext_getElem
    · simp
    · intro i _ hi
      have hlow : i < 4 := by simpa using hi
      rw [List.getElem_drop, Vector.getElem_toList, Vector.getElem_toList]
      interval_cases i <;> rfl
  rw [IpAddress.toString, if_pos (by rfl), hdrop]

/-- A mapped address is written as one, and begins with zeroes. -/
theorem legible_mapped (octets : Vector UInt8 4) : LegibleGroups (groups (mapped octets)) := by
  have hgroup : ∀ i : Fin 8, i.val < 5 → group (mapped octets) i = 0 := by
    intro i hi
    rw [group, mapped_zero octets _ (by omega), mapped_zero octets _ (by omega)]
    decide
  rw [groups, List.ofFn_succ, List.ofFn_succ, hgroup _ (by decide), hgroup _ (by decide)]
  exact Or.inl ⟨[], _, rfl⟩

theorem not_blank_decimals (octets : Vector UInt8 4) :
    ∀ c ∈ ['.'].intercalate (octets.toList.map decimal), isWhitespace c = false ∧ c ≠ ':' := by
  intro c hc
  rcases mem_intercalate hc with rfl | ⟨part, hpart, hc⟩
  · decide
  · obtain ⟨n, -, rfl⟩ := List.mem_map.mp hpart
    have hdigits := digits_toDigits n.toNat
    refine ⟨hdigits.not_blank (by decide) c hc, ?_⟩
    rintro rfl
    exact absurd (hdigits ':' hc) (by decide)

theorem reads_mapped (octets : Vector UInt8 4) : Reads (.v6 (mapped octets)) := by
  intro getaddrinfo
  have haccepted := Accepted.mapped (by simp) (readable_octets octets)
  rw [ofOctets_decimal] at haccepted
  rw [toString_mapped]
  refine tryFrom_of_accepted (n := 0) haccepted ?_ getaddrinfo
  rw [bracket_zero, trim_eq_self fun c hc => ?_]
  have hprefix : NotBlank mappedPrefix := by decide
  rcases List.mem_append.mp hc with hc | hc
  · exact hprefix c hc
  · exact (not_blank_decimals octets c hc).1

theorem reads_v4 (octets : Vector UInt8 4) : Reads (.v4 octets) := by
  intro getaddrinfo
  have htext := not_blank_decimals octets
  have hsplit : (['.'].intercalate (octets.toList.map decimal)).splitOn '.' = octets.toList.map decimal :=
    splitOn_numbers (by decide) (by decide) (by simp) (readable_octets octets)
  have hcount := length_splitOn '.' (['.'].intercalate (octets.toList.map decimal))
  rw [hsplit, List.length_map, Vector.length_toList] at hcount
  have hv4 : isV4 (['.'].intercalate (octets.toList.map decimal)) = true := by
    rw [isV4, Bool.and_eq_true, beq_iff_eq]
    refine ⟨by omega, ?_⟩
    rw [Bool.not_eq_true', ← Bool.not_eq_true, List.contains_iff_mem]
    exact fun hmem => (htext ':' hmem).2 rfl
  have hparse := v4BytesFromStr_ok_iff.mpr ⟨octets.toList.map decimal, rfl, by simp, readable_octets octets, rfl⟩
  unfold tryFrom
  simp only [IpAddress.toString, trim_eq_self fun c hc => (htext c hc).1, hv4, if_true, v4FromStr, hparse,
    ofOctets_decimal]
  rfl

/-- **The text of an address is read as the address exactly if the address is
legible.** -/
theorem reads_iff (a : IpAddress) : Reads a ↔ Legible a := by
  cases a with
  | v4 octets => exact iff_of_true (reads_v4 octets) trivial
  | v6 bytes =>
    cases hmapped : isV4MappedV6 bytes with
    | true =>
      rw [eq_mapped hmapped]
      exact iff_of_true (reads_mapped _) (legible_mapped _)
    | false => exact reads_groups bytes hmapped

/-- The groups are 0:1:1:1:1:1:1:1. -/
def leadingZero : Vector UInt8 16 := #v[0, 0, 0, 1, 0, 1, 0, 1, 0, 1, 0, 1, 0, 1, 0, 1]

theorem not_reads : ¬ Reads (.v6 leadingZero) := by
  intro h
  have htext : (IpAddress.v6 leadingZero).toString = ":0:1:1:1:1:1:1:1".toList := by decide +kernel
  have hread := h fun _ => .error ([], -2)
  rw [htext] at hread
  exact tryFrom_of_nine (by decide) (by decide) (by decide) _ _ hread

end Net
end ClAsync
