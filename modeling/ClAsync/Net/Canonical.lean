/-
# The canonical text of an address

An address of version 6 has one canonical text: its groups in hexadecimal
without leading zeros, and the leftmost of the longest runs of zero groups, if
it is longer than one group, as `::`. An address that maps one of version 4 is
written as `::ffff:` and that address.

`Display` writes this text unless a zero group that stands alone is taken for
the run and stands at an end; an empty part is then added there.

Key definitions: `Canonical`, `PrintsCanonically`.
Key theorems: `scanned_best`, the loop finds the run, and
`printsCanonically_iff`, for every address.
-/
import ClAsync.Lib.Stretches
import ClAsync.Net.Display

namespace ClAsync
namespace Net

open Text Stretches

/-- The canonical text of the groups. -/
inductive Canonical (gs : List ℕ) : Str → Prop
  | plain (h : ¬ [0, 0] <:+: gs) : Canonical gs ([':'].intercalate (gs.map (Nat.toDigits 16)))
  | compressed {before after : List ℕ} {n : ℕ} (hn : 2 ≤ n) (h : Longest 0 gs before n after) :
    Canonical gs ([':'].intercalate (before.map (Nat.toDigits 16)) ++ [':', ':'] ++
      [':'].intercalate (after.map (Nat.toDigits 16)))

/-- `Display` writes the canonical text. -/
structure PrintsCanonically (bytes : Vector UInt8 16) : Prop where
  quad : ∀ octets, bytes = mapped octets →
    (IpAddress.v6 bytes).toString = mappedPrefix ++ ['.'].intercalate (octets.toList.map decimal)
  groups : (∀ octets, bytes ≠ mapped octets) → Canonical (groups bytes) (IpAddress.v6 bytes).toString

/-! ### Groups -/

theorem digitChar_ne_zero : ∀ d < 16, d ≠ 0 → Nat.digitChar d ≠ '0' := by decide

theorem stripZeroes_cons {c : Char} {cs : Str} (h : c ≠ '0') : stripZeroes (c :: cs) = c :: cs := by
  rw [stripZeroes]
  rintro c' cs' heq
  exact absurd (List.cons.inj heq).1 h

theorem stripZeroes_singleton (c : Char) : stripZeroes [c] = [c] := by
  rw [stripZeroes]
  rintro c' cs' heq
  cases (List.cons.inj heq).2

theorem toDigits_concat {n : ℕ} (h : 16 ≤ n) :
    Nat.toDigits 16 n = Nat.toDigits 16 (n / 16) ++ [Nat.digitChar (n % 16)] :=
  Nat.toDigits_of_base_le (by decide) h

/-- `compress_v6` writes a group in hexadecimal without leading zeros. -/
theorem hexGroup_eq {n : ℕ} (h : n < 65536) : hexGroup n = Nat.toDigits 16 n := by
  have hzero : Nat.digitChar 0 = '0' := rfl
  rw [hexGroup, hex4]
  -- by the number of digits
  rcases Nat.lt_or_ge n 16 with h1 | h1
  · have h3 : n / 4096 % 16 = 0 := by omega
    have h2 : n / 256 % 16 = 0 := by omega
    have h1 : n / 16 % 16 = 0 := by omega
    have h0 : n % 16 = n := by omega
    rw [h3, h2, h1, h0, hzero, Nat.toDigits_of_lt_base (by omega)]
    exact stripZeroes_singleton _
  rw [toDigits_concat h1]
  rcases Nat.lt_or_ge n 256 with h2 | h2
  · have h3 : n / 4096 % 16 = 0 := by omega
    have h2 : n / 256 % 16 = 0 := by omega
    have h1 : n / 16 % 16 = n / 16 := by omega
    rw [h3, h2, h1, hzero, Nat.toDigits_of_lt_base (by omega)]
    exact stripZeroes_cons (digitChar_ne_zero _ (by omega) (by omega))
  rw [toDigits_concat (by omega), Nat.div_div_eq_div_mul]
  rcases Nat.lt_or_ge n 4096 with h3 | h3
  · have h3 : n / 4096 % 16 = 0 := by omega
    have h2 : n / 256 % 16 = n / 256 := by omega
    rw [h3, h2, hzero, Nat.toDigits_of_lt_base (by omega)]
    exact stripZeroes_cons (digitChar_ne_zero _ (by omega) (by omega))
  · have h4 : n / 4096 % 16 = n / 4096 := by omega
    rw [toDigits_concat (by omega), Nat.div_div_eq_div_mul, h4, Nat.toDigits_of_lt_base (by omega)]
    exact stripZeroes_cons (digitChar_ne_zero _ (by omega) (by omega))

theorem map_hexGroup {gs : List ℕ} (h : ∀ n ∈ gs, n < 65536) : gs.map hexGroup = gs.map (Nat.toDigits 16) :=
  List.map_congr_left fun n hn => hexGroup_eq (h n hn)

/-! ### The run that is found -/

/-- The loop has found the leftmost of the longest runs of zeroes. -/
structure Scan.Best (parts : List Str) (scan : Scan) : Prop where
  nothing : scan.mostZeroes = 0 → ['0'] ∉ parts
  found : 0 < scan.mostZeroes → ∃ before after, scan.doubleColonIndex = some before.length ∧
    Longest ['0'] parts before scan.mostZeroes after

theorem Scan.Best.le {parts : List Str} {scan : Scan} (h : scan.Best parts) {m : ℕ}
    (hm : List.replicate m ['0'] <:+: parts) : m ≤ scan.mostZeroes := by
  rcases Nat.eq_zero_or_pos scan.mostZeroes with hnothing | hpos
  · cases m with
    | zero => exact Nat.zero_le _
    | succ m => exact absurd (hm.subset List.mem_cons_self) (h.nothing hnothing)
  · obtain ⟨before, after, -, hlongest⟩ := h.found hpos
    exact hlongest.longest m hm

theorem Scan.Best.part {parts : List Str} {scan : Scan} (hok : scan.Ok parts) (h : scan.Best parts) (part : Str) :
    (scan.part part).Best (parts ++ [part]) := by
  obtain ⟨before, hend, hlast⟩ := hok.zeroCount
  obtain ⟨-, hi⟩ := hok.lastRun hend
  unfold Scan.part
  by_cases hpart : part = ['0']
  · rw [if_pos hpart, hpart]
    by_cases hmost : scan.zeroCount + 1 > scan.mostZeroes
    · rw [if_pos hmost]
      refine ⟨fun hzero => absurd hzero (Nat.succ_ne_zero _), fun _ => ⟨before, [], ?_, ?_⟩⟩
      · have hindex : scan.i + 1 - (scan.zeroCount + 1) = before.length := by omega
        exact congrArg some hindex
      · exact Longest.concat_longer hend hlast fun m hm => by
          have hle := h.le hm
          omega
    · rw [if_neg hmost]
      refine ⟨fun hzero => ?_, fun hpos => ?_⟩
      · dsimp only at hzero
        omega
      · obtain ⟨front, back, hindex, hlongest⟩ := h.found hpos
        exact ⟨front, back ++ [['0']], hindex, hlongest.concat_shorter hend hlast (Nat.not_lt.mp hmost)⟩
  · rw [if_neg hpart]
    refine ⟨fun hzero hmem => ?_, fun hpos => ?_⟩
    · rcases List.mem_append.mp hmem with hmem | hmem
      · exact h.nothing hzero hmem
      · exact hpart (List.mem_singleton.mp hmem).symm
    · obtain ⟨front, back, hindex, hlongest⟩ := h.found hpos
      exact ⟨front, back ++ [part], hindex, hlongest.concat_other hpos hpart⟩

theorem scanned_best (parts : List Str) : (scanned parts).Best parts := by
  induction parts using List.reverseRecOn with
  | nil => exact ⟨fun _ => List.not_mem_nil, fun hpos => absurd hpos (Nat.lt_irrefl 0)⟩
  | append_singleton parts part ih =>
    rw [scanned_concat]
    exact ih.part (scanned_ok parts) part

/-! ### Every address -/

/-- Without two zeroes side by side there is only the plain text. -/
theorem canonical_iff_plain {gs : List ℕ} (h : ¬ [0, 0] <:+: gs) {text : Str} :
    Canonical gs text ↔ text = [':'].intercalate (gs.map (Nat.toDigits 16)) := by
  constructor
  · intro hcanonical
    cases hcanonical with
    | plain => rfl
    | compressed hn hlongest =>
      refine absurd ?_ h
      obtain ⟨n, rfl⟩ := Nat.exists_eq_add_of_le hn
      rw [hlongest.eq, List.replicate_add]
      exact ⟨_, List.replicate n 0 ++ _, by simp; rfl⟩
  · rintro rfl
    exact .plain h

section Groups

variable {bytes : Vector UInt8 16}

/-- Nine parts are more than the plain text has. -/
theorem nine_ne_plain {parts : List Str} (hlen : parts.length = 9) (hparts : ∀ part ∈ parts, part = [] ∨ Group part) :
    [':'].intercalate parts ≠ [':'].intercalate ((groups bytes).map hexGroup) := by
  intro heq
  have hforeign : Foreign ':' := by decide
  have hnine : ([':'].intercalate parts).splitOn ':' = parts := by
    refine List.splitOn_intercalate ':' (fun part hpart => ?_) (List.ne_nil_of_length_pos (by omega))
    rcases hparts part hpart with rfl | hg
    · exact List.not_mem_nil
    · exact not_mem_group hforeign hg
  have height : ((groups bytes).map hexGroup).length = 8 := by rw [List.length_map, length_groups]
  have hplain : ([':'].intercalate ((groups bytes).map hexGroup)).splitOn ':' = (groups bytes).map hexGroup :=
    List.splitOn_intercalate ':' (fun part hpart => not_mem_group hforeign (group_parts bytes part hpart))
      (List.ne_nil_of_length_pos (by omega))
  rw [heq, hplain] at hnine
  have hlength := congrArg List.length hnine
  omega

/-- The text with a `::` is canonical. -/
theorem canonical_compressed {scan : Scan} (hscan : scanned ((groups bytes).map hexGroup) = scan)
    (hmost : 1 < scan.mostZeroes) :
    Canonical (groups bytes) (scan.recombined (scan.clear ((groups bytes).map hexGroup))) := by
  obtain ⟨front, back, hindex, hlongest⟩ := (hscan ▸ scanned_best ((groups bytes).map hexGroup)).found (by omega)
  rw [Scan.recombined_of_lt hmost hlongest.eq hindex, ← join_pieces]
  have hinj : ∀ n ∈ groups bytes, hexGroup n = hexGroup 0 → n = 0 := fun n hn heq => by
    rw [← value_hexGroup (lt_of_mem_groups hn), heq]
    rfl
  obtain ⟨before, after, rfl, rfl, hbest⟩ := Longest.of_map hinj hlongest
  have hlt : ∀ n ∈ before ++ after, n < 65536 := fun n hn => by
    apply @lt_of_mem_groups bytes
    rw [hbest.eq]
    simp only [List.mem_append] at hn ⊢
    exact hn.imp_right Or.inr
  rw [map_hexGroup fun n hn => hlt n (List.mem_append_left _ hn),
    map_hexGroup fun n hn => hlt n (List.mem_append_right _ hn)]
  exact .compressed hmost hbest

theorem ne_mapped (hmapped : isV4MappedV6 bytes = false) (octets : Vector UInt8 4) : bytes ≠ mapped octets := by
  rintro rfl
  cases hmapped

theorem canonical_groups (hmapped : isV4MappedV6 bytes = false) :
    Canonical (groups bytes) (IpAddress.v6 bytes).toString ↔ LegibleGroups (groups bytes) := by
  have hhex := map_hexGroup fun n hn => @lt_of_mem_groups bytes n hn
  refine toString_iff bytes hmapped ?_ ?_ ?_
  · exact fun scan hscan hmost => canonical_compressed hscan hmost
  · exact fun hpair => (canonical_iff_plain hpair).mpr (by rw [hhex])
  · intro hpair parts hlen hparts hcanonical
    rw [canonical_iff_plain hpair, ← hhex] at hcanonical
    exact nine_ne_plain hlen hparts hcanonical

end Groups

/-- **`Display` writes the canonical text of an address of version 6 if and
only if the address is legible.** -/
theorem printsCanonically_iff (bytes : Vector UInt8 16) :
    PrintsCanonically bytes ↔ LegibleGroups (groups bytes) := by
  cases hmapped : isV4MappedV6 bytes with
  | true =>
    have hbytes := eq_mapped hmapped
    refine iff_of_true ⟨?_, fun hno => absurd hbytes (hno _)⟩ (hbytes ▸ legible_mapped _)
    rintro octets rfl
    exact toString_mapped octets
  | false =>
    have hno := ne_mapped hmapped
    rw [← canonical_groups hmapped]
    exact ⟨fun h => h.groups hno, fun h => ⟨fun octets heq => absurd heq (hno octets), fun _ => h⟩⟩

/-- 0:1:1:1:1:1:1:1 is written with a colon in front. -/
theorem not_printsCanonically : ¬ PrintsCanonically leadingZero :=
  fun h => absurd ((canonical_groups rfl).mp (h.groups (ne_mapped rfl))) (by decide)

end Net
end ClAsync
