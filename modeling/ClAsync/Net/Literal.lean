/-
# The literals of version 6 and the texts the parser accepts

`Literal` is the grammar: eight groups, groups around one `::`, or a mapped
address of version 4. `Accepted` is what `v6` takes, by the same three shapes:
numbers with signs and zeroes in front, blanks around the groups of a
compressed address and at its ends, and numbers of version 4 with signs and
zeroes in front (`v6Plain_iff`).

The two differ on some texts either way. Seven groups beside a `::` make a
literal with eight colons, which `is_compressed_v6` does not take. The other
texts are accepted and are no literals: the `Sloppy` ones, and what is in more
than one pair of brackets.

Key definitions: `Literal`, `Accepted`, `Slip`.
Key theorems: `v6Plain_iff`, and `exact_iff`, for every text.
-/
import ClAsync.Net.Parse

namespace ClAsync
namespace Net

open Text

/-! ### The grammar -/

inductive Literal : Str → Vector UInt8 16 → Prop
  | full {gs : List Str} (hlen : gs.length = 8) (hgs : ∀ g ∈ gs, Group g) :
    Literal ([':'].intercalate gs) (ofGroups (gs.map (value 16)))
  | compressed {left right : List Str} (hlen : left.length + right.length ≤ 7)
    (hgs : ∀ g ∈ left ++ right, Group g) :
    Literal ([':'].intercalate left ++ [':', ':'] ++ [':'].intercalate right)
      (ofGroups (left.map (value 16) ++
        (List.replicate (8 - (left.length + right.length)) 0 ++ right.map (value 16))))
  | mapped (octets : Vector UInt8 4) :
    Literal (mappedPrefix ++ ['.'].intercalate (octets.toList.map decimal)) (mapped octets)

/-- The address of a text in at most one pair of brackets. -/
def Denotes (s : Str) (bytes : Vector UInt8 16) : Prop :=
  ∃ n ≤ 1, ∃ addr, s = bracket n addr ∧ Literal addr bytes

/-- The parser accepts the text exactly if it is in the grammar. -/
structure Exact (s : Str) : Prop where
  accepts : ∀ bytes, v6 s = .ok (.v6 bytes) ↔ Denotes s bytes
  rejects : (∀ bytes, ¬ Denotes s bytes) → ∃ e, v6 s = .error e

/-! ### What the parser accepts -/

inductive Accepted : Str → Vector UInt8 16 → Prop
  | full {gs : List Str} (hlen : gs.length = 8) (hgs : ∀ g ∈ gs, Readable 65535 16 g) :
    Accepted ([':'].intercalate gs) (ofGroups (gs.map (magnitude 16)))
  | compressed {first left right last : List Str} (hfirst : Edge first left.head?)
    (hlast : Edge last right.getLast?)
    (hlen : first.length + left.length + right.length + last.length ≤ 7)
    (hparts : ∀ part ∈ left ++ right, Field part) :
    Accepted ([':'].intercalate (first ++ (left ++ [] :: (right ++ last)))) (ofGroups (fields left right))
  | mapped {os : List Str} (hlen : os.length = 4) (hos : ∀ o ∈ os, Readable 255 10 o) :
    Accepted (mappedPrefix ++ ['.'].intercalate os) (Net.mapped (ofOctets (os.map (magnitude 10))))

theorem not_mem_group {c : Char} (hc : Foreign c) {g : Str} (hg : Group g) : c ∉ g :=
  not_mem_numeral hc (Nat.le_refl 16) hg.numeral

theorem not_mem_field {c : Char} (hc : Foreign c) {part : Str} (hpart : Field part) : c ∉ part := by
  refine not_mem_of_trim hc fun hmem => ?_
  rcases hpart with hg | ⟨g, htrim, -, hg⟩
  · exact not_mem_group hc hg hmem
  · rw [htrim, List.mem_cons] at hmem
    exact hmem.elim hc.2.1 (not_mem_group hc hg)

theorem not_mem_edge {c : Char} (hc : Foreign c) {edge : List Str} {next : Option Str} (h : Edge edge next) :
    ∀ part ∈ edge, c ∉ part := by
  intro part hpart
  rcases h with ⟨rfl, -⟩ | ⟨blank, rfl, hblank⟩
  · cases hpart
  · rw [List.mem_singleton.mp hpart]
    refine not_mem_of_trim hc ?_
    rw [hblank]
    exact List.not_mem_nil

/-- The pieces of a compressed address have none of the characters that tell
the forms apart. -/
theorem not_mem_pieces {c : Char} (hc : Foreign c) {first left right last : List Str}
    (hfirst : Edge first left.head?)
    (hlast : Edge last right.getLast?) (hparts : ∀ part ∈ left ++ right, Field part) :
    ∀ part ∈ first ++ (left ++ [] :: (right ++ last)), c ∉ part := by
  intro part hpart
  rw [List.mem_append, List.mem_append, List.mem_cons, List.mem_append] at hpart
  rcases hpart with h | h | rfl | h | h
  · exact not_mem_edge hc hfirst part h
  · exact not_mem_field hc (hparts part (List.mem_append_left _ h))
  · exact List.not_mem_nil
  · exact not_mem_field hc (hparts part (List.mem_append_right _ h))
  · exact not_mem_edge hc hlast part h

theorem not_mem_join {c : Char} (hc : c ≠ ':') {parts : List Str} (h : ∀ part ∈ parts, c ∉ part) :
    c ∉ [':'].intercalate parts := fun hmem =>
  (mem_intercalate hmem).elim hc fun ⟨part, hpart, hcpart⟩ => h part hpart hcpart

theorem isMappedV6_iff {addr : Str} :
    isMappedV6 addr = true ↔ ∃ rest, addr = mappedPrefix ++ rest ∧ '.' ∈ rest := by
  rw [isMappedV6, Bool.and_eq_true, List.isPrefixOf_iff_prefix, List.contains_iff_mem]
  constructor
  · rintro ⟨⟨rest, rfl⟩, hdot⟩
    exact ⟨rest, rfl, (List.mem_append.mp hdot).resolve_left (by decide)⟩
  · rintro ⟨rest, rfl, hdot⟩
    exact ⟨List.prefix_append _ _, List.mem_append_right _ hdot⟩

theorem isCompressedV6_iff {addr : Str} : isCompressedV6 addr = true ↔
    (∃ before after, before ≠ [] ∧ after ≠ [] ∧ addr.splitOn ':' = before ++ [] :: after) ∧
      (addr.splitOn ':').length ≤ 8 := by
  rw [isCompressedV6, Bool.and_eq_true, contains_iff, decide_eq_true_iff, pair_infix_iff, length_splitOn]
  exact and_congr_right fun _ => Nat.succ_le_succ_iff.symm

theorem map_mapError_ok_iff {ε ε' α β : Type} {x : Except ε α} {f : α → β} (hf : Function.Injective f) {g : ε → ε'}
    {a : α} : (x.map f).mapError g = .ok (f a) ↔ x = .ok a := by
  cases x with
  | error e => simp [Except.map, Except.mapError]
  | ok a' => simp [Except.map, Except.mapError, hf.eq_iff]

theorem splitOnce_append (c : Char) (cs rest : Str) :
    splitOnce (c :: cs) ((c :: cs) ++ rest) = some ([], rest) := by
  have hprefix : (c :: cs).isPrefixOf (c :: (cs ++ rest)) = true :=
    List.isPrefixOf_iff_prefix.mpr (List.prefix_append (c :: cs) rest)
  rw [List.cons_append, splitOnce, if_pos hprefix, ← List.cons_append, List.drop_left]

theorem parseMappedV6_ok_iff {rest : Str} {bytes : Vector UInt8 16} :
    parseMappedV6 (mappedPrefix ++ rest) = .ok (.v6 bytes) ↔
      ∃ octets, v4BytesFromStr rest = .ok octets ∧ bytes = mapped octets := by
  have hsplit : splitOnce mappedPrefix (mappedPrefix ++ rest) = some ([], rest) := splitOnce_append ':' _ rest
  simp only [parseMappedV6, hsplit]
  cases v4BytesFromStr rest with
  | error e => simp [Except.map, Except.mapError]
  | ok octets =>
    simp only [Except.map, Except.mapError, Except.ok.injEq, IpAddress.v6.injEq, exists_eq_left']
    exact eq_comm

/-- The parser after it has told the form from the colons and the dots. -/
theorem v6Plain_of_not_mapped {addr : Str} (h : isMappedV6 addr = false) {bytes : Vector UInt8 16} :
    v6Plain addr = .ok (.v6 bytes) ↔
      (if isCompressedV6 addr then uncompressV6 addr else .ok addr).bind uncompressedV6AsBytes = .ok bytes := by
  rw [v6Plain, h, if_neg Bool.false_ne_true]
  exact map_mapError_ok_iff fun _ _ => IpAddress.v6.inj

theorem accepted_of_v6Plain {addr : Str} {bytes : Vector UInt8 16} (h : v6Plain addr = .ok (.v6 bytes)) :
    Accepted addr bytes := by
  by_cases hmapped : isMappedV6 addr = true
  · obtain ⟨rest, rfl, -⟩ := isMappedV6_iff.mp hmapped
    rw [v6Plain, if_pos hmapped] at h
    have hparse : parseMappedV6 (mappedPrefix ++ rest) = .ok (.v6 bytes) := by
      cases hp : parseMappedV6 (mappedPrefix ++ rest) with
      | error e =>
        rw [hp] at h
        cases h
      | ok a =>
        rw [hp] at h
        exact congrArg Except.ok (Except.ok.inj h)
    obtain ⟨octets, hoctets, rfl⟩ := parseMappedV6_ok_iff.mp hparse
    obtain ⟨os, rfl, hlen, hos, rfl⟩ := v4BytesFromStr_ok_iff.mp hoctets
    exact .mapped hlen hos
  · rw [v6Plain_of_not_mapped (Bool.not_eq_true _ ▸ hmapped)] at h
    by_cases hcompressed : isCompressedV6 addr = true
    · rw [if_pos hcompressed] at h
      obtain ⟨⟨before, after, hbefore, hafter, hsplit⟩, hlen⟩ := isCompressedV6_iff.mp hcompressed
      obtain ⟨first, left, rfl, hfirst⟩ := exists_first_edge hbefore
      obtain ⟨right, last, rfl, hlast⟩ := exists_last_edge hafter
      rw [List.append_assoc] at hsplit
      obtain ⟨hfields, rfl⟩ := (uncompressV6_ok_iff hsplit hfirst hlast hlen).mp h
      have haddr : [':'].intercalate (first ++ (left ++ [] :: (right ++ last))) = addr := by
        rw [← hsplit]
        exact List.intercalate_splitOn ':'
      rw [hsplit] at hlen
      simp only [List.length_append, List.length_cons] at hlen
      rw [← haddr]
      exact .compressed hfirst hlast (by omega) hfields
    · rw [if_neg hcompressed] at h
      obtain ⟨gs, rfl, hlen, hgs, rfl⟩ := uncompressedV6AsBytes_ok_iff.mp h
      exact .full hlen hgs

theorem splitOn_pieces {first left right last : List Str} (hfirst : Edge first left.head?)
    (hlast : Edge last right.getLast?) (hparts : ∀ part ∈ left ++ right, Field part) :
    ([':'].intercalate (first ++ (left ++ [] :: (right ++ last)))).splitOn ':' =
      first ++ (left ++ [] :: (right ++ last)) :=
  List.splitOn_intercalate ':' (not_mem_pieces (by decide) hfirst hlast hparts) (by simp)

theorem splitOn_numbers {sep : Char} (hsep : Foreign sep) {radix : ℕ} (hradix : radix ≤ 16) {max : ℕ}
    {parts : List Str} (hne : 0 < parts.length) (h : ∀ part ∈ parts, Readable max radix part) :
    ([sep].intercalate parts).splitOn sep = parts :=
  List.splitOn_intercalate sep (fun part hpart => not_mem_numeral hsep hradix (h part hpart).1)
    (List.ne_nil_of_length_pos hne)

/-- An address of version 4 has dots. -/
theorem dot_mem {os : List Str} (hlen : os.length = 4) (hos : ∀ o ∈ os, Readable 255 10 o) :
    '.' ∈ ['.'].intercalate os := by
  have hcount := length_splitOn '.' (['.'].intercalate os)
  rw [splitOn_numbers (by decide) (by decide) (by omega) hos, hlen] at hcount
  exact List.count_pos_iff.mp (by omega)

theorem v6Plain_of_accepted {addr : Str} {bytes : Vector UInt8 16} (h : Accepted addr bytes) :
    v6Plain addr = .ok (.v6 bytes) := by
  have hunmapped : ∀ {parts : List Str}, (∀ part ∈ parts, '.' ∉ part) →
      isMappedV6 ([':'].intercalate parts) = false := by
    intro parts hparts
    rw [isMappedV6, Bool.and_eq_false_iff]
    refine Or.inr (Bool.eq_false_iff.mpr fun hdot => ?_)
    exact not_mem_join (by decide) hparts (List.contains_iff_mem.mp hdot)
  cases h with
  | full hlen hgs =>
    rename_i gs
    have hfree : ∀ {c : Char}, Foreign c → ∀ g ∈ gs, c ∉ g := fun hc g hg =>
      not_mem_numeral hc (by decide) (hgs g hg).1
    have hsplit : ([':'].intercalate gs).splitOn ':' = gs :=
      splitOn_numbers (by decide) (by decide) (by omega) hgs
    have hcompressed : ¬ isCompressedV6 ([':'].intercalate gs) = true := by
      rw [isCompressedV6_iff, hsplit]
      rintro ⟨⟨before, after, -, -, rfl⟩, -⟩
      exact (hgs [] (List.mem_append_right _ List.mem_cons_self)).1.1 rfl
    rw [v6Plain_of_not_mapped (hunmapped (hfree (by decide))), if_neg hcompressed]
    exact uncompressedV6AsBytes_ok_iff.mpr ⟨gs, rfl, hlen, hgs, rfl⟩
  | compressed hfirst hlast hlen hparts =>
    rename_i first left right last
    have hsplit := splitOn_pieces hfirst hlast hparts
    have height : (([':'].intercalate (first ++ (left ++ [] :: (right ++ last)))).splitOn ':').length ≤ 8 := by
      rw [hsplit]
      simp only [List.length_append, List.length_cons]
      omega
    have hcompressed : isCompressedV6 ([':'].intercalate (first ++ (left ++ [] :: (right ++ last)))) = true := by
      refine isCompressedV6_iff.mpr
        ⟨⟨first ++ left, right ++ last, ?_, ?_, by rw [hsplit, List.append_assoc]⟩, height⟩
      · exact List.ne_nil_of_length_pos (by rw [List.length_append]; exact hfirst.pos_first)
      · exact List.ne_nil_of_length_pos (by rw [List.length_append]; exact hlast.pos_last)
    rw [v6Plain_of_not_mapped (hunmapped (not_mem_pieces (by decide) hfirst hlast hparts)), if_pos hcompressed]
    exact (uncompressV6_ok_iff hsplit hfirst hlast height).mpr ⟨hparts, rfl⟩
  | mapped hlen hos =>
    rename_i os
    have hmapped : isMappedV6 (mappedPrefix ++ ['.'].intercalate os) = true := 
      isMappedV6_iff.mpr ⟨_, rfl, dot_mem hlen hos⟩
    have hparse := parseMappedV6_ok_iff.mpr ⟨_, v4BytesFromStr_ok_iff.mpr ⟨os, rfl, hlen, hos, rfl⟩, rfl⟩
    rw [v6Plain, if_pos hmapped, hparse]
    rfl

/-- The parser takes what is accepted, and reads it as accepted. -/
theorem v6Plain_iff {addr : Str} {bytes : Vector UInt8 16} :
    v6Plain addr = .ok (.v6 bytes) ↔ Accepted addr bytes :=
  ⟨accepted_of_v6Plain, v6Plain_of_accepted⟩

/-! ### Where they differ -/

/-- Seven groups beside a `::`. -/
inductive Sevens : Str → Prop
  | first {gs : List Str} (hlen : gs.length = 7) (hgs : ∀ g ∈ gs, Group g) :
    Sevens ([':', ':'] ++ [':'].intercalate gs)
  | last {gs : List Str} (hlen : gs.length = 7) (hgs : ∀ g ∈ gs, Group g) :
    Sevens ([':'].intercalate gs ++ [':', ':'])

/-- What the split leaves at an end of a literal: an empty part where the `::`
is at the end. -/
def edge (parts : List Str) : List Str := if parts = [] then [[]] else []

/-- What is accepted and is no literal: a sign, more than four digits, blanks,
a colon too many at an end, or zeroes in front of a decimal number. -/
inductive Sloppy : Str → Prop
  | full {gs : List Str} (hlen : gs.length = 8) (hgs : ∀ g ∈ gs, Readable 65535 16 g) (h : ∃ g ∈ gs, ¬ Group g) :
    Sloppy ([':'].intercalate gs)
  | compressed {first left right last : List Str} (hfirst : Edge first left.head?)
    (hlast : Edge last right.getLast?)
    (hlen : first.length + left.length + right.length + last.length ≤ 7)
    (hparts : ∀ part ∈ left ++ right, Field part)
    (h : (∃ part ∈ left ++ right, ¬ Group part) ∨ first ≠ edge left ∨ last ≠ edge right) :
    Sloppy ([':'].intercalate (first ++ (left ++ [] :: (right ++ last))))
  | mapped {os : List Str} (hlen : os.length = 4) (hos : ∀ o ∈ os, Readable 255 10 o)
    (h : ∃ o ∈ os, ∀ n : UInt8, o ≠ decimal n) : Sloppy (mappedPrefix ++ ['.'].intercalate os)

/-- The texts on which the parser and the grammar differ. -/
inductive Slip : Str → Prop
  | sevens {n : ℕ} {addr : Str} (hn : n ≤ 1) (h : Sevens addr) : Slip (bracket n addr)
  | sloppy {n : ℕ} {addr : Str} (hn : n ≤ 1) (h : Sloppy addr) : Slip (bracket n addr)
  | nested {n : ℕ} {addr : Str} {bytes : Vector UInt8 16} (hn : 2 ≤ n) (h : Accepted addr bytes) :
    Slip (bracket n addr)

theorem Group.not_blank {g : Str} (hg : Group g) : NotBlank g := Digits.not_blank (Nat.le_refl 16) hg.2.2

theorem trim_group {g : Str} (hg : Group g) : trim g = g := trim_eq_self hg.not_blank

theorem Group.field {g : Str} (hg : Group g) : Field g := Or.inl (by rwa [trim_group hg])

theorem Field.ne_nil {part : Str} (h : Field part) : trim part ≠ [] := (field_iff.mpr h).1.1

theorem length_edge (parts : List Str) : (edge parts).length = if parts.length = 0 then 1 else 0 := by
  unfold edge
  cases parts <;> rfl

theorem eq_nil_of_mem_edge {part : Str} {parts : List Str} (h : part ∈ edge parts) : part = [] := by
  unfold edge at h
  split at h
  · exact List.mem_singleton.mp h
  · cases h

theorem edge_first {parts : List Str} (h : ∀ g ∈ parts, Group g) : Edge (edge parts) parts.head? := by
  cases parts with
  | nil => exact Or.inr ⟨[], rfl, rfl⟩
  | cons g parts => exact Or.inl ⟨rfl, g, rfl, (h g List.mem_cons_self).field.ne_nil⟩

theorem edge_last {parts : List Str} (h : ∀ g ∈ parts, Group g) : Edge (edge parts) parts.getLast? := by
  by_cases hparts : parts = []
  · subst hparts
    exact Or.inr ⟨[], rfl, rfl⟩
  · refine Or.inl ⟨if_neg hparts, parts.getLast hparts, List.getLast?_eq_some_getLast hparts, ?_⟩
    exact (h _ (List.getLast_mem hparts)).field.ne_nil

/-- The pieces of a compressed literal. -/
theorem join_pieces (left right : List Str) : [':'].intercalate left ++ [':', ':'] ++ [':'].intercalate right =
    [':'].intercalate (edge left ++ (left ++ [] :: (right ++ edge right))) := by
  have hleft : edge left ++ left ≠ [] := by
    unfold edge
    split <;> simp [*]
  have hright : right ++ edge right ≠ [] := by
    unfold edge
    split <;> simp [*]
  have hjoinLeft : [':'].intercalate (edge left ++ left) = [':'].intercalate left := by
    unfold edge
    split
    · simp [*]
    · rfl
  have hjoinRight : [':'].intercalate (right ++ edge right) = [':'].intercalate right := by
    unfold edge
    split
    · simp [*]
    · rw [List.append_nil]
  have hmiddle : [':'].intercalate ([] :: (right ++ edge right)) = ':' :: [':'].intercalate right := by
    rw [List.intercalate_cons_of_ne_nil hright, hjoinRight]
    rfl
  rw [← List.append_assoc, intercalate_append hleft (List.cons_ne_nil _ _), hjoinLeft, hmiddle]
  simp

/-- The pieces of a text around a `::` are what the parser makes of them. -/
theorem pieces_inj {first left right last first' left' right' last' : List Str} (hfirst : Edge first left.head?)
    (hlast : Edge last right.getLast?) (hfirst' : Edge first' left'.head?)
    (hlast' : Edge last' right'.getLast?) (hparts' : ∀ part ∈ left' ++ right', Field part)
    (h : first ++ (left ++ [] :: (right ++ last)) = first' ++ (left' ++ [] :: (right' ++ last'))) :
    first = first' ∧ left = left' ∧ right = right' ∧ last = last' := by
  have hnonempty : ∀ {parts : List Str}, (∀ part ∈ parts, Field part) → [] ∉ parts.map trim := by
    intro parts hfields hmem
    obtain ⟨part, hpart, htrim⟩ := List.mem_map.mp hmem
    exact (hfields part hpart).ne_nil htrim
  have hfields' := List.forall_mem_append.mp hparts'
  have htrimmed := dropEmpty_eq hfirst hlast
  rw [h, dropEmpty_eq hfirst' hlast'] at htrimmed
  obtain ⟨hleft, -, hright⟩ :=
    (List.append_cons_inj_of_notMem (hnonempty hfields'.1) (hnonempty hfields'.2)).mp htrimmed
  have hleftLen : left.length = left'.length := by
    have hlen := congrArg List.length hleft
    rw [List.length_map, List.length_map] at hlen
    exact hlen.symm
  have hrightLen : right.length = right'.length := by
    have hlen := congrArg List.length hright
    rw [List.length_map, List.length_map] at hlen
    exact hlen.symm
  have hfirstLen : first.length = first'.length := by
    have hdrop := congrArg List.length (dropEmptyFirst_eq hfirst ([] :: (right ++ last)))
    rw [h, dropEmptyFirst_eq hfirst'] at hdrop
    have hlen := congrArg List.length h
    simp only [List.length_map, List.length_append] at hdrop hlen
    omega
  obtain ⟨hfirstEq, hrest⟩ := List.append_inj h hfirstLen
  obtain ⟨hleftEq, hrest⟩ := List.append_inj hrest hleftLen
  obtain ⟨hrightEq, hlastEq⟩ := List.append_inj (List.cons.inj hrest).2 hrightLen
  exact ⟨hfirstEq, hleftEq, hrightEq, hlastEq⟩

/-! ### Decimal numbers -/

theorem readable_decimal (n : UInt8) : Readable 255 10 (decimal n) := readable_toDigits (Nat.le_of_lt_succ n.toNat_lt)

theorem magnitude_decimal (n : UInt8) : magnitude 10 (decimal n) = n.toNat := magnitude_toDigits n.toNat

theorem readable_octets (octets : Vector UInt8 4) : ∀ o ∈ octets.toList.map decimal, Readable 255 10 o :=
  List.forall_mem_map.mpr fun n _ => readable_decimal n

theorem ofOctets_decimal (octets : Vector UInt8 4) :
    ofOctets ((octets.toList.map decimal).map (magnitude 10)) = octets := by
  apply Vector.ext
  intro i hi
  have hlen : i < (octets.toList.map (magnitude 10 ∘ decimal)).length := by simpa using hi
  rw [ofOctets, Vector.getElem_ofFn, List.map_map, List.getD_eq_getElem?_getD, List.getElem?_eq_getElem hlen,
    Option.getD_some, List.getElem_map, Function.comp,
    magnitude_decimal, UInt8.ofNat_toNat, Vector.getElem_toList]

/-! ### Literals and accepted texts -/

theorem Group.magnitude {g : Str} (hg : Group g) : magnitude 16 g = value 16 g := by
  rw [Text.magnitude, hg.unsigned]

theorem Group.readable {g : Str} (hg : Group g) : Readable 65535 16 g :=
  ⟨hg.numeral, by rw [hg.magnitude]; exact hg.value_le⟩

theorem map_value_eq {parts : List Str} (h : ∀ g ∈ parts, Group g) :
    parts.map (value 16) = parts.map fun part => Text.magnitude 16 (trim part) :=
  List.map_congr_left fun g hg => by rw [trim_group (h g hg), (h g hg).magnitude]

/-- Every literal is accepted, but for seven groups beside a `::`. -/
theorem Literal.accepted {addr : Str} {bytes : Vector UInt8 16} (h : Literal addr bytes) :
    Sevens addr ∨ Accepted addr bytes := by
  cases h with
  | full hlen hgs =>
    rename_i gs
    have hvalue : gs.map (value 16) = gs.map (Text.magnitude 16) :=
      List.map_congr_left fun g hg => (hgs g hg).magnitude.symm
    rw [hvalue]
    exact Or.inr (.full hlen fun g hg => (hgs g hg).readable)
  | compressed hlen hgs =>
    rename_i left right
    have hgroups := List.forall_mem_append.mp hgs
    by_cases hleft : left = [] ∧ right.length = 7
    · obtain ⟨rfl, hright⟩ := hleft
      exact Or.inl (.first hright hgroups.2)
    by_cases hright : right = [] ∧ left.length = 7
    · obtain ⟨rfl, hlast⟩ := hright
      rw [List.intercalate_nil, List.append_nil]
      exact Or.inl (.last hlast hgroups.1)
    rw [join_pieces, map_value_eq hgroups.1, map_value_eq hgroups.2]
    refine Or.inr (.compressed (edge_first hgroups.1) (edge_last hgroups.2) ?_ fun g hg => (hgs g hg).field)
    rw [← List.length_eq_zero_iff] at hleft hright
    rw [length_edge, length_edge]
    split <;> split <;> omega
  | mapped octets =>
    have haccepted := Accepted.mapped (by simp) (readable_octets octets)
    rw [ofOctets_decimal] at haccepted
    exact Or.inr haccepted

/-- Every accepted text is a literal, but for the sloppy ones. -/
theorem Accepted.literal {addr : Str} {bytes : Vector UInt8 16} (h : Accepted addr bytes) :
    Sloppy addr ∨ ∃ bytes', Literal addr bytes' := by
  cases h with
  | full hlen hgs =>
    rename_i gs
    by_cases hgroups : ∀ g ∈ gs, Group g
    · exact Or.inr ⟨_, .full hlen hgroups⟩
    · exact Or.inl (.full hlen hgs (by simpa only [not_forall, exists_prop] using hgroups))
  | compressed hfirst hlast hlen hparts =>
    rename_i first left right last
    by_cases hstrict : (∀ part ∈ left ++ right, Group part) ∧ first = edge left ∧ last = edge right
    · obtain ⟨hgroups, rfl, rfl⟩ := hstrict
      rw [← join_pieces]
      exact Or.inr ⟨_, .compressed (by omega) hgroups⟩
    · refine Or.inl (.compressed hfirst hlast hlen hparts ?_)
      by_contra hno
      simp only [not_or, not_exists, not_and, not_not, ne_eq] at hno
      exact hstrict hno
  | mapped hlen hos =>
    rename_i os
    by_cases hdecimal : ∀ o ∈ os, ∃ n : UInt8, o = decimal n
    · have hread : (os.map fun o => UInt8.ofNat (magnitude 10 o)).map decimal = os := by
        rw [List.map_map, List.map_congr_left (g := id) fun o ho => ?_, List.map_id]
        obtain ⟨n, rfl⟩ := hdecimal o ho
        rw [Function.comp, magnitude_decimal, UInt8.ofNat_toNat, id]
      have hliteral := Literal.mapped ⟨(os.map fun o => UInt8.ofNat (magnitude 10 o)).toArray, by simp [hlen]⟩
      rw [Vector.toList_mk, List.toList_toArray, hread] at hliteral
      exact Or.inr ⟨_, hliteral⟩
    · refine Or.inl (.mapped hlen hos ?_)
      simpa only [not_forall, not_exists, exists_prop] using hdecimal

theorem Sloppy.accepted {addr : Str} (h : Sloppy addr) : ∃ bytes, Accepted addr bytes := by
  cases h with
  | full hlen hgs h => exact ⟨_, .full hlen hgs⟩
  | compressed hfirst hlast hlen hparts h => exact ⟨_, .compressed hfirst hlast hlen hparts⟩
  | mapped hlen hos h => exact ⟨_, .mapped hlen hos⟩

theorem Sevens.literal {addr : Str} (h : Sevens addr) : ∃ bytes, Literal addr bytes := by
  cases h with
  | first hlen hgs =>
    rename_i gs
    have hliteral := @Literal.compressed [] gs (by simp [hlen]) hgs
    exact ⟨_, hliteral⟩
  | last hlen hgs =>
    rename_i gs
    have hliteral := @Literal.compressed gs [] (by simp [hlen]) (by simpa using hgs)
    rw [List.intercalate_nil, List.append_nil] at hliteral
    exact ⟨_, hliteral⟩

/-- Seven groups have no dots, and two colons more. -/
theorem Sevens.splitOn {addr : Str} (h : Sevens addr) :
    '.' ∉ addr ∧ '[' ∉ addr ∧ (addr.splitOn ':').length = 9 := by
  have hjoin : ∀ {gs : List Str}, gs.length = 7 → (∀ g ∈ gs, Group g) →
      '.' ∉ [':'].intercalate gs ∧ '[' ∉ [':'].intercalate gs ∧ ([':'].intercalate gs).count ':' = 6 := by
    intro gs hlen hgs
    have hcount := length_splitOn ':' ([':'].intercalate gs)
    rw [splitOn_numbers (by decide) (Nat.le_refl 16) (by omega) fun g hg => (hgs g hg).readable, hlen] at hcount
    exact ⟨not_mem_join (by decide) fun g hg => not_mem_group (by decide) (hgs g hg),
      not_mem_join (by decide) fun g hg => not_mem_group (by decide) (hgs g hg), by omega⟩
  cases h with
  | first hlen hgs =>
    obtain ⟨hdot, hbracket, hcount⟩ := hjoin hlen hgs
    rw [length_splitOn, List.count_append, hcount, List.mem_append, List.mem_append]
    exact ⟨fun h => h.elim (by decide) hdot, fun h => h.elim (by decide) hbracket, rfl⟩
  | last hlen hgs =>
    obtain ⟨hdot, hbracket, hcount⟩ := hjoin hlen hgs
    rw [length_splitOn, List.count_append, hcount, List.mem_append, List.mem_append]
    exact ⟨fun h => h.elim hdot (by decide), fun h => h.elim hbracket (by decide), rfl⟩

theorem Sevens.not_accepted {addr : Str} (h : Sevens addr) {bytes : Vector UInt8 16} : ¬ Accepted addr bytes := by
  obtain ⟨hdot, -, hlen⟩ := h.splitOn
  intro haccepted
  cases haccepted with
  | full hgs8 hgs =>
    rw [splitOn_numbers (by decide) (Nat.le_refl 16) (by omega) hgs] at hlen
    omega
  | compressed hfirst hlast hle hparts =>
    rw [splitOn_pieces hfirst hlast hparts] at hlen
    simp only [List.length_append, List.length_cons] at hlen
    omega
  | mapped hos4 hos => exact hdot (List.mem_append_right _ (dot_mem hos4 hos))

theorem Accepted.not_bracketed {addr : Str} {bytes : Vector UInt8 16} (h : Accepted addr bytes) :
    ¬ Bracketed addr := by
  rintro ⟨hhead, -⟩
  have hmem : '[' ∈ addr := List.mem_of_mem_head? hhead
  cases h with
  | full hlen hgs =>
    exact not_mem_join (by decide) (fun g hg => not_mem_numeral (by decide) (Nat.le_refl 16) (hgs g hg).1) hmem
  | compressed hfirst hlast hlen hparts =>
    exact not_mem_join (by decide) (not_mem_pieces (by decide) hfirst hlast hparts) hmem
  | mapped hlen hos => cases hhead

theorem Sevens.not_bracketed {addr : Str} (h : Sevens addr) : ¬ Bracketed addr := fun hb =>
  h.splitOn.2.1 (List.mem_of_mem_head? hb.1)

theorem Literal.not_bracketed {addr : Str} {bytes : Vector UInt8 16} (h : Literal addr bytes) : ¬ Bracketed addr :=
  h.accepted.elim (fun h => h.not_bracketed) fun h => h.not_bracketed

/-- What a literal looks like when it is split. -/
theorem Literal.splitOn {addr : Str} {bytes : Vector UInt8 16} (h : Literal addr bytes) :
    ('.' ∉ addr ∧ ∀ g ∈ addr.splitOn ':', Group g) ∨
      ('.' ∉ addr ∧ ∃ left right, (∀ g ∈ left ++ right, Group g) ∧
        addr.splitOn ':' = edge left ++ (left ++ [] :: (right ++ edge right))) ∨
      ∃ octets : Vector UInt8 4, addr = mappedPrefix ++ ['.'].intercalate (octets.toList.map decimal) := by
  cases h with
  | full hlen hgs =>
    rename_i gs
    refine Or.inl ⟨not_mem_join (by decide) fun g hg => not_mem_group (by decide) (hgs g hg), ?_⟩
    rw [splitOn_numbers (by decide) (Nat.le_refl 16) (by omega) fun g hg => (hgs g hg).readable]
    exact hgs
  | compressed hlen hgs =>
    rename_i left right
    have hgroups := List.forall_mem_append.mp hgs
    have hfields : ∀ part ∈ left ++ right, Field part := fun g hg => (hgs g hg).field
    rw [join_pieces]
    refine Or.inr (Or.inl ⟨?_, left, right, hgs,
      splitOn_pieces (edge_first hgroups.1) (edge_last hgroups.2) hfields⟩)
    exact not_mem_join (by decide)
      (not_mem_pieces (by decide) (edge_first hgroups.1) (edge_last hgroups.2) hfields)
  | mapped octets => exact Or.inr (Or.inr ⟨octets, rfl⟩)

theorem dot_mem_mapped (octets : Vector UInt8 4) :
    '.' ∈ mappedPrefix ++ ['.'].intercalate (octets.toList.map decimal) :=
  List.mem_append_right _ (dot_mem (by simp) (readable_octets octets))

/-- No sloppy text is a literal. -/
theorem Sloppy.not_literal {addr : Str} (h : Sloppy addr) {bytes : Vector UInt8 16} : ¬ Literal addr bytes := by
  intro hliteral
  have hsplit := hliteral.splitOn
  cases h with
  | full hlen hgs h =>
    rename_i gs
    have hdot : '.' ∉ [':'].intercalate gs :=
      not_mem_join (by decide) fun g hg => not_mem_numeral (by decide) (Nat.le_refl 16) (hgs g hg).1
    rw [splitOn_numbers (by decide) (Nat.le_refl 16) (by omega) hgs] at hsplit
    rcases hsplit with ⟨-, hgroups⟩ | ⟨-, left, right, -, hpieces⟩ | ⟨octets, heq⟩
    · obtain ⟨g, hg, hnot⟩ := h
      exact hnot (hgroups g hg)
    · have hempty : [] ∈ gs := by
        rw [hpieces]
        simp
      exact (hgs [] hempty).1.1 rfl
    · rw [heq] at hdot
      exact hdot (dot_mem_mapped octets)
  | compressed hfirst hlast hlen hparts h =>
    rename_i first left right last
    have hdot : '.' ∉ [':'].intercalate (first ++ (left ++ [] :: (right ++ last))) :=
      not_mem_join (by decide) (not_mem_pieces (by decide) hfirst hlast hparts)
    rw [splitOn_pieces hfirst hlast hparts] at hsplit
    rcases hsplit with ⟨-, hgroups⟩ | ⟨-, left', right', hgroups, hpieces⟩ | ⟨octets, heq⟩
    · exact (hgroups [] (by simp)).1 rfl
    · have hgroups' := List.forall_mem_append.mp hgroups
      obtain ⟨rfl, rfl, rfl, rfl⟩ := pieces_inj hfirst hlast (edge_first hgroups'.1) (edge_last hgroups'.2)
        (fun g hg => (hgroups g hg).field) hpieces
      rcases h with ⟨g, hg, hnot⟩ | hne | hne
      · exact hnot (hgroups g hg)
      · exact hne rfl
      · exact hne rfl
    · rw [heq] at hdot
      exact hdot (dot_mem_mapped octets)
  | mapped hlen hos h =>
    rename_i os
    rcases hsplit with ⟨hdot, -⟩ | ⟨hdot, -⟩ | ⟨octets, heq⟩
    · exact hdot (List.mem_append_right _ (dot_mem hlen hos))
    · exact hdot (List.mem_append_right _ (dot_mem hlen hos))
    · have hjoin := List.append_cancel_left heq
      have hsame : os = octets.toList.map decimal := by
        have hos' : (['.'].intercalate os).splitOn '.' = os :=
          splitOn_numbers (by decide) (by decide) (by omega) hos
        rw [← hos', hjoin]
        exact splitOn_numbers (by decide) (by decide) (by simp) (readable_octets octets)
      obtain ⟨o, ho, hnot⟩ := h
      rw [hsame] at ho
      obtain ⟨n, -, rfl⟩ := List.mem_map.mp ho
      exact hnot n rfl

/-! ### Every text -/

theorem bracket_inj {n m : ℕ} {addr addr' : Str} (haddr : ¬ Bracketed addr) (haddr' : ¬ Bracketed addr')
    (h : bracket n addr = bracket m addr') : n = m ∧ addr = addr' := by
  induction n generalizing m with
  | zero =>
    cases m with
    | zero => exact ⟨rfl, by rwa [bracket_zero, bracket_zero] at h⟩
    | succ m =>
      rw [bracket_zero, bracket_succ] at h
      exact absurd (bracketed_iff.mpr ⟨_, h⟩) haddr
  | succ n ih =>
    cases m with
    | zero =>
      rw [bracket_zero, bracket_succ] at h
      exact absurd (bracketed_iff.mpr ⟨_, h.symm⟩) haddr'
    | succ m =>
      rw [bracket_succ, bracket_succ] at h
      obtain ⟨hnm, heq⟩ := ih (List.append_cancel_right (List.cons.inj h).2)
      exact ⟨congrArg (· + 1) hnm, heq⟩

/-- The parser reads addresses of version 6 and no others. -/
theorem v6Plain_ok {addr : Str} {a : IpAddress} (h : v6Plain addr = .ok a) : ∃ bytes, a = .v6 bytes := by
  unfold v6Plain at h
  split at h
  · unfold parseMappedV6 at h
    split at h
    · cases h
    · rename_i v4Str hsplit
      cases hoctets : v4BytesFromStr v4Str with
      | error e =>
        rw [hoctets] at h
        cases h
      | ok octets =>
        rw [hoctets] at h
        exact ⟨_, (Except.ok.inj h).symm⟩
  · cases hbytes : (if isCompressedV6 addr then uncompressV6 addr else .ok addr).bind uncompressedV6AsBytes with
    | error e =>
      simp only [hbytes] at h
      cases h
    | ok bytes =>
      simp only [hbytes] at h
      exact ⟨bytes, (Except.ok.inj h).symm⟩

/-- What the parser makes of a text in brackets, and what the grammar does. -/
theorem v6_bracket_iff {n : ℕ} {addr : Str} (haddr : ¬ Bracketed addr) {bytes : Vector UInt8 16} :
    v6 (bracket n addr) = .ok (.v6 bytes) ↔ Accepted addr bytes := by
  rw [v6_bracket haddr, v6Plain_iff]

theorem denotes_bracket_iff {n : ℕ} {addr : Str} (haddr : ¬ Bracketed addr) {bytes : Vector UInt8 16} :
    Denotes (bracket n addr) bytes ↔ n ≤ 1 ∧ Literal addr bytes := by
  constructor
  · rintro ⟨m, hm, addr', heq, hliteral⟩
    obtain ⟨rfl, rfl⟩ := bracket_inj haddr hliteral.not_bracketed heq
    exact ⟨hm, hliteral⟩
  · rintro ⟨hn, hliteral⟩
    exact ⟨n, hn, addr, rfl, hliteral⟩

theorem Accepted.unique {addr : Str} {bytes bytes' : Vector UInt8 16} (h : Accepted addr bytes)
    (h' : Accepted addr bytes') : bytes = bytes' := by
  have heq := (v6Plain_of_accepted h).symm.trans (v6Plain_of_accepted h')
  exact IpAddress.v6.inj (Except.ok.inj heq)

/-- **The parser accepts exactly the grammar on the texts that are no slips,
and on these only.** -/
theorem exact_iff (s : Str) : Exact s ↔ ¬ Slip s := by
  constructor
  · intro hexact hslip
    cases hslip with
    | sevens hn h =>
      obtain ⟨bytes, hliteral⟩ := h.literal
      have hv6 := (hexact.accepts bytes).mpr ((denotes_bracket_iff h.not_bracketed).mpr ⟨hn, hliteral⟩)
      exact h.not_accepted ((v6_bracket_iff h.not_bracketed).mp hv6)
    | sloppy hn h =>
      obtain ⟨bytes, haccepted⟩ := h.accepted
      have hdenotes := (hexact.accepts bytes).mp ((v6_bracket_iff haccepted.not_bracketed).mpr haccepted)
      exact h.not_literal ((denotes_bracket_iff haccepted.not_bracketed).mp hdenotes).2
    | nested hn h =>
      rename_i bytes
      have hdenotes := (hexact.accepts bytes).mp ((v6_bracket_iff h.not_bracketed).mpr h)
      have hle := ((denotes_bracket_iff h.not_bracketed).mp hdenotes).1
      omega
  · intro hslip
    obtain ⟨n, addr, rfl, haddr⟩ := exists_bracket s
    have hsame : ∀ bytes, v6 (bracket n addr) = .ok (.v6 bytes) ↔ Denotes (bracket n addr) bytes := by
      intro bytes
      rw [v6_bracket_iff haddr, denotes_bracket_iff haddr]
      constructor
      · intro haccepted
        have hn : n ≤ 1 := by
          by_contra hn
          exact hslip (.nested (by omega) haccepted)
        rcases haccepted.literal with hsloppy | ⟨bytes', hliteral⟩
        · exact absurd (.sloppy hn hsloppy) hslip
        · rcases hliteral.accepted with hsevens | haccepted'
          · exact absurd haccepted hsevens.not_accepted
          · rw [haccepted.unique haccepted']
            exact ⟨hn, hliteral⟩
      · rintro ⟨hn, hliteral⟩
        exact hliteral.accepted.resolve_left fun hsevens => hslip (.sevens hn hsevens)
    refine ⟨hsame, fun hno => ?_⟩
    cases hv6 : v6 (bracket n addr) with
    | error e => exact ⟨e, rfl⟩
    | ok a =>
      rw [v6_bracket haddr] at hv6
      obtain ⟨bytes, rfl⟩ := v6Plain_ok hv6
      rw [← v6_bracket haddr n] at hv6
      exact absurd ((hsame bytes).mp hv6) (hno bytes)

/-- Seven groups after a `::`. -/
def sevenGroups : Str := "::2:3:4:5:6:7:8".toList

theorem exact_fails : ¬ Exact sevenGroups := by
  intro hexact
  have hsevens : Sevens sevenGroups :=
    @Sevens.first [['2'], ['3'], ['4'], ['5'], ['6'], ['7'], ['8']] rfl (by decide)
  obtain ⟨bytes, hliteral⟩ := hsevens.literal
  have hdenotes : Denotes sevenGroups bytes := ⟨0, by decide, sevenGroups, (bracket_zero _).symm, hliteral⟩
  have hv6 := (hexact.accepts bytes).mpr hdenotes
  rw [← bracket_zero sevenGroups, v6_bracket_iff hsevens.not_bracketed] at hv6
  exact hsevens.not_accepted hv6

end Net
end ClAsync
