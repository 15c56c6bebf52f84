/-
# Literals and host names

`try_from` decides by the dots and colons of a text whether it is an address
of version 4, one of version 6 or a host name, before it reads it. What the
three kinds of text are is said here without the parser: four decimal numbers
(`Quad`), the literals of version 6, which may end with such a quad, and the
names made of labels (`HostName`).

A name of four labels has as many dots as an address of version 4 and is taken
for one. Of the literals that end with a quad only those are read that begin
with `::ffff:`.

Key definitions: `Mixed`, `HostName`, `Classified`, `Misread`.
Key theorem: `classified_iff`, for every text.
-/
import ClAsync.Net.Display

namespace ClAsync
namespace Net

open Text

/-! ### The three kinds of text -/

/-- A decimal number of a byte. -/
def Octet (o : Str) : Prop := o ≠ [] ∧ Digits 10 o ∧ value 10 o ≤ 255

inductive Quad : Str → Vector UInt8 4 → Prop
  | mk {os : List Str} (hlen : os.length = 4) (hos : ∀ o ∈ os, Octet o) :
    Quad (['.'].intercalate os) (ofOctets (os.map (value 10)))

/-- The two groups that a quad stands for. -/
def quadGroups (octets : Vector UInt8 4) : List ℕ :=
  List.ofFn fun i : Fin 2 => octets[2 * i.val].toNat * 256 + octets[2 * i.val + 1].toNat

/-- A literal that ends with a quad. -/
inductive Mixed : Str → Vector UInt8 16 → Prop
  | full {gs : List Str} {quad : Str} {octets : Vector UInt8 4} (hlen : gs.length = 6)
    (hgs : ∀ g ∈ gs, Group g) (hquad : Quad quad octets) :
    Mixed ([':'].intercalate (gs ++ [quad])) (ofGroups (gs.map (value 16) ++ quadGroups octets))
  | compressed {left right : List Str} {quad : Str} {octets : Vector UInt8 4}
    (hlen : left.length + right.length ≤ 5) (hgs : ∀ g ∈ left ++ right, Group g) (hquad : Quad quad octets) :
    Mixed ([':'].intercalate left ++ [':', ':'] ++ [':'].intercalate (right ++ [quad]))
      (ofGroups (left.map (value 16) ++ (List.replicate (6 - (left.length + right.length)) 0 ++
        (right.map (value 16) ++ quadGroups octets))))

/-- A letter, a digit or a hyphen. -/
def isNameChar (c : Char) : Bool := c.isAlphanum || c == '-'

/-- The labels of a host name, not all of which are numbers. -/
structure Labels (labels : List Str) : Prop where
  ne_nil : labels ≠ []
  label : ∀ label ∈ labels, label ≠ [] ∧ ∀ c ∈ label, isNameChar c = true
  named : ∃ label ∈ labels, ∃ c ∈ label, c.isDigit = false

def HostName (s : Str) : Prop := ∃ labels, Labels labels ∧ s = ['.'].intercalate labels

/-- The first address that is found for a host name. -/
def resolved (getaddrinfo : Str → Except (Str × ℤ) (List IpAddress)) (hostname : Str) :
    Except IpParseError IpAddress :=
  match resolveHostname getaddrinfo hostname with
  | .error e => .error (.hostnameResolutionError e)
  | .ok [] => .error (.noAddressFound hostname)
  | .ok (ip :: _) => .ok ip

/-- The text without blanks at its ends is read as what it is. -/
structure Classified (getaddrinfo : Str → Except (Str × ℤ) (List IpAddress)) (s : Str) : Prop where
  v4 : ∀ octets, Quad (trim s) octets → tryFrom getaddrinfo s = .ok (.v4 octets)
  v6 : ∀ n ≤ 1, ∀ addr bytes, trim s = bracket n addr → Literal addr bytes ∨ Mixed addr bytes →
    tryFrom getaddrinfo s = .ok (.v6 bytes)
  name : HostName (trim s) → tryFrom getaddrinfo s = resolved getaddrinfo (trim s)

/-- The texts that are read as something else. -/
inductive Misread : Str → Prop
  | sevens {n : ℕ} {addr : Str} (hn : n ≤ 1) (h : Sevens addr) : Misread (bracket n addr)
  | mixed {n : ℕ} {addr : Str} {bytes : Vector UInt8 16} (hn : n ≤ 1) (h : Mixed addr bytes)
    (hmapped : ∀ quad octets, Quad quad octets → addr ≠ mappedPrefix ++ quad) : Misread (bracket n addr)
  | name {labels : List Str} (h : Labels labels) (hlen : labels.length = 4) : Misread (['.'].intercalate labels)

/-! ### Quads -/

theorem Octet.unsigned {o : Str} (h : Octet o) : unsigned o = o := unsigned_of_digits (by decide) h.2.1

theorem Octet.magnitude {o : Str} (h : Octet o) : magnitude 10 o = value 10 o := by
  rw [Text.magnitude, h.unsigned]

theorem Octet.readable {o : Str} (h : Octet o) : Readable 255 10 o := by
  refine ⟨?_, by rw [h.magnitude]; exact h.2.2⟩
  rw [Numeral, h.unsigned]
  exact ⟨h.1, h.2.1⟩

/-- A number without a sign. -/
theorem octet_of_readable {o : Str} (h : Readable 255 10 o) (hplus : '+' ∉ o) : Octet o := by
  have hunsigned : unsigned o = o := by
    cases o with
    | nil => rfl
    | cons c cs => exact unsigned_eq (fun hc => hplus (hc ▸ List.mem_cons_self)) cs
  obtain ⟨⟨hne, hdigits⟩, hle⟩ := h
  rw [Text.magnitude, hunsigned] at hle
  rw [hunsigned] at hne hdigits
  exact ⟨hne, hdigits, hle⟩

theorem Octet.not_mem {o : Str} (h : Octet o) {c : Char} (hc : Foreign c) : c ∉ o :=
  not_mem_numeral hc (by decide) h.readable.1

section Quad

variable {quad : Str} {octets : Vector UInt8 4}

theorem Quad.parse (h : Quad quad octets) : v4BytesFromStr quad = .ok octets := by
  cases h with
  | mk hlen hos =>
    rename_i os
    refine v4BytesFromStr_ok_iff.mpr ⟨os, rfl, hlen, fun o ho => (hos o ho).readable, ?_⟩
    rw [List.map_congr_left fun o ho => (hos o ho).magnitude]

/-- A quad has no colon, sign or blank. -/
theorem Quad.not_mem (h : Quad quad octets) {c : Char} (hdot : c ≠ '.') (hoctet : ∀ o, Octet o → c ∉ o) :
    c ∉ quad := by
  cases h with
  | mk hlen hos =>
    intro hc
    rcases mem_intercalate hc with heq | ⟨o, ho, hc⟩
    · exact hdot heq
    · exact hoctet o (hos o ho) hc

theorem Quad.not_colon (h : Quad quad octets) : ':' ∉ quad :=
  h.not_mem (by decide) fun _ ho => ho.not_mem (by decide)

theorem Quad.dot_mem (h : Quad quad octets) : '.' ∈ quad := by
  cases h with
  | mk hlen hos => exact Net.dot_mem hlen fun o ho => (hos o ho).readable

theorem Quad.count (h : Quad quad octets) : quad.count '.' = 3 := by
  cases h with
  | mk hlen hos =>
    rename_i os
    have hcount := length_splitOn '.' (['.'].intercalate os)
    rw [splitOn_numbers (by decide) (by decide) (by omega) fun o ho => (hos o ho).readable, hlen] at hcount
    omega

theorem Quad.ne_nil (h : Quad quad octets) : quad ≠ [] := by
  rintro rfl
  cases h.dot_mem

theorem Quad.unique {octets' : Vector UInt8 4} (h : Quad quad octets) (h' : Quad quad octets') : octets = octets' :=
  Except.ok.inj (h.parse.symm.trans h'.parse)

theorem Quad.accepted (h : Quad quad octets) : Accepted (mappedPrefix ++ quad) (mapped octets) :=
  v6Plain_iff.mp (by
    rw [v6Plain, if_pos (isMappedV6_iff.mpr ⟨quad, rfl, h.dot_mem⟩),
      parseMappedV6_ok_iff.mpr ⟨octets, h.parse, rfl⟩]
    rfl)

/-- A quad is read as an address of version 4. -/
theorem Quad.tryFrom {s : Str} (h : Quad (trim s) octets)
    (getaddrinfo : Str → Except (Str × ℤ) (List IpAddress)) : tryFrom getaddrinfo s = .ok (.v4 octets) := by
  have hv4 : isV4 (trim s) = true := by
    rw [isV4, h.count, Bool.eq_false_iff.mpr (List.contains_iff_mem.not.mpr h.not_colon)]
    rfl
  unfold Net.tryFrom
  simp only [hv4, if_true]
  rw [v4FromStr, h.parse]
  rfl

theorem splitOn_quad {front : List Str} (hfront : ∀ part ∈ front, part = [] ∨ Group part) (h : Quad quad octets) :
    ([':'].intercalate (front ++ [quad])).splitOn ':' = front ++ [quad] := by
  refine List.splitOn_intercalate ':' (fun part hpart => ?_) (by simp)
  rcases List.mem_append.mp hpart with hpart | hpart
  · rcases hfront part hpart with rfl | hg
    · exact List.not_mem_nil
    · exact not_mem_group (by decide) hg
  · rw [List.mem_singleton.mp hpart]
    exact h.not_colon

end Quad

/-! ### Literals that end with a quad -/

/-- The pieces in front of the quad. -/
theorem join_quad (left right : List Str) (quad : Str) :
    [':'].intercalate left ++ [':', ':'] ++ [':'].intercalate (right ++ [quad]) =
      [':'].intercalate (edge left ++ (left ++ [] :: right) ++ [quad]) := by
  have hedge : edge (right ++ [quad]) = [] := if_neg (by simp)
  rw [join_pieces, hedge, List.append_nil, List.append_assoc, List.append_assoc]
  rfl

theorem front_parts {left right : List Str} (hgs : ∀ g ∈ left ++ right, Group g) :
    ∀ part ∈ edge left ++ (left ++ [] :: right), part = [] ∨ Group part := by
  intro part hpart
  rw [List.mem_append, List.mem_append, List.mem_cons] at hpart
  rcases hpart with hpart | hpart | hpart | hpart
  · exact Or.inl (eq_nil_of_mem_edge hpart)
  · exact Or.inr (hgs part (List.mem_append_left _ hpart))
  · exact Or.inl hpart
  · exact Or.inr (hgs part (List.mem_append_right _ hpart))

theorem groups_mapped (octets : Vector UInt8 4) :
    groups (mapped octets) = List.replicate 5 0 ++ (65535 :: quadGroups octets) := by
  simp [groups, List.ofFn_succ, group, mapped, quadGroups]

section Mixed

variable {addr : Str} {bytes : Vector UInt8 16} (h : Mixed addr bytes)

include h

/-- The quad is the last piece; the others are groups, or empty. -/
theorem Mixed.pieces : ∃ front quad octets, Quad quad octets ∧
    (∀ part ∈ front, part = [] ∨ Group part) ∧ addr = [':'].intercalate (front ++ [quad]) := by
  cases h with
  | full hlen hgs hquad => exact ⟨_, _, _, hquad, fun g hg => Or.inr (hgs g hg), rfl⟩
  | compressed hlen hgs hquad => exact ⟨_, _, _, hquad, front_parts hgs, join_quad _ _ _⟩

/-- There are digits, colons and dots in it. -/
theorem Mixed.not_mem {c : Char} (hc : toDigit 16 c = none) (hcolon : c ≠ ':') (hdot : c ≠ '.') : c ∉ addr := by
  obtain ⟨front, quad, octets, hquad, hfront, rfl⟩ := h.pieces
  have hdigit : ∀ {radix : ℕ}, radix ≤ 16 → ∀ {part : Str}, Digits radix part → c ∉ part := by
    intro radix hradix part hpart hmem
    have hsome := hpart c hmem
    rw [toDigit] at hc hsome
    split at hc
    · cases hc
    · rw [if_neg (by omega)] at hsome
      cases hsome
  refine not_mem_join hcolon fun part hpart => ?_
  rcases List.mem_append.mp hpart with hpart | hpart
  · rcases hfront part hpart with rfl | hg
    · exact List.not_mem_nil
    · exact hdigit (Nat.le_refl 16) hg.2.2
  · rw [List.mem_singleton.mp hpart]
    exact hquad.not_mem hdot fun o ho => hdigit (by decide) ho.2.1

theorem Mixed.dot_mem : '.' ∈ addr := by
  obtain ⟨front, quad, octets, hquad, -, rfl⟩ := h.pieces
  by_cases hfront : front = []
  · rw [hfront, List.nil_append, List.intercalate_singleton]
    exact hquad.dot_mem
  · rw [intercalate_append hfront (List.cons_ne_nil _ _), List.intercalate_singleton]
    exact List.mem_append_right _ (List.mem_cons_of_mem _ hquad.dot_mem)

theorem Mixed.not_bracketed : ¬ Bracketed addr := fun hb =>
  h.not_mem (by decide) (by decide) (by decide) (List.mem_of_mem_head? hb.1)

/-- After `::ffff:` the address that is mapped. -/
theorem Mixed.eq_mapped {quad : Str} {octets : Vector UInt8 4} (hquad : Quad quad octets)
    (haddr : addr = mappedPrefix ++ quad) : bytes = mapped octets := by
  have htext : mappedPrefix ++ quad = [':'].intercalate ([[], [], "ffff".toList] ++ [quad]) := by
    rw [intercalate_append (List.cons_ne_nil _ _) (List.cons_ne_nil _ _), List.intercalate_singleton]
    rfl
  have hpieces := @splitOn_quad quad octets [[], [], "ffff".toList] (by decide) hquad
  rw [← htext] at hpieces
  cases h with
  | full hlen hgs hquad' =>
    rename_i gs quad' octets'
    rw [← haddr, splitOn_quad (fun g hg => Or.inr (hgs g hg)) hquad'] at hpieces
    have hseven := congrArg List.length hpieces
    rw [List.length_append, hlen] at hseven
    cases hseven
  | compressed hlen hgs hquad' =>
    rename_i left right quad' octets'
    rw [join_quad] at haddr
    rw [← haddr, splitOn_quad (front_parts hgs) hquad'] at hpieces
    cases left with
    | nil =>
      -- the first two pieces are empty on either side
      have htwo : [[], []] ++ (right ++ [quad']) = [[], []] ++ (["ffff".toList] ++ [quad]) := hpieces
      have hrest := List.append_cancel_left htwo
      obtain ⟨rfl, hquads⟩ := List.append_inj' hrest rfl
      rw [List.singleton_inj.mp hquads] at hquad'
      rw [hquad'.unique hquad, ← ofGroups_groups (mapped octets), groups_mapped]
      rfl
    | cons g left =>
      -- the first piece is a group
      have hfirst : g = [] := (List.cons.inj hpieces).1
      exact absurd hfirst (hgs g List.mem_cons_self).1

/-- A literal that ends with a quad is accepted only after `::ffff:`. -/
theorem Mixed.of_accepted {bytes' : Vector UInt8 16} (ha : Accepted addr bytes') :
    ∃ quad octets, Quad quad octets ∧ addr = mappedPrefix ++ quad := by
  have hdot := h.dot_mem
  cases ha with
  | full hlen hgs =>
    exact absurd hdot (not_mem_join (by decide) fun g hg => not_mem_numeral (by decide) (Nat.le_refl 16) (hgs g hg).1)
  | compressed hfirst hlast hlen hparts =>
    exact absurd hdot (not_mem_join (by decide) (not_mem_pieces (by decide) hfirst hlast hparts))
  | mapped hlen hos =>
    rename_i os
    have hplus := h.not_mem (c := '+') (by decide) (by decide) (by decide)
    refine ⟨_, _, .mk hlen fun o ho => octet_of_readable (hos o ho) fun hmem => hplus ?_, rfl⟩
    refine List.mem_append_right _ (mem_intercalate_of_mem ho hmem)

end Mixed

/-! ### Host names -/

section Labels

variable {labels : List Str} (h : Labels labels)

include h

theorem Labels.not_mem {c : Char} (hc : isNameChar c = false) : ∀ label ∈ labels, c ∉ label := by
  intro label hlabel hmem
  exact Bool.false_ne_true (hc.symm.trans ((h.label label hlabel).2 c hmem))

theorem Labels.splitOn : (['.'].intercalate labels).splitOn '.' = labels :=
  List.splitOn_intercalate '.' (h.not_mem (by decide)) h.ne_nil

theorem Labels.not_mem_join {c : Char} (hc : isNameChar c = false) (hdot : c ≠ '.') :
    c ∉ ['.'].intercalate labels := fun hmem =>
  (mem_intercalate hmem).elim hdot fun ⟨label, hlabel, hmem⟩ => h.not_mem hc label hlabel hmem

theorem Labels.not_colon : ':' ∉ ['.'].intercalate labels := h.not_mem_join (by decide) (by decide)

/-- As many dots as an address of version 4 has, if there are four labels. -/
theorem Labels.isV4_iff : isV4 (['.'].intercalate labels) = true ↔ labels.length = 4 := by
  have hcount := length_splitOn '.' (['.'].intercalate labels)
  rw [h.splitOn] at hcount
  rw [isV4, Bool.eq_false_iff.mpr (List.contains_iff_mem.not.mpr h.not_colon), Bool.and_eq_true, beq_iff_eq]
  exact ⟨fun hthree => by omega, fun hfour => ⟨by omega, rfl⟩⟩

theorem Labels.isV6_eq : isV6 (['.'].intercalate labels) = false := by
  have hcolon := h.not_colon
  have hpair : contains [':', ':'] (['.'].intercalate labels) = false := by
    rw [Bool.eq_false_iff, ne_eq, contains_iff]
    exact fun hpair => hcolon (hpair.subset List.mem_cons_self)
  have hmapped : mappedPrefix.isPrefixOf (['.'].intercalate labels) = false := by
    rw [Bool.eq_false_iff, ne_eq, List.isPrefixOf_iff_prefix]
    exact fun hstart => hcolon (hstart.subset List.mem_cons_self)
  rw [isV6, isCompressedV6, isUncompressedV6, isMappedV6, hpair, hmapped, List.count_eq_zero_of_not_mem hcolon]
  rfl

/-- One of the labels is no number. -/
theorem Labels.v4BytesFromStr_ne {octets : Vector UInt8 4} :
    v4BytesFromStr (['.'].intercalate labels) ≠ .ok octets := by
  intro hread
  obtain ⟨os, heq, hlen, hos, -⟩ := v4BytesFromStr_ok_iff.mp hread
  have hsame : os = labels := by
    rw [← h.splitOn, heq]
    exact (splitOn_numbers (by decide) (by decide) (by omega) hos).symm
  subst hsame
  obtain ⟨label, hlabel, c, hc, hdigit⟩ := h.named
  have hoctet := octet_of_readable (hos label hlabel) (h.not_mem (by decide) label hlabel)
  exact Bool.false_ne_true (hdigit.symm.trans (isDigit_of_toDigit (hoctet.2.1 c hc)))

end Labels

/-! ### Every text -/

/-- If no host name is found, an address of version 6 is read by `v6`. -/
theorem v6_of_tryFrom {s : Str} {e : Str × ℤ} {bytes : Vector UInt8 16}
    (h : tryFrom (fun _ => .error e) s = .ok (.v6 bytes)) : v6 (trim s) = .ok (.v6 bytes) := by
  obtain ⟨e', hresolve⟩ := resolveHostname_error (trim s) e
  unfold tryFrom at h
  simp only [hresolve] at h
  split at h
  · rw [v4FromStr] at h
    cases hread : v4BytesFromStr (trim s) with
    | error e' =>
      rw [hread] at h
      cases h
    | ok octets =>
      rw [hread] at h
      cases h
  · split at h
    · exact h
    · cases h

section Name

variable {labels : List Str} (h : Labels labels) {s : Str} (hs : trim s = ['.'].intercalate labels)

include h hs

theorem Labels.tryFrom_eq (hlen : labels.length ≠ 4) (getaddrinfo : Str → Except (Str × ℤ) (List IpAddress)) :
    tryFrom getaddrinfo s = resolved getaddrinfo (trim s) := by
  have hv4 : isV4 (trim s) = false := by
    rw [hs, Bool.eq_false_iff, ne_eq, h.isV4_iff]
    exact hlen
  have hv6 : isV6 (trim s) = false := hs ▸ h.isV6_eq
  unfold tryFrom
  simp only [hv4, hv6, Bool.false_eq_true, if_false]
  rfl

/-- A name of four labels is no address of version 4. -/
theorem Labels.tryFrom_ne (hlen : labels.length = 4) (getaddrinfo : Str → Except (Str × ℤ) (List IpAddress))
    (ip : IpAddress) : tryFrom getaddrinfo s ≠ .ok ip := by
  have hv4 : isV4 (trim s) = true := hs ▸ h.isV4_iff.mpr hlen
  intro hread
  unfold tryFrom at hread
  simp only [hv4, if_true, v4FromStr] at hread
  cases hbytes : v4BytesFromStr (trim s) with
  | error e =>
    rw [hbytes] at hread
    cases hread
  | ok octets => exact h.v4BytesFromStr_ne (hs ▸ hbytes)

theorem Labels.resolved_ok (ip : IpAddress) : resolved (fun _ => .ok [ip]) (trim s) = .ok ip := by
  have hnul : (trim s).contains (Char.ofNat 0) = false := by
    rw [hs, Bool.eq_false_iff, ne_eq, List.contains_iff_mem]
    exact h.not_mem_join (by decide) (by decide)
  rw [resolved, resolveHostname, hnul]
  rfl

end Name

/-- **A text is classified by what it is exactly if it is neither a name of
four labels nor one of the literals that the parser leaves out.** -/
theorem classified_iff (s : Str) : (∀ getaddrinfo, Classified getaddrinfo s) ↔ ¬ Misread (trim s) := by
  constructor
  · intro hclassified hmisread
    obtain ⟨text, hs⟩ : ∃ text, trim s = text := ⟨_, rfl⟩
    rw [hs] at hmisread
    cases hmisread with
    | sevens hn h =>
      obtain ⟨bytes, hliteral⟩ := h.literal
      have hread := (hclassified fun _ => .error ([], 0)).v6 _ hn _ bytes hs (Or.inl hliteral)
      have hv6 := v6_of_tryFrom hread
      rw [hs] at hv6
      exact h.not_accepted ((v6_bracket_iff h.not_bracketed).mp hv6)
    | mixed hn h hmapped =>
      have hread := (hclassified fun _ => .error ([], 0)).v6 _ hn _ _ hs (Or.inr h)
      have hv6 := v6_of_tryFrom hread
      rw [hs] at hv6
      obtain ⟨quad, octets, hquad, haddr⟩ := h.of_accepted ((v6_bracket_iff h.not_bracketed).mp hv6)
      exact hmapped quad octets hquad haddr
    | name h hlen =>
      have hread := (hclassified fun _ => .ok [.v4 #v[0, 0, 0, 0]]).name ⟨_, h, hs⟩
      rw [h.resolved_ok hs] at hread
      exact h.tryFrom_ne hs hlen _ _ hread
  · intro hmisread getaddrinfo
    refine ⟨fun octets hquad => hquad.tryFrom getaddrinfo, fun n hn addr bytes hs hliteral => ?_, ?_⟩
    · rw [hs] at hmisread
      refine tryFrom_of_accepted ?_ hs getaddrinfo
      rcases hliteral with hliteral | hmixed
      · exact hliteral.accepted.resolve_left fun hsevens => hmisread (.sevens hn hsevens)
      · obtain ⟨quad, octets, hquad, haddr⟩ : ∃ quad octets, Quad quad octets ∧ addr = mappedPrefix ++ quad := by
          by_contra hno
          refine hmisread (.mixed hn hmixed fun quad octets hquad haddr => hno ⟨quad, octets, hquad, haddr⟩)
        rw [hmixed.eq_mapped hquad haddr, haddr]
        exact hquad.accepted
    · rintro ⟨labels, h, hs⟩
      refine h.tryFrom_eq hs (fun hlen => hmisread ?_) getaddrinfo
      rw [hs]
      exact .name h hlen

/-- A host name of four labels. -/
def fourLabels : Str := "db.eu.example.com".toList

theorem classified_fails : ¬ ∀ getaddrinfo, Classified getaddrinfo fourLabels := by
  intro hclassified
  have hlabels : Labels ["db".toList, "eu".toList, "example".toList, "com".toList] :=
    ⟨by decide, by simp [isNameChar], _, List.mem_cons_self, 'd', List.mem_cons_self, rfl⟩
  have hs : trim fourLabels = ['.'].intercalate ["db".toList, "eu".toList, "example".toList, "com".toList] := by
    decide
  have hread := (hclassified fun _ => .ok [.v4 #v[10, 0, 0, 1]]).name ⟨_, hlabels, hs⟩
  rw [hlabels.resolved_ok hs] at hread
  exact hlabels.tryFrom_ne hs rfl _ _ hread

end Net
end ClAsync
