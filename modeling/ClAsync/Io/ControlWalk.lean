/-
# A slice that is walked

`tryParseFromSlice` believes the headers: it reads sixteen bytes at every
offset it comes to, then as many as the header announces, and advances by a
space that is cut to 32 bits. `WalksSafely` is what one wants of it on any
slice: it ends, it reads inside of the slice and where headers are aligned,
nothing wraps, and what is not a row of complete messages (`Complete`) is an
error.

A slice that is not empty has to be aligned, for it is read as headers where it
lies. `Acceptable` names the bytes that are walked safely then. Only the length
of a header is looked at before the payload is read, so a slice that ends within
a header, or within a payload whose length the type takes, is read beyond its
end. A payload of almost 4 GiB and more wraps.

Key definitions: `Reads`, `Complete`, `WalksSafely`, `Acceptable`.
Key theorem: `walksSafely_iff`.
-/
import ClAsync.Io.ControlCodec

namespace ClAsync
namespace Message

open Calls Layout

/-! ### Walking -/

/-- A slice is at most `isize::MAX` bytes long. -/
structure Slice extends Area where
  length_lt : bytes.length < 2 ^ 63

/-- `len - base_len`. -/
def Cmsghdr.dataLen (hdr : Cmsghdr) : ℕ := hdr.cmsgLen.toNat - Message.cmsgLen 0

/-- What the loop advances by. -/
def Cmsghdr.space (hdr : Cmsghdr) : ℕ := cmsgSpace (cUint hdr.dataLen)

/-- The conversion of the payload in `data`. -/
def Cmsghdr.convert (hdr : Cmsghdr) (data : List UInt8) :
    Outcome ParseControlMessageError IoControlMessageLevel :=
  IoControlMessageLevel.parse ⟨hdr.cmsgLevel, hdr.cmsgType, hdr.dataLen, data⟩

/-- The payload is read: nothing comes of it where there are no bytes. -/
def Cmsghdr.ReadsPayload (hdr : Cmsghdr) : Prop := hdr.convert [] = .undefined

/-- The message at `offset` is parsed, and the loop goes on from its header. -/
structure Advances (cmsgs : Area) (offset : ℕ) (hdr : Cmsghdr) : Prop where
  parsed : ∃ msg, tryParseSingle cmsgs (some offset) = .ok msg
  load : loadAt Cmsghdr cmsgs.bytes offset = some hdr

/-- The offsets that the loop comes to. -/
inductive Visits (cmsgs : Area) : ℕ → Prop
  | first (h : cmsgs.bytes ≠ []) : Visits cmsgs 0
  | next {offset : ℕ} {hdr : Cmsghdr} (h : Visits cmsgs offset) (hadv : Advances cmsgs offset hdr)
      (hlt : offset + hdr.space < cmsgs.bytes.length) : Visits cmsgs (offset + hdr.space)

/-- The loop reads `len` bytes from `start` on. -/
inductive Reads (cmsgs : Area) : ℕ → ℕ → Prop
  | header {offset : ℕ} (h : Visits cmsgs offset) : Reads cmsgs offset (size Cmsghdr)
  | payload {offset : ℕ} {hdr : Cmsghdr} (h : Visits cmsgs offset)
      (hload : loadAt Cmsghdr cmsgs.bytes offset = some hdr) (hge : cmsgLen 0 ≤ hdr.cmsgLen.toNat) (hread : hdr.ReadsPayload) : Reads cmsgs (cmsgData offset) hdr.dataLen

/-- A row of messages, each with its header and all of the payload that the
header announces. The padding of the last one may be missing. -/
inductive Complete : List UInt8 → Prop
  | nil : Complete []
  | cons {mem : List UInt8} {hdr : Cmsghdr} (hload : loadAt Cmsghdr mem 0 = some hdr)
      (hge : 16 ≤ hdr.cmsgLen.toNat) (hle : hdr.cmsgLen.toNat ≤ mem.length)
      (h : Complete (mem.drop ((hdr.cmsgLen.toNat + 7) / 8 * 8))) : Complete mem

/-- What one wants of the walk. A read of a header is a dereference, so it has to
be aligned, too. -/
structure WalksSafely (cmsgs : Slice) : Prop where
  terminates : tryParseFromSlice cmsgs.toArea ≠ .diverges
  inside : ∀ start len, Reads cmsgs.toArea start len → start + len ≤ cmsgs.bytes.length
  aligned : ∀ offset, Visits cmsgs.toArea offset → cmsgs.Aligned offset
  noWrap : ∀ offset hdr, Visits cmsgs.toArea offset → Advances cmsgs.toArea offset hdr →
    cUint hdr.dataLen = hdr.dataLen ∧ cmsgSpace hdr.dataLen = (hdr.dataLen + 7) / 8 * 8 + 16 ∧
      offset + hdr.space < 2 ^ 64
  rejects : ¬ Complete cmsgs.bytes → ∃ e, tryParseFromSlice cmsgs.toArea = .err e

/-- The bytes that are walked safely in an aligned slice. -/
inductive Acceptable : List UInt8 → Prop
  | nil : Acceptable []
  /-- The length is too small for a header. -/
  | short {mem : List UInt8} {hdr : Cmsghdr} (hload : loadAt Cmsghdr mem 0 = some hdr)
      (hlt : hdr.cmsgLen.toNat < 16) : Acceptable mem
  /-- The level, the type or the length is not one that is converted. -/
  | rejected {mem : List UInt8} {hdr : Cmsghdr} {e : ParseControlMessageError}
      (hload : loadAt Cmsghdr mem 0 = some hdr) (herr : ∀ data, hdr.convert data = .err e) : Acceptable mem
  /-- The message is complete and its conversion an error. -/
  | failed {mem : List UInt8} {hdr : Cmsghdr} {e : ParseControlMessageError}
      (hload : loadAt Cmsghdr mem 0 = some hdr) (hge : 16 ≤ hdr.cmsgLen.toNat)
      (hle : hdr.cmsgLen.toNat ≤ mem.length) (herr : hdr.convert (mem.drop 16) = .err e) : Acceptable mem
  /-- The conversion panics or makes an invalid value: all messages are
  complete. -/
  | stopped {mem : List UInt8} {hdr : Cmsghdr} (hload : loadAt Cmsghdr mem 0 = some hdr)
      (hstop : hdr.convert (mem.drop 16) = .panics ∨ hdr.convert (mem.drop 16) = .undefined)
      (h : Complete mem) : Acceptable mem
  /-- The message is complete, is converted and fits, and so with the rest. -/
  | parsed {mem : List UInt8} {hdr : Cmsghdr} {level : IoControlMessageLevel}
      (hload : loadAt Cmsghdr mem 0 = some hdr) (hge : 16 ≤ hdr.cmsgLen.toNat)
      (hle : hdr.cmsgLen.toNat ≤ mem.length) (hok : hdr.convert (mem.drop 16) = .ok level)
      (hfits : PayloadFits hdr.dataLen) (h : Acceptable (mem.drop ((hdr.cmsgLen.toNat + 7) / 8 * 8))) :
      Acceptable mem

/-! ### Reading a payload -/

/-- The payload is rejected whatever it is, or all `n` bytes of it are read. -/
def Retrieves {ε α : Type} (n : ℕ) (read : List UInt8 → Outcome ε α) : Prop :=
  (∃ e, ∀ data, read data = .err e) ∨ ∀ data, data.length < n → read data = .undefined

section Retrieves

variable {ε ε' α β : Type} {n : ℕ} {read : List UInt8 → Outcome ε α}

theorem Retrieves.mapErr (h : Retrieves n read) (f : ε → ε') : Retrieves n fun data => (read data).mapErr f := by
  obtain ⟨e, he⟩ | hcut := h
  · exact .inl ⟨f e, fun data => congrArg (Outcome.mapErr f) (he data)⟩
  · exact .inr fun data hlt => congrArg (Outcome.mapErr f) (hcut data hlt)

theorem Retrieves.bind (h : Retrieves n read) (f : α → Outcome ε β) : Retrieves n fun data => (read data).bind f := by
  obtain ⟨e, he⟩ | hcut := h
  · exact .inl ⟨e, fun data => congrArg (Outcome.bind · f) (he data)⟩
  · exact .inr fun data hlt => congrArg (Outcome.bind · f) (hcut data hlt)

theorem Retrieves.ite {p : Prop} [Decidable p] {read' : List UInt8 → Outcome ε α} (h : Retrieves n read)
    (h' : Retrieves n read') : Retrieves n fun data => if p then read data else read' data := by
  by_cases hp : p
  · simpa only [if_pos hp] using h
  · simpa only [if_neg hp] using h'

theorem retrieves_err {e : ε} : Retrieves n fun _ => (.err e : Outcome ε α) := .inl ⟨e, fun _ => rfl⟩

theorem retrieves_single [Plain α] {messageLevel messageType : Int32} :
    Retrieves n fun data => fromMsgInSingle α ⟨messageLevel, messageType, n, data⟩ := by
  by_cases hlen : n = size α
  · refine .inr fun data hlt => ?_
    have hload : loadAt α data 0 = none := by
      rw [loadAt, readAt, if_neg (by omega)]
      rfl
    show fromMsgInSingle α _ = _
    rw [fromMsgInSingle, if_neg (not_not.mpr hlen), hload]
    rfl
  · refine .inl ⟨⟨size α, n⟩, fun data => ?_⟩
    show fromMsgInSingle α _ = _
    rw [fromMsgInSingle, if_pos hlen]

theorem retrieves_multi [Plain α] {messageLevel messageType : Int32} {k : ℕ} :
    Retrieves n fun data => fromMsgInMulti α ⟨messageLevel, messageType, n, data⟩ k := by
  by_cases hlen : n = size α * k
  · refine .inr fun data hlt => ?_
    have hread : readAt data 0 (size α * k) = none := by rw [readAt, if_neg (by omega)]
    show fromMsgInMulti α _ k = _
    rw [fromMsgInMulti, if_neg (not_not.mpr hlen), hread]
    rfl
  · refine .inl ⟨⟨size α * k, n⟩, fun data => ?_⟩
    show fromMsgInMulti α _ k = _
    rw [fromMsgInMulti, if_pos hlen]

end Retrieves

section Levels

variable {messageLevel messageType : Int32} {n : ℕ}

theorem socket_retrieves : Retrieves n fun data => SocketLevelType.parse ⟨messageLevel, messageType, n, data⟩ := by
  simp only [SocketLevelType.parse]
  refine .ite ((retrieves_multi.mapErr _).bind _) (.ite ((retrieves_single.mapErr _).bind _) ?_)
  refine .ite ((retrieves_single.mapErr _).bind _) (.ite ((retrieves_single.mapErr _).bind _) ?_)
  exact .ite ((retrieves_multi.mapErr _).bind _) retrieves_err

theorem ipV4_retrieves : Retrieves n fun data => IpV4LevelType.parse ⟨messageLevel, messageType, n, data⟩ := by
  simp only [IpV4LevelType.parse]
  refine .ite ((retrieves_single.mapErr _).bind _) (.ite ((retrieves_single.mapErr _).bind _) ?_)
  exact .ite ((retrieves_single.mapErr _).bind _) retrieves_err

theorem ipV6_retrieves : Retrieves n fun data => IpV6LevelType.parse ⟨messageLevel, messageType, n, data⟩ := by
  simp only [IpV6LevelType.parse]
  refine .ite ((retrieves_single.mapErr _).bind _) (.ite ((retrieves_single.mapErr _).bind _) ?_)
  exact .ite ((retrieves_single.mapErr _).bind _) (.ite ((retrieves_single.mapErr _).bind _) retrieves_err)

theorem tls_retrieves : Retrieves n fun data => TlsLevelType.parse ⟨messageLevel, messageType, n, data⟩ := by
  simp only [TlsLevelType.parse]
  exact .ite ((retrieves_single.mapErr _).bind _) retrieves_err

end Levels

/-- A conversion looks at the length before it looks at the payload. -/
theorem convert_retrieves (hdr : Cmsghdr) : Retrieves hdr.dataLen hdr.convert := by
  show Retrieves hdr.dataLen fun data => hdr.convert data
  simp only [Cmsghdr.convert, IoControlMessageLevel.parse]
  refine .ite ((socket_retrieves.mapErr _).bind _) (.ite ((ipV4_retrieves.mapErr _).bind _) ?_)
  exact .ite ((ipV6_retrieves.mapErr _).bind _) (.ite ((tls_retrieves.mapErr _).bind _) retrieves_err)

/-- A payload that is not read is rejected or empty. -/
theorem rejected_of_not_reads {hdr : Cmsghdr} (hread : ¬ hdr.ReadsPayload) :
    (∃ e, ∀ data, hdr.convert data = .err e) ∨ hdr.dataLen = 0 := by
  obtain he | hcut := convert_retrieves hdr
  · exact .inl he
  · refine .inr (Nat.eq_zero_of_not_pos fun hpos => hread (hcut [] hpos))

/-! ### One round -/

section Round

variable {mem : List UInt8} {cmsgs : Area} {offset fuel : ℕ} {hdr : Cmsghdr} {parsed : List IoControlMessage}

theorem loadAt_drop (hle : offset ≤ mem.length) :
    loadAt Cmsghdr (mem.drop offset) 0 = loadAt Cmsghdr mem offset := by
  have hiff : 0 + size Cmsghdr ≤ (mem.drop offset).length ↔ offset + size Cmsghdr ≤ mem.length := by
    rw [List.length_drop]
    omega
  rw [loadAt, loadAt, readAt, readAt, if_congr hiff rfl rfl, List.drop_drop, Nat.add_zero]

/-- A header that is there is all there. -/
theorem length_of_load (hload : loadAt Cmsghdr mem offset = some hdr) : offset + 16 ≤ mem.length := by
  by_contra hlt
  rw [loadAt, readAt, size_cmsghdr, if_neg hlt] at hload
  cases hload

theorem exists_load (hle : offset + 16 ≤ mem.length) : ∃ hdr, loadAt Cmsghdr mem offset = some hdr := by
  rw [loadAt, readAt, size_cmsghdr, if_pos hle]
  exact ⟨_, rfl⟩

section Header

variable (haligned : cmsgs.Aligned offset) (hload : loadAt Cmsghdr cmsgs.bytes offset = some hdr)

include haligned hload

theorem tryParseSingle_short (hlt : hdr.cmsgLen.toNat < 16) :
    tryParseSingle cmsgs (some offset) = .err (.invalidControlMessageLength 16 hdr.cmsgLen.toNat) := by
  simp only [tryParseSingle, header_eq_ok.mpr ⟨haligned, hload⟩, Outcome.ok_bind, cmsgLen_zero, if_pos hlt]

theorem tryParseSingle_convert (hge : 16 ≤ hdr.cmsgLen.toNat) :
    tryParseSingle cmsgs (some offset) =
      (hdr.convert ((cmsgs.bytes.drop offset).drop 16)).bind fun level => .ok ⟨level⟩ := by
  have hge : ¬ hdr.cmsgLen.toNat < cmsgLen 0 := by rw [cmsgLen_zero]; omega
  rw [List.drop_drop]
  simp only [tryParseSingle, header_eq_ok.mpr ⟨haligned, hload⟩, Outcome.ok_bind, if_neg hge]
  rfl

end Header

/-- Only a message that is aligned is parsed. -/
theorem aligned_of_parsed {msg : IoControlMessage} (h : tryParseSingle cmsgs (some offset) = .ok msg) :
    cmsgs.Aligned offset := by
  obtain ⟨hdr, hhdr, -⟩ := Outcome.bind_eq_ok.mp h
  exact (header_eq_ok.mp hhdr).1

/-- The loop ends with a message that is not parsed. -/
theorem sliceLoop_stops {result : Outcome ParseControlMessageError IoControlMessage}
    (hlt : offset < cmsgs.bytes.length) (hmsg : tryParseSingle cmsgs (some offset) = result)
    (hstop : ∀ msg, result ≠ .ok msg) :
    sliceLoop cmsgs (fuel + 1) offset parsed = result.bind fun _ => .ok [] := by
  rw [sliceLoop, if_pos hlt, hmsg]
  cases result with
  | ok msg => exact absurd rfl (hstop msg)
  | _ => rfl

theorem sliceLoop_err {e : ParseControlMessageError} (hlt : offset < cmsgs.bytes.length)
    (hmsg : tryParseSingle cmsgs (some offset) = .err e) : sliceLoop cmsgs (fuel + 1) offset parsed = .err e :=
  sliceLoop_stops hlt hmsg fun _ h => by cases h

theorem space_of_fits (hfits : PayloadFits hdr.dataLen) (hge : 16 ≤ hdr.cmsgLen.toNat) :
    hdr.space = (hdr.cmsgLen.toNat + 7) / 8 * 8 := by
  have hlen : hdr.dataLen = hdr.cmsgLen.toNat - 16 := by rw [Cmsghdr.dataLen, cmsgLen_zero]
  rw [Cmsghdr.space, cUint_of_fits hfits, cmsgSpace_of_fits hfits, hlen]
  omega

/-- A payload fits when nothing of its space is cut. -/
theorem fits_iff (n : ℕ) : PayloadFits n ↔ cUint n = n ∧ cmsgSpace n = (n + 7) / 8 * 8 + 16 := by
  constructor
  · intro h
    exact ⟨cUint_of_fits h, cmsgSpace_of_fits h⟩
  · rintro ⟨hcut, hspace⟩
    simp only [cmsgSpace, cUint, cmsgAlign, size_cmsghdr] at hcut hspace
    unfold PayloadFits
    omega

theorem advances_of_convert {level : IoControlMessageLevel} (haligned : cmsgs.Aligned offset)
    (hload : loadAt Cmsghdr cmsgs.bytes offset = some hdr) (hge : 16 ≤ hdr.cmsgLen.toNat)
    (hok : hdr.convert ((cmsgs.bytes.drop offset).drop 16) = .ok level) : Advances cmsgs offset hdr :=
  ⟨⟨⟨level⟩, by rw [tryParseSingle_convert haligned hload hge, hok, Outcome.ok_bind]⟩, hload⟩

theorem Advances.convert (h : Advances cmsgs offset hdr) :
    16 ≤ hdr.cmsgLen.toNat ∧ ∃ level, hdr.convert ((cmsgs.bytes.drop offset).drop 16) = .ok level := by
  obtain ⟨⟨msg, hmsg⟩, hload⟩ := h
  have haligned := aligned_of_parsed hmsg
  have hge : 16 ≤ hdr.cmsgLen.toNat := by
    by_contra hlt
    rw [tryParseSingle_short haligned hload (by omega)] at hmsg
    cases hmsg
  rw [tryParseSingle_convert haligned hload hge, Outcome.bind_eq_ok] at hmsg
  obtain ⟨level, hok, -⟩ := hmsg
  exact ⟨hge, level, hok⟩

/-- All spaces are multiples of eight, so that the loop stays aligned. -/
theorem space_mod (hdr : Cmsghdr) : hdr.space % 8 = 0 := by
  simp only [Cmsghdr.space, cmsgSpace, cUint, cmsgAlign, size_cmsghdr]
  omega

theorem Visits.aligned (haddr : cmsgs.addr % 8 = 0) (h : Visits cmsgs offset) : cmsgs.Aligned offset := by
  induction h with
  | first => exact haddr
  | @next offset hdr _ _ _ ih =>
    have hspace := space_mod hdr
    unfold Area.Aligned at ih ⊢
    omega

end Round

/-! ### An acceptable slice is walked safely -/

section Sufficient

variable {mem : List UInt8} {cmsgs : Area} {offset fuel : ℕ} {hdr : Cmsghdr} {parsed : List IoControlMessage}

theorem not_load_nil : loadAt Cmsghdr [] 0 ≠ some hdr := fun h => by
  have := length_of_load h
  cases this

/-- What an acceptable slice that has a header is. -/
theorem Acceptable.header (h : Acceptable mem) (hload : loadAt Cmsghdr mem 0 = some hdr) :
    hdr.cmsgLen.toNat < 16 ∨ (∃ e, ∀ data, hdr.convert data = .err e) ∨
      hdr.cmsgLen.toNat ≤ mem.length ∧ ∀ level, hdr.convert (mem.drop 16) = .ok level →
        PayloadFits hdr.dataLen ∧ Acceptable (mem.drop ((hdr.cmsgLen.toNat + 7) / 8 * 8)) := by
  have hsame : ∀ {hdr'}, loadAt Cmsghdr mem 0 = some hdr' → hdr' = hdr := fun hload' =>
    Option.some.inj (hload'.symm.trans hload)
  cases h with
  | nil => exact absurd hload not_load_nil
  | short hload' hlt =>
    obtain rfl := hsame hload'
    exact .inl hlt
  | rejected hload' herr =>
    obtain rfl := hsame hload'
    exact .inr (.inl ⟨_, herr⟩)
  | failed hload' _ hle herr =>
    obtain rfl := hsame hload'
    refine .inr (.inr ⟨hle, fun level hok => ?_⟩)
    rw [herr] at hok
    cases hok
  | stopped hload' hstop hcomplete =>
    obtain rfl := hsame hload'
    have hle : ∃ hdr', loadAt Cmsghdr mem 0 = some hdr' ∧ hdr'.cmsgLen.toNat ≤ mem.length := by
      cases hcomplete with
      | nil => exact absurd hload not_load_nil
      | cons hload'' _ hle _ => exact ⟨_, hload'', hle⟩
    obtain ⟨hdr', hload'', hle⟩ := hle
    obtain rfl := hsame hload''
    refine .inr (.inr ⟨hle, fun level hok => ?_⟩)
    rw [hok] at hstop
    obtain hstop | hstop := hstop <;> cases hstop
  | parsed hload' _ hle _ hfits h =>
    obtain rfl := hsame hload'
    exact .inr (.inr ⟨hle, fun _ _ => ⟨hfits, h⟩⟩)

/-- The header is inside of the slice, and so is a payload that is read. -/
theorem Acceptable.inside (h : Acceptable mem) (hload : loadAt Cmsghdr mem 0 = some hdr)
    (hge : 16 ≤ hdr.cmsgLen.toNat) (hread : hdr.ReadsPayload) : hdr.cmsgLen.toNat ≤ mem.length := by
  obtain hlt | ⟨e, herr⟩ | ⟨hle, -⟩ := h.header hload
  · omega
  · rw [Cmsghdr.ReadsPayload, herr] at hread
    cases hread
  · exact hle

theorem Acceptable.exists_header (h : Acceptable mem) (hne : mem ≠ []) : ∃ hdr, loadAt Cmsghdr mem 0 = some hdr := by
  cases h with
  | nil => exact absurd rfl hne
  | stopped hload _ _ => exact ⟨_, hload⟩
  | _ => exact ⟨_, by assumption⟩

/-- A message that is converted fits, and what follows it is acceptable. -/
theorem Acceptable.rest {level : IoControlMessageLevel} (h : Acceptable mem)
    (hload : loadAt Cmsghdr mem 0 = some hdr) (hge : 16 ≤ hdr.cmsgLen.toNat)
    (hok : hdr.convert (mem.drop 16) = .ok level) :
    PayloadFits hdr.dataLen ∧ Acceptable (mem.drop ((hdr.cmsgLen.toNat + 7) / 8 * 8)) := by
  obtain hlt | ⟨e, herr⟩ | ⟨-, hrest⟩ := h.header hload
  · omega
  · rw [herr] at hok
    cases hok
  · exact hrest level hok

/-- What is left of the slice is acceptable wherever the loop comes to. -/
theorem Visits.acceptable (hacc : Acceptable cmsgs.bytes) (h : Visits cmsgs offset) :
    offset < cmsgs.bytes.length ∧ Acceptable (cmsgs.bytes.drop offset) := by
  induction h with
  | first hne => exact ⟨List.length_pos_of_ne_nil hne, by rwa [List.drop_zero]⟩
  | @next offset hdr h hadv hlt ih =>
    obtain ⟨hlt', hacc⟩ := ih
    obtain ⟨hge, level, hok⟩ := hadv.convert
    have hload := (loadAt_drop (Nat.le_of_lt hlt')).trans hadv.load
    obtain ⟨hfits, hrest⟩ := hacc.rest hload hge hok
    rw [List.drop_drop, ← space_of_fits hfits hge] at hrest
    exact ⟨hlt, hrest⟩

/-- A header in the rest is one of the slice, and the loop has a round for
it. -/
theorem round_of_load (hmem : mem = cmsgs.bytes.drop offset) (hload : loadAt Cmsghdr mem 0 = some hdr)
    (hfuel : cmsgs.bytes.length - offset < fuel) :
    ∃ k, fuel = k + 1 ∧ offset < cmsgs.bytes.length ∧ loadAt Cmsghdr cmsgs.bytes offset = some hdr := by
  obtain ⟨k, rfl⟩ := Nat.exists_eq_succ_of_ne_zero (Nat.ne_of_gt (Nat.zero_lt_of_lt hfuel))
  have hlen := length_of_load hload
  rw [hmem, List.length_drop] at hlen
  rw [hmem, loadAt_drop (by omega)] at hload
  exact ⟨k, rfl, by omega, hload⟩

/-- The loop over an acceptable rest ends, with an error if the rest is not a
row of complete messages. -/
theorem sliceLoop_of_acceptable (h : Acceptable mem) (haligned : cmsgs.Aligned offset)
    (hmem : mem = cmsgs.bytes.drop offset) (hfuel : cmsgs.bytes.length - offset < fuel) :
    sliceLoop cmsgs fuel offset parsed ≠ .diverges ∧
      (¬ Complete mem → ∃ e, sliceLoop cmsgs fuel offset parsed = .err e) := by
  induction h generalizing offset fuel parsed with
  | nil =>
    obtain ⟨fuel, rfl⟩ := Nat.exists_eq_succ_of_ne_zero (Nat.ne_of_gt (Nat.zero_lt_of_lt hfuel))
    have hge : cmsgs.bytes.length ≤ offset := List.drop_eq_nil_iff.mp hmem.symm
    have hend : sliceLoop cmsgs (fuel + 1) offset parsed = .ok parsed := by
      rw [sliceLoop, if_neg (by omega)]
    rw [hend]
    exact ⟨fun h => (by cases h), fun h => absurd .nil h⟩
  | short hload hlt =>
    obtain ⟨fuel, rfl, hoff, hload⟩ := round_of_load hmem hload hfuel
    rw [sliceLoop_err hoff (tryParseSingle_short haligned hload hlt)]
    exact ⟨fun h => (by cases h), fun _ => ⟨_, rfl⟩⟩
  | @rejected mem hdr e hload herr =>
    obtain ⟨fuel, rfl, hoff, hload⟩ := round_of_load hmem hload hfuel
    have hmsg : ∃ e, tryParseSingle cmsgs (some offset) = .err e := by
      by_cases hlt : hdr.cmsgLen.toNat < 16
      · exact ⟨_, tryParseSingle_short haligned hload hlt⟩
      · rw [tryParseSingle_convert haligned hload (by omega), herr]
        exact ⟨_, rfl⟩
    obtain ⟨e, hmsg⟩ := hmsg
    rw [sliceLoop_err hoff hmsg]
    exact ⟨fun h => (by cases h), fun _ => ⟨_, rfl⟩⟩
  | failed hload hge hle herr =>
    obtain ⟨fuel, rfl, hoff, hload⟩ := round_of_load hmem hload hfuel
    have hmsg := tryParseSingle_convert haligned hload hge
    rw [← hmem, herr] at hmsg
    rw [sliceLoop_err hoff hmsg]
    exact ⟨fun h => (by cases h), fun _ => ⟨_, rfl⟩⟩
  | @stopped mem hdr hload hstop hcomplete =>
    refine ⟨?_, fun h => absurd hcomplete h⟩
    obtain ⟨fuel, rfl, hoff, hload⟩ := round_of_load hmem hload hfuel
    by_cases hlt : hdr.cmsgLen.toNat < 16
    · rw [sliceLoop_err hoff (tryParseSingle_short haligned hload hlt)]
      exact fun h => by cases h
    · have hmsg := tryParseSingle_convert haligned hload (by omega)
      rw [← hmem] at hmsg
      obtain hstop | hstop := hstop
      all_goals
        rw [hstop] at hmsg
        rw [sliceLoop_stops hoff hmsg fun msg h => by cases h]
        exact fun h => by cases h
  | @parsed mem hdr level hload hge hle hok hfits hrest ih =>
    have hcomplete : Complete (mem.drop ((hdr.cmsgLen.toNat + 7) / 8 * 8)) → Complete mem :=
      fun h => .cons hload hge hle h
    obtain ⟨fuel, rfl, hoff, hload⟩ := round_of_load hmem hload hfuel
    have hmsg := tryParseSingle_convert haligned hload hge
    rw [← hmem, hok, Outcome.ok_bind] at hmsg
    have hspace := space_of_fits hfits hge
    have hround := @sliceLoop_round _ cmsgs fuel offset parsed hdr hoff hmsg
      (header_eq_ok.mpr ⟨haligned, hload⟩)
    have hnext : cmsgs.Aligned (offset + hdr.space) := by
      have hmod := space_mod hdr
      unfold Area.Aligned at haligned ⊢
      omega
    have ih := @ih (offset + hdr.space) fuel (parsed ++ [⟨level⟩]) hnext (by rw [hmem, List.drop_drop, hspace])
      (by omega)
    rw [show cmsgSpace (cUint (hdr.cmsgLen.toNat - cmsgLen 0)) = hdr.space from rfl] at hround
    rw [hround]
    exact ⟨ih.1, fun h => ih.2 fun hc => h (hcomplete hc)⟩

theorem tryParseFromSlice_eq : tryParseFromSlice cmsgs = sliceLoop cmsgs (cmsgs.bytes.length + 1) 0 [] := by
  unfold tryParseFromSlice
  by_cases hnil : cmsgs.bytes = []
  · rw [if_pos hnil, sliceLoop, if_neg (by rw [hnil]; exact Nat.not_lt_zero 0)]
  · rw [if_neg hnil]

/-- The space is less than 4 GiB. -/
theorem space_lt (hdr : Cmsghdr) : hdr.space < 2 ^ 32 := by
  rw [Cmsghdr.space, cmsgSpace, cUint]
  exact Nat.mod_lt _ (by decide)

/-- Nothing is read of an empty slice. -/
theorem walksSafely_of_nil {cmsgs : Slice} (h : cmsgs.bytes = []) : WalksSafely cmsgs := by
  have hvisits {offset : ℕ} (hv : Visits cmsgs.toArea offset) : False := by
    induction hv with
    | first hne => exact hne h
    | next _ _ _ ih => exact ih
  have hok : tryParseFromSlice cmsgs.toArea = .ok [] := if_pos h
  refine ⟨?_, fun start len hreads => ?_, fun offset hv => (hvisits hv).elim,
    fun offset hdr hv => (hvisits hv).elim, fun hc => absurd (h ▸ .nil) hc⟩
  · rw [hok]
    exact fun h => by cases h
  · cases hreads with
    | header hv => exact (hvisits hv).elim
    | payload hv => exact (hvisits hv).elim

theorem walksSafely_of_acceptable {cmsgs : Slice} (haddr : cmsgs.addr % 8 = 0) (h : Acceptable cmsgs.bytes) :
    WalksSafely cmsgs := by
  have hloop := @sliceLoop_of_acceptable cmsgs.bytes cmsgs.toArea 0 (cmsgs.bytes.length + 1) [] h haddr
    List.drop_zero.symm (by omega)
  rw [← tryParseFromSlice_eq] at hloop
  refine ⟨hloop.1, fun start len hreads => ?_, fun offset hvisits => hvisits.aligned haddr,
    fun offset hdr hvisits hadv => ?_, hloop.2⟩
  · cases hreads with
    | header hvisits =>
      obtain ⟨hlt, hacc⟩ := hvisits.acceptable h
      obtain ⟨hdr, hload⟩ := hacc.exists_header (by rwa [Ne, List.drop_eq_nil_iff, not_le])
      rw [loadAt_drop (Nat.le_of_lt hlt)] at hload
      exact length_of_load hload
    | @payload offset hdr hvisits hload hge hread =>
      obtain ⟨hlt, hacc⟩ := hvisits.acceptable h
      rw [cmsgLen_zero] at hge
      have hle := hacc.inside ((loadAt_drop (Nat.le_of_lt hlt)).trans hload) hge hread
      rw [List.length_drop] at hle
      rw [cmsgData, Cmsghdr.dataLen, cmsgLen_zero, size_cmsghdr]
      omega
  · obtain ⟨hlt, hacc⟩ := hvisits.acceptable h
    obtain ⟨hge, level, hok⟩ := hadv.convert
    have hfits := (hacc.rest ((loadAt_drop (Nat.le_of_lt hlt)).trans hadv.load) hge hok).1
    obtain ⟨hcut, hspace⟩ := (fits_iff hdr.dataLen).mp hfits
    have hlt' := space_lt hdr
    have hlen := cmsgs.length_lt
    exact ⟨hcut, hspace, by omega⟩

end Sufficient

/-! ### Only an acceptable one is -/

/-- A row of complete messages goes on after the first. -/
theorem complete_iff {mem : List UInt8} {hdr : Cmsghdr} (hload : loadAt Cmsghdr mem 0 = some hdr)
    (hge : 16 ≤ hdr.cmsgLen.toNat) (hle : hdr.cmsgLen.toNat ≤ mem.length) :
    Complete mem ↔ Complete (mem.drop ((hdr.cmsgLen.toNat + 7) / 8 * 8)) := by
  constructor
  · intro h
    cases h with
    | nil => exact absurd hload not_load_nil
    | cons hload' _ _ h =>
      obtain rfl := Option.some.inj (hload'.symm.trans hload)
      exact h
  · exact fun h => .cons hload hge hle h

/-- At every offset that the loop comes to, it has not decided yet: what comes
of the slice is what comes of the rest, which is complete if and only if the
slice is. -/
structure Undecided (cmsgs : Area) (offset : ℕ) : Prop where
  loop : ∃ fuel parsed, cmsgs.bytes.length - offset < fuel ∧
    tryParseFromSlice cmsgs = sliceLoop cmsgs fuel offset parsed
  complete : Complete cmsgs.bytes ↔ Complete (cmsgs.bytes.drop offset)

/-- A payload is rejected whatever it contains, or is inside of the slice. -/
theorem rejected_or_inside {cmsgs : Slice} (h : WalksSafely cmsgs) {offset : ℕ} {hdr : Cmsghdr}
    (hvisits : Visits cmsgs.toArea offset) (hlt : offset < cmsgs.bytes.length)
    (hload : loadAt Cmsghdr cmsgs.bytes offset = some hdr) (hge : 16 ≤ hdr.cmsgLen.toNat) :
    (∃ e, ∀ data, hdr.convert data = .err e) ∨ hdr.cmsgLen.toNat ≤ (cmsgs.bytes.drop offset).length := by
  have hlen := length_of_load ((loadAt_drop (Nat.le_of_lt hlt)).trans hload)
  have hdata : hdr.dataLen = hdr.cmsgLen.toNat - 16 := by rw [Cmsghdr.dataLen, cmsgLen_zero]
  by_cases hread : hdr.ReadsPayload
  · have hinside := h.inside _ _ (.payload hvisits hload (cmsgLen_zero.symm ▸ hge) hread)
    rw [cmsgData, size_cmsghdr] at hinside
    rw [List.length_drop]
    exact .inr (by omega)
  · exact (rejected_of_not_reads hread).imp_right fun hzero => by omega

theorem acceptable_of_visits {cmsgs : Slice} (h : WalksSafely cmsgs) {n offset : ℕ}
    (hn : cmsgs.bytes.length - offset ≤ n) (hvisits : Visits cmsgs.toArea offset) (hlt : offset < cmsgs.bytes.length)
    (hund : Undecided cmsgs.toArea offset) : Acceptable (cmsgs.bytes.drop offset) := by
  induction n generalizing offset with
  | zero => omega
  | succ n ih =>
    obtain ⟨⟨fuel, parsed, hfuel, hloop⟩, hcomplete⟩ := hund
    obtain ⟨fuel, rfl⟩ := Nat.exists_eq_succ_of_ne_zero (Nat.ne_of_gt (Nat.zero_lt_of_lt hfuel))
    obtain ⟨hdr, hload⟩ := exists_load (h.inside _ _ (.header hvisits))
    have hload' := (loadAt_drop (Nat.le_of_lt hlt)).trans hload
    have haligned := h.aligned offset hvisits
    by_cases hshort : hdr.cmsgLen.toNat < 16
    · exact .short hload' hshort
    have hge : 16 ≤ hdr.cmsgLen.toNat := by omega
    obtain ⟨e, herr⟩ | hle := rejected_or_inside h hvisits hlt hload hge
    · exact .rejected hload' herr
    have hmsg := tryParseSingle_convert haligned hload hge
    -- What is neither converted nor an error is no error of the loop either.
    have hcompletes : ∀ result, hdr.convert ((cmsgs.bytes.drop offset).drop 16) = result →
        (∀ level, result ≠ .ok level) → (∀ e, result ≠ .err e) → Complete (cmsgs.bytes.drop offset) := by
      intro result hconvert hok herr
      apply hcomplete.mp
      by_contra hc
      obtain ⟨e, he⟩ := h.rejects hc
      rw [hconvert] at hmsg
      cases result with
      | ok level => exact hok level rfl
      | err e => exact herr e rfl
      | _ =>
        rw [hloop, sliceLoop_stops hlt hmsg fun msg h => by cases h] at he
        cases he
    cases hconvert : hdr.convert ((cmsgs.bytes.drop offset).drop 16) with
    | err e => exact .failed hload' hge hle hconvert
    | ok level =>
      have hadv := advances_of_convert haligned hload hge hconvert
      obtain ⟨hcut, hspace, -⟩ := h.noWrap offset hdr hvisits hadv
      have hfits := (fits_iff hdr.dataLen).mpr ⟨hcut, hspace⟩
      refine .parsed hload' hge hle hconvert hfits ?_
      rw [hconvert, Outcome.ok_bind] at hmsg
      have hround := @sliceLoop_round _ cmsgs.toArea fuel offset parsed hdr hlt hmsg
        (header_eq_ok.mpr ⟨haligned, hload⟩)
      rw [show cmsgSpace (cUint (hdr.cmsgLen.toNat - cmsgLen 0)) = hdr.space from rfl] at hround
      rw [List.drop_drop, ← space_of_fits hfits hge]
      have hpos : 0 < hdr.space := by rw [space_of_fits hfits hge]; omega
      by_cases hend : offset + hdr.space < cmsgs.bytes.length
      · refine ih (by omega) (hvisits.next hadv hend) hend ⟨⟨fuel, _, by omega, hloop.trans hround⟩, ?_⟩
        rw [hcomplete, complete_iff hload' hge hle, List.drop_drop, space_of_fits hfits hge]
      · rw [List.drop_eq_nil_of_le (by omega)]
        exact .nil
    | panics =>
      exact .stopped hload' (.inl hconvert)
        (hcompletes _ hconvert (fun _ h => by cases h) (fun _ h => by cases h))
    | undefined =>
      exact .stopped hload' (.inr hconvert)
        (hcompletes _ hconvert (fun _ h => by cases h) (fun _ h => by cases h))
    | diverges =>
      rw [hconvert] at hmsg
      refine absurd ?_ h.terminates
      rw [hloop, sliceLoop_stops hlt hmsg fun msg h => by cases h]
      rfl

/-- **A slice is walked safely if and only if it is empty, or aligned, and
acceptable**: no header and no payload whose length is taken is cut off, and the
payloads that are converted are shorter than 4 GiB. -/
theorem walksSafely_iff (cmsgs : Slice) :
    WalksSafely cmsgs ↔ (cmsgs.bytes = [] ∨ cmsgs.addr % 8 = 0) ∧ Acceptable cmsgs.bytes := by
  by_cases hnil : cmsgs.bytes = []
  · refine iff_of_true (walksSafely_of_nil hnil) ⟨.inl hnil, ?_⟩
    rw [hnil]
    exact .nil
  rw [or_iff_right hnil]
  constructor
  · intro h
    have hund : Undecided cmsgs.toArea 0 :=
      ⟨⟨_, _, Nat.lt_succ_self _, tryParseFromSlice_eq⟩, by rw [List.drop_zero]⟩
    have hacc := acceptable_of_visits h (Nat.le_refl _) (.first hnil) (List.length_pos_of_ne_nil hnil) hund
    rw [List.drop_zero] at hacc
    exact ⟨h.aligned 0 (.first hnil), hacc⟩
  · rintro ⟨haddr, hacc⟩
    exact walksSafely_of_acceptable haddr hacc

/-- A single byte, whose header is read beyond its end, and a header that
announces a descriptor and is the end of the slice. -/
theorem not_walksSafely :
    ¬ WalksSafely ⟨⟨0, [0]⟩, by decide⟩ ∧
      ¬ WalksSafely ⟨⟨0, toBytes (⟨20, solSocket, scmRights⟩ : Cmsghdr)⟩, by decide⟩ := by
  refine ⟨fun h => ?_, fun h => ?_⟩
  · have := h.inside _ _ (.header (.first (by decide)))
    exact absurd this (by decide)
  · have := h.inside _ _ (.payload (.first (by decide)) rfl (by decide) rfl)
    exact absurd this (by decide)

end Message
end ClAsync
