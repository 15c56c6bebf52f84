/-
# Control messages written and read back

What `tryPrepareMulti` writes is a row of blocks (`Row`): a header, the
payload and padding of any content. Both readers find the blocks where the
writer put them, since all three compute the same space for the same payload,
and both return the messages up to the losses of the format (`Agrees`). This
takes payloads whose space fits a `c_uint`, and bytes that lie at a multiple of
eight: all the spaces are multiples, so that every header is aligned.

Key definitions: `Row`, `Sends`, `RoundTrips`.
Key theorem: `roundTrips_of_sends`.
-/
import ClAsync.Io.ControlBuffer
import ClAsync.Io.ControlLosses
import Mathlib.Data.List.Forall2

namespace ClAsync
namespace Message

open Calls Layout

/-! ### The macros on payloads that fit -/

@[simp] theorem size_cmsghdr : size Cmsghdr = 16 := rfl

@[simp] theorem cmsgLen_zero : cmsgLen 0 = 16 := by decide

/-- The space of the payload is a `c_uint`. -/
def PayloadFits (length : ℕ) : Prop := length ≤ 2 ^ 32 - 24

theorem cUint_of_fits {length : ℕ} (h : PayloadFits length) : cUint length = length := by
  unfold PayloadFits at h
  unfold cUint
  omega

theorem cmsgLen_of_fits {length : ℕ} (h : PayloadFits length) : cmsgLen length = 16 + length := by
  unfold PayloadFits at h
  simp only [cmsgLen, cUint, cmsgAlign, size_cmsghdr]
  omega

theorem cmsgSpace_of_fits {length : ℕ} (h : PayloadFits length) :
    cmsgSpace length = (length + 7) / 8 * 8 + 16 := by
  unfold PayloadFits at h
  simp only [cmsgSpace, cUint, cmsgAlign, size_cmsghdr]
  omega

/-- The next header is where the space of this message ends. -/
theorem cmsgAlign_of_fits {length : ℕ} (h : PayloadFits length) :
    cmsgAlign (16 + length) = cmsgSpace length := by
  rw [cmsgSpace_of_fits h]
  unfold PayloadFits at h
  unfold cmsgAlign
  omega

theorem header_cmsgLen (raw : RawControlMessageOut) :
    raw.header.cmsgLen.toNat = cmsgLen (cUint raw.payload.length) := by
  have hlt : cmsgLen (cUint raw.payload.length) < 2 ^ 64 := by
    simp only [cmsgLen, cUint, cmsgAlign, size_cmsghdr]
    omega
  rw [RawControlMessageOut.header, UInt64.toNat_ofNat', Nat.mod_eq_of_lt hlt]

theorem header_cmsgLen_of_fits {raw : RawControlMessageOut} (h : PayloadFits raw.payload.length) :
    raw.header.cmsgLen.toNat = 16 + raw.payload.length := by
  rw [header_cmsgLen, cUint_of_fits h, cmsgLen_of_fits h]

/-! ### Rows of blocks -/

/-- The bytes are the prepared messages, one after the other, each with its
header and padded to its space. -/
inductive Row : List RawControlMessageOut → List UInt8 → Prop
  | nil : Row [] []
  | cons {raw : RawControlMessageOut} {raws : List RawControlMessageOut} {pad bytes : List UInt8}
      (hpad : 16 + raw.payload.length + pad.length = cmsgSpace raw.payload.length) (h : Row raws bytes) :
      Row (raw :: raws) (toBytes raw.header ++ (raw.payload ++ (pad ++ bytes)))

/-- A prepared message and its space. -/
def withSpace (raw : RawControlMessageOut) : RawControlMessageOut × ℕ :=
  (raw, cmsgSpace (cUint raw.payload.length))

section Writing

variable {ε : Type}

/-- Three pieces of given lengths at the front of a list. -/
theorem exists_pieces {bytes : List UInt8} {a b c : ℕ} (h : a + b + c ≤ bytes.length) :
    ∃ x y z rest : List UInt8, bytes = x ++ (y ++ (z ++ rest)) ∧ x.length = a ∧ y.length = b ∧ z.length = c := by
  refine ⟨bytes.take a, (bytes.drop a).take b, ((bytes.drop a).drop b).take c, ((bytes.drop a).drop b).drop c,
    ?_, ?_, ?_, ?_⟩
  · rw [List.take_append_drop, List.take_append_drop, List.take_append_drop]
  · rw [List.length_take]
    omega
  · rw [List.length_take, List.length_drop]
    omega
  · rw [List.length_take, List.length_drop, List.length_drop]
    omega

theorem putMessage_append {before old old' pad : List UInt8} {raw : RawControlMessageOut}
    (hold : old.length = 16) (hold' : old'.length = raw.payload.length) :
    (putMessage (before ++ (old ++ (old' ++ pad))) before.length raw : Outcome ε (List UInt8)) =
      .ok (before ++ (toBytes raw.header ++ (raw.payload ++ pad))) := by
  have hhdr : storeAt (before ++ (old ++ (old' ++ pad))) before.length raw.header =
      some (before ++ (toBytes raw.header ++ (old' ++ pad))) :=
    writeAt_append (by rw [hold, Plain.length_toBytes]; rfl) rfl
  have hoff : (before ++ toBytes raw.header).length = cmsgData before.length := by
    rw [List.length_append, Plain.length_toBytes]
    rfl
  have hpay := @writeAt_append (before ++ toBytes raw.header) raw.payload old' pad _ hold' hoff
  rw [List.append_assoc, List.append_assoc] at hpay
  rw [putMessage, hhdr, Outcome.ofOption_some, Outcome.ok_bind, hpay, Outcome.ofOption_some]

/-- Into a fresh buffer of the right size the writer writes a row. -/
theorem putAll_row {raws : List RawControlMessageOut} (hfits : ∀ raw ∈ raws, PayloadFits raw.payload.length)
    {before fresh : List UInt8} (hlen : fresh.length = (raws.map fun raw => (withSpace raw).2).sum) :
    ∃ bytes, Row raws bytes ∧
      (putAll (before ++ fresh) before.length (raws.map withSpace) : Outcome ε (List UInt8)) =
        .ok (before ++ bytes) := by
  induction raws generalizing before fresh with
  | nil =>
    rw [List.eq_nil_of_length_eq_zero hlen]
    exact ⟨[], .nil, rfl⟩
  | cons raw raws ih =>
    have hraw := hfits raw (List.mem_cons_self ..)
    have hspace : (withSpace raw).2 = cmsgSpace raw.payload.length := by rw [withSpace, cUint_of_fits hraw]
    have hvalue := cmsgSpace_of_fits hraw
    rw [List.map_cons, List.sum_cons, hspace] at hlen
    obtain ⟨old, old', pad, rest, rfl, hold, hold', hpad⟩ :=
      @exists_pieces fresh 16 raw.payload.length (cmsgSpace raw.payload.length - 16 - raw.payload.length)
        (by omega)
    have hput := @putMessage_append ε before old old' (pad ++ rest) raw hold hold'
    have hnext : before.length + cmsgSpace raw.payload.length =
        (before ++ (toBytes raw.header ++ (raw.payload ++ pad))).length := by
      simp only [List.length_append, Plain.length_toBytes, size_cmsghdr]
      omega
    simp only [List.length_append] at hlen
    obtain ⟨bytes, hrow, hrest⟩ := @ih (fun x hx => hfits x (List.mem_cons_of_mem _ hx))
      (before ++ (toBytes raw.header ++ (raw.payload ++ pad))) rest (by omega)
    simp only [List.append_assoc] at hrest
    refine ⟨_, @Row.cons raw raws pad bytes (by omega) hrow, ?_⟩
    rw [List.map_cons, withSpace, putAll, hput, Outcome.ok_bind, cUint_of_fits hraw, hnext]
    simpa only [List.append_assoc] using hrest

end Writing

/-! ### Reading a row -/

/-- The message is prepared as `raw`, and its space is a `c_uint`. -/
structure Sends (msg : IoControlMessage) (raw : RawControlMessageOut) : Prop where
  plain : msg.level.isTls = false
  prepared : msg.level.prepare = .ok raw
  fits : PayloadFits raw.payload.length

def IoControlMessage.received (msg : IoControlMessage) : IoControlMessage := ⟨msg.level.received⟩

section Forall₂

variable {α β : Type} {R : α → β → Prop} {as : List α} {bs : List β}

theorem exists_forall₂ (h : ∀ a ∈ as, ∃ b, R a b) : ∃ bs, List.Forall₂ R as bs := by
  induction as with
  | nil => exact ⟨[], .nil⟩
  | cons a as ih =>
    obtain ⟨b, hb⟩ := h a (List.mem_cons_self ..)
    obtain ⟨bs, hbs⟩ := ih fun a ha => h a (List.mem_cons_of_mem _ ha)
    exact ⟨b :: bs, .cons hb hbs⟩

theorem exists_of_forall₂ (h : List.Forall₂ R as bs) {a : α} (ha : a ∈ as) : ∃ b ∈ bs, R a b := by
  induction h with
  | nil => cases ha
  | cons hr _ ih =>
    rcases List.mem_cons.mp ha with rfl | ha
    · exact ⟨_, List.mem_cons_self .., hr⟩
    · obtain ⟨b, hb, hr⟩ := ih ha
      exact ⟨b, List.mem_cons_of_mem _ hb, hr⟩

theorem exists_of_forall₂_right (h : List.Forall₂ R as bs) {b : β} (hb : b ∈ bs) : ∃ a ∈ as, R a b :=
  exists_of_forall₂ (List.Forall₂.flip h) hb

end Forall₂

section Reading

variable {msg : IoControlMessage} {raw : RawControlMessageOut} {msgs : List IoControlMessage}
  {raws : List RawControlMessageOut} {before rest bytes : List UInt8} {addr : ℕ}

theorem header_append {ε : Type} {hdr : Cmsghdr} {offset : ℕ} (haddr : (addr + offset) % 8 = 0)
    (hoffset : before.length = offset) :
    ((⟨addr, before ++ (toBytes hdr ++ rest)⟩ : Area).header offset : Outcome ε Cmsghdr) = .ok hdr :=
  header_eq_ok.mpr ⟨haddr, loadAt_append _ hoffset⟩

/-- A block is read as the message that it was written for. -/
theorem tryParseSingle_block (haddr : (addr + before.length) % 8 = 0) (h : Sends msg raw) :
    tryParseSingle ⟨addr, before ++ (toBytes raw.header ++ (raw.payload ++ rest))⟩ (some before.length) =
      .ok msg.received := by
  have hload := @header_append before (raw.payload ++ rest) addr ParseControlMessageError raw.header _ haddr rfl
  have hlen := header_cmsgLen_of_fits h.fits
  have hdata : (before ++ (toBytes raw.header ++ (raw.payload ++ rest))).drop (cmsgData before.length) =
      raw.payload ++ rest := by
    rw [← List.append_assoc]
    refine List.drop_left' ?_
    rw [List.length_append, Plain.length_toBytes]
    rfl
  have hparse := parse_prepare rest h.plain h.prepared
  have hge : ¬ raw.header.cmsgLen.toNat < cmsgLen 0 := by
    rw [hlen, cmsgLen_zero]
    omega
  have hdataLen : raw.header.cmsgLen.toNat - cmsgLen 0 = raw.payload.length := by
    rw [hlen, cmsgLen_zero]
    omega
  simp only [tryParseSingle, hload, Outcome.ok_bind, if_neg hge, hdata, hdataLen]
  rw [show IoControlMessageLevel.parse ⟨raw.header.cmsgLevel, raw.header.cmsgType, raw.payload.length,
    raw.payload ++ rest⟩ = .ok msg.level.received from hparse]
  rfl

/-- One round of the loop over a slice. -/
theorem sliceLoop_round {mem : Area} {fuel offset : ℕ} {parsed : List IoControlMessage} {hdr : Cmsghdr}
    (hlt : offset < mem.bytes.length) (hmsg : tryParseSingle mem (some offset) = .ok msg)
    (hload : (mem.header offset : Outcome ParseControlMessageError Cmsghdr) = .ok hdr) :
    sliceLoop mem (fuel + 1) offset parsed =
      sliceLoop mem fuel (offset + cmsgSpace (cUint (hdr.cmsgLen.toNat - cmsgLen 0))) (parsed ++ [msg]) := by
  rw [sliceLoop, if_pos hlt, hmsg, Outcome.ok_bind, hload, Outcome.ok_bind]

/-- The block ends where its space does. -/
theorem length_block {pad : List UInt8}
    (hpad : 16 + raw.payload.length + pad.length = cmsgSpace raw.payload.length) :
    (before ++ (toBytes raw.header ++ (raw.payload ++ pad))).length =
      before.length + cmsgSpace raw.payload.length := by
  simp only [List.length_append, Plain.length_toBytes, size_cmsghdr]
  omega

/-- The next block is aligned if this one is. -/
theorem aligned_next (hfits : PayloadFits raw.payload.length) (haddr : (addr + before.length) % 8 = 0) :
    (addr + (before.length + cmsgSpace raw.payload.length)) % 8 = 0 := by
  rw [cmsgSpace_of_fits hfits]
  omega

theorem sliceLoop_row (haddr : (addr + before.length) % 8 = 0) (hrow : Row raws bytes)
    (hsends : List.Forall₂ Sends msgs raws) {fuel : ℕ} (hfuel : bytes.length < fuel) (parsed : List IoControlMessage) :
    sliceLoop ⟨addr, before ++ bytes⟩ fuel before.length parsed =
      .ok (parsed ++ msgs.map IoControlMessage.received) := by
  induction hrow generalizing msgs before fuel parsed with
  | nil =>
    cases hsends
    obtain ⟨fuel, rfl⟩ := Nat.exists_eq_succ_of_ne_zero (Nat.ne_of_gt hfuel)
    rw [sliceLoop, if_neg (by simp), List.map_nil, List.append_nil]
  | @cons raw raws pad bytes hpad hrow ih =>
    cases hsends with
    | @cons msg _ msgs _ hsend hsends =>
      have hfits := hsend.fits
      have hlen := header_cmsgLen_of_fits hfits
      have hspace := cmsgSpace_of_fits hfits
      obtain ⟨fuel, rfl⟩ := Nat.exists_eq_succ_of_ne_zero (Nat.ne_of_gt (Nat.zero_lt_of_lt hfuel))
      have hload := @header_append before (raw.payload ++ (pad ++ bytes)) addr ParseControlMessageError raw.header _
        haddr rfl
      have hlt : before.length < (before ++ (toBytes raw.header ++ (raw.payload ++ (pad ++ bytes)))).length := by
        simp only [List.length_append, Plain.length_toBytes, size_cmsghdr]
        omega
      have hdataLen : raw.header.cmsgLen.toNat - cmsgLen 0 = raw.payload.length := by
        rw [hlen, cmsgLen_zero]
        omega
      have hnext := @ih msgs (before ++ (toBytes raw.header ++ (raw.payload ++ pad)))
        (by rw [length_block hpad]; exact aligned_next hfits haddr) hsends fuel
        (by simp only [List.length_append, Plain.length_toBytes, size_cmsghdr] at hfuel; omega)
        (parsed ++ [msg.received])
      rw [length_block hpad] at hnext
      rw [sliceLoop_round hlt (tryParseSingle_block haddr hsend) hload, hdataLen, cUint_of_fits hfits]
      simpa only [List.append_assoc, List.map_cons, List.singleton_append] using hnext

/-- The header after a block is that of the next one, if there is one. -/
theorem cmsgNxthdr_row {ε : Type} {pad : List UInt8} (haddr : (addr + before.length) % 8 = 0)
    (hfits : PayloadFits raw.payload.length)
    (hpad : 16 + raw.payload.length + pad.length = cmsgSpace raw.payload.length) (hrow : Row raws bytes)
    (hraws : ∀ raw ∈ raws, PayloadFits raw.payload.length) :
    (cmsgNxthdr ⟨⟨addr, before ++ (toBytes raw.header ++ (raw.payload ++ (pad ++ bytes)))⟩⟩ before.length :
      Outcome ε (Option ℕ)) =
      .ok (if raws = [] then none else some (before.length + cmsgSpace raw.payload.length)) := by
  have hload := @header_append before (raw.payload ++ (pad ++ bytes)) addr ε raw.header _ haddr rfl
  have hlen := header_cmsgLen_of_fits hfits
  have hge : ¬ raw.header.cmsgLen.toNat < size Cmsghdr := by
    rw [hlen, size_cmsghdr]
    omega
  have htotal : (before ++ (toBytes raw.header ++ (raw.payload ++ (pad ++ bytes)))).length =
      before.length + cmsgSpace raw.payload.length + bytes.length := by
    simp only [List.length_append, Plain.length_toBytes, size_cmsghdr]
    omega
  simp only [cmsgNxthdr, hload, Outcome.ok_bind, if_neg hge]
  rw [hlen, cmsgAlign_of_fits hfits, htotal, size_cmsghdr]
  cases hrow with
  | nil => rw [if_pos (by rw [List.length_nil]; omega), if_pos rfl]
  | @cons next raws pad' bytes hpad' hrow =>
    have hnext := hraws next (List.mem_cons_self ..)
    have hload' := @header_append (before ++ (toBytes raw.header ++ (raw.payload ++ pad)))
      (next.payload ++ (pad' ++ bytes)) addr ε next.header _ (aligned_next hfits haddr) (length_block hpad)
    simp only [List.append_assoc] at hload'
    have hspace := cmsgSpace_of_fits hnext
    rw [if_neg (by simp only [List.length_append, Plain.length_toBytes, size_cmsghdr]; omega), hload',
      Outcome.ok_bind, header_cmsgLen_of_fits hnext, cmsgAlign_of_fits hnext,
      if_neg (by simp only [List.length_append, Plain.length_toBytes, size_cmsghdr]; omega),
      if_neg (List.cons_ne_nil _ _)]

theorem hdrLoop_row (haddr : (addr + before.length) % 8 = 0) (hrow : Row raws bytes)
    (hsends : List.Forall₂ Sends msgs raws) (hne : raws ≠ []) {fuel : ℕ} (hfuel : bytes.length < fuel)
    (messages : List IoControlMessage) :
    hdrLoop ⟨⟨addr, before ++ bytes⟩⟩ fuel (some before.length) messages =
      .ok (messages ++ msgs.map IoControlMessage.received) := by
  induction hrow generalizing msgs before fuel messages with
  | nil => exact absurd rfl hne
  | @cons raw raws pad bytes hpad hrow ih =>
    cases hsends with
    | @cons msg _ msgs _ hsend hsends =>
      have hfits := hsend.fits
      have hspace := cmsgSpace_of_fits hfits
      have hraws : ∀ raw ∈ raws, PayloadFits raw.payload.length := by
        intro raw hraw
        obtain ⟨msg, -, hmsg⟩ := exists_of_forall₂_right hsends hraw
        exact hmsg.fits
      obtain ⟨fuel, rfl⟩ := Nat.exists_eq_succ_of_ne_zero (Nat.ne_of_gt (Nat.zero_lt_of_lt hfuel))
      simp only [List.length_append, Plain.length_toBytes, size_cmsghdr] at hfuel
      rw [hdrLoop, tryParseSingle_block haddr hsend, Outcome.ok_bind, cmsgNxthdr_row haddr hfits hpad hrow hraws,
        Outcome.ok_bind]
      by_cases hlast : raws = []
      · subst hlast
        cases hsends
        obtain ⟨fuel, rfl⟩ := Nat.exists_eq_succ_of_ne_zero (show fuel ≠ 0 by omega)
        rw [if_pos rfl, hdrLoop]
        rfl
      · have hnext := @ih msgs (before ++ (toBytes raw.header ++ (raw.payload ++ pad)))
          (by rw [length_block hpad]; exact aligned_next hfits haddr) hsends hlast fuel (by omega)
          (messages ++ [msg.received])
        rw [length_block hpad] at hnext
        rw [if_neg hlast]
        simpa only [List.append_assoc, List.map_cons, List.singleton_append] using hnext

end Reading

/-! ### Preparing a list -/

theorem prepareAll_eq_ok {msgs : List IoControlMessage} {prepared : List (RawControlMessageOut × ℕ)}
    (h : prepareAll msgs = .ok prepared) :
    ∃ raws, List.Forall₂ (fun msg raw => msg.level.prepare = .ok raw) msgs raws ∧
      prepared = raws.map withSpace := by
  induction msgs generalizing prepared with
  | nil =>
    cases h
    exact ⟨[], .nil, rfl⟩
  | cons msg msgs ih =>
    obtain ⟨raw, hraw, h⟩ := Outcome.bind_eq_ok.mp h
    obtain ⟨rest, hrest, h⟩ := Outcome.bind_eq_ok.mp h
    cases h
    obtain ⟨raws, hraws, rfl⟩ := ih hrest
    exact ⟨raw :: raws, .cons hraw hraws, rfl⟩

theorem prepareAll_of_forall₂ {msgs : List IoControlMessage} {raws : List RawControlMessageOut}
    (h : List.Forall₂ (fun msg raw => msg.level.prepare = .ok raw) msgs raws) :
    prepareAll msgs = .ok (raws.map withSpace) := by
  induction h with
  | nil => rfl
  | cons hraw _ ih => rw [prepareAll, hraw, Outcome.ok_bind, ih, Outcome.ok_bind]; rfl

/-- `prepare_control_message` returns an error. -/
def IoControlMessage.Rejected (msg : IoControlMessage) : Prop := ∃ e, msg.level.prepare = .err e

theorem putAll_ne_err {ε : Type} {mem : List UInt8} {offset : ℕ} {prepared : List (RawControlMessageOut × ℕ)}
    {e : ε} : putAll mem offset prepared ≠ .err e := by
  induction prepared generalizing mem offset with
  | nil => simp [putAll]
  | cons entry prepared ih =>
    rw [putAll]
    intro h
    rcases Outcome.bind_eq_err.mp h with h | ⟨mem', -, h⟩
    · rcases Outcome.bind_eq_err.mp h with h | ⟨mem', -, h⟩
      · exact Outcome.ofOption_ne_err h
      · exact Outcome.ofOption_ne_err h
    · exact ih h

/-- Some message is rejected before there is one that cannot be prepared. -/
def RejectsFirst (msgs : List IoControlMessage) : Prop :=
  ∃ before msg after, msgs = before ++ msg :: after ∧ msg.Rejected ∧ ∀ m ∈ before, m.level.Preparable

theorem prepareAll_err_iff {msgs : List IoControlMessage} : (∃ e, prepareAll msgs = .err e) ↔ RejectsFirst msgs := by
  constructor
  · rintro ⟨e, he⟩
    -- the first error is that of a message, and those before it were prepared
    induction msgs with
    | nil => cases he
    | cons msg msgs ih =>
      rcases Outcome.bind_eq_err.mp he with he | ⟨raw, hraw, he⟩
      · exact ⟨[], msg, msgs, rfl, ⟨e, he⟩, fun m hm => by cases hm⟩
      · rcases Outcome.bind_eq_err.mp he with he | ⟨prepared, -, he⟩
        · obtain ⟨before, bad, after, rfl, hbad, hbefore⟩ := ih he
          exact ⟨msg :: before, bad, after, rfl, hbad, List.forall_mem_cons.mpr ⟨preparable_of_ok hraw, hbefore⟩⟩
        · cases he
  · rintro ⟨before, bad, after, rfl, ⟨e, he⟩, hbefore⟩
    induction before with
    | nil => exact ⟨e, by rw [List.nil_append, prepareAll, he]; rfl⟩
    | cons msg before ih =>
      rw [List.forall_mem_cons] at hbefore
      rw [List.cons_append, prepareAll]
      rcases prepare_ok_or_err hbefore.1 with ⟨raw, hraw⟩ | ⟨e', he'⟩
      · obtain ⟨e'', he''⟩ := ih hbefore.2
        exact ⟨e'', by rw [hraw, Outcome.ok_bind, he'']; rfl⟩
      · exact ⟨e', by rw [he']; rfl⟩

/-- `try_prepare_multi` fails if and only if some message is rejected, and all
before it can be prepared. -/
theorem tryPrepareMulti_err_iff (alloc : (n : ℕ) → Vector UInt8 n) {msgs : List IoControlMessage} :
    (∃ e, tryPrepareMulti alloc msgs = .err e) ↔ RejectsFirst msgs := by
  rw [← prepareAll_err_iff]
  constructor
  · rintro ⟨e, he⟩
    rcases Outcome.bind_eq_err.mp he with he | ⟨prepared, -, he⟩
    · exact ⟨e, he⟩
    · exact absurd he putAll_ne_err
  · rintro ⟨e, he⟩
    exact ⟨e, by rw [tryPrepareMulti, he]; rfl⟩

/-- One message is prepared as a list of one. -/
theorem tryPrepare_eq (alloc : (n : ℕ) → Vector UInt8 n) (msg : IoControlMessage) :
    tryPrepare alloc msg = tryPrepareMulti alloc [msg] := by
  rw [tryPrepare, tryPrepareMulti, prepareAll]
  cases msg.level.prepare with
  | ok raw => exact (Outcome.bind_ok _).symm
  | _ => rfl

/-! ### The round trip -/

/-- The list is prepared, and both readers return it, up to the losses, wherever
the bytes lie aligned. An empty control area has no first header. -/
def RoundTrips (alloc : (n : ℕ) → Vector UInt8 n) (msgs : List IoControlMessage) : Prop :=
  ∃ bytes, tryPrepareMulti alloc msgs = .ok bytes ∧ ∀ addr, addr % 8 = 0 →
    (∃ parsed, tryParseFromSlice ⟨addr, bytes⟩ = .ok parsed ∧
      List.Forall₂ (fun msg msg' => Agrees msg.level msg'.level) msgs parsed) ∧
    (msgs ≠ [] → ∃ parsed, tryParseFromMsghdr ⟨⟨addr, bytes⟩⟩ = .ok parsed ∧
      List.Forall₂ (fun msg msg' => Agrees msg.level msg'.level) msgs parsed)

/-- The file descriptors, if that is what the message is, leave room for the
header in a `c_uint`. -/
def IoControlMessage.Fits (msg : IoControlMessage) : Prop :=
  match msg.level with
  | .socket (.rights fds) => fds.length ≤ 2 ^ 30 - 6
  | _ => True

theorem forall₂_agrees_received (msgs : List IoControlMessage) :
    List.Forall₂ (fun msg msg' => Agrees msg.level msg'.level) msgs (msgs.map IoControlMessage.received) := by
  induction msgs with
  | nil => exact .nil
  | cons msg msgs ih => exact .cons (agrees_received msg.level) ih

/-- What is written for messages that fit is a row. -/
theorem exists_row (alloc : (n : ℕ) → Vector UInt8 n) {msgs : List IoControlMessage}
    {raws : List RawControlMessageOut} (hprep : List.Forall₂ (fun msg raw => msg.level.prepare = .ok raw) msgs raws)
    (hfits : ∀ raw ∈ raws, PayloadFits raw.payload.length) :
    ∃ bytes, Row raws bytes ∧ tryPrepareMulti alloc msgs = .ok bytes := by
  have hlen : (alloc ((raws.map withSpace).map (·.2)).sum).toList.length =
      (raws.map fun raw => (withSpace raw).2).sum := by
    rw [Vector.length_toList, List.map_map]
    rfl
  obtain ⟨bytes, hrow, hput⟩ := @putAll_row PrepareControlMessageError raws hfits [] _ hlen
  rw [List.nil_append, List.nil_append, List.length_nil] at hput
  exact ⟨bytes, hrow, by rw [tryPrepareMulti, prepareAll_of_forall₂ hprep, Outcome.ok_bind, hput]⟩

/-- **Messages that fit come back**, whatever was in the buffer. -/
theorem roundTrips_of_sends (alloc : (n : ℕ) → Vector UInt8 n) {msgs : List IoControlMessage}
    {raws : List RawControlMessageOut} (hsends : List.Forall₂ Sends msgs raws) : RoundTrips alloc msgs := by
  have hprep : List.Forall₂ (fun msg raw => msg.level.prepare = .ok raw) msgs raws :=
    hsends.imp fun _ _ h => h.prepared
  have hfits : ∀ raw ∈ raws, PayloadFits raw.payload.length := by
    intro raw hraw
    obtain ⟨msg, -, hmsg⟩ := exists_of_forall₂_right hsends hraw
    exact hmsg.fits
  obtain ⟨bytes, hrow, hbytes⟩ := exists_row alloc hprep hfits
  refine ⟨bytes, hbytes, fun addr haddr => ⟨⟨msgs.map .received, ?_, forall₂_agrees_received msgs⟩,
    fun hne => ⟨msgs.map .received, ?_, forall₂_agrees_received msgs⟩⟩⟩
  · rw [tryParseFromSlice]
    have hloop := @sliceLoop_row msgs raws [] bytes addr haddr hrow hsends (bytes.length + 1) (Nat.lt_succ_self _) []
    rw [List.nil_append, List.nil_append, List.length_nil] at hloop
    split
    · rename_i hnil
      change bytes = [] at hnil
      subst hnil
      simpa [sliceLoop] using hloop
    · exact hloop
  · have hraws : raws ≠ [] := by
      rintro rfl
      cases hsends
      exact hne rfl
    have hloop := @hdrLoop_row msgs raws [] bytes addr haddr hrow hsends hraws (bytes.length + 1) (Nat.lt_succ_self _) []
    rw [List.nil_append, List.nil_append, List.length_nil] at hloop
    have hfirst : cmsgFirsthdr ⟨⟨addr, bytes⟩⟩ = some 0 := by
      cases hrow with
      | nil => exact absurd rfl hraws
      | cons hpad hrow =>
        refine if_pos ?_
        simp only [List.length_append, Plain.length_toBytes, size_cmsghdr]
        omega
    simp only [tryParseFromMsghdr, hfirst, hloop]

end Message
end ClAsync
