/-
# When the control-message codec is right

A message with more than 2^30 - 6 file descriptors does not come back: its
length is cut to 32 bits, so that it is written over what follows or beyond
the buffer (`codec_fails`). Nor does one without any, which is not even
prepared. Nothing else goes wrong (`codec_iff`): a list that fits and of which
nothing is rejected comes back, up to the losses, and `try_prepare_multi` fails
if and only if something is rejected.

That what does not fit never comes back takes the writer's and the reader's
offsets to be the same as long as the messages read agree with those sent.
At such an offset stands a length below 2^32, also where messages overlap
(`announced_lt`).

Key definition: `Codec`.
Key theorems: `fits_of_roundTrips`, `codec_iff`.
-/
import ClAsync.Io.ControlRoundTrip

namespace ClAsync
namespace Message

open Calls Layout Time

/-! ### What does not fit does not come back -/

theorem take_congr_of_le {mem mem' : List UInt8} {m n : ℕ} (h : mem'.take m = mem.take m) (hn : n ≤ m) :
    mem'.take n = mem.take n := by
  rw [← min_eq_left hn, ← List.take_take, h, List.take_take]

/-- The length that a header announces is in its first eight bytes. -/
theorem cmsgLen_of_load {mem : List UInt8} {offset : ℕ} {hdr : Cmsghdr}
    (h : loadAt Cmsghdr mem offset = some hdr) :
    hdr.cmsgLen.toNat = leNat ((mem.take (offset + 8)).drop offset) := by
  obtain ⟨bytes, hread, rfl⟩ := Option.map_eq_some_iff.mp h
  unfold readAt at hread
  split at hread
  · cases hread
    have hcut : ((mem.drop offset).take (size Cmsghdr)).take 8 = (mem.take (offset + 8)).drop offset := by
      rw [List.take_take, List.drop_take, Nat.add_sub_cancel_left]
      rfl
    have hlt := leNat_lt ((mem.take (offset + 8)).drop offset)
    have hle : 256 ^ ((mem.take (offset + 8)).drop offset).length ≤ 256 ^ 8 := by
      refine Nat.pow_le_pow_right (by omega) ?_
      rw [List.length_drop, List.length_take]
      omega
    show (UInt64.ofNat (leNat (((mem.drop offset).take (size Cmsghdr)).take 8))).toNat = _
    rw [hcut, UInt64.toNat_ofNat', Nat.mod_eq_of_lt (by omega)]
  · cases hread

section Overlap

variable {ε : Type} {mem mem' : List UInt8} {offset : ℕ} {raw : RawControlMessageOut}
  {raws : List RawControlMessageOut}

/-- A message is written at its offset and beyond, and what its header
announces is a `c_uint`. -/
theorem putMessage_keeps (h : (putMessage mem offset raw : Outcome ε (List UInt8)) = .ok mem') :
    mem'.length = mem.length ∧ mem'.take offset = mem.take offset ∧
      leNat ((mem'.take (offset + 8)).drop offset) < 2 ^ 32 := by
  obtain ⟨mem₁, hstore, hwrite⟩ := Outcome.bind_eq_ok.mp h
  have hstore := Outcome.ofOption_eq_ok.mp hstore
  have hwrite := Outcome.ofOption_eq_ok.mp hwrite
  have hhdr := take_writeAt hwrite (le_refl (cmsgData offset))
  have hload : loadAt Cmsghdr mem' offset = some raw.header := by
    have hread := readAt_writeAt hstore
    rw [Plain.length_toBytes] at hread
    rw [loadAt, readAt_congr hhdr (length_writeAt hwrite), hread, Option.map_some, Plain.ofBytes_toBytes]
  refine ⟨(length_writeAt hwrite).trans (length_writeAt hstore), ?_, ?_⟩
  · rw [take_congr_of_le hhdr (Nat.le_add_right ..), take_writeAt hstore (le_refl offset)]
  · rw [← cmsgLen_of_load hload, header_cmsgLen]
    exact Nat.mod_lt _ (by omega)

theorem putAll_keeps (h : (putAll mem offset (raws.map withSpace) : Outcome ε (List UInt8)) = .ok mem') :
    mem'.length = mem.length ∧ mem'.take offset = mem.take offset := by
  induction raws generalizing mem offset with
  | nil =>
    cases h
    exact ⟨rfl, rfl⟩
  | cons raw raws ih =>
    obtain ⟨mem₁, hput, h⟩ := Outcome.bind_eq_ok.mp h
    obtain ⟨hlen, hbefore, -⟩ := putMessage_keeps hput
    obtain ⟨hlen', hbefore'⟩ := ih h
    exact ⟨hlen'.trans hlen, (take_congr_of_le hbefore' (Nat.le_add_right ..)).trans hbefore⟩

/-- Also when messages overlap, what stands as a length where a message was
written is a `c_uint`: the next message starts at the same place or past the
length. -/
theorem announced_lt (h : (putAll mem offset (raws.map withSpace) : Outcome ε (List UInt8)) = .ok mem')
    (hne : raws ≠ []) : leNat ((mem'.take (offset + 8)).drop offset) < 2 ^ 32 := by
  induction raws generalizing mem offset with
  | nil => exact absurd rfl hne
  | cons raw raws ih =>
    obtain ⟨mem₁, hput, h⟩ := Outcome.bind_eq_ok.mp h
    obtain ⟨-, -, hlt⟩ := putMessage_keeps hput
    by_cases hzero : cmsgSpace (cUint raw.payload.length) = 0
    · rw [hzero, Nat.add_zero] at h
      by_cases hlast : raws = []
      · subst hlast
        cases h
        exact hlt
      · exact ih h hlast
    · have hspace : 8 ≤ cmsgSpace (cUint raw.payload.length) := by
        simp only [cmsgSpace, cUint, cmsgAlign, size_cmsghdr] at hzero ⊢
        omega
      have hbefore := take_congr_of_le (putAll_keeps h).2 (Nat.add_le_add_left hspace offset)
      rw [hbefore]
      exact hlt

end Overlap

section Rereading

variable {mem : Area} {fuel offset : ℕ} {parsed result : List IoControlMessage}

/-- The loop over a slice only adds to what it has parsed. -/
theorem sliceLoop_extends (h : sliceLoop mem fuel offset parsed = .ok result) :
    ∃ more, result = parsed ++ more := by
  induction fuel generalizing offset parsed with
  | zero => cases h
  | succ fuel ih =>
    rw [sliceLoop] at h
    split at h
    · obtain ⟨msg, -, h⟩ := Outcome.bind_eq_ok.mp h
      obtain ⟨hdr, -, h⟩ := Outcome.bind_eq_ok.mp h
      obtain ⟨more, rfl⟩ := ih h
      exact ⟨[msg] ++ more, List.append_assoc ..⟩
    · cases h
      exact ⟨[], (List.append_nil _).symm⟩

/-- A message without space is read for ever. -/
theorem sliceLoop_stays {msg : IoControlMessage} {hdr : Cmsghdr} (hlt : offset < mem.bytes.length)
    (hmsg : tryParseSingle mem (some offset) = .ok msg)
    (hload : (mem.header offset : Outcome ParseControlMessageError Cmsghdr) = .ok hdr)
    (hspace : cmsgSpace (cUint (hdr.cmsgLen.toNat - cmsgLen 0)) = 0) :
    sliceLoop mem fuel offset parsed = .diverges := by
  induction fuel generalizing parsed with
  | zero => rfl
  | succ fuel ih =>
    rw [sliceLoop_round hlt hmsg hload, hspace]
    exact ih

/-- What was parsed has the length that its header announces. -/
theorem wireSize_of_single {msg : IoControlMessage} {hdr : Cmsghdr}
    (hmsg : tryParseSingle mem (some offset) = .ok msg)
    (hload : (mem.header offset : Outcome ParseControlMessageError Cmsghdr) = .ok hdr) :
    hdr.cmsgLen.toNat = 16 + msg.level.wireSize := by
  simp only [tryParseSingle, hload, Outcome.ok_bind, cmsgLen_zero] at hmsg
  split at hmsg
  · cases hmsg
  · rename_i hge
    obtain ⟨level, hparse, h⟩ := Outcome.bind_eq_ok.mp hmsg
    cases h
    have hdata : hdr.cmsgLen.toNat - 16 = level.wireSize := dataLen_of_parse hparse
    show hdr.cmsgLen.toNat = 16 + level.wireSize
    omega

end Rereading

/-- All payloads but those of TLS are of whole `c_int`s. -/
theorem wireSize_mod {level : IoControlMessageLevel} (h : level.isTls = false) : level.wireSize % 4 = 0 := by
  cases level with
  | socket level => cases level <;> simp [IoControlMessageLevel.wireSize]
  | ipV4 level => cases level <;> simp [IoControlMessageLevel.wireSize]
  | ipV6 level => cases level <;> simp [IoControlMessageLevel.wireSize]
  | tls level => cases h

/-- A message that is read where it was written, and agrees with it, announces
the payload that was written. -/
theorem announced_of_single {ε : Type} {msg msg' : IoControlMessage} {raw : RawControlMessageOut}
    {raws : List RawControlMessageOut} {mem mem' : List UInt8} {addr offset : ℕ} {hdr : Cmsghdr}
    (hput : (putAll mem offset ((raw :: raws).map withSpace) : Outcome ε (List UInt8)) = .ok mem')
    (hraw : msg.level.prepare = .ok raw) (hagree : Agrees msg.level msg'.level)
    (hmsg : tryParseSingle ⟨addr, mem'⟩ (some offset) = .ok msg')
    (hload : ((⟨addr, mem'⟩ : Area).header offset : Outcome ParseControlMessageError Cmsghdr) = .ok hdr) :
    hdr.cmsgLen.toNat - cmsgLen 0 = raw.payload.length ∧ raw.payload.length < 2 ^ 32 - 16 := by
  have hannounced := wireSize_of_single hmsg hload
  rw [wireSize_of_agrees hagree, ← length_payload hraw] at hannounced
  have hsmall := announced_lt hput (by simp)
  rw [← cmsgLen_of_load (header_eq_ok.mp hload).2] at hsmall
  rw [cmsgLen_zero]
  omega

/-- A payload that the reader gets past fits. -/
theorem payloadFits_of_space {length : ℕ} (hmod : length % 4 = 0) (hlt : length < 2 ^ 32 - 16)
    (hspace : cmsgSpace (cUint length) ≠ 0) : PayloadFits length := by
  unfold PayloadFits
  by_contra hno
  refine hspace ?_
  simp only [cmsgSpace, cUint, cmsgAlign, size_cmsghdr]
  omega

/-- If the slice is read as the messages that were written, their payloads
fit: what is read has a length that a header can announce, and one whose
space wraps to nothing is never done with. -/
theorem fits_of_read {ε : Type} {msgs msgs' parsed : List IoControlMessage} {raws : List RawControlMessageOut}
    (hprep : List.Forall₂ (fun msg raw => msg.level.prepare = .ok raw) msgs raws)
    (htls : ∀ msg ∈ msgs, msg.level.isTls = false)
    {mem mem' : List UInt8} {addr offset fuel : ℕ}
    (hput : (putAll mem offset (raws.map withSpace) : Outcome ε (List UInt8)) = .ok mem')
    (hread : sliceLoop ⟨addr, mem'⟩ fuel offset parsed = .ok (parsed ++ msgs'))
    (hagree : List.Forall₂ (fun msg msg' => Agrees msg.level msg'.level) msgs msgs') :
    ∀ raw ∈ raws, PayloadFits raw.payload.length := by
  induction hprep generalizing mem offset fuel parsed msgs' with
  | nil => exact fun raw hraw => by cases hraw
  | @cons msg raw msgs raws hraw hprep ih =>
    cases hagree with
    | @cons _ msg' _ msgs' hmsg' hagree =>
      obtain ⟨mem₁, hput₁, hrest⟩ := Outcome.bind_eq_ok.mp hput
      cases fuel with
      | zero => cases hread
      | succ fuel =>
        by_cases hlt : offset < mem'.length
        · have hround := hread
          rw [sliceLoop, if_pos hlt] at hround
          obtain ⟨single, hsingle, hround⟩ := Outcome.bind_eq_ok.mp hround
          obtain ⟨hdr, hload, -⟩ := Outcome.bind_eq_ok.mp hround
          rw [sliceLoop_round hlt hsingle hload] at hread
          obtain ⟨more, hmore⟩ := sliceLoop_extends hread
          have hcons : msg' :: msgs' = single :: more := by
            rw [List.append_assoc] at hmore
            exact List.append_cancel_left hmore
          obtain ⟨rfl, rfl⟩ := List.cons.inj hcons
          obtain ⟨hdataLen, hsmall⟩ := announced_of_single hput hraw hmsg' hsingle hload
          have hmod := wireSize_mod (htls msg (List.mem_cons_self ..))
          rw [← length_payload hraw] at hmod
          have hfits : PayloadFits raw.payload.length := by
            refine payloadFits_of_space hmod hsmall fun hzero => ?_
            rw [← hdataLen] at hzero
            rw [hzero, Nat.add_zero, sliceLoop_stays hlt hsingle hload hzero] at hread
            cases hread
          rw [hdataLen, List.append_cons parsed msg' msgs'] at hread
          intro x hx
          rcases List.mem_cons.mp hx with rfl | hx
          · exact hfits
          · exact ih (fun m hm => htls m (List.mem_cons_of_mem _ hm)) hrest hread hagree x hx
        · rw [sliceLoop, if_neg hlt] at hread
          have hnil := Outcome.ok.inj hread
          simp at hnil

theorem payloadFits_iff {msg : IoControlMessage} {raw : RawControlMessageOut} (h : msg.level.prepare = .ok raw) :
    PayloadFits raw.payload.length ↔ msg.Fits := by
  rw [length_payload h, PayloadFits, IoControlMessage.Fits]
  cases hlevel : msg.level with
  | socket level =>
    cases level with
    | rights fds =>
      simp only [IoControlMessageLevel.wireSize, size_int32]
      omega
    | _ => simp [IoControlMessageLevel.wireSize]
  | ipV4 level => cases level <;> simp [IoControlMessageLevel.wireSize]
  | ipV6 level => cases level <;> simp [IoControlMessageLevel.wireSize]
  | tls level => simp [IoControlMessageLevel.wireSize, size]

/-- **Messages that come back fit.** -/
theorem fits_of_roundTrips {alloc : (n : ℕ) → Vector UInt8 n} {msgs : List IoControlMessage}
    (htls : ∀ msg ∈ msgs, msg.level.isTls = false) (h : RoundTrips alloc msgs) : ∀ msg ∈ msgs, msg.Fits := by
  obtain ⟨bytes, hbytes, hread⟩ := h
  obtain ⟨⟨parsed, hparsed, hagree⟩, -⟩ := hread 0 rfl
  obtain ⟨prepared, hall, hput⟩ := Outcome.bind_eq_ok.mp hbytes
  obtain ⟨raws, hprep, rfl⟩ := prepareAll_eq_ok hall
  rw [tryParseFromSlice] at hparsed
  split at hparsed
  · cases hparsed
    cases hagree
    exact fun msg hmsg => by cases hmsg
  · have hfits := @fits_of_read _ msgs parsed [] raws hprep htls _ _ _ _ _ hput hparsed hagree
    intro msg hmsg
    obtain ⟨raw, hraw, hmsgRaw⟩ := exists_of_forall₂ hprep hmsg
    exact (payloadFits_iff hmsgRaw).mp (hfits raw hraw)

/-! ### The codec -/

/-- The list comes back if nothing of it is rejected, and `try_prepare_multi`
fails if and only if something is. -/
def Codec (alloc : (n : ℕ) → Vector UInt8 n) (msgs : List IoControlMessage) : Prop :=
  ((∀ msg ∈ msgs, ¬ msg.Rejected) → RoundTrips alloc msgs) ∧
    ((∃ e, tryPrepareMulti alloc msgs = .err e) ↔ ∃ msg ∈ msgs, msg.Rejected)

theorem RejectsFirst.exists_rejected {msgs : List IoControlMessage} (h : RejectsFirst msgs) :
    ∃ msg ∈ msgs, msg.Rejected := by
  obtain ⟨before, msg, after, rfl, hrej, -⟩ := h
  exact ⟨msg, List.mem_append_right _ (List.mem_cons_self ..), hrej⟩

/-- What comes back was prepared. -/
theorem RoundTrips.preparable {alloc : (n : ℕ) → Vector UInt8 n} {msgs : List IoControlMessage}
    (h : RoundTrips alloc msgs) : ∀ msg ∈ msgs, msg.level.Preparable := by
  obtain ⟨bytes, hbytes, -⟩ := h
  obtain ⟨prepared, hall, -⟩ := Outcome.bind_eq_ok.mp hbytes
  obtain ⟨raws, hprep, -⟩ := prepareAll_eq_ok hall
  intro msg hmsg
  obtain ⟨raw, -, hraw⟩ := exists_of_forall₂ hprep hmsg
  exact preparable_of_ok hraw

/-- What fits, can be prepared and is not rejected comes back. -/
theorem roundTrips_of_fits (alloc : (n : ℕ) → Vector UInt8 n) {msgs : List IoControlMessage}
    (htls : ∀ msg ∈ msgs, msg.level.isTls = false) (hrej : ∀ msg ∈ msgs, ¬ msg.Rejected)
    (hfits : ∀ msg ∈ msgs, msg.level.Preparable ∧ msg.Fits) : RoundTrips alloc msgs := by
  have hsends : ∀ msg ∈ msgs, ∃ raw, Sends msg raw := by
    intro msg hmsg
    obtain ⟨hprep, hfit⟩ := hfits msg hmsg
    obtain ⟨raw, hraw⟩ := (prepare_ok_or_err hprep).resolve_right (hrej msg hmsg)
    exact ⟨raw, htls msg hmsg, hraw, (payloadFits_iff hraw).mpr hfit⟩
  obtain ⟨raws, hraws⟩ := exists_forall₂ hsends
  exact roundTrips_of_sends alloc hraws

/-- A list of messages that can be prepared is refused if one of them is. -/
theorem rejectsFirst_of_preparable {msgs : List IoControlMessage} (hprep : ∀ msg ∈ msgs, msg.level.Preparable)
    (hrej : ∃ msg ∈ msgs, msg.Rejected) : RejectsFirst msgs := by
  obtain ⟨msg, hmsg, hrej⟩ := hrej
  obtain ⟨before, after, rfl⟩ := List.append_of_mem hmsg
  exact ⟨before, msg, after, rfl, hrej, fun m hm => hprep m (List.mem_append_left _ hm)⟩

/-- **The codec is right exactly on the lists that fit**, each with something to
pass, or in which some message is rejected before one that has nothing. -/
theorem codec_iff (alloc : (n : ℕ) → Vector UInt8 n) {msgs : List IoControlMessage}
    (htls : ∀ msg ∈ msgs, msg.level.isTls = false) :
    Codec alloc msgs ↔ RejectsFirst msgs ∨ ∀ msg ∈ msgs, msg.level.Preparable ∧ msg.Fits := by
  constructor
  · rintro ⟨hround, herr⟩
    by_cases hrej : ∃ msg ∈ msgs, msg.Rejected
    · exact Or.inl ((tryPrepareMulti_err_iff alloc).mp (herr.mpr hrej))
    · have hround := hround fun msg hmsg h => hrej ⟨msg, hmsg, h⟩
      exact Or.inr fun msg hmsg => ⟨hround.preparable msg hmsg, fits_of_roundTrips htls hround msg hmsg⟩
  · rintro (hfirst | hfits)
    · refine ⟨fun h => ?_, iff_of_true ((tryPrepareMulti_err_iff alloc).mpr hfirst) hfirst.exists_rejected⟩
      obtain ⟨msg, hmsg, hrej⟩ := hfirst.exists_rejected
      exact absurd hrej (h msg hmsg)
    · refine ⟨fun hrej => roundTrips_of_fits alloc htls hrej hfits, ?_⟩
      rw [tryPrepareMulti_err_iff]
      exact ⟨RejectsFirst.exists_rejected, rejectsFirst_of_preparable fun msg hmsg => (hfits msg hmsg).1⟩

/-- Credentials, a timestamp, a file descriptor and a traffic class. -/
theorem codec_fourMessages : Codec (fun n => Vector.replicate n 0)
    [⟨.socket (.credentials ⟨1, 2, 3⟩)⟩, ⟨.socket (.timestamp ⟨5, 1999, by decide, by decide, by decide⟩)⟩,
      ⟨.socket (.rights [4])⟩, ⟨.ipV6 (.class_ ⟨.ce, .expeditedForwarding⟩)⟩] :=
  (codec_iff _ (by decide)).mpr (Or.inr (by
    simp [IoControlMessageLevel.Preparable, SystemTime.NotBeforeEpoch, IoControlMessage.Fits]))

/-- File descriptors that do not fit do not come back. -/
theorem not_codec_of_large (alloc : (n : ℕ) → Vector UInt8 n) {fds : List Int32} (h : 2 ^ 30 - 6 < fds.length) :
    ¬ Codec alloc [⟨.socket (.rights fds)⟩] := by
  have hne : fds ≠ [] := by
    rintro rfl
    cases h
  intro hcodec
  have hrej : ∀ msg ∈ [(⟨.socket (.rights fds)⟩ : IoControlMessage)], ¬ msg.Rejected := by
    intro msg hmsg ⟨e, he⟩
    rw [List.mem_singleton.mp hmsg, prepare_rights hne] at he
    cases he
  have hfits := fits_of_roundTrips (by simp [IoControlMessageLevel.isTls]) (hcodec.1 hrej) _
    (List.mem_singleton_self _)
  exact absurd hfits (not_le.mpr h)

/-- The payload of 2^30 file descriptors is 2^32 bytes, which is 0 as a
`c_uint`. -/
theorem codec_fails : ¬ Codec (fun n => Vector.replicate n 0) [⟨.socket (.rights (List.replicate (2 ^ 30) 3))⟩] :=
  not_codec_of_large _ (by rw [List.length_replicate]; decide)

end Message
end ClAsync
