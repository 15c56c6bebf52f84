/-
# Which control messages are converted without a panic

A payload that is parsed is to give a value or an error (`ParsesWell`): no
panic, no byte that is not a discriminant, and the timestamps of the value are
those that the payload denotes. Preparing a message is to give a payload or an
error (`PreparesWell`).

The conversions do not look at what they convert. A negative field of a
`timeval` or a `timespec` is cast to an unsigned number, the microseconds
are multiplied in 32 bits, a sum of seconds that leaves an `i64` panics, and
the byte of a TLS record is taken for a discriminant whatever it is.
`Convertible` leaves out these payloads and no others, and `Preparable` the
messages whose timestamp is unwrapped in vain or that have no descriptor to
copy.

Key definitions: `ParsesWell`, `PreparesWell`, `Convertible`.
Key theorem: `converts_well`.
-/
import ClAsync.Io.ControlLosses

namespace ClAsync
namespace Message

open Calls Layout Time

/-! ### The times that are denoted, in nanoseconds from the epoch -/

/-- The time that a `timeval` denotes. -/
def Timeval.sinceEpoch (tv : Timeval) : ℤ := tv.tvSec.toInt * 10 ^ 9 + tv.tvUsec.toInt * 1000

/-- The time that a `timespec` denotes. -/
def Timespec.sinceEpoch (ts : Timespec) : ℤ := ts.tvSec.toInt * 10 ^ 9 + ts.tvNsec.toInt

/-- The timestamps of a message. -/
def IoControlMessageLevel.times : IoControlMessageLevel → List ℤ
  | .socket (.timestamp t) => [t.sinceEpoch]
  | .socket (.detailedTimestamp software hardware) => [software.sinceEpoch, hardware.sinceEpoch]
  | _ => []

/-- The timestamps that a payload denotes: of the three of `SCM_TIMESTAMPING`
the first is the software's and the third the hardware's. -/
def timesOf (messageLevel messageType : Int32) (payload : List UInt8) : List ℤ :=
  if messageLevel = solSocket then
    if messageType = scmTimestamp then [(ofBytes payload : Timeval).sinceEpoch]
    else if messageType = scmTimestampns then [(ofBytes payload : Timespec).sinceEpoch]
    else if messageType = scmTimestamping then
      match (ofBytesAll 3 payload : List Timespec) with
      | [software, _, hardware] => [software.sinceEpoch, hardware.sinceEpoch]
      | _ => []
    else []
  else []

/-! ### What a conversion is to do -/

/-- A message with this payload and no memory behind it. -/
def RawControlMessageIn.ofPayload (messageLevel messageType : Int32) (payload : List UInt8) : RawControlMessageIn :=
  ⟨messageLevel, messageType, payload.length, payload⟩

@[simp] theorem ofPayload_messageLevel (messageLevel messageType : Int32) (payload : List UInt8) :
    (RawControlMessageIn.ofPayload messageLevel messageType payload).messageLevel = messageLevel := rfl

@[simp] theorem ofPayload_messageType (messageLevel messageType : Int32) (payload : List UInt8) :
    (RawControlMessageIn.ofPayload messageLevel messageType payload).messageType = messageType := rfl

@[simp] theorem ofPayload_dataLen (messageLevel messageType : Int32) (payload : List UInt8) :
    (RawControlMessageIn.ofPayload messageLevel messageType payload).dataLen = payload.length := rfl

/-- A value with the timestamps that the payload denotes, or an error. -/
def ParsesWell (messageLevel messageType : Int32) (payload : List UInt8) : Prop :=
  (IoControlMessageLevel.parse (.ofPayload messageLevel messageType payload)).Returns fun level =>
    level.times = timesOf messageLevel messageType payload

instance (messageLevel messageType : Int32) (payload : List UInt8) :
    Decidable (ParsesWell messageLevel messageType payload) := by
  unfold ParsesWell
  infer_instance

/-- A payload or an error. -/
def PreparesWell (level : IoControlMessageLevel) : Prop := level.prepare.Returns fun _ => True

instance (level : IoControlMessageLevel) : Decidable (PreparesWell level) := by
  unfold PreparesWell
  infer_instance

/-! ### When it does -/

/-- No field is negative, and neither the product nor the sum overflows. -/
def Timeval.Fits (tv : Timeval) : Prop :=
  0 ≤ tv.tvSec.toInt ∧ 0 ≤ tv.tvUsec.toInt ∧ tv.tvUsec.toInt * 1000 < 2 ^ 32 ∧
    tv.tvSec.toInt + tv.tvUsec.toInt * 1000 / 10 ^ 9 < 2 ^ 63

/-- No field is negative, the nanoseconds are a `u32`, and the sum does not
overflow. -/
def Timespec.Fits (ts : Timespec) : Prop :=
  0 ≤ ts.tvSec.toInt ∧ 0 ≤ ts.tvNsec.toInt ∧ ts.tvNsec.toInt < 2 ^ 32 ∧
    ts.tvSec.toInt + ts.tvNsec.toInt / 10 ^ 9 < 2 ^ 63

/-- A payload of the length that its type has: times that fit their unsigned
types, and a byte that names a record type. -/
structure Convertible (messageLevel messageType : Int32) (payload : List UInt8) : Prop where
  timestamp : messageLevel = solSocket → messageType = scmTimestamp → payload.length = size Timeval →
    (ofBytes payload : Timeval).Fits
  timestampns : messageLevel = solSocket → messageType = scmTimestampns → payload.length = size Timespec →
    (ofBytes payload : Timespec).Fits
  timestamping : messageLevel = solSocket → messageType = scmTimestamping → payload.length = size Timespec * 3 →
    ∀ software middle hardware : Timespec, ofBytesAll 3 payload = [software, middle, hardware] →
      software.Fits ∧ hardware.Fits
  recordType : messageLevel = solTls → messageType = tlsGetRecordType → payload.length = size UInt8 →
    (TlsRecordType.ofByte (ofBytes payload)).isSome

/-! ### Reading a payload -/

section Read

variable {α : Type} [Plain α] {messageLevel messageType : Int32} {payload : List UInt8}

theorem fromMsgInSingle_returns {P : α → Prop} :
    (fromMsgInSingle α (.ofPayload messageLevel messageType payload)).Returns P ↔
      (payload.length = size α → P (ofBytes payload)) := by
  unfold fromMsgInSingle RawControlMessageIn.ofPayload
  by_cases hlen : payload.length = size α
  · rw [if_neg (not_not.mpr hlen), loadAt_whole hlen, Outcome.ofOption_some, Outcome.returns_ok]
    exact ⟨fun h _ => h, fun h => h hlen⟩
  · rw [if_pos hlen, Outcome.returns_err]
    exact ⟨fun _ h => absurd h hlen, fun _ => trivial⟩

theorem fromMsgInMulti_returns {n : ℕ} {P : List α → Prop} :
    (fromMsgInMulti α (.ofPayload messageLevel messageType payload) n).Returns P ↔
      (payload.length = size α * n → P (ofBytesAll n payload)) := by
  unfold fromMsgInMulti RawControlMessageIn.ofPayload
  by_cases hlen : payload.length = size α * n
  · rw [if_neg (not_not.mpr hlen), readAt_whole hlen, Outcome.ofOption_some, Outcome.ok_bind, Outcome.returns_ok]
    exact ⟨fun h _ => h, fun h => h hlen⟩
  · rw [if_pos hlen, Outcome.returns_err]
    exact ⟨fun _ h => absurd h hlen, fun _ => trivial⟩

end Read

/-! ### Times -/

/-- A cast to an unsigned number wraps. -/
theorem toNat_toUInt64 (x : Int64) : (x.toUInt64.toNat : ℤ) = x.toInt % 2 ^ 64 := by
  have hlt := x.toUInt64.toNat_lt
  have hcond : x.toInt = _ := BitVec.toInt_eq_toNat_cond x.toBitVec
  have hnat : x.toBitVec.toNat = x.toUInt64.toNat := rfl
  rw [hnat] at hcond
  split at hcond <;> omega

theorem epochPlus_returns {ε : Type} {secs : UInt64} {nanos : UInt32} {n : ℤ} :
    (SystemTime.epochPlus secs nanos : Outcome ε SystemTime).Returns (fun t => t.sinceEpoch = n) ↔
      secs.toNat + nanos.toNat / 10 ^ 9 < 2 ^ 63 ∧ (secs.toNat * 10 ^ 9 + nanos.toNat : ℤ) = n := by
  unfold SystemTime.epochPlus
  by_cases hlt : secs.toNat + nanos.toNat / 10 ^ 9 < 2 ^ 63
  · rw [dif_pos hlt, Outcome.returns_ok]
    simp only [SystemTime.sinceEpoch]
    omega
  · rw [dif_neg hlt, Outcome.returns_panics]
    exact ⟨False.elim, fun h => hlt h.1⟩

/-- The casts and the product keep what a `timeval` denotes if it fits, and
only then. -/
theorem epochPlus_timeval_returns {ε : Type} (tv : Timeval) :
    (tv.epochPlus : Outcome ε SystemTime).Returns (fun t => t.sinceEpoch = tv.sinceEpoch) ↔ tv.Fits := by
  have hsec := toNat_toUInt64 tv.tvSec
  have husec := toNat_toUInt64 tv.tvUsec
  have hsec_lt := tv.tvSec.toInt_lt
  have hsec_le := tv.tvSec.le_toInt
  have husec_lt := tv.tvUsec.toInt_lt
  have husec_le := tv.tvUsec.le_toInt
  have hthousand : (1000 : UInt32).toNat = 1000 := rfl
  unfold Timeval.epochPlus Timeval.sinceEpoch Timeval.Fits
  dsimp only
  split_ifs with hproduct
  · rw [epochPlus_returns, UInt32.toNat_mul, hthousand]
    rw [UInt64.toNat_toUInt32] at hproduct ⊢
    omega
  · rw [UInt64.toNat_toUInt32] at hproduct
    rw [Outcome.returns_panics, false_iff]
    rintro ⟨-, hpos, hlt, -⟩
    omega

theorem epochPlus_timespec_returns {ε : Type} (ts : Timespec) :
    (ts.epochPlus : Outcome ε SystemTime).Returns (fun t => t.sinceEpoch = ts.sinceEpoch) ↔ ts.Fits := by
  have hsec := toNat_toUInt64 ts.tvSec
  have hnsec := toNat_toUInt64 ts.tvNsec
  have hsec_lt := ts.tvSec.toInt_lt
  have hsec_le := ts.tvSec.le_toInt
  have hnsec_lt := ts.tvNsec.toInt_lt
  have hnsec_le := ts.tvNsec.le_toInt
  unfold Timespec.epochPlus
  rw [epochPlus_returns, UInt64.toNat_toUInt32]
  unfold Timespec.sinceEpoch Timespec.Fits
  omega

/-- A sum of seconds either fits or panics. -/
theorem epochPlus_returns_iff {ε : Type} {P : SystemTime → Prop} {ts : Timespec} :
    (ts.epochPlus : Outcome ε SystemTime).Returns P ↔
      ∃ t, (ts.epochPlus : Outcome ε SystemTime) = .ok t ∧ P t := by
  unfold Timespec.epochPlus SystemTime.epochPlus
  split_ifs
  · rw [Outcome.returns_ok]
    refine ⟨fun h => ⟨_, rfl, h⟩, ?_⟩
    rintro ⟨t, ht, h⟩
    exact Outcome.ok.inj ht ▸ h
  · rw [Outcome.returns_panics, false_iff]
    rintro ⟨t, ht, -⟩
    cases ht

/-- Two timestamps in a row. -/
theorem detailedTimestamp_returns {ε : Type} (software hardware : Timespec) :
    (software.epochPlus.bind fun s => hardware.epochPlus.bind fun h =>
        (.ok (.detailedTimestamp s h) : Outcome ε SocketLevelType)).Returns (fun level =>
        (IoControlMessageLevel.socket level).times = [software.sinceEpoch, hardware.sinceEpoch]) ↔
      software.Fits ∧ hardware.Fits := by
  rw [← @epochPlus_timespec_returns ε software, ← @epochPlus_timespec_returns ε hardware]
  simp only [Outcome.returns_bind, Outcome.returns_ok, epochPlus_returns_iff, IoControlMessageLevel.times,
    List.cons.injEq, and_true]
  constructor
  · rintro ⟨s, hs, h, hh, htimes⟩
    exact ⟨⟨s, hs, htimes.1⟩, h, hh, htimes.2⟩
  · rintro ⟨⟨s, hs, hstime⟩, h, hh, hhtime⟩
    exact ⟨s, hs, h, hh, hstime, hhtime⟩

/-! ### Each level -/

section Levels

variable {messageLevel messageType : Int32} {payload : List UInt8}

theorem ipV4_returns {level : Int32} :
    (IpV4LevelType.parse (.ofPayload level messageType payload)).Returns fun _ => True := by
  unfold IpV4LevelType.parse
  split_ifs <;>
    simp only [Outcome.returns_bind, Outcome.returns_mapErr, fromMsgInSingle_returns, Outcome.returns_ok,
      Outcome.returns_err, implies_true]

theorem ipV6_returns {level : Int32} :
    (IpV6LevelType.parse (.ofPayload level messageType payload)).Returns fun _ => True := by
  unfold IpV6LevelType.parse
  split_ifs <;>
    simp only [Outcome.returns_bind, Outcome.returns_mapErr, fromMsgInSingle_returns, Outcome.returns_ok,
      Outcome.returns_err, implies_true]

/-- The byte of a record is to name a type. -/
theorem tls_returns {level : Int32} :
    (TlsLevelType.parse (.ofPayload level messageType payload)).Returns (fun _ => True) ↔
      (messageType = tlsGetRecordType → payload.length = size UInt8 →
        (TlsRecordType.ofByte (ofBytes payload)).isSome) := by
  unfold TlsLevelType.parse
  rw [ofPayload_messageType]
  by_cases htype : messageType = tlsGetRecordType
  · rw [if_pos htype]
    simp only [Outcome.returns_bind, Outcome.returns_mapErr, fromMsgInSingle_returns, Outcome.returns_ofOption,
      Outcome.returns_ok, and_true, ← Option.isSome_iff_exists]
    exact ⟨fun h _ => h, fun h => h htype⟩
  · rw [if_neg htype, Outcome.returns_err]
    exact ⟨fun _ ht => absurd ht htype, fun _ => trivial⟩

/-- Three values or another number of them. -/
theorem timestamping_returns :
    (SocketLevelType.parse (.ofPayload solSocket scmTimestamping payload)).Returns (fun level =>
        (IoControlMessageLevel.socket level).times = timesOf solSocket scmTimestamping payload) ↔
      (payload.length = size Timespec * 3 → ∀ software middle hardware : Timespec,
        ofBytesAll 3 payload = [software, middle, hardware] → software.Fits ∧ hardware.Fits) := by
  unfold SocketLevelType.parse
  rw [ofPayload_messageType, if_neg (by decide), if_neg (by decide), if_neg (by decide), if_neg (by decide),
    if_pos rfl, Outcome.returns_bind, Outcome.returns_mapErr, fromMsgInMulti_returns, ofPayload_dataLen]
  generalize hts : (ofBytesAll (payload.length / size Timespec) payload : List Timespec) = ts
  have hcount : ts.length = payload.length / size Timespec := hts ▸ length_ofBytesAll _ payload
  by_cases hlen : payload.length = size Timespec * 3
  · have hthree : payload.length / size Timespec = 3 := by rw [hlen]; rfl
    rw [hthree] at hts hcount ⊢
    obtain ⟨software, middle, hardware, rfl⟩ := List.length_eq_three.mp hcount
    have htimes : timesOf solSocket scmTimestamping payload = [software.sinceEpoch, hardware.sinceEpoch] := by
      unfold timesOf
      rw [if_pos rfl, if_neg (by decide), if_neg (by decide), if_pos rfl, hts]
    show (payload.length = size Timespec * 3 → (Outcome.bind _ _).Returns _) ↔ _
    rw [htimes, detailedTimestamp_returns, hts]
    refine imp_congr_right fun _ => ⟨fun h _ _ _ heq => ?_, fun h => h _ _ _ rfl⟩
    obtain ⟨rfl, rfl, rfl, -⟩ : software = _ ∧ middle = _ ∧ hardware = _ ∧ True := by simpa using heq
    exact h
  · refine ⟨fun _ h => absurd h hlen, fun _ hmul => ?_⟩
    have hcount : ts.length ≠ 3 := fun hthree => hlen (by rw [hmul, ← hcount, hthree])
    split
    · exact absurd (List.length_eq_three.mpr ⟨_, _, _, rfl⟩) hcount
    · exact Outcome.returns_err.mpr trivial

/-- The timestamps are to fit. -/
theorem socket_returns :
    (SocketLevelType.parse (.ofPayload solSocket messageType payload)).Returns (fun level =>
        (IoControlMessageLevel.socket level).times = timesOf solSocket messageType payload) ↔
      (messageType = scmTimestamp → payload.length = size Timeval → (ofBytes payload : Timeval).Fits) ∧
      (messageType = scmTimestampns → payload.length = size Timespec → (ofBytes payload : Timespec).Fits) ∧
      (messageType = scmTimestamping → payload.length = size Timespec * 3 →
        ∀ software middle hardware : Timespec, ofBytesAll 3 payload = [software, middle, hardware] →
          software.Fits ∧ hardware.Fits) := by
  by_cases htv : messageType = scmTimestamp
  · subst htv
    have htimes : timesOf solSocket scmTimestamp payload = [(ofBytes payload : Timeval).sinceEpoch] := rfl
    have hns : scmTimestamp ≠ scmTimestampns := by decide
    have hing : scmTimestamp ≠ scmTimestamping := by decide
    unfold SocketLevelType.parse
    rw [ofPayload_messageType, if_neg (by decide), if_neg (by decide), if_pos rfl, htimes]
    simp [Outcome.returns_bind, Outcome.returns_mapErr, fromMsgInSingle_returns, IoControlMessageLevel.times,
      epochPlus_timeval_returns, hns, hing]
  by_cases hts : messageType = scmTimestampns
  · subst hts
    have htimes : timesOf solSocket scmTimestampns payload = [(ofBytes payload : Timespec).sinceEpoch] := by
      unfold timesOf
      rw [if_pos rfl, if_neg htv, if_pos rfl]
    have hing : scmTimestampns ≠ scmTimestamping := by decide
    unfold SocketLevelType.parse
    rw [ofPayload_messageType, if_neg (by decide), if_neg (by decide), if_neg htv, if_pos rfl, htimes]
    simp [Outcome.returns_bind, Outcome.returns_mapErr, fromMsgInSingle_returns, IoControlMessageLevel.times,
      epochPlus_timespec_returns, htv, hing]
  by_cases hing : messageType = scmTimestamping
  · subst hing
    simp only [timestamping_returns, htv, hts, false_implies, true_and, forall_const]
  have htimes : timesOf solSocket messageType payload = [] := by
    unfold timesOf
    rw [if_pos rfl, if_neg htv, if_neg hts, if_neg hing]
  simp only [htv, hts, hing, false_implies, and_self, iff_true, htimes]
  unfold SocketLevelType.parse
  rw [ofPayload_messageType, if_neg htv, if_neg hts, if_neg hing]
  split_ifs
  · simp [Outcome.returns_bind, Outcome.returns_mapErr, fromMsgInMulti_returns, IoControlMessageLevel.times]
  · simp [Outcome.returns_bind, Outcome.returns_mapErr, fromMsgInSingle_returns, IoControlMessageLevel.times]
  · exact Outcome.returns_err.mpr trivial

end Levels

/-! ### The conversions -/

/-- The conversion of a message of a level, and what is left to ask of it. -/
theorem parsesWell_iff (messageLevel messageType : Int32) (payload : List UInt8) :
    ParsesWell messageLevel messageType payload ↔ Convertible messageLevel messageType payload := by
  unfold ParsesWell IoControlMessageLevel.parse
  rw [ofPayload_messageLevel]
  by_cases hsocket : messageLevel = solSocket
  · subst hsocket
    have htls : solSocket ≠ solTls := by decide
    rw [if_pos rfl, Outcome.returns_bind, Outcome.returns_mapErr]
    simp only [Outcome.returns_ok]
    rw [socket_returns]
    constructor
    · rintro ⟨htv, hts, hing⟩
      exact ⟨fun _ => htv, fun _ => hts, fun _ => hing, fun h => absurd h htls⟩
    · intro h
      exact ⟨h.timestamp rfl, h.timestampns rfl, h.timestamping rfl⟩
  -- a message of another level has no timestamps
  have htimes : timesOf messageLevel messageType payload = [] := if_neg hsocket
  rw [if_neg hsocket, htimes]
  have hconvertible : Convertible messageLevel messageType payload ↔
      (messageLevel = solTls → messageType = tlsGetRecordType → payload.length = size UInt8 →
        (TlsRecordType.ofByte (ofBytes payload)).isSome) :=
    ⟨fun h => h.recordType, fun h =>
      ⟨fun hs => absurd hs hsocket, fun hs => absurd hs hsocket, fun hs => absurd hs hsocket, h⟩⟩
  rw [hconvertible]
  by_cases htls : messageLevel = solTls
  · subst htls
    rw [if_neg (by decide), if_neg (by decide), if_pos rfl, Outcome.returns_bind, Outcome.returns_mapErr]
    simp only [Outcome.returns_ok, IoControlMessageLevel.times, tls_returns, forall_const]
  refine iff_of_true ?_ fun h => absurd h htls
  split_ifs
  · rw [Outcome.returns_bind, Outcome.returns_mapErr]
    exact ipV4_returns.mono fun _ _ => rfl
  · rw [Outcome.returns_bind, Outcome.returns_mapErr]
    exact ipV6_returns.mono fun _ _ => rfl
  · exact trivial

/-- **A conversion does what it is to do if and only if** the timestamps of
the payload fit the unsigned types they are cast to and its record byte names
a record type; and a message is prepared, or is refused, if and only if its
timestamp is not before the epoch and its list of descriptors is not empty. -/
theorem converts_well (messageLevel messageType : Int32) (payload : List UInt8) (level : IoControlMessageLevel) :
    (ParsesWell messageLevel messageType payload ↔ Convertible messageLevel messageType payload) ∧
      (PreparesWell level ↔ level.Preparable) :=
  ⟨parsesWell_iff messageLevel messageType payload, prepare_returns level⟩

/-- A record of type 0, a timestamp of a second before the epoch, one whose
microseconds overflow, and, to be sent, a timestamp before the epoch and no
descriptors. -/
theorem not_converts_well :
    ¬ ParsesWell solTls tlsGetRecordType [0] ∧
    ¬ ParsesWell solSocket scmTimestamp (toBytes (⟨-1, 0⟩ : Timeval)) ∧
    ¬ ParsesWell solSocket scmTimestamp (toBytes (⟨0, 4294968⟩ : Timeval)) ∧
    (∃ t : SystemTime, ¬ PreparesWell (.socket (.timestamp t))) ∧
    ¬ PreparesWell (.socket (.rights [])) := by
  refine ⟨?_, ?_, ?_, ⟨⟨-1, 0, by decide, by decide, by decide⟩, ?_⟩, ?_⟩ <;> decide

end Message
end ClAsync
