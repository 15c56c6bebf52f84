/-
# What a control message loses on the way

A message is prepared or refused, unless its timestamp is before the epoch or it
has no descriptor to pass (`Preparable`).

A message that was prepared is parsed again as `received`: a timestamp is cut
to microseconds, the packet info of IPv6 has no specific destination, and a
traffic class comes back under the name of its byte. `Agrees` compares what
was sent and what was read up to these losses.

The length of a payload depends on the message only (`wireSize`): it is what
`prepare` writes (`length_payload`) and what `parse` insists on
(`dataLen_of_parse`).

Key definitions: `Preparable`, `received`, `Agrees`, `wireSize`.
Key theorems: `prepare_returns`, `parse_prepare`.
-/
import ClAsync.Io.ControlMessage

namespace ClAsync
namespace Message

open Calls Layout Time

/-! ### What is prepared -/

/-- A message whose conversion comes to an end: a timestamp is not before the
epoch, and there is a descriptor to pass. -/
def IoControlMessageLevel.Preparable : IoControlMessageLevel → Prop
  | .socket (.timestamp t) => t.NotBeforeEpoch
  | .socket (.rights fds) => fds ≠ []
  | _ => True

theorem timeval_returns {ε : Type} (t : SystemTime) :
    (timeval t : Outcome ε Timeval).Returns (fun _ => True) ↔ t.NotBeforeEpoch := by
  unfold timeval SystemTime.durationSinceEpoch SystemTime.NotBeforeEpoch
  by_cases hpos : 0 ≤ t.secs
  · rw [if_pos hpos]
    exact ⟨fun _ => hpos, fun _ => trivial⟩
  · rw [if_neg hpos]
    exact ⟨False.elim, fun h => hpos h⟩

theorem ipV4_prepare_returns (level : IpV4LevelType) : level.prepare.Returns fun _ => True := by
  cases level with
  | packetInfo pktinfo =>
    rw [IpV4LevelType.prepare]
    rcases pktinfo.tryInto with e | (pktinfo | pktinfo) <;> exact trivial
  | timeToLive ttl => exact trivial

theorem ipV6_prepare_returns (level : IpV6LevelType) : level.prepare.Returns fun _ => True := by
  cases level with
  | packetInfo pktinfo =>
    rw [IpV6LevelType.prepare]
    rcases pktinfo.tryInto with e | (pktinfo | pktinfo) <;> exact trivial
  | hopLimit hops => exact trivial
  | class_ c => exact trivial

theorem socket_prepare_returns (level : SocketLevelType) :
    level.prepare.Returns (fun _ => True) ↔ (IoControlMessageLevel.socket level).Preparable := by
  cases level with
  | rights fds => cases fds <;> simp [SocketLevelType.prepare, fillMsgOutMulti, IoControlMessageLevel.Preparable]
  | credentials creds => exact Iff.rfl
  | timestamp t =>
    rw [SocketLevelType.prepare, Outcome.returns_bind]
    exact timeval_returns t
  | detailedTimestamp software hardware => exact Iff.rfl

/-- A message is prepared or refused unless there is nothing to prepare. -/
theorem prepare_returns (level : IoControlMessageLevel) :
    level.prepare.Returns (fun _ => True) ↔ level.Preparable := by
  unfold IoControlMessageLevel.prepare
  cases level with
  | socket level => exact Outcome.returns_mapErr.trans (socket_prepare_returns level)
  | ipV4 level => exact iff_of_true (Outcome.returns_mapErr.mpr (ipV4_prepare_returns level)) trivial
  | ipV6 level => exact iff_of_true (Outcome.returns_mapErr.mpr (ipV6_prepare_returns level)) trivial
  | tls level => cases level <;> exact Iff.rfl

theorem prepare_rights {fds : List Int32} (h : fds ≠ []) :
    (IoControlMessageLevel.socket (.rights fds)).prepare = .ok ⟨solSocket, scmRights, toBytesAll fds⟩ := by
  rw [IoControlMessageLevel.prepare, SocketLevelType.prepare, fillMsgOutMulti_eq_ok.mpr ⟨h, rfl⟩, Outcome.mapErr_ok]

theorem prepare_ok_or_err {level : IoControlMessageLevel} (h : level.Preparable) :
    (∃ raw, level.prepare = .ok raw) ∨ ∃ e, level.prepare = .err e := by
  simpa using Outcome.returns_iff.mp ((prepare_returns level).mpr h)

theorem preparable_of_ok {level : IoControlMessageLevel} {raw : RawControlMessageOut} (h : level.prepare = .ok raw) :
    level.Preparable :=
  (prepare_returns level).mp (by rw [h]; trivial)

/-! ### What comes back -/

/-- What is left of a message that was sent. -/
def IoControlMessageLevel.received : IoControlMessageLevel → IoControlMessageLevel
  | .socket (.timestamp t) => .socket (.timestamp t.truncated)
  | .ipV6 (.packetInfo pktinfo) => .ipV6 (.packetInfo { pktinfo with specificDestination := none })
  | .ipV6 (.class_ c) => .ipV6 (.class_ (.ofByte c.toByte))
  | level => level

def IoControlMessageLevel.isTls : IoControlMessageLevel → Bool
  | .tls _ => true
  | _ => false

/-- A byte names a class that is sent as the byte. -/
theorem toByte_ofByte (byte : UInt8) : (IpV6TrafficClass.ofByte byte).toByte = byte := by
  have hall : ∀ n < 256, (IpV6TrafficClass.ofByte (UInt8.ofNat n)).toByte = UInt8.ofNat n := by decide +kernel
  have := hall byte.toNat byte.toNat_lt
  rwa [UInt8.ofNat_toNat] at this

section From

variable {ε α β : Type} [Plain α] {messageLevel messageType : Int32} {rest : List UInt8}

/-- A value that was filled in is retrieved. -/
theorem fromMsgInSingle_bind (a : α) (f : FromMessageInError → ε) (g : α → Outcome ε β) :
    ((fromMsgInSingle α ⟨messageLevel, messageType, (toBytes a).length, toBytes a ++ rest⟩).mapErr f).bind g =
      g a := by
  have hlen : ¬ (toBytes a).length ≠ size α := not_not.mpr (Plain.length_toBytes a)
  rw [fromMsgInSingle, if_neg hlen, loadAt_zero_append, Outcome.ofOption_some, Outcome.mapErr_ok,
    Outcome.ok_bind]

/-- So is a slice, whose length is that of the payload in values. -/
theorem fromMsgInMulti_bind (as : List α) (f : FromMessageInError → ε) (g : List α → Outcome ε β) :
    ((fromMsgInMulti α ⟨messageLevel, messageType, (toBytesAll as).length, toBytesAll as ++ rest⟩
      as.length).mapErr f).bind g = g as := by
  have hlen : ¬ (toBytesAll as).length ≠ size α * as.length := not_not.mpr (length_toBytesAll as)
  have hread : readAt (toBytesAll as ++ rest) 0 (size α * as.length) = some (toBytesAll as) :=
    @readAt_append [] (toBytesAll as) rest 0 _ (length_toBytesAll as) rfl
  have hback := ofBytesAll_toBytesAll as []
  rw [List.append_nil] at hback
  rw [fromMsgInMulti, if_neg hlen, hread, Outcome.ofOption_some, Outcome.ok_bind, hback, Outcome.mapErr_ok,
    Outcome.ok_bind]

end From

/-- The `timeval` of a time that is not before the epoch. -/
theorem timeval_eq_ok {ε : Type} {t : SystemTime} {tv : Timeval} :
    (timeval t : Outcome ε Timeval) = .ok tv ↔
      t.NotBeforeEpoch ∧ tv = ⟨Int64.ofNat t.secs.toNat, Int64.ofNat (t.nanos / 1000)⟩ := by
  unfold timeval SystemTime.durationSinceEpoch SystemTime.NotBeforeEpoch
  by_cases hpos : 0 ≤ t.secs
  · rw [if_pos hpos]
    constructor
    · intro h
      exact ⟨hpos, (Outcome.ok.inj h).symm⟩
    · rintro ⟨-, rfl⟩
      rfl
  · rw [if_neg hpos]
    constructor
    · intro h
      cases h
    · intro h
      exact absurd h.1 hpos

theorem toNat_ofNat_int64 {n : ℕ} (h : n < 2 ^ 64) : (Int64.ofNat n).toUInt64.toNat = n := by
  show (UInt64.ofNat n).toNat = n
  rw [UInt64.toNat_ofNat', Nat.mod_eq_of_lt h]

/-- A `timeval` is the time in whole microseconds. -/
theorem epochPlus_timeval {ε ε' : Type} {t : SystemTime} {tv : Timeval}
    (h : (timeval t : Outcome ε Timeval) = .ok tv) : (tv.epochPlus : Outcome ε' SystemTime) = .ok t.truncated := by
  have hlt := t.secs_lt
  have hnanos := t.nanos_lt
  obtain ⟨hpos, rfl⟩ := timeval_eq_ok.mp h
  have hpos : 0 ≤ t.secs := hpos
  have hsecs : (Int64.ofNat t.secs.toNat).toUInt64.toNat = t.secs.toNat := toNat_ofNat_int64 (by omega)
  have husec : (Int64.ofNat (t.nanos / 1000)).toUInt64.toUInt32.toNat = t.nanos / 1000 := by
    rw [UInt64.toNat_toUInt32, toNat_ofNat_int64 (by omega)]
    omega
  have hfits : t.nanos / 1000 * 1000 < 2 ^ 32 := by omega
  have hmicros : ((Int64.ofNat (t.nanos / 1000)).toUInt64.toUInt32 * 1000).toNat = t.nanos / 1000 * 1000 := by
    rw [UInt32.toNat_mul, husec]
    exact Nat.mod_eq_of_lt hfits
  have hcarry : t.nanos / 1000 * 1000 / 10 ^ 9 = 0 := by omega
  have hbound : t.secs.toNat + 0 < 2 ^ 63 := by omega
  simp only [Timeval.epochPlus, husec, if_pos hfits, SystemTime.epochPlus, hsecs, hmicros, hcarry, dif_pos hbound,
    SystemTime.truncated, Outcome.ok.injEq, SystemTime.mk.injEq]
  omega

/-- What a prepared message reads as, when more memory follows it. -/
def RawControlMessageOut.back (raw : RawControlMessageOut) (rest : List UInt8) : RawControlMessageIn :=
  ⟨raw.messageLevel, raw.messageType, raw.payload.length, raw.payload ++ rest⟩

theorem parse_prepare_socket {level : SocketLevelType} {raw : RawControlMessageOut} (rest : List UInt8)
    (h : level.prepare = .ok raw) :
    raw.messageLevel = solSocket ∧ ∃ level', SocketLevelType.parse (raw.back rest) = .ok level' ∧
      (IoControlMessageLevel.socket level).received = .socket level' := by
  cases level with
  | rights fds =>
    obtain ⟨-, rfl⟩ := fillMsgOutMulti_eq_ok.mp h
    have hn : (toBytesAll fds).length / size Int32 = fds.length := by
      rw [length_toBytesAll]
      exact Nat.mul_div_cancel_left _ (by decide)
    refine ⟨rfl, .rights fds, ?_, rfl⟩
    simp only [SocketLevelType.parse, RawControlMessageOut.back]
    rw [if_pos trivial, hn, fromMsgInMulti_bind]
  | credentials creds =>
    cases h
    have hback : Credentials.ofUcred creds.toUcred = creds := by
      simp [Credentials.ofUcred, Credentials.toUcred]
    refine ⟨rfl, .credentials creds, ?_, rfl⟩
    simp only [SocketLevelType.parse, fillMsgOutSingle, RawControlMessageOut.back]
    rw [if_neg (by decide), if_pos trivial, fromMsgInSingle_bind, hback]
  | timestamp t =>
    obtain ⟨tv, htv, h⟩ := Outcome.bind_eq_ok.mp h
    cases h
    refine ⟨rfl, .timestamp t.truncated, ?_, rfl⟩
    simp only [SocketLevelType.parse, fillMsgOutSingle, RawControlMessageOut.back]
    rw [if_neg (by decide), if_neg (by decide), if_pos trivial, fromMsgInSingle_bind,
      epochPlus_timeval htv, Outcome.ok_bind]
  | detailedTimestamp software hardware => cases h

theorem parse_prepare_ipV4 {level : IpV4LevelType} {raw : RawControlMessageOut} (rest : List UInt8)
    (h : level.prepare = .ok raw) :
    raw.messageLevel = ipprotoIp ∧ IpV4LevelType.parse (raw.back rest) = .ok level := by
  cases level with
  | packetInfo info =>
    obtain ⟨index, destination, specific⟩ := info
    simp only [IpV4LevelType.prepare, PacketInfo.tryInto] at h
    split at h
    · cases h
    · rename_i pktinfo hinto
      cases h
      split at hinto
      · rename_i bytes
        split at hinto
        · rename_i spec
          cases hinto
          refine ⟨rfl, ?_⟩
          simp only [IpV4LevelType.parse, fillMsgOutSingle, RawControlMessageOut.back]
          rw [if_pos trivial, fromMsgInSingle_bind]
          simp only [PacketInfo.ofInPktinfo, toBeBytes_fromBeBytes, UInt32.toUInt32_toInt32]
        · cases hinto
      · cases hinto
    · cases h
  | timeToLive ttl =>
    cases h
    refine ⟨rfl, ?_⟩
    simp only [IpV4LevelType.parse, fillMsgOutSingle, RawControlMessageOut.back]
    rw [if_neg (by decide), if_pos trivial, fromMsgInSingle_bind]

theorem parse_prepare_ipV6 {level : IpV6LevelType} {raw : RawControlMessageOut} (rest : List UInt8)
    (h : level.prepare = .ok raw) :
    raw.messageLevel = ipprotoIpv6 ∧ ∃ level', IpV6LevelType.parse (raw.back rest) = .ok level' ∧
      (IoControlMessageLevel.ipV6 level).received = .ipV6 level' := by
  cases level with
  | packetInfo info =>
    obtain ⟨index, destination, specific⟩ := info
    simp only [IpV6LevelType.prepare, PacketInfo.tryInto] at h
    split at h
    · cases h
    · cases h
    · rename_i pktinfo hinto
      cases h
      split at hinto
      · split at hinto <;> cases hinto
      · rename_i bytes
        cases hinto
        refine ⟨rfl, .packetInfo ⟨index, .v6 bytes, none⟩, ?_, rfl⟩
        simp only [IpV6LevelType.parse, fillMsgOutSingle, RawControlMessageOut.back]
        rw [if_pos trivial, fromMsgInSingle_bind]
        rfl
  | hopLimit hops =>
    cases h
    refine ⟨rfl, .hopLimit hops, ?_, rfl⟩
    simp only [IpV6LevelType.parse, fillMsgOutSingle, RawControlMessageOut.back]
    rw [if_neg (by decide), if_pos trivial, fromMsgInSingle_bind]
  | class_ c =>
    cases h
    refine ⟨rfl, .class_ (.ofByte c.toByte), ?_, rfl⟩
    simp only [IpV6LevelType.parse, fillMsgOutSingle, RawControlMessageOut.back]
    rw [if_neg (by decide), if_neg (by decide), if_pos trivial, fromMsgInSingle_bind]
    simp

/-- **What was prepared is parsed**, whatever follows it in memory. -/
theorem parse_prepare {level : IoControlMessageLevel} {raw : RawControlMessageOut} (rest : List UInt8)
    (htls : level.isTls = false) (h : level.prepare = .ok raw) :
    IoControlMessageLevel.parse (raw.back rest) = .ok level.received := by
  cases level with
  | socket level =>
    obtain ⟨hlevel, level', hparse, hrec⟩ := parse_prepare_socket rest (Outcome.mapErr_eq_ok.mp h)
    have heq : (raw.back rest).messageLevel = solSocket := hlevel
    rw [IoControlMessageLevel.parse, if_pos heq, hparse, Outcome.mapErr_ok, Outcome.ok_bind, hrec]
  | ipV4 level =>
    obtain ⟨hlevel, hparse⟩ := parse_prepare_ipV4 rest (Outcome.mapErr_eq_ok.mp h)
    have heq : (raw.back rest).messageLevel = ipprotoIp := hlevel
    have hne : (raw.back rest).messageLevel ≠ solSocket := by rw [heq]; decide
    rw [IoControlMessageLevel.parse, if_neg hne, if_pos heq, hparse, Outcome.mapErr_ok, Outcome.ok_bind]
    rfl
  | ipV6 level =>
    obtain ⟨hlevel, level', hparse, hrec⟩ := parse_prepare_ipV6 rest (Outcome.mapErr_eq_ok.mp h)
    have heq : (raw.back rest).messageLevel = ipprotoIpv6 := hlevel
    have hne : (raw.back rest).messageLevel ≠ solSocket := by rw [heq]; decide
    have hne' : (raw.back rest).messageLevel ≠ ipprotoIp := by rw [heq]; decide
    rw [IoControlMessageLevel.parse, if_neg hne, if_neg hne', if_pos heq, hparse, Outcome.mapErr_ok,
      Outcome.ok_bind, hrec]
  | tls level => cases htls

/-! ### The same message, up to the losses -/

/-- What was read is what was sent, but for the losses of the format:
timestamps are cut to microseconds, IPv6 packet info has no specific
destination, traffic classes are compared by their byte. -/
def Agrees : IoControlMessageLevel → IoControlMessageLevel → Prop
  | .socket (.timestamp t), level' => level' = .socket (.timestamp t.truncated)
  | .ipV6 (.packetInfo pktinfo), level' =>
    level' = .ipV6 (.packetInfo { pktinfo with specificDestination := none })
  | .ipV6 (.class_ c), .ipV6 (.class_ c') => c'.toByte = c.toByte
  | level, level' => level' = level

theorem agrees_received (level : IoControlMessageLevel) : Agrees level level.received := by
  cases level with
  | socket level => cases level <;> rfl
  | ipV4 level => rfl
  | ipV6 level =>
    cases level with
    | class_ c => exact toByte_ofByte _
    | _ => rfl
  | tls level => rfl

/-- The bytes of the payload. -/
def IoControlMessageLevel.wireSize : IoControlMessageLevel → ℕ
  | .socket (.rights fds) => size Int32 * fds.length
  | .socket (.credentials _) => size Ucred
  | .socket (.timestamp _) => size Timeval
  | .socket (.detailedTimestamp _ _) => size Timespec * 3
  | .ipV4 (.packetInfo _) => size InPktinfo
  | .ipV4 (.timeToLive _) => size Int32
  | .ipV6 (.packetInfo _) => size In6Pktinfo
  | .ipV6 (.hopLimit _) => size Int32
  | .ipV6 (.class_ _) => size Int32
  | .tls _ => size UInt8

theorem wireSize_of_agrees {level level' : IoControlMessageLevel} (h : Agrees level level') :
    level'.wireSize = level.wireSize := by
  cases level with
  | socket level =>
    cases level with
    | timestamp t =>
      rw [show level' = .socket (.timestamp t.truncated) from h]
      rfl
    | _ => exact congrArg IoControlMessageLevel.wireSize h
  | ipV4 level => exact congrArg IoControlMessageLevel.wireSize h
  | ipV6 level =>
    cases level with
    | packetInfo info =>
      rw [show level' = .ipV6 (.packetInfo { info with specificDestination := none }) from h]
      rfl
    | hopLimit hops => exact congrArg IoControlMessageLevel.wireSize h
    | class_ c =>
      cases level' with
      | ipV6 level' =>
        cases level' with
        | class_ c' => rfl
        | _ => cases h
      | _ => cases h
  | tls level => exact congrArg IoControlMessageLevel.wireSize h

theorem length_payload {level : IoControlMessageLevel} {raw : RawControlMessageOut}
    (h : level.prepare = .ok raw) : raw.payload.length = level.wireSize := by
  cases level with
  | socket level =>
    have h := Outcome.mapErr_eq_ok.mp h
    cases level with
    | rights fds =>
      obtain ⟨-, rfl⟩ := fillMsgOutMulti_eq_ok.mp h
      exact length_toBytesAll fds
    | credentials creds => cases h; exact Plain.length_toBytes _
    | timestamp t =>
      obtain ⟨tv, -, h⟩ := Outcome.bind_eq_ok.mp h
      cases h
      exact Plain.length_toBytes tv
    | detailedTimestamp software hardware => cases h
  | ipV4 level =>
    have h := Outcome.mapErr_eq_ok.mp h
    cases level with
    | packetInfo info =>
      simp only [IpV4LevelType.prepare] at h
      split at h <;> cases h
      exact Plain.length_toBytes _
    | timeToLive ttl => cases h; exact Plain.length_toBytes _
  | ipV6 level =>
    have h := Outcome.mapErr_eq_ok.mp h
    cases level with
    | packetInfo info =>
      simp only [IpV6LevelType.prepare] at h
      split at h <;> cases h
      exact Plain.length_toBytes _
    | hopLimit hops => cases h; exact Plain.length_toBytes _
    | class_ c => cases h; exact Plain.length_toBytes _
  | tls level =>
    have h := Outcome.mapErr_eq_ok.mp h
    cases level with
    | setRecordType recordType => cases h; exact Plain.length_toBytes _
    | getRecordType recordType => cases h

section From

variable {ε α β : Type} [Plain α] {msg : RawControlMessageIn} {f : FromMessageInError → ε} {b : β}

/-- A value is only retrieved from data of its size. -/
theorem dataLen_of_single {g : α → Outcome ε β} (h : ((fromMsgInSingle α msg).mapErr f).bind g = .ok b) :
    msg.dataLen = size α ∧ ∃ a, g a = .ok b := by
  obtain ⟨a, hread, h⟩ := Outcome.bind_eq_ok.mp h
  have hread := Outcome.mapErr_eq_ok.mp hread
  unfold fromMsgInSingle at hread
  split at hread
  · cases hread
  · rename_i hlen
    exact ⟨not_not.mp hlen, a, h⟩

theorem dataLen_of_multi {n : ℕ} {g : List α → Outcome ε β}
    (h : ((fromMsgInMulti α msg n).mapErr f).bind g = .ok b) :
    ∃ as, msg.dataLen = size α * as.length ∧ g as = .ok b := by
  obtain ⟨as, hread, h⟩ := Outcome.bind_eq_ok.mp h
  have hread := Outcome.mapErr_eq_ok.mp hread
  unfold fromMsgInMulti at hread
  split at hread
  · cases hread
  · rename_i hlen
    obtain ⟨bytes, -, hbytes⟩ := Outcome.bind_eq_ok.mp hread
    cases hbytes
    refine ⟨_, ?_, h⟩
    rw [length_ofBytesAll]
    exact not_not.mp hlen

end From

theorem dataLen_of_parse_socket {cmsg : RawControlMessageIn} {level : SocketLevelType}
    (h : SocketLevelType.parse cmsg = .ok level) :
    cmsg.dataLen = (IoControlMessageLevel.socket level).wireSize := by
  unfold SocketLevelType.parse at h
  split at h
  · obtain ⟨fds, hlen, h⟩ := dataLen_of_multi h
    cases h
    exact hlen
  split at h
  · obtain ⟨hlen, creds, h⟩ := dataLen_of_single h
    cases h
    exact hlen
  split at h
  · obtain ⟨hlen, tv, h⟩ := dataLen_of_single h
    obtain ⟨t, -, h⟩ := Outcome.bind_eq_ok.mp h
    cases h
    exact hlen
  split at h
  · -- a `timespec` is as long as a `timeval`
    obtain ⟨hlen, ts, h⟩ := dataLen_of_single h
    obtain ⟨t, -, h⟩ := Outcome.bind_eq_ok.mp h
    cases h
    exact hlen
  split at h
  · obtain ⟨ts, hlen, h⟩ := dataLen_of_multi h
    split at h
    · obtain ⟨software, -, h⟩ := Outcome.bind_eq_ok.mp h
      obtain ⟨hardware, -, h⟩ := Outcome.bind_eq_ok.mp h
      cases h
      exact hlen
    · cases h
  · cases h

theorem dataLen_of_parse_ipV4 {cmsg : RawControlMessageIn} {level : IpV4LevelType}
    (h : IpV4LevelType.parse cmsg = .ok level) :
    cmsg.dataLen = (IoControlMessageLevel.ipV4 level).wireSize := by
  unfold IpV4LevelType.parse at h
  split at h
  · obtain ⟨hlen, pktinfo, h⟩ := dataLen_of_single h
    cases h
    exact hlen
  split at h
  · obtain ⟨hlen, ttl, h⟩ := dataLen_of_single h
    cases h
    exact hlen
  split at h
  · obtain ⟨-, err, h⟩ := dataLen_of_single h
    cases h
  · cases h

theorem dataLen_of_parse_ipV6 {cmsg : RawControlMessageIn} {level : IpV6LevelType}
    (h : IpV6LevelType.parse cmsg = .ok level) :
    cmsg.dataLen = (IoControlMessageLevel.ipV6 level).wireSize := by
  unfold IpV6LevelType.parse at h
  split at h
  · obtain ⟨hlen, pktinfo, h⟩ := dataLen_of_single h
    cases h
    exact hlen
  split at h
  · obtain ⟨hlen, hops, h⟩ := dataLen_of_single h
    cases h
    exact hlen
  split at h
  · obtain ⟨hlen, c, h⟩ := dataLen_of_single h
    cases h
    exact hlen
  split at h
  · obtain ⟨-, err, h⟩ := dataLen_of_single h
    cases h
  · cases h

theorem dataLen_of_parse_tls {cmsg : RawControlMessageIn} {level : TlsLevelType}
    (h : TlsLevelType.parse cmsg = .ok level) : cmsg.dataLen = (IoControlMessageLevel.tls level).wireSize := by
  unfold TlsLevelType.parse at h
  split at h
  · exact (dataLen_of_single h).1
  · cases h

/-- A parsed message has the length of its payload. -/
theorem dataLen_of_parse {cmsg : RawControlMessageIn} {level : IoControlMessageLevel}
    (h : IoControlMessageLevel.parse cmsg = .ok level) : cmsg.dataLen = level.wireSize := by
  unfold IoControlMessageLevel.parse at h
  split at h
  · obtain ⟨level, hparse, h⟩ := Outcome.bind_eq_ok.mp h
    cases h
    exact dataLen_of_parse_socket (Outcome.mapErr_eq_ok.mp hparse)
  split at h
  · obtain ⟨level, hparse, h⟩ := Outcome.bind_eq_ok.mp h
    cases h
    exact dataLen_of_parse_ipV4 (Outcome.mapErr_eq_ok.mp hparse)
  split at h
  · obtain ⟨level, hparse, h⟩ := Outcome.bind_eq_ok.mp h
    cases h
    exact dataLen_of_parse_ipV6 (Outcome.mapErr_eq_ok.mp hparse)
  split at h
  · obtain ⟨level, hparse, h⟩ := Outcome.bind_eq_ok.mp h
    cases h
    exact dataLen_of_parse_tls (Outcome.mapErr_eq_ok.mp hparse)
  · cases h

end Message
end ClAsync
