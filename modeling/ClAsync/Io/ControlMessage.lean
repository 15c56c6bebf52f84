/-
# Control messages, one at a time

What a control message says (`IoControlMessageLevel`), and the level, the
type and the payload it is sent as: `prepare` writes a message's payload,
`parse` reads one. The structs of `libc` are laid out in memory as on 64-bit
Linux. A cast between machine integers wraps, and a sum or a product that
overflows panics.

Some of what can be said cannot be sent: a `DetailedTimestamp`, and the record
type that the kernel reports. And `Rights` without a descriptor is copied
through the pointer of an empty `Vec`, which leads nowhere.

Key definitions: `IoControlMessageLevel`, `prepare`, `parse`.
-/
import ClAsync.Lib.Layout
import ClAsync.Lib.Outcome
import ClAsync.Lib.Time
import ClAsync.Net.Address

namespace ClAsync
namespace Message

open Calls Layout Time
open Net (IpAddress)

/-! ### The structs of `libc` -/

/-- `libc::ucred`. -/
structure Ucred where
  pid : Int32
  uid : UInt32
  gid : UInt32
  deriving DecidableEq, Repr

/-- `libc::in_pktinfo`. -/
structure InPktinfo where
  ipiIfindex : Int32
  /-- `s_addr` of the field. -/
  ipiSpecDst : UInt32
  /-- `s_addr` of the field. -/
  ipiAddr : UInt32
  deriving DecidableEq, Repr

/-- `libc::in6_pktinfo`. -/
structure In6Pktinfo where
  ipi6Addr : Vector UInt8 16
  ipi6Ifindex : UInt32
  deriving DecidableEq, Repr

/-- `libc::timeval`. -/
structure Timeval where
  tvSec : Int64
  tvUsec : Int64
  deriving DecidableEq, Repr

/-- `libc::timespec`. -/
structure Timespec where
  tvSec : Int64
  tvNsec : Int64
  deriving DecidableEq, Repr

/-- `libc::sock_extended_err`. -/
structure SockExtendedErr where
  eeErrno : UInt32
  eeOrigin : UInt8
  eeType : UInt8
  eeCode : UInt8
  eePad : UInt8
  eeInfo : UInt32
  eeData : UInt32
  deriving DecidableEq, Repr

instance : Plain Ucred :=
  Plain.ofRetract (fun c => (c.pid, c.uid, c.gid)) (fun x => ⟨x.1, x.2.1, x.2.2⟩) fun _ => rfl

instance : Plain InPktinfo :=
  Plain.ofRetract (fun p => (p.ipiIfindex, p.ipiSpecDst, p.ipiAddr)) (fun x => ⟨x.1, x.2.1, x.2.2⟩) fun _ => rfl

instance : Plain In6Pktinfo :=
  Plain.ofRetract (fun p => (p.ipi6Addr, p.ipi6Ifindex)) (fun x => ⟨x.1, x.2⟩) fun _ => rfl

instance : Plain Timeval := Plain.ofRetract (fun t => (t.tvSec, t.tvUsec)) (fun x => ⟨x.1, x.2⟩) fun _ => rfl

instance : Plain Timespec := Plain.ofRetract (fun t => (t.tvSec, t.tvNsec)) (fun x => ⟨x.1, x.2⟩) fun _ => rfl

instance : Plain SockExtendedErr :=
  Plain.ofRetract (fun e => (e.eeErrno, e.eeOrigin, e.eeType, e.eeCode, e.eePad, e.eeInfo, e.eeData))
    (fun x => ⟨x.1, x.2.1, x.2.2.1, x.2.2.2.1, x.2.2.2.2.1, x.2.2.2.2.2.1, x.2.2.2.2.2.2⟩) fun _ => rfl

@[simp] theorem size_int32 : size Int32 = 4 := rfl
@[simp] theorem size_ucred : size Ucred = 12 := rfl
@[simp] theorem size_inPktinfo : size InPktinfo = 12 := rfl
@[simp] theorem size_in6Pktinfo : size In6Pktinfo = 20 := rfl
@[simp] theorem size_timeval : size Timeval = 16 := rfl
@[simp] theorem size_timespec : size Timespec = 16 := rfl

/-! The levels of control messages, and the types at each level. -/

/-- `SOL_SOCKET`. -/
def solSocket : Int32 := 1
/-- `IPPROTO_IP`. -/
def ipprotoIp : Int32 := 0
/-- `IPPROTO_IPV6`. -/
def ipprotoIpv6 : Int32 := 41
/-- `SOL_TLS`. -/
def solTls : Int32 := 282

/-- `SCM_RIGHTS`. -/
def scmRights : Int32 := 1
/-- `SCM_CREDENTIALS`. -/
def scmCredentials : Int32 := 2
/-- `SCM_TIMESTAMP`. -/
def scmTimestamp : Int32 := 29
/-- `SCM_TIMESTAMPNS`. -/
def scmTimestampns : Int32 := 35
/-- `SCM_TIMESTAMPING`. -/
def scmTimestamping : Int32 := 37

/-- `IP_TTL`. -/
def ipTtl : Int32 := 2
/-- `IP_PKTINFO`. -/
def ipPktinfo : Int32 := 8
/-- `IP_RECVERR`. -/
def ipRecverr : Int32 := 11

/-- `IPV6_RECVERR`. -/
def ipv6Recverr : Int32 := 25
/-- `IPV6_PKTINFO`. -/
def ipv6Pktinfo : Int32 := 50
/-- `IPV6_HOPLIMIT`. -/
def ipv6Hoplimit : Int32 := 52
/-- `IPV6_TCLASS`. -/
def ipv6Tclass : Int32 := 67

/-- `TLS_SET_RECORD_TYPE`. -/
def tlsSetRecordType : Int32 := 1
/-- `TLS_GET_RECORD_TYPE`. -/
def tlsGetRecordType : Int32 := 2

/-! ### The messages -/

/-- The process that sent a message. -/
structure Credentials where
  processId : UInt32
  userId : UInt32
  groupId : UInt32
  deriving DecidableEq, Repr

/-- `From<libc::ucred> for Credentials`. -/
def Credentials.ofUcred (ucred : Ucred) : Credentials := ⟨ucred.pid.toUInt32, ucred.uid, ucred.gid⟩

/-- `Into<libc::ucred> for Credentials`. -/
def Credentials.toUcred (creds : Credentials) : Ucred := ⟨creds.processId.toInt32, creds.userId, creds.groupId⟩

/-- The interface and the addresses of a packet. -/
structure PacketInfo where
  interfaceIndex : UInt32
  destination : IpAddress
  specificDestination : Option IpAddress
  deriving DecidableEq, Repr

/-- The packet info of either family. -/
inductive LibCPktInfo
  | v4 (pktinfo : InPktinfo)
  | v6 (pktinfo : In6Pktinfo)
  deriving DecidableEq, Repr

/-- `u32::from_be_bytes`. -/
def fromBeBytes (bytes : Vector UInt8 4) : UInt32 := UInt32.ofNat (leNat bytes.toList.reverse)

/-- `u32::to_be_bytes`. -/
def toBeBytes (x : UInt32) : Vector UInt8 4 := Vector.ofFn fun i => (leBytes 4 x.toNat).reverse.getD i.val 0

theorem toBytes_fromBeBytes (bytes : Vector UInt8 4) : toBytes (fromBeBytes bytes) = bytes.toList.reverse :=
  Full.toBytes_ofBytes _ (by rw [List.length_reverse, Vector.length_toList]; rfl)

theorem toList_toBeBytes (x : UInt32) : (toBeBytes x).toList = (toBytes x).reverse := by
  have hlen : (toBytes x).reverse.length = 4 := by rw [List.length_reverse, Plain.length_toBytes]; rfl
  have hofFn : (toBeBytes x).toList = List.ofFn fun i : Fin 4 => (toBytes x).reverse.getD i.val 0 :=
    Vector.toList_ofFn
  rw [hofFn]
  apply List.ext_getElem
  · rw [List.length_ofFn, hlen]
  · intro i hi hi'
    rw [List.getElem_ofFn]
    exact (List.getElem_eq_getD 0).symm

theorem toBeBytes_fromBeBytes (bytes : Vector UInt8 4) : toBeBytes (fromBeBytes bytes) = bytes := by
  rw [← Vector.toList_inj, toList_toBeBytes, toBytes_fromBeBytes, List.reverse_reverse]

/-- `From<libc::in_pktinfo> for PacketInfo`. -/
def PacketInfo.ofInPktinfo (pktinfo : InPktinfo) : PacketInfo :=
  ⟨pktinfo.ipiIfindex.toUInt32, .v4 (toBeBytes pktinfo.ipiAddr), some (.v4 (toBeBytes pktinfo.ipiSpecDst))⟩

/-- `From<libc::in6_pktinfo> for PacketInfo`. -/
def PacketInfo.ofIn6Pktinfo (pktinfo : In6Pktinfo) : PacketInfo :=
  ⟨pktinfo.ipi6Ifindex, .v6 pktinfo.ipi6Addr, none⟩

/-- The destination and the specific destination are not of one family. -/
structure PacketInfoConversionError where
  info : PacketInfo
  deriving DecidableEq, Repr

/-- `TryInto<LibCPktInfo> for PacketInfo`. -/
def PacketInfo.tryInto (info : PacketInfo) : Except PacketInfoConversionError LibCPktInfo :=
  match info.destination with
  | .v4 bytes =>
    match info.specificDestination with
    | some (.v4 spec) => .ok (.v4 ⟨info.interfaceIndex.toInt32, fromBeBytes spec, fromBeBytes bytes⟩)
    | _ => .error ⟨info⟩
  | .v6 bytes => .ok (.v6 ⟨bytes, info.interfaceIndex⟩)

/-- Explicit congestion notification, the two low bits of a traffic class. -/
inductive IpV6Ecn
  | notEct
  | ect0
  | ect1
  | ce
  deriving DecidableEq, Repr

/-- The differentiated services code point, the six high bits of a traffic
class. -/
inductive IpV6Dscp
  | default
  | classSelector1
  | classSelector2
  | classSelector3
  | classSelector4
  | classSelector5
  | classSelector6
  | classSelector7
  | expeditedForwarding
  | assuredForwarding11
  | assuredForwarding12
  | assuredForwarding13
  | assuredForwarding21
  | assuredForwarding22
  | assuredForwarding23
  | assuredForwarding31
  | assuredForwarding32
  | assuredForwarding33
  | assuredForwarding41
  | assuredForwarding42
  | assuredForwarding43
  | other (value : UInt8)
  deriving DecidableEq, Repr

/-- A traffic class, by its two parts. -/
structure IpV6TrafficClass where
  explicitCongestionNotification : IpV6Ecn
  differentiatedServicesCodePoint : IpV6Dscp
  deriving DecidableEq, Repr

namespace IpV6TrafficClass

/-- `From<u8> for IpV6TrafficClass`. -/
def ofByte (byte : UInt8) : IpV6TrafficClass :=
  let ecn := match byte &&& 0b11 with
    | 0 => IpV6Ecn.notEct
    | 1 => .ect1
    | 2 => .ect0
    | _ => .ce
  let raw := (byte &&& 0b11111100) >>> 2
  let dscp := match raw with
    | 0 => IpV6Dscp.default
    | 8 => .classSelector1
    | 16 => .classSelector2
    | 24 => .classSelector3
    | 32 => .classSelector4
    | 40 => .classSelector5
    | 48 => .classSelector6
    | 56 => .classSelector7
    | 46 => .expeditedForwarding
    | 10 => .assuredForwarding11
    | 12 => .assuredForwarding12
    | 14 => .assuredForwarding13
    | 18 => .assuredForwarding21
    | 20 => .assuredForwarding22
    | 22 => .assuredForwarding23
    | 26 => .assuredForwarding31
    | 28 => .assuredForwarding32
    | 30 => .assuredForwarding33
    | 34 => .assuredForwarding41
    | 36 => .assuredForwarding42
    | 38 => .assuredForwarding43
    | raw => .other raw
  ⟨ecn, dscp⟩

/-- `Into<u8> for IpV6TrafficClass`. -/
def toByte (c : IpV6TrafficClass) : UInt8 :=
  let ecn : UInt8 := match c.explicitCongestionNotification with
    | .notEct => 0
    | .ect0 => 2
    | .ect1 => 1
    | .ce => 3
  let dscp : UInt8 := match c.differentiatedServicesCodePoint with
    | .default => 0
    | .classSelector1 => 8
    | .classSelector2 => 16
    | .classSelector3 => 24
    | .classSelector4 => 32
    | .classSelector5 => 40
    | .classSelector6 => 48
    | .classSelector7 => 56
    | .expeditedForwarding => 46
    | .assuredForwarding11 => 10
    | .assuredForwarding12 => 12
    | .assuredForwarding13 => 14
    | .assuredForwarding21 => 18
    | .assuredForwarding22 => 20
    | .assuredForwarding23 => 22
    | .assuredForwarding31 => 26
    | .assuredForwarding32 => 28
    | .assuredForwarding33 => 30
    | .assuredForwarding41 => 34
    | .assuredForwarding42 => 36
    | .assuredForwarding43 => 38
    | .other value => value
  dscp <<< 2 ||| ecn

end IpV6TrafficClass

/-- The type of a TLS record. -/
inductive TlsRecordType
  | changeCipherSpec
  | alert
  | handshake
  | applicationData
  | heartbeat
  deriving DecidableEq, Repr

/-- The discriminant, which is the type's only byte. -/
def TlsRecordType.toByte : TlsRecordType → UInt8
  | .changeCipherSpec => 20
  | .alert => 21
  | .handshake => 22
  | .applicationData => 23
  | .heartbeat => 24

/-- A byte that is no discriminant is no value of the type. -/
def TlsRecordType.ofByte : UInt8 → Option TlsRecordType
  | 20 => some .changeCipherSpec
  | 21 => some .alert
  | 22 => some .handshake
  | 23 => some .applicationData
  | 24 => some .heartbeat
  | _ => none

/-- The messages of `SOL_SOCKET`. -/
inductive SocketLevelType
  | rights (fds : List Int32)
  | credentials (creds : Credentials)
  | timestamp (timestamp : SystemTime)
  | detailedTimestamp (software hardware : SystemTime)
  deriving DecidableEq, Repr

/-- The messages of `IPPROTO_IP`. -/
inductive IpV4LevelType
  | packetInfo (pktinfo : PacketInfo)
  | timeToLive (ttl : Int32)
  deriving DecidableEq, Repr

/-- The messages of `IPPROTO_IPV6`. -/
inductive IpV6LevelType
  | packetInfo (pktinfo : PacketInfo)
  | hopLimit (hops : Int32)
  | class_ (c : IpV6TrafficClass)
  deriving DecidableEq, Repr

/-- The messages of `SOL_TLS`. -/
inductive TlsLevelType
  | setRecordType (recordType : TlsRecordType)
  | getRecordType (recordType : TlsRecordType)
  deriving DecidableEq, Repr

/-- A control message of one of the four levels. -/
inductive IoControlMessageLevel
  | socket (level : SocketLevelType)
  | ipV4 (level : IpV4LevelType)
  | ipV6 (level : IpV6LevelType)
  | tls (level : TlsLevelType)
  deriving DecidableEq, Repr

/-! ### Errors -/

/-- `CSockExtendedError`, with the fields of the struct. -/
structure CSockExtendedError where
  errno : UInt32
  origin : UInt8
  type_ : UInt8
  code : UInt8
  pad : UInt8
  info : UInt32
  data : UInt32
  deriving DecidableEq, Repr

/-- `From<libc::sock_extended_err> for CSockExtendedError`. -/
def CSockExtendedError.ofSockExtendedErr (err : SockExtendedErr) : CSockExtendedError :=
  ⟨err.eeErrno, err.eeOrigin, err.eeType, err.eeCode, err.eePad, err.eeInfo, err.eeData⟩

/-- A payload does not have the length of its type. -/
structure FromMessageInError where
  expected : ℕ
  actual : ℕ
  deriving DecidableEq, Repr

/-- The level has no message of the type. -/
inductive ParseControlMessageTypeError
  | invalidControlMessageTypeForLevel (messageType messageLevel : Int32)
  deriving DecidableEq, Repr

/-- Why a message of `SOL_SOCKET` is not parsed. -/
inductive ParseControlMessageSocketError
  | failedToRetrieveFileDescriptors (e : FromMessageInError)
  | failedToRetrieveCredentials (e : FromMessageInError)
  | failedToRetrieveTimestamp (e : FromMessageInError)
  | invalidNumberOfTimestamps (expected actual : ℕ)
  | parseControlMessageTypeError (e : ParseControlMessageTypeError)
  deriving DecidableEq, Repr

/-- Why a message of `IPPROTO_IP` is not parsed; also the error that it
reports. -/
inductive ParseControlMessageIpV4Error
  | failedToRetrieveTimeToLive (e : FromMessageInError)
  | failedToRetrievePacketInfo (e : FromMessageInError)
  | failedToRetrieveExtendedError (e : FromMessageInError)
  | extendedSocketError (e : CSockExtendedError)
  | parseControlMessageTypeError (e : ParseControlMessageTypeError)
  deriving DecidableEq, Repr

/-- Why a message of `IPPROTO_IPV6` is not parsed; also the error that it
reports. -/
inductive ParseControlMessageIpV6Error
  | failedToRetrievePacketInfo (e : FromMessageInError)
  | failedToRetrieveHopLimit (e : FromMessageInError)
  | failedToRetrieveTrafficClass (e : FromMessageInError)
  | failedToRetrieveExtendedError (e : FromMessageInError)
  | extendedSocketError (e : CSockExtendedError)
  | parseControlMessageTypeError (e : ParseControlMessageTypeError)
  deriving DecidableEq, Repr

/-- Why a message of `SOL_TLS` is not parsed. -/
inductive ParseControlMessageTlsError
  | failedToRetrieveRecordType (e : FromMessageInError)
  | parseControlMessageTypeError (e : ParseControlMessageTypeError)
  deriving DecidableEq, Repr

/-- Why a control message is not parsed. -/
inductive ParseControlMessageError
  | prepareControlMessageTypeError (e : ParseControlMessageSocketError)
  | prepareControlMessageIpV4Error (e : ParseControlMessageIpV4Error)
  | prepareControlMessageIpV6Error (e : ParseControlMessageIpV6Error)
  | prepareControlMessageTlsError (e : ParseControlMessageTlsError)
  | invalidControlMessageLevel (level : Int32)
  | nullPointer
  | invalidControlMessageLength (expected actual : ℕ)
  deriving DecidableEq, Repr

/-- A message of the type is only received. -/
inductive PrepareControlMessageTypeError
  | unsendableControlMessageType (messageType : Int32)
  deriving DecidableEq, Repr

/-- Why a message of `SOL_SOCKET` is not prepared. -/
inductive PrepareControlMessageSocketError
  | prepareControlMessageTypeError (e : PrepareControlMessageTypeError)
  deriving DecidableEq, Repr

/-- Why a message of `IPPROTO_IP` is not prepared. -/
inductive PrepareControlMessageIpV4Error
  | packetInfoConversionError (e : PacketInfoConversionError)
  | expectedIpV4PacketInfo
  | prepareControlMessageTypeError (e : PrepareControlMessageTypeError)
  deriving DecidableEq, Repr

/-- Why a message of `IPPROTO_IPV6` is not prepared. -/
inductive PrepareControlMessageIpV6Error
  | packetInfoConversionError (e : PacketInfoConversionError)
  | expectedIpV6PacketInfo
  | prepareControlMessageTypeError (e : PrepareControlMessageTypeError)
  deriving DecidableEq, Repr

/-- Why a message of `SOL_TLS` is not prepared. -/
inductive PrepareControlMessageTlsError
  | prepareControlMessageTypeError (e : PrepareControlMessageTypeError)
  deriving DecidableEq, Repr

/-- Why a control message is not prepared. -/
inductive PrepareControlMessageError
  | prepareControlMessageTypeError (e : PrepareControlMessageSocketError)
  | prepareControlMessageIpV4Error (e : PrepareControlMessageIpV4Error)
  | prepareControlMessageIpV6Error (e : PrepareControlMessageIpV6Error)
  | prepareControlMessageTlsError (e : PrepareControlMessageTlsError)
  deriving DecidableEq, Repr

/-! ### Preparing -/

/-- A message as it is written. -/
structure RawControlMessageOut where
  messageLevel : Int32
  messageType : Int32
  payload : List UInt8
  deriving DecidableEq, Repr

section Fill

variable {α : Type} [Plain α]

/-- `fill_msg_out_multi`, whose values are `c_int`s. The pointer of a `Vec<u8>`
without a byte is 1, where no `c_int` is aligned: to copy even none there is
undefined. -/
def fillMsgOutMulti {ε : Type} (messageLevel messageType : Int32) (data : List α) : Outcome ε RawControlMessageOut :=
  match data with
  | [] => .undefined
  | data => .ok ⟨messageLevel, messageType, toBytesAll data⟩

/-- `fill_msg_out_single`. -/
def fillMsgOutSingle (messageLevel messageType : Int32) (data : α) : RawControlMessageOut :=
  ⟨messageLevel, messageType, toBytes data⟩

theorem fillMsgOutMulti_eq_ok {ε : Type} {messageLevel messageType : Int32} {data : List α}
    {raw : RawControlMessageOut} : (fillMsgOutMulti messageLevel messageType data : Outcome ε _) = .ok raw ↔
      data ≠ [] ∧ raw = ⟨messageLevel, messageType, toBytesAll data⟩ := by
  cases data with
  | nil =>
    refine iff_of_false (fun h => ?_) fun h => h.1 rfl
    cases h
  | cons a as =>
    constructor
    · intro h
      exact ⟨List.cons_ne_nil a as, (Outcome.ok.inj h).symm⟩
    · rintro ⟨-, rfl⟩
      rfl

end Fill

/-- The `timeval` of a timestamp; `unwrap` panics at one before the epoch. -/
def timeval {ε : Type} (timestamp : SystemTime) : Outcome ε Timeval :=
  match timestamp.durationSinceEpoch with
  | some (secs, nanos) => .ok ⟨Int64.ofNat secs, Int64.ofNat (nanos / 1000)⟩
  | none => .panics

/-- `prepare_control_message` of `SOL_SOCKET`. -/
def SocketLevelType.prepare : SocketLevelType → Outcome PrepareControlMessageSocketError RawControlMessageOut
  | .rights fds => fillMsgOutMulti solSocket scmRights fds
  | .credentials creds => .ok (fillMsgOutSingle solSocket scmCredentials creds.toUcred)
  | .timestamp t => (timeval t).bind fun tv => .ok (fillMsgOutSingle solSocket scmTimestamp tv)
  -- `DetailedTimestamp` is not sendable
  | .detailedTimestamp _ _ =>
    .err (.prepareControlMessageTypeError (.unsendableControlMessageType scmTimestamping))

/-- `prepare_control_message` of `IPPROTO_IP`. -/
def IpV4LevelType.prepare : IpV4LevelType → Outcome PrepareControlMessageIpV4Error RawControlMessageOut
  | .packetInfo pktinfo =>
    match pktinfo.tryInto with
    | .error e => .err (.packetInfoConversionError e)
    | .ok (.v4 pktinfo) => .ok (fillMsgOutSingle ipprotoIp ipPktinfo pktinfo)
    | .ok (.v6 _) => .err .expectedIpV4PacketInfo
  | .timeToLive ttl => .ok (fillMsgOutSingle ipprotoIp ipTtl ttl)

/-- `prepare_control_message` of `IPPROTO_IPV6`. -/
def IpV6LevelType.prepare : IpV6LevelType → Outcome PrepareControlMessageIpV6Error RawControlMessageOut
  | .packetInfo pktinfo =>
    match pktinfo.tryInto with
    | .error e => .err (.packetInfoConversionError e)
    | .ok (.v4 _) => .err .expectedIpV6PacketInfo
    | .ok (.v6 pktinfo) => .ok (fillMsgOutSingle ipprotoIpv6 ipv6Pktinfo pktinfo)
  | .hopLimit hops => .ok (fillMsgOutSingle ipprotoIpv6 ipv6Hoplimit hops)
  -- the class is sent as a `c_int`
  | .class_ c => .ok (fillMsgOutSingle ipprotoIpv6 ipv6Tclass c.toByte.toUInt32.toInt32)

/-- `prepare_control_message` of `SOL_TLS`. -/
def TlsLevelType.prepare : TlsLevelType → Outcome PrepareControlMessageTlsError RawControlMessageOut
  | .setRecordType recordType => .ok (fillMsgOutSingle solTls tlsSetRecordType recordType.toByte)
  | .getRecordType _ => .err (.prepareControlMessageTypeError (.unsendableControlMessageType tlsGetRecordType))

/-- `prepare_control_message`. -/
def IoControlMessageLevel.prepare :
    IoControlMessageLevel → Outcome PrepareControlMessageError RawControlMessageOut
  | .socket level => level.prepare.mapErr .prepareControlMessageTypeError
  | .ipV4 level => level.prepare.mapErr .prepareControlMessageIpV4Error
  | .ipV6 level => level.prepare.mapErr .prepareControlMessageIpV6Error
  | .tls level => level.prepare.mapErr .prepareControlMessageTlsError

/-! ### Parsing -/

/-- A message as it is found; `data` is the memory from `data_ptr` on. -/
structure RawControlMessageIn where
  messageLevel : Int32
  messageType : Int32
  dataLen : ℕ
  data : List UInt8
  deriving DecidableEq, Repr

/-- `from_msg_in_multi`. -/
def fromMsgInMulti (α : Type) [Plain α] (msg : RawControlMessageIn) (n : ℕ) :
    Outcome FromMessageInError (List α) :=
  if msg.dataLen ≠ size α * n then .err ⟨size α * n, msg.dataLen⟩
  else (Outcome.ofOption (readAt msg.data 0 (size α * n))).bind fun bytes => .ok (ofBytesAll n bytes)

/-- `from_msg_in_single`. -/
def fromMsgInSingle (α : Type) [Plain α] (msg : RawControlMessageIn) : Outcome FromMessageInError α :=
  if msg.dataLen ≠ size α then .err ⟨size α, msg.dataLen⟩
  else Outcome.ofOption (loadAt α msg.data 0)

/-- `UNIX_EPOCH` plus a `timeval`, the product of whose microseconds is a
`u32`. -/
def Timeval.epochPlus {ε : Type} (tv : Timeval) : Outcome ε SystemTime :=
  let usec := tv.tvUsec.toUInt64.toUInt32
  if usec.toNat * 1000 < 2 ^ 32 then SystemTime.epochPlus tv.tvSec.toUInt64 (usec * 1000) else .panics

/-- `UNIX_EPOCH` plus a `timespec`. -/
def Timespec.epochPlus {ε : Type} (ts : Timespec) : Outcome ε SystemTime :=
  SystemTime.epochPlus ts.tvSec.toUInt64 ts.tvNsec.toUInt64.toUInt32

/-- `parse_control_message` of `SOL_SOCKET`. -/
def SocketLevelType.parse (cmsg : RawControlMessageIn) : Outcome ParseControlMessageSocketError SocketLevelType :=
  if cmsg.messageType = scmRights then
    ((fromMsgInMulti Int32 cmsg (cmsg.dataLen / size Int32)).mapErr
      .failedToRetrieveFileDescriptors).bind fun fds =>
    .ok (.rights fds)
  else if cmsg.messageType = scmCredentials then
    ((fromMsgInSingle Ucred cmsg).mapErr .failedToRetrieveCredentials).bind fun creds =>
    .ok (.credentials (.ofUcred creds))
  else if cmsg.messageType = scmTimestamp then
    ((fromMsgInSingle Timeval cmsg).mapErr .failedToRetrieveTimestamp).bind fun tv =>
    tv.epochPlus.bind fun t =>
    .ok (.timestamp t)
  else if cmsg.messageType = scmTimestampns then
    ((fromMsgInSingle Timespec cmsg).mapErr .failedToRetrieveTimestamp).bind fun ts =>
    ts.epochPlus.bind fun t =>
    .ok (.timestamp t)
  else if cmsg.messageType = scmTimestamping then
    ((fromMsgInMulti Timespec cmsg (cmsg.dataLen / size Timespec)).mapErr
      .failedToRetrieveTimestamp).bind fun ts =>
    match ts with
    | [software, _, hardware] =>
      software.epochPlus.bind fun software =>
      hardware.epochPlus.bind fun hardware =>
      .ok (.detailedTimestamp software hardware)
    | _ => .err (.invalidNumberOfTimestamps 3 ts.length)
  else
    .err (.parseControlMessageTypeError (.invalidControlMessageTypeForLevel cmsg.messageType solSocket))

/-- `parse_control_message` of `IPPROTO_IP`. -/
def IpV4LevelType.parse (cmsg : RawControlMessageIn) : Outcome ParseControlMessageIpV4Error IpV4LevelType :=
  if cmsg.messageType = ipPktinfo then
    ((fromMsgInSingle InPktinfo cmsg).mapErr .failedToRetrievePacketInfo).bind fun pktinfo =>
    .ok (.packetInfo (.ofInPktinfo pktinfo))
  else if cmsg.messageType = ipTtl then
    ((fromMsgInSingle Int32 cmsg).mapErr .failedToRetrieveTimeToLive).bind fun ttl =>
    .ok (.timeToLive ttl)
  else if cmsg.messageType = ipRecverr then
    ((fromMsgInSingle SockExtendedErr cmsg).mapErr .failedToRetrieveExtendedError).bind fun err =>
    .err (.extendedSocketError (.ofSockExtendedErr err))
  else
    .err (.parseControlMessageTypeError (.invalidControlMessageTypeForLevel cmsg.messageType ipprotoIp))

/-- `parse_control_message` of `IPPROTO_IPV6`. -/
def IpV6LevelType.parse (cmsg : RawControlMessageIn) : Outcome ParseControlMessageIpV6Error IpV6LevelType :=
  if cmsg.messageType = ipv6Pktinfo then
    ((fromMsgInSingle In6Pktinfo cmsg).mapErr .failedToRetrievePacketInfo).bind fun pktinfo =>
    .ok (.packetInfo (.ofIn6Pktinfo pktinfo))
  else if cmsg.messageType = ipv6Hoplimit then
    ((fromMsgInSingle Int32 cmsg).mapErr .failedToRetrieveHopLimit).bind fun hops =>
    .ok (.hopLimit hops)
  else if cmsg.messageType = ipv6Tclass then
    ((fromMsgInSingle Int32 cmsg).mapErr .failedToRetrieveTrafficClass).bind fun c =>
    .ok (.class_ (.ofByte c.toUInt32.toUInt8))
  else if cmsg.messageType = ipv6Recverr then
    ((fromMsgInSingle SockExtendedErr cmsg).mapErr .failedToRetrieveExtendedError).bind fun err =>
    .err (.extendedSocketError (.ofSockExtendedErr err))
  else
    .err (.parseControlMessageTypeError (.invalidControlMessageTypeForLevel cmsg.messageType ipprotoIpv6))

/-- `parse_control_message` of `SOL_TLS`. The byte is taken for a discriminant. -/
def TlsLevelType.parse (cmsg : RawControlMessageIn) : Outcome ParseControlMessageTlsError TlsLevelType :=
  if cmsg.messageType = tlsGetRecordType then
    ((fromMsgInSingle UInt8 cmsg).mapErr .failedToRetrieveRecordType).bind fun byte =>
    (Outcome.ofOption (TlsRecordType.ofByte byte)).bind fun recordType =>
    .ok (.getRecordType recordType)
  else
    .err (.parseControlMessageTypeError (.invalidControlMessageTypeForLevel cmsg.messageType solTls))

/-- `parse_control_message`. -/
def IoControlMessageLevel.parse (cmsg : RawControlMessageIn) :
    Outcome ParseControlMessageError IoControlMessageLevel :=
  if cmsg.messageLevel = solSocket then
    ((SocketLevelType.parse cmsg).mapErr .prepareControlMessageTypeError).bind fun level => .ok (.socket level)
  else if cmsg.messageLevel = ipprotoIp then
    ((IpV4LevelType.parse cmsg).mapErr .prepareControlMessageIpV4Error).bind fun level => .ok (.ipV4 level)
  else if cmsg.messageLevel = ipprotoIpv6 then
    ((IpV6LevelType.parse cmsg).mapErr .prepareControlMessageIpV6Error).bind fun level => .ok (.ipV6 level)
  else if cmsg.messageLevel = solTls then
    ((TlsLevelType.parse cmsg).mapErr .prepareControlMessageTlsError).bind fun level => .ok (.tls level)
  else
    .err (.invalidControlMessageLevel cmsg.messageLevel)

end Message
end ClAsync
