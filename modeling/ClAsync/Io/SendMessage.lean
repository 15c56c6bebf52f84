/-
# What `sendmsg` is given

An `IoSendMessage` is assembled by its builder and prepared by
`IoSendMsgData::new`: the control messages are encoded into a buffer, the data
becomes iovecs, the address a `sockaddr_storage`, and a `msghdr` points to the
three. `Describes` says what the kernel finds there, and `Faithful` that a
message that can be sent is described, and fails for no other reason.

The builder can leave a list of control messages that is there and empty. It is
encoded into an empty buffer, and an `IoInputBuffer` refuses to be empty.
`faithful_iff` says that nothing else goes wrong, but for the control messages
whose encoding does: one with more than 2^30 - 6 file descriptors, which does not
fit its header, one with none, and a timestamp before the epoch.

Key definitions: `IoSendMsgData.new`, `BuilderCall`, `Encodes`, `Describes`,
`Faithful`.
Key theorems: `describes_new` and `faithful_iff`.
-/
import ClAsync.Io.ControlCodec
import ClAsync.Io.Entries
import ClAsync.Net.Endpoints
import Mathlib.Algebra.Order.BigOperators.Group.List
import Mathlib.Algebra.Order.Ring.Nat

namespace ClAsync
namespace SendMsg

open Calls (Outcome)
open Layout
open Message (IoControlMessage RawControlMessageOut Cmsghdr tryPrepareMulti)
open Net

/-! ### The message and its builder -/

/-- `IoSendMessageDataBufferType`: one buffer, or several. -/
inductive IoSendMessageDataBufferType
  | bytes (buffer : List UInt8)
  | vec (buffers : List (List UInt8))
  deriving DecidableEq, Repr

/-- The buffers, in order. -/
def IoSendMessageDataBufferType.buffers : IoSendMessageDataBufferType → List (List UInt8)
  | bytes buffer => [buffer]
  | vec buffers => buffers

/-- `IoSendMessage`, every part of which may be missing. -/
structure IoSendMessage where
  data : Option IoSendMessageDataBufferType
  control : Option (List IoControlMessage)
  address : Option PeerAddress

namespace IoSendMessage

/-- `IoSendMessage::new`; the address is set later. -/
def new (data : Option IoSendMessageDataBufferType) (control : Option (List IoControlMessage)) : IoSendMessage :=
  ⟨data, control, none⟩

/-- `IoSendMessage::default`. -/
def default : IoSendMessage := ⟨none, none, none⟩

variable (m : IoSendMessage)

/-- `set_address`. -/
def setAddress (address : PeerAddress) : IoSendMessage := { m with address := some address }

/-- `clear_address`. -/
def clearAddress : IoSendMessage := { m with address := none }

/-- `add_control_message`, after those that are there. -/
def addControlMessage (message : IoControlMessage) : IoSendMessage :=
  { m with control := some (m.control.getD [] ++ [message]) }

/-- `add_control_messages`, in their order. -/
def addControlMessages (messages : List IoControlMessage) : IoSendMessage :=
  { m with control := some (m.control.getD [] ++ messages) }

/-- `clear_control_messages`. -/
def clearControlMessages : IoSendMessage := { m with control := none }

/-- `set_data_buffer`, in the place of all data. -/
def setDataBuffer (buffer : List UInt8) : IoSendMessage := { m with data := some (.bytes buffer) }

/-- `set_data_buffers`. -/
def setDataBuffers (buffers : List (List UInt8)) : IoSendMessage := { m with data := some (.vec buffers) }

/-- `clear_data_buffers`. -/
def clearDataBuffers : IoSendMessage := { m with data := none }

/-- `clear`: nothing of the message remains. -/
def clear : IoSendMessage → IoSendMessage
  | _ => ⟨none, none, none⟩

end IoSendMessage

/-- A call of the builder. -/
inductive BuilderCall
  | setAddress (address : PeerAddress)
  | clearAddress
  | addControlMessage (message : IoControlMessage)
  | addControlMessages (messages : List IoControlMessage)
  | clearControlMessages
  | setDataBuffer (buffer : List UInt8)
  | setDataBuffers (buffers : List (List UInt8))
  | clearDataBuffers
  | clear

/-- One call. -/
def IoSendMessage.call (m : IoSendMessage) : BuilderCall → IoSendMessage
  | .setAddress address => m.setAddress address
  | .clearAddress => m.clearAddress
  | .addControlMessage message => m.addControlMessage message
  | .addControlMessages messages => m.addControlMessages messages
  | .clearControlMessages => m.clearControlMessages
  | .setDataBuffer buffer => m.setDataBuffer buffer
  | .setDataBuffers buffers => m.setDataBuffers buffers
  | .clearDataBuffers => m.clearDataBuffers
  | .clear => m.clear

/-- The message after these calls. -/
def IoSendMessage.assemble (m : IoSendMessage) (calls : List BuilderCall) : IoSendMessage :=
  calls.foldl IoSendMessage.call m

/-! ### Iovecs -/

/-- The loop of `generate_iovecs_single`: `chunk` is all that a `Bytes` has
left. `iov_base` is the start of the buffer with the index `i`. -/
def generateIovecsSingle (i : ℕ) (buffer : List UInt8) : List Iovec :=
  if buffer.isEmpty then [] else [⟨i, buffer.length⟩]

/-- The loop of `generate_iovecs` of a `Vec<Bytes>`, from the index `i` on. -/
def generateIovecsFrom (i : ℕ) : List (List UInt8) → List Iovec
  | [] => []
  | buffer :: buffers => generateIovecsSingle i buffer ++ generateIovecsFrom (i + 1) buffers

/-- `generate_iovecs`. -/
def IoSendMessageDataBufferType.generateIovecs (iovMax : ℕ) (data : IoSendMessageDataBufferType) :
    Except InvalidIoVecError (List Iovec) :=
  let iovecs := match data with
    | bytes buffer => generateIovecsSingle 0 buffer
    | vec buffers => generateIovecsFrom 0 buffers
  (assertIovecsValid iovMax iovecs).map fun _ => iovecs

/-! ### Preparing -/

/-- A `libc::msghdr`; a pointer is what it points to, or null. -/
structure Msghdr where
  msgName : Option SockaddrStorage
  msgNamelen : ℕ
  msgIov : Option (List Iovec)
  msgIovlen : ℕ
  msgControl : Option (List UInt8)
  msgControllen : ℕ
  deriving DecidableEq, Repr

/-- `PreparedIoMessageInner`: what `sendmsg` needs, and the `msghdr` that points
into it. -/
structure PreparedIoMessageInner where
  buffers : Option IoSendMessageDataBufferType
  control : Option IoInputBuffer
  address : Option SockaddrStorage
  iovec : Option (List Iovec)
  msghdr : Msghdr
  deriving DecidableEq, Repr

/-- `PreparedIoMessageInner::new`. -/
def PreparedIoMessageInner.new (buffers : Option IoSendMessageDataBufferType) (iovec : Option (List Iovec))
    (control : Option IoInputBuffer) (controlLen : ℕ) (name : Option SockaddrStorage) (nameLen : ℕ) :
    PreparedIoMessageInner where
  buffers := buffers
  control := control
  address := name
  iovec := iovec
  msghdr :=
    { msgName := name
      msgNamelen := nameLen
      msgIov := iovec
      msgIovlen := (iovec.map List.length).getD 0
      msgControl := control.map IoInputBuffer.data
      msgControllen := controlLen }

/-- `PreparedIoMessageBuilder`. -/
structure PreparedIoMessageBuilder where
  buffers : Option IoSendMessageDataBufferType
  control : Option IoInputBuffer
  controlLen : ℕ
  iovec : Option (List Iovec)
  name : Option SockaddrStorage
  nameLen : ℕ
  deriving DecidableEq, Repr

namespace PreparedIoMessageBuilder

/-- Nothing has been set. -/
def new : PreparedIoMessageBuilder := ⟨none, none, 0, none, none, 0⟩

variable (b : PreparedIoMessageBuilder)

/-- `set_buffers`, which fails for too many iovecs. -/
def setBuffers (iovMax : ℕ) (buffers : IoSendMessageDataBufferType) :
    Outcome IoSubmissionError PreparedIoMessageBuilder :=
  match buffers.generateIovecs iovMax with
  | .error e => .err (.invalidIoInputBufferError e)
  | .ok iovecs => .ok { b with buffers := some buffers, iovec := some iovecs }

/-- `set_control`; the length is that of the bytes. -/
def setControl (control : IoInputBuffer) : PreparedIoMessageBuilder :=
  { b with controlLen := control.readableLen, control := some control }

/-- `set_address`: the length is that of the address family. -/
def setAddress (address : PeerAddress) : Outcome IoSubmissionError PreparedIoMessageBuilder :=
  let len := match address.addr.ip.version with
    | .v4 => size SockaddrIn
    | .v6 => size SockaddrIn6
  .ok { b with name := some address.addr.into, nameLen := len }

/-- `build`. -/
def build : PreparedIoMessageInner :=
  .new b.buffers b.iovec b.control b.controlLen b.name b.nameLen

end PreparedIoMessageBuilder

/-- `PreparedIoMessage` is the pinned `PreparedIoMessageInner`. -/
structure IoSendMsgData where
  flags : ℤ
  preparedMsg : Option PreparedIoMessageInner
  deriving DecidableEq, Repr

section New

variable (alloc : (n : ℕ) → Vector UInt8 n) (iovMax : ℕ)

/-- The part of `IoSendMsgData::new` that prepares the control messages. -/
def prepareControl (control : Option (List IoControlMessage)) (builder : PreparedIoMessageBuilder) :
    Outcome IoSubmissionError PreparedIoMessageBuilder :=
  match control with
  | some control =>
    ((tryPrepareMulti alloc control).mapErr .failedToPrepareControlMessages).bind fun bytes =>
    match IoInputBuffer.new bytes with
    | .error e => .err (.inputBufferSubmissionError (.invalidInputBuffer e))
    | .ok controlBuffer => .ok (builder.setControl controlBuffer)
  | none => .ok builder

/-- The part that prepares the data. -/
def prepareData (data : Option IoSendMessageDataBufferType) (builder : PreparedIoMessageBuilder) :
    Outcome IoSubmissionError PreparedIoMessageBuilder :=
  match data with
  | some data => builder.setBuffers iovMax data
  | none => .ok builder

/-- The part that prepares the address. -/
def prepareAddress (address : Option PeerAddress) (builder : PreparedIoMessageBuilder) :
    Outcome IoSubmissionError PreparedIoMessageBuilder :=
  match address with
  | some address => builder.setAddress address
  | none => .ok builder

/-- `IoSendMsgData::new`, where `alloc n` is a fresh buffer of `n` bytes. -/
def IoSendMsgData.new (message : IoSendMessage) (flags : ℤ) : Outcome IoSubmissionError IoSendMsgData :=
  (prepareControl alloc message.control .new).bind fun builder =>
  (prepareData iovMax message.data builder).bind fun builder =>
  (prepareAddress message.address builder).bind fun builder =>
  .ok ⟨flags, some builder.build⟩

end New

/-! ### What the kernel finds -/

/-- The control area of the messages: for each a header that announces its
length, its payload, and padding up to the next multiple of eight. -/
inductive Encodes : List IoControlMessage → List UInt8 → Prop
  | nil : Encodes [] []
  | cons {msg : IoControlMessage} {msgs : List IoControlMessage} {raw : RawControlMessageOut} {hdr : Cmsghdr}
      {pad bytes : List UInt8} (hraw : msg.level.prepare = .ok raw) (hlen : hdr.cmsgLen.toNat = 16 + raw.payload.length)
      (hlevel : hdr.cmsgLevel = raw.messageLevel) (htype : hdr.cmsgType = raw.messageType)
      (hpad : 16 + raw.payload.length + pad.length = 16 + (raw.payload.length + 7) / 8 * 8)
      (h : Encodes msgs bytes) : Encodes (msg :: msgs) (toBytes hdr ++ (raw.payload ++ (pad ++ bytes)))

/-- The bytes that an iovec covers, if they are in the buffer. -/
def iovecBytes (buffers : List (List UInt8)) (iovec : Iovec) : Option (List UInt8) :=
  buffers[iovec.buffer]?.bind fun buffer => if iovec.len ≤ buffer.length then some (buffer.take iovec.len) else none

/-- The iovecs cover the data, in order. -/
def DescribesData (inner : PreparedIoMessageInner) : Option IoSendMessageDataBufferType → Prop
  | none => inner.msghdr.msgIov = none ∧ inner.msghdr.msgIovlen = 0
  | some data => inner.buffers = some data ∧ ∃ (iovecs : List Iovec) (parts : List (List UInt8)),
      inner.msghdr.msgIov = some iovecs ∧ inner.msghdr.msgIovlen = iovecs.length ∧
      iovecs.map (iovecBytes data.buffers) = parts.map some ∧ parts.flatten = data.buffers.flatten

/-- The control area has the messages and nothing else. -/
def DescribesControl (inner : PreparedIoMessageInner) (control : Option (List IoControlMessage)) : Prop :=
  (inner.msghdr.msgControl.getD []).length = inner.msghdr.msgControllen ∧
    Encodes (control.getD []) (inner.msghdr.msgControl.getD [])

/-- The name is the address, and as long as one of its family. -/
def DescribesAddress (inner : PreparedIoMessageInner) : Option PeerAddress → Prop
  | none => inner.msghdr.msgName = none ∧ inner.msghdr.msgNamelen = 0
  | some address => ∃ storage, inner.msghdr.msgName = some storage ∧ PeerAddress.tryFrom storage = .ok address ∧
      inner.msghdr.msgNamelen = match address.addr.ip with
        | .v4 _ => 16
        | .v6 _ => 28

/-- The `msghdr` describes exactly the message. -/
structure Describes (message : IoSendMessage) (inner : PreparedIoMessageInner) : Prop where
  data : DescribesData inner message.data
  control : DescribesControl inner message.control
  address : DescribesAddress inner message.address

/-- No control message is refused as not sendable, and the data, when there is
some, has chunks that are not empty, and not too many. -/
structure CanBeSent (iovMax : ℕ) (message : IoSendMessage) : Prop where
  control : ∀ control ∈ message.control, ∀ msg ∈ control, ¬ msg.Rejected
  data : ∀ data ∈ message.data, 1 ≤ (data.buffers.filter (· ≠ [])).length ∧
    (data.buffers.filter (· ≠ [])).length ≤ iovMax

/-- A message that can be sent is described, and only one that cannot fails. -/
structure Faithful (alloc : (n : ℕ) → Vector UInt8 n) (iovMax : ℕ) (flags : ℤ) (message : IoSendMessage) : Prop where
  describes : CanBeSent iovMax message → ∃ inner, IoSendMsgData.new alloc iovMax message flags = .ok ⟨flags, some inner⟩ ∧
    Describes message inner
  fails : (∀ d, IoSendMsgData.new alloc iovMax message flags ≠ .ok d) → ¬ CanBeSent iovMax message

/-- The control messages are not a list that is there and empty, and each of
them can be prepared and fits its header. -/
structure Encodable (message : IoSendMessage) : Prop where
  notEmpty : message.control ≠ some []
  fits : ∀ control ∈ message.control, ∀ msg ∈ control, msg.level.Preparable ∧ msg.Fits

/-! ### The data -/

theorem length_generateIovecsFrom (buffers : List (List UInt8)) (i : ℕ) :
    (generateIovecsFrom i buffers).length = (buffers.filter (· ≠ [])).length := by
  induction buffers generalizing i with
  | nil => rfl
  | cons buffer buffers ih =>
    rw [generateIovecsFrom, List.length_append, ih, generateIovecsSingle]
    cases buffer with
    | nil => simp
    | cons byte rest => simp [Nat.add_comm]

/-- The iovecs from the index of a buffer on cover what is not empty of the
rest. -/
theorem map_iovecBytes (before buffers : List (List UInt8)) :
    (generateIovecsFrom before.length buffers).map (iovecBytes (before ++ buffers)) =
      (buffers.filter (· ≠ [])).map some := by
  induction buffers generalizing before with
  | nil => rfl
  | cons buffer buffers ih =>
    have ih := ih (before ++ [buffer])
    rw [List.length_append, List.length_singleton, List.append_assoc, List.singleton_append] at ih
    rw [generateIovecsFrom, List.map_append, ih, generateIovecsSingle]
    cases buffer with
    | nil => simp
    | cons byte rest => simp [iovecBytes]

/-- One buffer is a list of one. -/
theorem generateIovecs_eq (iovMax : ℕ) (data : IoSendMessageDataBufferType) : data.generateIovecs iovMax =
    (assertIovecsValid iovMax (generateIovecsFrom 0 data.buffers)).map fun _ => generateIovecsFrom 0 data.buffers := by
  cases data with
  | bytes buffer =>
    have happend : generateIovecsFrom 0 [buffer] = generateIovecsSingle 0 buffer := List.append_nil _
    rw [IoSendMessageDataBufferType.buffers, happend]
    rfl
  | vec buffers => rfl

theorem generateIovecs_ok {iovMax : ℕ} {data : IoSendMessageDataBufferType}
    (h : 1 ≤ (data.buffers.filter (· ≠ [])).length ∧ (data.buffers.filter (· ≠ [])).length ≤ iovMax) :
    data.generateIovecs iovMax = .ok (generateIovecsFrom 0 data.buffers) := by
  rw [← length_generateIovecsFrom data.buffers 0] at h
  have hvalid : assertIovecsValid iovMax (generateIovecsFrom 0 data.buffers) = .ok () := by
    unfold assertIovecsValid
    rw [if_neg, if_neg (Nat.not_lt.mpr h.2)]
    rw [List.isEmpty_iff]
    intro hnil
    rw [hnil] at h
    exact absurd h.1 (by decide)
  rw [generateIovecs_eq, hvalid]
  rfl

/-! ### The control area -/

section Control

variable {msgs : List IoControlMessage} {raws : List RawControlMessageOut} {bytes : List UInt8}

/-- Messages that fit are encoded. -/
theorem encodes_of_row (hrow : Message.Row raws bytes)
    (hprep : List.Forall₂ (fun msg raw => msg.level.prepare = .ok raw) msgs raws)
    (hfits : ∀ raw ∈ raws, Message.PayloadFits raw.payload.length) : Encodes msgs bytes := by
  induction hrow generalizing msgs with
  | nil =>
    cases hprep
    exact .nil
  | @cons raw raws pad bytes hpad _ ih =>
    cases hprep with
    | cons hraw hprep =>
      have hfit := hfits raw List.mem_cons_self
      have hspace := Message.cmsgSpace_of_fits hfit
      exact .cons hraw (Message.header_cmsgLen_of_fits hfit) rfl rfl (by omega)
        (ih hprep fun raw hraw => hfits raw (List.mem_cons_of_mem _ hraw))

/-- The bytes that a message takes, whatever its length. -/
def fullSpace (raw : RawControlMessageOut) : ℕ := 16 + (raw.payload.length + 7) / 8 * 8

theorem length_encodes (h : Encodes msgs bytes)
    (hprep : List.Forall₂ (fun msg raw => msg.level.prepare = .ok raw) msgs raws) :
    bytes.length = (raws.map fullSpace).sum := by
  induction h generalizing raws with
  | nil =>
    cases hprep
    rfl
  | @cons msg msgs raw hdr pad bytes hraw hlen hlevel htype hpad _ ih =>
    cases hprep with
    | cons hraw' hprep =>
      cases hraw.symm.trans hraw'
      have hrest := ih hprep
      simp only [List.length_append, Plain.length_toBytes, Message.size_cmsghdr, List.map_cons, List.sum_cons, fullSpace]
      omega

/-- The buffer has the space that the macros compute. -/
theorem length_tryPrepareMulti {alloc : (n : ℕ) → Vector UInt8 n} (h : tryPrepareMulti alloc msgs = .ok bytes) :
    ∃ raws, List.Forall₂ (fun msg raw => msg.level.prepare = .ok raw) msgs raws ∧
      bytes.length = (raws.map fun raw => (Message.withSpace raw).2).sum := by
  obtain ⟨prepared, hall, hput⟩ := Outcome.bind_eq_ok.mp h
  obtain ⟨raws, hprep, rfl⟩ := Message.prepareAll_eq_ok hall
  refine ⟨raws, hprep, ?_⟩
  rw [(Message.putAll_keeps hput).1, Vector.length_toList, List.map_map]
  rfl

/-- A `c_uint` is never too much. -/
theorem withSpace_le (raw : RawControlMessageOut) : (Message.withSpace raw).2 ≤ fullSpace raw := by
  simp only [Message.withSpace, fullSpace, Message.cmsgSpace, Message.cUint, Message.cmsgAlign, Message.size_cmsghdr]
  omega

/-- And it is enough only for what fits. -/
theorem fits_of_withSpace {raw : RawControlMessageOut} (h : (Message.withSpace raw).2 = fullSpace raw) :
    Message.PayloadFits raw.payload.length := by
  simp only [Message.withSpace, fullSpace, Message.cmsgSpace, Message.cUint] at h
  unfold Message.PayloadFits
  omega

theorem fits_of_sum (h : (raws.map fun raw => (Message.withSpace raw).2).sum = (raws.map fullSpace).sum) :
    ∀ raw ∈ raws, Message.PayloadFits raw.payload.length := by
  induction raws with
  | nil => exact fun raw hraw => (by cases hraw)
  | cons raw raws ih =>
    have hraw := withSpace_le raw
    have hraws : (raws.map fun raw => (Message.withSpace raw).2).sum ≤ (raws.map fullSpace).sum :=
      List.sum_le_sum fun raw _ => withSpace_le raw
    simp only [List.map_cons, List.sum_cons] at h
    intro raw' hmem
    obtain rfl | hmem := List.mem_cons.mp hmem
    · exact fits_of_withSpace (by omega)
    · exact ih (by omega) raw' hmem

end Control

/-! ### The three parts -/

section Parts

variable {alloc : (n : ℕ) → Vector UInt8 n} {iovMax : ℕ} {builder builder' : PreparedIoMessageBuilder}

theorem prepareControl_ok {control : Option (List IoControlMessage)}
    (hrej : ∀ msgs ∈ control, ∀ msg ∈ msgs, ¬ msg.Rejected) (hne : control ≠ some [])
    (hfits : ∀ msgs ∈ control, ∀ msg ∈ msgs, msg.level.Preparable ∧ msg.Fits) :
    ∃ builder, prepareControl alloc control .new = .ok builder ∧ DescribesControl builder.build control := by
  cases control with
  | none => exact ⟨.new, rfl, rfl, .nil⟩
  | some msgs =>
    obtain ⟨raws, hraws⟩ := Message.exists_forall₂ fun msg hmsg =>
      (Message.prepare_ok_or_err (hfits msgs rfl msg hmsg).1).resolve_right (hrej msgs rfl msg hmsg)
    have hfits' : ∀ raw ∈ raws, Message.PayloadFits raw.payload.length := by
      intro raw hmem
      obtain ⟨msg, hmsg, hraw⟩ := Message.exists_of_forall₂_right hraws hmem
      exact (Message.payloadFits_iff hraw).mpr (hfits msgs rfl msg hmsg).2
    obtain ⟨bytes, hrow, hbytes⟩ := Message.exists_row alloc hraws hfits'
    have hencodes := encodes_of_row hrow hraws hfits'
    have hnil : bytes ≠ [] := by
      rintro rfl
      cases hencodes with
      | nil => exact hne rfl
    refine ⟨PreparedIoMessageBuilder.new.setControl ⟨bytes, hnil⟩, ?_, rfl, hencodes⟩
    rw [prepareControl, hbytes, Outcome.mapErr_ok, Outcome.ok_bind, IoInputBuffer.new, dif_neg hnil]

theorem prepareControl_frame {control : Option (List IoControlMessage)}
    (h : prepareControl alloc control builder = .ok builder') :
    builder' = { builder with control := builder'.control, controlLen := builder'.controlLen } := by
  cases control with
  | none =>
    cases h
    rfl
  | some msgs =>
    obtain ⟨bytes, -, h⟩ := Outcome.bind_eq_ok.mp h
    split at h
    · cases h
    · cases h
      rfl

/-- A list that is there and empty is refused. -/
theorem prepareControl_nil : prepareControl alloc (some []) builder =
    .err (.inputBufferSubmissionError (.invalidInputBuffer ⟨[], .emptyInputBuffer⟩)) := by
  have hempty : tryPrepareMulti alloc [] = .ok [] := by
    have hlen : (alloc 0).toList = [] := List.eq_nil_of_length_eq_zero (Vector.length_toList ..)
    show Outcome.ok (alloc 0).toList = .ok []
    rw [hlen]
  rw [prepareControl, hempty]
  rfl

/-- What a control area that describes its messages holds was prepared and
fits. -/
theorem fits_of_describes {msgs : List IoControlMessage} (h : prepareControl alloc (some msgs) .new = .ok builder)
    (hdescribes : DescribesControl builder.build (some msgs)) :
    ∀ msg ∈ msgs, msg.level.Preparable ∧ msg.Fits := by
  obtain ⟨bytes, hbytes, h⟩ := Outcome.bind_eq_ok.mp h
  have hbytes := Outcome.mapErr_eq_ok.mp hbytes
  have hcontrol : builder.build.msghdr.msgControl = some bytes := by
    unfold IoInputBuffer.new at h
    by_cases hnil : bytes = []
    · rw [dif_pos hnil] at h
      cases h
    · rw [dif_neg hnil] at h
      cases h
      rfl
  have hencodes := hdescribes.2
  rw [hcontrol] at hencodes
  obtain ⟨raws, hprep, hlen⟩ := length_tryPrepareMulti hbytes
  have hfits := fits_of_sum (hlen.symm.trans (length_encodes hencodes hprep))
  intro msg hmsg
  obtain ⟨raw, hmem, hraw⟩ := Message.exists_of_forall₂ hprep hmsg
  exact ⟨Message.preparable_of_ok hraw, (Message.payloadFits_iff hraw).mp (hfits raw hmem)⟩

theorem prepareData_ok {data : Option IoSendMessageDataBufferType}
    (h : ∀ d ∈ data, 1 ≤ (d.buffers.filter (· ≠ [])).length ∧ (d.buffers.filter (· ≠ [])).length ≤ iovMax)
    (hiovec : builder.iovec = none) :
    ∃ builder', prepareData iovMax data builder = .ok builder' ∧ DescribesData builder'.build data := by
  cases data with
  | none =>
    refine ⟨builder, rfl, hiovec, ?_⟩
    show (builder.iovec.map List.length).getD 0 = 0
    rw [hiovec]
    rfl
  | some data =>
    refine ⟨{ builder with buffers := some data, iovec := some (generateIovecsFrom 0 data.buffers) }, ?_, rfl,
      generateIovecsFrom 0 data.buffers, data.buffers.filter (· ≠ []), rfl, rfl, map_iovecBytes [] data.buffers, ?_⟩
    · rw [prepareData, PreparedIoMessageBuilder.setBuffers, generateIovecs_ok (h data rfl)]
    · exact List.flatten_filter_ne_nil

/-- The rest of the message is left alone. -/
theorem prepareData_frame {data : Option IoSendMessageDataBufferType}
    (h : prepareData iovMax data builder = .ok builder') :
    builder' = { builder with buffers := builder'.buffers, iovec := builder'.iovec } := by
  cases data with
  | none =>
    cases h
    rfl
  | some data =>
    simp only [prepareData, PreparedIoMessageBuilder.setBuffers] at h
    split at h
    · cases h
    · cases h
      rfl

theorem prepareAddress_ok (address : Option PeerAddress) (hname : builder.name = none) (hlen : builder.nameLen = 0) :
    ∃ builder', prepareAddress address builder = .ok builder' ∧ DescribesAddress builder'.build address := by
  cases address with
  | none => exact ⟨builder, rfl, hname, hlen⟩
  | some address =>
    refine ⟨_, rfl, address.addr.into, rfl, ?_, ?_⟩
    · rw [PeerAddress.tryFrom, SocketAddress.tryFrom_into]
      rfl
    · show (match address.addr.ip.version with | .v4 => size SockaddrIn | .v6 => size SockaddrIn6) = _
      cases address.addr.ip <;> rfl

theorem prepareAddress_frame {address : Option PeerAddress} (h : prepareAddress address builder = .ok builder') :
    builder' = { builder with name := builder'.name, nameLen := builder'.nameLen } := by
  cases address <;> cases h <;> rfl

/-- The message is described if its control area is, and its data has no
fault. -/
theorem describes_new {message : IoSendMessage} (flags : ℤ)
    (hcontrol : ∃ builder, prepareControl alloc message.control .new = .ok builder ∧
      DescribesControl builder.build message.control)
    (hdata : ∀ d ∈ message.data, 1 ≤ (d.buffers.filter (· ≠ [])).length ∧
      (d.buffers.filter (· ≠ [])).length ≤ iovMax) :
    ∃ inner, IoSendMsgData.new alloc iovMax message flags = .ok ⟨flags, some inner⟩ ∧ Describes message inner := by
  obtain ⟨b₁, h₁, hcontrol⟩ := hcontrol
  have hiovec : b₁.iovec = none := congrArg PreparedIoMessageBuilder.iovec (prepareControl_frame h₁)
  have hname₁ : b₁.name = none := congrArg PreparedIoMessageBuilder.name (prepareControl_frame h₁)
  have hlen₁ : b₁.nameLen = 0 := congrArg PreparedIoMessageBuilder.nameLen (prepareControl_frame h₁)
  obtain ⟨b₂, h₂, hdata⟩ := prepareData_ok hdata hiovec
  have hframe₂ := prepareData_frame h₂
  have hname₂ : b₂.name = none := (congrArg PreparedIoMessageBuilder.name hframe₂).trans hname₁
  have hlen₂ : b₂.nameLen = 0 := (congrArg PreparedIoMessageBuilder.nameLen hframe₂).trans hlen₁
  obtain ⟨b₃, h₃, haddress⟩ := prepareAddress_ok message.address hname₂ hlen₂
  have hframe₃ := prepareAddress_frame h₃
  refine ⟨b₃.build, ?_, ?_, ?_, haddress⟩
  · rw [IoSendMsgData.new, h₁, Outcome.ok_bind, h₂, Outcome.ok_bind, h₃, Outcome.ok_bind]
  · rw [hframe₃]
    exact hdata
  · rw [hframe₃, hframe₂]
    exact hcontrol

/-- What has been described went through the three parts. -/
theorem describesControl_of_new {message : IoSendMessage} {flags : ℤ} {inner : PreparedIoMessageInner}
    (h : IoSendMsgData.new alloc iovMax message flags = .ok ⟨flags, some inner⟩) (hdescribes : Describes message inner) :
    ∃ builder, prepareControl alloc message.control .new = .ok builder ∧
      DescribesControl builder.build message.control := by
  obtain ⟨b₁, h₁, h⟩ := Outcome.bind_eq_ok.mp h
  obtain ⟨b₂, h₂, h⟩ := Outcome.bind_eq_ok.mp h
  obtain ⟨b₃, h₃, h⟩ := Outcome.bind_eq_ok.mp h
  cases h
  refine ⟨b₁, h₁, ?_⟩
  have hcontrol := hdescribes.control
  rw [prepareAddress_frame h₃, prepareData_frame h₂] at hcontrol
  exact hcontrol

/-! ### Every message -/

theorem faithful_iff_of_message (flags : ℤ) (message : IoSendMessage) :
    Faithful alloc iovMax flags message ↔ (CanBeSent iovMax message → Encodable message) := by
  constructor
  · intro hfaithful hcan
    obtain ⟨inner, hnew, hdescribes⟩ := hfaithful.describes hcan
    obtain ⟨builder, hbuilder, hcontrol⟩ := describesControl_of_new hnew hdescribes
    constructor
    · intro hnil
      rw [hnil, prepareControl_nil] at hbuilder
      cases hbuilder
    · intro msgs hmsgs
      rw [hmsgs] at hbuilder hcontrol
      exact fits_of_describes hbuilder hcontrol
  · intro h
    have hdescribes (hcan : CanBeSent iovMax message) : ∃ inner, IoSendMsgData.new alloc iovMax message flags =
        .ok ⟨flags, some inner⟩ ∧ Describes message inner :=
      describes_new flags (prepareControl_ok hcan.control (h hcan).notEmpty (h hcan).fits) hcan.data
    refine ⟨hdescribes, fun hfails hcan => ?_⟩
    obtain ⟨inner, hnew, -⟩ := hdescribes hcan
    exact hfails _ hnew

end Parts

/-- **The message is prepared faithfully exactly if it cannot be sent anyway,
or** its list of control messages is not there and empty, and what it has can
be prepared and fits its header. -/
theorem faithful_iff (alloc : (n : ℕ) → Vector UInt8 n) (iovMax : ℕ) (flags : ℤ)
    (data : Option IoSendMessageDataBufferType) (control : Option (List IoControlMessage)) (calls : List BuilderCall) :
    Faithful alloc iovMax flags ((IoSendMessage.new data control).assemble calls) ↔
      (CanBeSent iovMax ((IoSendMessage.new data control).assemble calls) →
        Encodable ((IoSendMessage.new data control).assemble calls)) :=
  faithful_iff_of_message flags _

/-- A byte of data, and a list of control messages that turned out to be
empty. -/
def nothingAdded : List BuilderCall := [.setDataBuffer [1], .addControlMessages []]

theorem faithful_fails : ¬ Faithful (fun n => Vector.replicate n 0) 1024 0
    ((IoSendMessage.new none none).assemble nothingAdded) := by
  intro h
  have hcan : CanBeSent 1024 ((IoSendMessage.new none none).assemble nothingAdded) := by
    constructor
    · intro msgs hmsgs msg hmsg
      cases hmsgs
      cases hmsg
    · intro data hdata
      cases hdata
      exact ⟨by decide, by decide⟩
  obtain ⟨inner, hnew, -⟩ := h.describes hcan
  have herr : IoSendMsgData.new (fun n => Vector.replicate n 0) 1024
      ((IoSendMessage.new none none).assemble nothingAdded) 0 =
        .err (.inputBufferSubmissionError (.invalidInputBuffer ⟨[], .emptyInputBuffer⟩)) := rfl
  rw [herr] at hnew
  cases hnew

end SendMsg
end ClAsync
