/-
# What `recvmsg` returns

A `PendingIoMessage` is a `msghdr` whose pointers lead to the caller's buffers
and to room for an address. The kernel writes a message there, and
`IoRecvMsgData::get_completion` makes an `IoRecvMessage` of what it finds: the
flags, the address, the control messages, and the buffers, moved ahead over
what was written.

The control messages are read where the kernel wrote them, at an address of the
caller's choice.

With `TRUNCATE` the kernel returns the length of the message, which may be more
than there was room for. The walk over the buffers does not know: a buffer
that is full and comes before the end of that many bytes gets bytes that nobody
wrote (`reported_iff`).

`received_of_sent` puts the two ends together, `IoSendMsgData::new` and this.

Key definitions: `fill`, `getCompletion`, `Reports`, `Passes`.
Key theorems: `reported_iff`, `received_of_sent`.
-/
import ClAsync.Io.Recovery
import ClAsync.Io.SendMessage

namespace ClAsync
namespace RecvMsg

open Calls (Outcome)
open Message (Area IoControlMessage ParseControlMessageError tryParseFromMsghdr Agrees)
open Net
open SendMsg (IoSendMessage IoSendMsgData IoSendMessageDataBufferType PreparedIoMessageInner)

/-! ### The kernel -/

/-- The bits of `IoRecvMsgOutputFlags`. -/
abbrev IoRecvMsgOutputFlags := UInt32

namespace IoRecvMsgOutputFlags

/-- `MSG_EOR`. -/
def endOfRecord : IoRecvMsgOutputFlags := 0x80
/-- `MSG_TRUNC`. -/
def truncated : IoRecvMsgOutputFlags := 0x20
/-- `MSG_CTRUNC`. -/
def controlTruncated : IoRecvMsgOutputFlags := 0x8
/-- `MSG_OOB`. -/
def outOfBand : IoRecvMsgOutputFlags := 0x1
/-- `MSG_ERRQUEUE`. -/
def errQueue : IoRecvMsgOutputFlags := 0x2000

/-- `from_bits_truncate`. -/
def fromBitsTruncate (bits : UInt32) : IoRecvMsgOutputFlags :=
  bits &&& (endOfRecord ||| truncated ||| controlTruncated ||| outOfBand ||| errQueue)

end IoRecvMsgOutputFlags

/-- What the kernel writes, and what it returns: the bytes of the data, the name
and its length, the control area, the flags. -/
structure Answer where
  data : List UInt8
  name : SockaddrStorage
  namelen : ℕ
  control : List UInt8
  flags : UInt32
  result : ℕ
  deriving DecidableEq, Repr

/-- The buffers with what the kernel wrote. -/
def fill (p : PendingIoMessage) (answer : Answer) : IoRecvMsgOutputBuffers where
  data := p.buffers.data.map fun bs => ⟨kernelFill (p.iovec.getD []) answer.data bs.data⟩
  control := p.buffers.control.map fun b => ⟨b.data.write answer.control⟩

/-- The room for data. -/
def dataRoom (buffers : IoRecvMsgOutputBuffers) : ℕ := (buffers.data.map fun bs => room bs.data).getD 0

/-- The room for control messages. -/
def controlRoom (buffers : IoRecvMsgOutputBuffers) : ℕ := (buffers.control.map fun b => b.data.spare.length).getD 0

/-- The kernel writes what there is room for. It returns the number of bytes of
data, or a larger one when that was all the room. -/
structure Answer.Fits (answer : Answer) (buffers : IoRecvMsgOutputBuffers) : Prop where
  data : answer.data.length ≤ dataRoom buffers
  control : answer.control.length ≤ controlRoom buffers
  result : answer.result = answer.data.length ∨
    (answer.data.length = dataRoom buffers ∧ dataRoom buffers ≤ answer.result)

/-! ### The completion -/

/-- `IoRecvMessage`, what a `recvmsg` gives to its caller. -/
structure IoRecvMessage where
  buffers : RecvMsgBuffers
  address : Option PeerAddress
  flags : IoRecvMsgOutputFlags
  bytesReceived : ℕ
  controlBytesReceived : ℕ
  parsedControl : Option (List IoControlMessage)
  deriving DecidableEq, Repr

/-- `parse_address`. -/
def parseAddress (name : SockaddrStorage) (namelen : ℕ) : Except UnsupportedAddressFamilyError (Option PeerAddress) :=
  if namelen = 0 then .ok none else (PeerAddress.tryFrom name).map some

/-- `parse_control`, of the first `controllen` bytes of the control area. -/
def parseControl (area : Area) (controllen : ℕ) :
    Outcome ParseControlMessageError (Option (List IoControlMessage)) :=
  if controllen = 0 then .ok none
  else (tryParseFromMsghdr ⟨⟨area.addr, area.bytes.take controllen⟩⟩).bind fun control => .ok (some control)

/-- `extract_control_buffer`. -/
def extractControlBuffer (reserved : List UInt8) (control : Option IoOutputBuffer) (controllen : ℕ) :
    Except IoOutputBufferIntoBytesError (Option BytesMut) :=
  match control with
  | some control => (control.intoBytes reserved controllen).map some
  | none => .ok none

/-- An error is logged, and there are no control messages. -/
def orNone {ε ε' α : Type} : Outcome ε (Option α) → Outcome ε' (Option α)
  | .ok a => .ok a
  | .err _ => .ok none
  | .panics => .panics
  | .undefined => .undefined
  | .diverges => .diverges

/-- `IoRecvMsgData::get_completion`, once the kernel has filled the buffers. The
control area is at `controlAddr`. -/
def getCompletion (reserved : ℕ → List UInt8) (reservedControl : List UInt8) (controlAddr : ℕ)
    (buffers : Option IoRecvMsgOutputBuffers) (name : SockaddrStorage) (namelen controllen : ℕ) (msgFlags : UInt32) (resultCode : ℕ) :
    Outcome Empty IoRecvMessage :=
  match buffers with
  | none => .ok ⟨⟨none, none⟩, none, 0, 0, 0, none⟩
  | some buffers =>
    let flags := IoRecvMsgOutputFlags.fromBitsTruncate msgFlags
    let address := match parseAddress name namelen with
      | .ok address => address
      | .error _ => none
    let area := (buffers.control.map fun b => b.data.spare).getD []
    (orNone (parseControl ⟨controlAddr, area⟩ controllen)).bind fun parsedControl =>
    let data := recvmsgBuffers reserved (buffers.data.map IoVecOutputBuffer.data) resultCode
    let control := match extractControlBuffer reservedControl buffers.control controllen with
      | .ok control => control
      | .error e => some e.intoBuffer
    .ok ⟨⟨data, control⟩, address, flags, resultCode, controllen, parsedControl⟩

/-- The whole of a `recvmsg` that the kernel answers. -/
def complete (reserved : ℕ → List UInt8) (reservedControl : List UInt8) (controlAddr : ℕ) (p : PendingIoMessage)
    (answer : Answer) : Outcome Empty IoRecvMessage :=
  getCompletion reserved reservedControl controlAddr (some (fill p answer)) answer.name answer.namelen answer.control.length
    answer.flags answer.result

/-- The message says what the kernel wrote, and nothing else. -/
structure Reports (controlAddr : ℕ) (buffers : IoRecvMsgOutputBuffers) (answer : Answer) (msg : IoRecvMessage) :
    Prop where
  data : msg.buffers.data.map (List.map BytesMut.bytes) = buffers.data.map fun bs => appended bs.data answer.data
  control : msg.buffers.control.map BytesMut.bytes = buffers.control.map fun b => b.data.bytes ++ answer.control
  address : msg.address = if answer.namelen = 0 then none else (PeerAddress.tryFrom answer.name).toOption
  flags : msg.flags = IoRecvMsgOutputFlags.fromBitsTruncate answer.flags
  bytesReceived : msg.bytesReceived = answer.result
  controlBytesReceived : msg.controlBytesReceived = answer.control.length
  parsedControl : orNone (parseControl ⟨controlAddr, answer.control⟩ answer.control.length) =
    (.ok msg.parsedControl : Outcome Empty _)

/-! ### The buffers -/

/-- Of a count that is more than all the room every buffer takes the whole of
its own, if none is full. -/
theorem distribute_over {total : ℕ} : ∀ (bs : List BytesMut) (reserved : ℕ → List UInt8) (acc : ℕ) (d : List UInt8),
    (∀ i, 64 ≤ (reserved i).length) → d.length = room bs → acc + d.length ≤ total →
    ((distribute total reserved acc (List.zipWith BytesMut.write bs (parts bs d))).1.map BytesMut.bytes =
      appended bs d ↔ SpareFirst bs (total - acc))
  | [], _, _, _, _, _, _ => by simp [distribute, appended, parts, SpareFirst]
  | b :: bs, reserved, acc, d, hres, hroom, htotal => by
    rw [room_cons] at hroom
    rw [spareFirst_cons, parts, List.zipWith_cons_cons, distribute, appended, parts, List.map_cons,
      List.map_cons, List.zipWith_cons_cons, ← appended, List.cons.injEq]
    by_cases hb : b.spare = []
    · -- the full buffer reserves, and takes what is left of the count
      have hwrite : (b.write (d.take b.spare.length)).chunkMut (reserved 0) = ⟨b.bytes, reserved 0⟩ := by
        simp [hb, BytesMut.write, BytesMut.chunkMut, BytesMut.capacity, BytesMut.len]
      have hroom' : d.length = room bs := by rwa [hb, List.length_nil, Nat.zero_add] at hroom
      rw [hwrite, hb, List.length_nil, List.take_zero, List.append_nil, List.drop_zero, Nat.sub_zero]
      by_cases hleft : total - acc = 0
      · have ih := distribute_over bs (fun i => reserved (i + 1)) acc d (fun i => hres _) hroom' htotal
        rw [hleft, Nat.zero_min, Nat.add_zero]
        rw [hleft] at ih
        simpa [BytesMut.advanceMut] using ih
      · refine iff_of_false (fun h => ?_) (fun h => hleft (h.1 rfl))
        have hnil := List.append_right_eq_self.mp h.1
        have hlen := hres 0
        have hzero : min (min (total - acc) (reserved 0).length) (reserved 0).length = 0 := by
          simpa using congrArg List.length hnil
        omega
    · obtain ⟨hspare, hbytes⟩ := advance_write b hb (reserved 0) d
      have hmin : min (total - acc) b.spare.length = min d.length b.spare.length := by omega
      rw [hspare, hmin, hbytes]
      have hrest : (d.drop b.spare.length).length = room bs := by
        rw [List.length_drop]
        omega
      rw [distribute_over bs _ _ _ (fun i => hres _) hrest (by omega)]
      have hsub : total - (acc + min d.length b.spare.length) = total - acc - b.spare.length := by omega
      simp [hb, hsub]

theorem recvmsgBuffers_some (reserved : ℕ → List UInt8) (bs : List BytesMut) (n : ℕ) :
    recvmsgBuffers reserved (some bs) n = some (distribute n reserved 0 bs).1 := by
  unfold recvmsgBuffers extractDataBuffers intoBytes
  dsimp only
  split_ifs <;> rfl

@[simp] theorem bytes_chunkMut (b : BytesMut) (reserved : List UInt8) : (b.chunkMut reserved).bytes = b.bytes := by
  unfold BytesMut.chunkMut
  split <;> rfl

/-- A control buffer is moved ahead over what was written. -/
theorem intoBytes_write (reserved : List UInt8) {b : BytesMut} {c : List UInt8} (h : c.length ≤ b.spare.length) :
    ∃ b', IoOutputBuffer.intoBytes reserved ⟨b.write c⟩ c.length = .ok b' ∧ b'.bytes = b.bytes ++ c := by
  by_cases hspare : b.spare = []
  · have hc : c = [] := List.eq_nil_of_length_eq_zero (by simpa [hspare] using h)
    refine ⟨((b.write c).chunkMut reserved).advanceMut 0, ?_, ?_⟩
    · simp [IoOutputBuffer.intoBytes, hc]
    · simp [BytesMut.advanceMut, hc, BytesMut.write]
  · have hpos : 0 < b.spare.length := List.length_pos_iff.mpr hspare
    have hlen : (b.write c).spare.length = b.spare.length := by
      rw [BytesMut.write, List.length_append, List.length_drop]
      omega
    have hchunk : (b.write c).chunkMut reserved = b.write c := by
      refine if_neg ?_
      rw [BytesMut.capacity, BytesMut.len]
      omega
    refine ⟨(b.write c).advanceMut c.length, ?_, ?_⟩
    · simp only [IoOutputBuffer.intoBytes, hchunk, hlen]
      rw [if_neg (by omega), min_eq_left h]
    · rw [BytesMut.advanceMut, BytesMut.write, List.take_left' rfl]

/-- What was prepared is the caller's buffers, with iovecs for the data. -/
theorem pending_of_new {iovMax : ℕ} {reserved : List UInt8} {buffers : IoRecvMsgOutputBuffers} {p : PendingIoMessage}
    (h : PendingIoMessage.new iovMax reserved buffers = .ok p) :
    p.buffers = { buffers with control := buffers.control.map fun b => ⟨b.data.chunkMut reserved⟩ } ∧
      ∀ bs ∈ buffers.data, p.iovec = some (iovecsFrom 0 bs.data) := by
  unfold PendingIoMessage.new at h
  split at h
  · cases h
  · rename_i iovecs heq
    cases h
    refine ⟨rfl, fun bs hbs => ?_⟩
    obtain ⟨bs', hbs', hiovecs⟩ := Option.map_eq_some_iff.mp heq
    obtain rfl := Option.some.inj (hbs.symm.trans hbs')
    unfold generateIovecs at hiovecs
    split at hiovecs
    · cases hiovecs
    · exact congrArg some (Except.ok.inj hiovecs).symm
  · rename_i heq
    cases h
    refine ⟨rfl, fun bs hbs => ?_⟩
    rw [Option.map_eq_none_iff.mp heq] at hbs
    cases hbs

/-- The control area that is parsed is what the kernel wrote. -/
theorem parseControl_area (controlAddr : ℕ) {p : PendingIoMessage} {answer : Answer} (hfits : answer.Fits p.buffers) :
    parseControl ⟨controlAddr, ((fill p answer).control.map fun b => b.data.spare).getD []⟩ answer.control.length =
      parseControl ⟨controlAddr, answer.control⟩ answer.control.length := by
  unfold parseControl
  split
  · rfl
  · rename_i hne
    have hcontrol := hfits.control
    cases hb : p.buffers.control with
    | none =>
      rw [controlRoom, hb] at hcontrol
      exact absurd (Nat.le_zero.mp hcontrol) hne
    | some b =>
      rw [fill, hb]
      simp only [Option.map_some, Option.getD_some, BytesMut.write, List.take_length]
      rw [List.take_left' rfl]

section Reports

variable {iovMax controlAddr : ℕ} {reserved : ℕ → List UInt8} {reservedControl : List UInt8} {buffers : IoRecvMsgOutputBuffers}
  {p : PendingIoMessage} {answer : Answer}

/-- The data is reported if no full buffer comes before the end of the bytes that
the kernel counted. -/
theorem data_iff (hreserved : ∀ i, 64 ≤ (reserved i).length)
    (hnew : PendingIoMessage.new iovMax reservedControl buffers = .ok p) (hfits : answer.Fits p.buffers) :
    (recvmsgBuffers reserved ((fill p answer).data.map IoVecOutputBuffer.data) answer.result).map
        (List.map BytesMut.bytes) = (buffers.data.map fun bs => appended bs.data answer.data) ↔
      ∀ bs ∈ buffers.data, SpareFirst bs.data answer.result := by
  obtain ⟨hbuffers, hiovec⟩ := pending_of_new hnew
  have hpdata : p.buffers.data = buffers.data := by rw [hbuffers]
  have hdata := hfits.data
  have hresult := hfits.result
  rw [dataRoom, hpdata] at hdata hresult
  cases hbs : buffers.data with
  | none =>
    rw [fill, hpdata, hbs]
    exact iff_of_true rfl fun bs h => by cases h
  | some bs =>
    rw [hbs] at hdata hresult
    rw [fill, hpdata, hbs, hiovec bs hbs]
    simp only [Option.map_some, Option.getD_some, Option.mem_some_iff, forall_eq', recvmsgBuffers_some,
      kernelFill_eq, Option.some.injEq] at hdata hresult ⊢
    obtain heq | ⟨hall, hle⟩ := hresult
    · rw [heq]
      exact distribute_iff bs.data reserved 0 answer.data hreserved (Nat.zero_add _).symm
    · have hover : _ ↔ SpareFirst bs.data (answer.result - 0) :=
        distribute_over bs.data reserved 0 answer.data hreserved hall (by omega)
      rwa [Nat.sub_zero] at hover

theorem control_reported (hnew : PendingIoMessage.new iovMax reservedControl buffers = .ok p)
    (hfits : answer.Fits p.buffers) (reserved' : List UInt8) :
    ∃ control, extractControlBuffer reserved' (fill p answer).control answer.control.length = .ok control ∧
      control.map BytesMut.bytes = buffers.control.map fun b => b.data.bytes ++ answer.control := by
  have hpcontrol : p.buffers.control = buffers.control.map fun b => ⟨b.data.chunkMut reservedControl⟩ := by
    rw [(pending_of_new hnew).1]
  have hcontrol := hfits.control
  rw [controlRoom, hpcontrol] at hcontrol
  rw [fill, hpcontrol]
  cases hb : buffers.control with
  | none => exact ⟨none, rfl, rfl⟩
  | some b =>
    rw [hb] at hcontrol
    obtain ⟨b', hinto, hbytes⟩ := intoBytes_write reserved' hcontrol
    refine ⟨some b', ?_, ?_⟩
    · exact congrArg (Except.map some) hinto
    · rw [Option.map_some, Option.map_some, hbytes, bytes_chunkMut]

/-- The control messages, the address and the counts are always those the kernel
gave. -/
theorem reports_iff_data (reserved' : List UInt8) (hnew : PendingIoMessage.new iovMax reservedControl buffers = .ok p)
    (hfits : answer.Fits p.buffers) {msg : IoRecvMessage}
    (hmsg : complete reserved reserved' controlAddr p answer = .ok msg) :
    Reports controlAddr buffers answer msg ↔
      (recvmsgBuffers reserved ((fill p answer).data.map IoVecOutputBuffer.data) answer.result).map
        (List.map BytesMut.bytes) = buffers.data.map fun bs => appended bs.data answer.data := by
  obtain ⟨parsed, hparsed, hmsg⟩ := Outcome.bind_eq_ok.mp hmsg
  rw [parseControl_area controlAddr hfits] at hparsed
  obtain ⟨control, hcontrol, hbytes⟩ := control_reported hnew hfits reserved'
  rw [hcontrol] at hmsg
  cases hmsg
  refine ⟨fun h => h.data, fun h => ⟨h, hbytes, ?_, rfl, rfl, rfl, hparsed⟩⟩
  simp only [parseAddress]
  split_ifs
  · rfl
  · cases PeerAddress.tryFrom answer.name <;> rfl

/-- **A message that is received says what the kernel wrote if and only if no full
buffer comes before the end of the bytes that the kernel counted.** -/
theorem reported_iff (hreserved : ∀ i, 64 ≤ (reserved i).length) (reserved' : List UInt8)
    (hnew : PendingIoMessage.new iovMax reservedControl buffers = .ok p) (hfits : answer.Fits p.buffers)
    {msg : IoRecvMessage} (hmsg : complete reserved reserved' controlAddr p answer = .ok msg) :
    Reports controlAddr buffers answer msg ↔ ∀ bs ∈ buffers.data, SpareFirst bs.data answer.result :=
  (reports_iff_data reserved' hnew hfits hmsg).trans (data_iff hreserved hnew hfits)

end Reports

/-- A buffer of two bytes that has one already and one of three, and room for
control messages. -/
def twoBuffers : IoRecvMsgOutputBuffers :=
  ⟨some ⟨[⟨[1], [0, 0]⟩, ⟨[], [0, 0, 0]⟩]⟩, some ⟨⟨[], List.replicate 32 0⟩⟩⟩

/-- A file descriptor, as a control area. -/
def oneDescriptor : List UInt8 := [20, 0, 0, 0, 0, 0, 0, 0, 1, 0, 0, 0, 1, 0, 0, 0, 3, 0, 0, 0, 0, 0, 0, 0]

/-- Three bytes and a file descriptor. -/
def threeReceived : Answer := ⟨[7, 8, 9], SocketAddress.into server, 16, oneDescriptor, 0x80, 3⟩

def twoBuffersReceived : IoRecvMessage :=
  ⟨⟨some [⟨[1, 7, 8], []⟩, ⟨[9], [0, 0]⟩], some ⟨oneDescriptor, List.replicate 8 0⟩⟩, some ⟨server⟩,
    IoRecvMsgOutputFlags.endOfRecord, 3, 24, some [⟨.socket (.rights [3])⟩]⟩

theorem reported_twoBuffers :
    Reports 0x1000 twoBuffers threeReceived twoBuffersReceived ↔
      ∀ bs ∈ twoBuffers.data, SpareFirst bs.data 3 := by
  have hnew : PendingIoMessage.new 1024 (List.replicate 64 0) twoBuffers = .ok ⟨twoBuffers, some [⟨0, 2⟩, ⟨1, 3⟩]⟩ := by
    decide
  have hmsg : complete (fun _ => List.replicate 64 0) (List.replicate 64 0) 0x1000
      ⟨twoBuffers, some [⟨0, 2⟩, ⟨1, 3⟩]⟩ threeReceived = .ok twoBuffersReceived := by
    decide
  exact reported_iff (fun _ => by simp) (List.replicate 64 0) hnew ⟨by decide, by decide, .inl rfl⟩ hmsg

/-! ### From one end to the other -/

/-- The bytes that the kernel gathers. -/
def gather (inner : PreparedIoMessageInner) : List UInt8 :=
  ((inner.msghdr.msgIov.getD []).filterMap
    (SendMsg.iovecBytes ((inner.buffers.map IoSendMessageDataBufferType.buffers).getD []))).flatten

/-- The bytes of the data of a message. -/
def content (message : IoSendMessage) : List UInt8 := (message.data.map fun d => d.buffers.flatten).getD []

/-- The kernel passes a message on: as much of the data as there is room for, the
address that it was sent from, and the control area as it is. -/
structure Passes (inner : PreparedIoMessageInner) (source : SocketAddress) (buffers : IoRecvMsgOutputBuffers)
    (answer : Answer) : Prop where
  data : answer.data = (gather inner).take (dataRoom buffers)
  name : answer.name = source.into
  namelen : answer.namelen ≠ 0
  control : answer.control = inner.msghdr.msgControl.getD []
  room : answer.control.length ≤ controlRoom buffers
  flags : answer.flags = if dataRoom buffers < (gather inner).length then IoRecvMsgOutputFlags.truncated else 0
  result : answer.result = answer.data.length

/-- What was sent and what was received. Control messages come back up to what
the timestamps and the mapped addresses of theirs lose. -/
structure Arrives (message : IoSendMessage) (source : SocketAddress) (buffers : IoRecvMsgOutputBuffers)
    (msg : IoRecvMessage) : Prop where
  data : msg.buffers.data.map (List.map BytesMut.bytes) =
    buffers.data.map fun bs => appended bs.data ((content message).take (dataRoom buffers))
  address : msg.address = some ⟨source⟩
  bytesReceived : msg.bytesReceived = min (dataRoom buffers) (content message).length
  truncated : msg.flags = if dataRoom buffers < (content message).length then .truncated else 0
  control : match message.control with
    | none => msg.parsedControl = none
    | some msgs => ∃ parsed, msg.parsedControl = some parsed ∧
        List.Forall₂ (fun msg msg' => Agrees msg.level msg'.level) msgs parsed

theorem gather_of_describes {message : IoSendMessage} {inner : PreparedIoMessageInner}
    (h : SendMsg.DescribesData inner message.data) : gather inner = content message := by
  unfold gather content
  cases hdata : message.data with
  | none =>
    rw [hdata] at h
    rw [h.1]
    rfl
  | some data =>
    rw [hdata] at h
    obtain ⟨hbuffers, iovecs, parts, hiov, -, hparts, hflatten⟩ := h
    have hfilter : iovecs.filterMap (SendMsg.iovecBytes data.buffers) = parts := by
      have hmap := congrArg (List.filterMap id) hparts
      simpa [List.filterMap_map, Function.comp_def] using hmap
    rw [hbuffers, hiov]
    simp only [Option.map_some, Option.getD_some, hfilter, hflatten]

/-- The control area is what `try_prepare_multi` made. -/
theorem control_of_new {alloc : (n : ℕ) → Vector UInt8 n} {iovMax : ℕ} {message : IoSendMessage} {flags : ℤ}
    {inner : PreparedIoMessageInner} (h : IoSendMsgData.new alloc iovMax message flags = .ok ⟨flags, some inner⟩) :
    match message.control with
    | none => inner.msghdr.msgControl = none
    | some msgs => ∃ bytes, Message.tryPrepareMulti alloc msgs = .ok bytes ∧
        inner.msghdr.msgControl = some bytes := by
  obtain ⟨b₁, h₁, h⟩ := Outcome.bind_eq_ok.mp h
  obtain ⟨b₂, h₂, h⟩ := Outcome.bind_eq_ok.mp h
  obtain ⟨b₃, h₃, h⟩ := Outcome.bind_eq_ok.mp h
  cases h
  have hcontrol : b₃.build.msghdr.msgControl = b₁.control.map IoInputBuffer.data := by
    rw [SendMsg.prepareAddress_frame h₃, SendMsg.prepareData_frame h₂]
    rfl
  rw [hcontrol]
  cases hmsgs : message.control with
  | none =>
    rw [hmsgs] at h₁
    cases h₁
    rfl
  | some msgs =>
    rw [hmsgs] at h₁
    obtain ⟨bytes, hbytes, h₁⟩ := Outcome.bind_eq_ok.mp h₁
    refine ⟨bytes, Outcome.mapErr_eq_ok.mp hbytes, ?_⟩
    unfold IoInputBuffer.new at h₁
    by_cases hnil : bytes = []
    · rw [dif_pos hnil] at h₁
      cases h₁
    · rw [dif_neg hnil] at h₁
      cases h₁
      rfl

/-- What the control area of a message is parsed into, where it lies aligned. -/
theorem parseControl_of_new {alloc : (n : ℕ) → Vector UInt8 n} {iovMax : ℕ} {message : IoSendMessage} {flags : ℤ}
    {inner : PreparedIoMessageInner} (hcan : SendMsg.CanBeSent iovMax message)
    (hencodable : SendMsg.Encodable message)
    (htls : ∀ msgs ∈ message.control, ∀ msg ∈ msgs, msg.level.isTls = false)
    (h : IoSendMsgData.new alloc iovMax message flags = .ok ⟨flags, some inner⟩) {addr : ℕ} (haddr : addr % 8 = 0) :
    ∃ parsed, parseControl ⟨addr, inner.msghdr.msgControl.getD []⟩ (inner.msghdr.msgControl.getD []).length = .ok parsed ∧
      match message.control with
      | none => parsed = none
      | some msgs => ∃ parsed', parsed = some parsed' ∧
          List.Forall₂ (fun msg msg' => Agrees msg.level msg'.level) msgs parsed' := by
  have hcontrol := control_of_new h
  cases hmsgs : message.control with
  | none =>
    rw [hmsgs] at hcontrol
    rw [hcontrol]
    exact ⟨none, rfl, rfl⟩
  | some msgs =>
    rw [hmsgs] at hcontrol
    obtain ⟨bytes, hbytes, hcontrol⟩ := hcontrol
    rw [hcontrol, Option.getD_some]
    have hsends : ∀ msg ∈ msgs, ∃ raw, Message.Sends msg raw := by
      intro msg hmsg
      obtain ⟨hprep, hfit⟩ := hencodable.fits msgs hmsgs msg hmsg
      obtain ⟨raw, hraw⟩ := (Message.prepare_ok_or_err hprep).resolve_right (hcan.control msgs hmsgs msg hmsg)
      exact ⟨raw, htls msgs hmsgs msg hmsg, hraw, (Message.payloadFits_iff hraw).mpr hfit⟩
    obtain ⟨raws, hraws⟩ := Message.exists_forall₂ hsends
    obtain ⟨bytes', hbytes', hread⟩ := Message.roundTrips_of_sends alloc hraws
    cases hbytes.symm.trans hbytes'
    obtain ⟨-, hparse⟩ := hread addr haddr
    obtain ⟨parsed, hparsed, hagree⟩ := hparse fun hnil => hencodable.notEmpty (hmsgs.trans (congrArg some hnil))
    have hne : bytes.length ≠ 0 := by
      intro hzero
      rw [List.eq_nil_of_length_eq_zero hzero] at hparsed
      cases hparsed
    refine ⟨some parsed, ?_, parsed, rfl, hagree⟩
    rw [parseControl, if_neg hne]
    simp only [List.take_length, hparsed, Outcome.ok_bind]

/-- **A message that can be sent, and fits its headers, arrives as it was sent** when
the kernel passes it on: in buffers of which none is full before the end of what was
received, with the address that it came from and its control messages, if there is
room for them and it lies aligned, and marked if it was cut. -/
theorem received_of_sent (alloc : (n : ℕ) → Vector UInt8 n) {iovMax : ℕ} {message : IoSendMessage} (flags : ℤ)
    (hcan : SendMsg.CanBeSent iovMax message) (hencodable : SendMsg.Encodable message)
    (htls : ∀ msgs ∈ message.control, ∀ msg ∈ msgs, msg.level.isTls = false) :
    ∃ inner, IoSendMsgData.new alloc iovMax message flags = .ok ⟨flags, some inner⟩ ∧
      ∀ {reserved : ℕ → List UInt8} {reservedControl reserved' : List UInt8} {buffers : IoRecvMsgOutputBuffers}
        {p : PendingIoMessage} {answer : Answer} {source : SocketAddress} {controlAddr : ℕ},
        (∀ i, 64 ≤ (reserved i).length) → PendingIoMessage.new iovMax reservedControl buffers = .ok p →
        Passes inner source p.buffers answer → controlAddr % 8 = 0 →
        (∀ bs ∈ buffers.data, SpareFirst bs.data answer.result) →
        ∃ msg, complete reserved reserved' controlAddr p answer = .ok msg ∧ Arrives message source buffers msg := by
  have hprepare : ∃ builder, SendMsg.prepareControl alloc message.control .new = .ok builder ∧
      SendMsg.DescribesControl builder.build message.control :=
    SendMsg.prepareControl_ok hcan.control hencodable.notEmpty hencodable.fits
  obtain ⟨inner, hnew, hdescribes⟩ := SendMsg.describes_new flags hprepare hcan.data
  refine ⟨inner, hnew, ?_⟩
  intro reserved reservedControl reserved' buffers p answer source controlAddr hreserved hpending hpasses haddr hspare
  have hgather := gather_of_describes hdescribes.data
  have hroom : dataRoom p.buffers = dataRoom buffers := by
    rw [(pending_of_new hpending).1]
    rfl
  have hfits : answer.Fits p.buffers := by
    refine ⟨?_, hpasses.room, .inl hpasses.result⟩
    rw [hpasses.data, List.length_take]
    exact Nat.min_le_left _ _
  obtain ⟨parsed, hparsed, hcontrol⟩ := parseControl_of_new hcan hencodable htls hnew haddr
  rw [← hpasses.control] at hparsed
  obtain ⟨msg, hmsg⟩ : ∃ msg, complete reserved reserved' controlAddr p answer = .ok msg := by
    refine ⟨_, Outcome.bind_eq_ok.mpr ⟨parsed, ?_, rfl⟩⟩
    rw [parseControl_area controlAddr hfits, hparsed]
    rfl
  have hreports := (reports_iff_data reserved' hpending hfits hmsg).mpr
    ((data_iff hreserved hpending hfits).mpr hspare)
  refine ⟨msg, hmsg, ?_⟩
  have hdata : answer.data = (content message).take (dataRoom buffers) := by rw [hpasses.data, hgather, hroom]
  refine ⟨hdata ▸ hreports.data, ?_, ?_, ?_, ?_⟩
  · rw [hreports.address, if_neg hpasses.namelen, hpasses.name, PeerAddress.tryFrom, SocketAddress.tryFrom_into]
    rfl
  · rw [hreports.bytesReceived, hpasses.result, hdata, List.length_take]
  · rw [hreports.flags, hpasses.flags, hgather, hroom]
    split_ifs <;> rfl
  · have hmsgControl := hreports.parsedControl
    rw [hparsed] at hmsgControl
    cases hmsgControl
    exact hcontrol

/-- Three bytes with a file descriptor. -/
def threeBytes : IoSendMessage := ⟨some (.bytes [1, 2, 3]), some [⟨.socket (.rights [3])⟩], none⟩

/-- A buffer of two bytes, and one for the control messages. -/
def twoBytes : IoRecvMsgOutputBuffers := ⟨some ⟨[⟨[], [0, 0]⟩]⟩, some ⟨⟨[], List.replicate 24 0⟩⟩⟩

theorem received_threeBytes :
    ∃ msg, complete (fun _ => List.replicate 64 0) [] 0x1000 ⟨twoBytes, some [⟨0, 2⟩]⟩
        ⟨[1, 2], SocketAddress.into server, 16, oneDescriptor, IoRecvMsgOutputFlags.truncated, 2⟩ = .ok msg ∧
      Arrives threeBytes server twoBytes msg := by
  have hcan : SendMsg.CanBeSent 1024 threeBytes := by
    refine ⟨fun msgs hmsgs msg hmsg => ?_, fun data hdata => ?_⟩
    · cases hmsgs
      obtain rfl := List.mem_singleton.mp hmsg
      rintro ⟨e, he⟩
      cases he
    · cases hdata
      decide
  have hencodable : SendMsg.Encodable threeBytes := by
    refine ⟨by decide, fun msgs hmsgs msg hmsg => ?_⟩
    cases hmsgs
    obtain rfl := List.mem_singleton.mp hmsg
    exact ⟨List.cons_ne_nil 3 [], show [(3 : Int32)].length ≤ 2 ^ 30 - 6 by decide⟩
  have hspare : ∀ bs ∈ twoBytes.data, SpareFirst bs.data 2 := by
    intro bs hbs
    cases hbs
    exact spareFirst_cons.mpr ⟨by simp, fun i b h => by simp at h⟩
  obtain ⟨inner, hnew, harrives⟩ :=
    @received_of_sent (fun n => Vector.replicate n 0) 1024 threeBytes 0 hcan hencodable (by decide)
  have hinner : IoSendMsgData.new (fun n => Vector.replicate n 0) 1024 threeBytes 0 = .ok ⟨0, some
      ⟨some (.bytes [1, 2, 3]), some ⟨oneDescriptor, by decide⟩, none, some [⟨0, 3⟩],
        ⟨none, 0, some [⟨0, 3⟩], 1, some oneDescriptor, 24⟩⟩⟩ := by decide
  cases hnew.symm.trans hinner
  exact harrives (fun _ => by simp)
    (show PendingIoMessage.new 1024 [] twoBytes = .ok ⟨twoBytes, some [⟨0, 2⟩]⟩ by decide)
    ⟨by decide, rfl, by decide, rfl, by decide, by decide, by decide⟩ (by decide) hspare

end RecvMsg
end ClAsync
