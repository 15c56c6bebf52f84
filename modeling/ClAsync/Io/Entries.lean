/-
# What the kernel is asked for

An operation on bytes becomes an entry of the submission queue
(`as_uring_entry`), and its length a `u32` there. A read takes the length from
the memory behind the contents of its buffer: a buffer of capacity 0 is full,
so `chunk_mut` reserves 64 bytes before it says how much there is. `as u32`
keeps the last 32 bits. So a length is asked for as it was given exactly if it
fits 32 bits and, for a read, is not 0 (`unchanged_iff`).

`copy_to` passes a length and two offsets on to `splice`, which takes the two
offsets and the length in this order (`copiesRange_iff`).

Key definitions: `Call.entry`, `Call.Unchanged`, `copyTo`, `Entry.Runs`.
Key theorems: `unchanged_iff`, for every call, and `copiesRange_iff`.
-/
import ClAsync.Io.Recovery
import ClAsync.Lib.Outcome

namespace ClAsync

open Calls (Outcome)

/-! ### Entries of the submission queue -/

/-- `RawFd`, a C `int`. -/
abbrev RawFd := Int32

/-- The arguments of an `io_uring::opcode`. -/
inductive Opcode
  | read (fd : RawFd) (len : UInt32) (offset : UInt64)
  | recv (fd : RawFd) (len : UInt32) (flags : ℤ)
  | write (fd : RawFd) (buf : List UInt8) (len : UInt32) (offset : UInt64)
  | send (fd : RawFd) (buf : List UInt8) (len : UInt32) (flags : ℤ)
  | splice (fdIn : RawFd) (offIn : Int64) (fdOut : RawFd) (offOut : Int64) (len flags : UInt32)
  deriving DecidableEq, Repr

/-- An entry of the submission queue: what the kernel is to do, and the key it
answers with. -/
structure Entry where
  opcode : Opcode
  userData : Key
  deriving DecidableEq, Repr

/-- The length in the arguments, a `u32` in every operation. -/
def Entry.len (e : Entry) : UInt32 :=
  match e.opcode with
  | .read _ len _ | .recv _ len _ | .write _ _ len _ | .send _ _ len _ | .splice _ _ _ _ len _ => len

/-! ### Buffers -/

/-- `alloc n` is what a fresh buffer of capacity `n` contains. A capacity of
more bytes than an `isize` counts is a panic. -/
def IoOutputBuffer.withCapacity {ε : Type} (alloc : (n : ℕ) → Vector UInt8 n) (capacity : ℕ) :
    Outcome ε IoOutputBuffer :=
  if capacity < 2 ^ 63 then .ok ⟨⟨[], (alloc capacity).toList⟩⟩ else .panics

/-- The length of `chunk_mut`, which may reserve memory. -/
def IoOutputBuffer.writableLen (reserved : List UInt8) (buffer : IoOutputBuffer) : ℕ × IoOutputBuffer :=
  let data := buffer.data.chunkMut reserved
  (data.spare.length, ⟨data⟩)

/-- Bytes to write; there are some. -/
structure IoInputBuffer where
  data : List UInt8
  ne_nil : data ≠ []
  deriving DecidableEq, Repr

/-- The bytes are one chunk, so that they are never non-contiguous. -/
def IoInputBuffer.new (data : List UInt8) : Except InvalidIoInputBufferError IoInputBuffer :=
  if h : data = [] then .error ⟨data, .emptyInputBuffer⟩ else .ok ⟨data, h⟩

/-- `readable_len`. -/
def IoInputBuffer.readableLen (buffer : IoInputBuffer) : ℕ := buffer.data.length

/-! ### `as_uring_entry` -/

/-- `IoReadData`; the buffer is gone once the operation has completed. -/
structure IoReadData where
  buffer : Option IoOutputBuffer
  offset : UInt64
  deriving DecidableEq, Repr

/-- `IoRecvData`. -/
structure IoRecvData where
  buffer : Option IoOutputBuffer
  flags : ℤ
  deriving DecidableEq, Repr

/-- `IoWriteData`. -/
structure IoWriteData where
  buffer : IoInputBuffer
  offset : UInt64
  deriving DecidableEq, Repr

/-- `IoSendData`. -/
structure IoSendData where
  buffer : IoInputBuffer
  flags : ℤ
  deriving DecidableEq, Repr

/-- `IoSpliceData`; the descriptor spliced from is that of the operation. -/
structure IoSpliceData where
  fdOut : RawFd
  inOffset : UInt64
  outOffset : UInt64
  bytes : UInt64
  flags : UInt32
  deriving DecidableEq, Repr

section Entry

variable {ε : Type}

/-- The entry for a buffer and what is left of it; `unwrap` panics once it has
been taken. -/
def uringEntry {δ : Type} (reserved : List UInt8) (buffer : Option IoOutputBuffer) (opcode : UInt32 → Opcode)
    (key : Key) (data : IoOutputBuffer → δ) : Outcome ε (Entry × δ) :=
  match buffer with
  | none => .panics
  | some buffer =>
    let (len, buffer) := buffer.writableLen reserved
    .ok (⟨opcode (UInt32.ofNat len), key⟩, data buffer)

/-- `opcode::Read`. -/
def IoReadData.asUringEntry (reserved : List UInt8) (d : IoReadData) (fd : RawFd) (key : Key) :
    Outcome ε (Entry × IoReadData) :=
  uringEntry reserved d.buffer (fun len => .read fd len d.offset) key fun buffer => { d with buffer := some buffer }

/-- `opcode::Recv`. -/
def IoRecvData.asUringEntry (reserved : List UInt8) (d : IoRecvData) (fd : RawFd) (key : Key) :
    Outcome ε (Entry × IoRecvData) :=
  uringEntry reserved d.buffer (fun len => .recv fd len d.flags) key fun buffer => { d with buffer := some buffer }

/-- `opcode::Write`. -/
def IoWriteData.asUringEntry (d : IoWriteData) (fd : RawFd) (key : Key) : Entry :=
  ⟨.write fd d.buffer.data (UInt32.ofNat d.buffer.readableLen) d.offset, key⟩

/-- `opcode::Send`. -/
def IoSendData.asUringEntry (d : IoSendData) (fd : RawFd) (key : Key) : Entry :=
  ⟨.send fd d.buffer.data (UInt32.ofNat d.buffer.readableLen) d.flags, key⟩

/-- `opcode::Splice`, with both offsets as they are. -/
def IoSpliceData.asUringEntry (d : IoSpliceData) (fd : RawFd) (key : Key) : Entry :=
  ⟨.splice fd d.inOffset.toInt64 d.fdOut d.outOffset.toInt64 d.bytes.toUInt32 d.flags, key⟩

end Entry

/-! ### The operations -/

/-- An `IoOperation` with its descriptor and its data. -/
structure FdOperation (δ : Type) where
  fd : RawFd
  t : δ
  deriving DecidableEq, Repr

namespace FdOperation

variable {ε : Type} (alloc : (n : ℕ) → Vector UInt8 n)

/-- `read_at_into`. -/
def readAtInto (fd : RawFd) (offset : UInt64) (buffer : IoOutputBuffer) : FdOperation IoReadData :=
  ⟨fd, ⟨some buffer, offset⟩⟩

/-- `read_into`, from the start of the file. -/
def readInto (fd : RawFd) (buffer : IoOutputBuffer) : FdOperation IoReadData := readAtInto fd 0 buffer

/-- `read`, into a fresh buffer. -/
def read (fd : RawFd) (len : UInt64) : Outcome ε (FdOperation IoReadData) :=
  (IoOutputBuffer.withCapacity alloc len.toNat).bind fun buffer => .ok (readInto fd buffer)

/-- `read_at`, into a fresh buffer. -/
def readAt (fd : RawFd) (offset len : UInt64) : Outcome ε (FdOperation IoReadData) :=
  (IoOutputBuffer.withCapacity alloc len.toNat).bind fun buffer => .ok (readAtInto fd offset buffer)

/-- `recv_into`. -/
def recvInto (fd : RawFd) (buffer : IoOutputBuffer) (flags : ℤ) : FdOperation IoRecvData :=
  ⟨fd, ⟨some buffer, flags⟩⟩

/-- `recv`, into a fresh buffer. -/
def recv (fd : RawFd) (len : UInt64) (flags : ℤ) : Outcome ε (FdOperation IoRecvData) :=
  (IoOutputBuffer.withCapacity alloc len.toNat).bind fun buffer => .ok (recvInto fd buffer flags)

/-- `write_at`. -/
def writeAt (fd : RawFd) (offset : UInt64) (buffer : IoInputBuffer) : FdOperation IoWriteData :=
  ⟨fd, ⟨buffer, offset⟩⟩

/-- `write`, at the start of the file. -/
def write (fd : RawFd) (buffer : IoInputBuffer) : FdOperation IoWriteData := writeAt fd 0 buffer

/-- `send`. -/
def send (fd : RawFd) (buffer : IoInputBuffer) (flags : ℤ) : FdOperation IoSendData := ⟨fd, ⟨buffer, flags⟩⟩

/-- `splice`, with the arguments in the order of the caller. -/
def splice (fdIn fdOut : RawFd) (inOffset outOffset len : UInt64) (flags : UInt32) : FdOperation IoSpliceData :=
  ⟨fdIn, ⟨fdOut, inOffset, outOffset, len, flags⟩⟩

end FdOperation

/-! ### Lengths -/

/-- A call with a length, or with bytes. -/
inductive Call
  | read (len : UInt64)
  | readAt (offset len : UInt64)
  | recv (len : UInt64) (flags : ℤ)
  | write (data : List UInt8)
  | send (data : List UInt8) (flags : ℤ)
  | splice (fdOut : RawFd) (inOffset outOffset len : UInt64) (flags : UInt32)
  deriving DecidableEq, Repr

namespace Call

/-- The length that the caller gives. -/
def length : Call → ℕ
  | read len | readAt _ len | recv len _ | splice _ _ _ len _ => len.toNat
  | write data | send data _ => data.length

/-- The bytes are wrapped for the operation. -/
def withInput (data : List UInt8) (f : IoInputBuffer → Entry) : Outcome InvalidIoInputBufferError Entry :=
  match IoInputBuffer.new data with
  | .ok buffer => .ok (f buffer)
  | .error e => .err e

/-- The entry of the call's operation. A full buffer reserves `reserved`. -/
def entry (alloc : (n : ℕ) → Vector UInt8 n) (reserved : Vector UInt8 64) (fd : RawFd) (key : Key) :
    Call → Outcome InvalidIoInputBufferError Entry
  | read len =>
    (FdOperation.read alloc fd len).bind fun op =>
    (op.t.asUringEntry reserved.toList op.fd key).bind fun r => .ok r.1
  | readAt offset len =>
    (FdOperation.readAt alloc fd offset len).bind fun op =>
    (op.t.asUringEntry reserved.toList op.fd key).bind fun r => .ok r.1
  | recv len flags =>
    (FdOperation.recv alloc fd len flags).bind fun op =>
    (op.t.asUringEntry reserved.toList op.fd key).bind fun r => .ok r.1
  | write data => withInput data fun buffer =>
    let op := FdOperation.write fd buffer
    op.t.asUringEntry op.fd key
  | send data flags => withInput data fun buffer =>
    let op := FdOperation.send fd buffer flags
    op.t.asUringEntry op.fd key
  | splice fdOut inOffset outOffset len flags =>
    let op := FdOperation.splice fd fdOut inOffset outOffset len flags
    .ok (op.t.asUringEntry op.fd key)

/-- The kernel is asked for the length that the caller gave, or the call is
rejected. -/
def Unchanged (alloc : (n : ℕ) → Vector UInt8 n) (reserved : Vector UInt8 64) (fd : RawFd) (key : Key)
    (call : Call) : Prop :=
  (∃ e, call.entry alloc reserved fd key = .err e) ∨
    ∃ e, call.entry alloc reserved fd key = .ok e ∧ e.len.toNat = call.length

/-- The length fits a `u32`, and is not 0 for a read. -/
def InRange : Call → Prop
  | read len | readAt _ len | recv len _ => 0 < len.toNat ∧ len.toNat < 2 ^ 32
  | write data | send data _ => data.length < 2 ^ 32
  | splice _ _ _ len _ => len.toNat < 2 ^ 32

end Call

theorem toNat_ofNat_eq_iff (n : ℕ) : (UInt32.ofNat n).toNat = n ↔ n < 2 ^ 32 := by
  rw [UInt32.toNat_ofNat', Nat.mod_eq_iff_lt (by decide)]

theorem toNat_toUInt32_eq_iff (x : UInt64) : x.toUInt32.toNat = x.toNat ↔ x.toNat < 2 ^ 32 := by
  rw [UInt64.toNat_toUInt32, Nat.mod_eq_iff_lt (by decide)]

/-- A fresh buffer has room for what it was made for, or for 64 bytes, and no
contents. -/
theorem writableLen_withCapacity {ε : Type} {alloc : (n : ℕ) → Vector UInt8 n} (reserved : Vector UInt8 64) {n : ℕ}
    {buffer : IoOutputBuffer} (h : (IoOutputBuffer.withCapacity alloc n : Outcome ε IoOutputBuffer) = .ok buffer) :
    ∃ spare : List UInt8, spare.length = (if n = 0 then 64 else n) ∧
      buffer.writableLen reserved.toList = (spare.length, ⟨⟨[], spare⟩⟩) := by
  rw [IoOutputBuffer.withCapacity] at h
  split at h
  · cases h
    rw [IoOutputBuffer.writableLen, BytesMut.chunkMut, BytesMut.capacity, BytesMut.len, Vector.length_toList,
      List.length_nil, Nat.zero_add]
    split
    · exact ⟨_, reserved.length_toList, rfl⟩
    · exact ⟨_, (alloc n).length_toList, rfl⟩
  · cases h

section Unchanged

variable (alloc : (n : ℕ) → Vector UInt8 n) (reserved : Vector UInt8 64) (fd : RawFd) (key : Key)

/-- A call that is not rejected asks for the length of its entry. -/
theorem Call.unchanged_of_ok {call : Call} {e : Entry} (h : call.entry alloc reserved fd key = .ok e) :
    call.Unchanged alloc reserved fd key ↔ e.len.toNat = call.length := by
  constructor
  · rintro (⟨e', he⟩ | ⟨e', he, hlen⟩)
    · rw [h] at he
      cases he
    · rw [h] at he
      rwa [Outcome.ok.inj he]
  · exact fun hlen => Or.inr ⟨e, h, hlen⟩

/-- A read asks for its length unless that is 0 or too long. -/
theorem toNat_reserved_iff (n : ℕ) :
    (UInt32.ofNat (if n = 0 then 64 else n)).toNat = n ↔ 0 < n ∧ n < 2 ^ 32 := by
  split
  · rename_i hzero
    rw [hzero]
    decide
  · rename_i hne
    rw [toNat_ofNat_eq_iff]
    exact (and_iff_right (Nat.pos_of_ne_zero hne)).symm

/-- Bytes are rejected if there are none, and are otherwise all offered. -/
theorem Call.unchanged_withInput {call : Call} {data : List UInt8} {f : IoInputBuffer → Entry}
    (hentry : call.entry alloc reserved fd key = withInput data f) (hlen : call.length = data.length)
    (hf : ∀ buffer, (f buffer).len = UInt32.ofNat buffer.readableLen) :
    call.Unchanged alloc reserved fd key ↔ data.length < 2 ^ 32 := by
  by_cases hdata : data = []
  · refine iff_of_true (Or.inl ⟨⟨data, .emptyInputBuffer⟩, ?_⟩) ?_
    · rw [hentry, withInput, IoInputBuffer.new, dif_pos hdata]
    · rw [hdata]
      decide
  · have hok : call.entry alloc reserved fd key = .ok (f ⟨data, hdata⟩) := by
      rw [hentry, withInput, IoInputBuffer.new, dif_neg hdata]
    rw [Call.unchanged_of_ok alloc reserved fd key hok, hf, hlen]
    exact toNat_ofNat_eq_iff data.length

/-- A call that reads into a fresh buffer. -/
theorem Call.unchanged_read {call : Call} {n : ℕ} (opcode : UInt32 → Opcode)
    (hentry : call.entry alloc reserved fd key = (IoOutputBuffer.withCapacity alloc n).bind fun buffer =>
      .ok ⟨opcode (UInt32.ofNat (buffer.writableLen reserved.toList).1), key⟩)
    (hlen : call.length = n) (hopcode : ∀ len, Entry.len ⟨opcode len, key⟩ = len) :
    call.Unchanged alloc reserved fd key ↔ 0 < n ∧ n < 2 ^ 32 := by
  by_cases hn : n < 2 ^ 63
  · have hbuffer : (IoOutputBuffer.withCapacity alloc n : Outcome InvalidIoInputBufferError IoOutputBuffer) =
        .ok ⟨⟨[], (alloc n).toList⟩⟩ := if_pos hn
    obtain ⟨spare, hspare, hwritable⟩ := writableLen_withCapacity reserved hbuffer
    rw [hbuffer, Outcome.ok_bind, hwritable] at hentry
    rw [Call.unchanged_of_ok alloc reserved fd key hentry, hopcode, hlen, hspare]
    exact toNat_reserved_iff n
  · have hpanics : call.entry alloc reserved fd key = .panics := by
      rw [hentry, IoOutputBuffer.withCapacity, if_neg hn]
      rfl
    refine iff_of_false ?_ fun h => hn (by omega)
    rintro (⟨e, he⟩ | ⟨e, he, -⟩)
    all_goals
      rw [hpanics] at he
      cases he

/-- **A length reaches the kernel unchanged exactly if it fits a `u32` and, for
a read, is not 0.** -/
theorem unchanged_iff (call : Call) : call.Unchanged alloc reserved fd key ↔ call.InRange := by
  cases call with
  | read len =>
    exact Call.unchanged_read alloc reserved fd key (.read fd · 0) (Outcome.bind_assoc ..) rfl fun _ => rfl
  | readAt offset len =>
    exact Call.unchanged_read alloc reserved fd key (.read fd · offset) (Outcome.bind_assoc ..) rfl fun _ => rfl
  | recv len flags =>
    exact Call.unchanged_read alloc reserved fd key (.recv fd · flags) (Outcome.bind_assoc ..) rfl fun _ => rfl
  | write data => exact Call.unchanged_withInput alloc reserved fd key rfl rfl fun _ => rfl
  | send data flags => exact Call.unchanged_withInput alloc reserved fd key rfl rfl fun _ => rfl
  | splice fdOut inOffset outOffset len flags =>
    rw [Call.unchanged_of_ok alloc reserved fd key rfl]
    exact toNat_toUInt32_eq_iff len

end Unchanged

/-- A read of no bytes is one of 64. -/
theorem unchanged_fails : ¬ Call.Unchanged (fun n => Vector.replicate n 0) (Vector.replicate 64 0) 3 0 (.read 0) := by
  rintro (⟨e, he⟩ | ⟨e, he, hlen⟩)
  · cases he
  · cases he
    exact absurd hlen (by decide)

/-! ### Splices -/

/-- `data` in place of what is at `offset`; what lies between is zeroes. -/
def overwrite (store : List UInt8) (offset : ℕ) (data : List UInt8) : List UInt8 :=
  if data = [] then store
  else store.take offset ++ (List.replicate (offset - store.length) 0 ++ (data ++ store.drop (offset + data.length)))

/-- The bytes behind each descriptor. -/
abbrev Stores := RawFd → List UInt8

/-- The stores after `k` bytes have been copied. -/
def Stores.copied (stores : Stores) (fdIn : RawFd) (offIn : ℕ) (fdOut : RawFd) (offOut k : ℕ) : Stores :=
  Function.update stores fdOut (overwrite (stores fdOut) offOut (((stores fdIn).drop offIn).take k))

/-- Where the kernel begins: at the position `pos` of the file for an offset of
-1, and nowhere for any other negative one. -/
def offsetOf (pos : ℕ) (off : Int64) : Option ℕ :=
  if off = -1 then some pos else if off < 0 then none else some off.toInt.toNat

/-- What the kernel does for a splice: it copies some of the bytes, or fails.
`pos` has the positions of the files. -/
inductive Opcode.Runs (pos : RawFd → ℕ) : Opcode → Stores → Stores → Prop
  | splice {fdIn fdOut : RawFd} {offIn offOut : Int64} {len flags : UInt32} {stores : Stores} {i j k : ℕ}
    (hin : offsetOf (pos fdIn) offIn = some i) (hout : offsetOf (pos fdOut) offOut = some j) (hk : k ≤ len.toNat) :
    Opcode.Runs pos (.splice fdIn offIn fdOut offOut len flags) stores (stores.copied fdIn i fdOut j k)
  | fails {opcode : Opcode} {stores : Stores} : Opcode.Runs pos opcode stores stores

/-- `AsyncCopyable::copy_to`: the arguments in the order in which it has them. -/
def copyTo (fdIn fd : RawFd) (bufferLength offsetIn offsetOut : UInt64) (flags : UInt32) : FdOperation IoSpliceData :=
  FdOperation.splice fdIn fd bufferLength offsetIn offsetOut flags

/-- The entry is for the range that was asked for, and the kernel copies some
of that range and changes nothing else. -/
structure CopiesRange (fdIn fd : RawFd) (bufferLength offsetIn offsetOut : UInt64) (flags : UInt32) : Prop where
  entry : ∀ key, ∃ len, ((copyTo fdIn fd bufferLength offsetIn offsetOut flags).t.asUringEntry fdIn key).opcode =
    .splice fdIn offsetIn.toInt64 fd offsetOut.toInt64 len flags ∧ len.toNat = bufferLength.toNat
  copies : ∀ key pos stores stores',
    ((copyTo fdIn fd bufferLength offsetIn offsetOut flags).t.asUringEntry fdIn key).opcode.Runs pos stores stores' →
      ∃ k ≤ bufferLength.toNat, stores' = stores.copied fdIn offsetIn.toNat fd offsetOut.toNat k

theorem offsetOf_of_lt (pos : ℕ) {off : UInt64} (h : off.toNat < 2 ^ 63) :
    offsetOf pos off.toInt64 = some off.toNat := by
  have hint : off.toInt64.toInt = off.toNat := 
    BitVec.toInt_eq_toNat_of_lt (by rw [UInt64.toBitVec_toInt64, UInt64.toNat_toBitVec]; omega)
  have hone : off.toInt64 ≠ -1 := by
    intro heq
    have hminus : (-1 : Int64).toInt = -1 := by decide
    rw [heq, hminus] at hint
    omega
  have hneg : ¬ off.toInt64 < 0 := by
    rw [Int64.lt_iff_toInt_lt, hint]
    simp
  rw [offsetOf, if_neg hone, if_neg hneg, hint, Int.toNat_natCast]

theorem Stores.copied_zero (stores : Stores) (fdIn : RawFd) (offIn : ℕ) (fdOut : RawFd) (offOut : ℕ) :
    stores.copied fdIn offIn fdOut offOut 0 = stores := by
  rw [copied, List.take_zero, overwrite, if_pos rfl, Function.update_eq_self]

section CopyTo

variable (fdIn fd : RawFd) (bufferLength offsetIn offsetOut : UInt64) (flags : UInt32)

/-- The entry of `copy_to`: the length is the first offset, the first offset
the second, and the second one the length. -/
theorem copyTo_opcode (key : Key) :
    ((copyTo fdIn fd bufferLength offsetIn offsetOut flags).t.asUringEntry fdIn key).opcode =
      .splice fdIn bufferLength.toInt64 fd offsetIn.toInt64 offsetOut.toUInt32 flags := rfl

/-- **`copy_to` copies the range that it is asked for exactly if its length and
its two offsets are one number, which fits a `u32`.** -/
theorem copiesRange_iff : CopiesRange fdIn fd bufferLength offsetIn offsetOut flags ↔
    bufferLength = offsetIn ∧ offsetIn = offsetOut ∧ offsetOut.toNat < 2 ^ 32 := by
  constructor
  · intro h
    obtain ⟨len, hentry, hlen⟩ := h.entry 0
    rw [copyTo_opcode] at hentry
    injection hentry with _ hin _ hout hcount _
    have hin := congrArg Int64.toUInt64 hin
    have hout := congrArg Int64.toUInt64 hout
    rw [UInt64.toUInt64_toInt64, UInt64.toUInt64_toInt64] at hin hout
    subst hin hout
    rw [← hcount] at hlen
    exact ⟨rfl, rfl, (toNat_toUInt32_eq_iff _).mp hlen⟩
  · rintro ⟨rfl, rfl, hlt⟩
    have hlen : bufferLength.toUInt32.toNat = bufferLength.toNat := (toNat_toUInt32_eq_iff _).mpr hlt
    refine ⟨fun key => ⟨_, copyTo_opcode .., hlen⟩, fun key pos stores stores' hruns => ?_⟩
    rw [copyTo_opcode] at hruns
    cases hruns with
    | splice hin hout hk =>
      rw [offsetOf_of_lt _ (by omega)] at hin hout
      cases hin
      cases hout
      exact ⟨_, hlen ▸ hk, rfl⟩
    | fails => exact ⟨0, Nat.zero_le _, (stores.copied_zero ..).symm⟩

end CopyTo

/-- The first hundred bytes are asked for, and none are copied. -/
theorem copiesRange_fails : ¬ CopiesRange 3 4 100 0 0 0 := by
  intro h
  obtain ⟨len, hentry, -⟩ := h.entry 0
  cases hentry

end ClAsync
