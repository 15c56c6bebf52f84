/-
# Vectored reads

A vectored read walks its buffers twice. `generate_iovecs` gives the kernel
the spare capacity of every buffer that has some; `into_bytes` hands the
number of bytes read out again, buffer by buffer, to what `chunk_mut`
returns. On a full `BytesMut` the one makes no iovec and the other first
reserves 64 bytes, so the two walks part at the first full buffer the count
reaches: it gets bytes the kernel never wrote, and the last buffers miss
theirs.

A buffer is its contents and the memory behind them; the memory a buffer
reserves is arbitrary.

Key definitions: `generateIovecs`, `intoBytes`, `kernelFill`, `parts`.
Key theorems: `kernelFill_eq`, the kernel puts `parts` in the spare memory
of the buffers, `distribute_iff`, exactly when the second walk agrees, and
`returnsWritten_iff`, the law for `readv` and `recvmsg`.
-/
import Mathlib.Algebra.Ring.Nat
import Mathlib.Data.List.Basic
import Mathlib.Tactic.Common

namespace ClAsync

/-- A `BytesMut`: its contents and the memory behind them, up to the capacity. -/
structure BytesMut where
  bytes : List UInt8
  spare : List UInt8
  deriving DecidableEq, Repr

namespace BytesMut

/-- `BytesMut::len`. -/
def len (b : BytesMut) : ℕ := b.bytes.length

/-- `BytesMut::capacity`. -/
def capacity (b : BytesMut) : ℕ := b.bytes.length + b.spare.length

/-- `BufMut::chunk_mut` of a `BytesMut`: a full buffer reserves first, and has
then the memory `reserved` behind its contents. -/
def chunkMut (b : BytesMut) (reserved : List UInt8) : BytesMut :=
  if b.capacity = b.len then { b with spare := reserved } else b

/-- `advance_mut`: the bytes are taken as written. -/
def advanceMut (b : BytesMut) (n : ℕ) : BytesMut := ⟨b.bytes ++ b.spare.take n, b.spare.drop n⟩

/-- `d` is written behind the contents. -/
def write (b : BytesMut) (d : List UInt8) : BytesMut := { b with spare := d ++ b.spare.drop d.length }

end BytesMut

/-! ### The two walks -/

/-- `InvalidIoVecError`: no iovecs, or too many. -/
inductive InvalidIoVecError
  | noDataForIoVecs
  | tooManyIoVecs (requested max : ℕ)
  deriving DecidableEq, Repr

/-- A `libc::iovec` made by `generate_iovecs`: `iov_base` is the end of the
contents of a buffer of the list. -/
structure Iovec where
  buffer : ℕ
  len : ℕ
  deriving DecidableEq, Repr

/-- The loop of `generate_iovecs`, from the buffer with index `i` on. -/
def iovecsFrom (i : ℕ) : List BytesMut → List Iovec
  | [] => []
  | b :: bs =>
    if b.capacity ≤ b.len then iovecsFrom (i + 1) bs
    else ⟨i, b.capacity - b.len⟩ :: iovecsFrom (i + 1) bs

/-- `assert_iovecs_valid`. -/
def assertIovecsValid (iovMax : ℕ) (iovecs : List Iovec) : Except InvalidIoVecError Unit :=
  if iovecs.isEmpty then .error .noDataForIoVecs
  else if iovecs.length > iovMax then .error (.tooManyIoVecs iovecs.length iovMax)
  else .ok ()

/-- `generate_iovecs` of a `Vec<BytesMut>`. -/
def generateIovecs (iovMax : ℕ) (bs : List BytesMut) : Except InvalidIoVecError (List Iovec) :=
  match assertIovecsValid iovMax (iovecsFrom 0 bs) with
  | .error e => .error e
  | .ok () => .ok (iovecsFrom 0 bs)

/-- `IoVecOutputBufferIntoBytesError`, with all the buffers. -/
structure IoVecOutputBufferIntoBytesError where
  requested : ℕ
  available : ℕ
  buffers : List BytesMut
  deriving DecidableEq, Repr

/-- The loop of `into_bytes`: the buffers advanced and the bytes accounted
for. `reserved` has the memory each of the buffers would reserve. -/
def distribute (totalBytes : ℕ) : (reserved : ℕ → List UInt8) → (accountedBytes : ℕ) →
    List BytesMut → List BytesMut × ℕ
  | _, accountedBytes, [] => ([], accountedBytes)
  | reserved, accountedBytes, b :: bs =>
    let b := b.chunkMut (reserved 0)
    let bytesInThisBuffer := min (totalBytes - accountedBytes) b.spare.length
    let (bs, accounted) :=
      distribute totalBytes (fun i => reserved (i + 1)) (accountedBytes + bytesInThisBuffer) bs
    (b.advanceMut bytesInThisBuffer :: bs, accounted)

/-- `IoVecOutputBuffer::into_bytes`. -/
def intoBytes (reserved : ℕ → List UInt8) (bs : List BytesMut) (totalBytes : ℕ) :
    Except IoVecOutputBufferIntoBytesError (List BytesMut) :=
  let (buffers, accountedBytes) := distribute totalBytes reserved 0 bs
  if accountedBytes < totalBytes then .error ⟨totalBytes, accountedBytes, buffers⟩
  else .ok buffers

/-! ### Its callers -/

/-- `IoMultiReadCompletion`. -/
structure IoMultiReadCompletion where
  buffers : List BytesMut
  bytesRead : ℕ
  deriving DecidableEq, Repr

/-- `IoReadvData::get_completion`; `iovec` is `None` once it has been taken. -/
def readvCompletion (reserved : ℕ → List UInt8) (iovec : Option (List BytesMut)) (resultCode : ℕ) :
    IoMultiReadCompletion :=
  let buffers := (iovec.map fun bs =>
    match intoBytes reserved bs resultCode with
    | .ok buffers => buffers
    | .error e => e.buffers).getD []
  ⟨buffers, resultCode⟩

/-- `PendingIoMessage::extract_data_buffers`. -/
def extractDataBuffers (reserved : ℕ → List UInt8) (data : Option (List BytesMut))
    (bytesReceived : ℕ) : Except IoVecOutputBufferIntoBytesError (Option (List BytesMut)) :=
  match data with
  | some buffers => (intoBytes reserved buffers bytesReceived).map some
  | none => .ok none

/-- The data buffers of `IoRecvMsgData::get_completion`. -/
def recvmsgBuffers (reserved : ℕ → List UInt8) (data : Option (List BytesMut)) (resultCode : ℕ) :
    Option (List BytesMut) :=
  match extractDataBuffers reserved data resultCode with
  | .ok buffers => buffers
  | .error e => some e.buffers

/-! ### The kernel -/

/-- The kernel fills the iovecs in order with `d`. -/
def kernelFill : List Iovec → List UInt8 → List BytesMut → List BytesMut
  | [], _, bs => bs
  | v :: vs, d, bs =>
    kernelFill vs (d.drop v.len) (bs.modify v.buffer fun b => b.write (d.take v.len))

/-- What each buffer receives of `d`. -/
def parts : List BytesMut → List UInt8 → List (List UInt8)
  | [], _ => []
  | b :: bs, d => d.take b.spare.length :: parts bs (d.drop b.spare.length)

/-- The spare capacity of the buffers. -/
def room (bs : List BytesMut) : ℕ := (bs.map fun b => b.spare.length).sum

theorem room_cons (b : BytesMut) (bs : List BytesMut) : room (b :: bs) = b.spare.length + room bs := rfl

/-- Every buffer with spare memory gets an iovec over all of it. -/
theorem iovecsFrom_cons (i : ℕ) (b : BytesMut) (bs : List BytesMut) :
    iovecsFrom i (b :: bs) =
      if b.spare.length = 0 then iovecsFrom (i + 1) bs
      else ⟨i, b.spare.length⟩ :: iovecsFrom (i + 1) bs := by
  rw [iovecsFrom, BytesMut.capacity, BytesMut.len, Nat.add_sub_cancel_left]
  split_ifs <;> first | rfl | omega

theorem iovecsFrom_len : ∀ (i : ℕ) (bs : List BytesMut), ((iovecsFrom i bs).map Iovec.len).sum = room bs
  | _, [] => rfl
  | i, b :: bs => by
    have ih := iovecsFrom_len (i + 1) bs
    rw [iovecsFrom_cons, room_cons]
    split_ifs with hzero
    · rw [ih, hzero, Nat.zero_add]
    · rw [List.map_cons, List.sum_cons, ih]

theorem parts_length : ∀ (bs : List BytesMut) (d : List UInt8), (parts bs d).length = bs.length
  | [], _ => rfl
  | _ :: bs, _ => congrArg (· + 1) (parts_length bs _)

/-- The parts of `d` are all of it. -/
theorem parts_flatten : ∀ (bs : List BytesMut) (d : List UInt8), d.length ≤ room bs →
    (parts bs d).flatten = d
  | [], _, h => (List.length_eq_zero_iff.mp (Nat.le_zero.mp h)).symm
  | b :: bs, d, h => by
    rw [room, List.map_cons, List.sum_cons] at h
    have ih := parts_flatten bs (d.drop b.spare.length) (by rw [List.length_drop, room]; omega)
    rw [parts, List.flatten_cons, ih, List.take_append_drop]

theorem modify_append_cons {α : Type} (f : α → α) (a : α) (as : List α) : ∀ pre : List α,
    (pre ++ a :: as).modify pre.length f = pre ++ f a :: as
  | [] => rfl
  | p :: pre => congrArg (p :: ·) (modify_append_cons f a as pre)

theorem kernelFill_from : ∀ (bs pre : List BytesMut) (d : List UInt8),
    kernelFill (iovecsFrom pre.length bs) d (pre ++ bs) =
      pre ++ List.zipWith BytesMut.write bs (parts bs d)
  | [], _, _ => rfl
  | b :: bs, pre, d => by
    have ih := kernelFill_from bs (pre ++ [b.write (d.take b.spare.length)]) (d.drop b.spare.length)
    rw [List.length_append, List.length_singleton, List.append_assoc, List.append_assoc,
      List.singleton_append, List.singleton_append] at ih
    rw [parts, List.zipWith_cons_cons, ← ih, iovecsFrom_cons]
    split_ifs with hzero
    · rw [hzero, List.take_zero, List.drop_zero]
      rfl
    · rw [kernelFill, modify_append_cons]

/-- The kernel puts its part in the spare memory of each buffer. -/
theorem kernelFill_eq (bs : List BytesMut) (d : List UInt8) :
    kernelFill (iovecsFrom 0 bs) d bs = List.zipWith BytesMut.write bs (parts bs d) :=
  kernelFill_from bs [] d

/-! ### What comes back -/

/-- The contents of the buffers, each with its part of `d` appended. -/
def appended (bs : List BytesMut) (d : List UInt8) : List (List UInt8) :=
  List.zipWith (· ++ ·) (bs.map BytesMut.bytes) (parts bs d)

theorem appended_length (bs : List BytesMut) (d : List UInt8) : (appended bs d).length = bs.length := by
  rw [appended, List.length_zipWith, List.length_map, parts_length, Nat.min_self]

/-- No full buffer comes before the end of the first `n` bytes of spare
memory. -/
def SpareFirst (bs : List BytesMut) (n : ℕ) : Prop :=
  ∀ i b, bs[i]? = some b → b.spare = [] → n ≤ room (bs.take i)

theorem spareFirst_cons {b : BytesMut} {bs : List BytesMut} {n : ℕ} :
    SpareFirst (b :: bs) n ↔ (b.spare = [] → n = 0) ∧ SpareFirst bs (n - b.spare.length) := by
  constructor
  · intro h
    refine ⟨fun hb => Nat.le_zero.mp (h 0 b rfl hb), fun i b' hi hb' => ?_⟩
    have hn := h (i + 1) b' hi hb'
    rw [List.take_succ_cons, room_cons] at hn
    omega
  · rintro ⟨hb, hbs⟩ i b' hi hb'
    cases i with
    | zero =>
      cases hi
      rw [hb hb']
      exact Nat.zero_le _
    | succ i =>
      have hn := hbs i b' hi hb'
      rw [List.take_succ_cons, room_cons]
      omega

theorem length_write_take (b : BytesMut) (d : List UInt8) :
    (b.write (d.take b.spare.length)).spare.length = b.spare.length := by
  rw [BytesMut.write, List.length_append, List.length_drop, List.length_take]
  omega

/-- A buffer that got its part of `d` has room for it, and advances over it. -/
theorem advance_write (b : BytesMut) (hb : b.spare ≠ []) (reserved d : List UInt8) :
    let filled := (b.write (d.take b.spare.length)).chunkMut reserved
    filled.spare.length = b.spare.length ∧
      (filled.advanceMut (min d.length b.spare.length)).bytes = b.bytes ++ d.take b.spare.length := by
  have hpos : 0 < b.spare.length := List.length_pos_iff.mpr hb
  have hlen := length_write_take b d
  have hchunk : (b.write (d.take b.spare.length)).chunkMut reserved = b.write (d.take b.spare.length) := by
    refine if_neg ?_
    rw [BytesMut.capacity, BytesMut.len]
    omega
  rw [hchunk]
  refine ⟨hlen, ?_⟩
  rw [BytesMut.advanceMut, BytesMut.write, List.take_left' (by rw [List.length_take]; omega)]

/-- **The walk of `into_bytes` gives each buffer its part if and only if no
full buffer comes before the end of the bytes read.** -/
theorem distribute_iff {total : ℕ} : ∀ (bs : List BytesMut) (reserved : ℕ → List UInt8) (acc : ℕ)
    (d : List UInt8), (∀ i, 64 ≤ (reserved i).length) → total = acc + d.length →
    ((distribute total reserved acc (List.zipWith BytesMut.write bs (parts bs d))).1.map
      BytesMut.bytes = appended bs d ↔ SpareFirst bs d.length)
  | [], _, _, _, _, _ => by simp [distribute, appended, parts, SpareFirst]
  | b :: bs, reserved, acc, d, hres, htotal => by
    have hleft : total - acc = d.length := by omega
    rw [spareFirst_cons, parts, List.zipWith_cons_cons, distribute, appended, parts, List.map_cons,
      List.map_cons, List.zipWith_cons_cons, ← appended, List.cons.injEq, hleft]
    by_cases hb : b.spare = []
    · -- The full buffer reserves, and takes what is left of the count.
      have hwrite : (b.write (d.take b.spare.length)).chunkMut (reserved 0) = ⟨b.bytes, reserved 0⟩ := by
        simp [hb, BytesMut.write, BytesMut.chunkMut, BytesMut.capacity, BytesMut.len]
      rw [hwrite, hb, List.length_nil, List.take_zero, List.append_nil, List.drop_zero, Nat.sub_zero]
      by_cases hd : d.length = 0
      · have ih := distribute_iff bs (fun i => reserved (i + 1)) acc d (fun i => hres _) htotal
        rw [hd, Nat.zero_min, Nat.add_zero]
        rw [hd] at ih
        simpa [BytesMut.advanceMut] using ih
      · refine iff_of_false (fun h => ?_) (fun h => hd (h.1 rfl))
        have hnil := List.append_right_eq_self.mp h.1
        have hlen := hres 0
        have hzero : min (min d.length (reserved 0).length) (reserved 0).length = 0 := by
          simpa using congrArg List.length hnil
        omega
    · obtain ⟨hspare, hbytes⟩ := advance_write b hb (reserved 0) d
      rw [hspare, hbytes]
      have htail : total = acc + min d.length b.spare.length + (d.drop b.spare.length).length := by
        rw [List.length_drop]
        omega
      rw [distribute_iff bs _ _ _ (fun i => hres _) htail, List.length_drop]
      simp [hb]

/-- The walk accounts for every byte there is room for. -/
theorem le_distribute {total : ℕ} : ∀ (bs : List BytesMut) (reserved : ℕ → List UInt8) (acc : ℕ),
    total ≤ acc + room bs → total ≤ (distribute total reserved acc bs).2
  | [], _, _, h => h
  | b :: bs, reserved, acc, h => by
    rw [room_cons] at h
    refine le_distribute bs _ _ ?_
    have hchunk : b.spare.length ≤ (b.chunkMut (reserved 0)).spare.length := by
      rw [BytesMut.chunkMut, BytesMut.capacity, BytesMut.len]
      split
      · rename_i hfull
        omega
      · exact Nat.le_refl _
    omega

theorem room_kernelFill : ∀ (bs : List BytesMut) (d : List UInt8),
    room (List.zipWith BytesMut.write bs (parts bs d)) = room bs
  | [], _ => rfl
  | b :: bs, d => by
    rw [parts, List.zipWith_cons_cons, room_cons, room_cons, room_kernelFill bs, length_write_take]

theorem intoBytes_eq (reserved : ℕ → List UInt8) {bs : List BytesMut} {n : ℕ} (h : n ≤ room bs) :
    intoBytes reserved bs n = .ok (distribute n reserved 0 bs).1 := by
  have hle : n ≤ (distribute n reserved 0 bs).2 := le_distribute bs reserved 0 (by rwa [Nat.zero_add])
  exact if_neg (Nat.not_lt.mpr hle)

/-- What a vectored read of `d` into `bs` returns, when `iovecs` were made for
it: every buffer with the bytes of its own iovec appended, which are all of
`d`. `readv` and `recvmsg` return it too. -/
def ReturnsWritten (reserved : ℕ → List UInt8) (iovecs : List Iovec) (bs : List BytesMut)
    (d : List UInt8) : Prop :=
  let filled := kernelFill iovecs d bs
  (∃ out, intoBytes reserved filled d.length = .ok out ∧ out.length = bs.length ∧
      out.map BytesMut.bytes = appended bs d) ∧
    (parts bs d).flatten = d ∧
    (readvCompletion reserved (some filled) d.length).buffers.map BytesMut.bytes = appended bs d ∧
    (recvmsgBuffers reserved (some filled) d.length).map (List.map BytesMut.bytes) =
      some (appended bs d)

/-- **A vectored read returns what the kernel wrote if and only if no full
buffer comes before the end of the bytes read.** -/
theorem returnsWritten_iff (reserved : ℕ → List UInt8) (hreserved : ∀ i, 64 ≤ (reserved i).length)
    (iovMax : ℕ) (bs : List BytesMut) (iovecs : List Iovec) (hiovecs : generateIovecs iovMax bs = .ok iovecs)
    (d : List UInt8) (hd : d.length ≤ (iovecs.map Iovec.len).sum) :
    ReturnsWritten reserved iovecs bs d ↔ SpareFirst bs d.length := by
  have hvs : iovecs = iovecsFrom 0 bs := by
    unfold generateIovecs at hiovecs
    split at hiovecs
    · cases hiovecs
    · exact (Except.ok.inj hiovecs).symm
  subst hvs
  rw [iovecsFrom_len] at hd
  have hok := intoBytes_eq reserved ((room_kernelFill bs d).symm ▸ hd)
  rw [← kernelFill_eq] at hok
  have hlength : ∀ out : List BytesMut, out.map BytesMut.bytes = appended bs d →
      out.length = bs.length := by
    intro out hout
    rw [← appended_length bs d, ← hout, List.length_map]
  rw [← distribute_iff bs reserved 0 d hreserved (Nat.zero_add _).symm, ← kernelFill_eq]
  unfold ReturnsWritten readvCompletion recvmsgBuffers extractDataBuffers
  simp only [hok, Except.ok.injEq, exists_eq_left', Option.map_some, Option.getD_some,
    parts_flatten bs d hd, true_and, Except.map, Option.some.injEq, and_self]
  exact ⟨fun h => h.2, fun h => ⟨⟨hlength _ h, h⟩, h⟩⟩

theorem returnsWritten_twoBuffers :
    ReturnsWritten (fun _ => List.replicate 64 0) [⟨0, 2⟩, ⟨1, 3⟩] [⟨[1], [0, 0]⟩, ⟨[], [0, 0, 0]⟩]
      [7, 8, 9] :=
  (returnsWritten_iff _ (fun _ => by simp) 1024 _ _ rfl _ (by decide)).mpr
    (spareFirst_cons.mpr ⟨by simp, spareFirst_cons.mpr ⟨by simp, fun i b h => by simp at h⟩⟩)

/-- A full buffer in front of one with room takes the byte that was read,
from the memory it reserves. -/
theorem returnsWritten_fails :
    generateIovecs 1024 [⟨[1], []⟩, ⟨[], [0, 0]⟩] = .ok [⟨1, 2⟩] ∧
      ¬ ReturnsWritten (fun _ => List.replicate 64 0) [⟨1, 2⟩] [⟨[1], []⟩, ⟨[], [0, 0]⟩] [9] :=
  ⟨rfl, fun h => absurd h.2.2.1 (by decide)⟩

end ClAsync
