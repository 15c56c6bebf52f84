/-
# Reading a whole file

`File::read_all` asks `statx` for the size of the file and reads once, from its
start, into a buffer that is made for that many bytes. What this one read
delivers is what is returned: the kernel may deliver less than it is asked for,
and is asked for the last 32 bits of the size. So the file is returned whole
exactly if its size fits a `u32` and the read is not cut short.

Key definitions: `readAll`, `Run`, what the kernel does with the two operations,
and `delivered`.
Key theorems: `readAll_eq`, what is returned, `readsWhole_iff`, for every run, and
`readsWhole_forall_iff`, for every file.
-/
import ClAsync.Fs.Stats
import ClAsync.Io.Entries
import Mathlib.Data.PNat.Defs

namespace ClAsync
namespace ReadAll

open Calls (Outcome)
open Statx (IoStatxData LibcStatx NulError)

/-! ### The two operations -/

/-- The `IoError`s of the call, without the operation that is in them. -/
inductive IoError
  | stringWithInteriorNullBytes (e : NulError)
  | failedToDispatchOperation
  | operation (osError : OsError)
  deriving DecidableEq, Repr

/-- The bits of `IoStatxFlags`. -/
abbrev IoStatxFlags := Int32

def IoStatxFlags.default : IoStatxFlags := 0
def IoStatxFlags.atEmptyPath : IoStatxFlags := 0x1000

/-- `stats_fd`: a `statx` of the descriptor itself. -/
def statsFd (fd : RawFd) (flags : IoStatxFlags) (mask : IoStatxMask) : Outcome IoError (FdOperation IoStatxData) :=
  match IoStatxData.new [] (IoStatxFlags.atEmptyPath ||| flags) mask with
  | .ok t => .ok ⟨fd, t⟩
  | .error e => .err (.stringWithInteriorNullBytes e)

/-- `IoReadCompletion`. -/
structure IoReadCompletion where
  buffer : BytesMut
  bytesRead : ℕ
  deriving DecidableEq, Repr

/-- `get_completion` of a read. -/
def getCompletion (reserved : List UInt8) (d : IoReadData) (resultCode : ℕ) : IoReadCompletion :=
  match d.buffer with
  | some buffer =>
    match buffer.intoBytes reserved resultCode with
    | .ok buffer => ⟨buffer, resultCode⟩
    | .error e => ⟨e.intoBuffer, resultCode⟩
  | none => ⟨⟨[], []⟩, resultCode⟩

/-- The kernel writes `data` into the buffer. -/
def written (d : IoReadData) (data : List UInt8) : IoReadData :=
  { d with buffer := d.buffer.map fun buffer => ⟨buffer.data.write data⟩ }

/-! ### The kernel -/

/-- What becomes of an operation. -/
inductive Answer (α : Type)
  | notDispatched
  | failed (errno : ℤ)
  | completed (a : α)
  deriving DecidableEq, Repr

namespace Answer

variable {α : Type}

/-- What the future of the operation returns. -/
def await : Answer α → Outcome IoError α
  | notDispatched => .err .failedToDispatchOperation
  | failed errno => .err (.operation (.ofErrno errno))
  | completed a => .ok a

/-- It does not complete. -/
def Fails (x : Answer α) : Prop := ∀ a, x ≠ completed a

@[simp] theorem not_fails_completed (a : α) : ¬ (completed a).Fails := fun h => h a rfl

theorem Fails.await {x : Answer α} (h : x.Fails) : ∃ e, x.await = .err e := by
  cases x with
  | notDispatched => exact ⟨_, rfl⟩
  | failed errno => exact ⟨_, rfl⟩
  | completed a => exact absurd rfl (h a)

theorem fails_or_completed (x : Answer α) : x.Fails ∨ ∃ a, x = completed a := by
  cases x with
  | completed a => exact Or.inr ⟨a, rfl⟩
  | notDispatched => exact Or.inl fun a h => by cases h
  | failed errno => exact Or.inl fun a h => by cases h

end Answer

/-- What is delivered for up to `m` bytes at `offset`: no more than `limit`. -/
def delivered (content : List UInt8) (offset m : ℕ) (limit : ℕ+) : List UInt8 :=
  (content.drop offset).take (min m limit)

/-- What is delivered for an entry of the submission queue. -/
def Entry.delivered (content : List UInt8) (e : Entry) (limit : ℕ+) : List UInt8 :=
  match e.opcode with
  | .read _ len offset => ReadAll.delivered content offset.toNat len.toNat limit
  | _ => []

/-- What the kernel does with the two operations, of a file that contains
`content`. -/
structure Run (content : List UInt8) where
  statx : Answer LibcStatx
  read : Answer ℕ+
  stxSize : ∀ answer, statx = .completed answer → answer.stxSize.toNat = content.length

/-- Up to `m` bytes at the start are any number from 1 to `m`, or to the end,
and none at the end. -/
theorem length_delivered_iff (content : List UInt8) (m n : ℕ) :
    (∃ limit, (delivered content 0 m limit).length = n) ↔
      if 0 < m ∧ 0 < content.length then 1 ≤ n ∧ n ≤ min m content.length else n = 0 := by
  simp only [delivered, List.drop_zero, List.length_take]
  constructor
  · rintro ⟨limit, rfl⟩
    have hlimit := limit.pos
    split <;> omega
  · intro h
    split at h
    · exact ⟨⟨n, h.1⟩, by rw [PNat.mk_coe]; omega⟩
    · exact ⟨1, by rw [PNat.one_coe]; omega⟩

/-! ### The call -/

section ReadAll

variable {content : List UInt8} (alloc : (n : ℕ) → Vector UInt8 n) (reserved reserved' : Vector UInt8 64) (fd : RawFd)
  (key : Key) (run : Run content)

/-- `File::stats`. -/
def stats (flags : IoStatxFlags) (mask : IoStatxMask) : Outcome IoError Statx.Stats :=
  (statsFd fd flags mask).bind fun op =>
  run.statx.await.bind fun answer =>
  Statx.Stats.tryFromCompletion (op.t.answered answer).getCompletion

/-- What a future with the operation comes to. A full buffer reserves
`reserved` for the operation, and `reserved'` once it has been completed. -/
def awaitRead (op : FdOperation IoReadData) : Outcome IoError (List UInt8) :=
  (op.t.asUringEntry reserved.toList op.fd key).bind fun (entry, data) =>
  run.read.await.bind fun limit =>
  let bytes := Entry.delivered content entry limit
  .ok (getCompletion reserved'.toList (written data bytes) bytes.length).buffer.bytes

/-- `File::read_all`. -/
def readAll : Outcome IoError (List UInt8) :=
  (stats fd run IoStatxFlags.default .size).bind fun stats =>
  (FdOperation.readAt alloc fd 0 (stats.size.getD 0)).bind fun op =>
  awaitRead reserved reserved' key run op

theorem stats_of_fails (h : run.statx.Fails) (flags : IoStatxFlags) (mask : IoStatxMask) :
    ∃ e, stats fd run flags mask = .err e := by
  obtain ⟨e, he⟩ := h.await
  refine ⟨e, ?_⟩
  rw [stats, statsFd, IoStatxData.new, dif_neg List.not_mem_nil, Outcome.ok_bind, he]
  rfl

/-- The size is that of the file. -/
theorem stats_size {answer : LibcStatx} (h : run.statx = .completed answer) :
    ∃ stats', stats fd run IoStatxFlags.default .size = .ok stats' ∧ (stats'.size.getD 0).toNat = content.length := by
  obtain ⟨stats', hstats, hsize⟩ : ∃ stats' : Statx.Stats,
      (Statx.Stats.new answer .size : Outcome IoError Statx.Stats) = .ok stats' ∧ stats'.size = some answer.stxSize :=
    ⟨_, rfl, rfl⟩
  refine ⟨stats', ?_, ?_⟩
  · rw [stats, statsFd, IoStatxData.new, dif_neg List.not_mem_nil, Outcome.ok_bind, h, Answer.await, Outcome.ok_bind]
    exact hstats
  · rw [hsize]
    exact run.stxSize answer h

/-- How many bytes the kernel is asked for. -/
def requested (size : ℕ) : ℕ := (UInt32.ofNat (if size = 0 then 64 else size)).toNat

theorem requested_le_spare {size : ℕ} {spare : List UInt8} (h : spare.length = if size = 0 then 64 else size) :
    requested size ≤ spare.length := by
  rw [requested, ← h, UInt32.toNat_ofNat']
  exact Nat.mod_le _ _

theorem length_le_requested_iff (size : ℕ) : size ≤ requested size ↔ size < 2 ^ 32 := by
  rw [requested, UInt32.toNat_ofNat']
  split <;> omega

/-- What is written into a buffer without contents is what the completion
returns. -/
theorem getCompletion_written {spare data : List UInt8} (hspare : 0 < spare.length)
    (hdata : data.length ≤ spare.length) (offset : UInt64) :
    (getCompletion reserved'.toList (written ⟨some ⟨⟨[], spare⟩⟩, offset⟩ data) data.length).buffer.bytes = data := by
  have hlen : (data ++ spare.drop data.length).length = spare.length := by
    rw [List.length_append, List.length_drop]
    omega
  have hchunk : (BytesMut.mk [] (data ++ spare.drop data.length)).chunkMut reserved'.toList =
      ⟨[], data ++ spare.drop data.length⟩ := by
    rw [BytesMut.chunkMut, BytesMut.capacity, BytesMut.len, hlen, List.length_nil, if_neg (by omega)]
  have hbytes : IoOutputBuffer.intoBytes reserved'.toList ⟨⟨[], data ++ spare.drop data.length⟩⟩ data.length =
      .ok ⟨data, spare.drop data.length⟩ := by
    rw [IoOutputBuffer.intoBytes, hchunk]
    simp [BytesMut.advanceMut, hdata]
  simp [getCompletion, written, BytesMut.write, hbytes]

/-- What is returned is what the read delivers. -/
theorem awaitRead_readAt {n : ℕ} {buffer : IoOutputBuffer}
    (hbuffer : (IoOutputBuffer.withCapacity alloc n : Outcome IoError IoOutputBuffer) = .ok buffer) :
    awaitRead reserved reserved' key run (FdOperation.readAtInto fd 0 buffer) =
      run.read.await.bind fun limit => .ok (delivered content 0 (requested n) limit) := by
  obtain ⟨spare, hspare, hwritable⟩ := writableLen_withCapacity reserved hbuffer
  have hle := requested_le_spare hspare
  have hpos : 0 < spare.length := by
    rw [hspare]
    split <;> omega
  rw [requested, ← hspare] at hle ⊢
  rw [awaitRead, FdOperation.readAtInto, IoReadData.asUringEntry, uringEntry, hwritable]
  simp only [Outcome.ok_bind, Entry.delivered]
  congr 1
  funext limit
  rw [getCompletion_written reserved' hpos]
  · rfl
  · rw [delivered, List.length_take]
    omega

theorem readAll_of_statx_fails (h : run.statx.Fails) :
    ∃ e, readAll alloc reserved reserved' fd key run = .err e := by
  obtain ⟨e, he⟩ := stats_of_fails fd run h IoStatxFlags.default .size
  refine ⟨e, ?_⟩
  rw [readAll, he]
  rfl

/-- **The call, once `statx` has been answered: it panics if no buffer can be
made for so many bytes, and returns otherwise what the one read delivers.** -/
theorem readAll_eq {answer : LibcStatx} (h : run.statx = .completed answer) :
    readAll alloc reserved reserved' fd key run =
      if content.length < 2 ^ 63 then
        run.read.await.bind fun limit => .ok (delivered content 0 (requested content.length) limit)
      else .panics := by
  obtain ⟨stats', hstats, hsize⟩ := stats_size fd run h
  rw [readAll, hstats, Outcome.ok_bind, FdOperation.readAt, hsize]
  split
  · rename_i hlt
    have hbuffer : (IoOutputBuffer.withCapacity alloc content.length : Outcome IoError IoOutputBuffer) =
        .ok ⟨⟨[], (alloc content.length).toList⟩⟩ := if_pos hlt
    rw [hbuffer]
    exact awaitRead_readAt alloc reserved reserved' fd key run hbuffer
  · rename_i hle
    rw [IoOutputBuffer.withCapacity, if_neg hle]
    rfl

theorem delivered_eq_iff (content : List UInt8) (limit : ℕ+) :
    delivered content 0 (requested content.length) limit = content ↔
      content.length < 2 ^ 32 ∧ content.length ≤ limit := by
  rw [delivered, List.drop_zero, List.take_eq_self_iff, le_min_iff, length_le_requested_iff]

/-- **The file is returned whole, or there is an error, exactly if an operation
fails, the buffer of the read having been made, or the size fits a `u32` and the
read is not cut short.** -/
theorem readsWhole_iff : (readAll alloc reserved reserved' fd key run).Returns (· = content) ↔
    run.statx.Fails ∨ (content.length < 2 ^ 63 ∧ run.read.Fails) ∨
      (content.length < 2 ^ 32 ∧ ∃ limit, run.read = .completed limit ∧ content.length ≤ limit) := by
  rcases run.statx.fails_or_completed with hstatx | ⟨answer, hstatx⟩
  · obtain ⟨e, he⟩ := readAll_of_statx_fails alloc reserved reserved' fd key run hstatx
    rw [he]
    exact iff_of_true trivial (Or.inl hstatx)
  · rw [readAll_eq alloc reserved reserved' fd key run hstatx, hstatx]
    split
    · rename_i hlt
      rcases run.read.fails_or_completed with hread | ⟨limit, hread⟩
      · obtain ⟨e, he⟩ := hread.await
        rw [he]
        exact iff_of_true trivial (Or.inr (Or.inl ⟨hlt, hread⟩))
      · rw [hread, Answer.await, Outcome.ok_bind, Outcome.returns_ok, delivered_eq_iff]
        simp
    · rename_i hle
      refine iff_of_false id ?_
      rintro (h | ⟨h, -⟩ | ⟨h, -⟩)
      · exact Answer.not_fails_completed answer h
      · exact hle h
      · omega

end ReadAll

/-- A run in which no operation fails, and up to `limit` bytes are delivered. -/
def completed (content : List UInt8) (limit : ℕ+) (h : content.length < 2 ^ 64) : Run content where
  statx := .completed { LibcStatx.zeroed with stxMask := .size, stxSize := .ofNat content.length }
  read := .completed limit
  stxSize answer hanswer := by
    cases hanswer
    exact (UInt64.toNat_ofNat').trans (Nat.mod_eq_of_lt h)

/-- Of two bytes one is delivered. -/
theorem readsWhole_fails : ¬ (readAll (fun n => Vector.replicate n 0) (Vector.replicate 64 0) (Vector.replicate 64 0)
    3 0 (completed [1, 2] 1 (by decide))).Returns (· = [1, 2]) := by
  intro h
  rw [readAll_eq _ _ _ _ _ _ rfl, if_pos (by decide)] at h
  exact absurd h (by decide)

/-- **Whatever the kernel does, only a file of at most one byte is sure to be
returned whole.** -/
theorem readsWhole_forall_iff (alloc : (n : ℕ) → Vector UInt8 n) (reserved reserved' : Vector UInt8 64) (fd : RawFd)
    (key : Key) {content : List UInt8} (h : content.length < 2 ^ 64) :
    (∀ run : Run content, (readAll alloc reserved reserved' fd key run).Returns (· = content)) ↔
      content.length ≤ 1 := by
  constructor
  · intro hwhole
    rcases (readsWhole_iff alloc reserved reserved' fd key _).mp (hwhole (completed content 1 h)) with
      hstatx | ⟨-, hread⟩ | ⟨-, limit, hread, hle⟩
    · exact absurd hstatx (Answer.not_fails_completed _)
    · exact absurd hread (Answer.not_fails_completed _)
    · cases hread
      exact hle
  · intro hle run
    rw [readsWhole_iff]
    rcases run.read.fails_or_completed with hread | ⟨limit, hread⟩
    · exact Or.inr (Or.inl ⟨by omega, hread⟩)
    · have := limit.pos
      exact Or.inr (Or.inr ⟨by omega, limit, hread, by omega⟩)

end ReadAll
end ClAsync
