/-
# Control messages in a buffer

A control buffer is a row of control messages, each with a header, its
payload and the padding up to the next multiple of eight. `tryPrepareMulti`
writes one; `tryParseFromSlice` and `tryParseFromMsghdr` each read one, the
first stepping by `CMSG_SPACE`, the second by `CMSG_NXTHDR`.

The macros are those of `libc` on 64-bit Linux. `CMSG_LEN` and `CMSG_SPACE`
take and return a `c_uint`, so a length is cut to 32 bits on the way in and
on the way out. The sums of `CMSG_LEN` and `CMSG_ALIGN` wrap here, as they do in
a release build of `libc`; a build that checks them panics instead, on lengths
whose messages do not fit either way (`PayloadFits`).

A pointer is an offset into an `Area`, memory from some address on. An access
outside of it is undefined, and so is that to a header which is not aligned; the
addresses themselves do not wrap. What a fresh buffer contains is the parameter
`alloc`; it is where `malloc` puts it, at a multiple of eight.

Key definitions: `tryPrepareMulti`, `tryParseFromSlice`, `tryParseFromMsghdr`.
-/
import ClAsync.Io.ControlMessage

namespace ClAsync
namespace Message

open Calls Layout

/-! ### The macros -/

/-- `as c_uint`. -/
def cUint (n : ℕ) : ℕ := n % 2 ^ 32

/-- `CMSG_ALIGN`: up to a multiple of the size of a `usize`. -/
def cmsgAlign (len : ℕ) : ℕ := (len + 7) % 2 ^ 64 / 8 * 8

/-- `libc::cmsghdr`. -/
structure Cmsghdr where
  cmsgLen : UInt64
  cmsgLevel : Int32
  cmsgType : Int32
  deriving DecidableEq, Repr

instance : Plain Cmsghdr :=
  Plain.ofRetract (fun h => (h.cmsgLen, h.cmsgLevel, h.cmsgType)) (fun x => ⟨x.1, x.2.1, x.2.2⟩) fun _ => rfl

/-- `CMSG_LEN`. -/
def cmsgLen (length : ℕ) : ℕ := cUint (cUint (cmsgAlign (size Cmsghdr)) + length)

/-- `CMSG_SPACE`. -/
def cmsgSpace (length : ℕ) : ℕ := cUint (cmsgAlign length + cmsgAlign (size Cmsghdr))

/-- `CMSG_DATA`. -/
def cmsgData (cmsg : ℕ) : ℕ := cmsg + size Cmsghdr

/-- Memory that starts at an address. -/
structure Area where
  addr : ℕ
  bytes : List UInt8
  deriving DecidableEq, Repr

/-- A `cmsghdr` at the offset is where its type wants it. -/
def Area.Aligned (mem : Area) (offset : ℕ) : Prop := (mem.addr + offset) % 8 = 0

instance (mem : Area) (offset : ℕ) : Decidable (mem.Aligned offset) := by
  unfold Area.Aligned
  infer_instance

/-- `*cmsg_ptr`, the header at an offset. -/
def Area.header {ε : Type} (mem : Area) (cmsg : ℕ) : Outcome ε Cmsghdr :=
  if mem.Aligned cmsg then Outcome.ofOption (loadAt Cmsghdr mem.bytes cmsg) else .undefined

theorem header_eq_ok {ε : Type} {mem : Area} {cmsg : ℕ} {hdr : Cmsghdr} :
    (mem.header cmsg : Outcome ε Cmsghdr) = .ok hdr ↔ mem.Aligned cmsg ∧ loadAt Cmsghdr mem.bytes cmsg = some hdr := by
  unfold Area.header
  split_ifs with h
  · rw [Outcome.ofOption_eq_ok]
    exact (and_iff_right h).symm
  · refine iff_of_false (fun h => ?_) fun h' => h h'.1
    cases h

/-- The control area of a `msghdr`: `msg_controllen` bytes from `msg_control`
on. -/
structure Msghdr where
  control : Area
  deriving DecidableEq, Repr

/-- `CMSG_FIRSTHDR`. -/
def cmsgFirsthdr (mhdr : Msghdr) : Option ℕ :=
  if size Cmsghdr ≤ mhdr.control.bytes.length then some 0 else none

/-- `CMSG_NXTHDR`: null when the next header, or what it announces, reaches
beyond the control area. -/
def cmsgNxthdr {ε : Type} (mhdr : Msghdr) (cmsg : ℕ) : Outcome ε (Option ℕ) :=
  (mhdr.control.header cmsg).bind fun hdr =>
  if hdr.cmsgLen.toNat < size Cmsghdr then .ok none
  else
    let next := cmsg + cmsgAlign hdr.cmsgLen.toNat
    if mhdr.control.bytes.length < next + size Cmsghdr then .ok none
    else
      (mhdr.control.header next).bind fun nextHdr =>
      if mhdr.control.bytes.length < next + cmsgAlign nextHdr.cmsgLen.toNat then .ok none
      else .ok (some next)

/-! ### Reading -/

/-- A control message. -/
structure IoControlMessage where
  level : IoControlMessageLevel
  deriving DecidableEq, Repr

/-- `try_parse_single`, of the message that the pointer leads to. -/
def tryParseSingle (mem : Area) (cmsgPtr : Option ℕ) : Outcome ParseControlMessageError IoControlMessage :=
  match cmsgPtr with
  | none => .err .nullPointer
  | some cmsg =>
    (mem.header cmsg).bind fun hdr =>
    let baseSize := cmsgLen 0
    let hdrSize := hdr.cmsgLen.toNat
    if hdrSize < baseSize then .err (.invalidControlMessageLength baseSize hdrSize)
    else
      (IoControlMessageLevel.parse
        ⟨hdr.cmsgLevel, hdr.cmsgType, hdrSize - baseSize, mem.bytes.drop (cmsgData cmsg)⟩).bind fun level =>
      .ok ⟨level⟩

/-- The loop of `try_parse_from_slice`. A round that does not advance is
repeated for ever, so a loop of more rounds than there are bytes never ends. -/
def sliceLoop (cmsgs : Area) :
    ℕ → ℕ → List IoControlMessage → Outcome ParseControlMessageError (List IoControlMessage)
  | 0, _, _ => .diverges
  | fuel + 1, offset, parsedMessages =>
    if offset < cmsgs.bytes.length then
      (tryParseSingle cmsgs (some offset)).bind fun msg =>
      (cmsgs.header offset).bind fun hdr =>
      let dataLen := hdr.cmsgLen.toNat - cmsgLen 0
      sliceLoop cmsgs fuel (offset + cmsgSpace (cUint dataLen)) (parsedMessages ++ [msg])
    else .ok parsedMessages

/-- `try_parse_from_slice`. -/
def tryParseFromSlice (cmsgs : Area) : Outcome ParseControlMessageError (List IoControlMessage) :=
  if cmsgs.bytes = [] then .ok []
  else sliceLoop cmsgs (cmsgs.bytes.length + 1) 0 []

/-- The loop of `try_parse_from_msghdr`. Each round advances by a header at
least. -/
def hdrLoop (mhdr : Msghdr) :
    ℕ → Option ℕ → List IoControlMessage → Outcome ParseControlMessageError (List IoControlMessage)
  | 0, _, _ => .diverges
  | _ + 1, none, messages => .ok messages
  | fuel + 1, some cmsg, messages =>
    (tryParseSingle mhdr.control (some cmsg)).bind fun message =>
    (cmsgNxthdr mhdr cmsg).bind fun next =>
    hdrLoop mhdr fuel next (messages ++ [message])

/-- `try_parse_from_msghdr`. -/
def tryParseFromMsghdr (mhdr : Msghdr) : Outcome ParseControlMessageError (List IoControlMessage) :=
  match cmsgFirsthdr mhdr with
  | none => .err .nullPointer
  | some cmsg => hdrLoop mhdr (mhdr.control.bytes.length + 1) (some cmsg) []

/-! ### Writing -/

/-- The header that is written for a prepared message. -/
def RawControlMessageOut.header (msg : RawControlMessageOut) : Cmsghdr :=
  ⟨UInt64.ofNat (cmsgLen (cUint msg.payload.length)), msg.messageLevel, msg.messageType⟩

/-- One round of the loop that writes: the header at `offset`, then the
payload. -/
def putMessage {ε : Type} (mem : List UInt8) (offset : ℕ) (msg : RawControlMessageOut) : Outcome ε (List UInt8) :=
  (Outcome.ofOption (storeAt mem offset msg.header)).bind fun mem =>
  Outcome.ofOption (writeAt mem (cmsgData offset) msg.payload)

/-- The prepared messages, each with the space it takes, as far as none is
rejected. -/
def prepareAll : List IoControlMessage → Outcome PrepareControlMessageError (List (RawControlMessageOut × ℕ))
  | [] => .ok []
  | msg :: msgs =>
    msg.level.prepare.bind fun raw =>
    (prepareAll msgs).bind fun prepared =>
    .ok ((raw, cmsgSpace (cUint raw.payload.length)) :: prepared)

/-- The loop that writes. -/
def putAll {ε : Type} : List UInt8 → ℕ → List (RawControlMessageOut × ℕ) → Outcome ε (List UInt8)
  | mem, _, [] => .ok mem
  | mem, offset, (msg, space) :: msgs =>
    (putMessage mem offset msg).bind fun mem => putAll mem (offset + space) msgs

/-- `try_prepare_multi`, where `alloc n` is a fresh buffer of `n` bytes. -/
def tryPrepareMulti (alloc : (n : ℕ) → Vector UInt8 n) (msgs : List IoControlMessage) :
    Outcome PrepareControlMessageError (List UInt8) :=
  (prepareAll msgs).bind fun preparedMessages =>
  putAll (alloc (preparedMessages.map (·.2)).sum).toList 0 preparedMessages

/-- `try_prepare`. -/
def tryPrepare (alloc : (n : ℕ) → Vector UInt8 n) (msg : IoControlMessage) :
    Outcome PrepareControlMessageError (List UInt8) :=
  msg.level.prepare.bind fun raw =>
  putMessage (alloc (cmsgSpace (cUint raw.payload.length))).toList 0 raw

end Message
end ClAsync
