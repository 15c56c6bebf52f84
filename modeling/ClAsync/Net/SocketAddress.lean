/-
# Socket addresses in memory

An address and a port, as the `sockaddr_storage` that the kernel reads and
writes. The bytes of an address of version 4 and those of a port are in the
order of the network there, so that on a little-endian host the integers that
hold them have their bytes the other way round (`to_be`, `from_be`). What is
written is read back (`tryFrom_into`).

`PacketInfo` holds the same addresses in integers without turning them round.
The two formats therefore agree on the addresses that read the same both ways,
and on no others.

Key definitions: `SocketAddress.into`, `SocketAddress.tryFrom`, `Agree`.
Key theorem: `agree_iff`, for every pair of addresses.
-/
import ClAsync.Io.ControlMessage

namespace ClAsync
namespace Net

open Layout
open Message (fromBeBytes toBeBytes toBytes_fromBeBytes toList_toBeBytes InPktinfo PacketInfo)

/-! ### The structs of `libc` -/

/-- `libc::sockaddr_in`. -/
structure SockaddrIn where
  sinFamily : UInt16
  sinPort : UInt16
  /-- `s_addr` of the field. -/
  sinAddr : UInt32
  sinZero : Vector UInt8 8
  deriving DecidableEq, Repr

/-- `libc::sockaddr_in6`; the address is its sixteen bytes. -/
structure SockaddrIn6 where
  sin6Family : UInt16
  sin6Port : UInt16
  sin6Flowinfo : UInt32
  sin6Addr : Vector UInt8 16
  sin6ScopeId : UInt32
  deriving DecidableEq, Repr

instance : Plain SockaddrIn :=
  Plain.ofRetract (fun a => (a.sinFamily, a.sinPort, a.sinAddr, a.sinZero))
    (fun x => ⟨x.1, x.2.1, x.2.2.1, x.2.2.2⟩) fun _ => rfl

instance : Plain SockaddrIn6 :=
  Plain.ofRetract (fun a => (a.sin6Family, a.sin6Port, a.sin6Flowinfo, a.sin6Addr, a.sin6ScopeId))
    (fun x => ⟨x.1, x.2.1, x.2.2.1, x.2.2.2.1, x.2.2.2.2⟩) fun _ => rfl

/-- Room for an address of any family. -/
structure SockaddrStorage where
  bytes : List UInt8
  length_eq : bytes.length = 128
  deriving DecidableEq, Repr

/-- `libc::AF_INET`. -/
def afInet : UInt16 := 2
/-- `libc::AF_INET6`. -/
def afInet6 : UInt16 := 10

namespace SockaddrStorage

/-- `mem::zeroed`. -/
def zeroed : SockaddrStorage := ⟨List.replicate 128 0, List.length_replicate⟩

/-- `ptr::write` at the pointer to the storage. -/
def write {α : Type} [Plain α] (storage : SockaddrStorage) (a : α) (h : size α ≤ 128) : SockaddrStorage where
  bytes := toBytes a ++ storage.bytes.drop (size α)
  length_eq := by
    rw [List.length_append, List.length_drop, Plain.length_toBytes, storage.length_eq]
    omega

/-- What the pointer points to, as another struct. -/
def deref (α : Type) [Plain α] (storage : SockaddrStorage) : α := ofBytes (storage.bytes.take (size α))

/-- `ss_family`, the first field of every address. -/
def ssFamily (storage : SockaddrStorage) : UInt16 := storage.deref UInt16

theorem ssFamily_write {α : Type} [Plain α] (storage : SockaddrStorage) {a : α} (h : size α ≤ 128) {family : UInt16}
    {rest : List UInt8} (hbytes : toBytes a = toBytes family ++ rest) : (storage.write a h).ssFamily = family := by
  have hstorage : (storage.write a h).bytes = toBytes family ++ (rest ++ storage.bytes.drop (size α)) := by
    rw [← List.append_assoc, ← hbytes]
    rfl
  rw [ssFamily, deref, hstorage, List.take_left' (Plain.length_toBytes family), Plain.ofBytes_toBytes]

@[simp] theorem deref_write {α : Type} [Plain α] (storage : SockaddrStorage) (a : α) (h : size α ≤ 128) :
    (storage.write a h).deref α = a := by
  rw [deref, write, List.take_left' (Plain.length_toBytes a), Plain.ofBytes_toBytes]

end SockaddrStorage

/-! ### Addresses and ports -/

/-- `Port`, in the order of the host. -/
structure Port where
  val : UInt16
  deriving DecidableEq, Repr

/-- `u16::to_be`, on a little-endian host. -/
def Port.toBe (port : Port) : UInt16 := swapBytes port.val

/-- `u16::from_be`. -/
def Port.fromBe (port : UInt16) : Port := ⟨swapBytes port⟩

@[simp] theorem Port.fromBe_toBe (port : Port) : fromBe port.toBe = port := by rw [fromBe, toBe, swapBytes_swapBytes]

/-- `SocketAddress`. -/
structure SocketAddress where
  ip : IpAddress
  port : Port
  deriving DecidableEq, Repr

/-- A family that is neither `AF_INET` nor `AF_INET6`. -/
structure UnsupportedAddressFamilyError where
  family : UInt16
  deriving DecidableEq, Repr

namespace SocketAddress

/-- `Into<libc::sockaddr_storage>`. -/
def into (a : SocketAddress) : SockaddrStorage :=
  match a.ip with
  | .v4 beBytes =>
    let addrIn : SockaddrIn := ⟨afInet, a.port.toBe, swapBytes (fromBeBytes beBytes), Vector.replicate 8 0⟩
    SockaddrStorage.zeroed.write addrIn (by decide)
  | .v6 beBytes =>
    let addrIn6 : SockaddrIn6 := ⟨afInet6, a.port.toBe, 0, beBytes, 0⟩
    SockaddrStorage.zeroed.write addrIn6 (by decide)

/-- `TryFrom<libc::sockaddr_storage>`. -/
def tryFrom (addr : SockaddrStorage) : Except UnsupportedAddressFamilyError SocketAddress :=
  let version := addr.ssFamily
  if version = afInet then
    let addrIn := addr.deref SockaddrIn
    .ok ⟨.v4 (toBeBytes (swapBytes addrIn.sinAddr)), .fromBe addrIn.sinPort⟩
  else if version = afInet6 then
    let addrIn6 := addr.deref SockaddrIn6
    .ok ⟨.v6 addrIn6.sin6Addr, .fromBe addrIn6.sin6Port⟩
  else .error ⟨version⟩

/-- An address is read back from the storage. -/
theorem tryFrom_into (a : SocketAddress) : tryFrom a.into = .ok a := by
  obtain ⟨ip, port⟩ := a
  cases ip with
  | v4 beBytes =>
    have hfamily : (into ⟨.v4 beBytes, port⟩).ssFamily = afInet :=
      SockaddrStorage.ssFamily_write (α := SockaddrIn) _ (by decide) rfl
    rw [tryFrom, hfamily]
    simp [into, Message.toBeBytes_fromBeBytes]
  | v6 beBytes =>
    have hfamily : (into ⟨.v6 beBytes, port⟩).ssFamily = afInet6 :=
      SockaddrStorage.ssFamily_write (α := SockaddrIn6) _ (by decide) rfl
    rw [tryFrom, hfamily]
    simp [into, afInet, afInet6]

end SocketAddress

/-! ### The four bytes of an address -/

/-- Where the bytes of an address stand in a memory. -/
def BytesAt (mem : List UInt8) (offset : ℕ) (bytes : Vector UInt8 4) : Prop := readAt mem offset 4 = some bytes.toList

theorem readAt_ipiAddr (pktinfo : InPktinfo) : readAt (toBytes pktinfo) 8 4 = some (toBytes pktinfo.ipiAddr) := by
  have hbytes : toBytes pktinfo = (toBytes pktinfo.ipiIfindex ++ toBytes pktinfo.ipiSpecDst) ++
      (toBytes pktinfo.ipiAddr ++ []) := by
    rw [List.append_assoc, List.append_nil]
    rfl
  rw [hbytes]
  exact readAt_append (Plain.length_toBytes _) (by rw [List.length_append]; simp; rfl)

theorem readAt_ipiSpecDst (pktinfo : InPktinfo) :
    readAt (toBytes pktinfo) 4 4 = some (toBytes pktinfo.ipiSpecDst) :=
  @readAt_append (toBytes pktinfo.ipiIfindex) (toBytes pktinfo.ipiSpecDst) (toBytes pktinfo.ipiAddr) 4 4
    (Plain.length_toBytes _) (Plain.length_toBytes _)

theorem readAt_sinAddr (storage : SockaddrStorage) :
    readAt storage.bytes 4 4 = some (toBytes (storage.deref SockaddrIn).sinAddr) := by
  have hlen := storage.length_eq
  have hfield : (storage.deref SockaddrIn).sinAddr =
      ofBytes ((((storage.bytes.take 16).drop 2).drop 2).take 4) := rfl
  have hcut : (((storage.bytes.take 16).drop 2).drop 2).take 4 = (storage.bytes.drop 4).take 4 := by
    simp [List.drop_take, List.take_take]
  have hfour : ((storage.bytes.drop 4).take 4).length = size UInt32 := by
    rw [List.length_take, List.length_drop, hlen]
    rfl
  rw [hfield, hcut, Full.toBytes_ofBytes _ hfour, readAt, if_pos (by omega)]

/-! ### Two formats of one address -/

/-- The bytes read the same both ways. -/
def Palindrome (bytes : Vector UInt8 4) : Prop := bytes.toList.reverse = bytes.toList

instance (bytes : Vector UInt8 4) : Decidable (Palindrome bytes) := inferInstanceAs (Decidable (_ = _))

/-- `PacketInfo` and `SocketAddress` write the same bytes of memory for an
address, `ipi_addr` or `ipi_spec_dst` and `sin_addr`, and read the same address
from its bytes. -/
structure Agree (destination specificDestination : Vector UInt8 4) : Prop where
  encoded : ∀ index port, ∃ pktinfo : InPktinfo,
    PacketInfo.tryInto ⟨index, .v4 destination, some (.v4 specificDestination)⟩ = .ok (.v4 pktinfo) ∧
      readAt (toBytes pktinfo) 8 4 = readAt (SocketAddress.into ⟨.v4 destination, port⟩).bytes 4 4 ∧
      readAt (toBytes pktinfo) 4 4 = readAt (SocketAddress.into ⟨.v4 specificDestination, port⟩).bytes 4 4
  destination : ∀ (pktinfo : InPktinfo) (addr : SockaddrStorage), addr.ssFamily = afInet →
    BytesAt (toBytes pktinfo) 8 destination → BytesAt addr.bytes 4 destination →
      ∃ ip port, SocketAddress.tryFrom addr = .ok ⟨ip, port⟩ ∧ (PacketInfo.ofInPktinfo pktinfo).destination = ip
  specificDestination : ∀ (pktinfo : InPktinfo) (addr : SockaddrStorage), addr.ssFamily = afInet →
    BytesAt (toBytes pktinfo) 4 specificDestination → BytesAt addr.bytes 4 specificDestination →
      ∃ ip port, SocketAddress.tryFrom addr = .ok ⟨ip, port⟩ ∧
        (PacketInfo.ofInPktinfo pktinfo).specificDestination = some ip

/-- What `SocketAddress` writes, and `PacketInfo` does not. -/
theorem readAt_into (bytes : Vector UInt8 4) (port : Port) :
    readAt (SocketAddress.into ⟨.v4 bytes, port⟩).bytes 4 4 = some bytes.toList := by
  rw [readAt_sinAddr, SocketAddress.into, SockaddrStorage.deref_write, toBytes_swapBytes, toBytes_fromBeBytes,
    List.reverse_reverse]

/-- Read from the same bytes, an address is the same if the bytes are the same
both ways. -/
theorem tryFrom_of_palindrome {bytes : Vector UInt8 4} (h : Palindrome bytes) {x : UInt32}
    (hx : toBytes x = bytes.toList) {addr : SockaddrStorage} (hfamily : addr.ssFamily = afInet)
    (haddr : BytesAt addr.bytes 4 bytes) :
    ∃ port, SocketAddress.tryFrom addr = .ok ⟨.v4 (toBeBytes x), port⟩ := by
  have hsin : toBytes (addr.deref SockaddrIn).sinAddr = bytes.toList := by
    rw [BytesAt, readAt_sinAddr] at haddr
    exact Option.some.inj haddr
  have hsame : toBeBytes (swapBytes (addr.deref SockaddrIn).sinAddr) = toBeBytes x := by
    rw [← Vector.toList_inj, toList_toBeBytes, toList_toBeBytes, toBytes_swapBytes, hsin, hx, h, h]
  refine ⟨.fromBe (addr.deref SockaddrIn).sinPort, ?_⟩
  rw [SocketAddress.tryFrom, hfamily, if_pos rfl, ← hsame]

/-- **The two formats agree exactly on the addresses whose bytes read the same
both ways.** -/
theorem agree_iff (destination specificDestination : Vector UInt8 4) :
    Agree destination specificDestination ↔ Palindrome destination ∧ Palindrome specificDestination := by
  constructor
  · intro h
    obtain ⟨pktinfo, hinto, haddr, hspec⟩ := h.encoded 0 ⟨0⟩
    cases hinto
    rw [readAt_ipiAddr, readAt_into, toBytes_fromBeBytes] at haddr
    rw [readAt_ipiSpecDst, readAt_into, toBytes_fromBeBytes] at hspec
    exact ⟨Option.some.inj haddr, Option.some.inj hspec⟩
  · rintro ⟨hdestination, hspecific⟩
    refine ⟨fun index port => ⟨_, rfl, ?_, ?_⟩, fun pktinfo addr hfamily hbytes haddr => ?_,
      fun pktinfo addr hfamily hbytes haddr => ?_⟩
    · rw [readAt_ipiAddr, readAt_into, toBytes_fromBeBytes, hdestination]
    · rw [readAt_ipiSpecDst, readAt_into, toBytes_fromBeBytes, hspecific]
    · rw [BytesAt, readAt_ipiAddr] at hbytes
      obtain ⟨port, hread⟩ := tryFrom_of_palindrome hdestination (Option.some.inj hbytes) hfamily haddr
      exact ⟨_, port, hread, rfl⟩
    · rw [BytesAt, readAt_ipiSpecDst] at hbytes
      obtain ⟨port, hread⟩ := tryFrom_of_palindrome hspecific (Option.some.inj hbytes) hfamily haddr
      exact ⟨_, port, hread, rfl⟩

/-- The bytes of `10.0.0.1` are `1.0.0.10` to the kernel. -/
theorem agree_fails : ¬ Agree #v[10, 0, 0, 1] #v[10, 0, 0, 1] := by
  intro h
  obtain ⟨pktinfo, hinto, haddr, -⟩ := h.encoded 0 ⟨0⟩
  cases hinto
  rw [readAt_into] at haddr
  exact absurd haddr (by decide)

end Net
end ClAsync
