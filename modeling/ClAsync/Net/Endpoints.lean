/-
# The two ends of a connection

A `TcpStream` says what its local and its peer address are, and keeps both once
it has been asked through `&mut self`. A stream of a client begins with the peer
address that it was given; one that a listener accepted begins with neither.

What is not kept is read from the descriptor, and `LocalAddress` and
`PeerAddress` are read by one conversion, which calls `getsockname`. So local
addresses are always the socket's, and a peer address is what was kept at first,
or the socket's local address.

Key definitions: `TcpStream`, its four accessors, `run`, `Truthful` and `Made`.
Key theorems: `call_tells`, one call, `run_tells`, a sequence of them, and
`endpoints_iff`, for every stream.
-/
import ClAsync.Io.Operation
import ClAsync.Lib.Outcome
import ClAsync.Net.SocketAddress

namespace ClAsync
namespace Net

open Calls (Outcome)
open Layout (size)

/-! ### What is kept -/

section Kept

variable {ε α : Type}

/-- What is kept, or else is read. -/
def keptOr (kept : Option α) (read : Except ε α) : Except ε α :=
  match kept with
  | some a => .ok a
  | none => read

/-- The same, and it is kept then. -/
def keepOr (kept : Option α) (read : Except ε α) : Except ε α × Option α :=
  match kept with
  | some a => (.ok a, some a)
  | none =>
    match read with
    | .ok a => (.ok a, some a)
    | .error e => (.error e, none)

@[simp] theorem keepOr_fst (kept : Option α) (read : Except ε α) : (keepOr kept read).1 = keptOr kept read := by
  cases kept <;> cases read <;> rfl

variable {P : α → Prop} {kept : Option α} {read : Except ε α}

/-- What is kept and what is read both satisfy `P`, so what is returned does. -/
theorem of_keptOr (hkept : ∀ a, kept = some a → P a) (hread : kept = none → ∀ a, read = .ok a → P a) {a : α}
    (h : keptOr kept read = .ok a) : P a := by
  cases kept with
  | some b => exact hkept a (congrArg some (Except.ok.inj h))
  | none => exact hread rfl a h

theorem eq_none_of_keepOr (h : (keepOr kept read).2 = none) : kept = none := by
  cases kept with
  | some a => cases h
  | none => rfl

theorem of_keepOr (hkept : ∀ a, kept = some a → P a) (hread : kept = none → ∀ a, read = .ok a → P a) {a : α}
    (h : (keepOr kept read).2 = some a) : P a := by
  cases kept with
  | some b => exact hkept a h
  | none =>
    cases read with
    | ok b => exact hread rfl a (congrArg Except.ok (Option.some.inj h))
    | error e => cases h

end Kept

/-! ### Sockets -/

/-- A connected socket: what the kernel writes for the addresses of its two
ends. -/
structure Socket where
  sockname : SockaddrStorage
  peername : SockaddrStorage
  localAddress : SocketAddress
  peerAddress : SocketAddress
  tryFrom_sockname : SocketAddress.tryFrom sockname = .ok localAddress
  tryFrom_peername : SocketAddress.tryFrom peername = .ok peerAddress

/-- `getsockname`, which fails with `errno`, if there is one. -/
def getsockname (socket : Socket) (errno : Option ℤ) : Except ℤ SockaddrStorage :=
  match errno with
  | some errno => .error errno
  | none => .ok socket.sockname

/-- `AddressRetrievalError`: of the call, or of what it answers. -/
inductive AddressRetrievalError
  | osError (e : OsError)
  | invalidSocketAddress (e : UnsupportedAddressFamilyError)
  deriving DecidableEq, Repr

/-- `TryFrom<&RawFd>`. -/
def SocketAddress.tryFromRawFd (socket : Socket) (errno : Option ℤ) : Except AddressRetrievalError SocketAddress :=
  match getsockname socket errno with
  | .ok addr =>
    match tryFrom addr with
    | .ok a => .ok a
    | .error e => .error (.invalidSocketAddress e)
  | .error errno => .error (.osError (.ofErrno errno))

theorem SocketAddress.tryFromRawFd_none (socket : Socket) : tryFromRawFd socket none = .ok socket.localAddress := by
  rw [tryFromRawFd, getsockname]
  simp only [socket.tryFrom_sockname]

/-- Only the local address is ever read. -/
theorem SocketAddress.eq_of_tryFromRawFd {socket : Socket} {errno : Option ℤ} {a : SocketAddress}
    (h : tryFromRawFd socket errno = .ok a) : a = socket.localAddress := by
  cases errno with
  | some errno => cases h
  | none => exact (Except.ok.inj ((tryFromRawFd_none socket).symm.trans h)).symm

/-- `PeerAddress`, a socket address said to be of the other end. -/
structure PeerAddress where
  addr : SocketAddress
  deriving DecidableEq, Repr

/-- `LocalAddress`, one said to be of this end. -/
structure LocalAddress where
  addr : SocketAddress
  deriving DecidableEq, Repr

/-- `TryFrom<sockaddr_storage>`. -/
def PeerAddress.tryFrom (addr : SockaddrStorage) : Except UnsupportedAddressFamilyError PeerAddress :=
  (SocketAddress.tryFrom addr).map PeerAddress.mk

/-- `TryFrom<&RawFd>`, by the impl of `SocketAddress`. -/
def PeerAddress.tryFromRawFd (socket : Socket) (errno : Option ℤ) : Except AddressRetrievalError PeerAddress :=
  (SocketAddress.tryFromRawFd socket errno).map PeerAddress.mk

/-- The same. -/
def LocalAddress.tryFromRawFd (socket : Socket) (errno : Option ℤ) : Except AddressRetrievalError LocalAddress :=
  (SocketAddress.tryFromRawFd socket errno).map LocalAddress.mk

/-- What a wrapper of an address reads. -/
theorem addr_of_map {α : Type} {f : SocketAddress → α} {addr : α → SocketAddress} (hf : ∀ a, addr (f a) = a)
    {socket : Socket} {errno : Option ℤ} {a : α} (h : (SocketAddress.tryFromRawFd socket errno).map f = .ok a) :
    addr a = socket.localAddress := by
  cases hread : SocketAddress.tryFromRawFd socket errno with
  | error e =>
    rw [hread] at h
    cases h
  | ok b =>
    rw [hread] at h
    cases h
    rw [hf, SocketAddress.eq_of_tryFromRawFd hread]

/-! ### Streams -/

/-- `TcpStream`, with the addresses that it keeps. -/
structure TcpStream where
  /-- The socket of the descriptor. -/
  fd : Socket
  localAddr : Option LocalAddress
  peerAddr : Option PeerAddress

namespace TcpStream

/-- `query_local_address`, which keeps nothing. -/
def queryLocalAddress (s : TcpStream) (errno : Option ℤ) : Except AddressRetrievalError LocalAddress :=
  keptOr s.localAddr (LocalAddress.tryFromRawFd s.fd errno)

/-- `query_peer_address`, which keeps nothing. -/
def queryPeerAddress (s : TcpStream) (errno : Option ℤ) : Except AddressRetrievalError PeerAddress :=
  keptOr s.peerAddr (PeerAddress.tryFromRawFd s.fd errno)

/-- `address_local`, which keeps what it reads. -/
def addressLocal (s : TcpStream) (errno : Option ℤ) : Except AddressRetrievalError LocalAddress × TcpStream :=
  let (r, localAddr) := keepOr s.localAddr (LocalAddress.tryFromRawFd s.fd errno)
  (r, { s with localAddr })

/-- `address_peer`, which keeps what it reads. -/
def addressPeer (s : TcpStream) (errno : Option ℤ) : Except AddressRetrievalError PeerAddress × TcpStream :=
  let (r, peerAddr) := keepOr s.peerAddr (PeerAddress.tryFromRawFd s.fd errno)
  (r, { s with peerAddr })

end TcpStream

/-- The four calls that tell an address. -/
inductive Accessor
  | queryLocalAddress
  | queryPeerAddress
  | addressLocal
  | addressPeer
  deriving DecidableEq, Repr

/-- A call, and whether `getsockname` would fail then. -/
structure EndpointCall where
  accessor : Accessor
  errno : Option ℤ
  deriving DecidableEq, Repr

/-- What a call answers. -/
inductive EndpointAnswer
  | ofLocal (r : Except AddressRetrievalError LocalAddress)
  | ofPeer (r : Except AddressRetrievalError PeerAddress)

/-- One call. -/
def TcpStream.call (s : TcpStream) (c : EndpointCall) : EndpointAnswer × TcpStream :=
  match c.accessor with
  | .queryLocalAddress => (.ofLocal (s.queryLocalAddress c.errno), s)
  | .queryPeerAddress => (.ofPeer (s.queryPeerAddress c.errno), s)
  | .addressLocal =>
    let (r, s) := s.addressLocal c.errno
    (.ofLocal r, s)
  | .addressPeer =>
    let (r, s) := s.addressPeer c.errno
    (.ofPeer r, s)

/-- The answers to a sequence of calls. -/
def TcpStream.run : TcpStream → List EndpointCall → List EndpointAnswer × TcpStream
  | s, [] => ([], s)
  | s, c :: calls =>
    let (answer, s) := s.call c
    let (answers, s) := s.run calls
    (answer :: answers, s)

/-! ### Where a stream comes from -/

/-- `IpVersion`. -/
inductive IpVersion
  | v4
  | v6
  deriving DecidableEq, Repr

/-- `IpAddress::version`. -/
def IpAddress.version : IpAddress → IpVersion
  | .v4 _ => .v4
  | .v6 _ => .v6

/-- `IoConnectData`. -/
structure IoConnectData where
  addr : SockaddrStorage
  addrLen : ℕ
  deriving DecidableEq, Repr

/-- The `IoError` of a connect; `ε` has those of its future. -/
inductive ConnectError (ε : Type)
  | unsupportedAddressFamily (family : UInt16)
  | future (e : ε)
  deriving DecidableEq, Repr

/-- `IoConnectData::new`, by the family that the storage says. -/
def IoConnectData.new {ε : Type} (addr : PeerAddress) : Except (ConnectError ε) IoConnectData :=
  let addrStorage := addr.addr.into
  if addrStorage.ssFamily = afInet then .ok ⟨addrStorage, size SockaddrIn⟩
  else if addrStorage.ssFamily = afInet6 then .ok ⟨addrStorage, size SockaddrIn6⟩
  else .error (.unsupportedAddressFamily addrStorage.ssFamily)

/-- `TcpConnectionError`. -/
inductive TcpConnectionError (ε : Type)
  | socketCreateError (e : OsError)
  | connectionFailureError (addr : PeerAddress) (source : ConnectError ε)
  deriving DecidableEq, Repr

namespace TcpStream

variable {ε : Type}

/-- The connect of a new client. -/
def connectClient (connect : Socket → IoConnectData → Except ε Unit) (fd : Socket) (addr : PeerAddress) :
    Except (ConnectError ε) Unit :=
  match IoConnectData.new addr with
  | .ok data => (connect fd data).mapError .future
  | .error e => .error e

/-- `new_client`; `socket` and `connect` are what the kernel does. -/
def newClient (socket : UInt16 → Except ℤ Socket) (connect : Socket → IoConnectData → Except ε Unit)
    (peerAddr : PeerAddress) : Except (TcpConnectionError ε) TcpStream :=
  let domain :=
    match peerAddr.addr.ip.version with
    | .v4 => afInet
    | .v6 => afInet6
  match socket domain with
  | .error errno => .error (.socketCreateError (.ofErrno errno))
  | .ok fd =>
    match connectClient connect fd peerAddr with
    | .error source => .error (.connectionFailureError peerAddr source)
    | .ok () => .ok ⟨fd, none, some peerAddr⟩

theorem eq_of_newClient {socket : UInt16 → Except ℤ Socket} {connect : Socket → IoConnectData → Except ε Unit}
    {peerAddr : PeerAddress} {s : TcpStream} (h : newClient socket connect peerAddr = .ok s) :
    ∃ fd, s = ⟨fd, none, some peerAddr⟩ := by
  unfold newClient at h
  dsimp only at h
  split at h
  · cases h
  · split at h
    · cases h
    · exact ⟨_, (Except.ok.inj h).symm⟩

/-- The stream that the task of a listener makes of a completion, and hands on.
If the crate logs, it is asked for its peer address first. -/
def accepted (logInfo : Bool) (errno : Option ℤ) (fd : Socket) (address : Option SockaddrStorage) :
    Outcome Empty TcpStream :=
  let peerAddr := address.bind fun addr => (PeerAddress.tryFrom addr).toOption
  let stream : TcpStream := ⟨fd, none, peerAddr⟩
  if logInfo then
    match stream.addressPeer errno with
    | (.ok _, stream) => .ok stream
    -- `unwrap`
    | (.error _, _) => .panics
  else .ok stream

end TcpStream

/-- A client's stream, of the address that it was given, or a listener's. -/
inductive Origin
  | client (peerAddr : PeerAddress)
  | listener
  deriving DecidableEq, Repr

/-- The stream has been made so. The completion of an `accept_multi` has no
address. -/
inductive Made : Origin → TcpStream → Prop
  | newClient {ε : Type} {socket : UInt16 → Except ℤ Socket} {connect : Socket → IoConnectData → Except ε Unit}
    {peerAddr : PeerAddress} {s : TcpStream} (h : TcpStream.newClient socket connect peerAddr = .ok s) :
    Made (.client peerAddr) s
  | accepted {logInfo : Bool} {errno : Option ℤ} {fd : Socket} {s : TcpStream}
    (h : TcpStream.accepted logInfo errno fd none = .ok s) : Made .listener s

/-! ### What the accessors say -/

/-- The address in an answer, if there is one: `l` in that of a local query, and
`p` in that of a peer query. -/
def EndpointAnswer.Tells (l p : SocketAddress) : EndpointAnswer → Prop
  | ofLocal r => ∀ a, r = .ok a → a.addr = l
  | ofPeer r => ∀ a, r = .ok a → a.addr = p

/-- Two local, or two peer, addresses are the same. -/
def EndpointAnswer.Agrees : EndpointAnswer → EndpointAnswer → Prop
  | ofLocal (.ok a), ofLocal (.ok b) => a = b
  | ofPeer (.ok a), ofPeer (.ok b) => a = b
  | _, _ => True

/-- Whatever is called, in any order, the answers are the addresses of the
socket, and agree. -/
structure Truthful (s : TcpStream) : Prop where
  tells : ∀ calls, ∀ answer ∈ (s.run calls).1, answer.Tells s.fd.localAddress s.fd.peerAddress
  agrees : ∀ calls, ∀ x ∈ (s.run calls).1, ∀ y ∈ (s.run calls).1, x.Agrees y

/-- The stream of the socket says `peer` of its peer: that address is kept, or
will be read. -/
structure Keeps (socket : Socket) (peer : SocketAddress) (s : TcpStream) : Prop where
  fd : s.fd = socket
  localAddr : ∀ a, s.localAddr = some a → a.addr = socket.localAddress
  peerAddr : ∀ a, s.peerAddr = some a → a.addr = peer
  unread : s.peerAddr = none → socket.localAddress = peer

theorem EndpointAnswer.Tells.agrees {l p : SocketAddress} {x y : EndpointAnswer} (hx : x.Tells l p)
    (hy : y.Tells l p) : x.Agrees y := by
  match x, y with
  | ofLocal (.ok a), ofLocal (.ok b) =>
    obtain ⟨a⟩ := a
    obtain ⟨b⟩ := b
    exact congrArg LocalAddress.mk ((hx _ rfl).trans (hy _ rfl).symm)
  | ofPeer (.ok a), ofPeer (.ok b) =>
    obtain ⟨a⟩ := a
    obtain ⟨b⟩ := b
    exact congrArg PeerAddress.mk ((hx _ rfl).trans (hy _ rfl).symm)
  | ofLocal _, ofPeer _ => simp [Agrees]
  | ofPeer _, ofLocal _ => simp [Agrees]
  | ofLocal (.error _), ofLocal _ => simp [Agrees]
  | ofPeer (.error _), ofPeer _ => simp [Agrees]
  | ofLocal (.ok _), ofLocal (.error _) => simp [Agrees]
  | ofPeer (.ok _), ofPeer (.error _) => simp [Agrees]

section Keeps

variable {socket : Socket} {peer : SocketAddress} {s : TcpStream}

theorem Keeps.readLocal (h : Keeps socket peer s) {errno : Option ℤ} {a : LocalAddress}
    (ha : LocalAddress.tryFromRawFd s.fd errno = .ok a) : a.addr = socket.localAddress :=
  h.fd ▸ addr_of_map (fun _ => rfl) ha

/-- A peer address that is read is the local one. -/
theorem Keeps.readPeer (h : Keeps socket peer s) (hnone : s.peerAddr = none) {errno : Option ℤ} {a : PeerAddress}
    (ha : PeerAddress.tryFromRawFd s.fd errno = .ok a) : a.addr = peer :=
  (addr_of_map (fun _ => rfl) ha).trans ((congrArg Socket.localAddress h.fd).trans (h.unread hnone))

/-- **A call says the socket's local address, or what the stream says of its
peer, and the stream says the same then.** -/
theorem call_tells (h : Keeps socket peer s) (c : EndpointCall) :
    (s.call c).1.Tells socket.localAddress peer ∧ Keeps socket peer (s.call c).2 := by
  obtain ⟨accessor, errno⟩ := c
  have hlocal : s.localAddr = none → ∀ a, LocalAddress.tryFromRawFd s.fd errno = .ok a →
      a.addr = socket.localAddress := fun _ _ => h.readLocal
  cases accessor with
  | queryLocalAddress => exact ⟨fun a ha => of_keptOr h.localAddr hlocal ha, h⟩
  | queryPeerAddress => exact ⟨fun a ha => of_keptOr h.peerAddr (fun hnone _ => h.readPeer hnone) ha, h⟩
  | addressLocal =>
    refine ⟨fun a ha => of_keptOr h.localAddr hlocal ((keepOr_fst _ _).symm.trans ha), h.fd, ?_, h.peerAddr, h.unread⟩
    exact fun a ha => of_keepOr h.localAddr hlocal ha
  | addressPeer =>
    refine ⟨fun a ha => of_keptOr h.peerAddr (fun hnone _ => h.readPeer hnone) ((keepOr_fst _ _).symm.trans ha),
      h.fd, h.localAddr, ?_, fun hnone => h.unread (eq_none_of_keepOr hnone)⟩
    exact fun a ha => of_keepOr h.peerAddr (fun hnone _ => h.readPeer hnone) ha

/-- **So does every sequence of calls.** -/
theorem run_tells (h : Keeps socket peer s) (calls : List EndpointCall) :
    ∀ answer ∈ (s.run calls).1, answer.Tells socket.localAddress peer := by
  induction calls generalizing s with
  | nil => exact fun _ h => absurd h List.not_mem_nil
  | cons c calls ih =>
    obtain ⟨htells, hkeeps⟩ := call_tells h c
    intro answer hanswer
    rcases List.mem_cons.mp hanswer with rfl | hanswer
    · exact htells
    · exact ih hkeeps answer hanswer

/-- A query that does not fail. -/
theorem queryPeerAddress_none (s : TcpStream) : ∃ a, s.queryPeerAddress none = .ok a := by
  unfold TcpStream.queryPeerAddress keptOr
  split
  · exact ⟨_, rfl⟩
  · rw [PeerAddress.tryFromRawFd, SocketAddress.tryFromRawFd_none]
    exact ⟨_, rfl⟩

/-- What the stream says of its peer decides. -/
theorem Keeps.truthful_iff (h : Keeps s.fd peer s) : Truthful s ↔ peer = s.fd.peerAddress := by
  constructor
  · intro ht
    obtain ⟨a, ha⟩ := queryPeerAddress_none s
    have hmem : .ofPeer (s.queryPeerAddress none) ∈ (s.run [⟨.queryPeerAddress, none⟩]).1 := List.mem_singleton_self _
    exact (run_tells h _ _ hmem a ha).symm.trans (ht.tells _ _ hmem a ha)
  · rintro rfl
    exact ⟨run_tells h, fun calls x hx y hy => (run_tells h calls x hx).agrees (run_tells h calls y hy)⟩

end Keeps

/-! ### Every stream -/

/-- What a stream says of its peer. -/
def Origin.peer (socket : Socket) : Origin → SocketAddress
  | client peerAddr => peerAddr.addr
  | listener => socket.localAddress

/-- The address that the client was given is that of the peer; the listener's
connection has one address at both ends. -/
def Origin.Right (socket : Socket) : Origin → Prop
  | client peerAddr => peerAddr.addr = socket.peerAddress
  | listener => socket.localAddress = socket.peerAddress

theorem keeps_of_accepted {logInfo : Bool} {errno : Option ℤ} {fd : Socket} {s : TcpStream}
    (h : TcpStream.accepted logInfo errno fd none = .ok s) : Keeps fd fd.localAddress s := by
  have hnew : Keeps fd fd.localAddress ⟨fd, none, none⟩ :=
    ⟨rfl, fun a ha => (Option.some_ne_none a ha.symm).elim, fun a ha => (Option.some_ne_none a ha.symm).elim,
      fun _ => rfl⟩
  unfold TcpStream.accepted at h
  dsimp only [Option.bind_none] at h
  split at h
  · have hasked := (call_tells hnew ⟨.addressPeer, errno⟩).2
    rw [TcpStream.call] at hasked
    split at h
    · rename_i heq
      cases h
      dsimp only at hasked
      rwa [heq] at hasked
    · cases h
  · cases h
    exact hnew

/-- A stream that has just been made keeps no local address, and the peer
address that it was given. -/
theorem Made.keeps {origin : Origin} {s : TcpStream} (h : Made origin s) : Keeps s.fd (origin.peer s.fd) s := by
  cases h with
  | newClient h =>
    obtain ⟨fd, rfl⟩ := TcpStream.eq_of_newClient h
    refine ⟨rfl, fun a ha => (Option.some_ne_none a ha.symm).elim, fun a ha => ?_, fun hnone => ?_⟩
    · cases ha
      rfl
    · cases hnone
  | accepted h =>
    have hkeeps := keeps_of_accepted h
    cases hkeeps.fd
    exact hkeeps

/-- **The endpoint queries of a stream are truthful exactly if a client was given
the address of the peer, or a listener's connection has one address at both
ends.** -/
theorem endpoints_iff {origin : Origin} {s : TcpStream} (h : Made origin s) : Truthful s ↔ origin.Right s.fd := by
  rw [h.keeps.truthful_iff]
  cases origin <;> rfl

/-- The socket of a connection between two addresses. -/
def Socket.between (localAddress peerAddress : SocketAddress) : Socket where
  sockname := localAddress.into
  peername := peerAddress.into
  localAddress
  peerAddress
  tryFrom_sockname := SocketAddress.tryFrom_into localAddress
  tryFrom_peername := SocketAddress.tryFrom_into peerAddress

/-- A server at `127.0.0.1:80`. -/
def server : SocketAddress := ⟨.v4 #v[127, 0, 0, 1], ⟨80⟩⟩

/-- A client that connects to it. -/
def client : SocketAddress := ⟨.v4 #v[127, 0, 0, 1], ⟨5000⟩⟩

theorem endpoints_client : Truthful ⟨.between client server, none, some ⟨server⟩⟩ := by
  have hmade : Made (.client ⟨server⟩) ⟨.between client server, none, some ⟨server⟩⟩ :=
    @Made.newClient Empty (fun _ => .ok (.between client server)) (fun _ _ => .ok ()) ⟨server⟩ _ rfl
  exact (endpoints_iff hmade).mpr rfl

/-- The server takes its own address for the client's. -/
theorem endpoints_fails : ¬ ∀ s, Made .listener s → Truthful s := by
  intro h
  have hmade : Made .listener ⟨.between server client, none, none⟩ := @Made.accepted false none _ _ rfl
  have hasked := (h _ hmade).tells [⟨.queryPeerAddress, none⟩] (.ofPeer (.ok ⟨server⟩))
    (List.mem_singleton.mpr rfl) _ rfl
  exact absurd hasked (by decide)

end Net
end ClAsync
