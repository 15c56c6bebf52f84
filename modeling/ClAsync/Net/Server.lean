/-
# Setting up a TCP server

`TcpServer::with_listeners` makes a socket for each of `n` workers, `bind`
binds them, and `listen` puts the `i`-th to work on the worker `i`: listen(2),
an `accept_multi` that is submitted to this worker, and a listener task, which
holds a reference to the socket of its own. Each of the three loops over the
listeners and returns the first error; the listeners it has made and those it
has not reached are dropped with it.

The drops take back the references of the listeners, and nothing else: the
tasks spawned before go on, and so does an `accept_multi` whose task could not
be spawned.

Key definitions: `Env`, `World`, `TcpServer.start`, `Serving`, `Clean`.
Key theorems: `serving_iff`, `abandoned_iff`, `undone_iff`.
-/
import ClAsync.Lib.Outcome
import ClAsync.Net.Endpoints
import ClAsync.Pool.Spawn

namespace ClAsync
namespace Net

open Calls (collect collect_range)

/-- `libc::linger`. -/
structure Linger where
  onoff : Bool
  linger : ℤ
  deriving DecidableEq, Repr

/-- `SocketOption`. -/
inductive SocketOption
  | debug
  | broadcast
  | reuseAddress
  | reusePort
  | keepAlive
  | noDelay
  | linger (linger : Linger)
  | outOfBandInline
  | sendBuffer (size : ℕ)
  | receiveBuffer (size : ℕ)
  | dontRoute
  deriving DecidableEq, Repr

/-- The message it carries is that of the `accept_multi`. -/
structure SendToWorkerChannelError where
  deriving DecidableEq, Repr

/-- `TcpListenError`. -/
inductive TcpListenError
  | noWorkersAvailable
  | workerSendError (e : SendToWorkerChannelError)
  | socketListenError (e : OsError)
  | listenerTaskError (kind : SpawnTaskErrorKind)
  deriving DecidableEq, Repr

/-- `TcpServerInitError`. -/
inductive TcpServerInitError
  | invalidWorkerCount (requested max : ℕ)
  | failedToCreateListener (e : OsError)
  | failedToSetSocketOptions (e : OsError)
  deriving DecidableEq, Repr

/-- The states of a listener, which are types in the source. -/
inductive TcpListenerState
  | wantsBind
  | wantsListen
  | listening
  deriving DecidableEq, Repr

/-- `TcpListener`; its descriptor is the number of its socket. -/
structure TcpListener (state : TcpListenerState) where
  fd : ℕ
  addr : LocalAddress
  deriving DecidableEq, Repr

/-- `transition_state`. -/
def TcpListener.transitionState {state state' : TcpListenerState} (l : TcpListener state) : TcpListener state' :=
  ⟨l.fd, l.addr⟩

/-- `TcpServer`: one listener for each worker that is to accept. -/
structure TcpServer (state : TcpListenerState) where
  listeners : List (TcpListener state)
  addr : LocalAddress
  deriving DecidableEq, Repr

namespace Server

/-- How the calls for each of the sockets come out; `none` is success. -/
structure Env where
  numThreads : ℕ
  socket : ℕ → Option OsError
  setsockopt : ℕ → SocketOption → Option OsError
  bind : ℕ → Option OsError
  /-- What `try_get_backlog` reads. -/
  backlog : ℕ → Option ℤ
  listen : ℕ → Option OsError
  submit : ℕ → Except SendToWorkerChannelError Key
  spawn : ℕ → Option SpawnTaskErrorKind

/-- A socket, with what has been done to it. -/
structure Socket where
  domain : IpVersion
  options : List SocketOption
  bound : Option SockaddrStorage
  backlog : Option ℤ
  /-- The strong count of the `Arc<OwnedFdAsync>`. The drop of the last one
  submits the close. -/
  refs : ℕ
  deriving DecidableEq, Repr

/-- A listener task: the worker whose queue it polls, for the results of the
key, and whose shutdown it waits for. -/
structure ListenerTask where
  fd : ℕ
  worker : ℕ
  key : Key
  deriving DecidableEq, Repr

/-- The sockets that were made, the workers that were sent an `accept_multi`
and for which of the sockets, and the listener tasks. -/
structure World where
  sockets : List Socket
  accepts : List (ℕ × ℕ)
  tasks : List ListenerTask
  deriving DecidableEq, Repr

namespace World

/-- Nothing has been called. -/
def init : World := ⟨[], [], []⟩

/-- What happens to one socket. -/
def modify (w : World) (fd : ℕ) (f : Socket → Socket) : World := { w with sockets := w.sockets.modify fd f }

/-- `Arc::clone`. -/
def clone (w : World) (fd : ℕ) : World := w.modify fd fun s => { s with refs := s.refs + 1 }

/-- One clone of a descriptor is dropped. -/
def drop (w : World) (fd : ℕ) : World := w.modify fd fun s => { s with refs := s.refs - 1 }

/-- Several are. -/
def drops (w : World) (fds : List ℕ) : World := fds.foldl drop w

end World
end Server

open Server

namespace TcpListener

variable {state : TcpListenerState} (env : Env)

/-- `TcpListener::new`. -/
def new (addr : LocalAddress) (w : World) : Except OsError (TcpListener .wantsBind) × World :=
  match env.socket w.sockets.length with
  | some e => (.error e, w)
  | none =>
    (.ok ⟨w.sockets.length, addr⟩, { w with sockets := w.sockets ++ [⟨addr.addr.ip.version, [], none, none, 1⟩] })

/-- `set_opt`. -/
def setOpt (l : TcpListener state) (option : SocketOption) (w : World) : Except OsError Unit × World :=
  match env.setsockopt l.fd option with
  | some e => (.error e, w)
  | none => (.ok (), w.modify l.fd fun s => { s with options := s.options ++ [option] })

/-- `set_opt_multi`, up to the first error. -/
def setOptMulti (l : TcpListener state) : List SocketOption → World → Except OsError Unit × World
  | [], w => (.ok (), w)
  | option :: options, w =>
    match l.setOpt env option w with
    | (.error e, w) => (.error e, w)
    | (.ok (), w) => l.setOptMulti options w

/-- `TcpListener::bind`, which takes the listener: it is gone if it fails. -/
def bind (l : TcpListener .wantsBind) (w : World) : Except OsError (TcpListener .wantsListen) × World :=
  match env.bind l.fd with
  | some e => (.error e, w.drop l.fd)
  | none => (.ok l.transitionState, w.modify l.fd fun s => { s with bound := some l.addr.addr.into })

/-- The handle and the subscription are those of the worker `id`. -/
def getWorkerData (l : TcpListener .wantsListen) (id : ℕ) (w : World) : Except TcpListenError (ℕ × Key) × World :=
  if env.numThreads ≤ id then (.error .noWorkersAvailable, w)
  else
    match env.submit l.fd with
    | .error e => (.error (.workerSendError e), w)
    | .ok key => (.ok (id, key), { w with accepts := w.accepts ++ [(id, l.fd)] })

/-- At an error the listener is dropped, and the clone of its descriptor that
was to be the task's. -/
def listenOn (l : TcpListener .wantsListen) (worker : ℕ) (w : World) :
    Except TcpListenError (TcpListener .listening) × World :=
  let w := w.clone l.fd
  match env.listen l.fd with
  | some e => (.error (.socketListenError e), w.drops [l.fd, l.fd])
  | none =>
    match l.getWorkerData env worker (w.modify l.fd fun s => { s with backlog := (env.backlog l.fd).getD 4096 }) with
    | (.error e, w) => (.error e, w.drops [l.fd, l.fd])
    | (.ok (worker, key), w) =>
      match env.spawn l.fd with
      | some kind => (.error (.listenerTaskError kind), w.drops [l.fd, l.fd])
      | none => (.ok l.transitionState, { w with tasks := w.tasks ++ [⟨l.fd, worker, key⟩] })

end TcpListener

namespace Server

/-- The descriptors of the listeners. -/
def fds {state : TcpListenerState} (listeners : List (TcpListener state)) : List ℕ := listeners.map TcpListener.fd

end Server

namespace TcpServer

variable (env : Env)

/-- One round of the loop of `with_listeners`. -/
def makeListener (addr : LocalAddress) (w : World) : Except TcpServerInitError (TcpListener .wantsBind) × World :=
  match TcpListener.new env addr w with
  | (.error e, w) => (.error (.failedToCreateListener e), w)
  | (.ok listener, w) =>
    match listener.setOptMulti env [.reuseAddress, .reusePort] w with
    | (.error e, w) => (.error (.failedToSetSocketOptions e), w.drop listener.fd)
    | (.ok (), w) => (.ok listener, w)

/-- `with_listeners`; it is the number of threads that bounds `n`. -/
def withListeners (n : ℕ) (addr : LocalAddress) (w : World) :
    Except TcpServerInitError (TcpServer .wantsBind) × World :=
  if env.numThreads < n then (.error (.invalidWorkerCount n env.numThreads), w)
  else
    let (result, w) := collect (fun () => makeListener env addr) (fun done _ w => w.drops (fds done))
      (List.replicate n ()) [] w
    (result.map (⟨·, addr⟩), w)

/-- `TcpServer::bind`, one listener after the other. -/
def bind (server : TcpServer .wantsBind) (w : World) : Except OsError (TcpServer .wantsListen) × World :=
  let (result, w) := collect (fun listener => listener.bind env)
    (fun done left w => w.drops (fds done ++ fds left)) server.listeners [] w
  (result.map (⟨·, server.addr⟩), w)

/-- `TcpServer::listen`, the listener `i` on the worker `i`. -/
def listen (server : TcpServer .wantsListen) (w : World) : Except TcpListenError (TcpServer .listening) × World :=
  let (result, w) := collect (fun (listener, i) => listener.listenOn env i)
    (fun done left w => w.drops (fds done ++ fds (left.map Prod.fst))) server.listeners.zipIdx [] w
  (result.map (⟨·, server.addr⟩), w)

end TcpServer

namespace Server

/-- The error of the call that failed. -/
inductive StartError
  | init (e : TcpServerInitError)
  | bind (e : OsError)
  | listen (e : TcpListenError)
  deriving DecidableEq, Repr

/-- `with_listeners(n, addr)?.bind()?.listen(handler)?`. -/
def start (env : Env) (n : ℕ) (addr : LocalAddress) : Except StartError (TcpServer .listening) × World :=
  match TcpServer.withListeners env n addr .init with
  | (.error e, w) => (.error (.init e), w)
  | (.ok server, w) =>
    match server.bind env w with
    | (.error e, w) => (.error (.bind e), w)
    | (.ok server, w) =>
      match server.listen env w with
      | (.error e, w) => (.error (.listen e), w)
      | (.ok server, w) => (.ok server, w)

/-! ### References -/

namespace World

@[simp] theorem drops_accepts (w : World) (fds : List ℕ) : (w.drops fds).accepts = w.accepts := by
  induction fds generalizing w with
  | nil => rfl
  | cons fd fds ih => exact ih (w.drop fd)

@[simp] theorem drops_tasks (w : World) (fds : List ℕ) : (w.drops fds).tasks = w.tasks := by
  induction fds generalizing w with
  | nil => rfl
  | cons fd fds ih => exact ih (w.drop fd)

theorem drops_append (w : World) (fds fds' : List ℕ) : w.drops (fds ++ fds') = (w.drops fds).drops fds' :=
  List.foldl_append

theorem modify_getElem? (w : World) (fd : ℕ) (f : Socket → Socket) (i : ℕ) :
    (w.modify fd f).sockets[i]? = if fd = i then w.sockets[i]?.map f else w.sockets[i]? := by
  simp only [modify, List.getElem?_modify]
  split
  · rfl
  · simp

theorem drops_getElem? (w : World) (fds : List ℕ) (i : ℕ) :
    (w.drops fds).sockets[i]? = w.sockets[i]?.map fun s : Socket => { s with refs := s.refs - fds.count i } := by
  induction fds generalizing w with
  | nil => simp [drops]
  | cons fd fds ih =>
    have hstep : (w.drops (fd :: fds)) = (w.drop fd).drops fds := rfl
    rw [hstep, ih, drop, modify_getElem?, List.count_cons]
    split
    · rename_i heq
      subst heq
      cases w.sockets[fd]? with
      | none => rfl
      | some s => simp [Nat.sub_sub, Nat.add_comm]
    · rename_i hne
      have hb : (fd == i) = false := by simpa using hne
      simp [hb]

end World

/-- Nothing is left of a server: every socket is closed, no worker has been
sent an `accept_multi`, and there is no listener task. -/
structure Clean (w : World) : Prop where
  closed : ∀ s ∈ w.sockets, s.refs = 0
  accepts : w.accepts = []
  tasks : w.tasks = []

/-- The references that are left are dropped. -/
theorem closed_of_drops {w : World} {fds : List ℕ} {i : ℕ} {s : Socket}
    (h : ∀ s : Socket, w.sockets[i]? = some s → s.refs ≤ fds.count i) (hs : (w.drops fds).sockets[i]? = some s) :
    s.refs = 0 := by
  rw [World.drops_getElem?, Option.map_eq_some_iff] at hs
  obtain ⟨s, hs, rfl⟩ := hs
  exact Nat.sub_eq_zero_of_le (h s hs)

theorem clean_of_drops {sockets : List Socket} {fds : List ℕ}
    (h : ∀ (i : ℕ) (s : Socket), sockets[i]? = some s → s.refs ≤ fds.count i) :
    Clean (World.drops ⟨sockets, [], []⟩ fds) where
  closed _ hs := by
    obtain ⟨i, hi⟩ := List.mem_iff_getElem?.mp hs
    exact closed_of_drops (h i) hi
  accepts := by simp
  tasks := by simp

/-! ### Making and binding the sockets -/

namespace Env

variable (env : Env)

/-- The socket `i` can be made and takes its options. -/
def Makes (i : ℕ) : Prop :=
  env.socket i = none ∧ env.setsockopt i .reuseAddress = none ∧ env.setsockopt i .reusePort = none

/-- `n` listeners get as far as `listen`. -/
def Prepares (n : ℕ) : Prop := n ≤ env.numThreads ∧ ∀ i < n, env.Makes i ∧ env.bind i = none

/-- The listener `i` gets as far as its task. -/
def Submits (i : ℕ) : Prop := env.listen i = none ∧ (env.submit i).toOption.isSome = true

/-- And its task is spawned. -/
def Ready (i : ℕ) : Prop := env.Submits i ∧ env.spawn i = none

instance (i : ℕ) : Decidable (env.Submits i) := inferInstanceAs (Decidable (_ ∧ _))

/-- What `listen_on` fails with. -/
def failure (i : ℕ) : Option TcpListenError :=
  match env.listen i with
  | some e => some (.socketListenError e)
  | none =>
    match env.submit i with
    | .error e => some (.workerSendError e)
    | .ok _ => (env.spawn i).map .listenerTaskError

/-- The submission to its worker. -/
def accept (i : ℕ) : List (ℕ × ℕ) := if env.Submits i then [(i, i)] else []

/-- Its listener task. -/
def task (i : ℕ) : ListenerTask := ⟨i, i, (env.submit i).toOption.getD 0⟩

end Env

/-- The first `k` listeners of a server. -/
def listeners (state : TcpListenerState) (k : ℕ) (addr : LocalAddress) : List (TcpListener state) :=
  (List.range k).map (⟨·, addr⟩)

@[simp] theorem fds_map (state : TcpListenerState) (l : List ℕ) (addr : LocalAddress) :
    fds (l.map fun fd => (⟨fd, addr⟩ : TcpListener state)) = l := by
  simp [fds, Function.comp_def]

/-- A socket after `with_listeners`. -/
def Socket.made (addr : LocalAddress) : Socket := ⟨addr.addr.ip.version, [.reuseAddress, .reusePort], none, none, 1⟩

/-- After `bind`. -/
def Socket.isBound (addr : LocalAddress) : Socket := { made addr with bound := some addr.addr.into }

/-- After `listen`, with the listener and its task. -/
def Socket.listening (env : Env) (addr : LocalAddress) (i : ℕ) : Socket :=
  { isBound addr with backlog := (env.backlog i).getD 4096, refs := 2 }

variable {env : Env} {addr : LocalAddress}

theorem modify_last (w : World) (s : Socket) (f : Socket → Socket) :
    World.modify { w with sockets := w.sockets ++ [s] } w.sockets.length f =
      { w with sockets := w.sockets ++ [f s] } := by
  simp only [World.modify]
  congr
  induction w.sockets with
  | nil => rfl
  | cons a sockets ih => simpa using ih

theorem drop_last (w : World) (s : Socket) :
    World.drop { w with sockets := w.sockets ++ [s] } w.sockets.length =
      { w with sockets := w.sockets ++ [{ s with refs := s.refs - 1 }] } :=
  modify_last w s _

/-- What `makeListener` comes to. -/
theorem makeListener_cases (env : Env) (addr : LocalAddress) (w : World) :
    (env.Makes w.sockets.length ∧ TcpServer.makeListener env addr w =
      (.ok ⟨w.sockets.length, addr⟩, { w with sockets := w.sockets ++ [.made addr] })) ∨
    (¬ env.Makes w.sockets.length ∧ ∃ e sockets, TcpServer.makeListener env addr w =
      (.error e, { w with sockets := w.sockets ++ sockets }) ∧ ∀ s ∈ sockets, s.refs = 0) := by
  unfold TcpServer.makeListener TcpListener.new Env.Makes
  cases hsocket : env.socket w.sockets.length with
  | some e => exact .inr ⟨by simp, .failedToCreateListener e, [], by simp, by simp⟩
  | none =>
    simp only [TcpListener.setOptMulti, TcpListener.setOpt]
    cases haddress : env.setsockopt w.sockets.length .reuseAddress with
    | some e => exact .inr ⟨by simp, .failedToSetSocketOptions e, [_], congrArg (Prod.mk _) (drop_last ..), by simp⟩
    | none =>
      simp only [modify_last]
      cases hport : env.setsockopt w.sockets.length .reusePort with
      | some e => exact .inr ⟨by simp, .failedToSetSocketOptions e, [_], congrArg (Prod.mk _) (drop_last ..), by simp⟩
      | none => exact .inl ⟨by simp, rfl⟩

/-- `with_listeners` makes all the sockets, or leaves nothing behind. -/
theorem withListeners_cases (env : Env) (n : ℕ) (addr : LocalAddress) :
    ((n ≤ env.numThreads ∧ ∀ i < n, env.Makes i) ∧ TcpServer.withListeners env n addr .init =
      (.ok ⟨listeners .wantsBind n addr, addr⟩, ⟨List.replicate n (.made addr), [], []⟩)) ∨
    (¬ (n ≤ env.numThreads ∧ ∀ i < n, env.Makes i) ∧
      ∃ e w, TcpServer.withListeners env n addr .init = (.error e, w) ∧ Clean w) := by
  unfold TcpServer.withListeners
  by_cases hn : env.numThreads < n
  · rw [if_pos hn]
    exact .inr ⟨fun h => absurd h.1 (by omega), _, _, rfl, by simp [World.init], rfl, rfl⟩
  rw [if_neg hn, show List.replicate n () = (List.range n).map fun _ => () by simp [List.map_const']]
  let made (k : ℕ) : World := ⟨List.replicate k (.made addr), [], []⟩
  have hcases (k : ℕ) := makeListener_cases env addr (made k)
  simp only [made, List.length_replicate, ← List.replicate_succ'] at hcases
  rcases collect_range (fun () => TcpServer.makeListener env addr) (fun done _ w => w.drops (fds done)) (n := n)
      (fun _ => ()) (⟨·, addr⟩) made env.Makes
      (fun k _ hk => ((hcases k).resolve_right fun h => h.1 hk).2)
      (fun k _ hk => by
        obtain ⟨-, e, sockets, h, -⟩ := (hcases k).resolve_left fun h => hk h.1
        exact ⟨e, _, h⟩) with ⟨hmakes, h⟩ | ⟨k, hk, -, hmake, e, w, hw, h⟩
  · exact .inl ⟨⟨by omega, hmakes⟩, by rw [show World.init = made 0 from rfl, h]; rfl⟩
  · refine .inr ⟨fun h => hmake (h.2 k hk), e, _, by rw [show World.init = made 0 from rfl, h]; rfl, ?_⟩
    obtain ⟨-, e', sockets, h', hrefs⟩ := (hcases k).resolve_left fun h => hmake h.1
    obtain ⟨-, rfl⟩ := Prod.mk.inj (h'.symm.trans hw)
    refine clean_of_drops fun i s hs => ?_
    rw [fds_map, List.count_range]
    rw [List.getElem?_append, List.length_replicate] at hs
    split at hs
    · rename_i hik
      rw [List.getElem?_replicate_of_lt hik, Option.some.injEq] at hs
      simp [hik, ← hs, Socket.made]
    · rw [hrefs s (List.mem_of_getElem? hs)]
      exact Nat.zero_le _

/-- What a loop over the sockets does to them, in turn. -/
theorem modify_stage {n k : ℕ} (after before : ℕ → Socket) {f : Socket → Socket} (hf : f (before k) = after k) :
    ((List.range n).map fun i => if i < k then after i else before i).modify k f =
      (List.range n).map fun i => if i < k + 1 then after i else before i := by
  refine List.ext_getElem? fun i => ?_
  rw [List.getElem?_modify, List.getElem?_map, List.getElem?_map]
  rcases Nat.lt_or_ge i n with hi | hi
  · rw [List.getElem?_range hi]
    rcases Nat.lt_trichotomy i k with hik | rfl | hik
    · have hsucc : i < k + 1 := by omega
      simp only [Option.map_eq_map, Option.map_some, if_pos hik, if_pos hsucc, if_neg hik.ne']
    · simp only [Option.map_eq_map, Option.map_some, if_neg (Nat.lt_irrefl i), if_pos (Nat.lt_add_one i), if_true, hf]
    · have hsucc : ¬ i < k + 1 := by omega
      simp only [Option.map_eq_map, Option.map_some, if_neg hik.not_gt, if_neg hsucc, if_neg hik.ne]
  · rw [List.getElem?_eq_none (by simpa using hi)]
    rfl

/-- The listeners other than the `k`-th are dropped once. -/
theorem count_others {n k i : ℕ} (hk : k < n) (hi : i < n) :
    (List.range k ++ List.range' (k + 1) (n - (k + 1))).count i = if i = k then 0 else 1 := by
  rw [List.count_append, List.count_range, List.count_range_1']
  split_ifs <;> omega

/-- The sockets while `bind` is at the listener `k`. -/
def binding (addr : LocalAddress) (n k : ℕ) : World :=
  ⟨(List.range n).map fun i => if i < k then .isBound addr else .made addr, [], []⟩

/-- `bind` binds all the sockets, or leaves nothing behind. -/
theorem bind_cases (env : Env) (n : ℕ) (addr : LocalAddress) :
    ((∀ i < n, env.bind i = none) ∧ TcpServer.bind env ⟨listeners .wantsBind n addr, addr⟩ (binding addr n 0) =
      (.ok ⟨listeners .wantsListen n addr, addr⟩, binding addr n n)) ∨
    (¬ (∀ i < n, env.bind i = none) ∧
      ∃ e w, TcpServer.bind env ⟨listeners .wantsBind n addr, addr⟩ (binding addr n 0) = (.error e, w) ∧
        Clean w) := by
  unfold TcpServer.bind
  rcases collect_range (fun listener => TcpListener.bind env listener)
      (fun done left w => w.drops (fds done ++ fds left)) (n := n) (⟨·, addr⟩) (⟨·, addr⟩) (binding addr n)
      (env.bind · = none)
      (fun k hk h => by
        simp only [TcpListener.bind, h, TcpListener.transitionState, binding, World.modify]
        rw [modify_stage (fun _ => .isBound addr) (fun _ => .made addr) rfl])
      (fun k hk h => by
        obtain ⟨e, h⟩ := Option.ne_none_iff_exists'.mp h
        exact ⟨e, _, by rw [TcpListener.bind, h]⟩) with ⟨hbind, h⟩ | ⟨k, hk, -, hbind, e, w, hw, h⟩
  · exact .inl ⟨hbind, by rw [listeners, h]; rfl⟩
  · refine .inr ⟨fun h => hbind (h k hk), e, _, by rw [listeners, h]; rfl, ?_⟩
    obtain ⟨e', he⟩ := Option.ne_none_iff_exists'.mp hbind
    simp only [TcpListener.bind, he, Prod.mk.injEq, Except.error.injEq] at hw
    obtain ⟨-, rfl⟩ := hw
    rw [fds_map, fds_map]
    change Clean ((binding addr n k).drops (k :: _))
    refine clean_of_drops fun i s hs => ?_
    rw [List.getElem?_map, Option.map_eq_some_iff] at hs
    obtain ⟨j, hj, rfl⟩ := hs
    obtain ⟨hi, rfl⟩ := List.getElem?_eq_some_iff.mp hj
    rw [List.length_range] at hi
    rw [List.count_cons, count_others hk hi]
    split_ifs <;> simp_all [Socket.isBound, Socket.made]

/-! ### Listening -/

/-- What `listenOn` comes to, on a worker that there is. -/
theorem listenOn_cases (addr : LocalAddress) {k : ℕ} (hk : k < env.numThreads) (w : World) :
    (env.Ready k ∧ TcpListener.listenOn env ⟨k, addr⟩ k w =
      (.ok ⟨k, addr⟩,
        ⟨w.sockets.modify k fun s => { s with backlog := (env.backlog k).getD 4096, refs := s.refs + 1 },
        w.accepts ++ [(k, k)], w.tasks ++ [env.task k]⟩)) ∨
    (¬ env.Ready k ∧ ∃ e f, env.failure k = some e ∧ (∀ s : Socket, (f s).refs = s.refs + 1) ∧
      TcpListener.listenOn env ⟨k, addr⟩ k w =
        (.error e, World.drops ⟨w.sockets.modify k f, w.accepts ++ env.accept k, w.tasks⟩ [k, k])) := by
  unfold TcpListener.listenOn Env.Ready Env.failure Env.accept
  let listened (s : Socket) : Socket := { s with backlog := (env.backlog k).getD 4096, refs := s.refs + 1 }
  have hworker := Nat.not_le.mpr hk
  cases hlisten : env.listen k with
  | some e =>
    have hsubmits : ¬ env.Submits k := fun h => by simpa [hlisten] using h.1
    rw [if_neg hsubmits, List.append_nil]
    exact .inr ⟨fun h => hsubmits h.1, _, fun s => { s with refs := s.refs + 1 }, rfl, fun _ => rfl, rfl⟩
  | none =>
    simp only [TcpListener.getWorkerData, if_neg hworker, World.clone, World.modify, List.modify_modify_eq]
    cases hsubmit : env.submit k with
    | error e =>
      have hsubmits : ¬ env.Submits k := fun h => by simpa [hsubmit, Except.toOption] using h.2
      rw [if_neg hsubmits, List.append_nil]
      exact .inr ⟨fun h => hsubmits h.1, _, listened, rfl, fun _ => rfl, rfl⟩
    | ok key =>
      have hsubmits : env.Submits k := ⟨hlisten, by simp [hsubmit, Except.toOption]⟩
      cases hspawn : env.spawn k with
      | some kind =>
        rw [if_pos hsubmits]
        exact .inr ⟨by simp, _, listened, rfl, fun _ => rfl, rfl⟩
      | none =>
        have htask : env.task k = ⟨k, k, key⟩ := by simp [Env.task, hsubmit, Except.toOption]
        rw [htask]
        exact .inl ⟨⟨hsubmits, rfl⟩, rfl⟩

/-- The server while `listen` is at the listener `k`. -/
def working (env : Env) (addr : LocalAddress) (n k : ℕ) : World :=
  ⟨(List.range n).map fun i => if i < k then .listening env addr i else .isBound addr,
    (List.range k).map fun i => (i, i), (List.range k).map env.task⟩

theorem binding_all (env : Env) (addr : LocalAddress) (n : ℕ) : binding addr n n = working env addr n 0 := by
  unfold binding working
  congr 1
  exact List.map_congr_left fun i hi => by simp [List.mem_range.mp hi]

theorem zipIdx_listeners (n : ℕ) :
    (listeners .wantsListen n addr).zipIdx = (List.range n).map fun i => (⟨i, addr⟩, i) := by
  refine List.ext_getElem? fun i => ?_
  rw [listeners, List.getElem?_zipIdx, List.getElem?_map, List.getElem?_map]
  rcases Nat.lt_or_ge i n with hi | hi
  · simp [List.getElem?_range hi]
  · simp [hi]

/-- What the drops at an error leave, when the listener `k` has failed. -/
structure LeftAt (env : Env) (addr : LocalAddress) (k : ℕ) (w : World) : Prop where
  accepts : w.accepts = (List.range k).map (fun i => (i, i)) ++ env.accept k
  tasks : w.tasks = (List.range k).map env.task
  before : ∀ i < k, w.sockets[i]? = some { Socket.listening env addr i with refs := 1 }
  rest : ∀ i s, k ≤ i → w.sockets[i]? = some s → s.refs = 0

/-- `listen` puts all the listeners to work, or those before the first that
fails. -/
theorem listen_cases (addr : LocalAddress) {n : ℕ} (hn : n ≤ env.numThreads) :
    ((∀ i < n, env.Ready i) ∧ TcpServer.listen env ⟨listeners .wantsListen n addr, addr⟩ (working env addr n 0) =
      (.ok ⟨listeners .listening n addr, addr⟩, working env addr n n)) ∨
    ∃ k < n, (∀ i < k, env.Ready i) ∧ ¬ env.Ready k ∧ ∃ e w, env.failure k = some e ∧
      TcpServer.listen env ⟨listeners .wantsListen n addr, addr⟩ (working env addr n 0) = (.error e, w) ∧
      LeftAt env addr k w := by
  unfold TcpServer.listen
  rw [zipIdx_listeners]
  have hcases (k : ℕ) (hk : k < n) := listenOn_cases addr (lt_of_lt_of_le hk hn)
    (working env addr n k)
  rcases collect_range (fun (listener, i) => TcpListener.listenOn env listener i)
      (fun done left w => w.drops (fds done ++ fds (left.map Prod.fst))) (n := n)
      (fun i => (⟨i, addr⟩, i)) (⟨·, addr⟩) (working env addr n) env.Ready
      (fun k hk h => by
        change TcpListener.listenOn env ⟨k, addr⟩ k _ = _
        rw [((hcases k hk).resolve_right fun hr => hr.1 h).2]
        simp only [working]
        rw [modify_stage (.listening env addr) (fun _ => .isBound addr) rfl]
        simp [List.range_succ])
      (fun k hk h => by
        obtain ⟨-, e, f, -, -, hr⟩ := (hcases k hk).resolve_left fun hr => h hr.1
        exact ⟨e, _, hr⟩) with ⟨hready, h⟩ | ⟨k, hk, hbefore, hready, e, w, hw, h⟩
  · exact .inl ⟨hready, by rw [h]; rfl⟩
  · obtain ⟨-, e', f, hfail, hrefs, hr⟩ := (hcases k hk).resolve_left fun hr => hready hr.1
    obtain ⟨he, rfl⟩ := Prod.mk.inj (hr.symm.trans hw)
    cases he
    refine .inr ⟨k, hk, hbefore, hready, e, _, hfail, by rw [h]; rfl, ?_⟩
    rw [fds_map, List.map_map, show Prod.fst ∘ _ = fun i => (⟨i, addr⟩ : TcpListener .wantsListen) from rfl, fds_map,
      ← World.drops_append]
    refine ⟨by simp [working], by simp [working], fun i hi => ?_, fun i s hi hs => ?_⟩
    · have hin : i < n := by omega
      rw [World.drops_getElem?, List.count_append, count_others hk hin, List.getElem?_modify_ne _ _ hi.ne', working,
        List.getElem?_map, List.getElem?_range hin]
      simp [hi, hi.ne, hi.ne', Socket.listening]
    · refine closed_of_drops (fun s hs => ?_) hs
      rw [List.getElem?_modify, working, List.getElem?_map, Option.map_eq_map, Option.map_map,
        Option.map_eq_some_iff] at hs
      obtain ⟨j, hj, rfl⟩ := hs
      obtain ⟨hin, rfl⟩ := List.getElem?_eq_some_iff.mp hj
      rw [List.length_range] at hin
      rw [List.count_append, count_others hk hin]
      by_cases hik : i = k
      · subst hik
        simp [hrefs, Socket.isBound, Socket.made]
      · simp [hik, Ne.symm hik, Nat.not_lt.mpr hi, Socket.isBound, Socket.made]

/-! ### The server that is left -/

/-- What `start` comes to. -/
theorem start_cases (env : Env) (n : ℕ) (addr : LocalAddress) :
    (env.Prepares n ∧ (∀ i < n, env.Ready i) ∧
      start env n addr = (.ok ⟨listeners .listening n addr, addr⟩, working env addr n n)) ∨
    (env.Prepares n ∧ ∃ k < n, (∀ i < k, env.Ready i) ∧ ¬ env.Ready k ∧ ∃ e w, env.failure k = some e ∧
      start env n addr = (.error (.listen e), w) ∧ LeftAt env addr k w) ∨
    (¬ env.Prepares n ∧ ∃ e w, start env n addr = (.error e, w) ∧ Clean w) := by
  unfold start
  rcases withListeners_cases env n addr with ⟨⟨hn, hmakes⟩, h⟩ | ⟨hfails, e, w, h, hclean⟩
  · have hmade : (⟨List.replicate n (.made addr), [], []⟩ : World) = binding addr n 0 := by
      simp [binding, List.map_const']
    simp only [h, hmade]
    rcases bind_cases env n addr with ⟨hbind, h⟩ | ⟨hfails, e, w, h, hclean⟩
    · simp only [h, binding_all env]
      have hprepares : env.Prepares n := ⟨hn, fun i hi => ⟨hmakes i hi, hbind i hi⟩⟩
      rcases listen_cases addr hn with
        ⟨hready, h⟩ | ⟨k, hk, hbefore, hready, e, w, he, h, hleft⟩
      · exact .inl ⟨hprepares, hready, by rw [h]⟩
      · exact .inr (.inl ⟨hprepares, k, hk, hbefore, hready, e, w, he, by rw [h], hleft⟩)
    · exact .inr (.inr ⟨fun hp => hfails fun i hi => (hp.2 i hi).2, _, w, by rw [h], hclean⟩)
  · exact .inr (.inr ⟨fun hp => hfails ⟨hp.1, fun i hi => (hp.2 i hi).1⟩, _, w, by rw [h], hclean⟩)

/-- The socket `i` has its options and is bound to the address and listening;
its worker, the `i`-th, was sent its `accept_multi`; a task polls for the
results, and holds the socket. -/
structure Serving (env : Env) (addr : LocalAddress) (w : World) (i : ℕ) : Prop where
  socket : ∃ s, w.sockets[i]? = some s ∧ 0 < s.refs ∧ { s with refs := 2 } = Socket.listening env addr i
  accept : (i, i) ∈ w.accepts
  task : ∃ key, env.submit i = .ok key ∧ ⟨i, i, key⟩ ∈ w.tasks

/-- A worker was sent an `accept_multi` for the socket, and there is no task for
its results. -/
def Abandoned (w : World) (i : ℕ) : Prop := (∃ worker, (worker, i) ∈ w.accepts) ∧ ∀ task ∈ w.tasks, task.fd ≠ i

/-- The first `m` listeners serve, and there are no other tasks. -/
structure Upto (env : Env) (addr : LocalAddress) (m : ℕ) (others : List (ℕ × ℕ)) (w : World) : Prop where
  ready : ∀ i < m, env.Ready i
  sockets : ∀ i < m, ∃ s, w.sockets[i]? = some s ∧ 0 < s.refs ∧ { s with refs := 2 } = Socket.listening env addr i
  accepts : w.accepts = (List.range m).map (fun i => (i, i)) ++ others
  tasks : w.tasks = (List.range m).map env.task

theorem upto_working {n : ℕ} (h : ∀ i < n, env.Ready i) : Upto env addr n [] (working env addr n n) where
  ready := h
  sockets i hi := ⟨.listening env addr i, by simp [working, hi], by simp [Socket.listening], rfl⟩
  accepts := by simp [working]
  tasks := rfl

theorem LeftAt.upto {k : ℕ} {w : World} (hleft : LeftAt env addr k w) (h : ∀ i < k, env.Ready i) :
    Upto env addr k (env.accept k) w where
  ready := h
  sockets i hi := ⟨_, hleft.before i hi, by simp, rfl⟩
  accepts := hleft.accepts
  tasks := hleft.tasks

theorem Clean.upto {w : World} (h : Clean w) : Upto env addr 0 [] w where
  ready := by simp
  sockets := by simp
  accepts := by simp [h.accepts]
  tasks := by simp [h.tasks]

/-- How far `start` gets. -/
theorem start_upto (env : Env) (n : ℕ) (addr : LocalAddress) :
    ∃ m others, Upto env addr m others (start env n addr).2 ∧
      ((env.Prepares n ∧ m = n ∧ others = []) ∨
        (env.Prepares n ∧ m < n ∧ ¬ env.Ready m ∧ others = env.accept m) ∨
        (¬ env.Prepares n ∧ m = 0 ∧ others = [])) := by
  rcases start_cases env n addr with
    ⟨hp, hready, h⟩ | ⟨hp, k, hk, hbefore, hready, e, w, -, h, hleft⟩ | ⟨hp, e, w, h, hclean⟩
  · exact ⟨n, [], by rw [h]; exact upto_working hready, .inl ⟨hp, rfl, rfl⟩⟩
  · exact ⟨k, _, by rw [h]; exact hleft.upto hbefore, .inr (.inl ⟨hp, hk, hready, rfl⟩)⟩
  · exact ⟨0, [], by rw [h]; exact hclean.upto, .inr (.inr ⟨hp, rfl, rfl⟩)⟩

namespace Upto

variable {m : ℕ} {others : List (ℕ × ℕ)} {w : World}

theorem task_iff (h : Upto env addr m others w) (i : ℕ) : (∃ t ∈ w.tasks, t.fd = i) ↔ i < m := by
  simp [h.tasks, Env.task]

theorem serving_lt (h : Upto env addr m others w) (i : ℕ) : Serving env addr w i ↔ i < m := by
  constructor
  · intro hs
    obtain ⟨key, -, hmem⟩ := hs.task
    exact (h.task_iff i).mp ⟨_, hmem, rfl⟩
  · intro hi
    obtain ⟨key, hkey⟩ := Option.isSome_iff_exists.mp (h.ready i hi).1.2
    have hsubmit : env.submit i = .ok key := by
      cases hr : env.submit i with
      | error e => simp [hr, Except.toOption] at hkey
      | ok key' => simpa [hr, Except.toOption] using hkey
    refine ⟨h.sockets i hi, by simp [h.accepts, hi], key, hsubmit, ?_⟩
    rw [h.tasks]
    exact List.mem_map.mpr ⟨i, List.mem_range.mpr hi, by simp [Env.task, hsubmit, Except.toOption]⟩

theorem abandoned_of_others (h : Upto env addr m others w) (i : ℕ) :
    Abandoned w i ↔ m ≤ i ∧ ∃ worker, (worker, i) ∈ others := by
  have htask : (∀ t ∈ w.tasks, t.fd ≠ i) ↔ m ≤ i := by
    rw [← Nat.not_lt, ← h.task_iff i]
    simp
  rw [Abandoned, htask, and_comm]
  refine and_congr_right fun hi => exists_congr fun worker => ?_
  simp only [h.accepts, List.mem_append, List.mem_map, List.mem_range, Prod.mk.injEq]
  exact or_iff_right fun ⟨j, hj, _, hji⟩ => by omega

end Upto

/-- **A listener serves if and only if all the sockets could be made and
bound, for no more workers than there are, and it and all the listeners before
it could be put to work**, whatever happens to those after it. -/
theorem serving_iff (env : Env) (n : ℕ) (addr : LocalAddress) (i : ℕ) :
    Serving env addr (start env n addr).2 i ↔ env.Prepares n ∧ i < n ∧ ∀ j ≤ i, env.Ready j := by
  obtain ⟨m, others, h, ⟨hp, rfl, -⟩ | ⟨hp, hm, hready, -⟩ | ⟨hp, rfl, -⟩⟩ := start_upto env n addr
  · rw [h.serving_lt]
    exact ⟨fun hi => ⟨hp, hi, fun j hj => h.ready j (by omega)⟩, fun hi => hi.2.1⟩
  · rw [h.serving_lt]
    refine ⟨fun hi => ⟨hp, by omega, fun j hj => h.ready j (by omega)⟩, fun ⟨_, _, hi⟩ => ?_⟩
    by_contra hmi
    exact hready (hi m (by omega))
  · rw [h.serving_lt]
    exact ⟨fun hi => absurd hi (Nat.not_lt_zero i), fun hi => absurd hi.1 hp⟩

/-- **A worker is left with an `accept_multi` without a task if and only if `listen`
got to the spawn of the task, and failed there.** -/
theorem abandoned_iff (env : Env) (n : ℕ) (addr : LocalAddress) (i : ℕ) :
    Abandoned (start env n addr).2 i ↔
      env.Prepares n ∧ i < n ∧ (∀ j < i, env.Ready j) ∧ env.Submits i ∧ env.spawn i ≠ none := by
  obtain ⟨m, others, h, ⟨hp, rfl, rfl⟩ | ⟨hp, hm, hready, rfl⟩ | ⟨hp, rfl, rfl⟩⟩ := start_upto env n addr
  · rw [h.abandoned_of_others]
    refine ⟨by simp, fun ⟨_, hi, _, hs, hn⟩ => absurd (h.ready i hi).2 hn⟩
  · rw [h.abandoned_of_others, Env.accept]
    constructor
    · rintro ⟨hi, worker, hmem⟩
      split at hmem
      · rename_i hs
        obtain ⟨-, rfl⟩ := Prod.mk.inj (List.mem_singleton.mp hmem)
        exact ⟨hp, hm, h.ready, hs, fun hn => hready ⟨hs, hn⟩⟩
      · simp at hmem
    · rintro ⟨-, -, hbefore, hs, hn⟩
      obtain hi | rfl | hi := Nat.lt_trichotomy m i
      · exact absurd (hbefore m hi) hready
      · exact ⟨le_rfl, m, by simp [hs]⟩
      · exact absurd (h.ready i hi).2 hn
  · rw [h.abandoned_of_others]
    exact ⟨by simp, fun hi => absurd hi.1 hp⟩

/-- **An error leaves nothing behind if and only if it is not one of `listen`,
or the first listener did not get to its `accept_multi`.** -/
theorem undone_iff (env : Env) (n : ℕ) (addr : LocalAddress) :
    (∀ e, (start env n addr).1 = .error e → Clean (start env n addr).2) ↔
      (env.Prepares n → (∀ i < n, env.Ready i) ∨ ¬ env.Submits 0) := by
  rcases start_cases env n addr with
    ⟨hp, hready, h⟩ | ⟨hp, k, hk, hbefore, hready, e, w, -, h, hleft⟩ | ⟨hp, e, w, h, hclean⟩
  · rw [h]
    exact ⟨fun _ _ => .inl hready, fun _ e he => by cases he⟩
  · rw [h]
    constructor
    · intro hclean _
      have haccepts := hleft.accepts
      rw [(hclean _ rfl).accepts] at haccepts
      obtain ⟨hrange, haccept⟩ := List.append_eq_nil_iff.mp haccepts.symm
      obtain rfl : k = 0 := by simpa using hrange
      refine .inr fun hs => ?_
      simp [Env.accept, hs] at haccept
    · intro hn e' _
      obtain hall | hs := hn hp
      · exact absurd (hall k hk) hready
      · have hk0 : k = 0 := by
          by_contra hk0
          exact hs (hbefore 0 (by omega)).1
        subst hk0
        refine ⟨fun s hs' => ?_, by simp [hleft.accepts, Env.accept, hs], by simp [hleft.tasks]⟩
        obtain ⟨i, hi⟩ := List.mem_iff_getElem?.mp hs'
        exact hleft.rest i s (Nat.zero_le i) hi
  · rw [h]
    exact ⟨fun _ h => absurd h hp, fun _ _ _ => hclean⟩

end Server
end Net
end ClAsync
