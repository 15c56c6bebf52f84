/-
# Iterating a directory

`Directory::iter` duplicates the descriptor of the directory and makes a
`DirectoryStream` of the duplicate. Duplicates have one position, that of the
open directory, and so have all the streams of a `Directory` and of its clones:
each call of `getdents` takes the next entries for the stream that makes it, and
nobody goes back. A stream keeps what it took and has not returned yet; what is
left of that when it is dropped is gone.

The entries of the directory do not change meanwhile. A round of the loop of
`next` is a step, so any number of streams may be read in any order.

Key definitions: `DirectoryStream`, `step`, `Iterated`.
Key theorems: `step_cases`, `iterated`.
-/
import ClAsync.Fs.Directory
import ClAsync.Lib.Runs
import ClAsync.Lib.Wakers
import Mathlib.Data.List.Perm.Subperm

namespace ClAsync

/-- `from(libc::c_uchar)`. -/
def IoFileDescriptorType.ofDType : UInt8 → IoFileDescriptorType
  | 6 => 0x6000   -- DT_BLK
  | 2 => 0x2000   -- DT_CHR
  | 4 => 0x4000   -- DT_DIR
  | 1 => 0x1000   -- DT_FIFO
  | 10 => 0xa000  -- DT_LNK
  | 8 => 0x8000   -- DT_REG
  | 12 => 0xc000  -- DT_SOCK
  | _ => 0

namespace Iteration

/-- A `libc::dirent`. -/
structure Dirent where
  dName : Name
  dType : UInt8
  deriving DecidableEq, Repr

/-- `DirectoryEntry`. -/
structure DirectoryEntry where
  name : Name
  dtype : IoFileDescriptorType
  deriving DecidableEq, Repr

/-- `.` and `..`. -/
def Dirent.isDot (e : Dirent) : Bool := e.dName == [46] || e.dName == [46, 46]

/-- The entry that is made of a `dirent`. -/
def Dirent.entry (e : Dirent) : DirectoryEntry := ⟨e.dName, .ofDType e.dType⟩

/-- The entries of these that `next` returns. -/
def entries (dirents : List Dirent) : List DirectoryEntry := (dirents.filter fun e => !e.isDot).map Dirent.entry

/-- A `DirectoryStream`: `buffer` is what `readdir` has yet to give. `seen` is
what it gave, `returned` what `next` returned, `opened` the position of the
directory when the stream was made. -/
structure DirectoryStream where
  buffer : List Dirent
  seen : List Dirent
  returned : List (Except OsError DirectoryEntry)
  opened : ℕ
  ended : Bool
  closed : Bool
  deriving DecidableEq, Repr

/-- `position` is that of the open directory, `fds` the duplicates that are
open. -/
structure State where
  content : List Dirent
  position : ℕ
  fds : ℕ
  streams : List DirectoryStream
  deriving DecidableEq, Repr

/-- A directory that was just opened. -/
def State.init (content : List Dirent) : State := ⟨content, 0, 0, []⟩

/-! ### Steps -/

/-- `Directory::iter`; `dup`, `fdopendir` and `close` fail with these errors, if
at all. -/
def iter (s : State) (dup fdopendir close : Option ℤ) : Except OsError Unit × State :=
  match dup, fdopendir, close with
  | some e, _, _ => (.error (.ofErrno e), s)
  | none, some _, some e => (.error (.ofErrno e), s)
  | none, some e, none => (.error (.ofErrno e), s)
  | none, none, _ =>
    (.ok (), { s with fds := s.fds + 1, streams := s.streams ++ [⟨[], [], [], s.position, false, false⟩] })

namespace DirectoryStream

/-- `readdir` gives the entry, and `next` returns it or goes on. -/
def give (d : DirectoryStream) (e : Dirent) (rest : List Dirent) : DirectoryStream :=
  { d with
    buffer := rest
    seen := d.seen ++ [e]
    returned := if e.isDot then d.returned else d.returned ++ [.ok e.entry] }

end DirectoryStream

/-- What is done with a directory and its streams. -/
inductive Act
  | iter (dup fdopendir close : Option ℤ)
  /-- A round of the loop of `next`. Where it has to ask the kernel, that gives
  as many entries as fit, one at least, or fails. -/
  | readdir (i : ℕ) (more : ℕ) (errno : Option ℤ)
  | drop (i : ℕ)
  deriving DecidableEq, Repr

/-- A stream reads its directory: `more` entries, the end, or an error. -/
def readdir (s : State) (i : ℕ) (d : DirectoryStream) (more : ℕ) (errno : Option ℤ) : State :=
  match d.buffer, errno with
  | e :: rest, _ => { s with streams := s.streams.set i (d.give e rest) }
  | [], some errno =>
    { s with streams := s.streams.set i { d with returned := d.returned ++ [.error (.ofErrno errno)] } }
  | [], none =>
    match (s.content.drop s.position).take (more + 1) with
    | [] => { s with streams := s.streams.set i { d with ended := true } }
    | e :: rest =>
      { s with position := s.position + (rest.length + 1), streams := s.streams.set i (d.give e rest) }

/-- One act. -/
def step (s : State) : Act → Option State
  | .iter dup fdopendir close => some (iter s dup fdopendir close).2
  | .readdir i more errno =>
    s.streams[i]?.bind fun d => if d.closed then none else some (readdir s i d more errno)
  | .drop i =>
    s.streams[i]?.bind fun d =>
      if d.closed then none
      else some { s with fds := s.fds - 1, streams := s.streams.set i { d with closed := true } }

/-- What a step does: a stream is made; a stream gives an entry that it has, or
that it takes from the directory; a stream fails, or comes to the end of the
directory; a stream is dropped; nothing. -/
theorem step_cases {s s' : State} {a : Act} (hstep : step s a = some s') : s' = s ∨
    s' = { s with fds := s.fds + 1, streams := s.streams ++ [⟨[], [], [], s.position, false, false⟩] } ∨
    ∃ i d, s.streams[i]? = some d ∧ d.closed = false ∧
      ((∃ e rest, d.buffer = e :: rest ∧ s' = { s with streams := s.streams.set i (d.give e rest) }) ∨
       (∃ e rest, d.buffer = [] ∧ (e :: rest) <+: s.content.drop s.position ∧
          s' = { s with position := s.position + (rest.length + 1), streams := s.streams.set i (d.give e rest) }) ∨
       (∃ e, d.buffer = [] ∧
         s' = { s with streams := s.streams.set i { d with returned := d.returned ++ [.error e] } }) ∨
       (d.buffer = [] ∧ s.content.length ≤ s.position ∧
         s' = { s with streams := s.streams.set i { d with ended := true } }) ∨
       s' = { s with fds := s.fds - 1, streams := s.streams.set i { d with closed := true } }) := by
  cases a with
  | iter dup fdopendir close =>
    obtain rfl := Option.some.inj hstep
    unfold iter
    split
    · exact .inl rfl
    · exact .inl rfl
    · exact .inl rfl
    · exact .inr (.inl rfl)
  | readdir i more errno =>
    obtain ⟨d, hd, h⟩ := Option.bind_eq_some_iff.mp hstep
    split at h
    · cases h
    · rename_i hopen
      obtain rfl := Option.some.inj h
      refine .inr (.inr ⟨i, d, hd, Bool.eq_false_iff.mpr hopen, ?_⟩)
      unfold readdir
      split
      · rename_i e rest hbuffer
        exact .inl ⟨e, rest, hbuffer, rfl⟩
      · rename_i errno hbuffer
        exact .inr (.inr (.inl ⟨_, hbuffer, rfl⟩))
      · rename_i hbuffer
        split
        · rename_i htake
          refine .inr (.inr (.inr (.inl ⟨hbuffer, ?_, rfl⟩)))
          exact List.drop_eq_nil_iff.mp ((List.take_eq_nil_iff.mp htake).resolve_left (Nat.succ_ne_zero _))
        · rename_i e rest htake
          exact .inr (.inl ⟨e, rest, hbuffer, htake ▸ List.take_prefix _ _, rfl⟩)
  | drop i =>
    obtain ⟨d, hd, h⟩ := Option.bind_eq_some_iff.mp hstep
    split at h
    · cases h
    · rename_i hopen
      obtain rfl := Option.some.inj h
      exact .inr (.inr ⟨i, d, hd, Bool.eq_false_iff.mpr hopen, .inr (.inr (.inr (.inr rfl)))⟩)

/-! ### What the streams return -/

namespace DirectoryStream

/-- The entries among what `next` returned. -/
def found (d : DirectoryStream) : List DirectoryEntry := d.returned.filterMap Except.toOption

/-- What the stream took from the directory. -/
def taken (d : DirectoryStream) : List Dirent := d.seen ++ d.buffer

theorem taken_give {d : DirectoryStream} {e : Dirent} {rest : List Dirent} :
    (d.give e rest).taken = d.seen ++ (e :: rest) := by
  simp [taken, give]

theorem found_give (d : DirectoryStream) (e : Dirent) (rest : List Dirent) :
    (d.give e rest).found = d.found ++ entries [e] := by
  unfold found give entries
  cases h : e.isDot <;> simp [h, Except.toOption]

end DirectoryStream

theorem entries_append (l l' : List Dirent) : entries (l ++ l') = entries l ++ entries l' := by
  simp [entries]

theorem sublist_entries {l l' : List Dirent} (h : l.Sublist l') : (entries l).Sublist (entries l') :=
  (h.filter _).map _

/-- What one stream took: in order, from where the directory was when it was
made, and it returned what it saw of that. -/
structure Follows (s : State) (d : DirectoryStream) : Prop where
  found : d.found = entries d.seen
  opened : d.opened ≤ s.position
  taken : d.taken.Sublist ((s.content.take s.position).drop d.opened)
  ended : d.ended = true → d.buffer = [] ∧ s.content.length ≤ s.position

/-- The streams share what is before the position of the directory. -/
structure Shared (content : List Dirent) (s : State) : Prop where
  content_eq : s.content = content
  position : s.position ≤ content.length
  taken : (s.streams.map DirectoryStream.taken).flatten.Perm (content.take s.position)
  streams : ∀ d ∈ s.streams, Follows s d
  fds : s.fds = s.streams.countP fun d => !d.closed

/-- Over the life of a directory each of its entries is returned at most once,
whatever streams are made of it, and never `.` and `..`; each stream returns its
entries in the order of the directory, from where that was; when a stream has come to
the end, every entry was taken by one of them: by it, if there is no other, and
not by one made later. -/
structure Iterated (content : List Dirent) (s : State) : Prop where
  once : (s.streams.map DirectoryStream.found).flatten.Subperm (entries content)
  inOrder : ∀ d ∈ s.streams, d.found.Sublist (entries (content.drop d.opened))
  whole : (∃ d ∈ s.streams, d.ended = true) → (s.streams.map fun d => entries d.taken).flatten.Perm (entries content)
  alone : ∀ d, s.streams = [d] → d.ended = true → d.found = entries content
  again : ∀ d ∈ s.streams, d.ended = true → ∀ d' ∈ s.streams, s.position ≤ d'.opened → d'.found = []
  fds : s.fds = s.streams.countP fun d => !d.closed

theorem entries_flatten (ls : List (List Dirent)) : entries ls.flatten = (ls.map entries).flatten := by
  induction ls with
  | nil => rfl
  | cons l ls ih => rw [List.flatten_cons, entries_append, ih, List.map_cons, List.flatten_cons]

theorem sublist_flatten_map {ds : List DirectoryStream} {f g : DirectoryStream → List DirectoryEntry}
    (h : ∀ d ∈ ds, (f d).Sublist (g d)) : (ds.map f).flatten.Sublist (ds.map g).flatten := by
  induction ds with
  | nil => exact List.Sublist.refl _
  | cons d ds ih =>
    simp only [List.map_cons, List.flatten_cons]
    exact (h d List.mem_cons_self).append (ih fun d hd => h d (List.mem_cons_of_mem _ hd))

theorem iterated_of_shared {content : List Dirent} {s : State} (h : Shared content s) : Iterated content s := by
  have htaken : (s.streams.map fun d => entries d.taken).flatten.Perm (entries (content.take s.position)) := by
    have hperm := (h.taken.filter fun e => !e.isDot).map Dirent.entry
    rw [← entries, ← entries, entries_flatten, List.map_map] at hperm
    exact hperm
  have hall : (∃ d ∈ s.streams, d.ended = true) → content.take s.position = content := by
    rintro ⟨d, hd, hended⟩
    exact List.take_of_length_le (h.content_eq ▸ ((h.streams d hd).ended hended).2)
  have hsub : ∀ d ∈ s.streams, d.found.Sublist (entries d.taken) := by
    intro d hd
    rw [(h.streams d hd).found]
    exact sublist_entries (List.sublist_append_left _ _)
  have horder : ∀ d ∈ s.streams, d.found.Sublist (entries (content.drop d.opened)) := by
    intro d hd
    refine (hsub d hd).trans (sublist_entries ((h.streams d hd).taken.trans ?_))
    rw [h.content_eq]
    exact (List.take_sublist _ _).drop _
  refine ⟨?_, horder, fun hended => hall hended ▸ htaken, ?_, ?_, h.fds⟩
  · refine List.Sublist.subperm ?_ |>.trans (htaken.subperm.trans (sublist_entries (List.take_sublist _ _)).subperm)
    exact sublist_flatten_map hsub
  · intro d hd hended
    have hmem : d ∈ s.streams := hd ▸ List.mem_singleton_self d
    have hperm := h.taken
    rw [hall ⟨d, hmem, hended⟩, hd, List.map_singleton, List.flatten_singleton] at hperm
    have hfollows := h.streams d hmem
    have heq : d.taken = content := by
      refine List.Sublist.eq_of_length (hfollows.taken.trans ?_) hperm.length_eq
      exact h.content_eq ▸ (List.drop_sublist _ _).trans (List.take_sublist _ _)
    rw [hfollows.found, ← heq, DirectoryStream.taken, (hfollows.ended hended).1, List.append_nil]
  · intro d hd hended d' hd' hopened
    have hnil : content.drop d'.opened = [] :=
      List.drop_eq_nil_of_le ((h.content_eq ▸ ((h.streams d hd).ended hended).2).trans hopened)
    have hfound := horder d' hd'
    rw [hnil] at hfound
    exact List.sublist_nil.mp hfound

/-! ### Steps keep that -/

/-- What a stream takes is added to what was taken. -/
theorem perm_set {f : DirectoryStream → List Dirent} {d d' : DirectoryStream} {chunk : List Dirent}
    (hd' : f d' = f d ++ chunk) : ∀ {ds : List DirectoryStream} {i : ℕ}, ds[i]? = some d →
      ((ds.set i d').map f).flatten.Perm ((ds.map f).flatten ++ chunk)
  | [], _, h => by simp at h
  | d₁ :: ds, 0, h => by
    obtain rfl : d₁ = d := by simpa using h
    simp only [List.set_cons_zero, List.map_cons, List.flatten_cons, hd', List.append_assoc]
    exact List.perm_append_comm.append_left _
  | d₁ :: ds, i + 1, h => by
    simp only [List.set_cons_succ, List.map_cons, List.flatten_cons, List.append_assoc]
    exact (perm_set hd' (by simpa using h)).append_left _

theorem Follows.mono {s s' : State} {d : DirectoryStream} {chunk : List Dirent} (h : Follows s d)
    (hcontent : s'.content = s.content) (hposition : s.position ≤ s.content.length)
    (hchunk : s'.content.take s'.position = s.content.take s.position ++ chunk)
    (hle : s.position ≤ s'.position)  :
    Follows s' d := by
  refine ⟨h.found, h.opened.trans hle, ?_, fun hended => ⟨(h.ended hended).1, ?_⟩⟩
  · rw [hchunk, List.drop_append_of_le_length]
    · exact h.taken.trans (List.sublist_append_left _ _)
    · rw [List.length_take_of_le hposition]
      exact h.opened
  · rw [hcontent]
    exact (h.ended hended).2.trans hle

/-- A stream that gives an entry it has. -/
theorem Follows.give {s : State} {d : DirectoryStream} {e : Dirent} {rest : List Dirent} (h : Follows s d)
    (hbuffer : d.buffer = e :: rest) : Follows s (d.give e rest) := by
  refine ⟨?_, h.opened, ?_, fun hended => ?_⟩
  · rw [DirectoryStream.found_give, h.found, ← entries_append]
    rfl
  · rw [DirectoryStream.taken_give, ← hbuffer]
    exact h.taken
  · cases hbuffer.symm.trans (h.ended hended).1

/-- A stream that takes entries from the directory, and gives the first. -/
theorem Follows.take {s s' : State} {d : DirectoryStream} {e : Dirent} {rest : List Dirent} (h : Follows s d)
    (hbuffer : d.buffer = []) (hposition : s.position ≤ s.content.length) (hlt : s.position < s.content.length)
    (hchunk : s'.content.take s'.position = s.content.take s.position ++ (e :: rest)) (hle : s.position ≤ s'.position) :
    Follows s' (d.give e rest) := by
  refine ⟨?_, h.opened.trans hle, ?_, fun hended => absurd hlt (Nat.not_lt.mpr (h.ended hended).2)⟩
  · rw [DirectoryStream.found_give, h.found, ← entries_append]
    rfl
  · rw [DirectoryStream.taken_give, hchunk, List.drop_append_of_le_length]
    · refine List.Sublist.append ?_ (List.Sublist.refl _)
      have htaken := h.taken
      rwa [DirectoryStream.taken, hbuffer, List.append_nil] at htaken
    · rw [List.length_take_of_le hposition]
      exact h.opened

theorem shared_step {content : List Dirent} {s s' : State} {a : Act} (hs : Shared content s)
    (h : step s a = some s') :
    Shared content s' := by
  obtain rfl | rfl | ⟨i, d, hd, hopen, hcase⟩ := step_cases h
  · exact hs
  · refine ⟨hs.content_eq, hs.position, ?_, ?_, ?_⟩
    · simpa [DirectoryStream.taken] using hs.taken
    · intro d hd
      obtain hd | hd := List.mem_append.mp hd
      · obtain ⟨hfound, hopened, htaken, hended⟩ := hs.streams d hd
        exact ⟨hfound, hopened, htaken, hended⟩
      · obtain rfl := List.mem_singleton.mp hd
        exact ⟨rfl, le_rfl, List.nil_sublist _, fun hended => by cases hended⟩
    · simpa using hs.fds
  · have hfollows := hs.streams d (List.mem_of_getElem? hd)
    have hcount : ∀ d', d'.closed = d.closed →
        (s.streams.set i d').countP (fun d => !d.closed) = s.streams.countP fun d => !d.closed := by
      intro d' hclosed
      have hset := Wakers.countP_set_add (fun d => !d.closed) hd d'
      rw [hclosed] at hset
      exact Nat.add_right_cancel hset
    -- a stream that takes nothing
    have hsame : ∀ d' : DirectoryStream, d'.taken = d.taken → d'.closed = d.closed → Follows s d' →
        Shared content { s with streams := s.streams.set i d' } := by
      intro d' htaken hclosed hfollows'
      refine ⟨hs.content_eq, hs.position, ?_, Wakers.forall_mem_set ?_ ?_, hs.fds.trans (hcount d' hclosed).symm⟩
      · have hperm := perm_set (htaken.trans (List.append_nil _).symm) hd
        rw [List.append_nil] at hperm
        exact hperm.trans hs.taken
      · exact fun d hd => ⟨(hs.streams d hd).found, (hs.streams d hd).opened,
          (hs.streams d hd).taken, (hs.streams d hd).ended⟩
      · exact ⟨hfollows'.found, hfollows'.opened, hfollows'.taken, hfollows'.ended⟩
    obtain ⟨e, rest, hbuffer, rfl⟩ | ⟨e, rest, hbuffer, hprefix, rfl⟩ | ⟨e, hbuffer, rfl⟩ |
        ⟨hbuffer, hend, rfl⟩ | rfl :=
      hcase
    · refine hsame _ ?_ rfl (hfollows.give hbuffer)
      rw [DirectoryStream.taken_give, ← hbuffer]
      rfl
    · have hlen : s.position + (rest.length + 1) ≤ s.content.length := by
        have hle := hprefix.length_le
        rw [List.length_drop, List.length_cons] at hle
        have hposition := hs.position
        rw [← hs.content_eq] at hposition
        omega
      have hposition : s.position ≤ s.content.length := hs.content_eq ▸ hs.position
      have hchunk : s.content.take (s.position + (rest.length + 1)) = s.content.take s.position ++ (e :: rest) := by
        rw [List.take_add, ← List.length_cons, ← List.prefix_iff_eq_take.mp hprefix]
      refine ⟨hs.content_eq, hs.content_eq ▸ hlen, ?_, Wakers.forall_mem_set (fun d hd => ?_) ?_,
        hs.fds.trans (hcount (d.give e rest) rfl).symm⟩
      · have htaken : (d.give e rest).taken = d.taken ++ (e :: rest) := by
          rw [DirectoryStream.taken_give, DirectoryStream.taken, hbuffer, List.append_nil]
        refine (perm_set htaken hd).trans ?_
        rw [← hs.content_eq, hchunk]
        exact (hs.content_eq ▸ hs.taken).append_right _
      · exact (hs.streams d hd).mono rfl hposition hchunk (Nat.le_add_right _ _)
      · exact hfollows.take hbuffer hposition (by omega) hchunk (Nat.le_add_right _ _)
    · refine hsame _ rfl rfl ⟨?_, hfollows.opened, hfollows.taken, hfollows.ended⟩
      rw [DirectoryStream.found, List.filterMap_append]
      exact (List.append_nil _).trans hfollows.found
    · exact hsame _ rfl rfl ⟨hfollows.found, hfollows.opened, hfollows.taken, fun _ => ⟨hbuffer, hend⟩⟩
    · refine ⟨hs.content_eq, hs.position, ?_, Wakers.forall_mem_set (fun d hd => ?_) ?_, ?_⟩
      · have htaken : DirectoryStream.taken { d with closed := true } = d.taken ++ [] := (List.append_nil _).symm
        have hperm := perm_set htaken hd
        rw [List.append_nil] at hperm
        exact hperm.trans hs.taken
      · exact ⟨(hs.streams d hd).found, (hs.streams d hd).opened, (hs.streams d hd).taken, (hs.streams d hd).ended⟩
      · exact ⟨hfollows.found, hfollows.opened, hfollows.taken, hfollows.ended⟩
      · have hset := Wakers.countP_set_add (fun d => !d.closed) hd { d with closed := true }
        rw [hopen, ← hs.fds] at hset
        simp only [Bool.not_false, if_true, Bool.not_true, Bool.false_eq_true, if_false] at hset
        exact (Nat.sub_eq_of_eq_add hset.symm)

/-- **However the streams of a directory are made, read and dropped, the entries of the
directory are shared out among them.** -/
theorem iterated (content : List Dirent) (as : List Act) : Runs.Along step (Iterated content) (.init content) as :=
  Runs.along_of_step (fun _ _ _ => shared_step) (fun _ => iterated_of_shared) as
    ⟨rfl, Nat.zero_le _, List.Perm.refl _, fun _ h => absurd h List.not_mem_nil, rfl⟩

/-- The second time around there is nothing: the directory is at its end. -/
example : (Runs.run step (.init [⟨[46], 4⟩, ⟨[97], 8⟩]) [.iter none none none, .readdir 0 9 none, .readdir 0 9 none,
    .readdir 0 9 none, .drop 0, .iter none none none, .readdir 1 9 none]).map
      (fun s => s.streams.map fun d => (d.found, d.ended)) = some [([⟨[97], 0x8000⟩], true), ([], true)] := by decide

end Iteration
end ClAsync
