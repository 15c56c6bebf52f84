/-
# Opening files

`File::open` and `File::open_at` try `openat2`, from the current directory
and from that of a descriptor; when the file is to be created and something
is missing, they make its parent with `Directory::mkdir_recursive` and try
again. Both pass it the parent of the path they were given, and
`mkdir_recursive` knows the current directory only: `open_at` makes the
parent of a path from the one directory and opens it from the other.

The parent of a path that ends in a `.` does not have the name before it, and may
be there when that is missing: then making it is an error.

Key definitions: `openIn`, `File.open`, `File.openAt`, `Agrees`, `Alike`.
Key theorem: `agrees_iff`, exactly when `open_at` is `open` of the joined
path.
-/
import ClAsync.Fs.Directory

namespace ClAsync

open FileTree

/-! ### Settings -/

/-- `IoFileSystemAccessType`. -/
inductive IoFileSystemAccessType
  | readOnly
  | writeOnly
  | readWrite
  deriving DecidableEq, Repr

/-- `O_RDONLY`, `O_WRONLY`, `O_RDWR`. -/
def IoFileSystemAccessType.bits : IoFileSystemAccessType → UInt32
  | readOnly => 0
  | writeOnly => 1
  | readWrite => 2

/-- `IoFileCreateMode`. -/
inductive IoFileCreateMode
  | doNotCreate
  | create (mode : IoFileSystemMode)
  deriving DecidableEq, Repr

/-- `O_CREAT`. -/
def IoFileCreateMode.asFlag : IoFileCreateMode → UInt32
  | doNotCreate => 0
  | create _ => 0x40

/-- `IoFileOpenSettings`; the flags are their bits, and not negative. -/
structure IoFileOpenSettings where
  accessType : IoFileSystemAccessType
  openFlags : UInt32
  resolveFlags : UInt64
  mode : IoFileCreateMode
  deriving DecidableEq, Repr

namespace IoFileOpenSettings

/-- `as_flags`. -/
def asFlags (settings : IoFileOpenSettings) : UInt32 :=
  settings.accessType.bits ||| settings.openFlags ||| settings.mode.asFlag

/-- The settings ask for a directory, by `O_DIRECTORY`. -/
def isDir (settings : IoFileOpenSettings) : Bool := settings.openFlags &&& 0x10000 == 0x10000

/-- The mode of a file that is made. -/
def modeValue (settings : IoFileOpenSettings) : UInt32 :=
  match settings.mode with
  | .doNotCreate => 0
  | .create mode => mode.toModeT

/-- The `OpenHow` of `as_uring_entry`. -/
def how (settings : IoFileOpenSettings) : OpenHow :=
  ⟨settings.asFlags.toUInt64, settings.modeValue.toUInt64, settings.resolveFlags⟩

end IoFileOpenSettings

/-! ### The functions -/

/-- An open file; `fd` is the place it refers to. -/
structure File where
  fd : List Name
  path : Path Name
  deriving DecidableEq, Repr

/-- `FileOpenError`. -/
inductive FileOpenError
  | invalidFileOpenSettings (settings : IoFileOpenSettings)
  | failedToCreateDirectory (e : MkdirError)
  | ioError (e : IoFileError)
  deriving DecidableEq, Repr

namespace File

/-- `open_unchecked` and `open_at_unchecked`, from the directory `base`. -/
def openUnchecked (t : Files) (base : List Name) (path : Path Name) (settings : IoFileOpenSettings) :
    Except IoFileError File × Files :=
  match openat2 t base path settings.how with
  | .ok (fd, t) => (.ok ⟨fd, path⟩, t)
  | .error e => (.error (.ofErrno e), t)

/-- `open` and `open_at`, from the directory `base`. What is missing is made
from the current directory `cwd`. -/
def openIn (t : Files) (cwd base : List Name) (path : Path Name) (settings : IoFileOpenSettings) :
    Except FileOpenError File × Files :=
  if settings.isDir then (.error (.invalidFileOpenSettings settings), t)
  else
    match openUnchecked t base path settings with
    | (.ok file, t) => (.ok file, t)
    | (.error e, t) =>
      if e.osError = .notFound then
        match settings.mode with
        | .create mode =>
          match path.parent with
          | some parent =>
            match Directory.mkdirRecursive t cwd parent mode with
            | (.ok (), t) =>
              match openUnchecked t base path settings with
              | (.ok file, t) => (.ok file, t)
              | (.error e, t) => (.error (.ioError e), t)
            | (.error e, t) => (.error (.failedToCreateDirectory e), t)
          | none => (.error (.ioError e), t)
        | .doNotCreate => (.error (.ioError e), t)
      else (.error (.ioError e), t)

/-- `File::open`. -/
def «open» (t : Files) (cwd : List Name) (path : Path Name) (settings : IoFileOpenSettings) :
    Except FileOpenError File × Files :=
  openIn t cwd cwd path settings

/-- `File::open_at`. -/
def openAt (t : Files) (cwd : List Name) (dir : Directory) (path : Path Name) (settings : IoFileOpenSettings) :
    Except FileOpenError File × Files :=
  openIn t cwd dir.fd path settings

end File

/-- `Directory::open_file`. -/
def Directory.openFile (t : Files) (cwd : List Name) (dir : Directory) (subpath : Path Name)
    (settings : IoFileOpenSettings) : Except FileOpenError File × Files :=
  File.openAt t cwd dir subpath settings

/-! ### Agreement -/

/-- A directory that is open at an absolute path. -/
def Directory.OpenAt (t : Files) :=
  { dir : Directory // dir.path.absolute = true ∧ walk t .anywhere [] dir.path.comps = .ok dir.fd }

/-- The error with `f` of the path that it names. -/
def MkdirError.mapPath (f : Path Name → Path Name) : MkdirError → MkdirError
  | failedToRetrieveDescriptorType path => failedToRetrieveDescriptorType (f path)
  | e => e

/-- The same for the error of an open. -/
def FileOpenError.mapPath (f : Path Name → Path Name) : FileOpenError → FileOpenError
  | failedToCreateDirectory e => failedToCreateDirectory (e.mapPath f)
  | e => e

/-- The result with `f` of the path that it names. -/
def mapPath (f : Path Name → Path Name) : Except FileOpenError File → Except FileOpenError File
  | .ok file => .ok { file with path := f file.path }
  | .error e => .error (e.mapPath f)

namespace File

/-- `open_at` of a relative path does what `open` of the joined path does, what it
says of a path said of the path in the directory, and without `..` nothing
outside the directory changes. -/
def Agrees (t : Files) (cwd : List Name) (dir : Directory) (p : List (Comp Name)) (settings : IoFileOpenSettings) :
    Prop :=
  mapPath (fun path => (dir.path.join path).components) (openAt t cwd dir ⟨false, p⟩ settings).1 =
      mapPath Path.components («open» t cwd (dir.path.join ⟨false, p⟩) settings).1 ∧
    (openAt t cwd dir ⟨false, p⟩ settings).2 = («open» t cwd (dir.path.join ⟨false, p⟩) settings).2 ∧
    (.up ∉ p → ∀ other, ¬ dir.fd <+: other → (openAt t cwd dir ⟨false, p⟩ settings).2.node other = t.node other)

/-- What is to be made of the parent of the path starts at the same directory
from the current one, and a parent that is there is there from the current one,
if the path is missing all the same: then it ends in a `.`. -/
structure Alike (t : Files) (cwd base : List Name) (p : List (Comp Name)) : Prop where
  made : ∀ parent before x rest place, Path.parent ⟨false, p⟩ = some parent → parent.comps = before ++ .name x :: rest →
    walk t .anywhere base before = .ok place → t.node (place ++ [x]) = none → walk t .anywhere cwd before = .ok place
  there : ∀ parent place, Path.parent ⟨false, p⟩ = some parent → walk t .anywhere base parent.comps = .ok place →
    walk t .anywhere base p.dropLast = .error .enoent → ∃ node, statx t cwd parent = .ok node

/-- The path leads above the directory before anything of it is missing. -/
def Climbs (t : Files) (base : List Name) (p : List (Comp Name)) : Prop :=
  ∃ before after, p = before ++ .up :: after ∧ walk t (.beneath base) base before = .ok base

/-- When `open_at` agrees: the settings are refused, or the path has to stay
beneath the directory and does not, or it is a path that is looked up from
the same directories. -/
def Meets (t : Files) (cwd : List Name) (dir : Directory) (p : List (Comp Name)) (settings : IoFileOpenSettings) :
    Prop :=
  settings.isDir = true ∨ settings.how.valid = false ∨
    settings.how.beneath = true ∧ Climbs t dir.fd p ∨
    settings.how.beneath = false ∧ settings.how.inRoot = false ∧ p ≠ [] ∧
      (settings.mode ≠ .doNotCreate → Alike t cwd dir.fd p)

/-! ### One attempt -/

variable {t t' : Files} {cwd base : List Name} {path : Path Name} {settings : IoFileOpenSettings}
  {d p : List (Comp Name)}

theorem ofErrno_inj {e e' : Errno} (h : IoFileError.ofErrno e = IoFileError.ofErrno e') : e = e' := by
  revert h
  cases e <;> cases e' <;> decide

theorem how_creates {mode : IoFileSystemMode} (h : settings.mode = .create mode) : settings.how.creates = true := by
  rw [OpenHow.creates, IoFileOpenSettings.how, IoFileOpenSettings.asFlags, h, bne_iff_ne]
  intro hzero
  have hbit := congrArg (fun flags => flags.toNat.testBit 6) hzero
  have h6 : Nat.testBit 64 6 = true := by decide
  simp [IoFileCreateMode.asFlag, h6] at hbit

/-- The last attempt of `open` and `open_at`, whose error is theirs. -/
def attempt (t : Files) (base : List Name) (path : Path Name) (settings : IoFileOpenSettings) :
    Except FileOpenError File × Files :=
  match openUnchecked t base path settings with
  | (.ok file, t) => (.ok file, t)
  | (.error e, t) => (.error (.ioError e), t)

theorem attempt_eq (t : Files) (base : List Name) (path : Path Name) (settings : IoFileOpenSettings) :
    attempt t base path settings =
      match openat2 t base path settings.how with
      | .ok (fd, t) => (.ok ⟨fd, path⟩, t)
      | .error e => (.error (.ioError (.ofErrno e)), t) := by
  unfold attempt openUnchecked
  cases openat2 t base path settings.how <;> rfl

/-- Nothing has to be made. -/
theorem openIn_eq_attempt (hfile : settings.isDir = false)
    (h : openat2 t base path settings.how ≠ .error .enoent ∨ settings.mode = .doNotCreate ∨ path.parent = none) :
    openIn t cwd base path settings = attempt t base path settings := by
  rw [attempt_eq]
  unfold openIn openUnchecked
  rw [hfile, if_neg Bool.false_ne_true]
  cases hopen : openat2 t base path settings.how with
  | ok opened => rfl
  | error e =>
    dsimp only
    split
    · rename_i hmissing
      have he : e = .enoent := by
        revert hmissing
        cases e <;> decide
      obtain hne | hmode | hparent := h
      · exact absurd (by rw [hopen, he]) hne
      · rw [hmode]
      · split
        · rw [hparent]
        · rfl
    · rfl

/-- The second attempt, or the error of the parent. -/
def attemptMade (base : List Name) (path : Path Name) (settings : IoFileOpenSettings) :
    Except MkdirError Unit × Files → Except FileOpenError File × Files
  | (.ok (), t) => attempt t base path settings
  | (.error e, t) => (.error (.failedToCreateDirectory e), t)

/-- The parent is made first. -/
theorem openIn_eq_made {mode : IoFileSystemMode} {parent : Path Name} (hfile : settings.isDir = false)
    (hmissing : openat2 t base path settings.how = .error .enoent) (hmode : settings.mode = .create mode)
    (hparent : path.parent = some parent) :
    openIn t cwd base path settings = attemptMade base path settings (Directory.mkdirRecursive t cwd parent mode) := by
  unfold openIn
  rw [hfile, if_neg Bool.false_ne_true, openUnchecked, hmissing]
  dsimp only
  rw [if_pos (by decide), hmode, hparent]
  rfl

theorem attempt_ne_failed (e : MkdirError) : (attempt t base path settings).1 ≠ .error (.failedToCreateDirectory e) := by
  rw [attempt_eq]
  split <;> simp

theorem attempt_isDir_iff (other : List Name) : (attempt t base path settings).2.IsDir other ↔ t.IsDir other := by
  rw [attempt_eq]
  split
  · rename_i hopen
    exact openat2_isDir_iff hopen other
  · exact Iff.rfl

/-- Without `..` only what is below the directory changes. -/
theorem attempt_outside (hup : .up ∉ p) {other : List Name} (hother : ¬ base <+: other) :
    (attempt t base ⟨false, p⟩ settings).2.node other = t.node other := by
  rw [attempt_eq]
  split
  · rename_i hopen
    obtain ⟨hbelow, hnode⟩ := openat2_eq_ok hup hopen
    exact hnode other fun heq => hother (heq ▸ hbelow)
  · rfl

/-- An attempt from the directory is one of the joined path. -/
theorem attempt_join {dir : Path Name} (habsolute : dir.absolute = true)
    (hdir : walk t .anywhere [] dir.comps = .ok base) (hp : p ≠ []) (hbeneath : settings.how.beneath = false)
    (hroot : settings.how.inRoot = false) :
    mapPath (fun path => (dir.join path).components) (attempt t base ⟨false, p⟩ settings).1 =
        mapPath Path.components (attempt t cwd (dir.join ⟨false, p⟩) settings).1 ∧
      (attempt t base ⟨false, p⟩ settings).2 = (attempt t cwd (dir.join ⟨false, p⟩) settings).2 := by
  rw [attempt_eq, attempt_eq, openat2_join habsolute hdir hp hbeneath hroot]
  split
  · exact ⟨rfl, rfl⟩
  · exact ⟨rfl, rfl⟩

theorem openIn_cases (cwd : List Name) (hfile : settings.isDir = false) :
    openIn t cwd base path settings = attempt t base path settings ∨
      ∃ mode parent, openat2 t base path settings.how = .error .enoent ∧ settings.mode = .create mode ∧
        path.parent = some parent := by
  by_cases hmissing : openat2 t base path settings.how = .error .enoent
  · cases hmode : settings.mode with
    | doNotCreate => exact .inl (openIn_eq_attempt hfile (.inr (.inl hmode)))
    | create mode =>
      cases hparent : path.parent with
      | none => exact .inl (openIn_eq_attempt hfile (.inr (.inr hparent)))
      | some parent => exact .inr ⟨mode, parent, hmissing, rfl, rfl⟩
  · exact .inl (openIn_eq_attempt hfile (.inl hmissing))

/-- What the parent was made of stays. -/
theorem openIn_isDir_iff {mode : IoFileSystemMode} {parent : Path Name} {r : Except MkdirError Unit}
    (hfile : settings.isDir = false) (hmissing : openat2 t base path settings.how = .error .enoent)
    (hmode : settings.mode = .create mode) (hparent : path.parent = some parent)
    (hrec : Directory.mkdirRecursive t cwd parent mode = (r, t')) (other : List Name) :
    (openIn t cwd base path settings).2.IsDir other ↔ t'.IsDir other := by
  rw [openIn_eq_made hfile hmissing hmode hparent, hrec]
  cases r with
  | ok u => exact attempt_isDir_iff other
  | error e => exact Iff.rfl

/-- A parent that was made leaves a directory that there was not. -/
theorem openIn_made (cwd : t.Dir) {mode : IoFileSystemMode} {parent : Path Name} (hfile : settings.isDir = false)
    (hmissing : openat2 t base path settings.how = .error .enoent) (hmode : settings.mode = .create mode)
    (hparent : path.parent = some parent) :
    (∃ e, openIn t cwd base path settings = (.error (.failedToCreateDirectory e), t)) ∨
      ∃ place, (openIn t cwd base path settings).2.IsDir place ∧ ¬ t.IsDir place := by
  obtain ⟨before, x, rest, place, t', -, -, hnone, hmade, hrec⟩ | ⟨-, hrec⟩ | ⟨e, hrec⟩ :=
    Directory.mkdirRecursive_cases mode (isDir_start cwd parent) (Path.parent_trimmed hparent)
  · obtain ⟨hdir', hdir⟩ := (hmade.isDir_iff hnone (place ++ [x])).mpr ⟨⟨[x], rfl⟩, by simp, ⟨names rest, by simp⟩⟩
    exact .inr ⟨place ++ [x], (openIn_isDir_iff hfile hmissing hmode hparent hrec _).mpr hdir', hdir⟩
  · rw [openIn_eq_made hfile hmissing hmode hparent, hrec]
    exact .inl ⟨_, rfl⟩
  · rw [openIn_eq_made hfile hmissing hmode hparent, hrec]
    exact .inl ⟨_, rfl⟩

/-! ### When the two agree -/

section Agreement

variable (cwd : t.Dir) (dir : Directory.OpenAt t)

theorem agrees_of_isDir (h : settings.isDir = true) : Agrees t cwd dir.1 p settings := by
  refine ⟨?_, ?_, fun _ other _ => ?_⟩
  · simp [openAt, «open», openIn, h, mapPath, FileOpenError.mapPath]
  · simp [openAt, «open», openIn, h]
  · simp [openAt, openIn, h]

/-- Both are attempts that leave the files as they are. -/
theorem agrees_of_error {e : Errno} (hfile : settings.isDir = false) (he : e ≠ .enoent)
    (hat : openat2 t dir.1.fd ⟨false, p⟩ settings.how = .error e)
    (hopen : openat2 t cwd (dir.1.path.join ⟨false, p⟩) settings.how = .error e) : Agrees t cwd dir.1 p settings := by
  have hne : (.error e : Opened Name (List UInt8)) ≠ .error .enoent := fun h => he (Except.error.inj h)
  rw [Agrees, openAt, «open», openIn_eq_attempt hfile (.inl (by rw [hat]; exact hne)),
    openIn_eq_attempt hfile (.inl (by rw [hopen]; exact hne)), attempt_eq, attempt_eq, hat, hopen]
  exact ⟨rfl, rfl, fun _ _ _ => rfl⟩

/-- A joined path is absolute, and has to stay beneath nothing. -/
theorem agrees_beneath_iff (hfile : settings.isDir = false) (hvalid : settings.how.valid = true)
    (hbeneath : settings.how.beneath = true) : Agrees t cwd dir.1 p settings ↔ Climbs t dir.1.fd p := by
  have habsolute : (dir.1.path.join ⟨false, p⟩).absolute = true := by simp [Path.join, dir.2.1]
  have hopen : openat2 t cwd (dir.1.path.join ⟨false, p⟩) settings.how = .error .exdev := by
    rw [openat2_beneath hvalid (by simp [Path.isEmpty, habsolute]) hbeneath, habsolute]
    rfl
  have hexdev : openat2 t dir.1.fd ⟨false, p⟩ settings.how = .error .exdev ↔ Climbs t dir.1.fd p := by
    by_cases hp : p = []
    · obtain rfl := hp
      rw [openat2_empty hvalid]
      refine iff_of_false (by simp) ?_
      rintro ⟨before, after, heq, -⟩
      simp at heq
    · rw [openat2_beneath hvalid (by simp [Path.isEmpty, hp]) hbeneath]
      exact openFrom_eq_exdev
  rw [← hexdev]
  constructor
  · rintro ⟨hresult, htree, -⟩
    have hjoined : «open» t cwd (dir.1.path.join ⟨false, p⟩) settings =
        (.error (.ioError (.ofErrno .exdev)), t) := by
      rw [«open», openIn_eq_attempt hfile (.inl (by simp [hopen])), attempt_eq, hopen]
    rw [hjoined] at hresult htree
    obtain hattempt | ⟨mode, parent, hmissing, hmode, hparent⟩ :=
      @openIn_cases t dir.1.fd ⟨false, p⟩ settings cwd hfile
    · rw [openAt, hattempt, attempt_eq] at hresult
      split at hresult
      · cases hresult
      · rename_i e he
        rw [he, ofErrno_inj (FileOpenError.ioError.inj (Except.error.inj hresult))]
    · obtain ⟨e, hfailed⟩ | ⟨place, hdir', hdir⟩ := openIn_made cwd hfile hmissing hmode hparent
      · rw [openAt, hfailed] at hresult
        cases Except.error.inj hresult
      · rw [← openAt, htree] at hdir'
        exact absurd hdir' hdir
  · exact fun h => agrees_of_error cwd dir hfile (by simp) h hopen

/-- The empty path leads nowhere, and the joined one to the directory. -/
theorem not_agrees_nil (hfile : settings.isDir = false) (hvalid : settings.how.valid = true)
    (hbeneath : settings.how.beneath = false) (hroot : settings.how.inRoot = false) :
    ¬ Agrees t cwd dir.1 [] settings := by
  rintro ⟨hresult, -, -⟩
  have hat : openAt t cwd dir.1 ⟨false, []⟩ settings = (.error (.ioError (.ofErrno .enoent)), t) := by
    rw [openAt, openIn_eq_attempt hfile (.inr (.inr rfl)), attempt_eq, openat2_empty hvalid]
  have hjoin : dir.1.path.join ⟨false, []⟩ = ⟨true, dir.1.path.comps⟩ := by simp [Path.join, dir.2.1]
  have hne : openat2 t cwd ⟨true, dir.1.path.comps⟩ settings.how ≠ .error .enoent := by
    rw [openat2_anywhere hvalid rfl hbeneath hroot]
    exact openFrom_of_walk dir.2.2
  rw [hat, hjoin, «open», openIn_eq_attempt hfile (.inl hne), attempt_eq] at hresult
  split at hresult
  · cases hresult
  · rename_i e he
    rw [he] at hne
    rw [ofErrno_inj (FileOpenError.ioError.inj (Except.error.inj hresult))] at hne
    exact hne rfl

/-- A path of `.`s is not missing, and another has a parent. -/
theorem exists_parent_of_missing {base : List Name} (h : walk t .anywhere base p.dropLast = .error .enoent) :
    ∃ parent, Path.parent ⟨false, p⟩ = some parent := by
  obtain hdots | ⟨q, last, dots, rfl, hlast, hdots⟩ := Path.dots_or_last p
  · have hwalk := @walk_dots _ _ _ t .anywhere base [] p.dropLast fun comp hcomp =>
      hdots comp (List.mem_of_mem_dropLast hcomp)
    rw [List.nil_append, h] at hwalk
    cases hwalk
  · exact ⟨_, Path.parent_dots false q hlast hdots⟩

/-- The parents of a path and of the joined one lead as far. -/
theorem parent_join {parent : Path Name} (h : Path.parent ⟨false, p⟩ = some parent)
    (hmissing : walk t .anywhere dir.1.fd p.dropLast = .error .enoent) :
    ∃ q, parent = ⟨false, Path.trimmed false q⟩ ∧
      (dir.1.path.join ⟨false, p⟩).parent = some ⟨true, Path.trimmed true (dir.1.path.comps ++ q)⟩ := by
  obtain hdots | ⟨q, last, dots, rfl, hlast, hdots⟩ := Path.dots_or_last p
  · -- A path of `.`s is not missing.
    have hwalk := @walk_dots _ _ _ t .anywhere dir.1.fd [] p.dropLast fun comp hcomp =>
      hdots comp (List.mem_of_mem_dropLast hcomp)
    rw [List.nil_append, hmissing] at hwalk
    cases hwalk
  · have hjoin : dir.1.path.join ⟨false, q ++ last :: dots⟩ = ⟨true, (dir.1.path.comps ++ q) ++ last :: dots⟩ := by
      simp [Path.join, dir.2.1]
    rw [Path.parent_dots false q hlast hdots] at h
    exact ⟨q, (Option.some.inj h).symm, by rw [hjoin, Path.parent_dots true _ hlast hdots]⟩

/-- The parent of the joined path, of one that is missing from `x` on. -/
theorem parent_join_missing {parent : Path Name} {before rest : List (Comp Name)} {x : Name}
    (h : Path.parent ⟨false, p⟩ = some parent) (hmissing : walk t .anywhere dir.1.fd p.dropLast = .error .enoent)
    (hcomps : parent.comps = before ++ .name x :: rest) :
    rest.rdropWhile Comp.isCur = rest ∧ Path.parent ⟨false, p⟩ = some ⟨false, before ++ .name x :: rest⟩ ∧
      (dir.1.path.join ⟨false, p⟩).parent = some ⟨true, dir.1.path.comps ++ before ++ .name x :: rest⟩ := by
  obtain ⟨q, rfl, hjoin⟩ := parent_join dir h hmissing
  dsimp only at hcomps
  obtain ⟨dots, -, hq⟩ := Path.exists_dots false q
  rw [hcomps, List.append_assoc, List.cons_append] at hq
  have hcut : (rest ++ dots).rdropWhile Comp.isCur = rest := by
    have htrimmed := Path.trimmed_name false before (rest ++ dots) x
    rw [← hq, hcomps] at htrimmed
    exact (List.cons.inj (List.append_cancel_left htrimmed)).2.symm
  refine ⟨?_, hcomps ▸ h, ?_⟩
  · rw [← hcut, List.rdropWhile_idempotent]
  · rw [hjoin, hq, ← List.append_assoc, Path.trimmed_name, hcut]

theorem mapPath_eq_failed {f : Path Name → Path Name} {r : Except FileOpenError File} {e : MkdirError}
    (h : mapPath f r = .error (.failedToCreateDirectory e)) :
    ∃ e', r = .error (.failedToCreateDirectory e') ∧ e'.mapPath f = e := by
  cases r with
  | ok file => cases h
  | error e' =>
    cases e' with
    | failedToCreateDirectory e' => exact ⟨e', rfl, FileOpenError.failedToCreateDirectory.inj (Except.error.inj h)⟩
    | invalidFileOpenSettings settings' => cases h
    | ioError e' => cases h

theorem mapPath_attempt_ne_failed (f : Path Name → Path Name) (e : MkdirError) :
    mapPath f (attempt t base path settings).1 ≠ .error (.failedToCreateDirectory e) := by
  intro h
  obtain ⟨e', he', -⟩ := mapPath_eq_failed h
  exact attempt_ne_failed e' he'

/-- How many components of a parent that was missing from `x` on count, up to its
first `..`. -/
def upTo (before : List (Comp Name)) (x : Name) (rest : List (Comp Name)) : Option ℕ :=
  (toUp rest).map fun through => ((before ++ .name x :: through).filter (!·.isCur)).length

/-- Openings with the same result stop at the same `..`. -/
theorem upTo_eq_of_attemptMade {before before' rest rest' : List (Comp Name)} {x : Name} {tA tB : Files}
    {baseA baseB : List Name} {pathA pathB d : Path Name} (habsolute : d.absolute = true)
    (hresult : mapPath (fun path => (d.join path).components)
        (attemptMade baseA pathA settings (Directory.outcome false before' x rest', tA)).1 =
      mapPath Path.components
        (attemptMade baseB pathB settings (Directory.outcome true (d.comps ++ before) x rest, tB)).1) :
    upTo before x rest = upTo before' x rest' := by
  unfold upTo
  unfold Directory.outcome at hresult
  cases hup : toUp rest with
  | none =>
    cases hup' : toUp rest' with
    | none => rfl
    | some through' =>
      rw [hup, hup'] at hresult
      exact absurd hresult.symm (mapPath_attempt_ne_failed _ _)
  | some through =>
    cases hup' : toUp rest' with
    | none =>
      rw [hup, hup'] at hresult
      exact absurd hresult (mapPath_attempt_ne_failed _ _)
    | some through' =>
      rw [hup, hup'] at hresult
      have hpath := MkdirError.failedToRetrieveDescriptorType.inj
        (FileOpenError.failedToCreateDirectory.inj (Except.error.inj hresult))
      have hcount := congrArg (fun path => path.comps.length) hpath
      simp only [Path.join, habsolute, if_neg Bool.false_ne_true, Path.components_absolute, List.append_assoc,
        List.filter_append, List.length_append, Nat.add_left_cancel_iff] at hcount
      simp only [Option.map_some, List.filter_append, List.length_append, hcount]

/-- A missing name that comes later leaves fewer names to make, or a `..` that is
further on. -/
theorem upTo_lt {before mid rest : List (Comp Name)} {x : Name}
    (hnames : names rest = names (mid ++ .name x :: rest)) :
    upTo (before ++ .name x :: mid) x rest ≠ upTo before x (mid ++ .name x :: rest) := by
  unfold upTo
  rw [toUp_append]
  cases hup : toUp mid with
  | none =>
    have hlen := congrArg List.length hnames
    rw [names_append hup] at hlen
    simp only [names, List.length_append, List.length_cons] at hlen
    omega
  | some through =>
    cases toUp rest with
    | none => simp
    | some through' =>
      have hle := ((toUp_isPrefix hup).filter (!·.isCur)).length_le
      simp only [Option.map_some, Option.some_or, List.filter_append, List.filter_cons_of_pos, Comp.isCur_name,
        Bool.not_false, List.length_append, List.length_cons, List.append_assoc, List.cons_append, ne_eq,
        Option.some.injEq]
      omega

theorem before_eq_of_upTo {before before' rest rest' : List (Comp Name)} {x : Name}
    (hcomps : before ++ .name x :: rest = before' ++ .name x :: rest') (hnames : names rest' = names rest)
    (hup : upTo before x rest = upTo before' x rest') : before' = before := by
  obtain ⟨mid, hbefore, hrest⟩ | ⟨mid, hbefore, hrest⟩ := List.append_eq_append_iff.mp hcomps
  · cases mid with
    | nil => rw [hbefore, List.append_nil]
    | cons comp mid =>
      obtain ⟨rfl, rfl⟩ := List.cons.inj hrest
      rw [hbefore] at hup
      exact absurd hup.symm (upTo_lt hnames)
  · cases mid with
    | nil => rw [hbefore, List.append_nil]
    | cons comp mid =>
      obtain ⟨rfl, rfl⟩ := List.cons.inj hrest
      rw [hbefore] at hup
      exact absurd hup (upTo_lt hnames.symm)

/-- The path is missing if its parent or a name before a `.` is. -/
theorem openat2_eq_enoent {base : List Name} (hbase : t.IsDir base) (hvalid : settings.how.valid = true)
    (hbeneath : settings.how.beneath = false) (hroot : settings.how.inRoot = false) {mode : IoFileSystemMode}
    (hmode : settings.mode = .create mode) (hp : p ≠ []) :
    openat2 t base ⟨false, p⟩ settings.how = .error .enoent ↔ walk t .anywhere base p.dropLast = .error .enoent := by
  obtain ⟨q, last, rfl⟩ := (List.eq_nil_or_concat p).resolve_left hp
  rw [List.concat_eq_append, List.dropLast_concat, openat2_anywhere hvalid (by simp [Path.isEmpty]) hbeneath hroot]
  exact openFrom_eq_enoent (how_creates hmode) hbase

/-- The parent that is made: the two agree if and only if what is before its
first missing name is the same directory from the current one. -/
theorem agrees_made_iff {mode : IoFileSystemMode} {parent : Path Name} {before rest : List (Comp Name)} {x : Name}
    {place : List Name} (hfile : settings.isDir = false) (hvalid : settings.how.valid = true)
    (hbeneath : settings.how.beneath = false) (hroot : settings.how.inRoot = false)
    (hmode : settings.mode = .create mode) (hp : p ≠ []) (hparent : Path.parent ⟨false, p⟩ = some parent)
    (hcomps : parent.comps = before ++ .name x :: rest) (hbefore : walk t .anywhere dir.1.fd before = .ok place)
    (hnone : t.node (place ++ [x]) = none) :
    Agrees t cwd dir.1 p settings ↔ walk t .anywhere cwd before = .ok place := by
  have hfd : t.IsDir dir.1.fd := isDir_walk t.isDir_root dir.2.2
  have hmissing : walk t .anywhere dir.1.fd p.dropLast = .error .enoent := by
    obtain ⟨more, hmore⟩ := Path.parent_prefix_dropLast hparent
    rw [← hmore, hcomps, List.append_assoc, List.cons_append]
    exact walk_missing hbefore hnone _
  have hat := (openat2_eq_enoent hfd hvalid hbeneath hroot hmode hp).mpr hmissing
  have hopen : openat2 t cwd (dir.1.path.join ⟨false, p⟩) settings.how = .error .enoent :=
    (openat2_join dir.2.1 dir.2.2 hp hbeneath hroot).trans hat
  obtain ⟨hrest, hparentA, hparentB⟩ := parent_join_missing dir hparent hmissing hcomps
  have hjoined : walk t .anywhere [] (dir.1.path.comps ++ before) = .ok place := (walk_append dir.2.2).trans hbefore
  obtain ⟨tB, hmadeB, hrecB⟩ := @Directory.mkdirRecursive_missing t cwd place true [] _ mode x t.isDir_root hjoined
    hnone rest
  rw [hrest] at hrecB
  constructor
  · rintro ⟨hresult, htree, -⟩
    have hdirsB := openIn_isDir_iff hfile hopen hmode hparentB hrecB
    obtain ⟨before', x', rest', place', tA, hcomps', hbefore', hnone', hmadeA, hrecA⟩ | ⟨-, hrecA⟩ | ⟨e, hrecA⟩ :=
      Directory.mkdirRecursive_cases mode (isDir_start cwd _) (Path.parent_trimmed hparentA)
    · -- Both have made something: the same directories, so the same names at the same place.
      have hdirsA := openIn_isDir_iff hfile hat hmode hparentA hrecA
      have hdirs (other : List Name) : tA.IsDir other ↔ tB.IsDir other := by
        rw [← hdirsA, ← hdirsB, ← «open», ← htree, openAt]
      obtain ⟨rfl, hnames⟩ := hmadeA.unique hnone' hmadeB hnone hdirs
      obtain ⟨rfl, hnames'⟩ := List.cons.inj hnames
      rw [openAt, «open», openIn_eq_made hfile hat hmode hparentA, openIn_eq_made hfile hopen hmode hparentB,
        hrecA, hrecB] at hresult
      rw [← before_eq_of_upTo hcomps' hnames' (upTo_eq_of_attemptMade dir.2.1 hresult)]
      exact hbefore'
    -- Nothing is made from the current directory.
    all_goals
      obtain ⟨hdir', hdir⟩ := (hmadeB.isDir_iff hnone (place ++ [x])).mpr ⟨⟨[x], rfl⟩, by simp, ⟨names rest, by simp⟩⟩
      rw [← hdirsB, ← «open», ← htree, openAt, openIn_eq_made hfile hat hmode hparentA, hrecA] at hdir'
      exact absurd hdir' hdir
  · intro hcwd
    obtain ⟨tA, hmadeA, hrecA⟩ := @Directory.mkdirRecursive_missing t cwd place false [] _ mode x cwd.2 hcwd hnone rest
    rw [hrest] at hrecA
    obtain rfl := hmadeA.eq hmadeB
    have hgrown := hmadeA.grown hnone
    rw [Agrees, openAt, «open», openIn_eq_made hfile hat hmode hparentA, openIn_eq_made hfile hopen hmode hparentB,
      hrecA, hrecB]
    have hmadeOutside (hup : .up ∉ p) {other : List Name} (hother : ¬ dir.1.fd <+: other) :
        tA.node other = t.node other := by
      have hsub : before ⊆ p := fun comp hcomp => by
        have hmem : comp ∈ parent.comps := hcomps ▸ List.mem_append_left _ hcomp
        exact List.mem_of_mem_dropLast ((Path.parent_prefix_dropLast hparent).subset hmem)
      have hbelow : dir.1.fd <+: place := walk_beneath (fun h => hup (hsub h)) hbefore
      exact hmadeA.node_eq fun h => hother (hbelow.trans h)
    unfold Directory.outcome
    cases toUp rest with
    | none =>
      obtain ⟨hresult, htree⟩ := @attempt_join tA cwd dir.1.fd settings _ dir.1.path dir.2.1
        (walk_grown hgrown dir.2.2) hp hbeneath hroot
      refine ⟨hresult, htree, fun hup other hother => ?_⟩
      rw [← hmadeOutside hup hother]
      exact attempt_outside hup hother
    | some through =>
      refine ⟨?_, rfl, fun hup other hother => hmadeOutside hup hother⟩
      simp [attemptMade, mapPath, FileOpenError.mapPath, MkdirError.mapPath, Path.join, dir.2.1]

/-- The parent that is there: the two agree if and only if something is there
from the current directory. -/
theorem agrees_there_iff {mode : IoFileSystemMode} {parent : Path Name} {place : List Name}
    (hfile : settings.isDir = false) (hvalid : settings.how.valid = true)
    (hbeneath : settings.how.beneath = false) (hroot : settings.how.inRoot = false)
    (hmode : settings.mode = .create mode) (hp : p ≠ []) (hparent : Path.parent ⟨false, p⟩ = some parent)
    (hthere : walk t .anywhere dir.1.fd parent.comps = .ok place)
    (hmissing : walk t .anywhere dir.1.fd p.dropLast = .error .enoent) :
    Agrees t cwd dir.1 p settings ↔ ∃ node, statx t cwd parent = .ok node := by
  have hfd : t.IsDir dir.1.fd := isDir_walk t.isDir_root dir.2.2
  have hat := (openat2_eq_enoent hfd hvalid hbeneath hroot hmode hp).mpr hmissing
  have hopen : openat2 t cwd (dir.1.path.join ⟨false, p⟩) settings.how = .error .enoent :=
    (openat2_join dir.2.1 dir.2.2 hp hbeneath hroot).trans hat
  obtain ⟨q, rfl, hparentB⟩ := parent_join dir hparent hmissing
  dsimp only at hthere
  rw [walk_trimmed] at hthere
  -- Of the parent of the joined path nothing is made.
  have hrecB : Directory.mkdirRecursive t cwd ⟨true, Path.trimmed true (dir.1.path.comps ++ q)⟩ mode =
      (.error (.failedToRetrieveDescriptorType ⟨true, Path.trimmed true (dir.1.path.comps ++ q)⟩), t) := by
    have hwalk : walk t .anywhere [] (Path.trimmed true (dir.1.path.comps ++ q)) = .ok place := by
      rw [walk_trimmed, walk_append dir.2.2]
      exact hthere
    obtain ⟨node, hnode⟩ := @exists_statx_of_walk _ _ _ t cwd place ⟨true, _⟩ t.isDir_root rfl hwalk
    exact Directory.mkdirRecursive_there mode t.isDir_root hnode
  have hpaths : (dir.1.path.join ⟨false, Path.trimmed false q⟩).components =
      Path.components ⟨true, Path.trimmed true (dir.1.path.comps ++ q)⟩ := by
    simp [Path.join, dir.2.1, Path.filter_trimmed]
  rw [Agrees, openAt, «open», openIn_eq_made hfile hat hmode hparent, openIn_eq_made hfile hopen hmode hparentB, hrecB]
  constructor
  · rintro ⟨hresult, htree, -⟩
    obtain ⟨before, x, rest, place', tA, -, -, hnone, hmade, hrecA⟩ | ⟨heexist, -⟩ | ⟨e, hrecA⟩ :=
      Directory.mkdirRecursive_cases mode (isDir_start cwd _) (Path.parent_trimmed hparent)
    · -- What is made from the current directory is not made from the root.
      have hsame (other : List Name) : t.IsDir other ↔ tA.IsDir other := by
        rw [← openIn_isDir_iff hfile hat hmode hparent hrecA, openIn_eq_made hfile hat hmode hparent, htree]
        rfl
      obtain ⟨hdir', hdir⟩ := (hmade.isDir_iff hnone (place' ++ [x])).mpr ⟨⟨[x], rfl⟩, by simp, ⟨names rest, by simp⟩⟩
      exact absurd ((hsame _).mpr hdir') hdir
    · exact exists_statx (isDir_start cwd _) heexist
    · rw [hrecA] at hresult
      cases FileOpenError.failedToCreateDirectory.inj (Except.error.inj hresult)
  · rintro ⟨node, hnode⟩
    rw [Directory.mkdirRecursive_there mode (isDir_start cwd _) hnode]
    refine ⟨?_, rfl, fun _ _ _ => rfl⟩
    simp [attemptMade, mapPath, FileOpenError.mapPath, MkdirError.mapPath, hpaths]

/-- Two attempts, when nothing has to be made. -/
theorem agrees_of_attempt (hfile : settings.isDir = false) (hbeneath : settings.how.beneath = false)
    (hroot : settings.how.inRoot = false) (hp : p ≠ [])
    (h : openat2 t dir.1.fd ⟨false, p⟩ settings.how ≠ .error .enoent ∨ settings.mode = .doNotCreate) :
    Agrees t cwd dir.1 p settings := by
  have hjoin : openat2 t cwd (dir.1.path.join ⟨false, p⟩) settings.how = openat2 t dir.1.fd ⟨false, p⟩ settings.how :=
    openat2_join dir.2.1 dir.2.2 hp hbeneath hroot
  rw [Agrees, openAt, «open», openIn_eq_attempt hfile (h.imp_right .inl),
    openIn_eq_attempt hfile (by rw [hjoin]; exact h.imp_right .inl)]
  obtain ⟨hresult, htree⟩ := @attempt_join t cwd dir.1.fd settings _ dir.1.path dir.2.1 dir.2.2 hp hbeneath hroot
  exact ⟨hresult, htree, fun hup other hother => attempt_outside hup hother⟩

/-- The paths that are looked up anywhere. -/
theorem agrees_anywhere_iff (hfile : settings.isDir = false) (hvalid : settings.how.valid = true)
    (hbeneath : settings.how.beneath = false) (hroot : settings.how.inRoot = false) (hp : p ≠ []) :
    Agrees t cwd dir.1 p settings ↔ (settings.mode ≠ .doNotCreate → Alike t cwd dir.1.fd p) := by
  cases hmode : settings.mode with
  | doNotCreate =>
    exact iff_of_true (agrees_of_attempt cwd dir hfile hbeneath hroot hp (.inr hmode)) fun h => absurd rfl h
  | create mode =>
    have hfd : t.IsDir dir.1.fd := isDir_walk t.isDir_root dir.2.2
    have hopen := openat2_eq_enoent hfd hvalid hbeneath hroot hmode hp
    constructor
    · intro hagrees _
      constructor
      · intro parent before x rest place hparent hcomps hbefore hnone
        exact (agrees_made_iff cwd dir hfile hvalid hbeneath hroot hmode hp hparent hcomps hbefore hnone).mp hagrees
      · intro parent place hparent hthere hmissing
        exact (agrees_there_iff cwd dir hfile hvalid hbeneath hroot hmode hp hparent hthere hmissing).mp hagrees
    · intro halike
      obtain ⟨hmade, hthere⟩ := halike (by simp)
      by_cases hmissing : walk t .anywhere dir.1.fd p.dropLast = .error .enoent
      · obtain ⟨parent, hparent⟩ := exists_parent_of_missing hmissing
        obtain ⟨more, hmore⟩ := Path.parent_prefix_dropLast hparent
        cases hwalk : walk t .anywhere dir.1.fd parent.comps with
        | ok place =>
          refine (agrees_there_iff cwd dir hfile hvalid hbeneath hroot hmode hp hparent hwalk hmissing).mpr ?_
          exact hthere parent place hparent hwalk hmissing
        | error e =>
          rw [← hmore, walk_append_error hwalk] at hmissing
          obtain ⟨before, x, rest, place, hcomps, hbefore, ⟨-, hnone⟩ | ⟨rfl, -⟩⟩ := exists_of_walk_error hwalk
          · refine (agrees_made_iff cwd dir hfile hvalid hbeneath hroot hmode hp hparent hcomps hbefore hnone).mpr ?_
            exact hmade parent before x rest place hparent hcomps hbefore hnone
          · cases hmissing
      · exact agrees_of_attempt cwd dir hfile hbeneath hroot hp (.inl (mt hopen.mp hmissing))

end Agreement

end File

end ClAsync
