/-
# Making directories

`Directory::mkdir` calls `mkdirat`, and when the path is there looks at it
with `statx`; `Directory::mkdir_recursive` makes the parent first when that
is missing. `mkdir` asks `statx` for `STATX_TYPE`, and `Stats::new` reads the
type of a descriptor only where the mask contains `STATX_TYPE | STATX_MODE`:
what is there has no type, and is an error whether it is a directory or not.

The files are a tree of places, changed by no one else meanwhile. An
operation reaches its worker, and a path has no NUL.

Key definitions: `mkdir`, `mkdirRecursive`.
Key theorems: `mkdirRecursive_missing`, what is made of a path that is
missing, `mkdirRecursive_unchanged`, of one that is not, and `never_correct`.
-/
import ClAsync.Lib.FileTree
import ClAsync.Io.Operation

namespace ClAsync

open FileTree

/-! ### Modes and types -/

/-- The bits of one of the three. -/
abbrev IoFileSystemPermissions := UInt32

namespace IoFileSystemPermissions

def execute : IoFileSystemPermissions := 1
def write : IoFileSystemPermissions := 2
def read : IoFileSystemPermissions := 4

/-- `READ` goes with `EXECUTE`. -/
def toDirectorySafe (permissions : IoFileSystemPermissions) : IoFileSystemPermissions :=
  if permissions &&& read = read then permissions ||| execute else permissions

end IoFileSystemPermissions

/-- `IoFileSystemMode`: of the user, of the group, of the others. -/
structure IoFileSystemMode where
  userPermissions : IoFileSystemPermissions
  groupPermissions : IoFileSystemPermissions
  otherPermissions : IoFileSystemPermissions
  deriving DecidableEq, Repr

namespace IoFileSystemMode

/-- `to_directory_safe`. -/
def toDirectorySafe (mode : IoFileSystemMode) : IoFileSystemMode :=
  ⟨mode.userPermissions.toDirectorySafe, mode.groupPermissions.toDirectorySafe,
    mode.otherPermissions.toDirectorySafe⟩

/-- `libc::mode_t::from`. -/
def toModeT (mode : IoFileSystemMode) : UInt32 :=
  mode.userPermissions <<< 6 ||| mode.groupPermissions <<< 3 ||| mode.otherPermissions

/-- `from(libc::mode_t)`. -/
def ofModeT (value : UInt32) : IoFileSystemMode :=
  ⟨value >>> 6 &&& 7, value >>> 3 &&& 7, value &&& 7⟩

end IoFileSystemMode

/-- The bits of `S_IFMT`. -/
abbrev IoFileDescriptorType := UInt32

/-- `S_IFDIR`. -/
def IoFileDescriptorType.directory : IoFileDescriptorType := 0x4000

/-- `from(libc::mode_t)`. -/
def IoFileDescriptorType.ofModeT (value : UInt32) : IoFileDescriptorType := value &&& 0xf000

/-- The bits of `IoStatxMask`. -/
abbrev IoStatxMask := UInt32

namespace IoStatxMask

def type : IoStatxMask := 1
def mode : IoStatxMask := 2
def typeOrMode : IoStatxMask := 1 ||| 2

/-- All the bits of `other` are in the mask. -/
def contains (mask other : IoStatxMask) : Bool := mask &&& other == other

end IoStatxMask

/-- `statx_mask!`: a field is there if it was asked for. -/
def statxMask {α : Type} (mask flag : IoStatxMask) (field : α) : Option α :=
  if mask.contains flag then some field else none

/-- The `descriptor_type` of `Stats::new`. -/
def IoFileDescriptorType.ofStatx (stxMode : UInt32) (mask : IoStatxMask) : Option IoFileDescriptorType :=
  statxMask mask .typeOrMode (.ofModeT stxMode)

/-! ### Errors -/

/-- The name of a file, in bytes. -/
abbrev Name := List UInt8

/-- Files by their names, with their contents. -/
abbrev Files := Tree Name (List UInt8)

/-- The `IoError` of an operation on files, whose failures have no data. -/
abbrev IoFileError := IoOperationError Empty

/-- The error of a call that returned `-errno`. -/
def IoFileError.ofErrno (e : Errno) : IoFileError := ⟨.generic, OsError.ofErrno e.code⟩

/-- `MkdirError`. -/
inductive MkdirError
  | ioError (e : IoFileError)
  | notADirectory
  | failedToRetrieveDescriptorType (path : Path Name)
  deriving DecidableEq, Repr

/-- `as_os_error`. -/
def MkdirError.asOsError : MkdirError → Option OsError
  | ioError e => some e.osError
  | notADirectory | failedToRetrieveDescriptorType _ => none

/-! ### The functions -/

/-- An open directory; `fd` is the place it refers to. -/
structure Directory where
  fd : List Name
  path : Path Name
  deriving DecidableEq, Repr

namespace Directory

/-- `Directory::mkdir`, from the current directory `cwd`. -/
def mkdir (t : Files) (cwd : List Name) (path : Path Name) (desiredMode : IoFileSystemMode) :
    Except MkdirError Unit × Files :=
  match mkdirat t cwd path desiredMode.toDirectorySafe.toModeT with
  | .ok t => (.ok (), t)
  | .error e =>
    let e := IoFileError.ofErrno e
    if e.osError = .alreadyExists then
      match statx t cwd path with
      | .error e => (.error (.ioError (.ofErrno e)), t)
      | .ok node =>
        match IoFileDescriptorType.ofStatx node.stxMode .type with
        | some descriptorType =>
          if descriptorType = .directory then (.ok (), t) else (.error .notADirectory, t)
        | none => (.error (.failedToRetrieveDescriptorType path), t)
    else (.error (.ioError e), t)

/-- `Directory::mkdir_recursive`. -/
def mkdirRecursive (t : Files) (cwd : List Name) (path : Path Name) (desiredMode : IoFileSystemMode) :
    Except MkdirError Unit × Files :=
  match mkdir t cwd path desiredMode with
  | (.ok (), t) => (.ok (), t)
  | (.error e, t) =>
    if e.asOsError = some .notFound then
      match _hparent : path.parent with
      | some parent =>
        if parent = path ∨ parent.isEmpty then (.error e, t)
        else
          match mkdirRecursive t cwd parent desiredMode with
          | (.ok (), t) => mkdir t cwd path desiredMode
          | (.error e, t) => (.error e, t)
      | none => (.error e, t)
    else (.error e, t)
termination_by path.comps.length
decreasing_by exact Path.length_parent_lt _hparent

/-! ### One directory -/

variable {t t' : Files} {cwd place : List Name} {path : Path Name} {absolute : Bool} {comps before : List (Comp Name)}
  {mode : IoFileSystemMode}

theorem mkdir_eq_ok (h : mkdirat t cwd path mode.toDirectorySafe.toModeT = .ok t') :
    mkdir t cwd path mode = (.ok (), t') := by
  unfold mkdir
  rw [h]

theorem mkdir_eq_error {e : Errno} (h : mkdirat t cwd path mode.toDirectorySafe.toModeT = .error e)
    (hne : e ≠ .eexist) : mkdir t cwd path mode = (.error (.ioError (.ofErrno e)), t) := by
  unfold mkdir
  rw [h]
  cases e with
  | eexist => exact absurd rfl hne
  | _ => rfl

/-- What is there has no type. -/
theorem mkdir_eq_failed (hdir : t.IsDir (path.start cwd))
    (h : mkdirat t cwd path mode.toDirectorySafe.toModeT = .error .eexist) :
    mkdir t cwd path mode = (.error (.failedToRetrieveDescriptorType path), t) := by
  obtain ⟨node, hnode⟩ := exists_statx hdir h
  unfold mkdir
  rw [h]
  dsimp only
  rw [if_pos (by decide), hnode]
  rfl

/-! ### The recursion -/

theorem mkdirRecursive_eq_ok (h : mkdirat t cwd path mode.toDirectorySafe.toModeT = .ok t') :
    mkdirRecursive t cwd path mode = (.ok (), t') := by
  rw [mkdirRecursive, mkdir_eq_ok h]

theorem mkdirRecursive_eq_error {e : MkdirError} (h : mkdir t cwd path mode = (.error e, t'))
    (hne : e.asOsError ≠ some .notFound) : mkdirRecursive t cwd path mode = (.error e, t') := by
  rw [mkdirRecursive, h]
  exact if_neg hne

/-- The parent is made, and then the path once more. -/
theorem mkdirRecursive_eq_parent {parent : Path Name}
    (h : mkdirat t cwd path mode.toDirectorySafe.toModeT = .error .enoent) (hparent : path.parent = some parent)
    (hne : parent.isEmpty = false) :
    mkdirRecursive t cwd path mode =
      match mkdirRecursive t cwd parent mode with
      | (.ok (), t) => mkdir t cwd path mode
      | (.error e, t) => (.error e, t) := by
  have hgo : ¬ (parent = path ∨ parent.isEmpty = true) := by
    rintro (rfl | hempty)
    · exact absurd (Path.length_parent_lt hparent) (lt_irrefl _)
    · exact Bool.false_ne_true (hne.symm.trans hempty)
  rw [mkdirRecursive, mkdir_eq_error h (by decide)]
  dsimp only
  rw [if_pos (by decide)]
  split
  · rename_i parent' hparent'
    obtain rfl := Option.some.inj (hparent.symm.trans hparent')
    rw [if_neg hgo]
  · rename_i hparent'
    rw [hparent] at hparent'
    cases hparent'

/-- What does not end in a name is never said to be made. -/
theorem mkdir_ne_ok {last : Comp Name} (hlast : ∀ n, last ≠ .name n) :
    (mkdir t cwd ⟨absolute, comps ++ [last]⟩ mode).1 ≠ .ok () := by
  have herror : ∃ e, mkdirat t cwd ⟨absolute, comps ++ [last]⟩ mode.toDirectorySafe.toModeT = .error e := by
    rw [mkdirat_concat]
    cases walk t .anywhere (Path.start cwd ⟨absolute, comps⟩) comps with
    | error e => exact ⟨e, rfl⟩
    | ok place =>
      cases last with
      | name n => exact absurd rfl (hlast n)
      | cur | up => exact ⟨_, rfl⟩
  obtain ⟨e, herror⟩ := herror
  unfold mkdir
  rw [herror]
  dsimp only
  split
  · cases statx t cwd ⟨absolute, comps ++ [last]⟩ <;> exact fun h => by cases h
  · exact fun h => by cases h

theorem mkdirRecursive_ne_ok {last : Comp Name} (hlast : ∀ n, last ≠ .name n) :
    (mkdirRecursive t cwd ⟨absolute, comps ++ [last]⟩ mode).1 ≠ .ok () := by
  have hnever (t : Files) : (mkdir t cwd ⟨absolute, comps ++ [last]⟩ mode).1 ≠ .ok () := mkdir_ne_ok hlast
  rw [mkdirRecursive]
  split
  · rename_i hok
    exact absurd (congrArg Prod.fst hok) (hnever t)
  · split
    · split
      · split
        · exact fun h => by cases h
        · split
          · exact hnever _
          · exact fun h => by cases h
      · exact fun h => by cases h
    · exact fun h => by cases h

/-- What is said of a path that was missing: that it is there, or that the
first `..` after what was made has no type. -/
def outcome (absolute : Bool) (before : List (Comp Name)) (x : Name) (rest : List (Comp Name)) :
    Except MkdirError Unit :=
  match toUp rest with
  | none => .ok ()
  | some through => .error (.failedToRetrieveDescriptorType ⟨absolute, before ++ .name x :: through⟩)

/-- A path does not go past its first `..`. -/
theorem outcome_append (absolute : Bool) (before : List (Comp Name)) (x : Name) {rest through : List (Comp Name)}
    (h : toUp rest = some through) (rest' : List (Comp Name)) :
    outcome absolute before x (rest ++ rest') = outcome absolute before x rest ∧
      ∃ e, outcome absolute before x rest = .error e := by
  rw [outcome, outcome, toUp_append, h]
  exact ⟨rfl, _, rfl⟩

/-- Of a path whose name `x` is missing, `x` and the names after it are made, up
to a `..`. -/
theorem mkdirRecursive_missing (mode : IoFileSystemMode) {x : Name}
    (hdir : t.IsDir (Path.start cwd ⟨absolute, comps⟩))
    (hbefore : walk t .anywhere (Path.start cwd ⟨absolute, comps⟩) before = .ok place)
    (hnone : t.node (place ++ [x]) = none) (rest : List (Comp Name)) :
    ∃ t', Made t t' mode.toDirectorySafe.toModeT place (x :: names rest) ∧
      mkdirRecursive t cwd ⟨absolute, before ++ .name x :: rest.rdropWhile Comp.isCur⟩ mode =
        (outcome absolute before x rest, t') := by
  have hplace : t.IsDir place := isDir_walk hdir hbefore
  have hbefore' : walk t .anywhere (Path.start cwd ⟨absolute, before⟩) before = .ok place := hbefore
  induction rest using List.reverseRecOn with
  | nil =>
    obtain ⟨t', ht'⟩ := exists_create (.dir mode.toDirectorySafe.toModeT) hplace hnone
    refine ⟨t', ?_, ?_⟩
    · have hmade := made_nil.snoc (t := t) (by rwa [List.append_nil])
      exact hmade
    · refine mkdirRecursive_eq_ok ?_
      show mkdirat t cwd ⟨absolute, before ++ [.name x]⟩ _ = _
      rw [mkdirat_concat, hbefore']
      exact ht'
  | append_singleton rest last ih =>
    obtain ⟨made, hmade, hrec⟩ := ih
    -- A `.` at the end is as if it were not there.
    cases hcur : last.isCur with
    | true =>
      obtain rfl : last = .cur := by
        cases last with
        | cur => rfl
        | up | name => cases hcur
      rw [List.rdropWhile_concat_pos _ _ _ hcur]
      have hsame : names (rest ++ [.cur]) = names rest ∧
          outcome absolute before x (rest ++ [.cur]) = outcome absolute before x rest := by
        cases hup : toUp rest with
        | none =>
          refine ⟨(names_append hup _).trans (List.append_nil _), ?_⟩
          rw [outcome, outcome, toUp_append, hup]
          rfl
        | some through => exact ⟨names_append_of_some hup _, (outcome_append absolute before x hup _).1⟩
      rw [hsame.1, hsame.2]
      exact ⟨made, hmade, hrec⟩
    | false =>
      rw [List.rdropWhile_concat_neg _ _ _ (Bool.eq_false_iff.mp hcur), ← List.cons_append, ← List.append_assoc]
      have hmissing : mkdirat t cwd ⟨absolute, (before ++ .name x :: rest) ++ [last]⟩
          mode.toDirectorySafe.toModeT = .error .enoent := by
        rw [mkdirat_concat]
        have hwalk := walk_missing hbefore' hnone rest
        rw [show Path.start cwd ⟨absolute, before ++ .name x :: rest⟩ = Path.start cwd ⟨absolute, before⟩ from rfl,
          hwalk]
      have hparent := @Path.parent_dots _ absolute (before ++ .name x :: rest) last hcur []
        fun comp hcomp => by cases hcomp
      rw [Path.trimmed_name] at hparent
      rw [mkdirRecursive_eq_parent hmissing hparent (by simp [Path.isEmpty]), hrec]
      cases hup : toUp rest with
      | some through =>
        -- The error of the parent is that of the path.
        obtain ⟨hsame, e, he⟩ := outcome_append absolute before x hup [last]
        exact ⟨made, by rwa [names_append_of_some hup], by rw [hsame, he]⟩
      | none =>
        -- Everything up to the parent is there now.
        have hwalk : walk made .anywhere (Path.start cwd ⟨absolute, before⟩) (before ++ .name x :: rest) =
            .ok (place ++ x :: names rest) := by
          have hup' : toUp (.name x :: rest) = none := by
            rw [toUp, hup]
            rfl
          rw [walk_append (walk_grown (hmade.grown hnone) hbefore'), walk_names hup']
          exact hmade.walk .anywhere
        have hdone : outcome absolute before x rest = .ok () := by rw [outcome, hup]
        have hstart : made.IsDir (Path.start cwd ⟨absolute, before⟩) := (hmade.grown hnone).isDir hdir
        have hsame : Path.start cwd ⟨absolute, before ++ .name x :: rest⟩ = Path.start cwd ⟨absolute, before⟩ := rfl
        rw [hdone, names_append hup, outcome, toUp_append, hup]
        cases last with
        | cur => cases hcur
        | name n =>
          obtain ⟨t', ht'⟩ := exists_create (.dir mode.toDirectorySafe.toModeT) (isDir_walk hstart hwalk)
            (hmade.node_snoc hnone n)
          refine ⟨t', hmade.snoc ht', mkdir_eq_ok ?_⟩
          rw [mkdirat_concat, hsame, hwalk]
          exact ht'
        | up =>
          refine ⟨made, by simpa [names] using hmade, ?_⟩
          dsimp only
          rw [mkdir_eq_failed (by exact hstart)
            (mkdirat_of_walk (fun n heq => by cases heq) (hsame ▸ hwalk))]
          simp [toUp]

/-- What is there has no type, and stays. -/
theorem mkdirRecursive_there (mode : IoFileSystemMode) {node : Node (List UInt8)} (hdir : t.IsDir (path.start cwd))
    (h : statx t cwd path = .ok node) :
    mkdirRecursive t cwd path mode = (.error (.failedToRetrieveDescriptorType path), t) :=
  mkdirRecursive_eq_error (mkdir_eq_failed hdir (mkdirat_of_statx h)) (by simp [MkdirError.asOsError])

/-- Of a path that is not missing nothing is made, and there is an error: that
what is there has no type, or that of a call. -/
theorem mkdirRecursive_unchanged (mode : IoFileSystemMode) (hdir : t.IsDir (path.start cwd))
    (hthere : walk t .anywhere (path.start cwd) path.comps ≠ .error .enoent) :
    mkdirat t cwd path mode.toDirectorySafe.toModeT = .error .eexist ∧
        mkdirRecursive t cwd path mode = (.error (.failedToRetrieveDescriptorType path), t) ∨
      ∃ e, mkdirRecursive t cwd path mode = (.error (.ioError e), t) := by
  obtain ⟨absolute, comps⟩ := path
  have hexists (h : mkdirat t cwd ⟨absolute, comps⟩ mode.toDirectorySafe.toModeT = .error .eexist) :
      mkdirRecursive t cwd ⟨absolute, comps⟩ mode = (.error (.failedToRetrieveDescriptorType ⟨absolute, comps⟩), t) :=
    mkdirRecursive_eq_error (mkdir_eq_failed hdir h) (by simp [MkdirError.asOsError])
  rcases List.eq_nil_or_concat comps with rfl | ⟨comps, last, rfl⟩
  · cases absolute with
    | true => exact .inl ⟨rfl, hexists rfl⟩
    | false =>
      refine .inr ⟨.ofErrno .enoent, ?_⟩
      rw [mkdirRecursive, mkdir_eq_error rfl (by decide)]
      rfl
  · rw [List.concat_eq_append] at hdir hthere hexists ⊢
    have hstart : Path.start cwd ⟨absolute, comps ++ [last]⟩ = Path.start cwd ⟨absolute, comps⟩ := rfl
    dsimp only at hthere
    rw [hstart] at hthere
    cases hwalk : walk t .anywhere (Path.start cwd ⟨absolute, comps⟩) comps with
    | error e =>
      -- The parent is not a directory.
      have hne : e ≠ .enoent := by
        rintro rfl
        exact hthere (walk_append_error hwalk)
      obtain ⟨_, _, _, _, _, _, ⟨rfl, -⟩ | ⟨rfl, -⟩⟩ := exists_of_walk_error hwalk
      · exact absurd rfl hne
      · refine .inr ⟨.ofErrno .enotdir, ?_⟩
        refine mkdirRecursive_eq_error (mkdir_eq_error ?_ (by decide)) (by decide)
        rw [mkdirat_concat, hwalk]
    | ok place =>
      have heexist : mkdirat t cwd ⟨absolute, comps ++ [last]⟩ mode.toDirectorySafe.toModeT = .error .eexist := by
        by_cases hname : ∃ n, last = .name n
        · obtain ⟨n, rfl⟩ := hname
          rw [mkdirat_concat, hwalk]
          refine dif_neg fun hnone => hthere ?_
          rw [walk_append hwalk, walk, hnone]
        · exact mkdirat_of_walk (fun n heq => hname ⟨n, heq⟩) hwalk
      exact .inl ⟨heexist, hexists heexist⟩

theorem exists_error_of_unchanged (mode : IoFileSystemMode) (hdir : t.IsDir (path.start cwd))
    (hthere : walk t .anywhere (path.start cwd) path.comps ≠ .error .enoent) :
    ∃ e, e ≠ .notADirectory ∧ mkdirRecursive t cwd path mode = (.error e, t) := by
  obtain ⟨-, hrec⟩ | ⟨e, hrec⟩ := mkdirRecursive_unchanged mode hdir hthere
  · exact ⟨.failedToRetrieveDescriptorType path, by simp, hrec⟩
  · exact ⟨.ioError e, by simp, hrec⟩

/-- A path without `.`s at its end is missing from some name on, or nothing is
made of it. -/
theorem mkdirRecursive_cases (mode : IoFileSystemMode) (hdir : t.IsDir (path.start cwd))
    (hpath : Path.trimmed path.absolute path.comps = path.comps) :
    (∃ before x rest place t', path.comps = before ++ .name x :: rest ∧
        walk t .anywhere (path.start cwd) before = .ok place ∧ t.node (place ++ [x]) = none ∧
        Made t t' mode.toDirectorySafe.toModeT place (x :: names rest) ∧
        mkdirRecursive t cwd path mode = (outcome path.absolute before x rest, t')) ∨
      mkdirat t cwd path mode.toDirectorySafe.toModeT = .error .eexist ∧
        mkdirRecursive t cwd path mode = (.error (.failedToRetrieveDescriptorType path), t) ∨
      ∃ e, mkdirRecursive t cwd path mode = (.error (.ioError e), t) := by
  by_cases hwalk : walk t .anywhere (path.start cwd) path.comps = .error .enoent
  · left
    obtain ⟨before, x, rest, place, hcomps, hbefore, ⟨-, hnone⟩ | ⟨hne, -⟩⟩ := exists_of_walk_error hwalk
    · obtain ⟨absolute, comps⟩ := path
      obtain rfl := hcomps
      obtain ⟨t', hmade, hrec⟩ := mkdirRecursive_missing mode hdir hbefore hnone rest
      rw [← Path.trimmed_name, hpath] at hrec
      exact ⟨before, x, rest, place, t', rfl, hbefore, hnone, hmade, hrec⟩
    · cases hne
  · exact .inr (mkdirRecursive_unchanged mode hdir hwalk)

/-! ### What it is for -/

/-- No prefix of the path is there without being a directory. -/
def Creatable (t : Files) (cwd : List Name) (path : Path Name) : Prop :=
  walk t .anywhere (path.start cwd) path.comps ≠ .error .enotdir

/-- The path and all its ancestors are directories. -/
def Directories (t : Files) (cwd : List Name) (path : Path Name) : Prop :=
  ∃ place, walk t .anywhere (path.start cwd) path.comps = .ok place

/-- The path is there, and is not a directory. -/
def NonDirectory (t : Files) (cwd : List Name) (path : Path Name) : Prop :=
  ∃ node, statx t cwd path = .ok node ∧ node.isDir = false

/-- The path is made, and nothing that was there has changed. -/
def Creates (t : Files) (cwd : List Name) (path : Path Name) (mode : IoFileSystemMode) : Prop :=
  (mkdirRecursive t cwd path mode).1 = .ok () ∧ Directories (mkdirRecursive t cwd path mode).2 cwd path ∧
    Grown t (mkdirRecursive t cwd path mode).2

/-- Once it is made, it is there. -/
def Idempotent (t : Files) (cwd : List Name) (path : Path Name) (mode : IoFileSystemMode) : Prop :=
  mkdirRecursive (mkdirRecursive t cwd path mode).2 cwd path mode = (.ok (), (mkdirRecursive t cwd path mode).2)

def Correct (t : Files) (cwd : List Name) (path : Path Name) (mode : IoFileSystemMode) : Prop :=
  (Creatable t cwd path → Creates t cwd path mode ∧ Idempotent t cwd path mode) ∧
    (NonDirectory t cwd path → (mkdirRecursive t cwd path mode).1 = .error .notADirectory)

/-- **A path is made if and only if it is missing from a name on, with no `..`
after it and no `.` at its end.** -/
theorem creates_iff (hdir : t.IsDir (path.start cwd)) :
    Creates t cwd path mode ↔ ∃ before x rest place,
      path.comps = before ++ .name x :: rest ∧ .up ∉ rest ∧ rest.rdropWhile Comp.isCur = rest ∧
        walk t .anywhere (path.start cwd) before = .ok place ∧ t.node (place ++ [x]) = none := by
  obtain ⟨absolute, comps⟩ := path
  constructor
  · rintro ⟨hok, -, -⟩
    by_cases hwalk : walk t .anywhere (Path.start cwd ⟨absolute, comps⟩) comps = .error .enoent
    · obtain ⟨before, x, rest, place, rfl, hbefore, ⟨-, hnone⟩ | ⟨hne, -⟩⟩ := exists_of_walk_error hwalk
      · have hrest : rest.rdropWhile Comp.isCur = rest := by
          rw [List.rdropWhile_eq_self_iff]
          intro hne hcur
          obtain ⟨rest, last, rfl⟩ := (List.eq_nil_or_concat rest).resolve_left hne
          rw [List.concat_eq_append] at hok
          rw [List.getLast_congr _ (by simp) (List.concat_eq_append ..), List.getLast_concat] at hcur
          rw [← List.cons_append, ← List.append_assoc] at hok
          refine mkdirRecursive_ne_ok (fun n heq => ?_) hok
          rw [heq] at hcur
          cases hcur
        obtain ⟨t', hmade, hrec⟩ := mkdirRecursive_missing mode hdir hbefore hnone rest
        rw [hrest] at hrec
        refine ⟨before, x, rest, place, rfl, toUp_eq_none.mp ?_, hrest, hbefore, hnone⟩
        rw [hrec, outcome] at hok
        cases hup : toUp rest with
        | none => rfl
        | some through =>
          rw [hup] at hok
          cases hok
      · cases hne
    · obtain ⟨e, -, hrec⟩ := exists_error_of_unchanged mode hdir hwalk
      rw [hrec] at hok
      cases hok
  · rintro ⟨before, x, rest, place, hcomps, hup, hrest, hbefore, hnone⟩
    obtain rfl : comps = before ++ .name x :: rest := hcomps
    obtain ⟨t', hmade, hrec⟩ := mkdirRecursive_missing mode hdir hbefore hnone rest
    rw [← toUp_eq_none] at hup
    have hok : outcome absolute before x rest = .ok () := by rw [outcome, hup]
    have hup' : toUp (.name x :: rest) = none := by
      rw [toUp, hup]
      rfl
    rw [hrest] at hrec
    refine ⟨by rw [hrec, hok], ⟨place ++ x :: names rest, ?_⟩, by rw [hrec]; exact hmade.grown hnone⟩
    rw [hrec]
    dsimp only
    rw [walk_append (walk_grown (hmade.grown hnone) hbefore), walk_names hup']
    exact hmade.walk .anywhere

/-- **What has been made is an error the second time, and what is not a
directory is not said to be none: `mkdir_recursive` never does what it is
for.** -/
theorem never_correct (t : Files) (cwd : t.Dir) (path : Path Name) (mode : IoFileSystemMode) :
    ¬ (Creates t cwd path mode ∧ Idempotent t cwd path mode) ∧
      (NonDirectory t cwd path → (mkdirRecursive t cwd path mode).1 ≠ .error .notADirectory) := by
  have hdir := isDir_start cwd path
  constructor
  · rintro ⟨⟨-, ⟨place, hplace⟩, hgrown⟩, hagain⟩
    obtain ⟨e, -, hrec⟩ := exists_error_of_unchanged mode (hgrown.isDir hdir) (by rw [hplace]; simp)
    rw [Idempotent, hrec] at hagain
    cases hagain
  · rintro ⟨node, hnode, hfile⟩ herror
    obtain ⟨e, hne, hrec⟩ := exists_error_of_unchanged mode hdir (walk_of_statx hdir hnode hfile)
    rw [hrec] at herror
    exact hne (Except.error.inj herror)

/-- `/a` is made once. -/
theorem correct_fails :
    ¬ ∀ (t : Files) (cwd : t.Dir) (path : Path Name) (mode : IoFileSystemMode), Correct t cwd path mode := by
  intro h
  let t : Files := .bare 0x1ed
  let path : Path Name := ⟨true, [.name [0x61]]⟩
  let mode : IoFileSystemMode := ⟨6, 0, 0⟩
  obtain ⟨⟨-, hthere, -⟩, hagain⟩ := (h t ⟨[], t.isDir_root⟩ path mode).1 (by unfold Creatable; decide)
  obtain ⟨place, hplace⟩ := hthere
  obtain ⟨e, -, hrec⟩ := exists_error_of_unchanged mode (Tree.isDir_root _) (by rw [hplace]; simp)
  rw [Idempotent, hrec] at hagain
  cases hagain

end Directory

end ClAsync
