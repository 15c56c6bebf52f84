/-
# A tree of files

A file system as a partial function from places to nodes. A place is the list
of the names that lead to it from the root. The root is a directory, and what
exists lies in a directory. There are no links and no mounts.

A path is a list of components, `.` and `..` among them, from the root or from
a directory. `walk` follows one through directories; the calls of the kernel
(`mkdirat`, `statx`, `openat2`) walk all components but the last.

* `Path.parent`: a path without its last component; a `.` is one only at the
  start of a relative path.
* `create`: a node in a directory, where there was none.
* `Made`: directories in a row have come to be, and nothing else has changed.
* `walk_grown`: a tree that has grown is walked as before.
-/
import Mathlib.Data.List.DropRight
import Mathlib.Data.List.Infix
import Mathlib.Tactic.Common

namespace FileTree

/-! ### Trees -/

/-- What a file can be that is no directory. -/
inductive FileType
  | regular
  | charDevice
  | blockDevice
  | pipe
  | socket
  deriving DecidableEq, Repr

/-- A directory, or something else with its contents in `β`. -/
inductive Node (β : Type)
  | dir (mode : UInt32)
  | file (fileType : FileType) (mode : UInt32) (contents : β)
  deriving DecidableEq, Repr

/-- The bits of `S_IFMT`. -/
def FileType.bits : FileType → UInt32
  | regular => 0x8000
  | charDevice => 0x2000
  | blockDevice => 0x6000
  | pipe => 0x1000
  | socket => 0xc000

/-- `stx_mode`. -/
def Node.stxMode {β : Type} : Node β → UInt32
  | dir mode => 0x4000 ||| mode
  | file fileType mode _ => fileType.bits ||| mode

/-- It is a directory. -/
def Node.isDir {β : Type} : Node β → Bool
  | dir _ => true
  | file .. => false

/-- A file is emptied. -/
def Node.truncated {β : Type} [Inhabited β] : Node β → Node β
  | file .regular mode _ => file .regular mode default
  | node => node

@[ext]
structure Tree (ν β : Type) where
  node : List ν → Option (Node β)
  root : ∃ mode, node [] = some (.dir mode)
  parent : ∀ place name, (node (place ++ [name])).isSome → ∃ mode, node place = some (.dir mode)

variable {ν β : Type}

namespace Tree

/-- A directory is at the place. -/
def IsDir (t : Tree ν β) (place : List ν) : Prop := (t.node place).any Node.isDir = true

instance (t : Tree ν β) (place : List ν) : Decidable (t.IsDir place) := inferInstanceAs (Decidable (_ = true))

theorem isDir_iff {t : Tree ν β} {place : List ν} : t.IsDir place ↔ ∃ mode, t.node place = some (.dir mode) := by
  unfold IsDir
  cases h : t.node place with
  | none => simp
  | some node => cases node <;> simp [Node.isDir]

theorem isDir_root (t : Tree ν β) : t.IsDir [] := isDir_iff.mpr t.root

theorem isDir_parent {t : Tree ν β} {place : List ν} {name : ν} (h : (t.node (place ++ [name])).isSome) :
    t.IsDir place :=
  isDir_iff.mpr (t.parent place name h)

theorem isDir_dropLast {t : Tree ν β} {place : List ν} (h : t.IsDir place) : t.IsDir place.dropLast := by
  rcases List.eq_nil_or_concat place with rfl | ⟨place, name, rfl⟩
  · exact h
  · rw [List.concat_eq_append, List.dropLast_concat]
    obtain ⟨mode, hmode⟩ := isDir_iff.mp h
    rw [List.concat_eq_append] at hmode
    have hsome : (t.node (place ++ [name])).isSome := by rw [hmode]; rfl
    exact isDir_parent hsome

/-- A directory of the tree. -/
abbrev Dir (t : Tree ν β) := { place : List ν // t.IsDir place }

/-- What is not there has nothing in it. -/
theorem node_append_of_none {t : Tree ν β} {place : List ν} (h : t.node place = none) (names : List ν) :
    t.node (place ++ names) = none := by
  induction names using List.reverseRecOn with
  | nil => rwa [List.append_nil]
  | append_singleton names name ih =>
    by_contra hne
    rw [← List.append_assoc] at hne
    obtain ⟨mode, hmode⟩ := t.parent _ name (Option.isSome_iff_ne_none.mpr hne)
    rw [ih] at hmode
    cases hmode

/-- The root alone. -/
def bare (mode : UInt32) : Tree ν β where
  node
    | [] => some (.dir mode)
    | _ :: _ => none
  root := ⟨mode, rfl⟩
  parent place name h := by cases place <;> cases h

variable [DecidableEq ν]

/-- A node at a place where there was none, in a directory. -/
def insert (t : Tree ν β) (place : List ν) (name : ν) (node : Node β) (hdir : t.IsDir place)
    (hnone : t.node (place ++ [name]) = none) : Tree ν β where
  node other := if other = place ++ [name] then some node else t.node other
  root := by
    obtain ⟨mode, hmode⟩ := t.root
    exact ⟨mode, by rw [if_neg (by simp), hmode]⟩
  parent other name' hsome := by
    by_cases heq : other ++ [name'] = place ++ [name]
    · obtain ⟨rfl, -⟩ := List.append_inj' heq rfl
      obtain ⟨mode, hmode⟩ := isDir_iff.mp hdir
      exact ⟨mode, by rw [if_neg (by simp), hmode]⟩
    · rw [if_neg heq] at hsome
      obtain ⟨mode, hmode⟩ := t.parent other name' hsome
      refine ⟨mode, ?_⟩
      rw [if_neg, hmode]
      rintro rfl
      rw [hnone] at hmode
      cases hmode

/-- The contents of the file at a place are discarded. -/
def truncate [Inhabited β] (t : Tree ν β) (place : List ν) : Tree ν β where
  node other := (t.node other).map fun node => if other = place then node.truncated else node
  root := by
    obtain ⟨mode, hmode⟩ := t.root
    refine ⟨mode, ?_⟩
    rw [hmode, Option.map_some]
    split <;> rfl
  parent other name hsome := by
    rw [Option.isSome_map] at hsome
    obtain ⟨mode, hmode⟩ := t.parent other name hsome
    refine ⟨mode, ?_⟩
    rw [hmode, Option.map_some]
    split <;> rfl

end Tree

/-! ### Paths -/

/-- A component of a path: `.`, `..` or a name. -/
inductive Comp (ν : Type)
  | cur
  | up
  | name (n : ν)
  deriving DecidableEq, Repr

/-- `.` is the directory that it stands in. -/
def Comp.isCur : Comp ν → Bool
  | .cur => true
  | .up | .name _ => false

@[simp] theorem Comp.isCur_name (n : ν) : (Comp.name n).isCur = false := rfl

/-- A path that does not end in a slash. -/
structure Path (ν : Type) where
  absolute : Bool
  comps : List (Comp ν)
  deriving DecidableEq, Repr

namespace Path

/-- What is left of the components without the `.`s at the end. A `.` counts only
at the start of a relative path. -/
def trimmed : Bool → List (Comp ν) → List (Comp ν)
  | false, comp :: comps => comp :: comps.rdropWhile Comp.isCur
  | _, comps => comps.rdropWhile Comp.isCur

/-- The path without its last component, and without the `.`s before that. -/
def parent (p : Path ν) : Option (Path ν) :=
  let comps := trimmed p.absolute p.comps
  if comps = [] then none else some { p with comps := trimmed p.absolute comps.dropLast }

/-- The last component of `x/./y` is `y`, and that of `a/.` is `a`. -/
example : parent (⟨false, [.name 0, .cur, .name 1]⟩ : Path ℕ) = some ⟨false, [.name 0]⟩ ∧
    parent (⟨false, [.name 0, .cur]⟩ : Path ℕ) = some ⟨false, []⟩ := by decide

/-- The components that count. Two paths are equal if these are. -/
def components (p : Path ν) : Path ν :=
  match p.absolute, p.comps with
  | false, comp :: comps => { p with comps := comp :: comps.filter (!·.isCur) }
  | _, comps => { p with comps := comps.filter (!·.isCur) }

/-- The path without components, which leads nowhere. -/
def isEmpty (p : Path ν) : Bool := !p.absolute && p.comps.isEmpty

/-- `p` from `d` on; an absolute path replaces it. -/
def join (d p : Path ν) : Path ν := if p.absolute then p else ⟨d.absolute, d.comps ++ p.comps⟩

/-- Where the path starts, from the current directory `cwd`. -/
def start (cwd : List ν) (p : Path ν) : List ν := if p.absolute then [] else cwd

theorem trimmed_name (absolute : Bool) (before rest : List (Comp ν)) (n : ν) :
    trimmed absolute (before ++ .name n :: rest) = before ++ .name n :: rest.rdropWhile Comp.isCur := by
  have hcut (before : List (Comp ν)) :
      (before ++ .name n :: rest).rdropWhile Comp.isCur = before ++ .name n :: rest.rdropWhile Comp.isCur := by
    induction rest using List.reverseRecOn with
    | nil => exact List.rdropWhile_concat_neg _ _ _ Bool.false_ne_true
    | append_singleton rest last ih =>
      rw [← List.cons_append, ← List.append_assoc, List.rdropWhile_concat, List.rdropWhile_concat]
      split
      · exact ih
      · rw [List.append_assoc, List.cons_append]
  cases absolute with
  | true => exact hcut before
  | false =>
    cases before with
    | nil => rfl
    | cons comp before => exact congrArg (comp :: ·) (hcut before)

/-- The `.`s after the last component do not count. -/
theorem trimmed_dots (absolute : Bool) (comps : List (Comp ν)) {last : Comp ν} (hlast : last.isCur = false)
    {dots : List (Comp ν)} (hdots : ∀ comp ∈ dots, comp.isCur = true) :
    trimmed absolute (comps ++ last :: dots) = comps ++ [last] := by
  have hcut (comps : List (Comp ν)) : (comps ++ last :: dots).rdropWhile Comp.isCur = comps ++ [last] := by
    induction dots using List.reverseRecOn with
    | nil => exact List.rdropWhile_concat_neg _ _ _ (Bool.eq_false_iff.mp hlast)
    | append_singleton dots dot ih =>
      rw [← List.cons_append, ← List.append_assoc, List.rdropWhile_concat_pos _ _ _ (hdots dot (by simp))]
      exact ih fun comp hcomp => hdots comp (List.mem_append_left _ hcomp)
  cases absolute with
  | true => exact hcut comps
  | false =>
    cases comps with
    | nil => exact congrArg (last :: ·) (List.rdropWhile_eq_nil_iff.mpr hdots)
    | cons comp comps => exact congrArg (comp :: ·) (hcut comps)

/-- Only `.`s are left out. -/
theorem exists_dots (absolute : Bool) (comps : List (Comp ν)) :
    ∃ dots, (∀ comp ∈ dots, comp.isCur = true) ∧ comps = trimmed absolute comps ++ dots := by
  have hcut (comps : List (Comp ν)) :
      ∃ dots, (∀ comp ∈ dots, comp.isCur = true) ∧ comps = comps.rdropWhile Comp.isCur ++ dots :=
    ⟨comps.rtakeWhile Comp.isCur, fun _ => List.mem_rtakeWhile_imp, List.rdropWhile_append_rtakeWhile.symm⟩
  cases absolute with
  | true => exact hcut comps
  | false =>
    cases comps with
    | nil => exact hcut []
    | cons comp comps =>
      obtain ⟨dots, hdots, heq⟩ := hcut comps
      exact ⟨dots, hdots, congrArg (comp :: ·) heq⟩

theorem trimmed_isPrefix (absolute : Bool) (comps : List (Comp ν)) : trimmed absolute comps <+: comps := by
  obtain ⟨dots, -, hcomps⟩ := exists_dots absolute comps
  exact ⟨dots, hcomps.symm⟩

theorem trimmed_trimmed (absolute : Bool) (comps : List (Comp ν)) :
    trimmed absolute (trimmed absolute comps) = trimmed absolute comps := by
  cases absolute with
  | true => exact List.rdropWhile_idempotent ..
  | false =>
    cases comps with
    | nil => rfl
    | cons comp comps => exact congrArg (comp :: ·) (List.rdropWhile_idempotent ..)

/-- The components that count are the same. -/
theorem filter_trimmed (absolute : Bool) (comps : List (Comp ν)) :
    (trimmed absolute comps).filter (!·.isCur) = comps.filter (!·.isCur) := by
  obtain ⟨dots, hdots, hcomps⟩ := exists_dots absolute comps
  have hnone : dots.filter (!·.isCur) = [] :=
    List.filter_eq_nil_iff.mpr fun comp hcomp => by rw [hdots comp hcomp]; exact Bool.false_ne_true
  conv_rhs => rw [hcomps, List.filter_append, hnone, List.append_nil]

@[simp] theorem components_absolute (comps : List (Comp ν)) :
    components ⟨true, comps⟩ = ⟨true, comps.filter (!·.isCur)⟩ := rfl

theorem parent_eq_some {p q : Path ν} (h : p.parent = some q) :
    trimmed p.absolute p.comps ≠ [] ∧ q = ⟨p.absolute, trimmed p.absolute (trimmed p.absolute p.comps).dropLast⟩ := by
  unfold parent at h
  dsimp only at h
  split at h
  · cases h
  · rename_i hne
    exact ⟨hne, (Option.some.inj h).symm⟩

theorem parent_dots (absolute : Bool) (comps : List (Comp ν)) {last : Comp ν} (hlast : last.isCur = false)
    {dots : List (Comp ν)} (hdots : ∀ comp ∈ dots, comp.isCur = true) :
    parent ⟨absolute, comps ++ last :: dots⟩ = some ⟨absolute, trimmed absolute comps⟩ := by
  unfold parent
  dsimp only
  rw [trimmed_dots absolute comps hlast hdots, if_neg (by simp), List.dropLast_concat]

theorem parent_trimmed {p q : Path ν} (h : p.parent = some q) : trimmed q.absolute q.comps = q.comps := by
  obtain ⟨-, rfl⟩ := parent_eq_some h
  exact trimmed_trimmed ..

/-- A parent leads to where the path is looked up, or stops before. -/
theorem parent_prefix_dropLast {p q : Path ν} (h : p.parent = some q) : q.comps <+: p.comps.dropLast := by
  obtain ⟨-, rfl⟩ := parent_eq_some h
  obtain ⟨dots, hdots⟩ := trimmed_isPrefix p.absolute p.comps
  refine (trimmed_isPrefix ..).trans ?_
  conv_rhs => rw [← hdots]
  rcases List.eq_nil_or_concat dots with rfl | ⟨dots, dot, rfl⟩
  · rw [List.append_nil]
  · rw [List.concat_eq_append, ← List.append_assoc, List.dropLast_concat]
    exact (List.dropLast_prefix _).trans (List.prefix_append ..)

theorem length_parent_lt {p q : Path ν} (h : p.parent = some q) : q.comps.length < p.comps.length := by
  obtain ⟨hne, rfl⟩ := parent_eq_some h
  have hcut := (trimmed_isPrefix p.absolute (trimmed p.absolute p.comps).dropLast).length_le
  have hle := (trimmed_isPrefix p.absolute p.comps).length_le
  have hpos := List.length_pos_iff.mpr hne
  rw [List.length_dropLast] at hcut
  dsimp only
  omega

/-- A path is `.`s only, or has a last component before some. -/
theorem dots_or_last (comps : List (Comp ν)) : (∀ comp ∈ comps, comp.isCur = true) ∨
    ∃ before last dots, comps = before ++ last :: dots ∧ last.isCur = false ∧ ∀ comp ∈ dots, comp.isCur = true := by
  induction comps using List.reverseRecOn with
  | nil => exact .inl fun comp hcomp => by cases hcomp
  | append_singleton comps last ih =>
    cases hlast : last.isCur with
    | false => exact .inr ⟨comps, last, [], rfl, hlast, fun comp hcomp => by cases hcomp⟩
    | true =>
      have hmem {dots : List (Comp ν)} (hdots : ∀ comp ∈ dots, comp.isCur = true) :
          ∀ comp ∈ dots ++ [last], comp.isCur = true := by
        simpa [hlast, or_imp, forall_and] using hdots
      obtain hdots | ⟨before, comp, dots, rfl, hcomp, hdots⟩ := ih
      · exact .inl (hmem hdots)
      · exact .inr ⟨before, comp, dots ++ [last], by simp, hcomp, hmem hdots⟩

end Path

/-- The names before the first `..`. -/
def names : List (Comp ν) → List ν
  | .name n :: comps => n :: names comps
  | .cur :: comps => names comps
  | .up :: _ | [] => []

/-- The components to the first `..`, if there is one. -/
def toUp : List (Comp ν) → Option (List (Comp ν))
  | [] => none
  | .up :: _ => some [.up]
  | .cur :: comps => (toUp comps).map (.cur :: ·)
  | .name n :: comps => (toUp comps).map (.name n :: ·)

theorem toUp_append (comps comps' : List (Comp ν)) :
    toUp (comps ++ comps') = (toUp comps).or ((toUp comps').map (comps ++ ·)) := by
  induction comps with
  | nil =>
    cases h : toUp comps' with
    | none => simp [toUp, h]
    | some through => simp [toUp, h]
  | cons comp comps ih =>
    cases comp with
    | up => rfl
    | cur | name =>
      rw [List.cons_append, toUp, toUp, ih]
      cases toUp comps <;> cases toUp comps' <;> rfl

theorem toUp_eq_none {comps : List (Comp ν)} : toUp comps = none ↔ .up ∉ comps := by
  induction comps with
  | nil => simp [toUp]
  | cons comp comps ih => cases comp <;> simp [toUp, ih]

/-- They are a part of the components. -/
theorem toUp_isPrefix {comps through : List (Comp ν)} (h : toUp comps = some through) : through <+: comps := by
  induction comps generalizing through with
  | nil => cases h
  | cons comp comps ih =>
    cases comp with
    | up =>
      obtain rfl := Option.some.inj h
      exact List.cons_prefix_cons.mpr ⟨rfl, List.nil_prefix⟩
    | cur | name =>
      obtain ⟨through, hthrough, rfl⟩ := Option.map_eq_some_iff.mp h
      exact List.cons_prefix_cons.mpr ⟨rfl, ih hthrough⟩

theorem names_append {comps : List (Comp ν)} (h : toUp comps = none) (comps' : List (Comp ν)) :
    names (comps ++ comps') = names comps ++ names comps' := by
  induction comps with
  | nil => rfl
  | cons comp comps ih =>
    cases comp with
    | up => cases h
    | cur => exact ih (Option.map_eq_none_iff.mp h)
    | name n => exact congrArg (n :: ·) (ih (Option.map_eq_none_iff.mp h))

theorem names_append_of_some {comps through : List (Comp ν)} (h : toUp comps = some through)
    (comps' : List (Comp ν)) : names (comps ++ comps') = names comps := by
  induction comps generalizing through with
  | nil => cases h
  | cons comp comps ih =>
    cases comp with
    | up => rfl
    | cur =>
      obtain ⟨through, hthrough, -⟩ := Option.map_eq_some_iff.mp h
      exact ih hthrough
    | name n =>
      obtain ⟨through, hthrough, -⟩ := Option.map_eq_some_iff.mp h
      exact congrArg (n :: ·) (ih hthrough)

/-- The errors of the calls below. -/
inductive Errno
  | enoent
  | eexist
  | enotdir
  | eisdir
  | exdev
  | einval
  | enxio
  deriving DecidableEq, Repr

/-- Its number. -/
def Errno.code : Errno → ℤ
  | .enoent => 2
  | .enxio => 6
  | .eexist => 17
  | .exdev => 18
  | .enotdir => 20
  | .eisdir => 21
  | .einval => 22

/-- How far up a path may lead: anywhere, not above a place, or no further
than it. -/
inductive Scope (ν : Type)
  | anywhere
  | beneath (top : List ν)
  | inRoot (top : List ν)

variable [DecidableEq ν]

/-- The directory above. That above the root is the root. -/
def Scope.up (scope : Scope ν) (place : List ν) : Except Errno (List ν) :=
  match scope with
  | .anywhere => .ok place.dropLast
  | .beneath top => if place = top then .error .exdev else .ok place.dropLast
  | .inRoot top => .ok (if place = top then place else place.dropLast)

/-- The directory that the components lead to. -/
def walk (t : Tree ν β) (scope : Scope ν) : List ν → List (Comp ν) → Except Errno (List ν)
  | place, [] => .ok place
  | place, .cur :: comps => walk t scope place comps
  | place, .up :: comps =>
    match scope.up place with
    | .error e => .error e
    | .ok above => walk t scope above comps
  | place, .name n :: comps =>
    match t.node (place ++ [n]) with
    | none => .error .enoent
    | some (.file ..) => .error .enotdir
    | some (.dir _) => walk t scope (place ++ [n]) comps

/-! ### The calls -/

/-- A new node. Nothing can be created in a directory that is not there any
more. -/
def create (t : Tree ν β) (place : List ν) (name : ν) (node : Node β) : Except Errno (Tree ν β) :=
  if hnone : t.node (place ++ [name]) = none then
    if hdir : t.IsDir place then .ok (t.insert place name node hdir hnone) else .error .enoent
  else .error .eexist

/-- `mkdirat` from the directory `cwd`; the last component is not followed. -/
def mkdirat (t : Tree ν β) (cwd : List ν) (path : Path ν) (mode : UInt32) : Except Errno (Tree ν β) :=
  if path.isEmpty then .error .enoent
  else
    match path.comps.getLast? with
    | none => .error .eexist
    | some last =>
      match walk t .anywhere (path.start cwd) path.comps.dropLast, last with
      | .error e, _ => .error e
      | .ok place, .name n => create t place n (.dir mode)
      | .ok _, _ => .error .eexist

/-- The node that a path leads to. -/
def statx (t : Tree ν β) (cwd : List ν) (path : Path ν) : Except Errno (Node β) :=
  if path.isEmpty then .error .enoent
  else
    match path.comps.getLast? with
    | none => (t.node (path.start cwd)).elim (.error .enoent) .ok
    | some last =>
      match walk t .anywhere (path.start cwd) path.comps.dropLast, last with
      | .error e, _ => .error e
      | .ok place, .name n => (t.node (place ++ [n])).elim (.error .enoent) .ok
      | .ok place, .cur => (t.node place).elim (.error .enoent) .ok
      | .ok place, .up => (t.node place.dropLast).elim (.error .enoent) .ok

/-- `struct open_how`. -/
structure OpenHow where
  flags : UInt64
  mode : UInt64
  resolve : UInt64
  deriving DecidableEq, Repr

namespace OpenHow

def creates (how : OpenHow) : Bool := how.flags &&& 0x40 != 0
def exclusive (how : OpenHow) : Bool := how.flags &&& 0x80 != 0
def truncates (how : OpenHow) : Bool := how.flags &&& 0x200 != 0
def directory (how : OpenHow) : Bool := how.flags &&& 0x10000 != 0
def writes (how : OpenHow) : Bool := how.flags &&& 3 != 0
def beneath (how : OpenHow) : Bool := how.resolve &&& 0x08 != 0
def inRoot (how : OpenHow) : Bool := how.resolve &&& 0x10 != 0
def pathOnly (how : OpenHow) : Bool := how.flags &&& 0x200000 != 0
def tmpfile (how : OpenHow) : Bool := how.flags &&& 0x400000 != 0

/-- `O_PATH` stands with `O_DIRECTORY`, `O_NOFOLLOW` and `O_CLOEXEC` only, the
bit of `O_TMPFILE` only with that of `O_DIRECTORY`. -/
def valid (how : OpenHow) : Bool :=
  (!how.pathOnly || how.flags &&& ~~~0x2b0000 == 0) && (!how.tmpfile || how.directory) &&
    !(how.beneath && how.inRoot)

end OpenHow

/-- An open file is at its place. -/
abbrev Opened (ν β : Type) := Except Errno (List ν × Tree ν β)

/-- A directory is opened. -/
def openDir (t : Tree ν β) (how : OpenHow) (place : List ν) : Opened ν β :=
  if how.creates && how.exclusive then .error .eexist
  else if how.creates || how.writes || how.truncates then .error .eisdir else .ok (place, t)

/-- What is under a name is opened, or made. -/
def openEntry [Inhabited β] (t : Tree ν β) (how : OpenHow) (place : List ν) (name : ν) : Opened ν β :=
  match t.node (place ++ [name]) with
  | none =>
    if how.creates then
      (create t place name (.file .regular how.mode.toUInt32 default)).map fun t => (place ++ [name], t)
    else .error .enoent
  | some (.dir _) => openDir t how (place ++ [name])
  | some (.file fileType ..) =>
    if how.creates && how.exclusive then .error .eexist
    else if how.directory then .error .enotdir
    else if fileType = .socket && !how.pathOnly then .error .enxio
    else .ok (place ++ [name], if how.truncates then t.truncate (place ++ [name]) else t)

/-- What the components lead to is opened. -/
def openFrom [Inhabited β] (t : Tree ν β) (scope : Scope ν) (start : List ν) (comps : List (Comp ν)) (how : OpenHow) :
    Opened ν β :=
  match comps.getLast? with
  | none => openDir t how start
  | some last =>
    match walk t scope start comps.dropLast, last with
    | .error e, _ => .error e
    | .ok place, .name n => openEntry t how place n
    | .ok place, .cur => openDir t how place
    | .ok place, .up =>
      match scope.up place with
      | .error e => .error e
      | .ok above => openDir t how above

/-- From `base` on, the current directory or that of a descriptor. -/
def openat2 [Inhabited β] (t : Tree ν β) (base : List ν) (path : Path ν) (how : OpenHow) : Opened ν β :=
  if !how.valid then .error .einval
  else if path.isEmpty then .error .enoent
  else if how.beneath then
    if path.absolute then .error .exdev else openFrom t (.beneath base) base path.comps how
  else if how.inRoot then openFrom t (.inRoot base) base path.comps how
  else openFrom t .anywhere (path.start base) path.comps how

/-! ### Walking -/

section Walk

variable {t t' : Tree ν β} {scope : Scope ν} {place place' : List ν} {comps comps' : List (Comp ν)}

theorem walk_append (h : walk t scope place comps = .ok place') :
    walk t scope place (comps ++ comps') = walk t scope place' comps' := by
  induction comps generalizing place with
  | nil =>
    obtain rfl := Except.ok.inj h
    rfl
  | cons comp comps ih =>
    cases comp with
    | cur => exact ih h
    | up =>
      simp only [List.cons_append, walk] at h ⊢
      split at h
      · cases h
      · exact ih h
    | name n =>
      simp only [List.cons_append, walk] at h ⊢
      split at h
      · cases h
      · cases h
      · exact ih h

theorem walk_append_error {e : Errno} (h : walk t scope place comps = .error e) :
    walk t scope place (comps ++ comps') = .error e := by
  induction comps generalizing place with
  | nil => cases h
  | cons comp comps ih =>
    cases comp with
    | cur => exact ih h
    | up =>
      simp only [List.cons_append, walk] at h ⊢
      split at h
      · exact h
      · exact ih h
    | name n =>
      simp only [List.cons_append, walk] at h ⊢
      split at h
      · exact h
      · exact h
      · exact ih h

/-- `.`s lead nowhere else. -/
theorem walk_dots {dots : List (Comp ν)} (hdots : ∀ comp ∈ dots, comp.isCur = true) :
    walk t scope place (comps ++ dots) = walk t scope place comps := by
  have hnowhere (place : List ν) : walk t scope place dots = .ok place := by
    induction dots with
    | nil => rfl
    | cons dot dots ih =>
      rw [List.forall_mem_cons] at hdots
      cases dot with
      | cur => exact ih hdots.2
      | up | name => cases hdots.1
  cases h : walk t scope place comps with
  | error e => exact walk_append_error h
  | ok place' => rw [walk_append h, hnowhere]

theorem walk_trimmed (absolute : Bool) (comps : List (Comp ν)) :
    walk t scope place (Path.trimmed absolute comps) = walk t scope place comps := by
  obtain ⟨dots, hdots, hcomps⟩ := Path.exists_dots absolute comps
  conv_rhs => rw [hcomps]
  exact (walk_dots hdots).symm

/-- Without `..` a walk follows the names. -/
theorem walk_names (hup : toUp comps = none) :
    walk t scope place comps = walk t scope place ((names comps).map .name) := by
  induction comps generalizing place with
  | nil => rfl
  | cons comp comps ih =>
    cases comp with
    | up => cases hup
    | cur => exact ih (Option.map_eq_none_iff.mp hup)
    | name n =>
      have ih := fun {place} => @ih place (Option.map_eq_none_iff.mp hup)
      simp only [names, List.map_cons, walk, ih]

/-- A path leads from a directory to a directory. -/
theorem isDir_walk (hdir : t.IsDir place) (h : walk t .anywhere place comps = .ok place') : t.IsDir place' := by
  induction comps generalizing place with
  | nil =>
    obtain rfl := Except.ok.inj h
    exact hdir
  | cons comp comps ih =>
    cases comp with
    | cur => exact ih hdir h
    | up => exact ih (Tree.isDir_dropLast hdir) h
    | name n =>
      simp only [walk] at h
      split at h
      · cases h
      · cases h
      · rename_i hnode
        exact ih (Tree.isDir_iff.mpr ⟨_, hnode⟩) h

/-- Everything that was there still is. -/
def Grown (t t' : Tree ν β) : Prop := ∀ place node, t.node place = some node → t'.node place = some node

omit [DecidableEq ν] in
theorem Grown.isDir (h : Grown t t') (hdir : t.IsDir place) : t'.IsDir place := by
  obtain ⟨mode, hmode⟩ := Tree.isDir_iff.mp hdir
  exact Tree.isDir_iff.mpr ⟨mode, h place _ hmode⟩

theorem walk_grown (hgrown : Grown t t') (h : walk t scope place comps = .ok place') :
    walk t' scope place comps = .ok place' := by
  induction comps generalizing place with
  | nil => exact h
  | cons comp comps ih =>
    cases comp with
    | cur => exact ih h
    | up =>
      simp only [walk] at h ⊢
      split at h
      · cases h
      · exact ih h
    | name n =>
      simp only [walk] at h ⊢
      split at h
      · cases h
      · cases h
      · rename_i hdir
        rw [hgrown _ _ hdir]
        exact ih h

/-- A walk that fails comes to a name that is missing, or not that of a
directory, in a directory that it leads to. -/
theorem exists_of_walk_error {e : Errno} (h : walk t .anywhere place comps = .error e) :
    ∃ before name rest at_, comps = before ++ .name name :: rest ∧ walk t .anywhere place before = .ok at_ ∧
      (e = .enoent ∧ t.node (at_ ++ [name]) = none ∨
        e = .enotdir ∧ (t.node (at_ ++ [name])).isSome ∧ ¬ t.IsDir (at_ ++ [name])) := by
  induction comps generalizing place with
  | nil => cases h
  | cons comp comps ih =>
    cases comp with
    | cur =>
      obtain ⟨before, name, rest, at_, rfl, hwalk, hmissing⟩ := ih h
      exact ⟨.cur :: before, name, rest, at_, rfl, hwalk, hmissing⟩
    | up =>
      obtain ⟨before, name, rest, at_, rfl, hwalk, hmissing⟩ := @ih place.dropLast h
      exact ⟨.up :: before, name, rest, at_, rfl, hwalk, hmissing⟩
    | name n =>
      simp only [walk] at h
      split at h
      · rename_i hnone
        obtain rfl := Except.error.inj h
        exact ⟨[], n, comps, place, rfl, rfl, .inl ⟨rfl, hnone⟩⟩
      · rename_i hfile
        obtain rfl := Except.error.inj h
        refine ⟨[], n, comps, place, rfl, rfl, .inr ⟨rfl, by rw [hfile]; rfl, fun hdir => ?_⟩⟩
        rw [Tree.IsDir, hfile] at hdir
        cases hdir
      · rename_i hdir
        obtain ⟨before, name, rest, at_, rfl, hwalk, hmissing⟩ := ih h
        refine ⟨.name n :: before, name, rest, at_, rfl, ?_, hmissing⟩
        simp only [walk, hdir]
        exact hwalk

/-- It does not come past a name that is missing. -/
theorem walk_missing {name : ν} (hwalk : walk t scope place comps = .ok place')
    (hnone : t.node (place' ++ [name]) = none) (comps' : List (Comp ν)) :
    walk t scope place (comps ++ .name name :: comps') = .error .enoent := by
  rw [walk_append hwalk, walk, hnone]

end Walk

/-! ### Directories in a row -/

/-- The directories `place ++ [n₁]`, `place ++ [n₁, n₂]` and so on have come to
be, and nothing else has changed. -/
def Made (t t' : Tree ν β) (mode : UInt32) (place names : List ν) : Prop :=
  ∀ other, t'.node other =
    if place <+: other ∧ other ≠ place ∧ other <+: place ++ names then some (.dir mode) else t.node other

section Made

variable {t t' t'' : Tree ν β} {mode mode' : UInt32} {place place' names names' : List ν} {name name' : ν}

theorem made_nil : Made t t mode place [] := by
  intro other
  rw [if_neg]
  rintro ⟨hle, hne, hge⟩
  rw [List.append_nil] at hge
  exact hne (hge.eq_of_length_le hle.length_le)

theorem create_eq_ok {node : Node β} (h : create t place name node = .ok t') :
    t.IsDir place ∧ t.node (place ++ [name]) = none ∧
      ∀ other, t'.node other = if other = place ++ [name] then some node else t.node other := by
  unfold create at h
  split at h
  · rename_i hnone
    split at h
    · rename_i hdir
      obtain rfl := Except.ok.inj h
      exact ⟨hdir, hnone, fun _ => rfl⟩
    · cases h
  · cases h

theorem exists_create (node : Node β) (hdir : t.IsDir place) (hnone : t.node (place ++ [name]) = none) :
    ∃ t', create t place name node = .ok t' := by
  rw [create, dif_pos hnone, dif_pos hdir]
  exact ⟨_, rfl⟩

/-- One directory more. -/
theorem Made.snoc (h : Made t t' mode place names) (hcreate : create t' (place ++ names) name (.dir mode) = .ok t'') :
    Made t t'' mode place (names ++ [name]) := by
  obtain ⟨-, -, hnode⟩ := create_eq_ok hcreate
  intro other
  rw [hnode, h, ← List.append_assoc]
  simp only [List.prefix_concat_iff]
  by_cases hlast : other = place ++ names ++ [name]
  · have hle : place <+: other := ⟨names ++ [name], by rw [hlast, List.append_assoc]⟩
    have hne : other ≠ place := fun heq => by
      have hlen := congrArg List.length (hlast.symm.trans heq)
      simp at hlen
    simp only [hlast, if_true, true_or, and_true] at hle hne ⊢
    rw [if_pos ⟨hle, hne⟩]
  · rw [if_neg hlast]
    simp only [hlast, false_or]

omit [DecidableEq ν] in
/-- They were missing. -/
theorem Made.missing (hnone : t.node (place ++ [name]) = none) {other : List ν}
    (hchain : place <+: other ∧ other ≠ place ∧ other <+: place ++ name :: names) : t.node other = none := by
  obtain ⟨⟨after, rfl⟩, hne, hle⟩ := hchain
  have hafter : after <+: name :: names := (List.prefix_append_right_inj place).mp hle
  cases after with
  | nil => exact absurd (List.append_nil _) hne
  | cons n after =>
    obtain ⟨rfl, -⟩ := List.cons_prefix_cons.mp hafter
    rw [← List.singleton_append, ← List.append_assoc, Tree.node_append_of_none hnone]

theorem Made.grown (h : Made t t' mode place (name :: names)) (hnone : t.node (place ++ [name]) = none) :
    Grown t t' := by
  intro other node hnode
  rw [h, if_neg, hnode]
  intro hchain
  rw [Made.missing hnone hchain] at hnode
  cases hnode

/-- The last of them is empty. -/
theorem Made.node_snoc (h : Made t t' mode place (name :: names)) (hnone : t.node (place ++ [name]) = none) (n : ν) :
    t'.node (place ++ name :: names ++ [n]) = none := by
  rw [h, if_neg]
  · rw [← List.singleton_append, ← List.append_assoc, List.append_assoc, Tree.node_append_of_none hnone]
  · rintro ⟨-, -, hle⟩
    have hlen := hle.length_le
    simp only [List.length_append, List.length_singleton] at hlen
    omega

/-- The directories are walked through. -/
theorem Made.walk (h : Made t t' mode place names) (scope : Scope ν) :
    FileTree.walk t' scope place (names.map .name) = .ok (place ++ names) := by
  suffices hrest : ∀ todo walked, walked ++ todo = names →
      FileTree.walk t' scope (place ++ walked) (todo.map .name) = .ok (place ++ names) by
    simpa using hrest names [] rfl
  intro todo
  induction todo with
  | nil =>
    rintro walked rfl
    rw [List.append_nil]
    rfl
  | cons n todo ih =>
    rintro walked rfl
    have hnode : t'.node (place ++ walked ++ [n]) = some (.dir mode) := by
      rw [h, if_pos]
      refine ⟨⟨walked ++ [n], by rw [List.append_assoc]⟩, fun heq => ?_, ⟨todo, by simp⟩⟩
      have hlen := congrArg List.length heq
      simp at hlen
    rw [List.map_cons, FileTree.walk, hnode]
    simpa using ih (walked ++ [n]) (by simp)

/-- They are the directories that there were not. -/
theorem Made.isDir_iff (h : Made t t' mode place (name :: names)) (hnone : t.node (place ++ [name]) = none)
    (other : List ν) :
    t'.IsDir other ∧ ¬ t.IsDir other ↔ place <+: other ∧ other ≠ place ∧ other <+: place ++ name :: names := by
  constructor
  · rintro ⟨hdir', hdir⟩
    by_contra hchain
    rw [Tree.IsDir, h, if_neg hchain] at hdir'
    exact hdir hdir'
  · intro hchain
    refine ⟨Tree.isDir_iff.mpr ⟨mode, by rw [h, if_pos hchain]⟩, fun hdir => ?_⟩
    rw [Tree.IsDir, Made.missing hnone hchain] at hdir
    cases hdir

/-- Where directories have come to be tells what was made. -/
theorem Made.unique (h : Made t t' mode place (name :: names)) (hnone : t.node (place ++ [name]) = none)
    (h' : Made t t'' mode' place' (name' :: names')) (hnone' : t.node (place' ++ [name']) = none)
    (hsame : ∀ other, t'.IsDir other ↔ t''.IsDir other) :
    place = place' ∧ name :: names = name' :: names' := by
  have hmem (other : List ν) : place <+: other ∧ other ≠ place ∧ other <+: place ++ name :: names ↔
      place' <+: other ∧ other ≠ place' ∧ other <+: place' ++ name' :: names' := by
    rw [← h.isDir_iff hnone, ← h'.isDir_iff hnone', hsame]
  have hfirst : place.length = place'.length := by
    obtain ⟨⟨after, heq⟩, hne, -⟩ := (hmem (place ++ [name])).mp ⟨⟨[name], rfl⟩, by simp, ⟨names, by simp⟩⟩
    obtain ⟨⟨after', heq'⟩, hne', -⟩ := (hmem (place' ++ [name'])).mpr ⟨⟨[name'], rfl⟩, by simp, ⟨names', by simp⟩⟩
    have hlen := congrArg List.length heq
    have hlen' := congrArg List.length heq'
    have hafter : after ≠ [] := by
      rintro rfl
      exact hne (by rw [← heq, List.append_nil])
    have hafter' : after' ≠ [] := by
      rintro rfl
      exact hne' (by rw [← heq', List.append_nil])
    rw [← List.length_pos_iff] at hafter hafter'
    simp at hlen hlen'
    omega
  have hlast : place ++ name :: names = place' ++ name' :: names' := by
    have hle := ((hmem _).mp ⟨List.prefix_append .., by simp, List.prefix_rfl⟩).2.2
    have hge := ((hmem _).mpr ⟨List.prefix_append .., by simp, List.prefix_rfl⟩).2.2
    exact hle.eq_of_length_le hge.length_le
  exact List.append_inj hlast hfirst

theorem Made.node_eq (h : Made t t' mode place names) {other : List ν} (hother : ¬ place <+: other) :
    t'.node other = t.node other := by
  rw [h, if_neg fun hchain => hother hchain.1]

/-- The same directories make the same tree. -/
theorem Made.eq (h : Made t t' mode place names) (h' : Made t t'' mode place names) : t' = t'' :=
  Tree.ext (funext fun other => by rw [h, h'])

end Made

/-! ### Calls on paths -/

section Calls

variable {t t' : Tree ν β} {cwd place : List ν} {absolute : Bool} {comps : List (Comp ν)} {last : Comp ν} {mode : UInt32}

theorem mkdirat_concat (t : Tree ν β) (cwd : List ν) (absolute : Bool) (comps : List (Comp ν)) (last : Comp ν)
    (mode : UInt32) :
    mkdirat t cwd ⟨absolute, comps ++ [last]⟩ mode =
      match walk t .anywhere (Path.start cwd ⟨absolute, comps⟩) comps, last with
      | .error e, _ => .error e
      | .ok place, .name n => create t place n (.dir mode)
      | .ok _, _ => .error .eexist := by
  have hempty : Path.isEmpty ⟨absolute, comps ++ [last]⟩ = false := by simp [Path.isEmpty]
  rw [mkdirat, hempty, if_neg Bool.false_ne_true, List.getLast?_append, List.dropLast_concat]
  rfl

theorem mkdirat_of_walk (hlast : ∀ n, last ≠ .name n)
    (h : walk t .anywhere (Path.start cwd ⟨absolute, comps⟩) comps = .ok place) :
    mkdirat t cwd ⟨absolute, comps ++ [last]⟩ mode = .error .eexist := by
  rw [mkdirat_concat, h]
  cases last with
  | name n => exact absurd rfl (hlast n)
  | cur => rfl
  | up => rfl

theorem statx_concat (t : Tree ν β) (cwd : List ν) (absolute : Bool) (comps : List (Comp ν)) (last : Comp ν) :
    statx t cwd ⟨absolute, comps ++ [last]⟩ =
      match walk t .anywhere (Path.start cwd ⟨absolute, comps⟩) comps, last with
      | .error e, _ => .error e
      | .ok place, .name n => (t.node (place ++ [n])).elim (.error .enoent) .ok
      | .ok place, .cur => (t.node place).elim (.error .enoent) .ok
      | .ok place, .up => (t.node place.dropLast).elim (.error .enoent) .ok := by
  have hempty : Path.isEmpty ⟨absolute, comps ++ [last]⟩ = false := by simp [Path.isEmpty]
  rw [statx, hempty, if_neg Bool.false_ne_true, List.getLast?_append, List.dropLast_concat]
  rfl

omit [DecidableEq ν] in
theorem isDir_start (cwd : t.Dir) (path : Path ν) : t.IsDir (path.start cwd) := by
  unfold Path.start
  split
  · exact t.isDir_root
  · exact cwd.2

/-- What cannot be created because it is there has a status. -/
theorem exists_statx {path : Path ν} (hdir : t.IsDir (path.start cwd))
    (h : mkdirat t cwd path mode = .error .eexist) : ∃ node, statx t cwd path = .ok node := by
  obtain ⟨absolute, comps⟩ := path
  rcases List.eq_nil_or_concat comps with rfl | ⟨comps, last, rfl⟩
  · cases absolute with
    | false => cases h
    | true =>
      obtain ⟨node, hnode⟩ := t.root
      exact ⟨.dir node, by simp [statx, Path.isEmpty, Path.start, hnode]⟩
  · rw [List.concat_eq_append] at hdir h ⊢
    rw [mkdirat_concat] at h
    rw [statx_concat]
    have hdir' : t.IsDir (Path.start cwd ⟨absolute, comps⟩) := hdir
    cases hwalk : walk t .anywhere (Path.start cwd ⟨absolute, comps⟩) comps with
    | error e =>
      rw [hwalk] at h
      obtain ⟨_, _, _, _, _, _, h' | h'⟩ := exists_of_walk_error hwalk
      · rw [h'.1] at h; cases h
      · rw [h'.1] at h; cases h
    | ok place =>
      rw [hwalk] at h
      have hplace := isDir_walk hdir' hwalk
      cases last with
      | cur =>
        obtain ⟨mode', hmode⟩ := Tree.isDir_iff.mp hplace
        exact ⟨.dir mode', by simp [hmode]⟩
      | up =>
        obtain ⟨mode', hmode⟩ := Tree.isDir_iff.mp (Tree.isDir_dropLast hplace)
        exact ⟨.dir mode', by simp [hmode]⟩
      | name n =>
        cases hnode : t.node (place ++ [n]) with
        | some node => exact ⟨node, by simp [hnode]⟩
        | none =>
          obtain ⟨made, hmade⟩ := exists_create (.dir mode) hplace hnode
          dsimp only at h
          rw [hmade] at h
          cases h

/-- A directory that a path leads to has a status. -/
theorem exists_statx_of_walk {path : Path ν} (hdir : t.IsDir (path.start cwd)) (hpath : path.isEmpty = false)
    (h : walk t .anywhere (path.start cwd) path.comps = .ok place) : ∃ node, statx t cwd path = .ok node := by
  obtain ⟨absolute, comps⟩ := path
  refine @exists_statx _ _ _ t cwd 0 _ hdir ?_
  rcases List.eq_nil_or_concat comps with rfl | ⟨comps, last, rfl⟩
  · cases absolute with
    | false => cases hpath
    | true => rfl
  · rw [List.concat_eq_append] at h ⊢
    have hstart : Path.start cwd ⟨absolute, comps ++ [last]⟩ = Path.start cwd ⟨absolute, comps⟩ := rfl
    dsimp only at h
    rw [hstart] at h
    cases hwalk : walk t .anywhere (Path.start cwd ⟨absolute, comps⟩) comps with
    | error e =>
      rw [walk_append_error hwalk] at h
      cases h
    | ok above =>
      cases last with
      | cur | up => exact mkdirat_of_walk (fun n heq => by cases heq) hwalk
      | name n =>
        rw [walk_append hwalk, walk] at h
        rw [mkdirat_concat, hwalk]
        refine dif_neg fun hnone => ?_
        rw [hnone] at h
        cases h

/-- What has a status cannot be created. -/
theorem mkdirat_of_statx {path : Path ν} {node : Node β} (h : statx t cwd path = .ok node) :
    mkdirat t cwd path mode = .error .eexist := by
  obtain ⟨absolute, comps⟩ := path
  rcases List.eq_nil_or_concat comps with rfl | ⟨comps, last, rfl⟩
  · cases absolute with
    | false => cases h
    | true => rfl
  · rw [List.concat_eq_append] at h ⊢
    rw [statx_concat] at h
    cases hwalk : walk t .anywhere (Path.start cwd ⟨absolute, comps⟩) comps with
    | error e => rw [hwalk] at h; cases h
    | ok place =>
      cases last with
      | cur | up => exact mkdirat_of_walk (fun n heq => by cases heq) hwalk
      | name n =>
        rw [hwalk] at h
        rw [mkdirat_concat, hwalk]
        refine dif_neg fun hnone => ?_
        dsimp only at h
        rw [hnone] at h
        cases h

/-- What is not a directory is not missing. -/
theorem walk_of_statx {path : Path ν} {node : Node β} (hdir : t.IsDir (path.start cwd))
    (h : statx t cwd path = .ok node) (hnode : node.isDir = false) :
    walk t .anywhere (path.start cwd) path.comps ≠ .error .enoent := by
  have hfalse {place : List ν} (hplace : t.IsDir place)
      (heq : (t.node place).elim (.error .enoent) (.ok : Node β → Except Errno _) = .ok node) : False := by
    obtain ⟨mode, hmode⟩ := Tree.isDir_iff.mp hplace
    rw [hmode] at heq
    obtain rfl := Except.ok.inj heq
    cases hnode
  obtain ⟨absolute, comps⟩ := path
  rcases List.eq_nil_or_concat comps with rfl | ⟨comps, last, rfl⟩
  · cases absolute with
    | false => cases h
    | true => exact (hfalse hdir h).elim
  · rw [List.concat_eq_append] at hdir h ⊢
    rw [statx_concat] at h
    have hstart : Path.start cwd ⟨absolute, comps ++ [last]⟩ = Path.start cwd ⟨absolute, comps⟩ := rfl
    dsimp only
    rw [hstart] at hdir ⊢
    cases hwalk : walk t .anywhere (Path.start cwd ⟨absolute, comps⟩) comps with
    | error e => rw [hwalk] at h; cases h
    | ok place =>
      rw [hwalk] at h
      have hplace := isDir_walk hdir hwalk
      rw [walk_append hwalk]
      cases last with
      | cur => exact (hfalse hplace h).elim
      | up => exact (hfalse (Tree.isDir_dropLast hplace) h).elim
      | name n =>
        dsimp only at h
        cases hlast : t.node (place ++ [n]) with
        | none => rw [hlast] at h; cases h
        | some last =>
          rw [hlast] at h
          obtain rfl := Except.ok.inj h
          cases last with
          | dir mode => cases hnode
          | file => simp [walk, hlast]

end Calls

/-! ### Opening -/

section Open

variable [Inhabited β] {t t' : Tree ν β} {base cwd place : List ν} {comps d : List (Comp ν)} {how : OpenHow}

omit [Inhabited β] in
/-- What does not go up stays below. -/
theorem walk_beneath {scope : Scope ν} {place' : List ν} (hup : .up ∉ comps)
    (h : walk t scope place comps = .ok place') : place <+: place' := by
  induction comps generalizing place with
  | nil =>
    obtain rfl := Except.ok.inj h
    exact List.prefix_rfl
  | cons comp comps ih =>
    rw [List.mem_cons, not_or] at hup
    cases comp with
    | cur => exact ih hup.2 h
    | up => exact absurd rfl hup.1
    | name n =>
      simp only [walk] at h
      split at h
      · cases h
      · cases h
      · exact (List.prefix_append ..).trans (ih hup.2 h)

theorem openFrom_concat (scope : Scope ν) (place : List ν) (comps : List (Comp ν)) (last : Comp ν) :
    openFrom t scope place (comps ++ [last]) how =
      match walk t scope place comps, last with
      | .error e, _ => .error e
      | .ok place, .name n => openEntry t how place n
      | .ok place, .cur => openDir t how place
      | .ok place, .up =>
        match scope.up place with
        | .error e => .error e
        | .ok above => openDir t how above := by
  rw [openFrom, List.getLast?_append, List.dropLast_concat]
  rfl

theorem openFrom_append {scope : Scope ν} (hd : walk t scope place d = .ok base) (hcomps : comps ≠ []) :
    openFrom t scope place (d ++ comps) how = openFrom t scope base comps how := by
  obtain ⟨comps, last, rfl⟩ := (List.eq_nil_or_concat comps).resolve_left hcomps
  rw [List.concat_eq_append, ← List.append_assoc, openFrom_concat, openFrom_concat, walk_append hd]

omit [DecidableEq ν] [Inhabited β] in
theorem openDir_eq_ok {place' : List ν} (h : openDir t how place = .ok (place', t')) : place' = place ∧ t' = t := by
  unfold openDir at h
  split_ifs at h
  obtain ⟨rfl, rfl⟩ := Prod.mk.inj (Except.ok.inj h)
  exact ⟨rfl, rfl⟩

omit [DecidableEq ν] [Inhabited β] in
theorem openDir_ne_error {e : Errno} (he : e = .enoent ∨ e = .exdev) : openDir t how place ≠ .error e := by
  unfold openDir
  obtain rfl | rfl := he <;> split_ifs <;> simp

theorem isDir_truncate (t : Tree ν β) (place other : List ν) : (t.truncate place).IsDir other ↔ t.IsDir other := by
  have hnode : (t.truncate place).node other =
      (t.node other).map fun node => if other = place then node.truncated else node := rfl
  rw [Tree.IsDir, Tree.IsDir, hnode]
  cases t.node other with
  | none => rfl
  | some node =>
    rw [Option.map_some]
    split
    · cases node with
      | dir mode => rfl
      | file fileType => cases fileType <;> rfl
    · rfl

/-- Only the file that is opened changes, and no directory comes or goes. -/
theorem openEntry_eq_ok {place' : List ν} {name : ν} (h : openEntry t how place name = .ok (place', t')) :
    place' = place ++ [name] ∧ (∀ other, other ≠ place' → t'.node other = t.node other) ∧
      ∀ other, t'.IsDir other ↔ t.IsDir other := by
  unfold openEntry at h
  split at h
  · rename_i hnone
    split at h
    · cases hcreate : create t place name (.file .regular how.mode.toUInt32 default) with
      | error e => rw [hcreate] at h; cases h
      | ok made =>
        rw [hcreate] at h
        obtain ⟨rfl, rfl⟩ := Prod.mk.inj (Except.ok.inj h)
        obtain ⟨-, -, hnode⟩ := create_eq_ok hcreate
        refine ⟨rfl, fun other hne => by rw [hnode, if_neg hne], fun other => ?_⟩
        rw [Tree.IsDir, Tree.IsDir, hnode]
        split
        · rename_i heq
          rw [heq, hnone]
          exact Iff.rfl
        · exact Iff.rfl
    · cases h
  · obtain ⟨rfl, rfl⟩ := openDir_eq_ok h
    exact ⟨rfl, fun _ _ => rfl, fun _ => Iff.rfl⟩
  · split at h
    · cases h
    · split at h
      · cases h
      · split at h
        · cases h
        · obtain ⟨rfl, rfl⟩ := Prod.mk.inj (Except.ok.inj h)
          refine ⟨rfl, fun other hne => ?_, fun other => ?_⟩
          · split
            · simp [Tree.truncate, hne]
            · rfl
          · split
            · exact isDir_truncate t _ other
            · exact Iff.rfl

omit [Inhabited β] in
theorem create_eq_error {name : ν} {node : Node β} {e : Errno} (h : create t place name node = .error e) :
    e = .eexist ∨ e = .enoent ∧ ¬ t.IsDir place := by
  unfold create at h
  split at h
  · split at h
    · cases h
    · rename_i hdir
      exact .inr ⟨(Except.error.inj h).symm, hdir⟩
  · exact .inl (Except.error.inj h).symm

/-- A file that is created is not missing. -/
theorem openEntry_eq_error {name : ν} {e : Errno} (h : openEntry t how place name = .error e) :
    e ≠ .exdev ∧ (how.creates = true → t.IsDir place → e ≠ .enoent) := by
  unfold openEntry at h
  split at h
  · split at h
    · cases hcreate : create t place name (.file .regular how.mode.toUInt32 default) with
      | ok made => rw [hcreate] at h; cases h
      | error e' =>
        rw [hcreate] at h
        obtain rfl := Except.error.inj h
        obtain rfl | ⟨rfl, hdir⟩ := create_eq_error hcreate
        · exact ⟨by decide, fun _ _ => by decide⟩
        · exact ⟨by decide, fun _ hdir' => absurd hdir' hdir⟩
    · rename_i hcreates
      obtain rfl := Except.error.inj h
      exact ⟨by decide, fun hcreates' => absurd hcreates' hcreates⟩
  · exact ⟨fun heq => openDir_ne_error (.inr heq) h, fun _ _ heq => openDir_ne_error (.inl heq) h⟩
  · split at h
    · obtain rfl := Except.error.inj h
      exact ⟨by decide, fun _ _ => by decide⟩
    · split at h
      · obtain rfl := Except.error.inj h
        exact ⟨by decide, fun _ _ => by decide⟩
      · split at h
        · obtain rfl := Except.error.inj h
          exact ⟨by decide, fun _ _ => by decide⟩
        · cases h

/-- A directory on the way may be missing. -/
theorem openFrom_eq_enoent {last : Comp ν} (hcreates : how.creates = true) (hdir : t.IsDir place) :
    openFrom t .anywhere place (comps ++ [last]) how = .error .enoent ↔
      walk t .anywhere place comps = .error .enoent := by
  rw [openFrom_concat]
  cases hwalk : walk t .anywhere place comps with
  | error e => simp
  | ok place' =>
    refine iff_of_false (fun h => ?_) (by simp)
    cases last with
    | cur | up => exact openDir_ne_error (.inl rfl) h
    | name n => exact (openEntry_eq_error h).2 hcreates (isDir_walk hdir hwalk) rfl

omit [Inhabited β] in
theorem walk_eq_exdev :
    walk t (.beneath base) place comps = .error .exdev ↔
      ∃ before after, comps = before ++ .up :: after ∧ walk t (.beneath base) place before = .ok base := by
  constructor
  · intro h
    induction comps generalizing place with
    | nil => cases h
    | cons comp comps ih =>
      cases comp with
      | cur =>
        obtain ⟨before, after, rfl, hwalk⟩ := ih h
        exact ⟨.cur :: before, after, rfl, hwalk⟩
      | up =>
        by_cases htop : place = base
        · exact ⟨[], comps, rfl, by rw [htop]; rfl⟩
        · have hup : (Scope.beneath base).up place = .ok place.dropLast := if_neg htop
          rw [walk, hup] at h
          obtain ⟨before, after, rfl, hwalk⟩ := ih h
          exact ⟨.up :: before, after, rfl, by rw [walk, hup]; exact hwalk⟩
      | name n =>
        simp only [walk] at h
        split at h
        · cases h
        · cases h
        · rename_i hnode
          obtain ⟨before, after, rfl, hwalk⟩ := ih h
          exact ⟨.name n :: before, after, rfl, by rw [walk, hnode]; exact hwalk⟩
  · rintro ⟨before, after, rfl, hwalk⟩
    rw [walk_append hwalk, walk, Scope.up, if_pos rfl]

/-- A path that leads above the directory it has to stay beneath. -/
theorem openFrom_eq_exdev :
    openFrom t (.beneath base) base comps how = .error .exdev ↔
      ∃ before after, comps = before ++ .up :: after ∧ walk t (.beneath base) base before = .ok base := by
  rw [← walk_eq_exdev]
  rcases List.eq_nil_or_concat comps with rfl | ⟨comps, last, rfl⟩
  · refine iff_of_false (fun h => ?_) (fun h => by cases h)
    exact openDir_ne_error (.inr rfl) h
  · rw [List.concat_eq_append, openFrom_concat]
    cases hwalk : walk t (.beneath base) base comps with
    | error e => simp [walk_append_error hwalk]
    | ok place' =>
      rw [walk_append hwalk]
      cases last with
      | cur => exact iff_of_false (openDir_ne_error (.inr rfl)) (fun h => by cases h)
      | up =>
        cases hup : (Scope.beneath base).up place' with
        | error e => simp [walk, hup]
        | ok above =>
          simp only [walk, hup]
          exact iff_of_false (openDir_ne_error (.inr rfl)) (fun h => by cases h)
      | name n =>
        refine iff_of_false (fun h => (openEntry_eq_error h).1 rfl) (fun h => ?_)
        rw [walk] at h
        split at h <;> cases h

/-- No directory comes or goes. -/
theorem openFrom_isDir_iff {scope : Scope ν} {place' : List ν}
    (h : openFrom t scope place comps how = .ok (place', t')) (other : List ν) : t'.IsDir other ↔ t.IsDir other := by
  rcases List.eq_nil_or_concat comps with rfl | ⟨comps, last, rfl⟩
  · obtain ⟨-, rfl⟩ := openDir_eq_ok h
    exact Iff.rfl
  · rw [List.concat_eq_append, openFrom_concat] at h
    split at h
    · cases h
    · exact (openEntry_eq_ok h).2.2 other
    · obtain ⟨-, rfl⟩ := openDir_eq_ok h
      exact Iff.rfl
    · split at h
      · cases h
      · obtain ⟨-, rfl⟩ := openDir_eq_ok h
        exact Iff.rfl

/-- A directory is not missing. -/
theorem openFrom_of_walk (h : walk t .anywhere place comps = .ok base) :
    openFrom t .anywhere place comps how ≠ .error .enoent := by
  intro herror
  rcases List.eq_nil_or_concat comps with rfl | ⟨comps, last, rfl⟩
  · exact openDir_ne_error (.inl rfl) herror
  · rw [List.concat_eq_append] at h herror
    rw [openFrom_concat] at herror
    cases hwalk : walk t .anywhere place comps with
    | error e =>
      rw [walk_append_error hwalk] at h
      cases h
    | ok place' =>
      rw [walk_append hwalk] at h
      rw [hwalk] at herror
      cases last with
      | cur | up => exact openDir_ne_error (.inl rfl) herror
      | name n =>
        simp only [walk] at h
        split at h
        · cases h
        · cases h
        · rename_i hnode
          simp only [openEntry, hnode] at herror
          exact openDir_ne_error (.inl rfl) herror

/-- Nothing changes but below the directory the path starts in, if it does not
go up. -/
theorem openFrom_eq_ok {scope : Scope ν} {place' : List ν} (hup : .up ∉ comps)
    (h : openFrom t scope place comps how = .ok (place', t')) :
    place <+: place' ∧ ∀ other, other ≠ place' → t'.node other = t.node other := by
  rcases List.eq_nil_or_concat comps with rfl | ⟨comps, last, rfl⟩
  · obtain ⟨rfl, rfl⟩ := openDir_eq_ok h
    exact ⟨List.prefix_rfl, fun _ _ => rfl⟩
  · rw [List.concat_eq_append] at h hup
    rw [openFrom_concat] at h
    rw [List.mem_append, not_or] at hup
    split at h
    · cases h
    · rename_i hwalk
      obtain ⟨rfl, hother, -⟩ := openEntry_eq_ok h
      exact ⟨(walk_beneath hup.1 hwalk).trans (List.prefix_append ..), hother⟩
    · rename_i hwalk
      obtain ⟨rfl, rfl⟩ := openDir_eq_ok h
      exact ⟨walk_beneath hup.1 hwalk, fun _ _ => rfl⟩
    · exact absurd (List.mem_singleton.mpr rfl) hup.2

theorem openat2_invalid {path : Path ν} (hvalid : how.valid = false) : openat2 t base path how = .error .einval := by
  simp [openat2, hvalid]

theorem openat2_empty (hvalid : how.valid = true) : openat2 t base ⟨false, []⟩ how = .error .enoent := by
  simp [openat2, hvalid, Path.isEmpty]

theorem openat2_beneath {path : Path ν} (hvalid : how.valid = true) (hpath : path.isEmpty = false)
    (hbeneath : how.beneath = true) :
    openat2 t base path how =
      if path.absolute then .error .exdev else openFrom t (.beneath base) base path.comps how := by
  simp [openat2, hvalid, hpath, hbeneath]

theorem openat2_anywhere {path : Path ν} (hvalid : how.valid = true) (hpath : path.isEmpty = false)
    (hbeneath : how.beneath = false) (hroot : how.inRoot = false) :
    openat2 t base path how = openFrom t .anywhere (path.start base) path.comps how := by
  simp [openat2, hvalid, hpath, hbeneath, hroot]

/-- A path from a directory is that of the directory with it. -/
theorem openat2_join {dir : Path ν} (habsolute : dir.absolute = true) (hdir : walk t .anywhere [] dir.comps = .ok base)
    (hcomps : comps ≠ []) (hbeneath : how.beneath = false) (hroot : how.inRoot = false) :
    openat2 t cwd (dir.join ⟨false, comps⟩) how = openat2 t base ⟨false, comps⟩ how := by
  cases hvalid : how.valid with
  | false => rw [openat2_invalid hvalid, openat2_invalid hvalid]
  | true =>
    have hjoin : dir.join ⟨false, comps⟩ = ⟨true, dir.comps ++ comps⟩ := by simp [Path.join, habsolute]
    rw [hjoin, openat2_anywhere hvalid rfl hbeneath hroot,
      openat2_anywhere hvalid (by simp [Path.isEmpty, hcomps]) hbeneath hroot]
    exact openFrom_append hdir hcomps

theorem openat2_isDir_iff {path : Path ν} {place' : List ν} (h : openat2 t base path how = .ok (place', t'))
    (other : List ν) : t'.IsDir other ↔ t.IsDir other := by
  unfold openat2 at h
  split_ifs at h <;> exact openFrom_isDir_iff h other

theorem openat2_eq_ok {place' : List ν} (hup : .up ∉ comps)
    (h : openat2 t base ⟨false, comps⟩ how = .ok (place', t')) :
    base <+: place' ∧ ∀ other, other ≠ place' → t'.node other = t.node other := by
  unfold openat2 at h
  split_ifs at h <;> exact openFrom_eq_ok hup h

end Open

end FileTree
