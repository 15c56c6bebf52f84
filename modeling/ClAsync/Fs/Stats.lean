/-
# What the kernel says of a file

`statx` is asked for some fields and says in `stx_mask` which of them it has
filled in. `Stats::new` looks at the mask of the question only: a field that
was asked for is there whether the kernel filled it in or not. The mode and the
type of a descriptor come from one number, and are read where both their bits
were asked for.

A time is read as seconds and nanoseconds from the epoch. An integer that
overflows there is a panic, as in a debug build.

Key definitions: `Stats.new`, `StatxTimestamp.systemTime`, `Reports`, `IsTimeAt`.
Key theorems: `systemTime_eq`, a time; `reports_iff`, for every answer; and
`isTimeAt_iff`, for every time.
-/
import ClAsync.Fs.Directory
import ClAsync.Lib.Time

namespace ClAsync

namespace IoStatxMask

def nlink : IoStatxMask := 0x4
def uid : IoStatxMask := 0x8
def gid : IoStatxMask := 0x10
def atime : IoStatxMask := 0x20
def mtime : IoStatxMask := 0x40
def ctime : IoStatxMask := 0x80
def ino : IoStatxMask := 0x100
def size : IoStatxMask := 0x200
def blocks : IoStatxMask := 0x400
def birthtime : IoStatxMask := 0x800
def mntId : IoStatxMask := 0x1000
def dioalign : IoStatxMask := 0x2000

end IoStatxMask

namespace Statx

open Calls (Outcome)
open Time

/-! ### Times -/

/-- A `libc::statx_timestamp`. -/
structure StatxTimestamp where
  tvSec : Int64
  tvNsec : UInt32
  deriving DecidableEq, Repr

namespace StatxTimestamp

/-- What `statx_mask_time!` makes of a time. -/
def systemTime {ε : Type} (t : StatxTimestamp) : Outcome ε (Option SystemTime) :=
  if 0 ≤ t.tvSec.toInt then
    (Duration.new t.tvSec.toInt.toNat t.tvNsec.toNat).bind fun duration => .ok (checkedAdd unixEpoch duration)
  -- `-t.tv_sec`
  else if t.tvSec.toInt = -2 ^ 63 then .panics
  else
    let secsBeforeEpoch := (-t.tvSec.toInt).toNat
    if t.tvNsec.toNat = 0 then
      .ok (checkedSub unixEpoch (.fromSecs secsBeforeEpoch (by have := t.tvSec.le_toInt; omega)))
    -- `1_000_000_000 - t.tv_nsec`
    else if 10 ^ 9 < t.tvNsec.toNat then .panics
    else
      (Duration.new (secsBeforeEpoch - 1) (10 ^ 9 - t.tvNsec.toNat)).bind fun duration =>
      .ok (checkedSub unixEpoch duration)

/-- No integer overflows. -/
def Computes (t : StatxTimestamp) : Prop := 0 ≤ t.tvSec.toInt ∨ (t.tvSec.toInt ≠ -2 ^ 63 ∧ t.tvNsec.toNat ≤ 10 ^ 9)

instance (t : StatxTimestamp) : Decidable t.Computes := inferInstanceAs (Decidable (_ ∨ _))

/-- The seconds, with those in the nanoseconds, are an `i64`. -/
def Representable (t : StatxTimestamp) : Prop := t.tvSec.toInt + (t.tvNsec.toNat / 10 ^ 9 : ℕ) < 2 ^ 63

instance (t : StatxTimestamp) : Decidable t.Representable := inferInstanceAs (Decidable (_ < _))

/-- The instant that the time denotes, if it can be represented. -/
def instant (t : StatxTimestamp) : Option SystemTime :=
  if h : t.Representable then
    some ⟨t.tvSec.toInt + (t.tvNsec.toNat / 10 ^ 9 : ℕ), t.tvNsec.toNat % 10 ^ 9,
      by have := t.tvSec.le_toInt; omega, h, Nat.mod_lt _ (by decide)⟩
  else none

end StatxTimestamp

/-- **A time is read as the instant it denotes, unless an integer
overflows.** -/
theorem systemTime_eq {ε : Type} {t : StatxTimestamp} (h : t.Computes) :
    (t.systemTime : Outcome ε (Option SystemTime)) = .ok t.instant := by
  have hlt := t.tvSec.toInt_lt
  have hle := t.tvSec.le_toInt
  have hnsec := t.tvNsec.toNat_lt
  unfold StatxTimestamp.systemTime
  by_cases hsec : 0 ≤ t.tvSec.toInt
  · have hsecs : ((t.tvSec.toInt.toNat + t.tvNsec.toNat / 10 ^ 9 : ℕ) : ℤ) =
        t.tvSec.toInt + (t.tvNsec.toNat / 10 ^ 9 : ℕ) := by
      rw [Int.natCast_add, Int.toNat_of_nonneg hsec]
    rw [if_pos hsec, Duration.new, dif_pos (by omega), Outcome.ok_bind, Outcome.ok.injEq]
    unfold StatxTimestamp.instant
    by_cases hrep : t.Representable
    · rw [dif_pos hrep]
      exact checkedAdd_unixEpoch _ hsecs rfl
    · rw [dif_neg hrep]
      unfold StatxTimestamp.Representable at hrep
      exact checkedAdd_unixEpoch_of_le (by dsimp only; omega)
  · obtain ⟨hmin, hle⟩ := h.resolve_left hsec
    have hrep : t.Representable := by
      unfold StatxTimestamp.Representable
      omega
    rw [if_neg hsec, if_neg hmin, StatxTimestamp.instant, dif_pos hrep]
    by_cases hzero : t.tvNsec.toNat = 0
    · rw [if_pos hzero, checkedSub_unixEpoch _ _]
      simp only [Duration.fromSecs]
      omega
    · rw [if_neg hzero, if_neg (by omega), Duration.new, dif_pos (by omega), Outcome.ok_bind,
        checkedSub_unixEpoch _ _]
      dsimp only
      omega

theorem systemTime_panics {ε : Type} {t : StatxTimestamp} (h : ¬ t.Computes) :
    (t.systemTime : Outcome ε (Option SystemTime)) = .panics := by
  simp only [StatxTimestamp.Computes, not_or, not_and] at h
  unfold StatxTimestamp.systemTime
  rw [if_neg h.1]
  by_cases hmin : t.tvSec.toInt = -2 ^ 63
  · exact if_pos hmin
  · have hlt := Nat.not_le.mp (h.2 hmin)
    rw [if_neg hmin, if_neg (by omega), if_pos hlt]

/-! ### The answer -/

/-- A `libc::statx`. -/
structure LibcStatx where
  stxMask : IoStatxMask
  stxBlksize : UInt32
  stxNlink : UInt32
  stxUid : UInt32
  stxGid : UInt32
  stxMode : UInt16
  stxIno : UInt64
  stxSize : UInt64
  stxBlocks : UInt64
  stxAtime : StatxTimestamp
  stxBtime : StatxTimestamp
  stxCtime : StatxTimestamp
  stxMtime : StatxTimestamp
  stxRdevMajor : UInt32
  stxRdevMinor : UInt32
  stxDevMajor : UInt32
  stxDevMinor : UInt32
  stxMntId : UInt64
  stxDioMemAlign : UInt32
  stxDioOffsetAlign : UInt32
  deriving DecidableEq, Repr

/-- `mem::zeroed`. -/
def LibcStatx.zeroed : LibcStatx :=
  ⟨0, 0, 0, 0, 0, 0, 0, 0, 0, ⟨0, 0⟩, ⟨0, 0⟩, ⟨0, 0⟩, ⟨0, 0⟩, 0, 0, 0, 0, 0, 0, 0⟩

/-- `NulError`: the path is no C string. -/
structure NulError where
  bytes : List UInt8
  deriving DecidableEq, Repr

/-- `IoStatxData`, with the buffer that the kernel writes to. -/
structure IoStatxData where
  path : List UInt8
  flags : Int32
  mask : IoStatxMask
  statx : LibcStatx
  /-- The path is a `CString`. -/
  no_nul : 0 ∉ path
  deriving DecidableEq, Repr

/-- `IoStatxCompletion`: the buffer, and the mask of the question. -/
structure IoStatxCompletion where
  stats : LibcStatx
  mask : IoStatxMask
  deriving DecidableEq, Repr

/-- `IoStatxData::new`. -/
def IoStatxData.new (path : List UInt8) (flags : Int32) (mask : IoStatxMask) : Except NulError IoStatxData :=
  if h : 0 ∈ path then .error ⟨path⟩ else .ok ⟨path, flags, mask, .zeroed, h⟩

/-- The kernel writes its answer. -/
def IoStatxData.answered (d : IoStatxData) (answer : LibcStatx) : IoStatxData := { d with statx := answer }

/-- `get_completion`. -/
def IoStatxData.getCompletion (d : IoStatxData) : IoStatxCompletion := ⟨d.statx, d.mask⟩

/-! ### `Stats` -/

/-- `Stats`; what was not asked for is `None`. -/
structure Stats where
  mode : Option IoFileSystemMode
  descriptorType : Option IoFileDescriptorType
  nLinks : Option UInt32
  userId : Option UInt32
  groupId : Option UInt32
  inode : Option UInt64
  size : Option UInt64
  blockCount : Option UInt64
  blockSize : Option UInt32
  lastAccessTime : Option SystemTime
  lastModificationTime : Option SystemTime
  lastStatusChangeTime : Option SystemTime
  creationTime : Option SystemTime
  rdevMajor : Option UInt32
  rdevMinor : Option UInt32
  deviceIdMajor : Option UInt32
  deviceIdMinor : Option UInt32
  mountId : Option UInt64
  directIoMemoryAlignment : Option UInt32
  directIoOffsetAlignment : Option UInt32
  deriving DecidableEq, Repr

/-- `statx_mask!`. -/
def statxMask {α : Type} (mask flag : IoStatxMask) (field : α) : Option α :=
  if mask.contains flag then some field else none

/-- `statx_mask_time!`. -/
def statxMaskTime {ε : Type} (mask flag : IoStatxMask) (field : StatxTimestamp) :
    Outcome ε (Option SystemTime) :=
  match statxMask mask flag field with
  | some t => t.systemTime
  | none => .ok none

/-- `Stats::new`, with the mask of the question. -/
def Stats.new {ε : Type} (stats : LibcStatx) (mask : IoStatxMask) : Outcome ε Stats :=
  (statxMaskTime mask .atime stats.stxAtime).bind fun lastAccessTime =>
  (statxMaskTime mask .mtime stats.stxMtime).bind fun lastModificationTime =>
  (statxMaskTime mask .ctime stats.stxCtime).bind fun lastStatusChangeTime =>
  (statxMaskTime mask .birthtime stats.stxBtime).bind fun creationTime =>
  .ok
    { mode := (statxMask mask .typeOrMode stats.stxMode).map fun mode => .ofModeT mode.toUInt32
      descriptorType := statxMask mask .typeOrMode (.ofModeT stats.stxMode.toUInt32)
      nLinks := statxMask mask .nlink stats.stxNlink
      userId := statxMask mask .uid stats.stxUid
      groupId := statxMask mask .gid stats.stxGid
      inode := statxMask mask .ino stats.stxIno
      size := statxMask mask .size stats.stxSize
      blockCount := statxMask mask .blocks stats.stxBlocks
      blockSize := statxMask mask .blocks stats.stxBlksize
      lastAccessTime
      lastModificationTime
      lastStatusChangeTime
      creationTime
      rdevMajor := statxMask mask .typeOrMode stats.stxRdevMajor
      rdevMinor := statxMask mask .typeOrMode stats.stxRdevMinor
      deviceIdMajor := statxMask mask .ino stats.stxDevMajor
      deviceIdMinor := statxMask mask .ino stats.stxDevMinor
      mountId := statxMask mask .mntId stats.stxMntId
      directIoMemoryAlignment := statxMask mask .dioalign stats.stxDioMemAlign
      directIoOffsetAlignment := statxMask mask .dioalign stats.stxDioOffsetAlign }

/-- `try_from_completion` of the completion of a `statx`. -/
def Stats.tryFromCompletion {ε : Type} (data : IoStatxCompletion) : Outcome ε Stats := Stats.new data.stats data.mask

/-! ### What was filled in -/

/-- The field was asked for and is in the answer. -/
def Filled (requested answered flag : IoStatxMask) : Prop :=
  requested.contains flag = true ∧ answered.contains flag = true

/-- Whether each field is there, beside the bits that govern it. The numbers of
a device file go with the mode. -/
def Stats.fields (stats : Stats) : List (IoStatxMask × Bool) :=
  [(.mode, stats.mode.isSome), (.type, stats.descriptorType.isSome), (.nlink, stats.nLinks.isSome),
    (.uid, stats.userId.isSome), (.gid, stats.groupId.isSome), (.ino, stats.inode.isSome),
    (.size, stats.size.isSome), (.blocks, stats.blockCount.isSome), (.blocks, stats.blockSize.isSome),
    (.atime, stats.lastAccessTime.isSome), (.mtime, stats.lastModificationTime.isSome),
    (.ctime, stats.lastStatusChangeTime.isSome), (.birthtime, stats.creationTime.isSome),
    (.typeOrMode, stats.rdevMajor.isSome), (.typeOrMode, stats.rdevMinor.isSome),
    (.ino, stats.deviceIdMajor.isSome), (.ino, stats.deviceIdMinor.isSome), (.mntId, stats.mountId.isSome),
    (.dioalign, stats.directIoMemoryAlignment.isSome), (.dioalign, stats.directIoOffsetAlignment.isSome)]

/-- The fields that are there are those that were asked for and filled in. -/
def Reports (requested answered : IoStatxMask) (stats : Stats) : Prop :=
  ∀ field ∈ stats.fields, field.2 = true ↔ Filled requested answered field.1

/-- The bits of the fields that are no times, and are read by themselves. -/
def plainBits : List IoStatxMask := [.nlink, .uid, .gid, .ino, .size, .blocks, .mntId, .dioalign]

/-- The four times of an answer, each under its bit. -/
def LibcStatx.times (statx : LibcStatx) : List (IoStatxMask × StatxTimestamp) :=
  [(.atime, statx.stxAtime), (.mtime, statx.stxMtime), (.ctime, statx.stxCtime), (.birthtime, statx.stxBtime)]

/-- The kernel fills in what it is asked for. Of the type and the mode it fills
in both when it is asked for both, and not the one that it is asked for alone;
of the times those that can be represented. -/
structure Honoured (requested : IoStatxMask) (statx : LibcStatx) : Prop where
  mode : requested.contains .mode = true →
    (statx.stxMask.contains .mode = true ↔ requested.contains .type = true)
  type : requested.contains .type = true →
    (statx.stxMask.contains .type = true ↔ requested.contains .mode = true)
  plain : ∀ flag ∈ plainBits, requested.contains flag = true → statx.stxMask.contains flag = true
  times : ∀ time ∈ statx.times, requested.contains time.1 = true →
    time.2.Computes ∧ (statx.stxMask.contains time.1 = true ↔ time.2.Representable)

/-! ### Every answer -/

theorem contains_typeOrMode (mask : IoStatxMask) :
    mask.contains .typeOrMode = true ↔ mask.contains .type = true ∧ mask.contains .mode = true := by
  unfold IoStatxMask.contains IoStatxMask.typeOrMode IoStatxMask.type IoStatxMask.mode
  rw [beq_iff_eq, beq_iff_eq, beq_iff_eq]
  constructor
  · intro h
    have htype : mask &&& 1 = (mask &&& (1 ||| 2)) &&& 1 := by
      rw [UInt32.and_assoc]
      rfl
    have hmode : mask &&& 2 = (mask &&& (1 ||| 2)) &&& 2 := by
      rw [UInt32.and_assoc]
      rfl
    rw [htype, hmode, h]
    exact ⟨rfl, rfl⟩
  · rintro ⟨htype, hmode⟩
    have hor : mask &&& (1 ||| 2) = mask &&& 1 ||| mask &&& 2 := UInt32.toBitVec_inj.mp BitVec.and_or_distrib_left
    rw [hor, htype, hmode]

theorem isSome_statxMask {α : Type} (mask flag : IoStatxMask) (field : α) :
    (statxMask mask flag field).isSome = mask.contains flag := by
  unfold statxMask
  cases mask.contains flag <;> rfl

section Time

variable {ε : Type} {mask flag : IoStatxMask} {t : StatxTimestamp}

theorem isSome_instant : t.instant.isSome = true ↔ t.Representable := by
  unfold StatxTimestamp.instant
  by_cases h : t.Representable
  · rw [dif_pos h]
    exact iff_of_true rfl h
  · rw [dif_neg h]
    exact iff_of_false Bool.false_ne_true h

theorem isSome_time : (if mask.contains flag then t.instant else none).isSome = true ↔
    mask.contains flag = true ∧ t.Representable := by
  by_cases hflag : mask.contains flag = true
  · rw [if_pos hflag, isSome_instant, and_iff_right hflag]
  · rw [if_neg hflag]
    exact iff_of_false Bool.false_ne_true fun h => hflag h.1

/-- A time that is asked for and can be computed is its instant. -/
theorem statxMaskTime_eq (h : mask.contains flag = true → t.Computes) :
    (statxMaskTime mask flag t : Outcome ε (Option SystemTime)) =
      .ok (if mask.contains flag then t.instant else none) := by
  unfold statxMaskTime statxMask
  by_cases hflag : mask.contains flag = true
  · simp only [hflag, if_true]
    exact systemTime_eq (h hflag)
  · simp only [hflag, if_false, Bool.false_eq_true]

theorem computes_of_ok {time : Option SystemTime} (h : (statxMaskTime mask flag t : Outcome ε _) = .ok time)
    (hflag : mask.contains flag = true) : t.Computes := by
  by_contra hno
  unfold statxMaskTime statxMask at h
  simp only [hflag, if_true, systemTime_panics hno] at h
  cases h

end Time

/-- What is there when every time that is asked for can be computed. -/
theorem new_eq {requested : IoStatxMask} {statx : LibcStatx}
    (h : ∀ time ∈ statx.times, requested.contains time.1 = true → time.2.Computes) :
    ∃ stats : Stats, (Stats.new statx requested : Outcome Empty Stats) = .ok stats ∧
      ∀ answered, Reports requested answered stats ↔
        (requested.contains .typeOrMode = true ↔ Filled requested answered .mode) ∧
        (requested.contains .typeOrMode = true ↔ Filled requested answered .type) ∧
        (requested.contains .typeOrMode = true ↔ Filled requested answered .typeOrMode) ∧
        (∀ flag ∈ plainBits, requested.contains flag = true ↔ Filled requested answered flag) ∧
        ∀ time ∈ statx.times, requested.contains time.1 = true ∧ time.2.Representable ↔
          Filled requested answered time.1 := by
  simp only [LibcStatx.times, List.forall_mem_cons] at h
  obtain ⟨hatime, hmtime, hctime, hbtime, -⟩ := h
  refine ⟨_, by rw [Stats.new, statxMaskTime_eq hatime, Outcome.ok_bind, statxMaskTime_eq hmtime, Outcome.ok_bind,
    statxMaskTime_eq hctime, Outcome.ok_bind, statxMaskTime_eq hbtime, Outcome.ok_bind], fun answered => ?_⟩
  simp only [Reports, Stats.fields, plainBits, LibcStatx.times, List.forall_mem_cons, isSome_statxMask,
    Option.isSome_map, isSome_time, List.not_mem_nil, false_implies, implies_true, and_true]
  constructor
  · rintro ⟨hmode, htype, hnlink, huid, hgid, hino, hsize, hblocks, -, hatime, hmtime, hctime, hbtime, hrdev, -, -, -,
      hmnt, hdio, -⟩
    exact ⟨hmode, htype, hrdev, ⟨hnlink, huid, hgid, hino, hsize, hblocks, hmnt, hdio⟩, hatime, hmtime, hctime, hbtime⟩
  · rintro ⟨hmode, htype, hrdev, ⟨hnlink, huid, hgid, hino, hsize, hblocks, hmnt, hdio⟩, hatime, hmtime, hctime,
      hbtime⟩
    exact ⟨hmode, htype, hnlink, huid, hgid, hino, hsize, hblocks, hblocks, hatime, hmtime, hctime, hbtime, hrdev,
      hrdev, hino, hino, hmnt, hdio, hdio⟩

/-- The fields of a `Stats` are those that were filled in exactly if the kernel
honoured the question. -/
theorem reports_of_computes {requested : IoStatxMask} {statx : LibcStatx} {stats : Stats}
    (h : ∀ time ∈ statx.times, requested.contains time.1 = true → time.2.Computes)
    (hstats : (Stats.new statx requested : Outcome Empty Stats) = .ok stats) :
    Reports requested statx.stxMask stats ↔ Honoured requested statx := by
  obtain ⟨stats', hnew, hreports⟩ := new_eq h
  rw [hnew] at hstats
  cases hstats
  rw [hreports, contains_typeOrMode]
  unfold Filled
  rw [contains_typeOrMode, contains_typeOrMode]
  constructor
  · rintro ⟨hmode, htype, -, hplain, htimes⟩
    refine ⟨fun hM => ?_, fun hT => ?_, fun flag hflag hreq => ((hplain flag hflag).mp hreq).2,
      fun time htime hreq => ⟨h time htime hreq, ?_⟩⟩
    · exact ⟨fun ha => (hmode.mpr ⟨hM, ha⟩).1, fun hT => (hmode.mp ⟨hT, hM⟩).2⟩
    · exact ⟨fun ha => (htype.mpr ⟨hT, ha⟩).2, fun hM => (htype.mp ⟨hT, hM⟩).2⟩
    · exact ⟨fun ha => ((htimes time htime).mpr ⟨hreq, ha⟩).2, fun hrep => ((htimes time htime).mp ⟨hreq, hrep⟩).2⟩
  · intro hh
    refine ⟨⟨fun ⟨hT, hM⟩ => ⟨hM, (hh.mode hM).mpr hT⟩, fun ⟨hM, ha⟩ => ⟨(hh.mode hM).mp ha, hM⟩⟩,
      ⟨fun ⟨hT, hM⟩ => ⟨hT, (hh.type hT).mpr hM⟩, fun ⟨hT, ha⟩ => ⟨hT, (hh.type hT).mp ha⟩⟩,
      ⟨fun ⟨hT, hM⟩ => ⟨⟨hT, hM⟩, (hh.type hT).mpr hM, (hh.mode hM).mpr hT⟩, And.left⟩,
      fun flag hflag => ⟨fun hreq => ⟨hreq, hh.plain flag hflag hreq⟩, And.left⟩,
      fun time htime => ⟨fun ⟨hreq, hrep⟩ => ⟨hreq, (hh.times time htime hreq).2.mpr hrep⟩,
        fun ⟨hreq, ha⟩ => ⟨hreq, (hh.times time htime hreq).2.mp ha⟩⟩⟩

/-- A `Stats` is only built when the times that were asked for can be computed. -/
theorem computes_of_new {requested : IoStatxMask} {statx : LibcStatx} {stats : Stats}
    (h : (Stats.new statx requested : Outcome Empty Stats) = .ok stats) :
    ∀ time ∈ statx.times, requested.contains time.1 = true → time.2.Computes := by
  obtain ⟨_, hatime, h⟩ := Outcome.bind_eq_ok.mp h
  obtain ⟨_, hmtime, h⟩ := Outcome.bind_eq_ok.mp h
  obtain ⟨_, hctime, h⟩ := Outcome.bind_eq_ok.mp h
  obtain ⟨_, hbtime, -⟩ := Outcome.bind_eq_ok.mp h
  simp only [LibcStatx.times, List.forall_mem_cons, List.not_mem_nil, false_implies, implies_true, and_true]
  exact ⟨computes_of_ok hatime, computes_of_ok hmtime, computes_of_ok hctime, computes_of_ok hbtime⟩

/-- **`Stats` reports what the kernel filled in exactly if the kernel honours
the question.** -/
theorem reports_iff (d : IoStatxData) (answer : LibcStatx) :
    (∃ stats, (Stats.tryFromCompletion (d.answered answer).getCompletion : Outcome Empty Stats) = .ok stats ∧
      Reports d.mask answer.stxMask stats) ↔ Honoured d.mask answer := by
  constructor
  · rintro ⟨stats, hstats, hreports⟩
    exact (reports_of_computes (computes_of_new hstats) hstats).mp hreports
  · intro hh
    have hcomputes : ∀ time ∈ answer.times, d.mask.contains time.1 = true → time.2.Computes :=
      fun time htime hreq => (hh.times time htime hreq).1
    obtain ⟨stats, hstats, -⟩ := new_eq hcomputes
    exact ⟨stats, hstats, (reports_of_computes hcomputes hstats).mpr hh⟩

/-- A file system without birth times. -/
def noBirthTime : LibcStatx := { LibcStatx.zeroed with stxMask := 0x7ff }

theorem reports_fails : ¬ ∃ stats, (Stats.tryFromCompletion
    ((⟨[], 0, .birthtime, .zeroed, by decide⟩ : IoStatxData).answered noBirthTime).getCompletion :
      Outcome Empty Stats) = .ok stats ∧ Reports .birthtime noBirthTime.stxMask stats := by
  rintro ⟨stats, hstats, hreports⟩
  cases hstats
  have hfilled := (hreports (.birthtime, true) (by decide)).mp rfl
  exact absurd hfilled.2 (by decide)

/-! ### Instants -/

/-- The instant that a timestamp names, in nanoseconds from the epoch. -/
def StatxTimestamp.sinceEpoch (t : StatxTimestamp) : ℤ := t.tvSec.toInt * 10 ^ 9 + t.tvNsec.toNat

/-- The `SystemTime` at an instant, if there is one. -/
def IsTimeAt (nanos : ℤ) : Option SystemTime → Prop
  | some time => time.sinceEpoch = nanos
  | none => ∀ time : SystemTime, time.sinceEpoch ≠ nanos

theorem isTimeAt_instant (t : StatxTimestamp) : IsTimeAt t.sinceEpoch t.instant := by
  have hnsec : t.tvNsec.toNat = t.tvNsec.toNat / 10 ^ 9 * 10 ^ 9 + t.tvNsec.toNat % 10 ^ 9 := by omega
  unfold StatxTimestamp.instant
  by_cases hrep : t.Representable
  · rw [dif_pos hrep]
    show (t.tvSec.toInt + (t.tvNsec.toNat / 10 ^ 9 : ℕ)) * 10 ^ 9 + ((t.tvNsec.toNat % 10 ^ 9 : ℕ) : ℤ) =
      t.tvSec.toInt * 10 ^ 9 + t.tvNsec.toNat
    omega
  · rw [dif_neg hrep]
    intro time heq
    -- the seconds are determined, and one more than a `SystemTime` has
    have hsecs : time.secs = t.tvSec.toInt + (t.tvNsec.toNat / 10 ^ 9 : ℕ) := by
      have hnanos := time.nanos_lt
      unfold SystemTime.sinceEpoch StatxTimestamp.sinceEpoch at heq
      omega
    apply hrep
    unfold StatxTimestamp.Representable
    rw [← hsecs]
    exact time.secs_lt

/-- The kernel's nanoseconds are less than a second. -/
theorem computes_iff {t : StatxTimestamp} (hnsec : t.tvNsec.toNat < 10 ^ 9) :
    t.Computes ↔ t.tvSec.toInt ≠ -2 ^ 63 := by
  unfold StatxTimestamp.Computes
  omega

/-- **A time that was asked for is the one at its instant exactly if its
seconds can be negated.** -/
theorem isTimeAt_iff {mask flag : IoStatxMask} {t : StatxTimestamp} (hflag : mask.contains flag = true)
    (hnsec : t.tvNsec.toNat < 10 ^ 9) :
    (∃ time, (statxMaskTime mask flag t : Outcome Empty (Option SystemTime)) = .ok time ∧
      IsTimeAt t.sinceEpoch time) ↔ t.tvSec.toInt ≠ -2 ^ 63 := by
  rw [← computes_iff hnsec]
  constructor
  · rintro ⟨time, htime, -⟩
    exact computes_of_ok htime hflag
  · intro hcomputes
    refine ⟨t.instant, ?_, isTimeAt_instant t⟩
    rw [statxMaskTime_eq fun _ => hcomputes, if_pos hflag]

/-- Half a second before the epoch. -/
theorem isTimeAt_half_before : (∃ time, (statxMaskTime .mtime .mtime ⟨-1, 500000000⟩ :
    Outcome Empty (Option SystemTime)) = .ok time ∧ IsTimeAt (-500000000) time) ↔ (-1 : Int64).toInt ≠ -2 ^ 63 :=
  isTimeAt_iff (by decide) (by decide)

theorem isTimeAt_fails : ¬ ∃ time, (statxMaskTime .mtime .mtime ⟨Int64.minValue, 0⟩ :
    Outcome Empty (Option SystemTime)) = .ok time ∧
      IsTimeAt (StatxTimestamp.sinceEpoch ⟨Int64.minValue, 0⟩) time := by
  rintro ⟨time, htime, -⟩
  have hpanics : (statxMaskTime .mtime .mtime ⟨Int64.minValue, 0⟩ : Outcome Empty (Option SystemTime)) = .panics := by
    decide
  rw [hpanics] at htime
  cases htime

/-- The times of a `Stats`, in the order of `LibcStatx.times`. -/
def Stats.times (stats : Stats) : List (Option SystemTime) :=
  [stats.lastAccessTime, stats.lastModificationTime, stats.lastStatusChangeTime, stats.creationTime]

theorem field_of_ok {requested flag : IoStatxMask} {t : StatxTimestamp} {time : Option SystemTime}
    (h : (statxMaskTime requested flag t : Outcome Empty _) = .ok time) :
    if requested.contains flag then IsTimeAt t.sinceEpoch time else time = none := by
  rw [statxMaskTime_eq (computes_of_ok h), Outcome.ok.injEq] at h
  by_cases hflag : requested.contains flag = true
  · rw [if_pos hflag] at h ⊢
    exact h ▸ isTimeAt_instant t
  · rw [if_neg hflag] at h ⊢
    exact h.symm

/-- **The times of a `Stats` are those at the instants of the answer.** -/
theorem times_new {requested : IoStatxMask} {statx : LibcStatx} {stats : Stats}
    (h : (Stats.new statx requested : Outcome Empty Stats) = .ok stats) :
    List.Forall₂ (fun time field => if requested.contains time.1 then IsTimeAt time.2.sinceEpoch field
      else field = none) statx.times stats.times := by
  obtain ⟨_, hatime, h⟩ := Outcome.bind_eq_ok.mp h
  obtain ⟨_, hmtime, h⟩ := Outcome.bind_eq_ok.mp h
  obtain ⟨_, hctime, h⟩ := Outcome.bind_eq_ok.mp h
  obtain ⟨_, hbtime, h⟩ := Outcome.bind_eq_ok.mp h
  cases h
  exact .cons (field_of_ok hatime) (.cons (field_of_ok hmtime) (.cons (field_of_ok hctime)
    (.cons (field_of_ok hbtime) .nil)))

end Statx
end ClAsync
