/-
# What a control buffer reveals

`try_prepare` and `try_prepare_multi` write into a fresh buffer whose content
nobody has set. A header and the payload are written over it; the bytes
between the payload and the next multiple of eight are not, and they are sent
with the rest. So the bytes that are sent are those of the messages alone
exactly if no message leaves a gap (`Gapless`).

Key definitions: `Determined`, `Gapless`, `block`.
Key theorems: `tryPrepareMulti_same_iff`, one list, and `determined_iff`.
-/
import ClAsync.Io.ControlCodec

namespace ClAsync
namespace Message

open Calls Layout

/-- Whatever the fresh buffers contain, the list is prepared as the same bytes:
those of its messages, each prepared by itself. -/
def Determined (msgs : List IoControlMessage) : Prop :=
  ∃ outputs : List (List UInt8), (∀ alloc, tryPrepareMulti alloc msgs = .ok outputs.flatten) ∧
    List.Forall₂ (fun msg output => ∀ alloc, tryPrepare alloc msg = .ok output) msgs outputs

/-- The message fills the space it takes: a timestamp that is not before the
epoch, or an even number of file descriptors, at least two, that leaves room for
the header in a `c_uint`. -/
def IoControlMessage.Gapless (msg : IoControlMessage) : Prop :=
  match msg.level with
  | .socket (.rights fds) => fds ≠ [] ∧ fds.length % 2 = 0 ∧ fds.length ≤ 2 ^ 30 - 6
  | .socket (.timestamp t) => t.NotBeforeEpoch
  | _ => False

/-! ### Gaps -/

/-- The bytes between a payload and the next header. -/
def gap (raw : RawControlMessageOut) : ℕ := cmsgSpace raw.payload.length - (16 + raw.payload.length)

/-- A block of the row whose padding is all `b`. -/
def block (b : UInt8) (raw : RawControlMessageOut) : List UInt8 :=
  toBytes raw.header ++ (raw.payload ++ List.replicate (gap raw) b)

section Gap

variable {raw : RawControlMessageOut} (hfits : PayloadFits raw.payload.length)

include hfits

theorem gap_add : 16 + raw.payload.length + gap raw = cmsgSpace raw.payload.length := by
  have hspace := cmsgSpace_of_fits hfits
  rw [gap]
  omega

theorem gap_eq_zero_iff : gap raw = 0 ↔ raw.payload.length % 8 = 0 := by
  rw [gap, cmsgSpace_of_fits hfits]
  omega

end Gap

theorem gapless_iff {msg : IoControlMessage} {raw : RawControlMessageOut} (h : msg.level.prepare = .ok raw) :
    msg.Gapless ↔ PayloadFits raw.payload.length ∧ raw.payload.length % 8 = 0 := by
  have hprep := preparable_of_ok h
  rw [length_payload h, PayloadFits, IoControlMessage.Gapless]
  cases hlevel : msg.level with
  | socket level =>
    rw [hlevel] at hprep
    cases level with
    | rights fds =>
      have hne : fds ≠ [] := hprep
      simp only [IoControlMessageLevel.wireSize, size_int32]
      rw [and_iff_right hne]
      omega
    | timestamp t =>
      have hsize : (IoControlMessageLevel.socket (.timestamp t)).wireSize = 16 := rfl
      rw [hsize]
      exact iff_of_true hprep (by decide)
    | detailedTimestamp software hardware =>
      rw [hlevel] at h
      cases h
    | _ => simp [IoControlMessageLevel.wireSize]
  | ipV4 level => cases level <;> simp [IoControlMessageLevel.wireSize]
  | ipV6 level => cases level <;> simp [IoControlMessageLevel.wireSize]
  | tls level => simp [IoControlMessageLevel.wireSize, size]

/-! ### What is written -/

/-- Without gaps a row is the headers and the payloads. -/
theorem row_eq {raws : List RawControlMessageOut} {bytes : List UInt8} (h : Row raws bytes) (b : UInt8)
    (hgaps : ∀ raw ∈ raws, PayloadFits raw.payload.length ∧ gap raw = 0) : bytes = raws.flatMap (block b) := by
  induction h with
  | nil => rfl
  | @cons raw raws pad bytes hpad h ih =>
    obtain ⟨hfits, hgap⟩ := hgaps raw List.mem_cons_self
    have hlen := gap_add hfits
    have hnil : pad = [] := List.eq_nil_of_length_eq_zero (by omega)
    rw [List.flatMap_cons, ← ih fun raw hraw => hgaps raw (List.mem_cons_of_mem _ hraw), hnil, block, hgap]
    simp

/-- A fresh buffer of one byte over and over shows in every gap. -/
theorem putAll_replicate {ε : Type} (b : UInt8) {raws : List RawControlMessageOut}
    (hfits : ∀ raw ∈ raws, PayloadFits raw.payload.length) (before : List UInt8) :
    (putAll (before ++ List.replicate (raws.map fun raw => (withSpace raw).2).sum b) before.length
      (raws.map withSpace) : Outcome ε (List UInt8)) = .ok (before ++ raws.flatMap (block b)) := by
  induction raws generalizing before with
  | nil => rfl
  | cons raw raws ih =>
    have hraw := hfits raw List.mem_cons_self
    have hspace : (withSpace raw).2 = 16 + raw.payload.length + gap raw := by
      rw [withSpace, cUint_of_fits hraw, gap_add hraw]
    have hnext : before.length + (withSpace raw).2 = (before ++ block b raw).length := by
      rw [hspace, block]
      simp only [List.length_append, Plain.length_toBytes, size_cmsghdr, List.length_replicate]
      omega
    have hput := @putMessage_append ε before (List.replicate 16 b) (List.replicate raw.payload.length b)
      (List.replicate (gap raw) b ++ List.replicate (raws.map fun raw => (withSpace raw).2).sum b) raw
      List.length_replicate List.length_replicate
    have hrest := ih (fun raw hraw => hfits raw (List.mem_cons_of_mem _ hraw)) (before ++ block b raw)
    rw [List.map_cons, List.sum_cons, hspace, List.replicate_add, List.replicate_add, List.replicate_add,
      List.append_assoc, List.append_assoc, List.map_cons, withSpace, putAll, hput, Outcome.ok_bind]
    rw [← hnext] at hrest
    simpa only [List.append_assoc, List.flatMap_cons, block, withSpace] using hrest

/-- Two contents show the same only where there is no gap. -/
theorem gap_eq_zero_of_flatMap_eq {raws : List RawControlMessageOut}
    (h : raws.flatMap (block 0) = raws.flatMap (block 1)) : ∀ raw ∈ raws, gap raw = 0 := by
  induction raws with
  | nil =>
    intro raw hraw
    cases hraw
  | cons raw raws ih =>
    rw [List.flatMap_cons, List.flatMap_cons] at h
    obtain ⟨hblock, hrest⟩ := List.append_inj h (by simp [block])
    intro other hother
    rcases List.mem_cons.mp hother with rfl | hother
    · have hpads := List.append_cancel_left (List.append_cancel_left hblock)
      by_contra hne
      rw [List.replicate_inj] at hpads
      exact absurd (hpads.2.resolve_left hne) (by decide)
    · exact ih hrest other hother

section Prepared

variable {msgs : List IoControlMessage} {raws : List RawControlMessageOut}
  (hprep : List.Forall₂ (fun msg raw => msg.level.prepare = .ok raw) msgs raws)
  (hfits : ∀ raw ∈ raws, PayloadFits raw.payload.length)

include hprep hfits

theorem tryPrepareMulti_replicate (b : UInt8) :
    tryPrepareMulti (fun n => Vector.replicate n b) msgs = .ok (raws.flatMap (block b)) := by
  have hput := @putAll_replicate PrepareControlMessageError b raws hfits []
  rw [tryPrepareMulti, prepareAll_of_forall₂ hprep, Outcome.ok_bind, Vector.toList_replicate, List.map_map]
  exact hput

theorem tryPrepareMulti_of_gaps (hgaps : ∀ raw ∈ raws, gap raw = 0) (alloc : (n : ℕ) → Vector UInt8 n) :
    tryPrepareMulti alloc msgs = .ok (raws.flatMap (block 0)) := by
  obtain ⟨bytes, hrow, hbytes⟩ := exists_row alloc hprep hfits
  rw [hbytes, row_eq hrow 0 fun raw hraw => ⟨hfits raw hraw, hgaps raw hraw⟩]

/-- **A list of messages that fit is written as the same bytes into every
buffer exactly if none of them leaves a gap.** -/
theorem tryPrepareMulti_same_iff :
    (∀ alloc alloc', tryPrepareMulti alloc msgs = tryPrepareMulti alloc' msgs) ↔ ∀ raw ∈ raws, gap raw = 0 := by
  constructor
  · intro hsame
    have hflat := hsame (fun n => Vector.replicate n 0) (fun n => Vector.replicate n 1)
    rw [tryPrepareMulti_replicate hprep hfits, tryPrepareMulti_replicate hprep hfits] at hflat
    exact gap_eq_zero_of_flatMap_eq (Outcome.ok.inj hflat)
  · intro hgaps alloc alloc'
    rw [tryPrepareMulti_of_gaps hprep hfits hgaps, tryPrepareMulti_of_gaps hprep hfits hgaps]

end Prepared

/-- A payload that has been written into a buffer of its space fits. -/
theorem fits_of_tryPrepare {alloc : (n : ℕ) → Vector UInt8 n} {msg : IoControlMessage} {raw : RawControlMessageOut}
    {bytes : List UInt8} (hraw : msg.level.prepare = .ok raw) (h : tryPrepare alloc msg = .ok bytes) :
    PayloadFits raw.payload.length := by
  rw [tryPrepare, hraw, Outcome.ok_bind, putMessage] at h
  obtain ⟨mem, hstore, hwrite⟩ := Outcome.bind_eq_ok.mp h
  have hmem := length_writeAt (Outcome.ofOption_eq_ok.mp hstore)
  have hwrite := Outcome.ofOption_eq_ok.mp hwrite
  rw [Vector.length_toList] at hmem
  unfold writeAt at hwrite
  split at hwrite
  · rename_i hle
    simp only [hmem, cmsgData, size_cmsghdr, cmsgSpace, cUint, cmsgAlign] at hle
    unfold PayloadFits
    omega
  · cases hwrite

/-! ### Every list -/

theorem preparable_of_gapless {msg : IoControlMessage} (h : msg.Gapless) : msg.level.Preparable := by
  unfold IoControlMessage.Gapless at h
  cases hlevel : msg.level with
  | socket level =>
    rw [hlevel] at h
    cases level with
    | rights fds => exact h.1
    | timestamp t => exact h
    | _ => exact h.elim
  | _ => trivial

/-- **The bytes are those of the messages alone exactly if no message leaves a
gap.** -/
theorem determined_iff {msgs : List IoControlMessage} (h : ∀ msg ∈ msgs, ¬ msg.Rejected) :
    Determined msgs ↔ ∀ msg ∈ msgs, msg.Gapless := by
  constructor
  · rintro ⟨outputs, -, houtputs⟩ msg hmsg
    obtain ⟨output, -, houtput⟩ := exists_of_forall₂ houtputs hmsg
    obtain ⟨raw, hraw, -⟩ := Outcome.bind_eq_ok.mp (houtput fun n => Vector.replicate n 0)
    have hfits := fits_of_tryPrepare hraw (houtput fun n => Vector.replicate n 0)
    have hgaps := (tryPrepareMulti_same_iff (.cons hraw .nil) (by simpa using hfits)).mp fun alloc alloc' => by
      rw [← tryPrepare_eq, ← tryPrepare_eq, houtput, houtput]
    exact (gapless_iff hraw).mpr ⟨hfits, (gap_eq_zero_iff hfits).mp (hgaps raw List.mem_cons_self)⟩
  · intro hgapless
    have hprepared : ∀ msg ∈ msgs, ∃ raw, msg.level.prepare = .ok raw ∧ PayloadFits raw.payload.length ∧
        gap raw = 0 := by
      intro msg hmsg
      have hprep := preparable_of_gapless (hgapless msg hmsg)
      obtain ⟨raw, hraw⟩ := (prepare_ok_or_err hprep).resolve_right (h msg hmsg)
      obtain ⟨hfits, hmod⟩ := (gapless_iff hraw).mp (hgapless msg hmsg)
      exact ⟨raw, hraw, hfits, (gap_eq_zero_iff hfits).mpr hmod⟩
    obtain ⟨raws, hraws⟩ := exists_forall₂ hprepared
    have hfits : ∀ raw ∈ raws, PayloadFits raw.payload.length ∧ gap raw = 0 := by
      intro raw hraw
      obtain ⟨msg, -, -, hfits⟩ := exists_of_forall₂_right hraws hraw
      exact hfits
    refine ⟨raws.map (block 0), fun alloc => ?_, List.forall₂_map_right_iff.mpr (hraws.imp fun msg raw hraw alloc => ?_)⟩
    · rw [← List.flatMap_def]
      exact tryPrepareMulti_of_gaps (hraws.imp fun _ _ hraw => hraw.1) (fun raw hraw => (hfits raw hraw).1)
        (fun raw hraw => (hfits raw hraw).2) alloc
    · rw [tryPrepare_eq, tryPrepareMulti_of_gaps (.cons hraw.1 .nil) (by simpa using hraw.2.1)
        (by simpa using hraw.2.2), List.flatMap_singleton]

/-- File descriptors in pairs are sent as they are. -/
theorem determined_pair : Determined [⟨.socket (.rights [3, 4])⟩] := by
  refine (determined_iff fun msg hmsg => ?_).mpr (by simp [IoControlMessage.Gapless])
  rintro ⟨e, he⟩
  rw [List.mem_singleton.mp hmsg, prepare_rights (List.cons_ne_nil 3 [4])] at he
  cases he

/-- The four bytes after a time to live are whatever was in the buffer. -/
theorem determined_fails : ¬ Determined [⟨.ipV4 (.timeToLive 64)⟩] := by
  rintro ⟨outputs, hsame, -⟩
  have hzero := hsame fun n => Vector.replicate n 0
  rw [← hsame fun n => Vector.replicate n 1] at hzero
  exact absurd hzero (by decide)

end Message
end ClAsync
