/-
# Values in memory

Memory is a list of bytes and a pointer an offset into it. A type is `Plain`
when its values are copied byte by byte: they all take the same number of
bytes, and the bytes give the value back. The integers are stored with the
least significant byte first.

* `leBytes`, `leNat`: a number in `k` bytes and back.
* `Plain`: the class, with instances for the integers, for pairs (a `repr(C)`
  struct without padding is nested pairs) and for arrays of bytes, and
  `Plain.ofRetract` for a struct.
* `swapBytes`: the byte order of the network.
* `toBytesAll`, `ofBytesAll`: a slice of values.
* `readAt`, `writeAt`: an access at an offset, `none` when it reaches outside
  of the memory.
-/
import Mathlib.Data.List.OfFn
import Mathlib.Tactic.Common
import Mathlib.Tactic.Ring

namespace Layout

/-! ### Little-endian numbers -/

/-- The last `k` bytes of a number, the least significant one first. -/
def leBytes : ℕ → ℕ → List UInt8
  | 0, _ => []
  | k + 1, n => UInt8.ofNat n :: leBytes k (n / 256)

/-- The number that the bytes stand for. -/
def leNat : List UInt8 → ℕ
  | [] => 0
  | b :: bs => b.toNat + 256 * leNat bs

@[simp] theorem length_leBytes (k n : ℕ) : (leBytes k n).length = k := by
  induction k generalizing n with
  | zero => rfl
  | succ k ih => rw [leBytes, List.length_cons, ih]

theorem leNat_leBytes (k n : ℕ) : leNat (leBytes k n) = n % 256 ^ k := by
  induction k generalizing n with
  | zero => rw [leBytes, leNat, pow_zero, Nat.mod_one]
  | succ k ih =>
    have hpow : 256 ^ (k + 1) = 256 * 256 ^ k := pow_succ' 256 k
    rw [leBytes, leNat, ih, UInt8.toNat_ofNat', hpow, Nat.mod_mul]

theorem leBytes_leNat (bs : List UInt8) : leBytes bs.length (leNat bs) = bs := by
  induction bs with
  | nil => rfl
  | cons b bs ih =>
    have hlt := b.toNat_lt
    have hdiv : (b.toNat + 256 * leNat bs) / 256 = leNat bs := by omega
    have hhead : UInt8.ofNat (b.toNat + 256 * leNat bs) = b := by
      apply UInt8.toNat_inj.mp
      rw [UInt8.toNat_ofNat']
      omega
    rw [List.length_cons, leNat, leBytes, hdiv, hhead, ih]

theorem leNat_lt (bs : List UInt8) : leNat bs < 256 ^ bs.length := by
  induction bs with
  | nil => rw [leNat, List.length_nil, pow_zero]; exact Nat.one_pos
  | cons b bs ih =>
    have hlt := b.toNat_lt
    have hpow : 256 ^ (b :: bs).length = 256 * 256 ^ bs.length := pow_succ' 256 bs.length
    rw [leNat, hpow]
    omega

/-! ### Plain types -/

/-- A type whose values are copied byte by byte. -/
class Plain (α : Type) where
  size : ℕ
  toBytes : α → List UInt8
  ofBytes : List UInt8 → α
  length_toBytes : ∀ a, (toBytes a).length = size
  ofBytes_toBytes : ∀ a, ofBytes (toBytes a) = a

export Plain (size toBytes ofBytes)

attribute [simp] Plain.length_toBytes Plain.ofBytes_toBytes

instance : Plain UInt8 where
  size := 1
  toBytes x := [x]
  ofBytes bs := bs.headD 0
  length_toBytes _ := rfl
  ofBytes_toBytes _ := rfl

instance : Plain UInt16 where
  size := 2
  toBytes x := leBytes 2 x.toNat
  ofBytes bs := UInt16.ofNat (leNat bs)
  length_toBytes _ := length_leBytes ..
  ofBytes_toBytes x := by
    have hlt := x.toNat_lt
    rw [leNat_leBytes, Nat.mod_eq_of_lt (by omega), UInt16.ofNat_toNat]

instance : Plain UInt32 where
  size := 4
  toBytes x := leBytes 4 x.toNat
  ofBytes bs := UInt32.ofNat (leNat bs)
  length_toBytes _ := length_leBytes ..
  ofBytes_toBytes x := by
    have hlt := x.toNat_lt
    rw [leNat_leBytes, Nat.mod_eq_of_lt (by omega), UInt32.ofNat_toNat]

instance : Plain UInt64 where
  size := 8
  toBytes x := leBytes 8 x.toNat
  ofBytes bs := UInt64.ofNat (leNat bs)
  length_toBytes _ := length_leBytes ..
  ofBytes_toBytes x := by
    have hlt := x.toNat_lt
    rw [leNat_leBytes, Nat.mod_eq_of_lt (by omega), UInt64.ofNat_toNat]

instance {n : ℕ} : Plain (Vector UInt8 n) where
  size := n
  toBytes v := v.toList
  ofBytes bs := Vector.ofFn fun i => bs.getD i.val 0
  length_toBytes v := Vector.length_toList
  ofBytes_toBytes v := by
    ext i hi
    simp

section Struct

variable {α β : Type}

/-- Two fields, one after the other. -/
instance [Plain α] [Plain β] : Plain (α × β) where
  size := size α + size β
  toBytes x := toBytes x.1 ++ toBytes x.2
  ofBytes bs := (ofBytes (bs.take (size α)), ofBytes (bs.drop (size α)))
  length_toBytes x := by simp
  ofBytes_toBytes x := by
    have htake : (toBytes x.1 ++ toBytes x.2).take (size α) = toBytes x.1 := List.take_left' (by simp)
    have hdrop : (toBytes x.1 ++ toBytes x.2).drop (size α) = toBytes x.2 := List.drop_left' (by simp)
    rw [htake, hdrop, Plain.ofBytes_toBytes, Plain.ofBytes_toBytes]

/-- A type that is read and written as another. -/
@[reducible] def Plain.ofRetract [Plain β] (f : α → β) (g : β → α) (h : ∀ a, g (f a) = a) : Plain α where
  size := size β
  toBytes a := toBytes (f a)
  ofBytes bs := g (ofBytes bs)
  length_toBytes _ := Plain.length_toBytes _
  ofBytes_toBytes a := by rw [Plain.ofBytes_toBytes, h]

end Struct

instance : Plain Int32 := Plain.ofRetract Int32.toUInt32 UInt32.toInt32 (by simp)

instance : Plain Int64 := Plain.ofRetract Int64.toUInt64 UInt64.toInt64 (by simp)

/-! ### Byte order -/

/-- A type of which all bytes of the right number are a value. -/
class Full (α : Type) [Plain α] : Prop where
  toBytes_ofBytes : ∀ bs : List UInt8, bs.length = size α → toBytes (ofBytes bs : α) = bs

instance : Full UInt16 where
  toBytes_ofBytes bs hlen := by
    have hlt := leNat_lt bs
    rw [show bs.length = 2 from hlen] at hlt
    have hnat : (UInt16.ofNat (leNat bs)).toNat = leNat bs := by
      rw [UInt16.toNat_ofNat', Nat.mod_eq_of_lt (by omega)]
    change leBytes 2 (UInt16.ofNat (leNat bs)).toNat = bs
    rw [hnat, ← show bs.length = 2 from hlen, leBytes_leNat]

instance : Full UInt32 where
  toBytes_ofBytes bs hlen := by
    have hlt := leNat_lt bs
    rw [show bs.length = 4 from hlen] at hlt
    have hnat : (UInt32.ofNat (leNat bs)).toNat = leNat bs := by
      rw [UInt32.toNat_ofNat', Nat.mod_eq_of_lt (by omega)]
    change leBytes 4 (UInt32.ofNat (leNat bs)).toNat = bs
    rw [hnat, ← show bs.length = 4 from hlen, leBytes_leNat]

section Swap

variable {α : Type} [Plain α]

/-- An integer with its bytes the other way round: `to_be` and `from_be`. -/
def swapBytes (x : α) : α := ofBytes (toBytes x).reverse

variable [Full α]

theorem toBytes_swapBytes (x : α) : toBytes (swapBytes x) = (toBytes x).reverse :=
  Full.toBytes_ofBytes _ (by rw [List.length_reverse, Plain.length_toBytes])

@[simp] theorem swapBytes_swapBytes (x : α) : swapBytes (swapBytes x) = x := by
  rw [swapBytes, toBytes_swapBytes, List.reverse_reverse, Plain.ofBytes_toBytes]

end Swap

/-! ### Slices -/

section Slice

variable {α : Type} [Plain α]

def toBytesAll (as : List α) : List UInt8 := as.flatMap toBytes

/-- `n` values, one after the other. -/
def ofBytesAll : ℕ → List UInt8 → List α
  | 0, _ => []
  | n + 1, bs => ofBytes (bs.take (size α)) :: ofBytesAll n (bs.drop (size α))

@[simp] theorem length_toBytesAll (as : List α) : (toBytesAll as).length = size α * as.length := by
  induction as with
  | nil => simp [toBytesAll]
  | cons a as ih =>
    rw [toBytesAll] at ih ⊢
    rw [List.flatMap_cons, List.length_append, ih, Plain.length_toBytes, List.length_cons]
    ring

@[simp] theorem length_ofBytesAll (n : ℕ) (bs : List UInt8) : (ofBytesAll n bs : List α).length = n := by
  induction n generalizing bs with
  | zero => rfl
  | succ n ih => rw [ofBytesAll, List.length_cons, ih]

theorem ofBytesAll_toBytesAll (as : List α) (rest : List UInt8) :
    ofBytesAll as.length (toBytesAll as ++ rest) = as := by
  induction as with
  | nil => rfl
  | cons a as ih =>
    rw [toBytesAll] at ih ⊢
    rw [List.flatMap_cons, List.append_assoc, List.length_cons, ofBytesAll, List.take_left' (by simp),
      List.drop_left' (by simp), ih, Plain.ofBytes_toBytes]

end Slice

/-! ### Memory -/

/-- The `len` bytes at `offset`, if all of them are in the memory. -/
def readAt (mem : List UInt8) (offset len : ℕ) : Option (List UInt8) :=
  if offset + len ≤ mem.length then some ((mem.drop offset).take len) else none

/-- The memory after `bytes` have been copied to `offset`, if they fit. -/
def writeAt (mem : List UInt8) (offset : ℕ) (bytes : List UInt8) : Option (List UInt8) :=
  if offset + bytes.length ≤ mem.length then
    some (mem.take offset ++ bytes ++ mem.drop (offset + bytes.length))
  else none

/-- A value at `offset`. -/
def loadAt (α : Type) [Plain α] (mem : List UInt8) (offset : ℕ) : Option α :=
  (readAt mem offset (size α)).map ofBytes

def storeAt {α : Type} [Plain α] (mem : List UInt8) (offset : ℕ) (a : α) : Option (List UInt8) :=
  writeAt mem offset (toBytes a)

section Memory

variable {mem mem' before bytes old after : List UInt8} {offset len : ℕ}

theorem readAt_append (hlen : bytes.length = len) (hoff : before.length = offset) :
    readAt (before ++ (bytes ++ after)) offset len = some bytes := by
  subst hlen hoff
  rw [readAt, if_pos (by simp only [List.length_append]; omega), List.drop_left, List.take_left]

theorem loadAt_append {α : Type} [Plain α] (a : α) (hoff : before.length = offset) :
    loadAt α (before ++ (toBytes a ++ after)) offset = some a := by
  rw [loadAt, readAt_append (Plain.length_toBytes a) hoff, Option.map_some, Plain.ofBytes_toBytes]

theorem loadAt_zero_append {α : Type} [Plain α] (a : α) : loadAt α (toBytes a ++ after) 0 = some a :=
  @loadAt_append [] after 0 α _ a rfl

/-- All of the memory. -/
theorem readAt_whole (hlen : mem.length = len) : readAt mem 0 len = some mem := by
  rw [readAt, if_pos (by omega), List.drop_zero, ← hlen, List.take_length]

theorem loadAt_whole {α : Type} [Plain α] (hlen : mem.length = size α) : loadAt α mem 0 = some (ofBytes mem) := by
  rw [loadAt, readAt_whole hlen, Option.map_some]

theorem writeAt_append (hlen : old.length = bytes.length) (hoff : before.length = offset) :
    writeAt (before ++ (old ++ after)) offset bytes = some (before ++ (bytes ++ after)) := by
  subst hoff
  have hdrop : (before ++ (old ++ after)).drop (before.length + bytes.length) = after := by
    rw [← List.append_assoc, ← hlen, ← List.length_append, List.drop_left]
  rw [writeAt, if_pos (by simp only [List.length_append]; omega), List.take_left, hdrop, List.append_assoc]

theorem length_writeAt (h : writeAt mem offset bytes = some mem') : mem'.length = mem.length := by
  rw [writeAt] at h
  split at h
  · cases h
    simp only [List.length_append, List.length_take, List.length_drop]
    omega
  · cases h

/-- A write leaves what lies before it. -/
theorem take_writeAt {n : ℕ} (h : writeAt mem offset bytes = some mem') (hn : n ≤ offset) :
    mem'.take n = mem.take n := by
  rw [writeAt] at h
  split at h
  · cases h
    rw [List.append_assoc, List.take_append_of_le_length (by rw [List.length_take]; omega), List.take_take,
      min_eq_left hn]
  · cases h

/-- What is written is read back. -/
theorem readAt_writeAt (h : writeAt mem offset bytes = some mem') :
    readAt mem' offset bytes.length = some bytes := by
  rw [writeAt] at h
  split at h
  · cases h
    rw [List.append_assoc]
    exact readAt_append rfl (by rw [List.length_take]; omega)
  · cases h

/-- A read looks at what lies before its end only. -/
theorem readAt_congr (h : mem'.take (offset + len) = mem.take (offset + len)) (hlen : mem'.length = mem.length) :
    readAt mem' offset len = readAt mem offset len := by
  have hcut : ∀ m : List UInt8, (m.drop offset).take len = (m.take (offset + len)).drop offset := by
    intro m
    rw [List.drop_take, Nat.add_sub_cancel_left]
  rw [readAt, readAt, hlen, hcut, hcut, h]

end Memory

end Layout
