import Mathlib.Data.List.Basic
import Mathlib.Tactic.Common
import Mathlib.Tactic.Ring

/-! Byte-addressed memory: ranges that are loaded and stored, little-endian
words, and rounding up to a multiple of eight. -/
namespace FuchsiaSdk
open List hiding count

abbrev Memory : Type := Nat → UInt8

namespace Memory

def load (memory : Memory) (pos : Nat) : (count : Nat) → List UInt8
  | 0 => []
  | count + 1 => memory pos :: load memory (pos + 1) count

def store (memory : Memory) (pos : Nat) (bytes : List UInt8) : Memory := fun addr =>
  if pos ≤ addr then bytes[addr - pos]?.getD (memory addr) else memory addr

/-- The two memories hold the same bytes in a range. -/
def AgreeOn (start stop : Nat) (left right : Memory) : Prop :=
  ∀ addr, start ≤ addr → addr < stop → left addr = right addr

variable {memory left right : Memory} {pos addr start stop : Nat} {bytes : List UInt8}

@[simp] lemma length_load (pos count : Nat) :
    (load memory pos count).length = count := by
  induction count generalizing pos with
  | zero => rfl
  | succ count ih => simp [load, ih]

lemma load_add (memory : Memory) (pos first second : Nat) : load memory pos (first + second) =
      load memory pos first ++ load memory (pos + first) second := by
  induction first generalizing pos with
  | zero => simp [load]
  | succ first ih =>
    rw [Nat.succ_add, load, ih, Nat.succ_add]
    rfl

lemma getElem?_load (memory : Memory) (pos count i : Nat) : (load memory pos count)[i]? =
      if i < count then some (memory (pos + i)) else none := by
  induction count generalizing pos i with
  | zero => simp [load]
  | succ count ih =>
    cases i with
    | zero => simp [load]
    | succ i =>
      rw [load, getElem?_cons_succ, ih]
      simp only [Nat.add_lt_add_iff_right]
      congr 3
      omega

lemma AgreeOn.symm (agree : AgreeOn start stop left right) : AgreeOn start stop right left :=
  fun addr above below => (agree addr above below).symm

lemma AgreeOn.trans (first : AgreeOn start stop left middle)
    (second : AgreeOn start stop middle right) : AgreeOn start stop left right :=
  fun addr above below => (first addr above below).trans (second addr above below)

lemma AgreeOn.mono (agree : AgreeOn start stop left right)
    (above : start ≤ start') (below : stop' ≤ stop) : AgreeOn start' stop' left right :=
  fun addr inside within =>
    agree addr (Nat.le_trans above inside) (Nat.lt_of_lt_of_le within below)

lemma load_congr (agree : AgreeOn pos (pos + count) left right) :
    load left pos count = load right pos count := by
  apply ext_getElem?
  intro i
  rw [getElem?_load, getElem?_load]
  split
  · rw [agree (pos + i) (by omega) (by omega)]
  · rfl

lemma store_outside (outside : addr < pos ∨ pos + bytes.length ≤ addr) :
    store memory pos bytes addr = memory addr := by
  unfold store
  split
  · rw [getElem?_eq_none (by omega)]
    rfl
  · rfl

lemma store_inside {i : Nat} (inside : i < bytes.length) :
    some (store memory pos bytes (pos + i)) = bytes[i]? := by
  unfold store
  rw [if_pos (Nat.le_add_right ..), Nat.add_sub_cancel_left, getElem?_eq_getElem inside]
  rfl

lemma store_replicate {count : Nat} {byte : UInt8} (above : pos ≤ addr)
    (below : addr < pos + count) : store memory pos (replicate count byte) addr = byte := by
  unfold store
  rw [if_pos above, getElem?_replicate, if_pos (by omega)]
  rfl

lemma load_replicate (same : ∀ addr, pos ≤ addr → addr < pos + count → memory addr = byte) :
    load memory pos count = replicate count byte := by
  apply ext_getElem?
  intro _
  rw [getElem?_load, getElem?_replicate]
  split
  · rw [same _ (by omega) (by omega)]
  · rfl

lemma store_agreeOn (apart : stop ≤ pos ∨ pos + bytes.length ≤ start) :
    AgreeOn start stop (store memory pos bytes) memory := by
  intro _ _ _
  exact store_outside (by omega)

lemma load_store : load (store memory pos bytes) pos bytes.length = bytes := by
  apply ext_getElem?
  intro _
  rw [getElem?_load]
  split
  next inside => exact store_inside inside
  · rw [getElem?_eq_none (by omega)]

lemma load_store_of_length (size : bytes.length = count) :
    load (store memory pos bytes) pos count = bytes := by
  subst size
  exact load_store ..

lemma store_nil : store memory pos [] = memory := by
  funext addr
  exact store_outside (by rw [length_nil]; omega)

lemma store_append (memory : Memory) (pos : Nat) (first second : List UInt8) :
    store (store memory pos first) (pos + first.length) second = store memory pos (first ++ second) := by
  funext addr
  unfold store
  by_cases above : pos ≤ addr
  · by_cases past : pos + first.length ≤ addr
    · have gone : first[addr - pos]? = none := getElem?_eq_none (by omega)
      rw [if_pos past, if_pos above, if_pos above, getElem?_append_right (by omega), gone,
        Nat.sub_add_eq]
      rfl
    · rw [if_neg past, if_pos above, if_pos above, getElem?_append_left (by omega)]
  · rw [if_neg (by omega), if_neg above, if_neg above]

/-- A store over some of the bytes that are held replaces those. -/
lemma load_patch {count : Nat} {front old back new : List UInt8}
    (held : load memory pos count = front ++ old ++ back) (same : new.length = old.length) :
    load (store memory (pos + front.length) new) pos count = front ++ new ++ back := by
  have length := congrArg length held
  rw [length_load, length_append, length_append] at length
  apply ext_getElem?
  intro i
  have before := congrArg (·[i]?) held
  simp only [getElem?_load] at before ⊢
  by_cases inside : i < count
  · rw [if_pos inside] at before ⊢
    by_cases first : i < front.length
    · rw [store_outside (by omega), before, append_assoc, append_assoc,
        getElem?_append_left first, getElem?_append_left first]
    by_cases second : i < front.length + old.length
    · have stored := @store_inside memory (pos + front.length) new (i - front.length)
        (by omega)
      rw [Nat.add_assoc, Nat.add_sub_cancel' (Nat.le_of_not_lt first)] at stored
      rw [stored, append_assoc, getElem?_append_right (by omega), getElem?_append_left (by omega)]
    · rw [store_outside (by omega), before, getElem?_append_right (by rw [length_append]; omega),
        getElem?_append_right (by rw [length_append]; omega), length_append,
        length_append, same]
  · rw [if_neg inside, getElem?_eq_none]
    rw [length_append, length_append]
    omega

/-- A buffer with these bytes at its start. -/
def ofBytes (bytes : List UInt8) : Memory := store (fun _ => 0) 0 bytes

lemma load_ofBytes : load (ofBytes bytes) 0 bytes.length = bytes :=
  load_store ..

/-- A longer buffer is filled up with zeroes. -/
lemma load_ofBytes_padded (fits : bytes.length ≤ count) :
    load (ofBytes bytes) 0 count = bytes ++ replicate (count - bytes.length) 0 := by
  have split := load_add (ofBytes bytes) 0 bytes.length (count - bytes.length)
  rw [Nat.add_sub_cancel' fits, load_ofBytes] at split
  rw [split]
  congr 1
  apply load_replicate
  intro _ _ _
  exact store_outside (.inr (by omega))

/-! ## Little-endian words -/

def littleEndian : (width : Nat) → (v : Nat) → List UInt8
  | 0, _ => []
  | width + 1, v => UInt8.ofNat v :: littleEndian width (v / 256)

def ofLittleEndian : List UInt8 → Nat
  | [] => 0
  | byte :: rest => byte.toNat + 256 * ofLittleEndian rest

def word (memory : Memory) (pos width : Nat) : Nat :=
  ofLittleEndian (load memory pos width)

@[simp] lemma length_littleEndian (width v : Nat) :
    (littleEndian width v).length = width := by
  induction width generalizing v with
  | zero => rfl
  | succ width ih => simp [littleEndian, ih]

lemma ofLittleEndian_littleEndian (fits : v < 256 ^ width) :
    ofLittleEndian (littleEndian width v) = v := by
  induction width generalizing v with
  | zero =>
    exact (Nat.lt_one_iff.mp fits).symm
  | succ width ih =>
    have smaller : v / 256 < 256 ^ width := by
      exact Nat.div_lt_of_lt_mul (by rwa [Nat.mul_comm])
    rw [littleEndian, ofLittleEndian, ih smaller]
    have split := Nat.mod_add_div v 256
    exact split

lemma littleEndian_ofLittleEndian (bytes : List UInt8) :
    littleEndian bytes.length (ofLittleEndian bytes) = bytes := by
  induction bytes with
  | nil => rfl
  | cons byte rest ih =>
    have small := byte.toNat_lt
    have quotient : (byte.toNat + 256 * ofLittleEndian rest) / 256 = ofLittleEndian rest := by
      omega
    have head : UInt8.ofNat (byte.toNat + 256 * ofLittleEndian rest) = byte := by
      apply UInt8.toNat_inj.mp
      rw [UInt8.toNat_ofNat']
      omega
    rw [length_cons, littleEndian, ofLittleEndian, head, quotient, ih]

lemma ofLittleEndian_lt (bytes : List UInt8) : ofLittleEndian bytes < 256 ^ bytes.length := by
  induction bytes with
  | nil => simp [ofLittleEndian]
  | cons byte =>
    have small := byte.toNat_lt
    rw [length_cons, ofLittleEndian]
    omega

lemma word_congr (agree : AgreeOn pos (pos + width) left right) :
    word left pos width = word right pos width := by
  rw [word, word, load_congr agree]

lemma ofLittleEndian_append : ofLittleEndian (first ++ second) =
      ofLittleEndian first + 256 ^ first.length * ofLittleEndian second := by
  induction first with
  | nil => simp [ofLittleEndian]
  | cons _ _ ih =>
    rw [cons_append, ofLittleEndian, ofLittleEndian, ih, length_cons]
    ring

lemma word_add : word memory pos (first + second) =
      word memory pos first + 256 ^ first * word memory (pos + first) second := by
  rw [word, load_add, ofLittleEndian_append, length_load]
  rfl

lemma word_of_load (fits : v < 256 ^ width) (loaded : load memory pos width = littleEndian width v) :
    word memory pos width = v := by
  rw [word, loaded, ofLittleEndian_littleEndian fits]

end Memory

/-! ## Alignment -/

/-- The next multiple of eight. -/
def align (size : Nat) : Nat := (size + 7) / 8 * 8

lemma le_align (size : Nat) : size ≤ align size := by
  unfold align
  omega

lemma align_lt (size : Nat) : align size < size + 8 := by
  unfold align
  omega

lemma align_pos (positive : 0 < size) : 8 ≤ align size := by
  unfold align
  omega

lemma align_of_dvd (aligned : 8 ∣ size) : align size = size := by
  unfold align
  omega

lemma align_add (aligned : 8 ∣ start) (size : Nat) : align (start + size) = start + align size := by
  unfold align
  omega

lemma dvd_align (size : Nat) : 8 ∣ align size := Nat.dvd_mul_left ..

/-- The bytes filled up with zeros to a multiple of eight. -/
def pad (bytes : List UInt8) : List UInt8 :=
  bytes ++ List.replicate (align bytes.length - bytes.length) 0

@[simp] lemma length_pad : (pad bytes).length = align bytes.length := by
  have bound := le_align bytes.length
  simp only [pad, List.length_append, List.length_replicate]
  omega

end FuchsiaSdk
