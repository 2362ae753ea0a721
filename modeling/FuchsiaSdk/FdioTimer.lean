import Mathlib.Data.Set.Card
import Mathlib.Tactic.Ring

/-! `timerfd` (`fdio/timer.cc`). The deadline moves only when the timer is set or read, so a repeating
timer that is not read in time stands with a deadline in the past. -/
open List

namespace FuchsiaSdk.FdioTimer

/-- `zx::time` and `zx::duration` saturate; none is negative here. -/
def saturate (time : Nat) : Nat := min time (2 ^ 63 - 1)

structure Timespec where
  sec : Int
  nsec : Int
  deriving DecidableEq

/-- `duration_to_timespec`, with the division of the language. -/
def durationToTimespec (duration : Int) : Timespec :=
  ⟨duration.tdiv (10 ^ 9), duration.tmod (10 ^ 9)⟩

/-- `timespec_to_duration`. -/
def timespecToDuration (spec : Timespec) : Option Nat :=
  if spec.sec < 0 ∨ spec.nsec < 0 ∨ spec.sec > (2 ^ 63 - 1) / 10 ^ 9 then none
  else some (saturate (spec.sec * 10 ^ 9 + spec.nsec).toNat)

/-- `fdio_timer_t`; the deadline 0 stands for a timer that is not armed. -/
structure Timer where
  currentDeadline : Nat := 0
  interval : Nat := 0

/-- `fdio_timer_readv` with room for the count: `none` stands for `ZX_ERR_SHOULD_WAIT`. -/
def readv (now : Nat) (timer : Timer) : Option Nat × Timer :=
  if timer.currentDeadline = 0 then (none, timer)
  else if timer.currentDeadline > now then (none, timer)
  else if timer.interval > 0 then
    let count := (now - timer.currentDeadline) / timer.interval + 1
    (some count, { timer with
      currentDeadline := saturate (timer.currentDeadline + saturate (timer.interval * count)) })
  else (some 1, { timer with currentDeadline := 0 })

/-- `fdio_timer_get_current_timespec`, the `it_value` of `timerfd_gettime`. -/
def currentTimespec (timer : Timer) (now : Nat) : Timespec :=
  if timer.interval = 0 ∧ timer.currentDeadline ≤ now then durationToTimespec 0
  else durationToTimespec (timer.currentDeadline - now)

/-- `timerfd_settime`: `none` stands for `EINVAL`, and otherwise `old_value` is returned. -/
def settime (now : Nat) (v interval : Timespec) (timer : Timer) : Option Timespec × Timer :=
  match timespecToDuration v, timespecToDuration interval with
  | some v, some interval =>
    (some (currentTimespec timer now),
      ⟨if v = 0 then 0 else saturate (now + v), interval⟩)
  | _, _ => (none, timer)

/-! ## Counts -/

lemma getLastD_le {times : List Nat} (sorted : (times ++ [now]).Pairwise (· ≤ ·)) :
    times.getLastD 0 ≤ now := by
  cases times using reverseRecOn with
  | nil => exact Nat.zero_le now
  | append_singleton times time =>
    rw [getLastD_concat]
    exact (pairwise_append.mp sorted).2.2 time mem_concat_self now mem_cons_self

section

variable (start : Timer)

/-- The deadlines of a repeating timer. -/
def nth (k : Nat) : Nat := start.currentDeadline + k * start.interval

/-- How many deadlines have passed. -/
noncomputable def expirations (time : Nat) : Nat := {k | nth start k ≤ time}.ncard

/-- The sum of the counts that reads at these times return, and the timer after them. -/
def readAll (times : List Nat) : Nat × Timer :=
  times.foldl (fun (total, timer) now =>
    (total + (readv now timer).1.getD 0, (readv now timer).2)) (0, start)

variable {start}

lemma nth_add : nth start (total + k) = nth start total + start.interval * k := by
  rw [nth, Nat.add_mul, Nat.mul_comm k, ← Nat.add_assoc, nth]

lemma nth_mono (le : k ≤ m) : nth start k ≤ nth start m :=
  Nat.add_le_add_left (Nat.mul_le_mul_right _ le) _

lemma expirations_eq (passed : n = 0 ∨ nth start (n - 1) ≤ time)
    (ahead : time < nth start n) : expirations start time = n := by
  have range : {k | nth start k ≤ time} = Finset.range n := by
    ext k
    rw [Set.mem_ofPred, Finset.coe_range, Set.mem_Iio]
    constructor
    · intro _
      by_contra above
      have further := @nth_mono start _ _ (Nat.le_of_not_lt above)
      omega
    · intro below
      have before := @nth_mono start _ _ (Nat.le_sub_one_of_lt below)
      omega
  rw [expirations, range, Set.ncard_coe_finset, Finset.card_range]

variable (repeats : 0 < start.interval)
include repeats

lemma late_spec (late : nth start total ≤ now) :
    let count := (now - nth start total) / start.interval + 1
    nth start (total + count - 1) ≤ now ∧ now < nth start (total + count) := by
  have whole := Nat.div_add_mod (now - nth start total) start.interval
  have rest := Nat.mod_lt (now - nth start total) repeats
  simp only [← Nat.add_assoc, Nat.add_sub_cancel]
  rw [Nat.add_assoc, nth_add, nth_add, Nat.mul_succ]
  omega

variable (start) in
lemma expirations_spec (time : Nat) :
    (expirations start time = 0 ∨ nth start (expirations start time - 1) ≤ time) ∧
      time < nth start (expirations start time) := by
  by_cases early : time < nth start 0
  · rw [@expirations_eq start 0 time (.inl rfl) early]
    exact ⟨.inl rfl, early⟩
  · obtain ⟨passed, ahead⟩ := late_spec repeats (Nat.le_of_not_lt early)
    rw [expirations_eq (.inr passed) ahead]
    exact ⟨.inr passed, ahead⟩

variable (armed : 0 < start.currentDeadline)
include armed

/-- A read brings the count and the deadline from an earlier time up to now. -/
lemma readv_eq (ordered : earlier ≤ now) (fits : nth start (expirations start now) ≤ 2 ^ 63 - 1) :
    let total := expirations start earlier
    let count := expirations start now
    total ≤ count ∧ readv now ⟨nth start total, start.interval⟩ =
      (if count = total then none else some (count - total), ⟨nth start count, start.interval⟩) := by
  have passed := (expirations_spec start repeats earlier).1
  generalize expirations start earlier = total at passed
  simp only [readv, if_neg (show ¬ nth start total = 0 by rw [nth]; omega)]
  by_cases ahead : now < nth start total
  · simp only [if_pos ahead, expirations_eq (passed.imp_right (Nat.le_trans · ordered)) ahead, if_pos,
      le_refl, and_self]
  · obtain ⟨passed, later⟩ := late_spec repeats (Nat.le_of_not_lt ahead)
    simp only [expirations_eq (.inr passed) later, gt_iff_lt, if_neg ahead, if_pos repeats,
      Nat.add_sub_cancel_left] at fits ⊢
    generalize (now - _) / start.interval = extra at fits ⊢
    rw [nth_add] at fits ⊢
    rw [if_neg (by omega), saturate, saturate, Nat.min_eq_left (by omega), Nat.min_eq_left (by omega)]
    exact ⟨by omega, rfl⟩

/-- The count of a run depends on the last read alone. -/
lemma readAll_eq (sorted : times.Pairwise (· ≤ ·))
    (fits : ∀ time ∈ times, nth start (expirations start time) ≤ 2 ^ 63 - 1) :
    readAll start times = (expirations start (times.getLastD 0),
      ⟨nth start (expirations start (times.getLastD 0)), start.interval⟩) := by
  -- The last read finds what the earlier ones have left.
  induction times using reverseRecOn with
  | nil =>
    rw [getLastD_nil, @expirations_eq start 0 0 (.inl rfl) (Nat.lt_add_right _ armed), nth, Nat.zero_mul]
    rfl
  | append_singleton times now ih =>
    have before := ih (pairwise_append.mp sorted).1 fun time mem =>
      fits time (mem_append_left _ mem)
    obtain ⟨grown, read⟩ := readv_eq repeats armed (getLastD_le sorted) (fits now mem_concat_self)
    rw [readAll, foldl_append, ← readAll, before, getLastD_concat]
    simp only [foldl_cons, foldl_nil, read]
    split
    · next same => rw [same, Option.getD_none, Nat.add_zero]
    · rw [Option.getD_some, Nat.add_sub_cancel' grown]

/-- Reads at non-decreasing times count every expiration once. -/
theorem counts_once (sorted : (times ++ [now]).Pairwise (· ≤ ·))
    (fits : ∀ time ∈ times ++ [now], nth start (expirations start time) ≤ 2 ^ 63 - 1) :
    let (total, timer) := readAll start times
    let (count, later) := readv now timer
    (readAll start (times ++ [now])).1 = expirations start now ∧
      (count = none ↔ expirations start now = total) ∧
      (count ≠ none → IsLeast {time | now < time ∧ ∃ k, time = nth start k} later.currentDeadline) := by
  have before := readAll_eq repeats armed (pairwise_append.mp sorted).1 fun time mem =>
      fits time (mem_append_left _ mem)
  obtain ⟨_, read⟩ := readv_eq repeats armed (getLastD_le sorted) (fits now mem_concat_self)
  have spec := expirations_spec start repeats now
  rw [readAll_eq repeats armed sorted fits, before, getLastD_concat]
  simp only [read]
  refine ⟨trivial, by simp only [ite_eq_left_iff, reduceCtorEq, imp_false, not_not], fun _ =>
    ⟨⟨spec.2, _, rfl⟩, ?_⟩⟩
  rintro _ ⟨later, k, rfl⟩
  refine nth_mono (Nat.le_of_not_lt fun fewer => ?_)
  have before := @nth_mono start _ _ (Nat.le_sub_one_of_lt fewer)
  omega

end

/-- Armed for 5 with interval 3 and read at 4 and at 12: of 5, 8, 11 nothing is lost. -/
theorem counts_three :
    (readAll ⟨5, 3⟩ ([4] ++ [12])).1 = 3 ∧ IsLeast {time | 12 < time ∧ ∃ k, time = nth ⟨5, 3⟩ k} 14 := by
  have once := @counts_once ⟨5, 3⟩ (by decide) (by decide) [4] 12 (by decide) (by
    simp [@expirations_eq ⟨5, 3⟩ 0 4 (by decide) (by decide),
      @expirations_eq ⟨5, 3⟩ 3 12 (by decide) (by decide), nth])
  exact ⟨by decide, once.2.2 (by decide)⟩

/-! ## The time that is left -/

inductive Call where
  | read
  | settime (v interval : Timespec)

/-- The timer after calls at the given times. -/
def run (history : List (Nat × Call)) : Timer :=
  history.foldl (fun timer (now, call) => match call with
    | .read => (readv now timer).2
    | .settime v interval => (settime now v interval timer).2) {}

/-- The time until the next expiration after `now`, 0 if there is none. -/
def remaining (timer : Timer) (now : Nat) : Nat :=
  if timer.currentDeadline = 0 ∨ timer.interval = 0 ∧ timer.currentDeadline ≤ now then 0
  else if now < timer.currentDeadline then timer.currentDeadline - now
  else timer.interval - (now - timer.currentDeadline) % timer.interval

lemma durationToTimespec_iff (duration : Int) (time : Nat) :
    let spec := durationToTimespec duration
    spec.sec * 10 ^ 9 + spec.nsec = time ∧ 0 ≤ spec.nsec ∧ spec.nsec < 10 ^ 9 ↔ duration = time := by
  intro spec
  have whole : spec.sec * 10 ^ 9 + spec.nsec = duration := Int.tdiv_mul_add_tmod duration (10 ^ 9)
  refine ⟨fun valid => whole.symm.trans valid.1, fun same => ⟨whole.trans same, ?_, ?_⟩⟩
  · exact Int.tmod_nonneg _ (by omega)
  · exact Int.tmod_lt_of_pos _ (by decide)

/-- A repeating timer reports the time to the stored deadline, which may have passed or, when it is
disarmed, is the zero of the clock. -/
theorem gettime_valid_iff (history : List (Nat × Call)) (now : Nat) :
    let timer := run history
    let spec := currentTimespec timer now
    spec.sec * 10 ^ 9 + spec.nsec = remaining timer now ∧ 0 ≤ spec.nsec ∧ spec.nsec < 10 ^ 9 ↔
      timer.interval = 0 ∨ now < timer.currentDeadline ∨ now = 0 := by
  intro timer spec
  obtain ⟨deadline, interval⟩ := timer
  have reported : spec = durationToTimespec
    (if interval = 0 ∧ deadline ≤ now then 0 else deadline - now) := (apply_ite ..).symm
  rw [reported]
  refine (durationToTimespec_iff _ _).trans ?_
  have rest (repeats : 0 < interval) := Nat.mod_lt (now - deadline) repeats
  simp only [remaining]
  split_ifs <;> omega

/-- A timer set for 1 and then every 2 nanoseconds is at 2 one nanosecond before its next expiration, and
reports that it is one behind. -/
theorem behind_in_reads :
    let timer := run [(0, .settime ⟨0, 1⟩ ⟨0, 2⟩)]
    remaining timer 2 = 1 ∧ currentTimespec timer 2 = ⟨0, -1⟩ := by
  decide

end FuchsiaSdk.FdioTimer
