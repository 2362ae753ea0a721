import Mathlib.Data.List.Basic

/-! Two readers of the messages of a directory watcher: `ServiceWatcher`
(`sys/service/cpp/service_watcher.cc`) and `DirWatcher` (`device-watcher/cpp/device-watcher.cc`).
A message packs events, each a byte for the event, one for the length of the name, and the name. -/

open List

namespace FuchsiaSdk.WatchEvents

structure Event where
  event : UInt8
  name : List UInt8
  short : name.length < 256

def pack : List Event → List UInt8
  | [] => []
  | event :: rest => event.event :: .ofNat event.name.length :: (event.name ++ pack rest)

lemma toNat_length (event : Event) : (UInt8.ofNat event.name.length).toNat = event.name.length :=
  UInt8.toNat_ofNat_of_lt' event.short

/-! ## All events of a message -/

/-- The calls of the callback for the rest of a message. -/
def onWatchedEvent : List UInt8 → List (UInt8 × List UInt8)
  | event :: length :: rest =>
    if rest = [] then [] else
      -- The distance to the end is cast to a `uint8_t` before the smaller one is taken.
      let len := min length.toNat (rest.length % 256)
      let calls := onWatchedEvent (rest.drop len)
      if len ≠ 1 ∨ rest.head? ≠ some 0x2E then (event, rest.take len) :: calls else calls
  | _ => []
termination_by msg => msg.length
decreasing_by
  simp only [length_drop, length_cons]
  omega

/-- No name is cut off by the cast. -/
def Whole : List Event → Prop
  | [] => True
  | event :: rest => event.name.length ≤ (event.name ++ pack rest).length % 256 ∧ Whole rest

/-- A name is cut off after its first byte, and that is a dot. -/
def Dotted : List Event → Prop
  | [] => False
  | event :: rest => (event.name.length ≠ 1 ∧ event.name.head? = some 0x2E ∧
    (event.name ++ pack rest).length % 256 = 1) ∨ Dotted rest

/-- The calls for all events of a message. -/
def expected (events : List Event) : List (UInt8 × List UInt8) :=
  (events.filter (·.name ≠ [0x2E])).map fun event => (event.event, event.name)

section

variable {event : Event} {events : List Event}

lemma onWatchedEvent_cons (named : event.name ≠ []) : onWatchedEvent (pack (event :: events)) =
    let len := min event.name.length ((event.name ++ pack events).length % 256)
    let calls := onWatchedEvent ((event.name ++ pack events).drop len)
    if len ≠ 1 ∨ event.name.head? ≠ some 0x2E then
      (event.event, (event.name ++ pack events).take len) :: calls else calls := by
  obtain ⟨_, name, parts⟩ := exists_cons_of_ne_nil named
  rw [pack, onWatchedEvent, if_neg (append_ne_nil_of_left_ne_nil named _), toNat_length]
  simp only [parts, cons_append, head?_cons]

lemma expected_cons (named : event.name ≠ []) : expected (event :: events) =
    if event.name.length ≠ 1 ∨ event.name.head? ≠ some 0x2E then
      (event.event, event.name) :: expected events else expected events := by
  obtain ⟨first, name, parts⟩ := exists_cons_of_ne_nil named
  have dot : (event.name.length ≠ 1 ∨ event.name.head? ≠ some 0x2E) ↔ event.name ≠ [0x2E] := by
    simp [parts, imp_iff_not_or, or_comm]
  simp only [expected, filter_cons, dot, decide_eq_true_eq]
  split <;> rfl

/-- A name that is not cut off is passed on, and so is what follows it. -/
lemma whole_cons (named : event.name ≠ [])
    (whole : event.name.length ≤ (event.name ++ pack events).length % 256) :
    onWatchedEvent (pack (event :: events)) = expected (event :: events) ↔
      onWatchedEvent (pack events) = expected events := by
  rw [onWatchedEvent_cons named, expected_cons named]
  simp only [Nat.min_eq_left whole, drop_left, take_left]
  split
  · exact cons_inj_right _
  · rfl

private lemma named_of_mem_expected (named : ∀ event ∈ events, event.name ≠ [])
    (mem : call ∈ expected events) : call.2 ≠ [] := by
  obtain ⟨event, kept, rfl⟩ := mem_map.mp mem
  exact named event (mem_filter.mp kept).1

/-- Where a name is cut off a call is made that the message has no event for. -/
private lemma cut_cons (named : ∀ other ∈ event :: events, other.name ≠ [])
    (cut : (event.name ++ pack events).length % 256 < event.name.length)
    (undotted : ¬Dotted (event :: events)) :
    onWatchedEvent (pack (event :: events)) ≠ expected (event :: events) := by
  intro same
  rw [onWatchedEvent_cons (named event mem_cons_self), Nat.min_eq_right (Nat.le_of_lt cut)] at same
  have called : (event.name ++ pack events).length % 256 ≠ 1 ∨ event.name.head? ≠ some 0x2E := by
    by_contra! dot
    exact undotted (.inl ⟨by omega, dot.2, dot.1⟩)
  simp only [if_pos called, take_append_of_le_length (Nat.le_of_lt cut)] at same
  rw [expected_cons (named event mem_cons_self)] at same
  split at same
  · have piece := congrArg (·.2.length) (cons.inj same).1
    simp only [length_take] at piece
    omega
  next dot =>
    -- The event is for a dot, of which nothing is left.
    have empty : (event.name ++ pack events).length % 256 = 0 := by
      have one := not_not.mp (not_or.mp dot).1
      omega
    rw [empty] at same
    exact named_of_mem_expected (fun other mem => named other (mem_cons_of_mem _ mem))
      (same ▸ mem_cons_self) rfl

end

/-- Either the calls are as they should be exactly if no name is cut off, or a name is cut off to a
dot, for which no call is made. -/
lemma onWatchedEvent_pack (named : ∀ event ∈ events, event.name ≠ []) :
    (Whole events → onWatchedEvent (pack events) = expected events) ∧
      (onWatchedEvent (pack events) = expected events → Whole events ∨ Dotted events) := by
  induction events with
  | nil => simp [pack, onWatchedEvent, expected, Whole]
  | cons event events ih =>
    have later := ih fun other mem => named other (mem_cons_of_mem _ mem)
    refine ⟨fun whole => (whole_cons (named event mem_cons_self) whole.1).mpr (later.1 whole.2), fun same => ?_⟩
    by_cases undotted : Dotted (event :: events)
    · exact .inr undotted
    by_cases whole : event.name.length ≤ (event.name ++ pack events).length % 256
    · have rest := later.2 ((whole_cons (named event mem_cons_self) whole).mp same)
      exact .inl ⟨whole, rest.resolve_right fun dotted => undotted (.inr dotted)⟩
    · exact absurd same (cut_cons named (Nat.lt_of_not_le whole) undotted)

private lemma infix_of_mem (mem : call ∈ onWatchedEvent msg) : call.2 <:+: msg := by
  have later (event length : UInt8) {rest : List UInt8} {len : Nat} (deeper : call.2 <:+: rest.drop len) :
      call.2 <:+: event :: length :: rest :=
    (deeper.trans (drop_suffix len rest).isInfix).trans (suffix_append [event, length] rest).isInfix
  fun_induction onWatchedEvent msg with
  | case1 | case4 => cases mem
  | case2 event length rest nonempty len calls _ ih =>
    rcases mem_cons.mp mem with rfl | mem
    · have start := take_prefix len rest
      exact start.isInfix.trans (suffix_append [event, length] _).isInfix
    · exact later event length (ih mem)
  | case3 event length rest nonempty len calls _ ih => exact later event length (ih mem)

/-- The events of a message are reported if the cast cuts no name off, and only then, unless a name
is cut off to a dot; nothing but parts of the message ever is reported. -/
theorem reports_every_event (named : ∀ event ∈ events, event.name ≠ []) :
    (Whole events → onWatchedEvent (pack events) = expected events) ∧
      (onWatchedEvent (pack events) = expected events → Whole events ∨ Dotted events) ∧
      ∀ msg, ∀ call ∈ onWatchedEvent msg, call.2 <:+: msg :=
  ⟨(onWatchedEvent_pack named).1, (onWatchedEvent_pack named).2, fun _ _ => infix_of_mem⟩

theorem reports_every_event_two :
    onWatchedEvent (pack [⟨1, [0x2E], by decide⟩, ⟨3, [0x61], by decide⟩]) = [(3, [0x61])] :=
  (@reports_every_event [⟨1, [0x2E], by decide⟩, ⟨3, [0x61], by decide⟩] (by simp)).1
    (by simp [Whole, pack])

/-- With 256 bytes after its header, a name is taken to be empty. -/
theorem name_cut_off : ∃ events : List Event, (∀ event ∈ events, event.name ≠ []) ∧
    (pack events).length = 258 ∧ (onWatchedEvent (pack events)).head? = some (1, []) := by
  obtain ⟨long, size⟩ : ∃ event : Event, event.name.length = 253 :=
    ⟨⟨1, replicate 253 0, by rw [length_replicate]; decide⟩, length_replicate⟩
  have named : long.name ≠ [] := ne_nil_of_length_pos (by omega)
  refine ⟨[⟨1, [0x61], by decide⟩, long], by simp [named], by simp [pack, size], ?_⟩
  rw [pack, onWatchedEvent]
  simp [pack, size]

/-! ## The first event of a message -/

section

variable (kRemoved : UInt8) (filename : List UInt8)

/-- The buffer on the stack after a message was read into it. -/
def buffer (stale : Nat → UInt8) (received : List UInt8) (i : Nat) : UInt8 :=
  received.getD i (stale i)

/-- The loop of `WaitForRemoval` over messages, each with what the buffer held before: how many are
read before the one for which it returns `ZX_OK`. -/
def waitForRemoval : List ((Nat → UInt8) × List UInt8) → Option Nat
  | [] => none
  | (stale, received) :: rest =>
    let buf := buffer stale received
    let found := filename = [] ∨ (range (buf 1).toNat).map (fun i => buf (2 + i)) = filename
    if buf 0 = kRemoved ∧ found then some 0 else (waitForRemoval rest).map (· + 1)

/-- The event that is waited for. -/
def Removes (event : Event) : Prop :=
  event.event = kRemoved ∧ (filename = [] ∨ event.name = filename)

instance : DecidablePred (Removes kRemoved filename) := fun _ => inferInstanceAs (Decidable (_ ∧ _))

/-- Every message up to the first with an event that is waited for has an event, and that message
starts with such an event. -/
def Heeds : List (List Event) → Prop
  | [] => True
  | [] :: _ => False
  | (event :: events) :: rest => Removes kRemoved filename event ∨
    (∀ other ∈ events, ¬Removes kRemoved filename other) ∧ Heeds rest

/-- The buffer starts with the first event. -/
lemma buffer_pack (stale : Nat → UInt8) (event : Event) (events : List Event) :
    let buf := buffer stale (pack (event :: events))
    buf 0 = event.event ∧ (range (buf 1).toNat).map (fun i => buf (2 + i)) = event.name := by
  refine ⟨rfl, ext_getElem ?_ fun i _ inside => ?_⟩
  · rw [length_map, length_range]
    exact toNat_length event
  · rw [getElem_map, getElem_range, Nat.add_comm]
    change (event.name ++ pack events).getD i _ = _
    rw [getD_eq_getElem?_getD, getElem?_append_left inside, getElem?_eq_getElem inside, Option.getD_some]

variable {kRemoved filename}

private lemma waitForRemoval_cons (stale : Nat → UInt8) (event : Event) (events : List Event)
    (rest : List ((Nat → UInt8) × List UInt8)) :
    waitForRemoval kRemoved filename ((stale, pack (event :: events)) :: rest) =
      if Removes kRemoved filename event then some 0
      else (waitForRemoval kRemoved filename rest).map (· + 1) := by
  obtain ⟨start, name⟩ := buffer_pack stale event events
  simp only [waitForRemoval, start, name]
  rfl

/-- An empty message is taken for whatever the buffer held before. -/
private lemma waitForRemoval_lured (short : filename.length < 256)
    (rest : List ((Nat → UInt8) × List UInt8)) :
    ∃ stale, waitForRemoval kRemoved filename ((stale, pack []) :: rest) = some 0 := by
  obtain ⟨start, name⟩ := buffer_pack (fun _ => 0) ⟨kRemoved, filename, short⟩ []
  refine ⟨buffer (fun _ => 0) (pack [⟨kRemoved, filename, short⟩]), ?_⟩
  rw [waitForRemoval]
  exact if_pos ⟨start, .inr name⟩

/-- The messages, each read into a buffer with some content. -/
abbrev read (stales : List (Nat → UInt8)) (messages : List (List Event)) :=
  stales.zip (messages.map pack)

variable (kRemoved filename) in
/-- The call returns for the first message with an event that is waited for, whatever the buffer
held. -/
def FindsFirst (messages : List (List Event)) : Prop :=
  ∀ stales, stales.length = messages.length →
    waitForRemoval kRemoved filename (read stales messages) =
      messages.findIdx? fun events => events.any (Removes kRemoved filename ·)

/-- One message that has events. -/
private lemma findsFirst_cons (event : Event) (events : List Event) (messages : List (List Event)) :
    FindsFirst kRemoved filename ((event :: events) :: messages) ↔
      Removes kRemoved filename event ∨
        (∀ other ∈ events, ¬Removes kRemoved filename other) ∧ FindsFirst kRemoved filename messages := by
  have step (stale : Nat → UInt8) (stales : List (Nat → UInt8)) :
      waitForRemoval kRemoved filename (read (stale :: stales) ((event :: events) :: messages)) =
        if Removes kRemoved filename event then some 0
        else (waitForRemoval kRemoved filename (read stales messages)).map (· + 1) :=
    waitForRemoval_cons ..
  by_cases removes : Removes kRemoved filename event
  · refine iff_of_true ?_ (.inl removes)
    rintro (_ | ⟨stale, stales⟩) size
    · cases size
    · rw [step, if_pos removes, findIdx?_cons, if_pos (by simp [removes])]
  by_cases other : ∃ other ∈ events, Removes kRemoved filename other
  · refine iff_of_false (fun finds => ?_) (by simpa [removes] using fun none => absurd other (by simpa))
    have missed := finds ((fun _ => 0) :: messages.map fun _ _ => 0) (by simp)
    rw [step, if_neg removes, findIdx?_cons, if_pos (by simpa [removes] using other)] at missed
    simp at missed
  have none : ¬(event :: events).any (Removes kRemoved filename ·) := by simpa [removes] using other
  constructor
  · refine fun finds => .inr ⟨by simpa using other, fun stales size => ?_⟩
    have found := finds ((fun _ => 0) :: stales) (congrArg (· + 1) size)
    rw [step, if_neg removes, findIdx?_cons, if_neg none] at found
    exact Option.map_injective (fun _ _ => Nat.succ.inj) found
  · rintro (_ | ⟨-, finds⟩) (_ | ⟨stale, stales⟩) size
    any_goals contradiction
    rw [step, if_neg removes, findIdx?_cons, if_neg none, finds stales (Nat.succ.inj size)]

lemma findsFirst_iff (short : filename.length < 256) (messages : List (List Event)) :
    FindsFirst kRemoved filename messages ↔ Heeds kRemoved filename messages := by
  induction messages with
  | nil => exact ⟨fun _ => trivial, fun _ stales size => by rw [length_eq_zero_iff.mp size]; rfl⟩
  | cons events messages ih =>
    cases events with
    | nil =>
      refine iff_of_false (fun finds => ?_) id
      obtain ⟨stale, lured⟩ :=
        waitForRemoval_lured short (read (messages.map fun _ _ => 0) messages)
      have missed := (finds (stale :: messages.map fun _ _ => 0) (by simp)).symm.trans lured
      simp [findIdx?_cons] at missed
    | cons event events => rw [findsFirst_cons, ih, Heeds]

/-- No event and no content of the buffer has a name of 256 bytes. -/
private lemma findsFirst_of_long (long : 256 ≤ filename.length) (messages : List (List Event)) :
    FindsFirst kRemoved filename messages := by
  have nonempty : filename ≠ [] := by
    rintro rfl
    exact absurd long (by decide)
  have never (messages : List ((Nat → UInt8) × List UInt8)) :
      waitForRemoval kRemoved filename messages = none := by
    induction messages with
    | nil => rfl
    | cons msg messages ih =>
      rw [waitForRemoval, if_neg, ih]
      · rfl
      · rintro ⟨-, rfl | rfl⟩
        · exact nonempty rfl
        · rw [length_map, length_range] at long
          exact absurd (UInt8.toNat_lt _) (Nat.not_lt.mpr long)
  intro stales _
  refine (never _).trans (findIdx?_eq_none_iff.mpr fun events _ => any_eq_false.mpr fun event _ => ?_).symm
  simp only [decide_eq_true_eq]
  rintro ⟨-, rfl | rfl⟩
  · exact nonempty rfl
  · exact absurd event.short (Nat.not_lt.mpr long)

end

/-- The call returns for the first message with a removal that is waited for, whatever the buffer held,
exactly if that removal comes first in the message and no message before it is empty. -/
theorem finds_first_removal_iff (kRemoved : UInt8) (filename : List UInt8)
    (messages : List (List Event)) : FindsFirst kRemoved filename messages ↔
      256 ≤ filename.length ∨ Heeds kRemoved filename messages := by
  rcases Nat.lt_or_ge filename.length 256 with short | long
  · rw [findsFirst_iff short]
    exact (or_iff_right (Nat.not_le.mpr short)).symm
  · exact iff_of_true (findsFirst_of_long long messages) (.inl long)

/-- A file that was added, and another that was removed. -/
def two : List Event := [⟨1, [0x61], by decide⟩, ⟨2, [0x62], by decide⟩]

theorem second_removal_missed : Removes 2 [0x62] two[1] ∧
    waitForRemoval 2 [0x62] [(fun _ => 0, pack two)] = none :=
  ⟨⟨rfl, .inr rfl⟩, rfl⟩

end FuchsiaSdk.WatchEvents
