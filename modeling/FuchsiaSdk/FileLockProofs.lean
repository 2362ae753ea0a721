import FuchsiaSdk.FileLocks
import Mathlib.Data.Finset.Card
import Mathlib.Data.Fintype.EquivFin

/-! What holds of a `FileLock` over whole histories: who can hold and wait, how
often completers are invoked, and what forgetting an owner achieves. -/
namespace FuchsiaSdk.FileLockProofs
open FileLocks List
open SortedMap (not_mem_emplace not_mem_empty mem_of_entry mem_of_mem_tail mem_emplace values_emplace
  entry_of_mem)
open FileLock (lockHolder lockShared)

variable {lock after : FileLock} {owner other : Koid} {request : LockRequest}
  {completer : Completer} {completers : List Completer} {status : Status}

/-! ## Invocations -/

lemma invokeAll_eq : lock.invokeAll status completers = { lock with
        invocations := lock.invocations ++ completers.map fun completer =>
          ⟨completer, status, lock.shared, lock.exclusive⟩ } := by
  induction completers generalizing lock with
  | nil =>
    simp only [map_nil, append_nil]
    rfl
  | cons completer rest ih =>
    change (lock.invoke status completer).invokeAll status rest = _
    rw [ih]
    simp [FileLock.invoke]

/-- A pending request is in one of the maps. -/
lemma lockInProgress_iff : lock.lockInProgress owner = true ↔
      owner ∈ lock.pendingExclusive ∨ owner ∈ lock.pendingShared := decide_eq_true_iff

/-- The owner has no request pending. -/
def Idle (lock : FileLock) (owner : Koid) : Prop :=
  owner ∉ lock.pendingShared ∧ owner ∉ lock.pendingExclusive

lemma idle_of_not_lockInProgress (free : lock.lockInProgress owner = false) : Idle lock owner := by
  have neither := mt lockInProgress_iff.mpr (Bool.eq_false_iff.mp free)
  exact ⟨fun mem => neither (.inr mem), fun mem => neither (.inl mem)⟩

section

variable (idle : Idle lock owner) (free : Idle lock other) (different : other ≠ owner)
include idle free different

/-- Another owner begins to wait. -/
lemma Idle.waitShared : Idle
    { lock with pendingShared := lock.pendingShared.emplace owner completer } other :=
  ⟨not_mem_emplace idle.1 different free.1, free.2⟩

lemma Idle.waitExclusive : Idle
    { lock with pendingExclusive := lock.pendingExclusive.emplace owner completer } other :=
  ⟨free.1, not_mem_emplace idle.2 different free.2⟩

end

/-! ## What a call does -/

/-- What a call to `Lock` can do. -/
inductive Effect (lock : FileLock) (owner : Koid) (request : LockRequest)
    (completer : Completer) : FileLock → Prop where
  /-- An answer at once, and nothing changes. -/
  | answered (status : Status)
    (right : status = .ok → request.type = .unlock ∨
      request.type = .write ∧ lock.exclusive = owner) :
    Effect lock owner request completer (lock.invoke status completer)
  | downgraded (idle : Idle lock owner) (held : lock.exclusive = owner)
    (reads : request.type = .read) :
    Effect lock owner request completer
      ({ lock with exclusive := koidInvalid, shared := insert owner lock.shared }.grantShared.invoke
        .ok completer)
  | releasedToShared (held : lock.exclusive = owner) (present : owner ≠ koidInvalid)
    (unlocks : request.type = .unlock)
    (more : lock.pendingShared.size > lock.pendingExclusive.size) :
    Effect lock owner request completer
      ({ lock with exclusive := koidInvalid }.grantShared.invoke .ok completer)
  | releasedToExclusive (held : lock.exclusive = owner) (present : owner ≠ koidInvalid)
    (unlocks : request.type = .unlock)
    (fewer : lock.pendingShared.size ≤ lock.pendingExclusive.size) :
    Effect lock owner request completer
      ({ lock with exclusive := koidInvalid }.grantExclusive.invoke .ok completer)
  | waitsShared (idle : Idle lock owner) (held : lock.exclusive ≠ koidInvalid)
    (others : owner ≠ lock.exclusive) (same : request = ⟨.read, true⟩) :
    Effect lock owner request completer
      { lock with pendingShared := lock.pendingShared.emplace owner completer }
  | waitsExclusive (idle : Idle lock owner) (held : lock.exclusive ≠ koidInvalid)
    (others : owner ≠ lock.exclusive) (same : request = ⟨.write, true⟩) :
    Effect lock owner request completer
      { lock with pendingExclusive := lock.pendingExclusive.emplace owner completer }
  | reads (idle : Idle lock owner) (free : lock.exclusive = koidInvalid)
    (reads : request.type = .read) :
    Effect lock owner request completer
      ({ lock with shared := insert owner lock.shared }.invoke .ok completer)
  | writes (idle : Idle lock owner) (free : lock.exclusive = koidInvalid)
    (last : lock.shared.erase owner = ∅) (writes : request.type = .write) :
    Effect lock owner request completer
      ({ lock with shared := lock.shared.erase owner, exclusive := owner }.invoke .ok completer)
  | upgradeWaits (idle : Idle lock owner) (free : lock.exclusive = koidInvalid)
    (others : lock.shared.erase owner ≠ ∅) (same : request = ⟨.write, true⟩) :
    Effect lock owner request completer
      { lock with
        shared := lock.shared.erase owner
        pendingExclusive := lock.pendingExclusive.emplace owner completer }
  /-- The lock of the owner is lost. -/
  | upgradeRefused (free : lock.exclusive = koidInvalid) (others : lock.shared.erase owner ≠ ∅) :
    Effect lock owner request completer
      ({ lock with shared := lock.shared.erase owner }.invoke .shouldWait completer)
  | releasesLast (free : lock.exclusive = koidInvalid) (held : owner ∈ lock.shared)
    (last : lock.shared.erase owner = ∅) (unlocks : request.type = .unlock) :
    Effect lock owner request completer
      ({ lock with shared := lock.shared.erase owner }.grantExclusive.invoke .ok completer)
  | releases (free : lock.exclusive = koidInvalid) (held : owner ∈ lock.shared)
    (others : lock.shared.erase owner ≠ ∅) (unlocks : request.type = .unlock) :
    Effect lock owner request completer
      ({ lock with shared := lock.shared.erase owner }.invoke .ok completer)

private lemma effect_holder (idle : Idle lock owner) (present : lock.exclusive ≠ koidInvalid)
    (held : owner = lock.exclusive) : Effect lock owner request completer
      ((lock.lockHolder owner request.type).invoke .ok completer) := by
  unfold lockHolder
  cases type : request.type with
  | read => exact .downgraded idle held.symm type
  | write => exact .answered .ok fun _ => .inr ⟨type, held.symm⟩
  | unlock =>
    simp only
    split
    · exact .releasedToShared held.symm (held ▸ present) type ‹_›
    · exact .releasedToExclusive held.symm (held ▸ present) type (Nat.not_lt.mp ‹_›)

private lemma effect_contended (idle : Idle lock owner) (held : lock.exclusive ≠ koidInvalid)
    (others : owner ≠ lock.exclusive) :
    Effect lock owner request completer (lock.lockContended owner request completer) := by
  obtain ⟨type, wait⟩ := request
  cases type with
  | read =>
    cases wait with
    | true => exact .waitsShared idle held others rfl
    | false => exact .answered .shouldWait nofun
  | write =>
    cases wait with
    | true => exact .waitsExclusive idle held others rfl
    | false => exact .answered .shouldWait nofun
  | unlock => exact .answered .ok fun _ => .inl rfl

private lemma effect_shared (idle : Idle lock owner) (free : lock.exclusive = koidInvalid) :
    Effect lock owner request completer (lock.lockShared owner request completer) := by
  obtain ⟨type, wait⟩ := request
  unfold lockShared
  cases type with
  | read => exact .reads idle free rfl
  | write =>
    simp only
    split <;> rename_i last
    · exact .writes idle free last rfl
    · cases wait with
      | true => exact .upgradeWaits idle free last rfl
      | false => exact .upgradeRefused free last
  | unlock =>
    simp only
    split
    next held =>
      split <;> rename_i last
      · exact .releasesLast free held last rfl
      · exact .releases free held last rfl
    · exact .answered .ok fun _ => .inl rfl

lemma lock_effect (lock : FileLock) (owner : Koid) (request : LockRequest) (completer : Completer) :
    Effect lock owner request completer (lock.lock owner request completer) := by
  unfold FileLock.lock
  split
  · exact .answered .badState nofun
  rename_i available
  simp only [Bool.or_eq_true, not_or, Bool.not_eq_true] at available
  have idle := idle_of_not_lockInProgress available.2
  split
  next present =>
    split
    · exact effect_holder idle present ‹_›
    · exact effect_contended idle present ‹_›
  · exact effect_shared idle (not_not.mp ‹_›)

/-! ## Who holds and who waits -/

/-- The exclusive lock excludes the shared ones, and who waits has no lock and
waits once. -/
structure Inv (lock : FileLock) : Prop where
  alone : lock.exclusive ≠ koidInvalid → lock.shared = ∅
  once : ∀ owner ∈ lock.pendingShared, owner ∉ lock.pendingExclusive
  unshared : ∀ owner ∈ lock.shared, Idle lock owner
  holder : lock.exclusive ≠ koidInvalid → Idle lock lock.exclusive

section

variable (inv : Inv lock)
include inv

lemma Inv.invoke (status : Status) (completer : Completer) : Inv (lock.invoke status completer) :=
  { inv with }

lemma Inv.insert (idle : Idle lock owner) :
    Inv { lock with exclusive := koidInvalid, shared := insert owner lock.shared } where
  alone present := absurd rfl present
  once := inv.once
  unshared other mem := by
    rcases Finset.mem_insert.mp mem with rfl | mem
    · exact idle
    · exact inv.unshared other mem
  holder present := absurd rfl present

lemma Inv.erase (owner : Koid) : Inv { lock with shared := lock.shared.erase owner } where
  alone present := by
    simp only [inv.alone present, Finset.erase_empty]
  once := inv.once
  unshared other mem := inv.unshared other (Finset.mem_of_mem_erase mem)
  holder := inv.holder

lemma Inv.release : Inv { lock with exclusive := koidInvalid } :=
  ⟨fun present => absurd rfl present, inv.once, inv.unshared, fun present => absurd rfl present⟩

lemma Inv.grantShared (free : lock.exclusive = koidInvalid) : Inv lock.grantShared := by
  unfold FileLock.grantShared
  rw [invokeAll_eq]
  refine ⟨fun present => absurd free present, fun other mem => absurd mem not_mem_empty,
    fun other mem => ?_, fun present => absurd free present⟩
  refine ⟨not_mem_empty, ?_⟩
  rcases Finset.mem_union.mp mem with mem | mem
  · exact (inv.unshared other mem).2
  · exact inv.once other (mem_toFinset.mp mem)

lemma Inv.grantExclusive (unshared : lock.shared = ∅) : Inv lock.grantExclusive := by
  unfold FileLock.grantExclusive
  split
  · exact inv
  rename_i owner completer rest first
  have pending : owner ∈ lock.pendingExclusive :=
    mem_of_entry (by rw [first]; exact mem_cons_self)
  refine ⟨fun _ => unshared, fun other mem later => ?_, fun other mem => ?_, fun _ => ?_⟩
  · exact inv.once other mem (mem_of_mem_tail later)
  · rw [unshared] at mem
    cases mem
  · exact ⟨fun mem => inv.once owner mem pending, SortedMap.not_mem_tail first⟩

lemma Inv.waitShared (idle : Idle lock owner) (unshared : owner ∉ lock.shared)
    (others : lock.exclusive ≠ koidInvalid → owner ≠ lock.exclusive) :
    Inv { lock with pendingShared := lock.pendingShared.emplace owner completer } where
  alone := inv.alone
  once other mem := by
    rcases (mem_emplace idle.1).mp mem with rfl | mem
    · exact idle.2
    · exact inv.once other mem
  unshared other mem :=
    idle.waitShared (inv.unshared other mem) (ne_of_mem_of_not_mem mem unshared)
  holder present := idle.waitShared (inv.holder present) (others present).symm

lemma Inv.waitExclusive (idle : Idle lock owner) (unshared : owner ∉ lock.shared)
    (others : lock.exclusive ≠ koidInvalid → owner ≠ lock.exclusive) :
    Inv { lock with pendingExclusive := lock.pendingExclusive.emplace owner completer } where
  alone := inv.alone
  once other mem :=
    not_mem_emplace idle.2 (ne_of_mem_of_not_mem mem idle.1) (inv.once other mem)
  unshared other mem :=
    idle.waitExclusive (inv.unshared other mem) (ne_of_mem_of_not_mem mem unshared)
  holder present := idle.waitExclusive (inv.holder present) (others present).symm

lemma Inv.step (effect : Effect lock owner request completer after) : Inv after := by
  cases effect with
  | answered => exact inv.invoke ..
  | downgraded idle held => exact ((inv.insert idle).grantShared rfl).invoke ..
  | releasedToShared => exact (inv.release.grantShared rfl).invoke ..
  | releasedToExclusive held present =>
    exact (inv.release.grantExclusive (inv.alone (held ▸ present))).invoke ..
  | waitsShared idle held others =>
    refine inv.waitShared idle ?_ fun _ => others
    rw [inv.alone held]
    exact Finset.notMem_empty owner
  | waitsExclusive idle held others =>
    refine inv.waitExclusive idle ?_ fun _ => others
    rw [inv.alone held]
    exact Finset.notMem_empty owner
  | reads idle free =>
    have inserted := inv.insert idle
    rw [← free] at inserted
    exact inserted.invoke ..
  | writes idle free last =>
    exact ⟨fun _ => last, inv.once, (inv.erase owner).unshared, fun _ => idle⟩
  | upgradeWaits idle free =>
    exact (inv.erase owner).waitExclusive idle (Finset.notMem_erase _ _) fun present =>
      absurd free present
  | upgradeRefused | releases => exact (inv.erase owner).invoke ..
  | releasesLast free held last => exact ((inv.erase owner).grantExclusive last).invoke ..

end

lemma run_inv (history : List Call) : Inv (run history) := by
  refine run_induction (motive := fun _ lock => Inv lock) ?_ ?_ history
  · exact ⟨fun _ => rfl, fun _ _ => not_mem_empty,
      fun _ mem => absurd mem (Finset.notMem_empty _), fun present => absurd rfl present⟩
  · intro history lock _ inv
    exact inv.step (lock_effect ..)

/-! ## Nobody waits for a free lock -/

structure Served (lock : FileLock) : Prop where
  valid : ∀ owner ∈ lock.pendingExclusive, owner ≠ koidInvalid
  shared : lock.pendingShared.entries ≠ [] → lock.exclusive ≠ koidInvalid
  exclusive : lock.pendingExclusive.entries ≠ [] → lock.exclusive ≠ koidInvalid ∨ lock.shared ≠ ∅

lemma Served.invoke (served : Served lock) (status : Status) (completer : Completer) :
    Served (lock.invoke status completer) :=
  ⟨served.valid, served.shared, served.exclusive⟩

lemma grantShared_eq : lock.grantShared = { lock with
        shared := lock.shared ∪ lock.pendingShared.keys.toFinset
        pendingShared := .empty
        invocations := lock.invocations ++ lock.pendingShared.values.map fun completer =>
          ⟨completer, .ok, lock.shared ∪ lock.pendingShared.keys.toFinset, lock.exclusive⟩ } := by
  unfold FileLock.grantShared
  rw [invokeAll_eq]

lemma grantExclusive_nil (none : lock.pendingExclusive.entries = []) : lock.grantExclusive = lock := by
  unfold FileLock.grantExclusive
  rw [none]

lemma grantExclusive_cons (first : lock.pendingExclusive.entries = (owner, completer) :: rest) :
    lock.grantExclusive = { lock with
        exclusive := owner
        pendingExclusive := lock.pendingExclusive.tail }.invoke .ok completer := by
  unfold FileLock.grantExclusive
  rw [first]

/-- After handing the lock to the shared clients nobody is left but behind them. -/
lemma Served.grantShared (lock : FileLock) (valid : ∀ owner ∈ lock.pendingExclusive, owner ≠ koidInvalid)
    (held : lock.shared ∪ lock.pendingShared.keys.toFinset ≠ ∅) : Served lock.grantShared := by
  rw [grantShared_eq]
  exact ⟨valid, fun pending => absurd rfl pending, fun _ => .inr held⟩

lemma Served.grantExclusive (lock : FileLock) (valid : ∀ owner ∈ lock.pendingExclusive, owner ≠ koidInvalid)
    (others : lock.pendingExclusive.entries = [] → lock.pendingShared.entries = []) :
    Served lock.grantExclusive := by
  cases entries : lock.pendingExclusive.entries with
  | nil =>
    rw [grantExclusive_nil entries]
    exact ⟨valid, fun pending => absurd (others entries) pending,
      fun pending => absurd entries pending⟩
  | cons entry =>
    obtain ⟨owner, _⟩ := entry
    have pending : owner ∈ lock.pendingExclusive :=
      mem_of_entry (by rw [entries]; exact mem_cons_self)
    rw [grantExclusive_cons entries]
    exact ⟨fun other mem => valid other (mem_of_mem_tail mem),
      fun _ => valid owner pending, fun _ => .inl (valid owner pending)⟩

lemma Served.step (served : Served lock) (valid : owner ≠ koidInvalid)
    (effect : Effect lock owner request completer after) : Served after := by
  -- While the lock is not exclusive, no shared client waits.
  have none : lock.exclusive = koidInvalid → lock.pendingShared.entries = [] := fun free =>
    not_not.mp fun pending => served.shared pending free
  have emplaced : owner ∉ lock.pendingExclusive →
      ∀ other ∈ lock.pendingExclusive.emplace owner completer, other ≠ koidInvalid := by
    intro absent other mem
    rcases (mem_emplace absent).mp mem with rfl | mem
    · exact valid
    · exact served.valid other mem
  cases effect with
  | answered => exact served.invoke ..
  | downgraded =>
    refine (Served.grantShared { lock with
      exclusive := koidInvalid, shared := insert owner lock.shared } served.valid ?_).invoke ..
    exact Finset.Nonempty.ne_empty ⟨owner, Finset.mem_union_left _ (Finset.mem_insert_self ..)⟩
  | releasedToShared _ _ _ more =>
    refine (Served.grantShared { lock with exclusive := koidInvalid } served.valid
      fun empty => ?_).invoke ..
    have keys := (Finset.union_eq_empty.mp empty).2
    have short : lock.pendingShared.keys = [] := (toFinset_eq_empty_iff _).mp keys
    rw [SortedMap.size, map_eq_nil_iff.mp short] at more
    cases more
  | releasedToExclusive _ _ _ fewer =>
    refine (Served.grantExclusive { lock with exclusive := koidInvalid } served.valid
      fun empty => ?_).invoke ..
    rw [SortedMap.size, SortedMap.size, empty] at fewer
    exact length_eq_zero_iff.mp (Nat.le_zero.mp fewer)
  | waitsShared _ held => exact ⟨served.valid, fun _ => held, served.exclusive⟩
  | waitsExclusive idle held => exact ⟨emplaced idle.2, served.shared, fun _ => .inl held⟩
  | reads _ free => exact ⟨served.valid, served.shared, fun _ => .inr (Finset.insert_ne_empty _ _)⟩
  | writes => exact ⟨served.valid, fun _ => valid, fun _ => .inl valid⟩
  | upgradeWaits idle _ others => exact ⟨emplaced idle.2, served.shared, fun _ => .inr others⟩
  | upgradeRefused _ others => exact ⟨served.valid, served.shared, fun _ => .inr others⟩
  | releasesLast free =>
    exact (Served.grantExclusive { lock with shared := lock.shared.erase owner } served.valid
      fun _ => none free).invoke ..
  | releases _ _ others => exact ⟨served.valid, served.shared, fun _ => .inr others⟩

private lemma run_served (valid : ∀ call ∈ history, call.owner ≠ koidInvalid) : Served (run history) := by
  refine run_induction (motive := fun history lock =>
    (∀ call ∈ history, call.owner ≠ koidInvalid) → Served lock) ?_ ?_ history valid
  · exact fun _ => ⟨fun _ mem => absurd mem not_mem_empty,
      fun pending => absurd rfl pending, fun pending => absurd rfl pending⟩
  · intro history lock call served valid
    refine (served fun other mem => valid other (mem_append_left _ mem)).step ?_
      (lock_effect ..)
    exact valid call (mem_append_right _ mem_cons_self)

/-! ## Completers -/

/-- A request pending in a lock. -/
def Pending (lock : FileLock) (owner : Koid) (completer : Completer) : Prop :=
  (owner, completer) ∈ lock.pendingShared.entries ∨ (owner, completer) ∈ lock.pendingExclusive.entries

/-- What a call adds to the invocations: those of waiters whom it grants the lock,
and its own. -/
def Caused (lock : FileLock) (completer : Completer) (call : Invocation) : Prop :=
  call.completer = completer ∨ call.status = .ok ∧ ∃ other, Pending lock other call.completer

lemma Effect.invocations (effect : Effect lock owner request completer after) :
    ∃ added, after.invocations = lock.invocations ++ added ∧ ∀ call ∈ added, Caused lock completer call := by
  have own : ∀ {status shared exclusive}, ∀ call ∈ [(⟨completer, status, shared, exclusive⟩)],
      Caused lock completer call := by
    intro _ _ _ call mem
    cases mem_singleton.mp mem
    exact .inl rfl
  have shared : ∀ shared exclusive, ∃ added, (({ lock with shared, exclusive }.grantShared.invoke
      .ok completer)).invocations = lock.invocations ++ added ∧
        ∀ call ∈ added, Caused lock completer call := by
    intro _ _
    rw [grantShared_eq]
    refine ⟨_, append_assoc .., fun call mem => (mem_append.mp mem).elim ?_ (own call)⟩
    intro granted
    obtain ⟨pending, waiting, rfl⟩ := mem_map.mp granted
    obtain ⟨entry, found, rfl⟩ := mem_map.mp waiting
    exact .inr ⟨rfl, entry.1, .inl found⟩
  have exclusive : ∀ shared exclusive, ∃ added, (({ lock with shared, exclusive }.grantExclusive.invoke
      .ok completer)).invocations = lock.invocations ++ added ∧
        ∀ call ∈ added, Caused lock completer call := by
    intro shared exclusive
    cases entries : lock.pendingExclusive.entries with
    | nil =>
      rw [grantExclusive_nil (by exact entries)]
      exact ⟨_, rfl, own⟩
    | cons entry =>
      obtain ⟨first, pending⟩ := entry
      rw [grantExclusive_cons (by exact entries)]
      refine ⟨_, append_assoc .., fun call mem => ?_⟩
      rcases mem_append.mp mem with mem | mem
      · cases mem_singleton.mp mem
        exact .inr ⟨rfl, first, .inr (by rw [entries]; exact mem_cons_self)⟩
      · exact own call mem
  cases effect with
  | downgraded | releasedToShared => exact shared ..
  | releasedToExclusive | releasesLast => exact exclusive ..
  | waitsShared | waitsExclusive | upgradeWaits => exact ⟨[], (append_nil _).symm, nofun⟩
  | _ => exact ⟨_, rfl, own⟩

/-- Every completer that was passed to a call and where it is now: invoked or with
a pending request. -/
def passed (lock : FileLock) : List Completer :=
  lock.invocations.map Invocation.completer ++
    (lock.pendingShared.values ++ lock.pendingExclusive.values)

lemma passed_invoke : (passed (lock.invoke status completer)).Perm (completer :: passed lock) := by
  unfold passed FileLock.invoke
  rw [map_append, append_assoc]
  exact perm_middle

private lemma passed_grantShared : (passed lock.grantShared).Perm (passed lock) := by
  rw [grantShared_eq]
  unfold passed
  rw [map_append, map_map, append_assoc]
  have same : lock.pendingShared.values.map (Invocation.completer ∘ fun completer =>
      ⟨completer, .ok, lock.shared ∪ lock.pendingShared.keys.toFinset, lock.exclusive⟩) =
      lock.pendingShared.values := map_id _
  rw [same]
  exact .refl _

lemma passed_grantExclusive : (passed lock.grantExclusive).Perm (passed lock) := by
  cases entries : lock.pendingExclusive.entries with
  | nil => rw [grantExclusive_nil entries]
  | cons entry =>
    obtain ⟨_, completer⟩ := entry
    rw [grantExclusive_cons entries]
    refine (passed_invoke ..).trans ?_
    have tail : lock.pendingExclusive.values = completer :: lock.pendingExclusive.tail.values := by
      simp only [SortedMap.values, SortedMap.tail, entries, map_cons, tail_cons]
    unfold passed
    rw [tail, ← append_assoc, ← append_assoc]
    exact perm_middle.symm

lemma Effect.passed_perm (effect : Effect lock owner request completer after) :
    (passed after).Perm (completer :: passed lock) := by
  have shared : owner ∉ lock.pendingShared → (lock.invocations.map Invocation.completer ++
      ((lock.pendingShared.emplace owner completer).values ++ lock.pendingExclusive.values)).Perm
      (completer :: passed lock) := by
    intro absent
    refine .trans ?_ perm_middle
    exact .append_left _ (.append_right _ (values_emplace absent))
  have exclusive : owner ∉ lock.pendingExclusive → (lock.invocations.map Invocation.completer ++
      (lock.pendingShared.values ++ (lock.pendingExclusive.emplace owner completer).values)).Perm
      (completer :: passed lock) := by
    intro absent
    refine .trans ?_ perm_middle
    exact .append_left _ ((List.Perm.append_left _ (values_emplace absent)).trans perm_middle)
  cases effect with
  | answered => exact passed_invoke
  | downgraded | releasedToShared => exact (passed_invoke ..).trans (.cons _ (passed_grantShared))
  | releasedToExclusive => exact (passed_invoke ..).trans (.cons _ (passed_grantExclusive))
  | releasesLast => exact (passed_invoke ..).trans (.cons _ (passed_grantExclusive))
  | waitsShared idle => exact shared idle.1
  | waitsExclusive idle | upgradeWaits idle => exact exclusive idle.2
  | reads | writes | upgradeRefused | releases => exact passed_invoke ..

/-- No completer is lost or doubled before the destructor. -/
lemma run_passed (history : List Call) : (passed (run history)).Perm (range history.length) := by
  refine run_induction (motive := fun history lock =>
    (passed lock).Perm (range history.length)) (.refl _) ?_ history
  intro history lock call accounted
  have grown := (lock_effect lock call.owner call.request history.length).passed_perm
  rw [length_append, length_singleton, range_succ]
  exact grown.trans ((accounted.cons _).trans (perm_append_singleton _ _).symm)

/-! ## Requests behind completers -/

/-- Who is told that a read or write request succeeded has the lock. -/
def Rightful (calls : List Call) (invocation : Invocation) : Prop :=
  ∀ owner wait,
    (calls[invocation.completer]? = some (.lock owner ⟨.read, wait⟩) → owner ∈ invocation.shared) ∧
    (calls[invocation.completer]? = some (.lock owner ⟨.write, wait⟩) →
      invocation.exclusive = owner)

/-- Completers belong to the requests of the calls with their numbers. -/
structure Tracks (calls : List Call) (lock : FileLock) : Prop where
  shared : ∀ entry ∈ lock.pendingShared.entries,
    calls[entry.2]? = some (.lock entry.1 ⟨.read, true⟩)
  exclusive : ∀ entry ∈ lock.pendingExclusive.entries,
    calls[entry.2]? = some (.lock entry.1 ⟨.write, true⟩)
  rightful : ∀ call ∈ lock.invocations, call.status = .ok → Rightful calls call

section

variable {calls : List Call} {call : Call}

lemma Tracks.invoke (tracks : Tracks calls lock)
    (right : status = .ok → Rightful calls ⟨completer, status, lock.shared, lock.exclusive⟩) :
    Tracks calls (lock.invoke status completer) where
  shared := tracks.shared
  exclusive := tracks.exclusive
  rightful invocation mem ok := by
    rcases mem_append.mp mem with mem | mem
    · exact tracks.rightful invocation mem ok
    · cases mem_singleton.mp mem
      exact right ok

lemma Tracks.grantShared (tracks : Tracks calls lock) : Tracks calls lock.grantShared := by
  rw [grantShared_eq]
  refine ⟨nofun, tracks.exclusive, fun invocation mem ok => ?_⟩
  rcases mem_append.mp mem with mem | mem
  · exact tracks.rightful invocation mem ok
  obtain ⟨_, pending, rfl⟩ := mem_map.mp mem
  obtain ⟨entry, found, rfl⟩ := mem_map.mp pending
  intro _ _
  have request := tracks.shared entry found
  constructor
  · intro reads
    cases request.symm.trans reads
    exact Finset.mem_union_right _ (mem_toFinset.mpr (mem_map.mpr ⟨entry, found, rfl⟩))
  · intro writes
    cases request.symm.trans writes

lemma Tracks.grantExclusive (tracks : Tracks calls lock) : Tracks calls lock.grantExclusive := by
  cases entries : lock.pendingExclusive.entries with
  | nil => rwa [grantExclusive_nil entries]
  | cons entry =>
    obtain ⟨owner, completer⟩ := entry
    have request : calls[completer]? = some (.lock owner ⟨.write, true⟩) :=
      tracks.exclusive (owner, completer) (by rw [entries]; exact mem_cons_self)
    rw [grantExclusive_cons entries]
    refine Tracks.invoke ⟨tracks.shared, fun entry mem =>
      tracks.exclusive entry (mem_of_mem_tail mem), tracks.rightful⟩ fun _ other wait => ?_
    constructor
    · intro reads
      cases request.symm.trans reads
    · intro writes
      cases request.symm.trans writes
      rfl

/-- The completer of a call is told the right thing. -/
lemma rightful_own (numbered : calls[completer]? = some call)
    (reads : call.request.type = .read → call.owner ∈ shared)
    (writes : call.request.type = .write → exclusive = call.owner) :
    Rightful calls ⟨completer, status, shared, exclusive⟩ := by
  intro owner _
  constructor
  · intro same
    cases numbered.symm.trans same
    exact reads rfl
  · intro same
    cases numbered.symm.trans same
    exact writes rfl

private lemma call_of_waiting (same : call.request = ⟨type, true⟩) : call = .lock call.owner ⟨type, true⟩ := by
  cases call with
  | lock owner request => exact congrArg (Call.lock owner) same
  | forget owner => cases same

lemma tracked_emplace {map : SortedMap Koid Completer} (numbered : calls[completer]? = some call)
    (same : call.request = ⟨type, true⟩)
    (tracked : ∀ entry ∈ map.entries, calls[entry.2]? = some (.lock entry.1 ⟨type, true⟩)) :
    ∀ entry ∈ (map.emplace call.owner completer).entries,
      calls[entry.2]? = some (.lock entry.1 ⟨type, true⟩) := by
  intro entry mem
  rcases SortedMap.mem_insertEntry mem with rfl | mem
  · rw [numbered, call_of_waiting same]
    rfl
  · exact tracked entry mem

lemma Tracks.step (tracks : Tracks calls lock) (numbered : calls[completer]? = some call)
    (effect : Effect lock call.owner call.request completer after) : Tracks calls after := by
  -- No call unlocks and also reads or writes.
  have unlocking : call.request.type = .unlock → ∀ {shared exclusive},
      Rightful calls ⟨completer, .ok, shared, exclusive⟩ := by
    intro unlocks shared exclusive
    refine rightful_own numbered (fun reads => ?_) fun writes => ?_
    · cases unlocks.symm.trans reads
    · cases unlocks.symm.trans writes
  -- Who holds the lock is not tracked.
  have held : ∀ shared exclusive, Tracks calls { lock with shared, exclusive } := fun _ _ =>
    ⟨tracks.shared, tracks.exclusive, tracks.rightful⟩
  cases effect with
  | answered _ right =>
    refine tracks.invoke fun ok => ?_
    subst ok
    rcases right rfl with unlocks | ⟨writes, held⟩
    · exact unlocking unlocks
    · refine rightful_own numbered (fun reads => ?_) fun _ => held
      cases writes.symm.trans reads
  | downgraded idle _ reads =>
    refine (held ..).grantShared.invoke fun _ => rightful_own numbered (fun _ => ?_) fun writes => ?_
    · rw [grantShared_eq]
      exact Finset.mem_union_left _ (Finset.mem_insert_self ..)
    · cases reads.symm.trans writes
  | releasedToShared _ _ unlocks => exact (held ..).grantShared.invoke fun _ => unlocking unlocks
  | releasedToExclusive _ _ unlocks =>
    exact (held ..).grantExclusive.invoke fun _ => unlocking unlocks
  | waitsShared idle _ others same =>
    exact ⟨tracked_emplace numbered same tracks.shared, tracks.exclusive, tracks.rightful⟩
  | waitsExclusive idle _ others same | upgradeWaits idle free others same =>
    exact ⟨tracks.shared, tracked_emplace numbered same tracks.exclusive, tracks.rightful⟩
  | reads idle free reads =>
    refine (held ..).invoke fun _ => rightful_own numbered (fun _ => Finset.mem_insert_self ..) ?_
    intro writes
    cases reads.symm.trans writes
  | writes idle free _ writes =>
    refine (held ..).invoke fun _ => rightful_own numbered ?_ fun _ => rfl
    intro reads
    cases writes.symm.trans reads
  | upgradeRefused => exact (held ..).invoke nofun
  | releasesLast _ _ _ unlocks => exact (held ..).grantExclusive.invoke fun _ => unlocking unlocks
  | releases _ _ _ unlocks => exact (held ..).invoke fun _ => unlocking unlocks

/-- After part of the calls. -/
lemma run_tracks (part : history <+: calls) : Tracks calls (run history) := by
  refine run_induction (motive := fun history lock => history <+: calls → Tracks calls lock) ?_ ?_
    history part
  · exact fun _ => ⟨nofun, nofun, nofun⟩
  · intro history lock _ tracks part
    obtain ⟨rest, rfl⟩ := part
    refine (tracks ((prefix_append ..).trans (prefix_append ..))).step ?_ (lock_effect ..)
    rw [append_assoc, getElem?_append_right le_rfl, Nat.sub_self]
    rfl

end

/-! ## The state of a lock -/

/-- Where an owner is known. -/
def places (lock : FileLock) (owner : Koid) : List Bool :=
  [lock.exclusive = owner, owner ∈ lock.shared, owner ∈ lock.pendingShared,
    owner ∈ lock.pendingExclusive]

/-- What one can rely on between calls. -/
structure Consistent (lock : FileLock) : Prop where
  alone : lock.exclusive ≠ koidInvalid → lock.shared = ∅
  once : ∀ owner ≠ koidInvalid, (places lock owner).count true ≤ 1
  pendingShared : lock.pendingShared.entries ≠ [] → lock.exclusive ≠ koidInvalid
  pendingExclusive : lock.pendingExclusive.entries ≠ [] →
    lock.exclusive ≠ koidInvalid ∨ lock.shared ≠ ∅

lemma Inv.places_le (inv : Inv lock) (valid : owner ≠ koidInvalid) : (places lock owner).count true ≤ 1 := by
  have alone := inv.alone
  have holder := inv.holder
  have unshared := inv.unshared owner
  have once := inv.once owner
  unfold places
  by_cases exclusive : lock.exclusive = owner
  · subst exclusive
    obtain ⟨idle, idle'⟩ := holder valid
    simp [alone valid, idle, idle']
  · by_cases shared : owner ∈ lock.shared
    · obtain ⟨idle, idle'⟩ := unshared shared
      simp [exclusive, shared, idle, idle']
    · by_cases pending : owner ∈ lock.pendingShared
      · simp [exclusive, shared, pending, once pending]
      · by_cases pending' : owner ∈ lock.pendingExclusive <;>
          simp [exclusive, shared, pending, pending']

/-- The state after any calls, and what completers were told. -/
theorem run_consistent (history : List Call)
    (valid : ∀ call ∈ history, call.owner ≠ koidInvalid) :
    Consistent (run history) ∧
      ∀ call ∈ (run history).invocations, call.status = .ok → Rightful history call := by
  have inv := run_inv history
  have served := run_served valid
  refine ⟨⟨inv.alone, fun owner present => inv.places_le present, served.shared,
    served.exclusive⟩, ?_⟩
  exact (run_tracks prefix_rfl).rightful

/-- A reader downgrades and a writer waits. -/
theorem run_consistent_downgrade :
    let history : List Call := [.lock 1 ⟨.write, true⟩, .lock 2 ⟨.read, true⟩,
      .lock 3 ⟨.write, true⟩, .lock 1 ⟨.read, true⟩, .forget 2]
    Consistent (run history) ∧
      ∀ call ∈ (run history).invocations, call.status = .ok → Rightful history call :=
  run_consistent _ (by decide)

/-! ## The destructor -/

/-- Every completer is invoked once: in the call it was passed to, in a later one
with `ZX_OK`, or by the destructor with `ZX_ERR_CANCELED`. -/
structure Settled (history : List Call) : Prop where
  once : ∀ completer < history.length,
    ((run history).destroy.invocations.map Invocation.completer).count completer = 1
  granted : ∀ before call after, history = before ++ call :: after →
    ∀ invocation ∈ (run (before ++ [call])).invocations.drop (run before).invocations.length,
      invocation.completer = before.length ∨
        invocation.completer < before.length ∧ invocation.status = .ok
  canceled : ∀ invocation ∈
    (run history).destroy.invocations.drop (run history).invocations.length,
      invocation.status = .canceled ∧ ∃ owner, Pending (run history) owner invocation.completer

lemma destroy_invocations : lock.destroy.invocations = lock.invocations ++
      (lock.pendingShared.values ++ lock.pendingShared.values).map fun completer =>
        ⟨completer, .canceled, lock.shared, lock.exclusive⟩ := by
  unfold FileLock.destroy
  simp only [invokeAll_eq, append_assoc, map_append]

lemma count_destroy : (lock.destroy.invocations.map Invocation.completer).count completer =
      (lock.invocations.map Invocation.completer).count completer +
        2 * lock.pendingShared.values.count completer := by
  have same : ∀ completers : List Completer, (completers.map fun completer =>
      (⟨completer, .canceled, lock.shared, lock.exclusive⟩)).map
        Invocation.completer = completers := by
    intro completers
    rw [map_map]
    exact map_id _
  rw [destroy_invocations, map_append, same, count_append, count_append]
  omega

lemma count_passed (known : completer < history.length) :
    ((run history).invocations.map Invocation.completer).count completer +
      ((run history).pendingShared.values.count completer +
        (run history).pendingExclusive.values.count completer) = 1 := by
  have counted := (run_passed history).count_eq completer
  unfold passed at counted
  rw [count_append, count_append] at counted
  rw [counted]
  exact count_eq_one_of_mem nodup_range (mem_range.mpr known)

lemma lt_of_pending (pending : Pending (run history) owner completer) : completer < history.length := by
  refine mem_range.mp ((run_passed history).mem_iff.mp (mem_append_right _ ?_))
  refine mem_append.mpr (pending.imp (fun found => ?_) fun found => ?_)
  · exact mem_map.mpr ⟨_, found, rfl⟩
  · exact mem_map.mpr ⟨_, found, rfl⟩

private lemma run_granted :
    ∀ invocation ∈ (run (before ++ [call])).invocations.drop (run before).invocations.length,
      invocation.completer = before.length ∨
        invocation.completer < before.length ∧ invocation.status = .ok := by
  obtain ⟨_, grown, right⟩ :=
    (lock_effect (run before) call.owner call.request before.length).invocations
  rw [run_concat, grown, drop_left]
  intro invocation mem
  refine (right invocation mem).imp_right fun granted => ?_
  obtain ⟨ok, _, pending⟩ := granted
  exact ⟨lt_of_pending pending, ok⟩

/-- The completers are invoked as they should be exactly if no request is pending
when the lock is destroyed. -/
theorem settled_iff (history : List Call) :
    Settled history ↔ (run history).pendingShared.entries = [] ∧
      (run history).pendingExclusive.entries = [] := by
  constructor
  · intro settled
    -- A pending request that is shared is invoked twice, one that is exclusive never.
    constructor
    · apply eq_nil_iff_forall_not_mem.mpr
      intro entry found
      have member : entry.2 ∈ (run history).pendingShared.values :=
        mem_map.mpr ⟨entry, found, rfl⟩
      have known : entry.2 < history.length := lt_of_pending (.inl found)
      have twice := settled.once entry.2 known
      rw [count_destroy] at twice
      have pending := count_pos_iff.mpr member
      omega
    · apply eq_nil_iff_forall_not_mem.mpr
      intro entry found
      have member : entry.2 ∈ (run history).pendingExclusive.values :=
        mem_map.mpr ⟨entry, found, rfl⟩
      have known : entry.2 < history.length := lt_of_pending (.inr found)
      have never := settled.once entry.2 known
      have total := count_passed known
      rw [count_destroy] at never
      have pending := count_pos_iff.mpr member
      omega
  · rintro ⟨shared, exclusive⟩
    have none : (run history).pendingShared.values = [] := by rw [SortedMap.values, shared]; rfl
    have none' : (run history).pendingExclusive.values = [] := by
      rw [SortedMap.values, exclusive]
      rfl
    refine ⟨fun completer known => ?_, fun before call after _ => run_granted, ?_⟩
    · have total := count_passed known
      rw [none, none'] at total
      rw [count_destroy, none]
      exact total
    · rw [destroy_invocations, none, drop_left]
      exact nofun

/-- A writer that still waits is never told, and a reader twice. -/
theorem destroy_pending :
    let history : List Call := [.lock 1 ⟨.write, true⟩, .lock 2 ⟨.read, true⟩, .lock 3 ⟨.write, true⟩]
    (run history).destroy.invocations.map Invocation.completer = [0, 1, 1] ∧ ¬ Settled history := by
  intro history
  have invoked : (run history).destroy.invocations.map Invocation.completer = [0, 1, 1] := by decide
  refine ⟨invoked, fun settled => ?_⟩
  have once := settled.once 2 (by decide)
  cases once

/-! ## Forgotten owners -/

def Holds (lock : FileLock) (owner : Koid) : Prop :=
  owner ≠ koidInvalid ∧ lock.exclusive = owner ∨ owner ∈ lock.shared

/-- The owner is not known. -/
structure Absent (lock : FileLock) (owner : Koid) : Prop where
  idle : Idle lock owner
  free : ¬ Holds lock owner

/-- An invocation grants a lock to an owner. -/
def Grants (calls : List Call) (owner : Koid) (invocation : Invocation) : Prop :=
  invocation.status = .ok ∧ ∃ request, request.type ≠ .unlock ∧
    calls[invocation.completer]? = some (.lock owner request)

/-- After the owner is forgotten and other calls were made, the owner has no lock,
and was granted none meanwhile. -/
def StaysForgotten (history : List Call) (owner : Koid) (future : List Call) : Prop :=
  ¬ Holds (run (history ++ .forget owner :: future)) owner ∧
    ∀ invocation ∈ (run (history ++ .forget owner :: future)).invocations.drop
      (run (history ++ [.forget owner])).invocations.length,
      ¬ Grants (history ++ .forget owner :: future) owner invocation

/-- The owner makes no request. -/
def Silent (owner : Koid) (future : List Call) : Prop :=
  ∀ call ∈ future, ∀ request, call ≠ .lock owner request

section

variable (absent : Absent lock owner)
include absent

lemma Absent.invoke (status : Status) (completer : Completer) :
    Absent (lock.invoke status completer) owner := ⟨absent.idle, absent.free⟩

lemma Absent.grantShared : Absent lock.grantShared owner := by
  rw [grantShared_eq]
  refine ⟨⟨not_mem_empty, absent.idle.2⟩, fun holds => ?_⟩
  rcases holds with exclusive | shared
  · exact absent.free (.inl exclusive)
  rcases Finset.mem_union.mp shared with shared | pending
  · exact absent.free (.inr shared)
  · exact absent.idle.1 (mem_toFinset.mp pending)

lemma Absent.grantExclusive : Absent lock.grantExclusive owner := by
  cases entries : lock.pendingExclusive.entries with
  | nil => rwa [grantExclusive_nil entries]
  | cons entry =>
    obtain ⟨first, _⟩ := entry
    have pending : first ∈ lock.pendingExclusive :=
      mem_of_entry (by rw [entries]; exact mem_cons_self)
    rw [grantExclusive_cons entries]
    refine ⟨⟨absent.idle.1, fun mem =>
      absent.idle.2 (mem_of_mem_tail mem)⟩, fun holds => ?_⟩
    rcases holds with ⟨_, rfl⟩ | shared
    · exact absent.idle.2 pending
    · exact absent.free (.inr shared)

lemma Absent.release : Absent { lock with exclusive := koidInvalid } owner :=
  ⟨absent.idle, fun holds => holds.elim (fun exclusive => exclusive.1 exclusive.2.symm)
    fun shared => absent.free (.inr shared)⟩

lemma Absent.erase (other : Koid) : Absent { lock with shared := lock.shared.erase other } owner :=
  ⟨absent.idle, fun holds => holds.elim (fun exclusive => absent.free (.inl exclusive))
    fun shared => absent.free (.inr (Finset.mem_of_mem_erase shared))⟩

lemma Absent.insert (different : other ≠ owner) :
    Absent { lock with shared := insert other lock.shared } owner :=
  ⟨absent.idle, fun holds => holds.elim (fun exclusive => absent.free (.inl exclusive))
    fun shared => (Finset.mem_insert.mp shared).elim different.symm fun shared =>
      absent.free (.inr shared)⟩

/-- The calls of others do not bring an owner back. -/
lemma Absent.step (others : other ≠ owner ∨ request.type = .unlock)
    (effect : Effect lock other request completer after) : Absent after owner := by
  cases effect with
  | answered => exact absent.invoke ..
  | downgraded _ _ reads =>
    have different := others.resolve_right fun unlocks => by cases unlocks.symm.trans reads
    exact (absent.release.insert different).grantShared.invoke ..
  | releasedToShared => exact absent.release.grantShared.invoke ..
  | releasedToExclusive => exact absent.release.grantExclusive.invoke ..
  | waitsShared idle _ _ same =>
    subst same
    exact ⟨idle.waitShared absent.idle (others.resolve_right nofun).symm, absent.free⟩
  | waitsExclusive idle _ _ same =>
    subst same
    exact ⟨idle.waitExclusive absent.idle (others.resolve_right nofun).symm, absent.free⟩
  | reads _ free reads =>
    have different := others.resolve_right fun unlocks => by cases unlocks.symm.trans reads
    exact (absent.insert different).invoke ..
  | writes _ free _ writes =>
    have other := others.resolve_right fun unlocks => by cases unlocks.symm.trans writes
    refine ⟨absent.idle, fun holds => ?_⟩
    rcases holds with exclusive | shared
    · exact other exclusive.2
    · exact absent.free (.inr (Finset.mem_of_mem_erase shared))
  | upgradeWaits idle _ _ same =>
    subst same
    exact ⟨idle.waitExclusive absent.idle (others.resolve_right nofun).symm, (absent.erase _).free⟩
  | upgradeRefused | releases => exact (absent.erase _).invoke ..
  | releasesLast => exact (absent.erase _).grantExclusive.invoke ..

end

lemma lock_running (effect : Effect lock owner request completer after) : after.running = lock.running := by
  have shared : ∀ lock : FileLock, lock.grantShared.running = lock.running := by
    intro lock
    rw [grantShared_eq]
  have exclusive : ∀ lock : FileLock, lock.grantExclusive.running = lock.running := by
    intro lock
    unfold FileLock.grantExclusive
    split <;> rfl
  cases effect with
  | downgraded | releasedToShared => exact shared _
  | releasedToExclusive | releasesLast => exact exclusive _
  | _ => rfl

lemma run_running : (run history).running = true := by
  refine run_induction (motive := fun _ lock => lock.running = true) rfl ?_ history
  intro history lock _ running
  rw [lock_running (lock_effect ..), running]

/-- A call of an owner with no request pending. -/
lemma lock_idle (running : lock.running = true) (idle : Idle lock owner) :
    lock.lock owner request completer = if lock.exclusive ≠ koidInvalid then
        if owner = lock.exclusive then (lock.lockHolder owner request.type).invoke .ok completer
        else lock.lockContended owner request completer else lock.lockShared owner request completer := by
  have free : lock.lockInProgress owner = false := by
    refine Bool.eq_false_iff.mpr fun busy => ?_
    rcases lockInProgress_iff.mp busy with mem | mem
    · exact idle.2 mem
    · exact idle.1 mem
  unfold FileLock.lock
  rw [running, free]
  rfl

/-- Unlocking by an owner with no request pending. -/
private lemma absent_unlock (running : lock.running = true) (inv : Inv lock) (idle : Idle lock owner) :
    Absent (lock.lock owner ⟨.unlock, false⟩ completer) owner := by
  rw [lock_idle running idle]
  split <;> rename_i present
  · have unshared : owner ∉ lock.shared := by
      rw [inv.alone present]
      exact Finset.notMem_empty owner
    have released : Absent { lock with exclusive := koidInvalid } owner :=
      ⟨idle, fun holds => holds.elim (fun exclusive => exclusive.1 exclusive.2.symm) unshared⟩
    split
    · unfold lockHolder
      simp only
      split
      · exact released.grantShared.invoke ..
      · exact released.grantExclusive.invoke ..
    next held =>
      refine Absent.invoke ⟨idle, fun holds => ?_⟩ ..
      exact holds.elim (fun exclusive => held exclusive.2.symm) unshared
  · rw [not_not] at present
    have erased : Absent { lock with shared := lock.shared.erase owner } owner := by
      refine ⟨idle, fun holds => ?_⟩
      rcases holds with exclusive | shared
      · exact exclusive.1 (exclusive.2.symm.trans present)
      · exact Finset.notMem_erase _ _ shared
    unfold lockShared
    simp only
    split
    · split
      · exact erased.grantExclusive.invoke ..
      · exact erased.invoke ..
    next held =>
      refine Absent.invoke ⟨idle, fun holds => ?_⟩ ..
      exact holds.elim (fun exclusive => exclusive.1 (exclusive.2.symm.trans present)) held

/-- No call grants a lock to an absent owner. -/
lemma Absent.not_grants (absent : Absent lock owner)
    (tracks : Tracks calls lock) (numbered : calls[completer]? = some call)
    (silent : ∀ request, call ≠ .lock owner request) (right : Caused lock completer invocation) :
    ¬ Grants calls owner invocation := by
  rintro ⟨_, request, _, granted⟩
  rcases right with own | ⟨_, other, shared | exclusive⟩
  · rw [own, numbered] at granted
    exact silent request (Option.some.inj granted)
  · cases (tracks.shared _ shared).symm.trans granted
    exact absent.idle.1 (mem_of_entry shared)
  · cases (tracks.exclusive _ exclusive).symm.trans granted
    exact absent.idle.2 (mem_of_entry exclusive)

/-- An owner that was forgotten while it had no request pending stays absent. -/
private lemma absent_of_idle (idle : Idle (run history) owner)
    (part : history ++ .forget owner :: future <+: calls)
    (silent : Silent owner future) : Absent (run (history ++ .forget owner :: future)) owner ∧
      ∃ added, (run (history ++ .forget owner :: future)).invocations =
        (run (history ++ [.forget owner])).invocations ++ added ∧
        ∀ invocation ∈ added, ¬ Grants calls owner invocation := by
  induction future using reverseRecOn with
  | nil =>
    refine ⟨?_, [], (append_nil _).symm, nofun⟩
    rw [run_concat]
    exact absent_unlock (run_running) (run_inv history) idle
  | append_singleton future call ih =>
    have longer : history ++ .forget owner :: (future ++ [call]) =
        history ++ .forget owner :: future ++ [call] := by simp
    rw [longer] at part ⊢
    have numbered : calls[(history ++ .forget owner :: future).length]? = some call := by
      obtain ⟨_, rfl⟩ := part
      rw [append_assoc, getElem?_append_right le_rfl, Nat.sub_self]
      rfl
    have earlier := (prefix_append _ [call]).trans part
    obtain ⟨absent, added, grown, none⟩ := ih earlier fun other mem =>
      silent other (mem_append_left _ mem)
    have quiet := silent call (mem_append_right _ mem_cons_self)
    have effect := lock_effect (run (history ++ .forget owner :: future)) call.owner call.request
      (history ++ .forget owner :: future).length
    rw [run_concat]
    refine ⟨absent.step ?_ effect, ?_⟩
    · cases call with
      | lock other request =>
        exact .inl fun same => quiet request (congrArg (Call.lock · request) same)
      | forget other => exact .inr rfl
    · obtain ⟨more, grown', right⟩ := effect.invocations
      refine ⟨added ++ more, by rw [grown', grown, append_assoc], fun invocation mem => ?_⟩
      rcases mem_append.mp mem with mem | mem
      · exact none invocation mem
      · exact absent.not_grants (run_tracks earlier) numbered quiet (right invocation mem)

/-! ## Waiting owners are served -/

/-- A later state in which a request was granted. -/
def Granted (lock after : FileLock) (completer : Completer) : Prop :=
  ∃ added, after.invocations = lock.invocations ++ added ∧
    ∃ invocation ∈ added, invocation.completer = completer ∧ invocation.status = .ok

/-- It drops whenever a lock is released. -/
def weight (lock : FileLock) : Nat :=
  2 * (lock.pendingShared.size + lock.pendingExclusive.size) + lock.shared.card +
    if lock.exclusive = koidInvalid then 0 else 1

lemma Granted.of_prefix (earlier : lock.invocations <+: middle.invocations)
    (granted : Granted middle after completer) : Granted lock after completer := by
  obtain ⟨first, same⟩ := earlier
  obtain ⟨added, grown, invocation, mem, told⟩ := granted
  refine ⟨first ++ added, by rw [grown, ← same, append_assoc], invocation,
    mem_append_right _ mem, told⟩

lemma Granted.invoke (granted : Granted lock after completer) (status : Status)
    (other : Completer) : Granted lock (after.invoke status other) completer := by
  obtain ⟨added, grown, invocation, mem, told⟩ := granted
  refine ⟨added ++ [⟨other, status, after.shared, after.exclusive⟩], ?_, invocation,
    mem_append_left _ mem, told⟩
  unfold FileLock.invoke
  rw [grown, append_assoc]

lemma grantShared_granted (lock : FileLock) (pending : (owner, completer) ∈ lock.pendingShared.entries) :
    Granted lock lock.grantShared completer := by
  refine ⟨lock.pendingShared.values.map fun completer =>
    ⟨completer, .ok, lock.shared ∪ lock.pendingShared.keys.toFinset, lock.exclusive⟩,
    by rw [grantShared_eq], _, mem_map.mpr ⟨completer, ?_, rfl⟩, rfl, rfl⟩
  exact mem_map.mpr ⟨_, pending, rfl⟩

/-- Unblocking the shared clients grants a request or leaves it pending. -/
private lemma grantShared_progress (lock : FileLock) (free : lock.exclusive = koidInvalid)
    (pending : Pending lock owner completer) : Granted lock lock.grantShared completer ∨
      Pending lock.grantShared owner completer ∧ weight lock.grantShared ≤ weight lock := by
  rcases pending with shared | exclusive
  · exact .inl (grantShared_granted lock shared)
  rw [grantShared_eq]
  refine .inr ⟨.inr exclusive, ?_⟩
  unfold weight
  simp only [free, if_true]
  have union := Finset.card_union_le lock.shared lock.pendingShared.keys.toFinset
  have keys : lock.pendingShared.keys.toFinset.card ≤ lock.pendingShared.size :=
    (toFinset_card_le _).trans_eq (length_map _)
  have none : (SortedMap.empty : SortedMap Koid Completer).size = 0 := rfl
  omega

lemma grantExclusive_progress (lock : FileLock) (free : lock.exclusive = koidInvalid)
    (pending : Pending lock owner completer) : Granted lock lock.grantExclusive completer ∨
      Pending lock.grantExclusive owner completer ∧ weight lock.grantExclusive ≤ weight lock ∧
        (lock.pendingExclusive.entries ≠ [] → weight lock.grantExclusive < weight lock) := by
  cases entries : lock.pendingExclusive.entries with
  | nil =>
    rw [grantExclusive_nil entries]
    exact .inr ⟨pending, le_rfl, fun some => absurd rfl some⟩
  | cons entry =>
    obtain ⟨first, told⟩ := entry
    rw [grantExclusive_cons entries]
    have size : lock.pendingExclusive.size = lock.pendingExclusive.tail.size + 1 := by
      simp only [SortedMap.size, SortedMap.tail, entries, tail_cons, length_cons]
    have lighter : weight ({ lock with
        exclusive := first
        pendingExclusive := lock.pendingExclusive.tail }.invoke .ok told) < weight lock := by
      unfold weight FileLock.invoke
      simp only [free, if_true, size]
      split <;> omega
    rcases pending with shared | exclusive
    · exact .inr ⟨.inl shared, Nat.le_of_lt lighter, fun _ => lighter⟩
    rw [entries] at exclusive
    rcases mem_cons.mp exclusive with same | _
    · cases same
      exact .inl ⟨_, rfl, _, mem_cons_self, rfl, rfl⟩
    · refine .inr ⟨.inr ?_, Nat.le_of_lt lighter, fun _ => lighter⟩
      change _ ∈ lock.pendingExclusive.entries.tail
      rwa [entries]

lemma Pending.not_idle (pending : Pending lock owner completer) : ¬ Idle lock owner := by
  intro idle
  rcases pending with shared | exclusive
  · exact idle.1 (mem_of_entry shared)
  · exact idle.2 (mem_of_entry exclusive)

/-- Calls of others bring a pending request nearer. -/
def Nearer (lock after : FileLock) (owner : Koid) (completer : Completer) : Prop :=
  Granted lock after completer ∨ Pending after owner completer ∧ weight after < weight lock

/-- The owner of the exclusive lock releases it. -/
private lemma nearer_exclusive (running : lock.running = true) (inv : Inv lock)
    (held : lock.exclusive ≠ koidInvalid) (pending : Pending lock owner completer) :
    Nearer lock (lock.lock lock.exclusive ⟨.unlock, false⟩ later) owner completer := by
  rw [lock_idle running (inv.holder held), if_pos held, if_pos rfl]
  unfold lockHolder
  simp only
  have lighter : weight { lock with exclusive := koidInvalid } < weight lock := by
    unfold weight
    simp only [if_true, if_neg held]
    omega
  split
  · rcases grantShared_progress { lock with exclusive := koidInvalid } rfl pending with
      granted | ⟨pending, light⟩
    · exact .inl (granted.invoke ..)
    · exact .inr ⟨pending, Nat.lt_of_le_of_lt light lighter⟩
  · rcases grantExclusive_progress { lock with exclusive := koidInvalid } rfl pending with
      granted | ⟨pending, light, _⟩
    · exact .inl (granted.invoke ..)
    · exact .inr ⟨pending, Nat.lt_of_le_of_lt light lighter⟩

/-- The owner of a shared lock releases it. -/
private lemma nearer_shared (running : lock.running = true) (inv : Inv lock)
    (free : lock.exclusive = koidInvalid) (held : other ∈ lock.shared)
    (pending : Pending lock owner completer) :
    Nearer lock (lock.lock other ⟨.unlock, false⟩ later) owner completer := by
  rw [lock_idle running (inv.unshared other held), if_neg (not_not.mpr free)]
  unfold lockShared
  simp only
  rw [if_pos held]
  have lighter : weight { lock with shared := lock.shared.erase other } < weight lock := by
    unfold weight
    have fewer := Finset.card_erase_lt_of_mem held
    simp only
    omega
  split
  · rcases grantExclusive_progress { lock with shared := lock.shared.erase other } free
      pending with granted | ⟨pending, light, _⟩
    · exact .inl (granted.invoke ..)
    · exact .inr ⟨pending, Nat.lt_of_le_of_lt light lighter⟩
  · exact .inr ⟨pending, lighter⟩

/-- Somebody who has nothing to do with the lock. -/
private lemma exists_stranger : ∃ other, other ≠ owner ∧ other ≠ koidInvalid ∧ Idle lock other := by
  obtain ⟨other, fresh⟩ := Infinite.exists_notMem_finset
    (insert owner (insert koidInvalid
      (lock.pendingShared.keys.toFinset ∪ lock.pendingExclusive.keys.toFinset)))
  simp only [Finset.mem_insert, Finset.mem_union, mem_toFinset, not_or] at fresh
  exact ⟨other, fresh.1, fresh.2.1, fresh.2.2.1, fresh.2.2.2⟩

section

variable (running : lock.running = true)
include running

/-- A stranger takes the free lock for writing, and then for reading only. -/
private lemma granted_of_downgrade (free : lock.exclusive = koidInvalid)
    (unshared : lock.shared = ∅) (present : other ≠ koidInvalid) (idle : Idle lock other)
    (pending : (owner, completer) ∈ lock.pendingShared.entries) (next : Completer) :
    Granted lock ((lock.lock other ⟨.write, false⟩ next).lock other ⟨.read, false⟩ (next + 1)) completer := by
  let entered : FileLock :=
    { lock with shared := lock.shared.erase other, exclusive := other }.invoke .ok next
  have first : lock.lock other ⟨.write, false⟩ next = entered := by
    rw [lock_idle running idle, if_neg (not_not.mpr free)]
    unfold lockShared
    rw [if_pos (by rw [unshared, Finset.erase_empty])]
  have second : entered.lock other ⟨.read, false⟩ (next + 1) =
      (entered.lockHolder other .read).invoke .ok (next + 1) := by
    rw [lock_idle (show entered.running = true from running) idle]
    exact (if_pos present).trans (if_pos rfl)
  rw [first, second]
  have granted := grantShared_granted
    { entered with exclusive := koidInvalid, shared := insert other entered.shared } pending
  exact (granted.of_prefix (prefix_append ..)).invoke ..

/-- A stranger takes the free lock for reading, and releases it. -/
private lemma nearer_released (free : lock.exclusive = koidInvalid)
    (unshared : lock.shared = ∅) (idle : Idle lock other)
    (pending : (owner, completer) ∈ lock.pendingExclusive.entries) (next : Completer) :
    Nearer lock ((lock.lock other ⟨.read, false⟩ next).lock other ⟨.unlock, false⟩ (next + 1))
      owner completer := by
  let entered : FileLock := { lock with shared := insert other lock.shared }.invoke .ok next
  have first : lock.lock other ⟨.read, false⟩ next = entered := by
    rw [lock_idle running idle, if_neg (not_not.mpr free)]
    rfl
  have second : entered.lock other ⟨.unlock, false⟩ (next + 1) =
      entered.lockShared other ⟨.unlock, false⟩ (next + 1) := by
    rw [lock_idle (show entered.running = true from running) idle]
    exact if_neg (not_not.mpr free)
  have mem : other ∈ entered.shared := Finset.mem_insert_self ..
  have left : entered.shared.erase other = ∅ := by
    change (insert other lock.shared).erase other = ∅
    rw [unshared, Finset.erase_insert (Finset.notMem_empty other)]
  rw [first, second]
  unfold lockShared
  simp only
  rw [if_pos mem, if_pos left]
  -- The lock is free again, with the stranger's answer noted.
  let released : FileLock := { entered with shared := entered.shared.erase other }
  have weights : weight released = weight lock := by
    have same : (entered.shared.erase other).card = lock.shared.card := by rw [left, unshared]
    exact congrArg (_ + · + _) same
  rcases grantExclusive_progress released free (.inr pending) with granted | ⟨pending', _, light⟩
  · exact .inl ((granted.of_prefix (prefix_append ..)).invoke ..)
  refine .inr ⟨pending', ?_⟩
  rw [← weights]
  exact light (ne_nil_of_mem pending)

/-- Some calls of others bring a pending request nearer. -/
private lemma exists_nearer (inv : Inv lock) (pending : Pending lock owner completer) (next : Completer) :
    ∃ calls : List Call, (∀ call ∈ calls, call.owner ≠ owner) ∧
      Nearer lock (runFrom lock next calls) owner completer := by
  by_cases held : lock.exclusive ≠ koidInvalid
  · refine ⟨[.lock lock.exclusive ⟨.unlock, false⟩], ?_, nearer_exclusive running inv held pending⟩
    intro call mem
    cases mem_singleton.mp mem
    rintro rfl
    exact pending.not_idle (inv.holder held)
  · rw [not_not] at held
    rcases lock.shared.eq_empty_or_nonempty with unshared | ⟨other, shared⟩
    · obtain ⟨other, different, present, idle⟩ := exists_stranger
      rcases pending with pending | pending
      · refine ⟨[.lock other ⟨.write, false⟩, .lock other ⟨.read, false⟩], ?_,
          .inl (granted_of_downgrade running held unshared present idle pending next)⟩
        intro call mem
        rcases mem_pair.mp mem with rfl | rfl <;> exact different
      · refine ⟨[.lock other ⟨.read, false⟩, .lock other ⟨.unlock, false⟩], ?_,
          nearer_released running held unshared idle pending next⟩
        intro call mem
        rcases mem_pair.mp mem with rfl | rfl <;> exact different
    · refine ⟨[.lock other ⟨.unlock, false⟩], ?_, nearer_shared running inv held shared pending⟩
      intro call mem
      cases mem_singleton.mp mem
      rintro rfl
      exact pending.not_idle (inv.unshared other shared)

/-- What calls keep. -/
private lemma runFrom_keeps (inv : Inv lock) (calls : List Call) (next : Completer) :
    (runFrom lock next calls).running = true ∧ Inv (runFrom lock next calls) ∧
      lock.invocations <+: (runFrom lock next calls).invocations := by
  induction calls generalizing lock next with
  | nil => exact ⟨running, inv, prefix_rfl⟩
  | cons call _ ih =>
    rw [runFrom, Call.apply_eq]
    have effect := lock_effect lock call.owner call.request next
    obtain ⟨_, grown, -⟩ := effect.invocations
    obtain ⟨running', inv', earlier⟩ :=
      ih ((lock_running effect).trans running) (inv.step effect) (next + 1)
    refine ⟨running', inv', List.IsPrefix.trans ?_ earlier⟩
    rw [grown]
    exact prefix_append ..

/-- Whoever waits can be granted the lock without doing anything. -/
lemma exists_granted (inv : Inv lock) (pending : Pending lock owner completer) (next : Completer) :
    ∃ calls : List Call, (∀ call ∈ calls, call.owner ≠ owner) ∧
      Granted lock (runFrom lock next calls) completer := by
  induction bound : weight lock using Nat.strongRecOn generalizing lock next with
  | ind bound ih =>
    obtain ⟨calls, others, granted | ⟨pending', lighter⟩⟩ := exists_nearer running inv pending next
    · exact ⟨calls, others, granted⟩
    · obtain ⟨running', inv', earlier⟩ := runFrom_keeps running inv calls next
      obtain ⟨more, others', granted⟩ :=
        ih _ (bound ▸ lighter) running' inv' pending' (next + calls.length) rfl
      refine ⟨calls ++ more, fun call mem => ?_, ?_⟩
      · exact (mem_append.mp mem).elim (others call) (others' call)
      · rw [runFrom_append]
        exact granted.of_prefix earlier

end

/-- Whoever waits is not stuck: calls of others are enough for its completer to be invoked with `ZX_OK`. -/
theorem waiting_can_be_granted (history : List Call) (owner : Koid) (completer : Completer)
    (waiting : Pending (run history) owner completer) :
    ∃ calls : List Call, (∀ call ∈ calls, call.owner ≠ owner) ∧
      Granted (run history) (run (history ++ calls)) completer := by
  simp only [run_append]
  exact exists_granted run_running (run_inv history) waiting history.length

/-- A reader waits behind a writer. -/
theorem waiting_reader :
    let history : List Call := [.lock 1 ⟨.write, true⟩, .lock 2 ⟨.read, true⟩]
    Pending (run history) 2 1 ∧ ∃ calls : List Call, (∀ call ∈ calls, call.owner ≠ 2) ∧
      Granted (run history) (run (history ++ calls)) 1 :=
  ⟨.inl (by decide), waiting_can_be_granted _ 2 1 (.inl (by decide))⟩

/-- Forgetting an owner ends its interest in the lock exactly if it is not waiting. -/
theorem staysForgotten_iff (history : List Call) (owner : Koid) :
    (∀ future, Silent owner future → StaysForgotten history owner future) ↔
      (run history).lockInProgress owner = false := by
  constructor
  · intro forgotten
    by_contra waiting
    rw [Bool.not_eq_false] at waiting
    -- `Forget` is refused, so the request is still pending after it.
    have refused : run (history ++ [.forget owner]) =
        (run history).invoke .badState history.length := by
      rw [run_concat]
      unfold FileLock.lock
      rw [show (Call.forget owner).owner = owner from rfl, waiting, Bool.or_true]
      rfl
    have found : ∃ completer, Pending (run history) owner completer := by
      rcases lockInProgress_iff.mp waiting with member | member
      · obtain ⟨completer, entry⟩ := entry_of_mem member
        exact ⟨completer, .inr entry⟩
      · obtain ⟨completer, entry⟩ := entry_of_mem member
        exact ⟨completer, .inl entry⟩
    obtain ⟨completer, pending⟩ := found
    have pending' : Pending (run (history ++ [.forget owner])) owner completer := by
      rw [refused]
      exact pending
    obtain ⟨future, others, added, grown, invocation, member, told, ok⟩ :=
      exists_granted (run_running) (run_inv _) pending' (history ++ [Call.forget owner]).length
    have silent : Silent owner future := by
      rintro _ member _ rfl
      exact others _ member rfl
    have whole : history ++ .forget owner :: future = history ++ [.forget owner] ++ future := by
      simp
    have granted := (forgotten future silent).2 invocation
    rw [whole, run_append (history ++ [Call.forget owner]), grown, drop_left] at granted
    refine granted member ⟨ok, ?_⟩
    rw [told]
    have tracks : Tracks (history ++ [.forget owner] ++ future) (run history) :=
      run_tracks (by rw [append_assoc]; exact prefix_append ..)
    rcases pending with shared | exclusive
    · exact ⟨⟨.read, true⟩, nofun, tracks.shared _ shared⟩
    · exact ⟨⟨.write, true⟩, nofun, tracks.exclusive _ exclusive⟩
  · intro free future silent
    obtain ⟨absent, added, grown, none⟩ :=
      absent_of_idle (idle_of_not_lockInProgress free) prefix_rfl silent
    refine ⟨absent.free, ?_⟩
    rw [grown, drop_left]
    exact none

/-- A writer is forgotten while it waits, and is given the lock nevertheless. -/
theorem forgotten_writer :
    let history : List Call := [.lock 1 ⟨.write, true⟩, .lock 2 ⟨.write, true⟩]
    let future : List Call := [.lock 1 ⟨.unlock, true⟩]
    Silent 2 future ∧ (run (history ++ .forget 2 :: future)).exclusive = 2 ∧
      ¬ StaysForgotten history 2 future := by
  intro history future
  have exclusive : (run (history ++ .forget 2 :: future)).exclusive = 2 := by decide
  refine ⟨?_, exclusive, fun forgotten => forgotten.1 (.inl ⟨by decide, exclusive⟩)⟩
  intro _ member _ same
  cases mem_singleton.mp member
  cases same

end FuchsiaSdk.FileLockProofs
