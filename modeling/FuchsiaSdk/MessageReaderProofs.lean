import FuchsiaSdk.MessageReader

/-! Re-entrant dispatch in `MessageReader`. The canaries on the stack are two chains of
watches: one whose epochs are the bindings of the reader, and one whose only epoch is its
life. From that every frame knows, when its handler returns, whether its binding has lasted. -/
namespace FuchsiaSdk.MessageReader
open WatchChain
open List hiding after

/-! ## The canaries on the stack -/

def Return.watchers (binding : Nat) : Return → List Watcher
  | .reading _ _ (some canary) => [(canary, binding)]
  | _ => []

def Frame.watchers : Frame → List Watcher
  | .message _ binding canary => [(canary, binding)]
  | .error after binding _ => after.watchers binding

def Mode.watchers : Mode → List Watcher
  | .notifying after binding | .notified after binding => after.watchers binding
  | _ => []

/-- The canaries in the slot `should_stop_`, with their bindings. -/
def State.watchers (st : State) : List Watcher :=
  st.mode.watchers ++ st.stack.flatMap Frame.watchers

def Frame.deathWatchers : Frame → List Watcher
  | .message .. => []
  | .error _ _ canary => [(canary, 0)]

/-- The canaries in the slot `destroyed_`. -/
def State.deathWatchers (st : State) : List Watcher := st.stack.flatMap Frame.deathWatchers

def Frame.ended : Frame → List Nat
  | .message .. => []
  | .error _ binding _ => [binding]

def Mode.ended : Mode → List Nat
  | .notified _ binding => [binding]
  | _ => []

/-- The bindings that a `NotifyError` on the stack has ended. -/
def State.ended (st : State) : List Nat := st.mode.ended ++ st.stack.flatMap Frame.ended

/-- The binding that the reader must have in a mode. -/
def Mode.working : Mode → List Nat
  | .reading _ binding | .beginning binding | .notifying _ binding => [binding]
  | _ => []

/-- `ReadAndDispatchMessage` returns an error after `NotifyError`, and not the one that makes
`OnHandleReady` go on. -/
def Return.Failed : Return → Prop
  | .finish => True
  | .reading _ status _ => status ≠ .ok ∧ status ≠ .shouldWait

def Frame.returns : Frame → List Return
  | .message .. => []
  | .error after _ _ => [after]

def Mode.returns : Mode → List Return
  | .notifying after _ | .notified after _ => [after]
  | _ => []

def State.returns (st : State) : List Return := st.mode.returns ++ st.stack.flatMap Frame.returns

/-- The reader with the canaries that watch it, the bindings that have ended under a
`NotifyError` and those that are needed. -/
structure Holds (core : Core) (watchers deathWatchers : List Watcher) (ended working : List Nat) : Prop where
  stops : Watches core.stops core.current watchers
  deaths : Watches core.deaths (core.reader.map fun _ => 0) deathWatchers
  numbered : ∀ binding, core.current = some binding → binding < core.bindings
  watched : ∀ watcher ∈ watchers, watcher.2 < core.bindings
  ended : ∀ binding ∈ ended, binding < core.bindings ∧ core.current ≠ some binding
  once : ∀ binding, core.calls binding ≤ 1
  uncalled : ∀ binding, core.current = some binding ∨ core.bindings ≤ binding → core.calls binding = 0
  working : ∀ binding ∈ working, core.current = some binding

structure Inv (st : State) : Prop where
  sound : st.corrupted = false
  holds : Holds st.toCore st.watchers st.deathWatchers st.ended st.mode.working
  failed : ∀ after ∈ st.returns, after.Failed

/-! ## What happens to the reader -/

section Reader

variable {core next : Core} {reader : Reader} {watchers deathWatchers : List Watcher}
  {ended working : List Nat} {binding canary : Nat}

lemma Holds.idle (holds : Holds core watchers deathWatchers ended working) (gone : next.current = none)
    (stops : Watches next.stops none watchers)
    (deaths : Watches next.deaths (next.reader.map fun _ => 0) deathWatchers)
    (bindings : next.bindings = core.bindings) (calls : next.calls = core.calls) :
    Holds next watchers deathWatchers ended [] where
  stops := by rwa [gone]
  deaths := deaths
  numbered _ now := by rw [gone] at now; cases now
  watched := by rw [bindings]; exact holds.watched
  ended binding mem := by
    rw [bindings, gone]
    exact ⟨(holds.ended binding mem).1, nofun⟩
  once := by rw [calls]; exact holds.once
  uncalled binding new := by
    rw [calls]
    refine holds.uncalled binding (.inr ?_)
    rcases new with now | new
    · rw [gone] at now
      cases now
    · rwa [bindings] at new
  working _ mem := absurd mem not_mem_nil

lemma current_of_found (found : core.reader = some reader) : core.current = reader.binding := by
  rw [Core.current, found]
  rfl

lemma unbind_current (found : core.reader = some reader) : (core.unbind reader).current = none := by
  unfold Core.unbind
  split
  next unbound => rw [current_of_found found, unbound]
  · rfl

lemma unbind_reader (found : core.reader = some reader) :
    ∃ left, (core.unbind reader).reader = some left ∧ left.binding = none := by
  unfold Core.unbind at ⊢
  split
  next unbound => exact ⟨reader, found, unbound⟩
  · exact ⟨_, rfl, rfl⟩

@[simp] lemma unbind_deaths : (core.unbind reader).deaths = core.deaths := by
  unfold Core.unbind
  split <;> rfl

@[simp] lemma unbind_bindings : (core.unbind reader).bindings = core.bindings := by
  unfold Core.unbind
  split <;> rfl

@[simp] lemma unbind_calls : (core.unbind reader).calls = core.calls := by
  unfold Core.unbind
  split <;> rfl

section

variable (holds : Holds core watchers deathWatchers ended working)
include holds

lemma Holds.unbind (found : core.reader = some reader) :
    Holds (core.unbind reader) watchers deathWatchers ended [] := by
  have gone := unbind_current found
  obtain ⟨_, present, -⟩ := unbind_reader found
  refine holds.idle gone ?_ ?_ unbind_bindings unbind_calls
  · have stops := holds.stops
    unfold Core.unbind
    split
    next unbound => rwa [current_of_found found, unbound] at stops
    · exact stops.stop
  · have deaths := holds.deaths
    rw [found] at deaths
    rw [present, unbind_deaths]
    exact deaths

lemma Holds.destroy : Holds core.destroy watchers deathWatchers ended [] :=
  holds.idle rfl holds.stops.stop holds.deaths.stop rfl rfl

/-- A binding begins. -/
lemma Holds.begin (gone : core.current = none)
    (found : core.reader.isSome) (bound : reader.binding = some core.bindings) :
    Holds { core with reader := some reader, bindings := core.bindings + 1 }
      watchers deathWatchers ended [] := by
  have now : { core with reader := some reader, bindings := core.bindings + 1 }.current =
      some core.bindings := bound
  refine ⟨?_, ?_, ?_, ?_, ?_, holds.once, ?_, fun _ mem => absurd mem not_mem_nil⟩
  · have stops := holds.stops
    rw [gone] at stops
    rw [now]
    exact stops.start holds.watched
  · have deaths := holds.deaths
    obtain ⟨_, found⟩ := Option.isSome_iff_exists.mp found
    rw [found] at deaths
    exact deaths
  · intro binding same
    cases now.symm.trans same
    exact Nat.lt_succ_self _
  · exact fun watcher mem => Nat.lt_succ_of_lt (holds.watched watcher mem)
  · intro binding mem
    have before := (holds.ended binding mem).1
    refine ⟨Nat.lt_succ_of_lt before, fun same => ?_⟩
    cases now.symm.trans same
    exact Nat.lt_irrefl _ before
  · intro binding new
    refine holds.uncalled binding (.inr ?_)
    rcases new with same | new
    · cases now.symm.trans same
      exact Nat.le_refl _
    · exact Nat.le_of_succ_le new

lemma Holds.bind (found : core.reader = some reader) (begins : Bool) :
    Holds (core.bind reader begins) watchers deathWatchers ended [] := by
  obtain ⟨_, present, -⟩ := unbind_reader found
  have begun := @Holds.begin (core.unbind reader)
    { reader with binding := some (core.unbind reader).bindings, waiting := true } _ _ _ _
    (holds.unbind found) (unbind_current found) (by rw [present]; rfl) rfl
  unfold Core.bind
  split
  · exact begun
  · exact begun.unbind rfl

/-- `NotifyError` has ended the binding. -/
lemma Holds.add_ended (before : binding < core.bindings) (gone : core.current = none) :
    Holds core watchers deathWatchers (binding :: ended) working where
  __ := holds
  ended other mem := by
    rcases mem_cons.mp mem with rfl | mem
    · exact ⟨before, by rw [gone]; nofun⟩
    · exact holds.ended other mem

end

/-- `OnChannelGone` may destroy the reader. -/
lemma Holds.channel_gone (holds : Holds core watchers deathWatchers ended [])
    (gone : core.current = none) (before : binding < core.bindings) (destroys : Bool) :
    Holds (if destroys then core.destroy else core) watchers deathWatchers (binding :: ended) [] ∧
      (if destroys then core.destroy else core).current = none ∧
      (if destroys then core.destroy else core).bindings = core.bindings ∧
      (if destroys then core.destroy else core).calls = core.calls := by
  cases destroys with
  | true => exact ⟨holds.destroy.add_ended before rfl, rfl, rfl, rfl⟩
  | false => exact ⟨holds.add_ended before gone, gone, rfl, rfl⟩

lemma Holds.push_message (holds : Holds core watchers deathWatchers ended [binding]) :
    Holds { core with stops := core.stops.push } ((core.stops.count, binding) :: watchers)
      deathWatchers ended [] := by
  have now := holds.working binding mem_cons_self
  have stops := holds.stops
  rw [now] at stops
  refine { holds with stops := ?_, watched := ?_, working := nofun }
  · have pushed := stops.push
    rw [← now] at pushed
    exact pushed
  · intro watcher mem
    rcases mem_cons.mp mem with rfl | mem
    · exact holds.numbered binding now
    · exact holds.watched watcher mem

lemma Holds.pop_message (holds : Holds core ((canary, binding) :: watchers) deathWatchers ended working) :
    Holds { core with stops := core.stops.pop canary } watchers deathWatchers ended working :=
  { holds with
    stops := holds.stops.pop
    watched := fun watcher mem => holds.watched watcher (mem_cons_of_mem _ mem) }

lemma Holds.push_death (holds : Holds core watchers deathWatchers ended working)
    (found : core.reader = some reader) :
    Holds { core with deaths := core.deaths.push } watchers ((core.deaths.count, 0) :: deathWatchers)
      ended working := by
  have deaths := holds.deaths
  rw [found] at deaths
  have pushed := deaths.push
  refine { holds with deaths := ?_ }
  rw [found]
  exact pushed

lemma Holds.pop_death (holds : Holds core watchers ((canary, 0) :: deathWatchers) ended working) :
    Holds { core with deaths := core.deaths.pop canary } watchers deathWatchers ended working :=
  { holds with deaths := holds.deaths.pop }

section

variable (holds : Holds core watchers deathWatchers ended working)
include holds

/-- The error handler is called for a binding that has just ended. -/
lemma Holds.call (gone : core.current = none)
    (before : binding < core.bindings) (uncalled : core.calls binding = 0) :
    Holds { core with calls := Function.update core.calls binding (core.calls binding + 1) }
      watchers deathWatchers ended working where
  stops := holds.stops
  deaths := holds.deaths
  numbered := holds.numbered
  watched := holds.watched
  ended := holds.ended
  once other := by
    simp only [Function.update_apply]
    split
    · omega
    · exact holds.once other
  uncalled other new := by
    have different : other ≠ binding := by
      rintro rfl
      rcases new with now | new
      · exact absurd (gone.symm.trans now) nofun
      · exact absurd before (Nat.not_lt.mpr new)
    simp only [Function.update_of_ne different]
    exact holds.uncalled other new
  working := holds.working

/-- The reader changes in nothing that is watched. -/
lemma Holds.touch (found : core.reader = some reader) (same : left.binding = reader.binding) :
    Holds { core with reader := some left } watchers deathWatchers ended working := by
  have now : { core with reader := some left }.current = core.current := by
    rw [current_of_found found, ← same]
    rfl
  refine ⟨?_, ?_, ?_, holds.watched, ?_, holds.once, ?_, ?_⟩
  · rw [now]
    exact holds.stops
  · have deaths := holds.deaths
    rw [found] at deaths
    exact deaths
  · rw [now]
    exact holds.numbered
  · rw [now]
    exact holds.ended
  · rw [now]
    exact holds.uncalled
  · rw [now]
    exact holds.working

lemma Holds.rest : Holds core watchers deathWatchers ended [] :=
  { holds with working := fun _ mem => absurd mem not_mem_nil }

lemma Holds.work (now : core.current = some binding) : Holds core watchers deathWatchers ended [binding] :=
  { holds with working := fun other mem => by rwa [mem_singleton.mp mem] }

end

lemma Holds.forget (holds : Holds core watchers deathWatchers (binding :: ended) working) :
    Holds core watchers deathWatchers ended working :=
  { holds with ended := fun other mem => holds.ended other (mem_cons_of_mem _ mem) }

end Reader

/-! ## Steps -/

section Steps

variable {st next : State} {reader : Reader} {label : Label}

/-- `ReadAndDispatchMessage` returns an error, or its binding has lasted. -/
lemma inv_afterRead (sound : st.corrupted = false)
    (holds : Holds st.toCore (st.stack.flatMap Frame.watchers) st.deathWatchers
      (st.stack.flatMap Frame.ended) [])
    (failed : ∀ after ∈ st.stack.flatMap Frame.returns, after.Failed)
    (lasts : status = .ok ∨ status = .shouldWait → st.current = some binding) :
    Inv (st.afterRead caller binding status) := by
  unfold State.afterRead
  split
  · exact ⟨sound, holds.work (lasts (.inr rfl)), failed⟩
  · exact ⟨sound, holds.work (lasts (.inl rfl)), failed⟩
  · exact ⟨sound, holds.work (lasts (.inl rfl)), failed⟩
  · exact ⟨sound, holds, failed⟩

section

variable (inv : Inv st)
include inv

private lemma inv_call (user : st.mode = .user) (found : st.reader = some reader)
    (called : call st reader label = some next) : Inv next := by
  obtain ⟨core, mode, _, _⟩ := st
  cases user
  obtain ⟨sound, holds, failed⟩ := inv
  cases label with
  | setHandlers =>
    cases called
    exact ⟨sound, holds.touch found rfl, failed⟩
  | handleReady =>
    simp only [call] at called
    split at called <;> cases called
    rename_i binding _ bound
    have now : core.current = some binding := (current_of_found found).trans bound
    have left := (holds.work now).touch found (show { reader with waiting := false }.binding = _ from rfl)
    unfold State.handleReady
    split
    · exact ⟨sound, left, by simpa [State.returns, Mode.returns, Return.Failed] using failed⟩
    · exact ⟨sound, left, by simpa [State.returns, Mode.returns, Return.Failed] using failed⟩
    · exact ⟨sound, left, failed⟩
    · exact ⟨sound, left, failed⟩
  | waitAndDispatch =>
    cases called
    unfold State.waitAndDispatch
    have now := current_of_found found
    split
    · exact ⟨sound, holds, failed⟩
    · exact ⟨sound, holds, failed⟩
    next binding bound =>
      refine ⟨sound, holds.work (now.trans bound), ?_⟩
      simpa [State.returns, Mode.returns, Return.Failed] using failed
    next binding bound =>
      refine ⟨sound, holds.work (now.trans bound), ?_⟩
      simpa [State.returns, Mode.returns, Return.Failed] using failed
    next binding bound => exact ⟨sound, holds.work (now.trans bound), failed⟩
  | unbind =>
    cases called
    exact ⟨sound, holds.unbind found, failed⟩
  | bind begins =>
    cases called
    exact ⟨sound, holds.bind found begins, failed⟩
  | destroy =>
    cases called
    exact ⟨sound, holds.destroy, failed⟩
  | ret | read | beginWait | notify | resume => cases called

private lemma inv_read (reading : st.mode = .reading caller binding) (result : ReadResult) :
    Inv (st.read reader caller binding result) := by
  obtain ⟨core, mode, stack, corrupted⟩ := st
  cases reading
  obtain ⟨sound, holds, failed⟩ := inv
  have now : core.current = some binding := holds.working binding mem_cons_self
  have notifies : ∀ status : Status, status ≠ .ok → status ≠ .shouldWait →
      Inv ⟨core, .notifying (.reading caller status none) binding, stack, corrupted⟩ := by
    intro status failing waiting
    refine ⟨sound, holds, fun after mem => ?_⟩
    rcases mem_cons.mp mem with rfl | mem
    · exact ⟨failing, waiting⟩
    · exact failed after mem
  unfold State.read
  cases result with
  | shouldWait => exact inv_afterRead sound holds.rest failed fun _ => now
  | failed code => exact notifies (.other code) nofun nofun
  | unsupportedVersion => exact notifies .protocolNotSupported nofun nofun
  | epitaph formed =>
    cases formed with
    | false => exact notifies .invalidArgs nofun nofun
    | true => exact notifies .peerClosed nofun nofun
  | message =>
    simp only
    split
    · exact inv_afterRead sound holds.rest failed fun _ => now
    · exact ⟨sound, holds.push_message, failed⟩

private lemma inv_notify
    (notifying : st.mode = .notifying after binding) (found : st.reader = some reader) (destroys : Bool) :
    Inv (st.notify reader after binding destroys) := by
  obtain ⟨core, mode, _, _⟩ := st
  cases notifying
  obtain ⟨sound, holds, failed⟩ := inv
  have now : core.current = some binding := holds.working binding mem_cons_self
  have before := holds.numbered binding now
  have uncalled := holds.uncalled binding (.inl now)
  have unbound := (holds.push_death found).unbind found
  have gone := @unbind_current { core with deaths := core.deaths.push } reader found
  obtain ⟨left, gone, bindings, calls⟩ := unbound.channel_gone gone (by rwa [unbind_bindings])
    (destroys && reader.binding.isSome && reader.hasMessageHandler)
  rw [unbind_bindings] at bindings
  rw [unbind_calls] at calls
  unfold State.notify
  simp only
  generalize (if (destroys && reader.binding.isSome && reader.hasMessageHandler) = true then
      ({ core with deaths := core.deaths.push }.unbind reader).destroy
    else { core with deaths := core.deaths.push }.unbind reader) = rest at left gone bindings calls ⊢
  split
  · exact ⟨sound, left.pop_death, failed⟩
  refine ⟨sound, left.call gone ?_ ?_, failed⟩
  · rw [bindings]
    exact before
  · rw [calls]
    exact uncalled

private lemma inv_ret (user : st.mode = .user)
    (allowed : NeverWaits st (.ret status)) (returned : st.ret status = some next) : Inv next := by
  obtain ⟨core, mode, stack, _⟩ := st
  cases user
  obtain ⟨sound, holds, failed⟩ := inv
  cases stack with
  | nil => cases returned
  | cons frame rest =>
    cases frame with
    | message caller binding canary =>
      simp only [State.ret] at returned
      have told := holds.stops.stopped_iff
      split at returned
      · cases returned
        refine inv_afterRead sound holds.pop_message failed fun lasts => ?_
        rcases lasts with lasts | lasts <;> cases lasts
      rename_i lasting
      have now : core.current = some binding := not_not.mp fun ended => lasting (told.mpr ended)
      split at returned
      next gone =>
        have gone : core.reader = none := Option.isNone_iff_eq_none.mp gone
        rw [Core.current, gone] at now
        cases now
      · split at returned <;> cases returned
        · exact inv_afterRead sound holds.pop_message failed fun _ => now
        next failing =>
          refine ⟨sound, holds.work now, fun after mem => ?_⟩
          rcases mem_cons.mp mem with rfl | mem
          · refine ⟨failing, ?_⟩
            rintro rfl
            exact allowed caller binding canary rest rfl rfl rfl now
          · exact failed after mem
    | error after binding canary =>
      simp only [State.ret] at returned
      have told := holds.deaths.stopped_iff
      split at returned
      next untold =>
        obtain ⟨untold, gone⟩ := (Bool.and_eq_true _ _).mp untold
        have gone : core.reader = none := Option.isNone_iff_eq_none.mp gone
        have stopped := told.mpr (by rw [gone]; nofun)
        rw [stopped] at untold
        cases untold
      · cases returned
        exact ⟨sound, holds.pop_death, failed⟩

private lemma inv_resume (notified : st.mode = .notified after binding) : Inv (st.resume after binding) := by
  obtain ⟨core, mode, stack, _⟩ := st
  cases notified
  obtain ⟨sound, holds, failed⟩ := inv
  have gone := (holds.ended binding mem_cons_self).2
  have failed' : ∀ after ∈ stack.flatMap Frame.returns, after.Failed := fun other mem =>
    failed other (mem_cons_of_mem _ mem)
  unfold State.resume
  split
  · exact ⟨sound, holds.forget, failed'⟩
  · obtain ⟨notOk, notWaiting⟩ := failed _ mem_cons_self
    refine inv_afterRead sound holds.forget failed' ?_
    rintro (ok | waiting)
    · exact absurd ok notOk
    · exact absurd waiting notWaiting
  next caller status canary =>
    obtain ⟨notOk, notWaiting⟩ := failed _ mem_cons_self
    have told : (core.stops.watches canary).stopped = true := holds.stops.stopped_iff.mpr gone
    rw [if_neg (by simp [told])]
    refine inv_afterRead sound holds.forget.pop_message failed' ?_
    rintro (ok | waiting)
    · exact absurd ok notOk
    · exact absurd waiting notWaiting

private lemma inv_begin (beginning : st.mode = .beginning binding)
    (found : st.reader = some reader) (begins : Bool) :
    Inv (if begins then { st with reader := some { reader with waiting := true }, mode := .user }
      else { st with mode := .notifying .finish binding }) := by
  obtain ⟨_, mode, _, _⟩ := st
  cases beginning
  obtain ⟨sound, holds, failed⟩ := inv
  split
  · exact ⟨sound, holds.rest.touch found rfl, failed⟩
  · exact ⟨sound, holds, by simpa [State.returns, Mode.returns, Return.Failed] using failed⟩

/-- A frame that works for a binding finds the reader. -/
lemma reader_of_working (working : binding ∈ st.mode.working) : ∃ reader, st.reader = some reader := by
  obtain ⟨reader, found, -⟩ := Option.bind_eq_some_iff.mp (inv.holds.working binding working)
  exact ⟨reader, found⟩

lemma inv_step (allowed : NeverWaits st label) (moved : step st label = some next) : Inv next := by
  unfold step at moved
  rw [if_neg (by simp [inv.sound])] at moved
  split at moved
  next status user => exact inv_ret inv user allowed moved
  next user _ =>
    obtain ⟨reader, found, called⟩ := Option.bind_eq_some_iff.mp moved
    exact inv_call inv user found called
  next caller binding result reading =>
    obtain ⟨reader, found⟩ := reader_of_working inv (by rw [reading]; exact mem_cons_self)
    rw [found] at moved
    cases moved
    exact inv_read inv reading result
  next binding begins beginning =>
    obtain ⟨reader, found⟩ := reader_of_working inv (by rw [beginning]; exact mem_cons_self)
    rw [found] at moved
    cases moved
    exact inv_begin inv beginning found begins
  next after binding destroys notifying =>
    obtain ⟨reader, found⟩ := reader_of_working inv (by rw [notifying]; exact mem_cons_self)
    rw [found] at moved
    cases moved
    exact inv_notify inv notifying found destroys
  next after binding notified =>
    cases moved
    exact inv_resume inv notified
  · cases moved

end

/-! ## What the frames do -/

/-- The canary of a message handler that returns tells whether its binding has lasted. -/
lemma stopped_iff_of_message (inv : Inv st)
    (user : st.mode = .user) (top : st.stack = .message caller binding canary :: rest) :
    (st.stops.watches canary).stopped = true ↔ st.current ≠ some binding := by
  have stops := inv.holds.stops
  rw [State.watchers, user, top] at stops
  exact stops.stopped_iff

private lemma lasting_of_inv (inv : Inv st) (touched : touching st label = some binding) :
    st.current = some binding := by
  unfold touching at touched
  split at touched
  next caller other result reading =>
    cases touched
    exact inv.holds.working binding (by rw [reading]; exact mem_cons_self)
  next other begins beginning =>
    cases touched
    exact inv.holds.working binding (by rw [beginning]; exact mem_cons_self)
  next after other destroys notifying =>
    cases touched
    exact inv.holds.working binding (by rw [notifying]; exact mem_cons_self)
  · rename_i caller status canary other notified
    -- `NotifyError` has ended the binding, and the canary was told
    have ended := (inv.holds.ended other (by rw [State.ended, notified]; exact mem_cons_self)).2
    have stops := inv.holds.stops
    rw [State.watchers, notified] at stops
    rw [if_pos (stops.stopped_iff.mpr ended)] at touched
    cases touched
  next status user =>
    split at touched
    next caller other canary rest top =>
      split at touched <;> cases touched
      rename_i untold
      exact not_not.mp fun ended => untold ((stopped_iff_of_message inv user top).mpr ended)
    · cases touched
  · cases touched

private lemma existing_of_inv (inv : Inv st) (top : st.stack = .error after binding canary :: rest)
    (untold : (st.deaths.watches canary).stopped = false) : st.reader.isSome := by
  have deaths := inv.holds.deaths
  rw [State.deathWatchers, top] at deaths
  cases found : st.reader with
  | some reader => rfl
  | none =>
    rw [found] at deaths
    have told := deaths.stopped_iff.mpr nofun
    rw [untold] at told
    cases told

/-- A message handler returns while its binding lasts. -/
lemma ret_of_lasting
    (inv : Inv st) (user : st.mode = .user) (top : st.stack = .message caller binding canary :: rest)
    (lasts : st.current = some binding) (moved : step st (.ret status) = some next) :
    next = if status = .ok then
        { st with stops := st.stops.pop canary, stack := rest }.afterRead caller binding .ok
      else { st with stack := rest, mode := .notifying (.reading caller status (some canary)) binding } := by
  have untold := mt (stopped_iff_of_message inv user top).mp (not_not.mpr lasts)
  have present : st.reader.isNone = false := by
    obtain ⟨reader, found, -⟩ := Option.bind_eq_some_iff.mp lasts
    rw [found]
    rfl
  unfold step at moved
  rw [if_neg (by simp [inv.sound]), user] at moved
  simp only [State.ret, top, if_neg untold, present, Bool.false_eq_true, if_false] at moved
  split at moved <;> cases moved
  next ok => rw [if_pos ok]
  next failing => rw [if_neg failing]

lemma proper_iff (inv : Inv st) (moved : step st label = some next) :
    Proper st label next ↔ NeverWaits st label := by
  constructor
  · rintro proper caller binding canary rest user rfl top lasts
    have result := ret_of_lasting inv user top lasts moved
    obtain ⟨-, stays⟩ := proper.waits caller binding canary rest user rfl top lasts
    rw [result] at stays
    rcases stays with stays | stays <;> cases stays
  · intro never
    refine ⟨fun binding => lasting_of_inv inv, ?_, ?_, ?_⟩
    · rintro _ _ binding canary rest - - top untold
      exact existing_of_inv inv top untold
    · rintro remaining binding canary rest user rfl top lasts
      have result := ret_of_lasting inv user top lasts moved
      cases remaining with
      | zero =>
        rw [result]
        exact .inr rfl
      | succ remaining =>
        rw [result]
        exact .inl ⟨.handleReady remaining, rfl⟩
    · rintro caller binding canary rest user rfl top lasts
      exact absurd lasts (never caller binding canary rest user rfl top)

end Steps

lemma inv_start (hasMessageHandler hasErrorHandler : Bool) : Inv (start hasMessageHandler hasErrorHandler) where
  sound := rfl
  holds := {
    stops := watches_nil rfl
    deaths := watches_nil rfl
    numbered := nofun
    watched := fun _ mem => absurd mem not_mem_nil
    ended := fun _ mem => absurd mem not_mem_nil
    once := fun _ => Nat.zero_le 1
    uncalled := fun _ _ => rfl
    working := fun _ mem => absurd mem not_mem_nil }
  failed _ mem := absurd mem not_mem_nil

/-- Along every nesting of frames, the reader is touched only as it should be and the error
handler is called at most once per binding, exactly if no message handler returns
`ZX_ERR_SHOULD_WAIT` while its binding lasts. -/
theorem dispatch_proper_iff (hasMessageHandler hasErrorHandler : Bool) (labels : List Label) (final : State)
    (ran : Machine.run step (start hasMessageHandler hasErrorHandler) labels = some final) :
    (Machine.Along step Proper (start hasMessageHandler hasErrorHandler) labels ∧
        ∀ binding, final.calls binding ≤ 1) ↔
      Machine.Admissible step NeverWaits (start hasMessageHandler hasErrorHandler) labels := by
  have begins := inv_start hasMessageHandler hasErrorHandler
  have keeps : ∀ st label next, Inv st → NeverWaits st label →
      step st label = some next → Inv next :=
    fun st label next inv allowed stepped => inv_step inv allowed stepped
  have exactly := @Machine.along_iff_admissible _ _ step Inv NeverWaits Proper _ labels keeps
    (fun st label next inv stepped => proper_iff inv stepped) begins
  constructor
  · exact fun proper => exactly.mp proper.1
  · intro admitted
    exact ⟨exactly.mpr admitted, (Machine.run_invariant keeps begins admitted ran).holds.once⟩

/-- A message is dispatched and the wait begins again. -/
theorem dispatch_proper_once : ∃ final,
    Machine.run step (start true true)
      [.bind true, .handleReady (.readable 1), .read .message, .ret .ok, .beginWait true] = some final ∧
    Machine.Along step Proper (start true true)
      [.bind true, .handleReady (.readable 1), .read .message, .ret .ok, .beginWait true] ∧
    ∀ binding, final.calls binding ≤ 1 := by
  refine ⟨_, rfl, (dispatch_proper_iff true true
    [.bind true, .handleReady (.readable 1), .read .message, .ret .ok, .beginWait true] _ rfl).mpr ?_⟩
  rintro _ ⟨⟩
  refine ⟨nofun, ?_⟩
  rintro _ ⟨⟩
  refine ⟨nofun, ?_⟩
  rintro _ ⟨⟩
  refine ⟨nofun, ?_⟩
  rintro _ ⟨⟩
  refine ⟨nofun, ?_⟩
  rintro _ ⟨⟩
  exact ⟨nofun, trivial⟩

/-- A message handler returns `ZX_ERR_SHOULD_WAIT`. The reader is unbound and its error
handler is called; `OnHandleReady` then begins a wait on a reader that the error handler may
have destroyed, and calls the error handler again if the wait does not begin. -/
theorem dispatch_after_shouldWait :
    (∃ st, Machine.run step (start true true)
        [.bind true, .handleReady (.readable 1), .read .message, .ret .shouldWait, .notify false] = some st ∧
      st.current = none ∧ st.calls 0 = 1 ∧
      (∃ final, Machine.run step st [.destroy, .ret .ok, .resume, .beginWait true] = some final ∧
        final.corrupted = true) ∧
      ∃ final, Machine.run step st [.ret .ok, .resume, .beginWait false, .notify false] = some final ∧
        final.calls 0 = 2) :=
  ⟨_, rfl, rfl, rfl, ⟨_, rfl, rfl⟩, _, rfl, rfl⟩

end FuchsiaSdk.MessageReader
