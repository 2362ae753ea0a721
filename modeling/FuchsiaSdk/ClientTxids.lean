import FuchsiaSdk.ClientBase
import Mathlib.Data.List.Perm.Subperm
import Mathlib.Data.List.Nodup

/-! Transaction ids of the asynchronous FIDL client. The sections under `lock_` of
`client_base.cc` run in any order, together with a history of which context received which id
and which context was taken out. Ids come from a 32-bit counter that wraps; an id that is still
outstanding is passed over. -/
namespace FuchsiaSdk.ClientTxids
open Machine ClientBase
open List hiding after

/-! ## The search for an id -/

lemma masked : base &&& kUserspaceTxidMask = base % 2 ^ 31 :=
  Nat.and_two_pow_sub_one_eq_mod base 31

/-- The id is not zero and no context holds it. -/
def Free (contexts : List (Nat × ContextId)) (txid : Nat) : Prop :=
  txid ≠ 0 ∧ ∀ entry ∈ contexts, entry.1 ≠ txid

variable {contexts : List (Nat × ContextId)}

lemma taken_iff (txid : Nat) :
    (txid = 0 ∨ contexts.any (fun entry => entry.1 == txid) = true) ↔ ¬Free contexts txid := by
  simp only [Free, any_eq_true, beq_iff_eq, not_and_or, ne_eq, not_not, not_forall, exists_prop]

private lemma nextTxid_free (found : nextTxid contexts fuel base = some (later, txid)) :
    Free contexts txid ∧ txid ≤ kUserspaceTxidMask := by
  induction fuel generalizing base with
  | zero => cases found
  | succ fuel ih =>
    simp only [nextTxid] at found
    split at found
    · exact ih found
    rename_i free
    cases found
    refine ⟨not_not.mp (mt (taken_iff _).mpr free), ?_⟩
    rw [masked]
    unfold kUserspaceTxidMask
    omega

/-- The search tries the ids in order, from the one after the counter. -/
private lemma nextTxid_none (missed : nextTxid contexts fuel base = none) :
    ∀ round < fuel, ¬Free contexts ((base + 1 + round) % 2 ^ 31) := by
  induction fuel generalizing base with
  | zero => intro round below; exact absurd below (Nat.not_lt_zero round)
  | succ fuel ih =>
    simp only [nextTxid] at missed
    split at missed
    next taken =>
      intro round below
      rw [taken_iff, masked] at taken
      cases round with
      | zero =>
        have same : (base + 1) % 2 ^ 32 % 2 ^ 31 = (base + 1 + 0) % 2 ^ 31 := by omega
        rwa [same] at taken
      | succ round =>
        have later := ih missed round (by omega)
        have same : ((base + 1) % 2 ^ 32 + 1 + round) % 2 ^ 31 =
            (base + 1 + (round + 1)) % 2 ^ 31 := by omega
        rwa [same] at later
    · cases missed

/-- In `2 ^ 31` rounds every id is tried, and not all of them are outstanding. -/
private lemma nextTxid_terminates (few : contexts.length < 2 ^ 31 - 1) :
    ∃ found, nextTxid contexts (2 ^ 31) base = some found := by
  cases found : nextTxid contexts (2 ^ 31) base with
  | some result => exact ⟨result, rfl⟩
  | none =>
    have missed := nextTxid_none found
    have covered : range (2 ^ 31) ⊆ 0 :: contexts.map Prod.fst := by
      intro txid inside
      rw [mem_range] at inside
      have taken := missed ((txid + 2 ^ 31 - (base + 1) % 2 ^ 31) % 2 ^ 31)
        (Nat.mod_lt _ (by decide))
      have same : (base + 1 + (txid + 2 ^ 31 - (base + 1) % 2 ^ 31) % 2 ^ 31) % 2 ^ 31 = txid := by
        omega
      rw [same, Free, not_and_or] at taken
      rcases taken with zero | held
      · exact mem_cons.mpr (.inl (not_not.mp zero))
      obtain ⟨entry, held⟩ := not_forall.mp held
      obtain ⟨mem, same⟩ := Classical.not_imp.mp held
      exact mem_cons_of_mem _ (mem_map.mpr ⟨entry, mem, not_not.mp same⟩)
    have counted := (nodup_range.subperm covered).length_le
    rw [length_range, length_cons, length_map] at counted
    omega

/-! ## Operations and their history -/

inductive Operation where
  | prepareAsyncTxn (ctx : ContextId)
  | forgetAsyncTxn (ctx : ContextId)
  | dispatch (txid : Nat)
  | releaseResponseContexts
  deriving DecidableEq, Repr

inductive Event where
  | received (txid : Nat) (ctx : ContextId)
  /-- The context was taken out of `contexts_`, to be notified or given back. -/
  | completed (ctx : ContextId)
  deriving DecidableEq, Repr

/-- The client and what has happened so far, the latest first. -/
structure Session where
  state : State := {}
  events : List Event := []

/-- The contexts that a response was handed to between two states. -/
def recipients (before after : State) : List ContextId :=
  after.owed.take (after.owed.length - before.owed.length)

/-- One locked section. A context that is registered is not registered again, and
`ForgetAsyncTxn` asserts that its context is registered. A response without an id is an event
and looks no context up. -/
def perform (session : Session) : Operation → Option Session
  | .prepareAsyncTxn ctx =>
    if ctx ∈ session.state.deleteList then none
    else
      (session.state.prepareAsyncTxn ctx).map fun next =>
        { state := next
          events := (next.contexts.drop session.state.contexts.length).map
            (fun entry => .received entry.1 entry.2) ++ session.events }
  | .forgetAsyncTxn ctx =>
    if ctx ∈ session.state.deleteList then
      some { state := session.state.forgetAsyncTxn ctx
             events := .completed ctx :: session.events }
    else none
  | .dispatch txid =>
    if txid = 0 then some session
    else
      some { state := session.state.dispatch txid
             events := (recipients session.state (session.state.dispatch txid)).map .completed ++
               session.events }
  | .releaseResponseContexts =>
    some { state := session.state.releaseResponseContexts
           events := session.state.deleteList.map .completed ++ session.events }

/-- The context was the last to receive the id, and was not completed since. -/
def LastReceived (events : List Event) (txid : Nat) (ctx : ContextId) : Prop :=
  ∃ later earlier, events = later ++ .received txid ctx :: earlier ∧
    (∀ other, Event.received txid other ∉ later) ∧ Event.completed ctx ∉ later

section

variable {events : List Event} {txid : Nat} {ctx : ContextId}

private lemma not_lastReceived_nil : ¬LastReceived [] txid ctx := by
  rintro ⟨_, _, split, -, -⟩
  exact cons_ne_nil _ _ (append_eq_nil_iff.mp split.symm).2

lemma lastReceived_cons :
    LastReceived (event :: events) txid ctx ↔ event = .received txid ctx ∨
      ((∀ other, event ≠ .received txid other) ∧ event ≠ .completed ctx ∧
        LastReceived events txid ctx) := by
  constructor
  · rintro ⟨later, earlier, split, unassigned, uncompleted⟩
    cases later with
    | nil => exact .inl (cons.inj split).1
    | cons _ later =>
      obtain ⟨rfl, rest⟩ := cons.inj split
      simp only [mem_cons, not_or, forall_and] at unassigned uncompleted
      exact .inr ⟨fun other => Ne.symm (unassigned.1 other), Ne.symm uncompleted.1, later,
        earlier, rest, unassigned.2, uncompleted.2⟩
  · rintro (rfl | ⟨unassigned, uncompleted, later, earlier, rfl, none, never⟩)
    · exact ⟨[], events, rfl, nofun, nofun⟩
    · refine ⟨event :: later, earlier, rfl, fun other mem => ?_, fun mem => ?_⟩
      · exact (mem_cons.mp mem).elim (unassigned other ·.symm) (none other)
      · exact (mem_cons.mp mem).elim (uncompleted ·.symm) never

private lemma lastReceived_received :
    LastReceived (.received newer other :: events) txid ctx ↔
      (txid = newer ∧ ctx = other) ∨ (txid ≠ newer ∧ LastReceived events txid ctx) := by
  rw [lastReceived_cons]
  simp [eq_comm]

lemma lastReceived_completed :
    LastReceived (.completed other :: events) txid ctx ↔
      ctx ≠ other ∧ LastReceived events txid ctx := by
  rw [lastReceived_cons]
  simp [eq_comm]

private lemma lastReceived_released (released : List ContextId) :
    LastReceived (released.map .completed ++ events) txid ctx ↔
      ctx ∉ released ∧ LastReceived events txid ctx := by
  induction released with
  | nil => simp
  | cons _ released ih =>
    rw [map_cons, cons_append, lastReceived_completed, ih, mem_cons, not_or, and_assoc]

end

/-! ## What every operation keeps -/

structure Inv (session : Session) : Prop where
  listed : session.state.deleteList.Perm (session.state.contexts.map Prod.snd)
  nodup : (session.state.contexts.map Prod.snd).Nodup
  distinct : (session.state.contexts.map Prod.fst).Nodup
  nonzero : ∀ entry ∈ session.state.contexts, entry.1 ≠ 0
  bounded : ∀ entry ∈ session.state.contexts, entry.1 ≤ kUserspaceTxidMask
  holds : ∀ txid ctx, (txid, ctx) ∈ session.state.contexts ↔ LastReceived session.events txid ctx

variable {session next : Session} {ctx : ContextId} {txid : Nat}

lemma inv_init : Inv {} where
  listed := List.Perm.refl []
  nodup := nodup_nil
  distinct := nodup_nil
  nonzero := nofun
  bounded := nofun
  holds _ _ := iff_of_false nofun not_lastReceived_nil

section

variable (inv : Inv session)
include inv

lemma Inv.prepareAsyncTxn (unlisted : ctx ∉ session.state.deleteList)
    (registered : session.state.prepareAsyncTxn ctx = some after) :
    Inv { state := after
          events := (after.contexts.drop session.state.contexts.length).map
            (fun entry => .received entry.1 entry.2) ++ session.events } := by
  obtain ⟨⟨_, _⟩, found, rfl⟩ := Option.map_eq_some_iff.mp registered
  obtain ⟨⟨nonzero, free⟩, bounded⟩ := nextTxid_free found
  have fresh : ctx ∉ session.state.contexts.map Prod.snd := by
    rwa [← inv.listed.mem_iff]
  refine ⟨?_, ?_, ?_, ?_, ?_, ?_⟩
  · simpa using inv.listed.append_right [ctx]
  · rw [map_append]
    exact nodup_append.mpr ⟨inv.nodup, nodup_singleton _, by
      rintro other mem _ last rfl
      have same : other = ctx := mem_singleton.mp last
      exact fresh (same ▸ mem)⟩
  · rw [map_append]
    refine nodup_append.mpr ⟨inv.distinct, nodup_singleton _, ?_⟩
    rintro other mem _ last rfl
    obtain ⟨entry, held, same⟩ := mem_map.mp mem
    exact free entry held (same.trans (mem_singleton.mp last))
  · intro entry mem
    rcases mem_append.mp mem with old | last
    · exact inv.nonzero entry old
    · cases mem_singleton.mp last
      exact nonzero
  · intro entry mem
    rcases mem_append.mp mem with old | last
    · exact inv.bounded entry old
    · cases mem_singleton.mp last
      exact bounded
  · intro other holder
    simp only [drop_left, map_cons, map_nil, cons_append, nil_append,
      lastReceived_received, mem_append, mem_singleton, Prod.mk.injEq,
      inv.holds other holder]
    constructor
    · rintro (old | ⟨rfl, rfl⟩)
      · refine .inr ⟨?_, old⟩
        rintro rfl
        exact free _ ((inv.holds _ _).mpr old) rfl
      · exact .inl ⟨rfl, rfl⟩
    · rintro (⟨rfl, rfl⟩ | ⟨-, old⟩)
      · exact .inr ⟨rfl, rfl⟩
      · exact .inl old

/-- A registered context is taken out of the tree and the list. -/
lemma Inv.completed (mem : entry ∈ session.state.contexts)
    (contexts : after.contexts = session.state.contexts.erase entry)
    (deleteList : after.deleteList = session.state.deleteList.erase entry.2) :
    Inv { state := after, events := .completed entry.2 :: session.events } := by
  have inside : ∀ {other}, other ∈ after.contexts → other ∈ session.state.contexts := by
    intro other found
    rw [contexts] at found
    exact mem_of_mem_erase found
  have shorter : after.contexts.Sublist session.state.contexts := contexts ▸ erase_sublist
  refine ⟨?_, ?_, ?_, ?_, ?_, ?_⟩
  · have split := (perm_cons_erase mem).map Prod.snd
    have both := (inv.listed.trans split).erase entry.2
    rw [map_cons, erase_cons_head] at both
    simpa only [contexts, deleteList] using both
  · exact inv.nodup.sublist (shorter.map Prod.snd)
  · exact inv.distinct.sublist (shorter.map Prod.fst)
  · exact fun other found => inv.nonzero other (inside found)
  · exact fun other found => inv.bounded other (inside found)
  · intro txid ctx
    have whole : session.state.contexts.Nodup := List.Nodup.of_map _ inv.nodup
    rw [lastReceived_completed, contexts, whole.mem_erase_iff, inv.holds txid ctx]
    refine and_congr_left fun held => not_congr ⟨?_, ?_⟩
    · rintro rfl
      rfl
    · intro same
      exact inj_on_of_nodup_map inv.nodup ((inv.holds txid ctx).mpr held) mem same

lemma Inv.forgetAsyncTxn (listed : ctx ∈ session.state.deleteList) :
    Inv { state := session.state.forgetAsyncTxn ctx
          events := .completed ctx :: session.events } := by
  rw [inv.listed.mem_iff, mem_map] at listed
  obtain ⟨entry, mem, own⟩ := listed
  unfold State.forgetAsyncTxn
  split
  next found search =>
    have same : found.2 = ctx := by simpa using find?_some search
    have completed : Inv
        { state := (session.state.erase found).setPhase ctx .delivering
          events := .completed found.2 :: session.events } :=
      inv.completed (mem_of_find?_eq_some search) rfl rfl
    rwa [same] at completed
  next missing =>
    have different := find?_eq_none.mp missing entry mem
    simp [own] at different

lemma Inv.dispatch (txid : Nat) :
    Inv { state := session.state.dispatch txid
          events := (recipients session.state (session.state.dispatch txid)).map .completed ++
            session.events } := by
  unfold State.dispatch
  split
  next entry search =>
    have taken : recipients session.state
        { session.state.erase entry with owed := entry.2 :: session.state.owed } = [entry.2] := by
      simp [recipients]
    rw [taken]
    exact inv.completed (mem_of_find?_eq_some search) rfl rfl
  · simp only [recipients, Nat.sub_self, take_zero, map_nil, nil_append]
    exact inv

lemma Inv.releaseResponseContexts :
    Inv { state := session.state.releaseResponseContexts
          events := session.state.deleteList.map .completed ++ session.events } := by
  refine ⟨List.Perm.refl [], nodup_nil, nodup_nil, nofun, nofun, ?_⟩
  intro txid ctx
  rw [lastReceived_released]
  refine iff_of_false nofun ?_
  rintro ⟨unlisted, held⟩
  rw [inv.listed.mem_iff] at unlisted
  exact unlisted (mem_map.mpr ⟨_, (inv.holds txid ctx).mpr held, rfl⟩)

private lemma perform_keeps (performed : perform session operation = some next) : Inv next := by
  cases operation with
  | prepareAsyncTxn ctx =>
    simp only [perform] at performed
    split at performed
    · cases performed
    rename_i unlisted
    obtain ⟨_, registered, rfl⟩ := Option.map_eq_some_iff.mp performed
    exact inv.prepareAsyncTxn unlisted registered
  | forgetAsyncTxn ctx =>
    obtain ⟨listed, rfl⟩ := of_guard performed
    exact inv.forgetAsyncTxn listed
  | dispatch txid =>
    simp only [perform] at performed
    split at performed <;> cases performed
    · exact inv
    · exact inv.dispatch txid
  | releaseResponseContexts =>
    cases performed
    exact inv.releaseResponseContexts

/-- A response is handed to the holder of its id, if there is one. -/
lemma Inv.recipients_iff (txid : Nat) (ctx : ContextId) :
    ctx ∈ recipients session.state (session.state.dispatch txid) ↔
      LastReceived session.events txid ctx := by
  rw [← inv.holds]
  unfold State.dispatch
  split
  next entry search =>
    have mem := mem_of_find?_eq_some search
    have key : entry.1 = txid := by simpa using find?_some search
    have taken : recipients session.state
        { session.state.erase entry with owed := entry.2 :: session.state.owed } = [entry.2] := by
      simp [recipients]
    rw [taken, mem_singleton]
    constructor
    · rintro rfl
      rwa [← key]
    · intro held
      have same := inj_on_of_nodup_map inv.distinct held mem key.symm
      exact congrArg Prod.snd same
  next missing =>
    have none : recipients session.state session.state = [] := by simp [recipients]
    rw [none]
    refine iff_of_false nofun fun held => ?_
    have different := find?_eq_none.mp missing _ held
    simp at different

end

/-- After any sequence of locked sections: the outstanding ids are distinct, not zero and within
the mask; the tree and the list hold the same contexts; the search for another id ends; and a
response goes to the context that was the last to receive its id and was not completed since. -/
theorem transaction_ids {operations : List Operation}
    (ran : run perform {} operations = some session) :
    (session.state.contexts.map Prod.fst).Nodup ∧
      (∀ entry ∈ session.state.contexts, entry.1 ≠ 0 ∧ entry.1 ≤ kUserspaceTxidMask) ∧
      session.state.deleteList.Perm (session.state.contexts.map Prod.snd) ∧
      session.state.deleteList.Nodup ∧
      (session.state.contexts.length < 2 ^ 31 - 1 →
        ∀ ctx, ∃ after, session.state.prepareAsyncTxn ctx = some after) ∧
      ∀ txid ≠ 0, (recipients session.state (session.state.dispatch txid)).length ≤ 1 ∧
        ∀ ctx, ctx ∈ recipients session.state (session.state.dispatch txid) ↔
          LastReceived session.events txid ctx := by
  have inv : Inv session :=
    run_keeps (fun _ _ _ inv performed => perform_keeps inv performed) inv_init ran
  refine ⟨inv.distinct, fun entry member => ⟨inv.nonzero entry member, inv.bounded entry member⟩,
    inv.listed, inv.listed.nodup_iff.mpr inv.nodup, ?_, ?_⟩
  · intro few ctx
    obtain ⟨found, search⟩ := nextTxid_terminates few
    exact ⟨_, by rw [State.prepareAsyncTxn, search]; rfl⟩
  · intro txid _
    refine ⟨?_, inv.recipients_iff txid⟩
    unfold State.dispatch recipients
    split <;> simp

/-- Two calls of which the first is answered, and a third. -/
theorem transaction_ids_answered :
    ∃ session, run perform {} [.prepareAsyncTxn 0, .prepareAsyncTxn 1, .dispatch 1,
        .prepareAsyncTxn 0] = some session ∧
      session.state.contexts = [(2, 1), (3, 0)] ∧ session.state.deleteList.Nodup ∧
      (0 ∈ recipients session.state (session.state.dispatch 3) ↔ LastReceived session.events 3 0) := by
  obtain ⟨session, ran, contexts⟩ : ∃ session, run perform {} [.prepareAsyncTxn 0,
      .prepareAsyncTxn 1, .dispatch 1, .prepareAsyncTxn 0] = some session ∧
      session.state.contexts = [(2, 1), (3, 0)] := ⟨_, rfl, rfl⟩
  obtain ⟨-, -, -, nodup, -, dispatched⟩ := transaction_ids ran
  exact ⟨session, ran, contexts, nodup, (dispatched 3 (by decide)).2 0⟩

end FuchsiaSdk.ClientTxids
