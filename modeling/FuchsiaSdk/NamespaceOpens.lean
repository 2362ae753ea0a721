import FuchsiaSdk.Machine
import FuchsiaSdk.NamespaceTree

/-! Opening local bindings while they come and go. `Open` walks the tree under the
namespace's lock and then, without it, calls `LocalVnode::Local::Open` of the vnode that
it found and still holds; `Unbind` may run in between. A `Local` vnode is known by the
number of the bind that made it. -/
namespace FuchsiaSdk.NamespaceOpens
open CleanPath LocalVnode LocalVnode.Vnode Namespace NamespaceTree
open List hiding lookup

variable {Storage Channel : Type}

structure State (Storage : Type) where
  root : Vnode Nat Storage := .intermediate {}
  /-- Whether `on_open_` of a vnode is still set. -/
  armed : Nat → Bool := fun _ => false
  /-- The vnodes that an `Open` holds and has yet to call. -/
  held : List Nat := []
  /-- The binds whose callbacks have been called. -/
  calls : List Nat := []
  binds : Nat := 0

inductive Label (Channel : Type) where
  | bindRemote (path : Bytes) (client : Option Channel)
  | bindLocal (path : Bytes)
  | unbind (path : Bytes)
  /-- The walk of an `Open`, from the directory at a place. -/
  | walk (place : List Bytes) (path : Bytes)
  /-- `Local::Open` of a vnode that was found, with or without memory. -/
  | call (id : Nat) (allocated : Bool)

/-- The vnode that `Unbind` calls `Unlink` on. -/
def unlinked (path : Bytes) (root : Vnode Nat Storage) : Option (Vnode Nat Storage) :=
  if path.head? ≠ some slash then none
  else if path.tail = [] then
    match root with
    | .intermediate _ => none
    | vn => some vn
  else
    match unbindLoop (segments path.tail) [] none root with
    | .error _ => none
    | .ok place => nodeAt place root

/-- `LocalVnode::Unlink`: a `Local` loses its callback. `UnlinkEntries` of an
`Intermediate` passes over the `Local` vnodes that it removes. -/
def disarm (armed : Nat → Bool) : Option (Vnode Nat Storage) → Nat → Bool
  | some (.local id) => Function.update armed id false
  | _ => armed

def step (createDirectory : Channel → Except Status Storage) (st : State Storage) :
    Label Channel → Option (State Storage)
  | .bindRemote path client =>
    some { st with root := (bindRemote createDirectory client path st.root).2 }
  | .bindLocal path =>
    let bound := bindLocal st.binds path st.root
    some { st with
      root := bound.2
      armed := if bound.1 = .ok () then Function.update st.armed st.binds true else st.armed
      binds := st.binds + 1 }
  | .unbind path =>
    some { st with
      root := (unbind path st.root).2
      armed := disarm st.armed (unlinked path st.root) }
  | .walk place path =>
    (nodeAt place st.root).bind fun vn =>
      match walkLocked vn path with
      | .ok (.local id, _) => some { st with held := id :: st.held }
      | _ => some st
  | .call id allocated =>
    if id ∈ st.held then
      some { st with
        held := st.held.erase id
        calls := if st.armed id && allocated then st.calls ++ [id] else st.calls }
    else none

/-! ## What is unlinked -/

/-- The directory of a key is the root, or it holds other entries. -/
def Spared (key : List Bytes) (root : Vnode Nat Storage) : Prop :=
  key.length ≤ 1 ∨ ∃ entries, nodeAt key.dropLast root = some (.intermediate entries) ∧
    entries.size > 1

section

variable {vn root : Vnode Nat Storage} {key rest place : List Bytes} {name : Bytes}

/-- Below every entry of a directory there is a mount. -/
lemma exists_mount_below (sound : Sound vn)
    (found : nodeAt place vn = some (.intermediate entries)) (entry : Nat × Bytes × Vnode Nat Storage)
    (mem : entry ∈ entries.byId) : ∃ rest, mountAt (place ++ entry.2.1 :: rest) vn ≠ none := by
  obtain ⟨here, -⟩ := sound_nodeAt sound found
  have looked : entries.lookup entry.2.1 = some entry.2.2 :=
    here.consistent.lookup_eq_some_iff.mpr ⟨entry.1, mem⟩
  obtain ⟨-, occupied, inside⟩ := here.inside looked
  obtain ⟨rest, mount, bound⟩ := inside.exists_mount occupied
  refine ⟨rest, ?_⟩
  rw [mountAt_append, found, Option.bind_some, mountAt_cons, lookup, looked, Option.bind_some, bound]
  exact Option.some_ne_none mount

/-- No directory above a mount that is alone has two entries. -/
private lemma alone_single (sound : Sound vn)
    (alone : Alone key vn) (found : nodeAt place vn = some (.intermediate entries)) : ¬ entries.size > 1 := by
  intro several
  have distinct := (sound_nodeAt sound found).1.consistent.distinct
  match shape : entries.byId with
  | [] =>
    rw [Entries.size, shape] at several
    exact absurd several (Nat.not_lt_zero 1)
  | [_] =>
    rw [Entries.size, shape] at several
    exact absurd several (Nat.lt_irrefl 1)
  | first :: second :: _ =>
    obtain ⟨_, bound⟩ := exists_mount_below sound found first (by simp [shape])
    obtain ⟨below', bound'⟩ := exists_mount_below sound found second (by simp [shape])
    have same := (alone.2 _ bound).trans (alone.2 _ bound').symm
    have names : first.2.1 = second.2.1 := by
      simpa using congrArg head? (append_cancel_left same)
    rw [shape] at distinct
    simp [names] at distinct

private lemma prunes_key (prunes : Prunes top key place vn) (sound : Sound vn) :
    place = key ↔ top ∧ key.length = 1 ∨
      ∃ entries, nodeAt key.dropLast vn = some (.intermediate entries) ∧ entries.size > 1 := by
  induction prunes with
  | @here entries name rest child top present alone stays =>
    cases rest with
    | nil =>
      simp only [dropLast_singleton, nodeAt, length_singleton, and_true, true_iff]
      rcases stays with isTop | several
      · exact .inl isTop
      · exact .inr ⟨entries, rfl, several⟩
    | cons next rest =>
      have single := fun inner
        (found : nodeAt (next :: rest).dropLast child = some (.intermediate inner)) =>
        alone_single (sound.inside present).2.2 alone found
      simp only [cons.injEq, true_and, length_cons, dropLast_cons_cons]
      constructor
      · intro wrong
        cases wrong
      · rintro (⟨-, wrong⟩ | ⟨inner, found, several⟩)
        · omega
        · rw [nodeAt, lookup, present] at found
          exact absurd several (single inner found)
  | @deeper entries name rest place child top present inside ih =>
    cases rest with
    | nil => cases inside
    | cons next rest =>
      have below := ih (sound.inside present).2.2
      simp only [false_and, false_or] at below
      rw [cons.injEq, dropLast_cons_cons, nodeAt, lookup, present]
      simp only [true_and, Option.bind_some, length_cons]
      rw [below]
      constructor
      · exact .inr
      · rintro (⟨-, wrong⟩ | found)
        · omega
        · exact found

/-- What is unlinked in place of the mount itself is a directory. -/
private lemma prunes_node (prunes : Prunes top key place vn) (other : place ≠ key) :
    ∃ entries, nodeAt place vn = some (.intermediate entries) := by
  induction prunes with
  | @here entries name rest child top present alone _ =>
    cases rest with
    | nil => exact absurd rfl other
    | cons _ rest =>
      cases child with
      | «local» | remote => exact absurd rfl alone.1
      | intermediate inner =>
        refine ⟨inner, ?_⟩
        rw [nodeAt, lookup, present]
        rfl
  | @deeper entries name rest place child top present _ ih =>
    obtain ⟨inner, found⟩ := ih fun same => other (by rw [same])
    refine ⟨inner, ?_⟩
    rw [nodeAt, lookup, present]
    exact found

private lemma nodeAt_of_mountAt {id : Nat} (bound : mountAt key vn = some (.local id)) :
    nodeAt key vn = some (.local id) := by
  have split := mountAt_append key [] vn
  rw [append_nil, bound] at split
  obtain ⟨node, found, mounted⟩ := Option.bind_eq_some_iff.mp split.symm
  cases node with
  | «local» onOpen =>
    cases mounted
    exact found
  | remote | intermediate => cases mounted

/-- `Unbind` calls `Unlink` on the vnode of the binding exactly if its directory stays. -/
lemma unlinked_cases (sound : Sound root) (done : (unbind path root).1 = .ok ()) :
    (Spared (keyOf path) root ∧ unlinked path root = nodeAt (keyOf path) root) ∨
      (¬ Spared (keyOf path) root ∧ ∃ entries, unlinked path root = some (.intermediate entries)) := by
  unfold unbind at done
  unfold unlinked keyOf
  split at done
  · cases done
  rename_i rooted
  rw [if_neg rooted]
  by_cases top : path.tail = []
  · simp only [if_pos top] at done ⊢
    refine .inl ⟨.inl (Nat.zero_le 1), ?_⟩
    cases root with
    | intermediate entries => cases done
    | «local» | remote => rfl
  · simp only [if_neg top] at done ⊢
    cases outcome : unbindLoop (segments path.tail) [] none root with
    | error =>
      rw [outcome] at done
      cases done
    | ok place =>
      rcases unbindLoop_ok True sound outcome (fun _ => .inl trivial)
        (fun set => absurd rfl set) with ⟨same, -⟩ | ⟨_, isFront, prunes⟩
      · cases same
      subst isFront
      have long : 1 ≤ (segments path.tail).length :=
        length_pos_iff.mpr (segments_ne_nil)
      have spared : place = segments path.tail ↔ Spared (segments path.tail) root := by
        rw [prunes_key prunes sound]
        refine or_congr ⟨fun holds => Nat.le_of_eq holds.2, fun short => ⟨trivial, ?_⟩⟩ Iff.rfl
        omega
      rw [← spared]
      by_cases same : place = segments path.tail
      · exact .inl ⟨same, by rw [same]⟩
      · exact .inr ⟨same, prunes_node prunes same⟩

private lemma unlinked_none (failed : (unbind path root).1 ≠ .ok ()) : unlinked path root = none := by
  unfold unbind at failed
  unfold unlinked
  split at failed
  next unrooted => rw [if_pos unrooted]
  rename_i rooted
  rw [if_neg rooted]
  split at failed
  next top =>
    rw [if_pos top]
    cases root with
    | intermediate => rfl
    | «local» | remote => exact absurd rfl failed
  next below =>
    rw [if_neg below]
    cases outcome : unbindLoop (segments path.tail) [] none root with
    | error => rfl
    | ok =>
      rw [outcome] at failed
      exact absurd rfl failed

/-- Only the callback of a binding that is removed is cleared. -/
lemma mountAt_of_unlinked {id : Nat} (sound : Sound root) (cleared : unlinked path root = some (.local id)) :
    (unbind path root).1 = .ok () ∧ mountAt (keyOf path) root = some (.local id) := by
  have done : (unbind path root).1 = .ok () := by
    by_contra failed
    rw [unlinked_none failed] at cleared
    cases cleared
  refine ⟨done, ?_⟩
  rcases unlinked_cases sound done with ⟨-, node⟩ | ⟨-, _, node⟩
  · have split := mountAt_append (keyOf path) [] root
    rw [append_nil, ← node, cleared] at split
    exact split
  · rw [cleared] at node
    cases node

end

/-! ## Whole runs -/

section Runs

variable {createDirectory : Channel → Except Status Storage} {st next after : State Storage}
  {id : Nat}

/-- Every local binding of the tree is armed and there once. -/
structure Inv (st : State Storage) : Prop extends Numbered .local st.binds st.root where
  armed : ∀ key id, mountAt key st.root = some (.local id) → st.armed id = true

/-- A binding that has left the tree, and whose callback is cleared or held by nobody. -/
structure Silent (id : Nat) (st : State Storage) : Prop where
  known : id < st.binds
  gone : ∀ key, mountAt key st.root ≠ some (.local id)
  still : st.armed id = false ∨ id ∉ st.held

/-- The local mounts after a remote bind were there before. -/
lemma bindRemote_mounts {key : List Bytes} {path : Bytes} {client : Option Channel} (sound : Sound st.root)
    (found : mountAt key (bindRemote createDirectory client path st.root).2 = some (.local id)) :
    mountAt key st.root = some (.local id) := by
  cases client with
  | none => exact found
  | some channel =>
    rcases mountAt_bind sound found with before | ⟨-, built, -⟩
    · exact before
    · cases created : createDirectory channel <;> rw [created] at built <;> cases built

lemma disarm_ne (other : vn ≠ some (.local id)) : disarm armed vn id = armed id := by
  rcases vn with _ | (cleared | _ | _)
  · rfl
  · have apart : id ≠ cleared := by
      rintro rfl
      exact other rfl
    exact Function.update_of_ne apart ..
  · rfl
  · rfl

/-- The vnode at which a walk ends is one of the tree. -/
private lemma walkLoop_node (walked : walkLoop parts vn = .ok (child, left)) :
    ∃ key, nodeAt key vn = some child := by
  induction parts generalizing vn with
  | nil =>
    cases walked
    exact ⟨[], rfl⟩
  | cons segment _ ih =>
    simp only [walkLoop] at walked
    split at walked
    · cases walked
    split at walked
    · exact ih walked
    cases vn with
    | «local» onOpen => cases walked
    | remote =>
      cases walked
      exact ⟨[], rfl⟩
    | intermediate entries =>
      cases looked : entries.lookup segment with
      | none =>
        simp only [looked] at walked
        cases walked
      | some =>
        simp only [looked] at walked
        obtain ⟨key, found⟩ := ih walked
        refine ⟨segment :: key, ?_⟩
        rw [nodeAt, lookup, looked]
        exact found

private lemma walkLocked_mount
    (start : nodeAt place root = some vn) (walked : walkLocked vn path = .ok (.local id, left)) :
    ∃ key, mountAt key root = some (.local id) := by
  have reached : ∃ key, nodeAt key vn = some (.local id) := by
    unfold walkLocked at walked
    split at walked
    · cases walked
      exact ⟨[], rfl⟩
    · exact walkLoop_node walked
  obtain ⟨key, found⟩ := reached
  refine ⟨place ++ key, ?_⟩
  have split := mountAt_append key [] vn
  rw [append_nil, found] at split
  rw [mountAt_append, start]
  exact split

/-- A walk adds at most one vnode of the tree to those that are held. -/
lemma step_walk (moved : step createDirectory st (.walk place path) = some next) :
    next = st ∨ ∃ key id, mountAt key st.root = some (.local id) ∧
      next = { st with held := id :: st.held } := by
  obtain ⟨_, start, walked⟩ := Option.bind_eq_some_iff.mp moved
  split at walked
  next id left found =>
    obtain ⟨key, bound⟩ := walkLocked_mount start found
    cases walked
    exact .inr ⟨key, id, bound, rfl⟩
  · cases walked
    exact .inl rfl

lemma armed_bindLocal {bound : Prop} [Decidable bound] (known : id < st.binds) :
    (if bound then Function.update st.armed st.binds true else st.armed) id = st.armed id := by
  split
  · exact Function.update_of_ne (Nat.ne_of_lt known) ..
  · rfl

lemma inv_step (inv : Inv st) (label : Label Channel)
    (moved : step createDirectory st label = some next) : Inv next := by
  cases label with
  | bindRemote path client =>
    cases moved
    have old := fun key id => @bindRemote_mounts _ _ createDirectory st id key path client inv.sound
    refine ⟨inv.of_mounts [] (bindRemote_keeps createDirectory client path inv.sound).1 (Nat.le_refl _)
      fun key id found => .inl (old key id found), fun key id found => ?_⟩
    exact inv.armed key id (old key id found)
  | bindLocal path =>
    cases moved
    refine ⟨inv.of_mounts (keyOf path) (bind_keeps _ path inv.sound).1 (Nat.le_succ _)
      fun key id found => ?_, fun key id found => ?_⟩
    · refine (mountAt_bind inv.sound found).imp_right fun ⟨here, built, _⟩ => ?_
      cases built
      exact ⟨here, rfl, Nat.lt_succ_self _⟩
    · rcases mountAt_bind inv.sound found with before | ⟨-, built, done⟩
      · exact (armed_bindLocal (inv.known key id before)).trans (inv.armed key id before)
      cases built
      simp only [if_pos (show (bindLocal st.binds path st.root).1 = .ok () from done)]
      exact Function.update_self ..
  | unbind path =>
    cases moved
    have old := fun key id => @mountAt_unbind _ _ _ key path (.local id) inv.sound
    refine ⟨inv.of_mounts [] (unbind_keeps inv.sound).1 (Nat.le_refl _)
      fun key id found => .inl (old key id found).1, fun key id found => ?_⟩
    obtain ⟨before, elsewhere⟩ := old key id found
    have other : unlinked path st.root ≠ some (.local id) := by
      intro cleared
      obtain ⟨done, here⟩ := mountAt_of_unlinked inv.sound cleared
      exact elsewhere done (inv.once key _ id before here)
    exact (disarm_ne other).trans (inv.armed key id before)
  | walk _ path =>
    rcases step_walk moved with rfl | ⟨key, id, -, rfl⟩
    · exact inv
    · exact { inv with }
  | call id =>
    simp only [step] at moved
    split at moved <;> cases moved
    exact { inv with }

/-- A binding that is silent stays so, and its callback is not called. -/
private lemma silent_step (inv : Inv st) (silent : Silent id st)
    (moved : step createDirectory st label = some next) :
    Silent id next ∧ next.calls.count id = st.calls.count id := by
  cases label with
  | bindRemote path =>
    cases moved
    refine ⟨⟨silent.known, fun key found => silent.gone key ?_, silent.still⟩, rfl⟩
    exact bindRemote_mounts inv.sound found
  | bindLocal path =>
    cases moved
    refine ⟨⟨Nat.lt_succ_of_lt silent.known, fun key found => ?_, ?_⟩, rfl⟩
    · rcases mountAt_bind inv.sound found with before | ⟨-, built, -⟩
      · exact silent.gone key before
      · cases built
        exact absurd silent.known (Nat.lt_irrefl _)
    · exact silent.still.imp_left (armed_bindLocal silent.known).trans
  | unbind path =>
    cases moved
    refine ⟨⟨silent.known, fun key found => silent.gone key (mountAt_unbind inv.sound found).1, ?_⟩, rfl⟩
    refine silent.still.imp_left fun cleared => ?_
    have other : unlinked path st.root ≠ some (.local id) := fun here =>
      silent.gone _ (mountAt_of_unlinked inv.sound here).2
    exact (disarm_ne other).trans cleared
  | walk _ path =>
    rcases step_walk moved with rfl | ⟨key, other, bound, rfl⟩
    · exact ⟨silent, rfl⟩
    refine ⟨⟨silent.known, silent.gone, silent.still.imp_right fun absent mem => ?_⟩, rfl⟩
    rcases mem_cons.mp mem with rfl | inside
    · exact silent.gone key bound
    · exact absent inside
  | call other =>
    simp only [step] at moved
    split at moved <;> cases moved
    rename_i held
    refine ⟨⟨silent.known, silent.gone, silent.still.imp_right fun absent mem => ?_⟩, ?_⟩
    · exact absent (mem_of_mem_erase mem)
    · split
      next called =>
        have apart : other ≠ id := by
          rintro rfl
          rcases silent.still with cleared | absent
          · simp [cleared] at called
          · exact absent held
        rw [count_append, count_singleton, if_neg (by simpa using apart), Nat.add_zero]
      · rfl

/-- The state after `Unbind`. -/
def afterUnbind (path : Bytes) (st : State Storage) : State Storage :=
  { st with
    root := (unbind path st.root).2
    armed := disarm st.armed (unlinked path st.root) }

/-- Whatever happens after `Unbind`, the callback of a bind is not called any more. -/
def StaysSilent (createDirectory : Channel → Except Status Storage) (path : Bytes) (id : Nat)
    (st : State Storage) : Prop :=
  ∀ later final, Machine.run (step createDirectory) (afterUnbind path st) later = some final →
    final.calls.count id = st.calls.count id

/-- After an `Unbind` that succeeds the callback of the local binding is silent, in every run
from there on, exactly if no `Open` holds its vnode or its directory is the root or has
other entries. -/
theorem silent_after_unbind_iff (createDirectory : Channel → Except Status Storage)
    (labels : List (Label Channel)) (st : State Storage)
    (ran : Machine.run (step createDirectory) {} labels = some st) (path : Bytes) (id : Nat)
    (bound : mountAt (keyOf path) st.root = some (.local id))
    (done : (unbind path st.root).1 = .ok ()) :
    StaysSilent createDirectory path id st ↔
      id ∉ st.held ∨ Spared (keyOf path) st.root := by
  have keeps : ∀ (st : State Storage) (label : Label Channel) (next : State Storage), Inv st →
      step createDirectory st label = some next → Inv next :=
    fun _ label _ inv stepped => inv_step inv label stepped
  have inv : Inv st :=
    Machine.run_keeps keeps ⟨.start, fun key _ found => by simp [mountAt_empty] at found⟩ ran
  have invAfter : Inv (afterUnbind path st) := keeps st (.unbind path) _ inv rfl
  have gone : ∀ key, mountAt key (afterUnbind path st).root ≠ some (.local id) := by
    intro key found
    obtain ⟨before, elsewhere⟩ := mountAt_unbind inv.sound found
    exact elsewhere done (inv.once key _ id before bound)
  have node := nodeAt_of_mountAt bound
  have fate := unlinked_cases inv.sound done
  rw [node] at fate
  constructor
  · intro silent
    by_contra still
    obtain ⟨held, lost⟩ := not_or.mp still
    rcases fate with ⟨spared, -⟩ | ⟨-, entries, pruned⟩
    · exact lost spared
    -- the vnode was pruned with its directory: the `Open` that holds it calls it now
    have armed : (afterUnbind path st).armed id = true := by
      have kept : disarm st.armed (unlinked path st.root) id = st.armed id :=
        disarm_ne (by rw [pruned]; exact nofun)
      exact kept.trans (inv.armed _ id bound)
    have called : Machine.run (step createDirectory) (afterUnbind path st) [.call id true] =
        some { afterUnbind path st with
          held := st.held.erase id
          calls := st.calls ++ [id] } := by
      have holds : id ∈ (afterUnbind path st).held := not_not.mp held
      simp only [Machine.run, step, if_pos holds, armed, Option.bind_some]
      rfl
    have count := silent _ _ called
    simp at count
  · intro kept
    have silent : Silent id (afterUnbind path st) := by
      refine ⟨inv.known _ id bound, gone, ?_⟩
      rcases kept with absent | spared
      · exact .inr absent
      rcases fate with ⟨-, cleared⟩ | ⟨lost, -⟩
      · refine .inl ?_
        simp only [afterUnbind, cleared, disarm, Function.update_self]
      · exact absurd spared lost
    intro later final ran'
    have all := @Machine.run_keeps _ _ (step createDirectory)
      (fun other => Inv other ∧ Silent id other ∧ other.calls.count id = st.calls.count id)
      (afterUnbind path st) final later ?_ ⟨invAfter, silent, rfl⟩ ran'
    · exact all.2.2
    · rintro other label next ⟨invOther, silentOther, count⟩ stepped
      obtain ⟨silentNext, same⟩ := silent_step invOther silentOther stepped
      exact ⟨keeps other label next invOther stepped, silentNext, same.trans count⟩

end Runs

/-- Bindings at `/a/b` and `/a/c`, and an `Open` that holds the first. -/
def shared : List (Label Unit) :=
  [.bindLocal NamespaceMounts.deep, .bindLocal [slash, 0x61, slash, 0x63],
    .walk [] NamespaceMounts.deep.tail]

theorem silent_after_unbind_shared : ∃ st : State Unit,
    Machine.run (step fun _ : Unit => .ok ()) {} shared = some st ∧ 0 ∈ st.held ∧
      StaysSilent (fun _ : Unit => .ok ()) NamespaceMounts.deep 0 st := by
  refine ⟨_, rfl, mem_cons_self, ?_⟩
  refine (silent_after_unbind_iff (fun _ : Unit => .ok ()) shared _ rfl NamespaceMounts.deep 0 rfl
    rfl).mpr (.inr (.inr ⟨_, rfl, ?_⟩))
  exact Nat.lt_succ_self 1

/-- A binding at `/a/b` is pruned with `/a`; the `Open` that holds it calls its callback after
`Unbind` has returned. -/
theorem called_after_unbind : ∃ st : State Unit,
    Machine.run (step fun _ : Unit => .ok ()) {}
      [.bindLocal NamespaceMounts.deep, .walk [] NamespaceMounts.deep.tail] = some st ∧
    mountAt (keyOf NamespaceMounts.deep) st.root = some (.local 0) ∧
    (unbind NamespaceMounts.deep st.root).1 = .ok () ∧
    ¬ StaysSilent (fun _ : Unit => .ok ()) NamespaceMounts.deep 0 st := by
  refine ⟨_, rfl, rfl, rfl, fun silent => ?_⟩
  exact absurd (silent [.call 0 true] _ rfl) (by decide)

end FuchsiaSdk.NamespaceOpens
