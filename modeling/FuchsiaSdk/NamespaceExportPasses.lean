import FuchsiaSdk.IdCursor
import FuchsiaSdk.Machine
import FuchsiaSdk.NamespaceExport
import Mathlib.Algebra.Order.BigOperators.Group.List
import Mathlib.Algebra.Order.Group.Nat
import Mathlib.Data.List.Flatten

/-! The two passes of `Export` among the operations of other threads. `Export` holds the
namespace's lock only to read `root_`: the pass that counts the remote vnodes and the pass
that clones them into the array walk the tree step by step while `Bind` and `Unbind` change
it. A pass is known by its iterators, each at an entry with an id that a directory gives out
once only; what a pass does after such an entry has been removed is undefined. -/
namespace FuchsiaSdk.NamespaceExportPasses
open CleanPath LocalVnode LocalVnode.Vnode Namespace NamespaceTree NamespaceExport
open IdCursor (ahead)
open NamespaceMounts (shallow)
open List hiding after lookup

variable {Callback Channel : Type}

/-! ## One pass -/

/-- What `EnumerateInternal` of a vnode is doing. -/
inductive Cursor where
  | entered
  /-- `ForAllEntries` is at the entry with that id, in `EnumerateInternal` of its vnode. -/
  | inside (id : Nat) (cursor : Cursor)
  | returned
  deriving DecidableEq, Repr

/-- A call of the enumeration callback: the path, and the remote vnode. -/
abbrev Call : Type := Bytes × Nat

inductive Move where
  | moved (cursor : Cursor) (call : Option Call)
  | ended
  /-- The entry that an iterator was at is gone. -/
  | astray

/-- `ForAllEntries` goes on with the first of these entries, or it returns. -/
def goOn : List (Nat × Bytes × Vnode Callback Nat) → Cursor
  | [] => .returned
  | entry :: _ => .inside entry.1 .entered

/-- One step of `EnumerateInternal`. -/
def advance : Cursor → (path name : Bytes) → Vnode Callback Nat → Move
  | .entered, _, _, .local _ => .moved .returned none
  | .entered, path, name, .remote mount => .moved .returned (some (appendName path name, mount))
  | .entered, _, _, .intermediate entries => .moved (goOn entries.byId) none
  | .inside id cursor, path, name, .intermediate entries =>
    match entries.byId.find? fun entry => entry.1 == id with
    | none => .astray
    | some entry =>
      match advance cursor (enter path name) entry.2.1 entry.2.2 with
      | .moved next call => .moved (.inside id next) call
      | .ended => .moved (goOn (ahead entries.byId id)) none
      | .astray => .astray
  | .inside _ _, _, _, _ => .astray
  | .returned, _, _, _ => .ended

/-! ## The passes and the other threads -/

inductive Pass where
  | counting (cursor : Cursor)
  | filling (cursor : Cursor)
  | astray
  | returned (result : Except Status Unit)

structure State (Callback : Type) where
  rootName : Bytes
  /-- The vnode that was the root when `Export` began. -/
  exported : Vnode Callback Nat
  /-- The root, once it is another vnode. -/
  elsewhere : Option (Vnode Callback Nat) := none
  created : Nat
  pass : Pass := .counting .entered
  /-- What the counting pass has counted; the code keeps the number and the bytes. -/
  counted : List Call := []
  /-- What the filling pass has stored. -/
  stored : List Call := []

inductive Label (Callback Channel : Type) where
  | bindRemote (path : Bytes) (client : Option Channel)
  | bindLocal (path : Bytes) (onOpen : Callback)
  | unbind (path : Bytes)
  /-- A step of the running pass, with the outcome of the clone it may ask for. -/
  | visit (cloned : Except Status Unit)
  | allocate (allocated : Bool)
  | finish

/-- `Export` begins: it takes a reference to the root. -/
def begin (st : NamespaceExport.State Callback) : State Callback where
  rootName := st.rootName
  exported := st.root
  created := st.created

/-- An operation of another thread on the root. A `Bind` or `Unbind` of `/` that succeeds
puts another vnode in its place and leaves the exported one as it is. -/
def change (st : State Callback) (path : Bytes) (created : Nat)
    (operate : Vnode Callback Nat → Except Status Unit × Vnode Callback Nat) : State Callback :=
  match st.elsewhere with
  | some root => { st with elsewhere := some (operate root).2, created := created }
  | none =>
    if (operate st.exported).1 = .ok () ∧ path.tail = [] then
      { st with elsewhere := some (operate st.exported).2, created := created }
    else { st with exported := (operate st.exported).2, created := created }

/-- What `Bind` makes of the client end of a channel. -/
def create (createRemoteVnode : Channel → Except Status Unit) (st : State Callback)
    (channel : Channel) : Except Status Nat :=
  (createRemoteVnode channel).map fun _ => st.created

/-- A step of the running pass. -/
def visit (st : State Callback) (cursor : Cursor) (record : Cursor → List Call → State Callback) :
    Option (State Callback) :=
  match advance cursor [slash] st.rootName st.exported with
  | .moved next call => some (record next call.toList)
  | .ended => none
  | .astray => some { st with pass := .astray }

def step (createRemoteVnode : Channel → Except Status Unit) (st : State Callback) :
    Label Callback Channel → Option (State Callback)
  | .bindRemote path client =>
    some (change st path (st.created + 1) (bindRemote (create createRemoteVnode st) client path))
  | .bindLocal path onOpen => some (change st path st.created (bindLocal onOpen path))
  | .unbind path => some (change st path st.created (unbind path))
  | .visit cloned =>
    match st.pass with
    | .counting cursor => visit st cursor fun next calls =>
      { st with pass := .counting next, counted := st.counted ++ calls }
    | .filling cursor => visit st cursor fun next calls =>
      { st with
        pass := .filling next
        stored := if cloned = .ok () then st.stored ++ calls else st.stored }
    | _ => none
  | .allocate allocated =>
    match st.pass with
    | .counting .returned =>
      some { st with
        pass := if allocated then .filling .entered else .returned (.error noMemory) }
    | _ => none
  | .finish =>
    match st.pass with
    | .filling .returned => some { st with pass := .returned (.ok ()) }
    | _ => none

/-- The passes are defined, and the filling pass has stored no more than was counted. -/
structure Within (st : State Callback) : Prop where
  defined : st.pass ≠ .astray
  entries : st.stored.length ≤ st.counted.length
  paths : pathBytes st.stored ≤ pathBytes st.counted

/-- In addition success means that the array is full. -/
structure Bounded (st : State Callback) : Prop extends Within st where
  full : st.pass = .returned (.ok ()) → st.stored.length = st.counted.length

/-! ## What the other threads may do -/

def Pass.cursor? : Pass → Option Cursor
  | .counting cursor => some cursor
  | .filling cursor => some cursor
  | _ => none

/-- The entries that the iterators of a pass are at are there. -/
def Cursor.stands : Cursor → Vnode Callback Nat → Bool
  | .inside id cursor, .intermediate entries =>
    (entries.byId.find? fun entry => entry.1 == id).any fun entry => cursor.stands entry.2.2
  | .inside _ _, _ => false
  | _, _ => true

/-- An operation with that result changes the tree that `Export` is walking. -/
def Affects (st : State Callback) (path : Bytes) (result : Except Status Unit) : Prop :=
  st.pass.cursor?.isSome = true ∧ st.elsewhere.isNone = true ∧ path.tail ≠ [] ∧ result = .ok ()

instance (st : State Callback) (path : Bytes) (result : Except Status Unit) :
    Decidable (Affects st path result) :=
  inferInstanceAs (Decidable (_ ∧ _))

/-- No `Bind` of a remote takes effect, and no `Unbind` removes a vnode on the way to where
the pass is. -/
def Calm (createRemoteVnode : Channel → Except Status Unit) (st : State Callback) :
    Label Callback Channel → Prop
  | .bindRemote path client =>
    ¬ Affects st path (bindRemote (create createRemoteVnode st) client path st.exported).1
  | .unbind path => Affects st path (unbind path st.exported).1 →
    ∀ cursor ∈ st.pass.cursor?, cursor.stands (unbind path st.exported).2 = true
  | _ => True

def isRemote : Option (Mount Callback Nat) → Bool
  | some (.remote _) => true
  | _ => false

/-- No `Unbind` of a remote takes effect, and no clone fails. -/
def Lossless (st : State Callback) : Label Callback Channel → Prop
  | .unbind path => Affects st path (unbind path st.exported).1 →
    isRemote (mountAt (keyOf path) st.exported) = false
  | .visit cloned => cloned = .ok ()
  | _ => True

instance (createRemoteVnode : Channel → Except Status Unit) (st : State Callback)
    (label : Label Callback Channel) : Decidable (Calm createRemoteVnode st label) := by
  cases label <;> unfold Calm <;> infer_instance

instance (st : State Callback) (label : Label Callback Channel) : Decidable (Lossless st label) := by
  cases label <;> unfold Lossless <;> infer_instance

/-! ## Where a pass is in the enumeration -/

/-- The calls for some entries of a directory. -/
def listed (path : Bytes) (entries : List (Nat × Bytes × Vnode Callback Nat)) : List Call :=
  entries.flatMap fun entry => enumerateInternal path entry.2.1 entry.2.2

def behind (entries : List (Nat × Bytes × Vnode Callback Nat)) (id : Nat) :
    List (Nat × Bytes × Vnode Callback Nat) :=
  entries.filter fun entry => entry.1 < id

/-- A pass splits the calls that the vnode as it is now would give into those that are past
and those that are left. -/
inductive Splits : Cursor → (path name : Bytes) → Vnode Callback Nat → (past left : List Call) → Prop where
  | entered : Splits .entered path name vn [] (enumerateInternal path name vn)
  | inside {entries : Entries (Vnode Callback Nat)} {id : Nat} {childName : Bytes}
    {child : Vnode Callback Nat} (mem : (id, childName, child) ∈ entries.byId)
    (within : Splits cursor (enter path name) childName child past left) :
    Splits (.inside id cursor) path name (.intermediate entries)
      (listed (enter path name) (behind entries.byId id) ++ past)
      (left ++ listed (enter path name) (ahead entries.byId id))
  | returned : Splits .returned path name vn (enumerateInternal path name vn) []

section Passes

variable {vn : Vnode Callback Nat} {entries : Entries (Vnode Callback Nat)} {path name : Bytes}
  {cursor : Cursor} {past left : List Call} {front back : List (Nat × Bytes × Vnode Callback Nat)}

lemma enumerate_intermediate (entries : Entries (Vnode Callback Nat)) :
    enumerateInternal path name (.intermediate entries) = listed (enter path name) entries.byId := by
  rw [enumerateInternal, forAllEntries, forEach_eq]
  rfl

lemma listed_append : listed path (front ++ back) = listed path front ++ listed path back :=
  flatMap_append ..

/-- The entries before and after one of them. -/
lemma around (consistent : entries.Consistent) (split : entries.byId = front ++ entry :: back) :
    behind entries.byId entry.1 = front ∧ ahead entries.byId entry.1 = back := by
  have increasing := consistent.increasing
  rw [split, map_append, map_cons, pairwise_append, pairwise_cons] at increasing
  obtain ⟨-, ⟨later, -⟩, earlier⟩ := increasing
  have before : ∀ other ∈ front, other.1 < entry.1 := fun other mem =>
    earlier _ (mem_map_of_mem mem) _ mem_cons_self
  have after : ∀ other ∈ back, entry.1 < other.1 := fun other mem => later _ (mem_map_of_mem mem)
  rw [split, behind, ahead, filter_append, filter_append, filter_cons_of_neg (by simp),
    filter_cons_of_neg (by simp)]
  refine ⟨?_, ?_⟩
  · rw [filter_eq_self.mpr fun other mem => by simpa using before other mem,
      filter_eq_nil_iff.mpr fun other mem => by simpa using Nat.le_of_lt (after other mem), append_nil]
  · rw [filter_eq_nil_iff.mpr fun other mem => by simpa using Nat.le_of_lt (before other mem),
      filter_eq_self.mpr fun other mem => by simpa using after other mem, nil_append]

lemma splits_goOn (consistent : entries.Consistent) (split : entries.byId = front ++ back) :
    Splits (goOn back) path name (.intermediate entries) (listed (enter path name) front)
      (listed (enter path name) back) := by
  cases back with
  | nil =>
    rw [append_nil] at split
    rw [← split, ← enumerate_intermediate]
    exact .returned
  | cons entry back =>
    obtain ⟨before, after⟩ := around consistent split
    have mem : entry ∈ entries.byId := by rw [split]; exact mem_append_right _ mem_cons_self
    have splits := @Splits.inside _ _ path name _ _ entries entry.1 entry.2.1 entry.2.2 mem .entered
    rwa [before, after, append_nil] at splits

/-- A step makes the first call that is left, or none. -/
lemma Splits.advance (splits : Splits cursor path name vn past left) (sound : Sound vn) :
    (advance cursor path name vn = .ended ∧ past = enumerateInternal path name vn ∧ left = []) ∨
      ∃ next call rest, advance cursor path name vn = .moved next call ∧ left = call.toList ++ rest ∧
        Splits next path name vn (past ++ call.toList) rest := by
  induction splits with
  | @entered path name vn =>
    cases vn with
    | «local» => exact .inr ⟨.returned, none, [], rfl, rfl, .returned⟩
    | remote => exact .inr ⟨.returned, some _, [], rfl, rfl, .returned⟩
    | intermediate entries =>
      refine .inr ⟨_, none, _, rfl, enumerate_intermediate entries, ?_⟩
      exact @splits_goOn _ _ _ _ [] _ sound.consistent rfl
  | returned => exact .inl ⟨rfl, rfl, rfl⟩
  | @inside cursor path name past left entries id childName child mem within ih =>
    have consistent := sound.consistent
    have found : entries.byId.find? (fun entry => entry.1 == id) = some (id, childName, child) :=
      (Entries.find?_key_iff Prod.fst consistent.ids).mpr ⟨mem, rfl⟩
    have inner := sound.inside (consistent.lookup_eq_some_iff.mpr ⟨id, mem⟩)
    simp only [NamespaceExportPasses.advance, found]
    rcases ih inner.2.2 with ⟨ended, rfl, rfl⟩ | ⟨next, call, rest, moved, rfl, splits⟩
    · rw [ended]
      obtain ⟨front, back, split⟩ := append_of_mem mem
      obtain ⟨before, after⟩ := around consistent split
      rw [before, after]
      refine .inr ⟨_, none, _, rfl, rfl, ?_⟩
      have splits := @splits_goOn _ entries path name (front ++ [(id, childName, child)]) back consistent
        (by rw [split, append_assoc, singleton_append])
      rw [listed_append] at splits
      simpa [listed] using splits
    · rw [moved]
      refine .inr ⟨_, call, _, rfl, append_assoc .., ?_⟩
      rw [append_assoc]
      exact .inside mem splits

/-! ## What the operations leave of the enumeration -/

/-- Some of the calls are left, or all of them. -/
def Shrinks (strict : Prop) (after before : List Call) : Prop :=
  after <+ before ∧ (strict → after = before)

variable {strict : Prop} {old new : Vnode Callback Nat} {before after : Entries (Vnode Callback Nat)}

lemma shrinks_refl (calls : List Call) : Shrinks strict calls calls := ⟨.refl _, fun _ => rfl⟩

lemma Shrinks.append (first : Shrinks strict past' past) (second : Shrinks strict left' left) :
    Shrinks strict (past' ++ left') (past ++ left) :=
  ⟨first.1.append second.1, fun all => by rw [first.2 all, second.2 all]⟩

lemma Shrinks.trans (first : Shrinks strict left past) (second : Shrinks strict past calls) :
    Shrinks strict left calls :=
  ⟨first.1.trans second.1, fun all => (first.2 all).trans (second.2 all)⟩

/-- A pass splits the new tree like the old one, but for calls that are gone. Nothing is gone
in the strict case. -/
def Follows (strict : Prop) (cursor : Cursor) (path name : Bytes) (old new : Vnode Callback Nat) : Prop :=
  ∀ past left, Splits cursor path name old past left → ∃ past' left',
    Splits cursor path name new past' left' ∧ Shrinks strict past' past ∧ Shrinks strict left' left

lemma follows_refl : Follows strict cursor path name vn vn := fun past left splits =>
  ⟨past, left, splits, shrinks_refl past, shrinks_refl left⟩

/-- Every pass that is still defined does. -/
def Thins (strict : Prop) (old new : Vnode Callback Nat) : Prop :=
  ∀ cursor path name, strict ∨ cursor.stands new = true → Follows strict cursor path name old new

lemma thins_refl : Thins strict vn vn := fun _ _ _ _ => follows_refl

lemma Thins.enumerate (thins : Thins strict old new) :
    Shrinks strict (enumerateInternal path name new) (enumerateInternal path name old) := by
  obtain ⟨_, _, ⟨⟩, -, left⟩ := thins .entered path name (.inr rfl) _ _ .entered
  exact left

/-- The same for the entries of a directory. -/
structure Thinned (strict : Prop) (before after : Entries (Vnode Callback Nat)) : Prop where
  lists : ∀ (some : Nat → Bool) path, Shrinks strict (listed path (after.byId.filter (some ·.1)))
    (listed path (before.byId.filter (some ·.1)))
  same : ∀ id name child name' child', (id, name, child) ∈ before.byId →
    (id, name', child') ∈ after.byId → name' = name ∧ Thins strict child child'
  kept : strict → ∀ id name child, (id, name, child) ∈ before.byId → ∃ child', (id, name, child') ∈ after.byId

lemma Thinned.thins (thinned : Thinned strict before after) :
    Thins strict (.intermediate before) (.intermediate after) := by
  have whole (path) : Shrinks strict (listed path after.byId) (listed path before.byId) := by
    simpa using thinned.lists (fun _ => true) path
  intro cursor path name stands past left splits
  cases splits with
  | entered =>
    refine ⟨_, _, .entered, shrinks_refl _, ?_⟩
    rw [enumerate_intermediate, enumerate_intermediate]
    exact whole _
  | returned =>
    refine ⟨_, _, .returned, ?_, shrinks_refl _⟩
    rw [enumerate_intermediate, enumerate_intermediate]
    exact whole _
  | @inside cursor _ _ past left _ id childName child mem within =>
    have still : ∃ child', (id, childName, child') ∈ after.byId ∧ (strict ∨ cursor.stands child' = true) := by
      rcases stands with all | stands
      · exact (thinned.kept all id childName child mem).imp fun _ mem => ⟨mem, .inl all⟩
      · obtain ⟨⟨_, name', child'⟩, found, stands⟩ := (Option.any_eq_true ..).mp stands
        have mem' := mem_of_find?_eq_some found
        cases (show _ = id by simpa using find?_some found)
        cases (thinned.same _ _ _ _ _ mem mem').1
        exact ⟨child', mem', .inr stands⟩
    obtain ⟨child', mem', stands⟩ := still
    obtain ⟨past', left', splits, past, left⟩ := (thinned.same _ _ _ _ _ mem mem').2 _ _ _ stands _ _ within
    exact ⟨_, _, .inside mem' splits, (thinned.lists (· < id) _).append past,
      left.append (thinned.lists (id < ·) _)⟩

lemma same_entry {id : Nat} (consistent : before.Consistent) (mem : (id, name, old) ∈ before.byId)
    (mem' : (id, name', new) ∈ before.byId) : name' = name ∧ Thins strict old new := by
  cases inj_on_of_nodup_map consistent.ids mem mem' rfl
  exact ⟨rfl, thins_refl⟩

/-- The same children, under the same ids. -/
private lemma thinned_of_byId (consistent : before.Consistent) (same : after.byId = before.byId) :
    Thinned strict before after := by
  refine ⟨fun some path => ?_, fun _ _ _ _ _ mem mem' => ?_, fun _ _ _ child mem => ⟨child, ?_⟩⟩
  · rw [same]
    exact shrinks_refl _
  · rw [same] at mem'
    exact same_entry consistent mem mem'
  · rwa [same]

private lemma shrinks_map {f : Nat × Bytes × Vnode Callback Nat → Nat × Bytes × Vnode Callback Nat}
    (each : ∀ entry ∈ front, Shrinks strict (enumerateInternal path (f entry).2.1 (f entry).2.2)
      (enumerateInternal path entry.2.1 entry.2.2)) :
    Shrinks strict (listed path (front.map f)) (listed path front) := by
  induction front with
  | nil => exact shrinks_refl _
  | cons entry rest ih =>
    rw [forall_mem_cons] at each
    exact each.1.append (ih each.2)

private lemma thinned_update {id : Nat} (consistent : before.Consistent)
    (present : (id, name, old) ∈ before.byId) (thins : Thins strict old new) :
    Thinned strict before (before.update name new) where
  lists some path := by
    have found := consistent.find_eq_some_iff.mpr ⟨old, present⟩
    simp only [Entries.update, found, filter_map, Function.comp_def, Entries.withNode_id]
    refine shrinks_map fun entry mem => ?_
    unfold Entries.withNode
    split
    next same =>
      cases inj_on_of_nodup_map consistent.ids (mem_filter.mp mem).1 present same
      exact thins.enumerate
    · exact shrinks_refl _
  same _ _ _ _ _ mem mem' := by
    rcases (consistent.mem_update present new).mp mem' with same | ⟨mem', -⟩
    · cases same
      cases inj_on_of_nodup_map consistent.ids mem present rfl
      exact ⟨rfl, thins⟩
    · exact same_entry consistent mem mem'
  kept _ id' name' child mem := by
    by_cases here : name' = name
    · cases inj_on_of_nodup_map consistent.distinct mem present here
      exact ⟨new, (consistent.mem_update present new).mpr (.inl rfl)⟩
    · exact ⟨child, (consistent.mem_update present new).mpr (.inr ⟨mem, here⟩)⟩

lemma thinned_addEntry (consistent : before.Consistent)
    (quiet : ∀ path, enumerateInternal path name new = []) :
    Thinned strict before (before.addEntry name new) where
  lists some path := by
    have nothing : listed path ([(before.nextNodeId, name, new)].filter (some ·.1)) = [] := by
      rw [filter_singleton]
      cases some before.nextNodeId with
      | true => exact (append_nil _).trans (quiet path)
      | false => rfl
    rw [Entries.addEntry, filter_append, listed_append, nothing, append_nil]
    exact shrinks_refl _
  same id _ _ _ _ mem mem' := by
    rcases mem_append.mp mem' with mem' | fresh
    · exact same_entry consistent mem mem'
    · cases mem_singleton.mp fresh
      exact absurd (consistent.below _ mem) (Nat.lt_irrefl _)
  kept _ _ _ child mem := ⟨child, mem_append_left _ mem⟩

private lemma thinned_removeEntry (consistent : before.Consistent) (lossy : ¬ strict) :
    Thinned strict before (before.removeEntry name) where
  lists some path := by
    refine ⟨?_, fun all => absurd all lossy⟩
    rw [consistent.byId_removeEntry]
    exact (filter_sublist.filter _).flatMap _
  same _ _ _ _ _ mem mem' := same_entry consistent mem (consistent.mem_removeEntry.mp mem').1
  kept all := absurd all lossy

/-- An operation that does not bind a remote, and that in the strict case is a `Bind`. -/
lemma edits_thin (edits : Edits builder result old new) (sound : Sound old)
    (nothing : ∀ number, builder = .ok (.remote number) → result ≠ .ok ())
    (binds : strict → result = .ok () → ∃ mount, builder = .ok mount) : Thins strict old new := by
  induction edits with
  | same => exact thins_refl
  | child present inside ih =>
    obtain ⟨id, mem⟩ := sound.consistent.lookup_eq_some_iff.mp present
    exact (thinned_update sound.consistent mem (ih (sound.inside present).2.2 nothing binds)).thins
  | @mount mount _ _ missing built =>
    refine (thinned_addEntry sound.consistent fun path => ?_).thins
    cases mount with
    | «local» => rfl
    | remote number => exact absurd rfl (nothing number built)
  | create missing inside ih =>
    refine (thinned_addEntry sound.consistent fun path => ?_).thins
    exact eq_nil_of_sublist_nil (ih sound_empty nothing binds).enumerate.1
  | discard missing => exact (thinned_of_byId sound.consistent (byId_discard sound.consistent missing)).thins
  | remove _ _ none =>
    refine (thinned_removeEntry sound.consistent fun all => ?_).thins
    obtain ⟨mount, built⟩ := binds all rfl
    exact none mount built

lemma Splits.whole (splits : Splits cursor path name vn past left) (sound : Sound vn) :
    past ++ left = enumerateInternal path name vn := by
  induction splits with
  | entered => rfl
  | returned => exact append_nil _
  | @inside _ _ _ _ _ entries id childName child mem within ih =>
    obtain ⟨front, back, split⟩ := append_of_mem mem
    obtain ⟨before, after⟩ := around sound.consistent split
    have inner := ih (sound.inside (sound.consistent.lookup_eq_some_iff.mpr ⟨id, mem⟩)).2.2
    rw [before, after, enumerate_intermediate, split, listed_append, append_assoc,
      ← append_assoc _ _ (listed _ back), inner]
    rfl

/-- As many remotes are enumerated as are in the tree. -/
private lemma length_enumerate (sound : Sound old) (sound' : Sound new)
    (same : ∀ key mount, mountAt key new = some (.remote mount) ↔ mountAt key old = some (.remote mount)) :
    (enumerateInternal path name new).length = (enumerateInternal path name old).length := by
  obtain ⟨keyed, calls, mem, distinct⟩ := exists_lists sound path name
  obtain ⟨keyed', calls', mem', distinct'⟩ := exists_lists sound' path name
  rw [calls, calls', length_map, length_map]
  refine ((perm_ext_iff_of_nodup (List.Nodup.of_map _ distinct') (List.Nodup.of_map _ distinct)).mpr
    fun mount => ?_).length_eq
  rw [mem', mem, same]

private lemma unbind_remotes (sound : Sound vn)
    (kept : (unbind path vn).1 = .ok () → isRemote (mountAt (keyOf path) vn) = false) (key : List Bytes)
    (mount : Nat) :
    mountAt key (unbind path vn).2 = some (.remote mount) ↔ mountAt key vn = some (.remote mount) := by
  rcases @unbind_mounts _ _ _ path sound with ⟨done, removed⟩ | ⟨-, same⟩
  · rw [removed.mounts]
    split
    next here =>
      have bound := kept done
      subst here
      refine iff_of_false (by simp) fun found => ?_
      rw [found] at bound
      cases bound
    · exact Iff.rfl
  · rw [same]

end Passes

/-! ## Whole runs -/

section Runs

variable {createRemoteVnode : Channel → Except Status Unit} {strict : Prop} {st next : State Callback}
  {after : Vnode Callback Nat}

/-- How far the passes are. What is past of the tree as it is was counted, and what is stored
and left of it was counted; in the strict case nothing else was. -/
def Progress (strict : Prop) (st : State Callback) : Prop :=
  match st.pass with
  | .counting cursor => st.stored = [] ∧
    ∃ past left, Splits cursor [slash] st.rootName st.exported past left ∧
      Shrinks strict past st.counted
  | .filling cursor => ∃ past left, Splits cursor [slash] st.rootName st.exported past left ∧
    Shrinks strict (st.stored ++ left) st.counted
  | .astray => False
  | .returned result => Shrinks (strict ∧ result = .ok ()) st.stored st.counted

structure Inv (strict : Prop) (st : State Callback) : Prop where
  sound : Sound st.exported
  progress : Progress strict st

/-- The running pass, if there is one, follows to the new tree. -/
def Safe (strict : Prop) (st : State Callback) (after : Vnode Callback Nat) : Prop :=
  ∀ cursor ∈ st.pass.cursor?, Follows strict cursor [slash] st.rootName st.exported after

lemma safe_refl : Safe strict st st.exported := fun _ _ => follows_refl

lemma inv_change (inv : Inv strict st) (sound : Sound after) (safe : Safe strict st after) :
    Inv strict { st with exported := after, elsewhere := elsewhere, created := created } := by
  obtain ⟨-, progress⟩ := inv
  refine ⟨sound, ?_⟩
  obtain ⟨rootName, exported, _, _, pass, counted, stored⟩ := st
  cases pass with
  | counting cursor =>
    obtain ⟨empty, past, left, splits, shrinks⟩ := progress
    obtain ⟨past', left', splits, fewer, -⟩ := safe cursor rfl past left splits
    exact ⟨empty, past', left', splits, fewer.trans shrinks⟩
  | filling cursor =>
    obtain ⟨past, left, splits, shrinks⟩ := progress
    obtain ⟨past', left', splits, -, fewer⟩ := safe cursor rfl past left splits
    exact ⟨past', left', splits, ((shrinks_refl stored).append fewer).trans shrinks⟩
  | astray | returned => exact progress

/-- An operation of another thread is safe, or it does not change the tree. -/
lemma inv_operate {path : Bytes} {operate : Vnode Callback Nat → Except Status Unit × Vnode Callback Nat}
    (inv : Inv strict st) (sound : Sound (operate st.exported).2)
    (safe : st.elsewhere.isNone = true → ¬ ((operate st.exported).1 = .ok () ∧ path.tail = []) →
      Safe strict st (operate st.exported).2) : Inv strict (change st path created operate) := by
  unfold change
  split
  · exact inv_change inv inv.sound safe_refl
  next here =>
    split
    · exact inv_change inv inv.sound safe_refl
    next inner => exact inv_change inv sound (safe (by rw [here]; rfl) inner)

/-- A `Bind` of a local, or one that fails. -/
lemma bind_safe (sound : Sound st.exported)
    (inner : ¬ ((Namespace.bind builder path st.exported).1 = .ok () ∧ path.tail = []))
    (nothing : st.pass.cursor?.isSome = true → ∀ number, builder = .ok (.remote number) →
      (Namespace.bind builder path st.exported).1 ≠ .ok ()) :
    Safe strict st (Namespace.bind builder path st.exported).2 := by
  intro cursor running past left splits
  have edits := (bind_edits builder path st.exported).resolve_right fun top => inner top.1
  have thins : Thins True st.exported (Namespace.bind builder path st.exported).2 := by
    refine edits_thin edits sound (nothing (by rw [running]; rfl)) fun _ done => ?_
    rcases bind_mounts builder path sound with ⟨mount, built, -, -⟩ | ⟨failed, -⟩
    · exact ⟨mount, built⟩
    · exact absurd done failed
  obtain ⟨past', left', splits, one, two⟩ := thins cursor _ _ (.inl trivial) past left splits
  exact ⟨past', left', splits, ⟨one.1, fun _ => one.2 trivial⟩, ⟨two.1, fun _ => two.2 trivial⟩⟩

private lemma unbind_safe (sound : Sound st.exported) (here : st.elsewhere.isNone = true)
    (inner : ¬ ((unbind path st.exported).1 = .ok () ∧ path.tail = []))
    (calm : Calm createRemoteVnode st (.unbind path))
    (lossless : strict → Lossless st (.unbind path : Label Callback Channel)) :
    Safe strict st (unbind path st.exported).2 := by
  intro cursor running past left splits
  have affects : (unbind path st.exported).1 = .ok () → Affects st path (unbind path st.exported).1 :=
    fun done => ⟨by rw [running]; rfl, here, fun top => inner ⟨done, top⟩, done⟩
  have edits := (unbind_edits path st.exported).resolve_right fun top => inner top.1
  have thins : Thins False st.exported (unbind path st.exported).2 :=
    edits_thin edits sound nofun False.elim
  rcases @unbind_mounts _ _ _ path sound with ⟨done, -⟩ | ⟨-, same⟩
  · obtain ⟨past', left', splits', one, two⟩ :=
      thins cursor _ _ (.inr (calm (affects done) cursor running)) past left splits
    have sound' : Sound (unbind path st.exported).2 := (unbind_keeps sound).1
    have all : strict → past' = past ∧ left' = left := fun noLoss => by
      -- if no remote is gone, then no call is
      have length := @length_enumerate _ [slash] st.rootName _ _ sound sound' (unbind_remotes sound fun done =>
        lossless noLoss (affects done))
      rw [← splits.whole sound, ← splits'.whole sound', length_append, length_append] at length
      have fewer := one.1.length_le
      have fewer' := two.1.length_le
      exact ⟨one.1.eq_of_length (by omega), two.1.eq_of_length (by omega)⟩
    exact ⟨past', left', splits', ⟨one.1, fun noLoss => (all noLoss).1⟩, ⟨two.1, fun noLoss => (all noLoss).2⟩⟩
  · rw [same]
    exact safe_refl cursor running past left splits

private lemma inv_visit (inv : Inv strict st) {cloned : Except Status Unit}
    (lossless : strict → cloned = .ok ())
    (moved : step createRemoteVnode st (.visit cloned) = some next) : Inv strict next := by
  obtain ⟨sound, progress⟩ := inv
  obtain ⟨rootName, exported, _, _, pass, counted, stored⟩ := st
  cases pass with
  | astray | returned => cases moved
  | counting cursor =>
    obtain ⟨empty, past, left, splits, shrinks⟩ := progress
    simp only [step, visit] at moved
    rcases splits.advance sound with ⟨ended, -⟩ | ⟨next, call, rest, advanced, -, splits⟩
    · rw [ended] at moved
      cases moved
    · rw [advanced] at moved
      cases moved
      exact ⟨sound, empty, _, _, splits, shrinks.append (shrinks_refl _)⟩
  | filling cursor =>
    obtain ⟨past, left, splits, shrinks⟩ := progress
    simp only [step, visit] at moved
    rcases splits.advance sound with ⟨ended, -⟩ | ⟨next, call, rest, advanced, rfl, splits'⟩
    · rw [ended] at moved
      cases moved
    · rw [advanced] at moved
      cases moved
      refine ⟨sound, _, _, splits', ?_⟩
      dsimp only
      split
      · rwa [append_assoc]
      next failed =>
        refine Shrinks.trans ((shrinks_refl stored).append ⟨sublist_append_right .., fun noLoss => ?_⟩) shrinks
        exact absurd (lossless noLoss) failed

lemma inv_step (inv : Inv strict st) (label : Label Callback Channel)
    (calm : Calm createRemoteVnode st label) (lossless : strict → Lossless st label)
    (moved : step createRemoteVnode st label = some next) : Inv strict next := by
  have sound := inv.sound
  cases label with
  | bindRemote path client =>
    cases moved
    cases client with
    | none => exact inv_operate inv sound fun _ _ => safe_refl
    | some channel =>
      refine inv_operate inv (bind_keeps _ path sound).1 fun here inner => ?_
      refine bind_safe sound inner fun running _ _ done => ?_
      exact calm ⟨running, here, fun top => inner ⟨done, top⟩, done⟩
  | bindLocal path onOpen =>
    cases moved
    exact inv_operate inv (bind_keeps _ path sound).1 fun _ inner =>
      bind_safe sound inner fun _ _ built => by cases built
  | unbind path =>
    cases moved
    exact inv_operate inv (unbind_keeps sound).1 fun here inner =>
      unbind_safe sound here inner calm lossless
  | visit cloned => exact inv_visit inv lossless moved
  | allocate allocated =>
    obtain ⟨-, progress⟩ := inv
    obtain ⟨rootName, exported, _, _, pass, counted, stored⟩ := st
    simp only [step] at moved
    split at moved <;> cases moved
    obtain ⟨rfl, _, _, ⟨⟩, shrinks⟩ := progress
    cases allocated with
    | true => exact ⟨sound, [], _, .entered, shrinks⟩
    | false => exact ⟨sound, nil_sublist _, nofun⟩
  | finish =>
    obtain ⟨-, progress⟩ := inv
    obtain ⟨rootName, exported, _, _, pass, counted, stored⟩ := st
    simp only [step] at moved
    split at moved <;> cases moved
    obtain ⟨_, _, ⟨⟩, shrinks⟩ := progress
    rw [append_nil] at shrinks
    exact ⟨sound, shrinks.1, fun all => shrinks.2 all.1⟩

lemma Inv.within (inv : Inv strict st) : Within st := by
  have room : ∀ {calls others : List Call}, calls <+ others →
      calls.length ≤ others.length ∧ pathBytes calls ≤ pathBytes others := fun fewer =>
    ⟨fewer.length_le, (fewer.map _).sum_le_sum fun _ _ => Nat.zero_le _⟩
  obtain ⟨-, progress⟩ := inv
  obtain ⟨rootName, exported, _, _, pass, counted, stored⟩ := st
  cases pass with
  | counting =>
    obtain ⟨rfl, -⟩ := progress
    exact ⟨nofun, Nat.zero_le _, Nat.zero_le _⟩
  | filling =>
    obtain ⟨_, _, -, shrinks⟩ := progress
    obtain ⟨entries, paths⟩ := room ((sublist_append_left ..).trans shrinks.1)
    exact ⟨nofun, entries, paths⟩
  | astray => exact progress.elim
  | returned =>
    obtain ⟨entries, paths⟩ := room progress.1
    exact ⟨nofun, entries, paths⟩

/-- The array holds what is stored if no remote comes into the tree and no vnode leaves it
under a pass, and it is full on success if in addition no remote is lost. -/
theorem export_bounded (operations : List (NamespaceExport.Operation Callback Channel))
    (labels : List (Label Callback Channel))
    (calm : Machine.Admissible (step createRemoteVnode) (Calm createRemoteVnode)
      (begin (stateAfter createRemoteVnode operations)) labels)
    (ran : Machine.run (step createRemoteVnode) (begin (stateAfter createRemoteVnode operations)) labels =
      some final) :
    Within final ∧ (Machine.Admissible (step createRemoteVnode) Lossless
      (begin (stateAfter createRemoteVnode operations)) labels → Bounded final) := by
  have begun : ∀ strict, Inv strict (begin (stateAfter createRemoteVnode operations)) := fun _ =>
    ⟨inv_stateAfter.sound, rfl, [], _, .entered, shrinks_refl _⟩
  constructor
  · have inv : Inv False final := Machine.run_invariant
      (fun _ label _ inv calm => inv_step inv label calm False.elim) (begun False) calm ran
    exact inv.within
  · intro lossless
    have inv : Inv True final := @Machine.run_invariant _ _ _ _
      (fun st label => Calm createRemoteVnode st label ∧ Lossless st label) _ _ _
      (fun _ label _ inv both => inv_step inv label both.1 fun _ => both.2)
      (begun True) (Machine.along_and calm lossless) ran
    refine ⟨inv.within, fun done => ?_⟩
    have progress := inv.progress
    simp only [Progress, done] at progress
    rw [progress.2 ⟨trivial, trivial⟩]

/-- A pass over a root with so many children. -/
def passOver (children : Nat) : List (Label Unit Unit) :=
  List.replicate (2 * children + 1) (.visit (.ok ()))

/-- A remote at `/a`. -/
def mounted : State Unit := begin (stateAfter (fun _ : Unit => .ok ()) [.bindRemote shallow (some ())])

/-- A local comes to `/b` between the passes, and goes while the filling pass is at `/a`. -/
def withLocal : List (Label Unit Unit) :=
  passOver 1 ++ .allocate true :: .bindLocal [slash, 0x62] () :: List.replicate 2 (.visit (.ok ())) ++
    .unbind [slash, 0x62] :: List.replicate 1 (.visit (.ok ())) ++ [.finish]

theorem export_bounded_local :
    ∃ final, Machine.run (step fun _ : Unit => .ok ()) mounted withLocal = some final ∧
      final.pass = .returned (.ok ()) ∧ final.stored.length = 1 ∧ Bounded final :=
  ⟨_, rfl, rfl, rfl, (@export_bounded Unit Unit (fun _ => .ok ()) _ [.bindRemote shallow (some ())]
    withLocal (by decide) rfl).2 (by decide)⟩

/-- Remotes at `/a` before `Export` begins and at `/b` between its two passes. And an
`Unbind` of `/a` while the counting pass is there. -/
theorem export_overruns :
    (∃ final, Machine.run (step fun _ : Unit => .ok ()) mounted
        (passOver 1 ++ .allocate true :: .bindRemote [slash, 0x62] (some ()) :: passOver 2 ++ [.finish]) =
          some final ∧
      final.pass = .returned (.ok ()) ∧ final.counted.length = 1 ∧ final.stored.length = 2 ∧
      ¬ Bounded final) ∧
    ∃ final, Machine.run (step fun _ : Unit => .ok ()) mounted
        [.visit (.ok ()), .unbind shallow, .visit (.ok ())] = some final ∧ ¬ Within final :=
  ⟨⟨_, rfl, rfl, rfl, rfl, fun bounded => absurd bounded.entries (by decide)⟩,
    _, rfl, fun within => within.defined rfl⟩

end Runs

end FuchsiaSdk.NamespaceExportPasses
