import FuchsiaSdk.CleanPath
import FuchsiaSdk.PrefixMap
import Mathlib.Data.List.Nodup

/-! Vnodes of an `fdio_namespace` (`fdio/namespace/local-vnode.h`,
`local-vnode.cc`). An `Intermediate` keeps its children in two trees, one by
name and one by id; each is the list of its entries in the order of insertion.
The tree by id owns the entries, the one by name refers to them. -/
namespace FuchsiaSdk.LocalVnode
open CleanPath List

/-- The maps of an `Intermediate` over a type of vnodes. -/
structure Entries (V : Type) where
  nextNodeId : Nat := 1
  byName : List (Bytes × Nat) := []
  byId : List (Nat × Bytes × V) := []

namespace Entries

variable {V : Type}

def find (entries : Entries V) (name : Bytes) : Option Nat :=
  (entries.byName.find? fun entry => entry.1 == name).map Prod.snd

def lookup (entries : Entries V) (name : Bytes) : Option V :=
  (entries.find name).bind fun id =>
    (entries.byId.find? fun entry => entry.1 == id).map fun entry => entry.2.2

def addEntry (entries : Entries V) (name : Bytes) (vn : V) : Entries V where
  nextNodeId := entries.nextNodeId + 1
  byName := entries.byName ++ [(name, entries.nextNodeId)]
  byId := entries.byId ++ [(entries.nextNodeId, name, vn)]

def removeEntry (entries : Entries V) (name : Bytes) : Entries V :=
  match entries.find name with
  | none => entries
  | some id =>
    { entries with
      byName := entries.byName.eraseP fun entry => entry.1 == name
      byId := entries.byId.eraseP fun entry => entry.1 == id }

def withNode (id : Nat) (vn : V) (entry : Nat × Bytes × V) : Nat × Bytes × V :=
  if entry.1 = id then (entry.1, entry.2.1, vn) else entry

/-- The child of that name has changed in place. -/
def update (entries : Entries V) (name : Bytes) (vn : V) : Entries V :=
  match entries.find name with
  | none => entries
  | some id => { entries with byId := entries.byId.map (withNode id vn) }

/-- `GetEntriesById().size()`. -/
def size (entries : Entries V) : Nat := entries.byId.length

/-! ## The two maps hold the same children -/

structure Consistent (entries : Entries V) : Prop where
  indexed : entries.byName = entries.byId.map fun entry => (entry.2.1, entry.1)
  increasing : (entries.byId.map Prod.fst).Pairwise (· < ·)
  below : ∀ entry ∈ entries.byId, entry.1 < entries.nextNodeId
  distinct : (entries.byId.map fun entry => entry.2.1).Nodup

variable {entries : Entries V} {name other : Bytes} {vn : V} {id : Nat}

lemma consistent_empty : Consistent ({} : Entries V) :=
  ⟨rfl, List.Pairwise.nil, by simp, nodup_nil⟩

/-- Where keys are distinct, a search by key finds the one entry that has it. -/
lemma find?_key_iff {α κ : Type} [BEq κ] [LawfulBEq κ] (key : α → κ) {list : List α}
    {found : α} {k : κ} (distinct : (list.map key).Nodup) :
    list.find? (fun entry => key entry == k) = some found ↔ found ∈ list ∧ key found = k := by
  constructor
  · intro located
    exact ⟨mem_of_find?_eq_some located, by simpa using find?_some located⟩
  · rintro ⟨mem, rfl⟩
    cases located : list.find? fun entry => key entry == key found with
    | none => simpa using find?_eq_none.mp located found mem
    | some entry =>
      have same : key entry = key found := by simpa using find?_some located
      rw [inj_on_of_nodup_map distinct (mem_of_find?_eq_some located) mem same]

section

variable (consistent : entries.Consistent)
include consistent

lemma Consistent.ids : (entries.byId.map Prod.fst).Nodup :=
  consistent.increasing.imp Nat.ne_of_lt

lemma Consistent.find_eq_some_iff : entries.find name = some id ↔ ∃ vn, (id, name, vn) ∈ entries.byId := by
  have key := @find?_key_iff _ _ _ _ (fun entry : Nat × Bytes × V => entry.2.1) entries.byId
  unfold find
  rw [consistent.indexed, find?_map, Option.map_map, Option.map_eq_some_iff]
  constructor
  · rintro ⟨entry, located, rfl⟩
    obtain ⟨mem, rfl⟩ := (key consistent.distinct).mp located
    exact ⟨entry.2.2, mem⟩
  · rintro ⟨vn, mem⟩
    exact ⟨_, (key consistent.distinct).mpr ⟨mem, rfl⟩, rfl⟩

lemma Consistent.lookup_eq_some_iff :
    entries.lookup name = some vn ↔ ∃ id, (id, name, vn) ∈ entries.byId := by
  have key := @find?_key_iff _ _ _ _ (fun entry : Nat × Bytes × V => entry.1) entries.byId
  unfold lookup
  rw [Option.bind_eq_some_iff]
  constructor
  · rintro ⟨id, found, looked⟩
    obtain ⟨entry, located, rfl⟩ := Option.map_eq_some_iff.mp looked
    obtain ⟨vn, mem⟩ := consistent.find_eq_some_iff.mp found
    obtain ⟨here, same⟩ := (key consistent.ids).mp located
    have only := inj_on_of_nodup_map consistent.ids here mem same
    exact ⟨id, by rw [only]; exact mem⟩
  · rintro ⟨id, mem⟩
    refine ⟨id, consistent.find_eq_some_iff.mpr ⟨vn, mem⟩, ?_⟩
    rw [(key consistent.ids).mpr ⟨mem, rfl⟩]
    rfl

lemma Consistent.lookup_eq_none
    (missing : entries.lookup name = none) : ∀ entry ∈ entries.byId, entry.2.1 ≠ name := by
  rintro ⟨id, _, _⟩ mem rfl
  have found := consistent.lookup_eq_some_iff.mpr ⟨id, mem⟩
  rw [missing] at found
  cases found

lemma Consistent.addEntry
    (missing : entries.lookup name = none) (vn : V) : (entries.addEntry name vn).Consistent where
  indexed := by simp [Entries.addEntry, consistent.indexed]
  increasing := by
    simp only [Entries.addEntry, map_append, map_cons, map_nil]
    rw [pairwise_append]
    refine ⟨consistent.increasing, pairwise_singleton _ _, ?_⟩
    intro _ mem last same
    obtain ⟨entry, here, rfl⟩ := mem_map.mp mem
    rw [mem_singleton.mp same]
    exact consistent.below entry here
  below := by
    intro entry mem
    rcases mem_append.mp mem with mem | mem
    · exact Nat.lt_succ_of_lt (consistent.below entry mem)
    · rw [mem_singleton.mp mem]
      exact Nat.lt_succ_self _
  distinct := by
    simp only [Entries.addEntry, map_append, map_cons, map_nil]
    rw [nodup_append]
    refine ⟨consistent.distinct, nodup_singleton _, ?_⟩
    intro _ mem last same
    obtain ⟨entry, here, rfl⟩ := mem_map.mp mem
    rw [mem_singleton.mp same]
    exact consistent.lookup_eq_none missing entry here

lemma Consistent.lookup_addEntry (missing : entries.lookup name = none) (vn : V) (other : Bytes) :
    (entries.addEntry name vn).lookup other = if other = name then some vn else entries.lookup other := by
  have after := consistent.addEntry missing vn
  apply Option.ext
  intro _
  rw [after.lookup_eq_some_iff]
  split
  next same =>
    subst same
    constructor
    · rintro ⟨_, mem⟩
      rcases mem_append.mp mem with mem | mem
      · exact absurd rfl (consistent.lookup_eq_none missing _ mem)
      · obtain ⟨-, rfl⟩ := by simpa using mem
        rfl
    · rintro same
      cases same
      exact ⟨entries.nextNodeId, by simp [Entries.addEntry]⟩
  next apart =>
    rw [consistent.lookup_eq_some_iff]
    simp [Entries.addEntry, apart]

end

@[simp] lemma withNode_id (entry : Nat × Bytes × V) : (withNode id vn entry).1 = entry.1 := by
  unfold withNode
  split <;> rfl

@[simp] lemma withNode_name (entry : Nat × Bytes × V) : (withNode id vn entry).2.1 = entry.2.1 := by
  unfold withNode
  split <;> rfl

lemma Consistent.update (consistent : entries.Consistent) (name : Bytes) (vn : V) :
    (entries.update name vn).Consistent := by
  unfold Entries.update
  split
  · exact consistent
  refine ⟨?_, ?_, ?_, ?_⟩
  · simp [consistent.indexed, Function.comp_def]
  · simpa [Function.comp_def] using consistent.increasing
  · intro _ mem
    obtain ⟨before, here, rfl⟩ := mem_map.mp mem
    simpa using consistent.below before here
  · simpa [Function.comp_def] using consistent.distinct

lemma Consistent.mem_update (consistent : entries.Consistent)
    (present : (id, name, old) ∈ entries.byId) (vn : V) : entry ∈ (entries.update name vn).byId ↔
      entry = (id, name, vn) ∨ entry ∈ entries.byId ∧ entry.2.1 ≠ name := by
  have found := consistent.find_eq_some_iff.mpr ⟨old, present⟩
  simp only [Entries.update, found, mem_map, withNode]
  constructor
  · rintro ⟨_, mem, rfl⟩
    split
    next same =>
      have only := inj_on_of_nodup_map consistent.ids mem present same
      exact Or.inl (by rw [only])
    next apart =>
      refine Or.inr ⟨mem, fun same => apart ?_⟩
      have only := inj_on_of_nodup_map consistent.distinct mem present same
      rw [only]
  · rintro (rfl | ⟨mem, apart⟩)
    · exact ⟨_, present, if_pos rfl⟩
    · refine ⟨entry, mem, if_neg fun same => apart ?_⟩
      have only := inj_on_of_nodup_map consistent.ids mem present same
      rw [only]

lemma Consistent.lookup_update (consistent : entries.Consistent)
    (present : entries.lookup name = some old) (vn : V) (other : Bytes) :
    (entries.update name vn).lookup other = if other = name then some vn else entries.lookup other := by
  have after := consistent.update name vn
  obtain ⟨id, present⟩ := consistent.lookup_eq_some_iff.mp present
  apply Option.ext
  intro _
  simp only [after.lookup_eq_some_iff, consistent.mem_update present]
  split
  next same =>
    subst same
    constructor
    · rintro ⟨_, same | ⟨-, apart⟩⟩
      · cases same
        rfl
      · exact absurd rfl apart
    · rintro same
      cases same
      exact ⟨id, Or.inl rfl⟩
  next apart =>
    rw [consistent.lookup_eq_some_iff]
    simp [apart]

/-- Where keys are distinct, erasing the first entry of a key erases all. -/
lemma eraseP_key {α κ : Type} [BEq κ] [LawfulBEq κ] (key : α → κ) {k : κ} {list : List α}
    (distinct : (list.map key).Nodup) :
    list.eraseP (fun entry => key entry == k) = list.filter fun entry => key entry != k := by
  induction list with
  | nil => rfl
  | cons first _ inductive_step =>
    obtain ⟨fresh, distinct⟩ := nodup_cons.mp distinct
    by_cases same : key first = k
    · subst same
      rw [eraseP_cons_of_pos (by simp), filter_cons_of_neg (by simp)]
      refine (filter_eq_self.mpr fun entry mem => ?_).symm
      have apart : key entry ≠ key first := fun same =>
        fresh (same ▸ mem_map_of_mem mem)
      simpa using apart
    · rw [eraseP_cons_of_neg (by simpa using same), filter_cons_of_pos (by simpa using same),
        inductive_step distinct]

section

variable (consistent : entries.Consistent)
include consistent

lemma Consistent.byId_removeEntry (name : Bytes) :
    (entries.removeEntry name).byId = entries.byId.filter fun entry => entry.2.1 != name := by
  unfold Entries.removeEntry
  split
  next missing =>
    refine (filter_eq_self.mpr fun entry mem => ?_).symm
    have apart : entry.2.1 ≠ name := by
      rintro rfl
      have found := consistent.find_eq_some_iff.mpr ⟨entry.2.2, mem⟩
      rw [missing] at found
      cases found
    simpa using apart
  next id found =>
    obtain ⟨_, present⟩ := consistent.find_eq_some_iff.mp found
    rw [eraseP_key Prod.fst consistent.ids]
    apply filter_congr
    intro entry mem
    have same : entry.1 = id ↔ entry.2.1 = name := by
      constructor
      · intro same
        rw [inj_on_of_nodup_map consistent.ids mem present same]
      · intro same
        rw [inj_on_of_nodup_map consistent.distinct mem present same]
    simp only [bne, Bool.beq_eq_decide_eq, same]

lemma Consistent.removeEntry (name : Bytes) : (entries.removeEntry name).Consistent := by
  have kept := consistent.byId_removeEntry name
  have fewer : (entries.removeEntry name).byId.Sublist entries.byId := by
    rw [kept]
    exact filter_sublist
  refine ⟨?_, consistent.increasing.sublist (fewer.map _), ?_,
    consistent.distinct.sublist (fewer.map _)⟩
  · rw [kept, ← eraseP_key (fun entry : Nat × Bytes × V => entry.2.1) consistent.distinct]
    have indexed := consistent.indexed
    unfold Entries.removeEntry
    split
    next missing =>
      rw [indexed, eraseP_of_forall_not]
      intro entry mem same
      have found := consistent.find_eq_some_iff.mpr ⟨entry.2.2, mem⟩
      rw [eq_of_beq same, missing] at found
      cases found
    · simp only [indexed, eraseP_map]
      rfl
  · intro entry mem
    have below := consistent.below entry (fewer.mem mem)
    unfold Entries.removeEntry
    split <;> exact below

lemma Consistent.mem_removeEntry :
    entry ∈ (entries.removeEntry name).byId ↔ entry ∈ entries.byId ∧ entry.2.1 ≠ name := by
  rw [consistent.byId_removeEntry]
  simp

lemma Consistent.lookup_removeEntry (other : Bytes) : (entries.removeEntry name).lookup other =
      if other = name then none else entries.lookup other := by
  have after := consistent.removeEntry name
  apply Option.ext
  intro _
  simp only [after.lookup_eq_some_iff, consistent.mem_removeEntry]
  split
  next same => simp [same]
  next apart =>
    rw [consistent.lookup_eq_some_iff]
    simp [apart]

lemma Consistent.lookup_of_size (nonempty : entries.size ≠ 0) : ∃ name vn, entries.lookup name = some vn := by
  obtain ⟨⟨id, name, vn⟩, mem⟩ :=
    exists_mem_of_length_pos (Nat.pos_of_ne_zero nonempty)
  exact ⟨name, vn, consistent.lookup_eq_some_iff.mpr ⟨id, mem⟩⟩

lemma Consistent.size_pos (present : entries.lookup name = some vn) : 0 < entries.size := by
  obtain ⟨_, mem⟩ := consistent.lookup_eq_some_iff.mp present
  exact length_pos_of_mem mem

lemma Consistent.only (single : ¬entries.size > 1)
    (first : entries.lookup name = some vn) (second : entries.lookup other = some vn') : other = name := by
  obtain ⟨_, first⟩ := consistent.lookup_eq_some_iff.mp first
  obtain ⟨id', second⟩ := consistent.lookup_eq_some_iff.mp second
  have one : entries.byId.length = 1 :=
    Nat.le_antisymm (Nat.not_lt.mp single) (length_pos_of_mem first)
  obtain ⟨_, alone⟩ := length_eq_one_iff.mp one
  rw [alone] at first second
  cases (mem_singleton.mp second).trans (mem_singleton.mp first).symm
  rfl

end

lemma size_update (name : Bytes) (vn : V) : (entries.update name vn).size = entries.size := by
  unfold update
  split
  · rfl
  · exact length_map ..

lemma size_removeEntry (several : entries.size > 1) : (entries.removeEntry name).size ≠ 0 := by
  unfold removeEntry size at *
  split
  · omega
  · rw [length_eraseP]
    split <;> omega

end Entries

/-- `LocalVnode::NodeType`: a `Local` with its open callback, an
`Intermediate`, or a `Remote` with its storage. -/
inductive Vnode (Callback Storage : Type) where
  | local (onOpen : Callback)
  | intermediate (entries : Entries (Vnode Callback Storage))
  | remote (storage : Storage)

/-- What a bind puts into the tree. -/
inductive Mount (Callback Storage : Type) where
  | local (onOpen : Callback)
  | remote (storage : Storage)
  deriving DecidableEq, Repr

variable {Callback Storage : Type}

def Mount.node : Mount Callback Storage → Vnode Callback Storage
  | .local onOpen => .local onOpen
  | .remote storage => .remote storage

namespace Vnode

def mount? : Vnode Callback Storage → Option (Mount Callback Storage)
  | .local onOpen => some (.local onOpen)
  | .intermediate _ => none
  | .remote storage => some (.remote storage)

def lookup : Vnode Callback Storage → Bytes → Option (Vnode Callback Storage)
  | .intermediate entries, name => entries.lookup name
  | _, _ => none

/-- The mount at the end of a list of names. -/
def mountAt : List Bytes → Vnode Callback Storage → Option (Mount Callback Storage)
  | [], vn => vn.mount?
  | name :: rest, vn => (vn.lookup name).bind (mountAt rest)

/-- A mount, or an `Intermediate` that has children. -/
def Occupied : Vnode Callback Storage → Prop
  | .intermediate entries => entries.size ≠ 0
  | _ => True

@[simp] lemma occupied_intermediate :
    (intermediate entries).Occupied ↔ entries.size ≠ 0 := Iff.rfl

/-- `NAME_MAX`. -/
def nameMax : Nat := 255

/-- The maps of every `Intermediate` agree, and only the top one may be without
children. -/
inductive Sound : Vnode Callback Storage → Prop
  | local (onOpen : Callback) : Sound (.local onOpen)
  | remote (storage : Storage) : Sound (.remote storage)
  | intermediate {entries : Entries (Vnode Callback Storage)} (consistent : entries.Consistent)
      (names : ∀ name child, entries.lookup name = some child → name.length ≤ nameMax)
      (occupied : ∀ name child, entries.lookup name = some child → child.Occupied)
      (sound : ∀ name child, entries.lookup name = some child → Sound child) :
      Sound (.intermediate entries)

variable {vn child : Vnode Callback Storage} {mount : Mount Callback Storage}
  {entries : Entries (Vnode Callback Storage)} {name : Bytes} {key rest other : List Bytes}

lemma mountAt_cons : mountAt (name :: rest) vn = (vn.lookup name).bind (mountAt rest) := rfl

lemma mountAt_node (mount : Mount Callback Storage) (key : List Bytes) :
    mountAt key mount.node = if key = [] then some mount else none := by
  cases key with
  | nil | cons => cases mount <;> rfl

lemma sound_node : Sound mount.node := by
  cases mount with
  | «local» onOpen => exact .local onOpen
  | remote storage => exact .remote storage

lemma occupied_node : mount.node.Occupied := by
  cases mount <;> trivial

/-- A vnode that is occupied has a mount below it. -/
lemma Sound.exists_mount (sound : Sound vn) (occupied : vn.Occupied) :
    ∃ key mount, mountAt key vn = some mount := by
  induction sound with
  | «local» onOpen => exact ⟨[], .local onOpen, rfl⟩
  | remote storage => exact ⟨[], .remote storage, rfl⟩
  | @intermediate _ consistent _ inside sound ih =>
    obtain ⟨name, child, present⟩ := consistent.lookup_of_size occupied
    obtain ⟨key, mount, found⟩ := ih name child present (inside name child present)
    exact ⟨name :: key, mount, by rw [mountAt_cons, lookup, present]; exact found⟩

/-- No mount lies on the way to a key or below it. -/
def ClearAt (vn : Vnode Callback Storage) (key : List Bytes) : Prop :=
  ∀ other mount, mountAt other vn = some mount → Apart key other

lemma clearAt_node (mount : Mount Callback Storage) : ¬ClearAt mount.node key := by
  intro clear
  have apart := clear [] mount (by rw [mountAt_node]; rfl)
  exact apart.2 nil_prefix

lemma clearAt_missing (missing : entries.lookup name = none) (rest : List Bytes) :
    ClearAt (.intermediate entries) (name :: rest) := by
  intro other _ found
  cases other with
  | nil => cases found
  | cons head =>
    have apart : name ≠ head := by
      rintro rfl
      rw [mountAt_cons, lookup, missing] at found
      cases found
    exact ⟨fun within => apart (cons_prefix_cons.mp within).1,
      fun within => apart (cons_prefix_cons.mp within).1.symm⟩

lemma clearAt_present (present : entries.lookup name = some child) :
    ClearAt (.intermediate entries) (name :: rest) ↔ ClearAt child rest := by
  constructor
  · intro clear other mount found
    have apart := clear (name :: other) mount (by rw [mountAt_cons, lookup, present]; exact found)
    simpa [Apart] using apart
  · intro clear other mount found
    cases other with
    | nil => cases found
    | cons head tail =>
      by_cases same : name = head
      · subst same
        rw [mountAt_cons, lookup, present] at found
        simpa [Apart] using clear tail mount found
      · simp [Apart, same, Ne.symm same]

/-- A child that exists stands in the way of its own name. -/
lemma Sound.not_clearAt (sound : Sound vn) (occupied : vn.Occupied) : ¬ClearAt vn [] := by
  intro clear
  obtain ⟨key, mount, found⟩ := sound.exists_mount occupied
  exact (clear key mount found).1 nil_prefix

/-! ## One child replaced -/

/-- The two maps differ at most in what they hold under one name. -/
structure Replaced (name : Bytes) (replacement : Option (Vnode Callback Storage))
    (entries after : Entries (Vnode Callback Storage)) : Prop where
  consistent : after.Consistent
  lookup : ∀ other, after.lookup other = if other = name then replacement else entries.lookup other

variable {replacement : Option (Vnode Callback Storage)}
  {after : Entries (Vnode Callback Storage)}

section

variable (replaced : Replaced name replacement entries after)
include replaced

lemma Replaced.sound (sound : Sound (.intermediate entries)) (fresh : ∀ child, replacement = some child →
      name.length ≤ nameMax ∧ child.Occupied ∧ Sound child) : Sound (.intermediate after) := by
  cases sound with
  | intermediate consistent names occupied inside =>
    have all : ∀ other child, after.lookup other = some child →
        other.length ≤ nameMax ∧ child.Occupied ∧ Sound child := by
      intro other child found
      rw [replaced.lookup] at found
      split at found
      next same =>
        rw [same]
        exact fresh child found
      · exact ⟨names other child found, occupied other child found, inside other child found⟩
    exact .intermediate replaced.consistent (fun other child found => (all other child found).1)
      (fun other child found => (all other child found).2.1)
      fun other child found => (all other child found).2.2

lemma Replaced.mountAt (key : List Bytes) : mountAt key (.intermediate after) =
      if key.head? = some name then replacement.bind (Vnode.mountAt key.tail)
      else Vnode.mountAt key (.intermediate entries) := by
  cases key with
  | nil => rfl
  | cons _ tail =>
    simp only [mountAt_cons, Vnode.lookup, replaced.lookup, head?_cons, Option.some.injEq,
      tail_cons]
    split <;> rfl

/-- If one mount changes below the name, that is all that changes. -/
lemma Replaced.mounts (inside : ∀ tail, replacement.bind (Vnode.mountAt tail) =
      if tail = rest then result else (entries.lookup name).bind (Vnode.mountAt tail)) :
    ∀ other, Vnode.mountAt other (.intermediate after) =
      if other = name :: rest then result else Vnode.mountAt other (.intermediate entries) := by
  intro other
  rw [replaced.mountAt]
  cases other with
  | nil => rfl
  | cons head tail =>
    simp only [head?_cons, Option.some.injEq, tail_cons, cons.injEq]
    by_cases same : head = name
    · subst same
      simp only [true_and, ↓reduceIte]
      exact inside tail
    · simp [same]

lemma Replaced.mounts_kept (inside : ∀ tail, replacement.bind (Vnode.mountAt tail) =
      (entries.lookup name).bind (Vnode.mountAt tail)) : ∀ other, Vnode.mountAt other (.intermediate after) =
      Vnode.mountAt other (.intermediate entries) := by
  intro other
  rw [replaced.mountAt]
  split
  next same =>
    cases other with
    | nil => cases same
    | cons _ tail =>
      cases same
      exact inside tail
  · rfl

end

lemma Sound.consistent (sound : Sound (.intermediate entries)) : entries.Consistent := by
  cases sound
  assumption

lemma Sound.inside (sound : Sound (.intermediate entries)) (present : entries.lookup name = some child) :
    name.length ≤ nameMax ∧ child.Occupied ∧ Sound child := by
  cases sound with
  | intermediate _ names occupied inside =>
    exact ⟨names name child present, occupied name child present, inside name child present⟩

lemma sound_empty : Sound (.intermediate ({} : Entries (Vnode Callback Storage))) :=
  .intermediate Entries.consistent_empty (fun _ _ found => nomatch found)
    (fun _ _ found => nomatch found) fun _ _ found => nomatch found

lemma mountAt_empty : mountAt key (.intermediate ({} : Entries (Vnode Callback Storage))) = none := by
  cases key <;> rfl

lemma clearAt_empty : ClearAt (.intermediate ({} : Entries (Vnode Callback Storage))) key := by
  intro _ _ found
  rw [mountAt_empty] at found
  cases found

section

variable (sound : Sound (.intermediate entries))
include sound

lemma Sound.update (present : entries.lookup name = some child) (vn : Vnode Callback Storage) :
    Replaced name (some vn) entries (entries.update name vn) :=
  ⟨sound.consistent.update name vn, sound.consistent.lookup_update present vn⟩

lemma Sound.addEntry (missing : entries.lookup name = none) (vn : Vnode Callback Storage) :
    Replaced name (some vn) entries (entries.addEntry name vn) :=
  ⟨sound.consistent.addEntry missing vn, sound.consistent.lookup_addEntry missing vn⟩

lemma Sound.removeEntry (name : Bytes) : Replaced name none entries (entries.removeEntry name) :=
  ⟨sound.consistent.removeEntry name, sound.consistent.lookup_removeEntry⟩

/-- A child that was created and is unlinked again. -/
lemma Sound.discard (missing : entries.lookup name = none) (child : Vnode Callback Storage) :
    Replaced name none entries ((entries.addEntry name child).removeEntry name) := by
  have grown := sound.consistent.addEntry missing child
  refine ⟨grown.removeEntry name, fun other => ?_⟩
  rw [grown.lookup_removeEntry, sound.consistent.lookup_addEntry missing]
  split <;> rfl

end

end Vnode

end FuchsiaSdk.LocalVnode
