import FuchsiaSdk.Namespace

/-! An `fdio_namespace` is a finite map from lists of names to mounts, in which
no key is a prefix of another: every operation on the tree of vnodes answers as
the map says and changes the tree as it changes the map. -/
namespace FuchsiaSdk.NamespaceMounts
open CleanPath LocalVnode LocalVnode.Vnode Namespace

variable {Callback Storage Channel : Type} {root after : Vnode Callback Storage}
  {mount : Mount Callback Storage} {key : List Bytes}

inductive Operation (Callback Channel : Type) where
  | bindRemote (path : Bytes) (remote : Option Channel)
  | bindLocal (path : Bytes) (onOpen : Callback)
  | unbind (path : Bytes)
  | isBound (path : Bytes)
  | walk (path : Bytes)

def Operation.path : Operation Callback Channel → Bytes
  | .bindRemote path _ => path
  | .bindLocal path _ => path
  | .unbind path => path
  | .isBound path => path
  | .walk path => path

/-- The components of an absolute path. -/
def components (path : Bytes) : List Bytes :=
  if path.tail = [] then [] else path.tail.splitOn slash

section Refinement

variable (createDirectory : Channel → Except Status Storage)

/-- The root after an operation. -/
def apply (root : Vnode Callback Storage) : Operation Callback Channel → Vnode Callback Storage
  | .bindRemote path client => (bindRemote createDirectory client path root).2
  | .bindLocal path onOpen => (bindLocal onOpen path root).2
  | .unbind path => (unbind path root).2
  | .isBound _ => root
  | .walk _ => root

/-- A fresh namespace after a list of operations. -/
def rootAfter (operations : List (Operation Callback Channel)) : Vnode Callback Storage :=
  operations.foldl (apply createDirectory) (.intermediate {})

abbrev Mounts (Callback Storage : Type) : Type := PrefixMap Bytes (Mount Callback Storage)

def Mounts.add (mounts : Mounts Callback Storage) (key : List Bytes)
    (mount : Mount Callback Storage) : Mounts Callback Storage :=
  if may : (∀ name ∈ key, name.length ≤ nameMax) ∧ mounts.Clear key then
    mounts.insert key mount may.2
  else mounts

/-- What an operation does to the map of mounts. -/
def Mounts.next (mounts : Mounts Callback Storage) :
    Operation Callback Channel → Mounts Callback Storage
  | .bindRemote path client =>
    match client.map createDirectory with
    | some (.ok storage) => mounts.add (components path) (.remote storage)
    | _ => mounts
  | .bindLocal path onOpen => mounts.add (components path) (.local onOpen)
  | .unbind path => mounts.erase (components path)
  | .isBound _ => mounts
  | .walk _ => mounts

def mountsAfter (operations : List (Operation Callback Channel)) : Mounts Callback Storage :=
  operations.foldl (Mounts.next createDirectory) PrefixMap.empty

/-- An operation on the tree answers as the map of mounts says. -/
def Agrees (mounts : Mounts Callback Storage) (root : Vnode Callback Storage) :
    Operation Callback Channel → Prop
  | .bindRemote path client =>
    (bindRemote createDirectory client path root).1 = .ok () ↔
      (∃ channel storage, client = some channel ∧ createDirectory channel = .ok storage) ∧
        (∀ name ∈ components path, name.length ≤ nameMax) ∧ mounts.Clear (components path)
  | .bindLocal path onOpen =>
    (bindLocal onOpen path root).1 = .ok () ↔
      (∀ name ∈ components path, name.length ≤ nameMax) ∧ mounts.Clear (components path)
  | .unbind path => (Namespace.unbind path root).1 = .ok () ↔ mounts.find? (components path) ≠ none
  | .isBound path =>
    components path ≠ [] →
      (Namespace.isBound path root = true ↔ mounts.find? (components path) ≠ none)
  | .walk path =>
    ∀ mount rest, mounts.resolve (components path) = some (mount, rest) →
      walkLocked root path.tail =
        if components path = [] then .ok (mount.node, []) else arrival mount rest

/-- The tree is sound, and its mounts are those of the map. -/
structure Holds (root : Vnode Callback Storage) (mounts : Mounts Callback Storage) : Prop where
  sound : Sound root
  mounts : ∀ key, mountAt key root = mounts.find? key

variable {mounts : Mounts Callback Storage}

lemma Holds.bindable (holds : Holds root mounts) :
    Bindable key root ↔ (∀ name ∈ key, name.length ≤ nameMax) ∧ mounts.Clear key := by
  unfold Bindable ClearAt
  simp only [holds.mounts]
  rw [PrefixMap.clear_iff]

private lemma components_render (proper : ∀ part ∈ key, Proper part) : components (render key) = key := by
  unfold components
  split
  next empty =>
    by_contra nonempty
    exact intercalate_ne_nil (Ne.symm nonempty) proper empty
  next nonempty =>
    refine List.splitOn_intercalate slash (fun part mem => (proper part mem).2.1) ?_
    rintro rfl
    exact nonempty rfl

section

variable (holds : Holds root mounts)
include holds

lemma Holds.add (may : Bindable key root)
    (added : Added key mount root after) : Holds after (mounts.add key mount) := by
  refine ⟨added.sound, fun other => ?_⟩
  rw [Mounts.add, dif_pos (holds.bindable.mp may), PrefixMap.find?_insert, added.mounts,
    holds.mounts]

lemma Holds.keep (kept : Kept root after) : Holds after mounts :=
  ⟨kept.sound, fun other => by rw [kept.mounts, holds.mounts]⟩

/-- Binding agrees with adding to the map. -/
lemma Holds.bind (builder : Except Status (Mount Callback Storage)) (proper : ∀ part ∈ key, Proper part) :
    ((Namespace.bind builder (render key) root).1 = .ok () ↔
      (∃ mount, builder = .ok mount) ∧ (∀ name ∈ key, name.length ≤ nameMax) ∧ mounts.Clear key) ∧
    Holds (Namespace.bind builder (render key) root).2 (match builder with
      | .ok mount => mounts.add key mount
      | .error _ => mounts) := by
  rw [← holds.bindable]
  rcases bind_spec builder holds.sound proper with
    ⟨mount, rfl, may, done, added⟩ | ⟨may, ⟨status, failed⟩, kept⟩
  · exact ⟨⟨fun _ => ⟨⟨mount, rfl⟩, may⟩, fun _ => done⟩, holds.add may added⟩
  refine ⟨⟨fun done => ?_, fun wanted => absurd wanted may⟩, ?_⟩
  · rw [failed] at done
    cases done
  · cases builder with
    | error status => exact holds.keep kept
    | ok mount =>
      have refused : ¬((∀ name ∈ key, name.length ≤ nameMax) ∧ mounts.Clear key) := fun wanted =>
        may ⟨⟨mount, rfl⟩, holds.bindable.mpr wanted⟩
      simp only [Mounts.add, dif_neg refused]
      exact holds.keep kept

lemma Holds.unbind (proper : ∀ part ∈ key, Proper part) :
    ((Namespace.unbind (render key) root).1 = .ok () ↔ mounts.find? key ≠ none) ∧
      Holds (Namespace.unbind (render key) root).2 (mounts.erase key) := by
  rw [← holds.mounts]
  rcases unbind_spec holds.sound proper with ⟨bound, done, removed⟩ | ⟨unbound, ⟨_, failed⟩, same⟩
  · refine ⟨⟨fun _ => bound, fun _ => done⟩, removed.sound, fun other => ?_⟩
    rw [removed.mounts, PrefixMap.find?_erase, holds.mounts]
  refine ⟨⟨fun done => ?_, fun bound => absurd unbound bound⟩, ?_⟩
  · rw [failed] at done
    cases done
  · rw [same]
    refine ⟨holds.sound, fun other => ?_⟩
    rw [PrefixMap.find?_erase, holds.mounts]
    split
    next here => rw [here, ← holds.mounts, unbound]
    · rfl

/-- One operation answers as the map says and takes the tree to the next map. -/
lemma Holds.step (operation : Operation Callback Channel) (clean : IsCleanAbsolute operation.path) :
    Agrees createDirectory mounts root operation ∧
      Holds (apply createDirectory root operation) (mounts.next createDirectory operation) := by
  obtain ⟨key, spelled, proper⟩ := cleanAbsolute_render clean
  have parts := components_render proper
  cases operation with
  | bindRemote path client =>
    obtain rfl : path = render key := spelled
    cases client with
    | none => exact ⟨by simp [Agrees, Namespace.bindRemote], holds⟩
    | some channel =>
      obtain ⟨answer, after⟩ :=
        holds.bind ((createDirectory channel).map .remote) proper
      simp only [Agrees, apply, Mounts.next, Namespace.bindRemote, parts, answer, Option.map_some]
      cases created : createDirectory channel with
      | error | ok =>
        rw [created] at after
        exact ⟨by simp [Except.map, created], after⟩
  | bindLocal path onOpen =>
    obtain rfl : path = render key := spelled
    obtain ⟨answer, after⟩ := holds.bind (.ok (.local onOpen)) proper
    simp only [Agrees, apply, Mounts.next, Namespace.bindLocal, parts, answer]
    exact ⟨by simp, after⟩
  | unbind path =>
    obtain rfl : path = render key := spelled
    simp only [Agrees, apply, Mounts.next, parts]
    exact holds.unbind proper
  | isBound path =>
    obtain rfl : path = render key := spelled
    refine ⟨?_, holds⟩
    simp only [Agrees, parts]
    intro nonempty
    rw [isBound_eq holds.sound nonempty proper, holds.mounts]
    cases mounts.find? key <;> simp
  | walk path =>
    obtain rfl : path = render key := spelled
    refine ⟨?_, holds⟩
    simp only [Agrees, parts]
    intro _ _ resolved
    obtain ⟨front, found, rfl⟩ := PrefixMap.resolve_eq_some_iff.mp resolved
    exact walkLocked_arrival holds.sound proper ((holds.mounts front).trans found)

end

lemma holds_after (operations : List (Operation Callback Channel))
    (clean : ∀ operation ∈ operations, IsCleanAbsolute operation.path) :
    Holds (rootAfter createDirectory operations) (mountsAfter createDirectory operations) := by
  refine List.foldl_rel ⟨sound_empty, fun key => mountAt_empty⟩ ?_
  intro operation mem _ _ holds
  exact (holds.step createDirectory operation (clean operation mem)).2

/-- After any list of operations the namespace is the map of mounts, and the
next operation answers as that map says. -/
theorem namespace_refines_mounts (operations : List (Operation Callback Channel))
    (clean : ∀ operation ∈ operations, IsCleanAbsolute operation.path)
    (next : Operation Callback Channel) (cleanNext : IsCleanAbsolute next.path) :
    (∀ key, mountAt key (rootAfter createDirectory operations) =
      (mountsAfter createDirectory operations).find? key) ∧
    Agrees createDirectory (mountsAfter createDirectory operations)
      (rootAfter createDirectory operations) next := by
  have holds := holds_after createDirectory operations clean
  exact ⟨holds.mounts, (holds.step createDirectory next cleanNext).1⟩

/-- A bind that succeeds is undone by an unbind. -/
theorem unbind_undoes_bind
    (operations : List { operation : Operation Callback Channel // IsCleanAbsolute operation.path })
    (path : { path : Bytes // IsCleanAbsolute path }) (mount : Mount Callback Storage) :
    let root := rootAfter createDirectory (operations.map Subtype.val)
    let bound := Namespace.bind (.ok mount) path.1 root
    bound.1 ≠ .ok () ∨ (unbind path.1 bound.2).1 = .ok () ∧
      ∀ key, mountAt key (unbind path.1 bound.2).2 = mountAt key root := by
  obtain ⟨path, clean⟩ := path
  obtain ⟨key, rfl, proper⟩ := cleanAbsolute_render clean
  intro root bound
  have holds := holds_after createDirectory (operations.map Subtype.val) (by grind)
  obtain ⟨answer, added⟩ := holds.bind (.ok mount) proper
  refine or_iff_not_imp_left.mpr fun done => ?_
  have may := (answer.mp (not_not.mp done)).2
  simp only [Mounts.add, dif_pos may] at added
  obtain ⟨answer', removed⟩ := added.unbind proper
  refine ⟨answer'.mpr (by simp [PrefixMap.find?_insert]), fun other => ?_⟩
  rw [removed.mounts, PrefixMap.find?_erase, PrefixMap.find?_insert, holds.mounts]
  split
  next same =>
    -- Nothing was bound at the key before.
    have free := PrefixMap.clear_iff.mp may.2 other
    exact (Option.eq_none_iff_forall_ne_some.mpr fun old found =>
      (free old found).1 (same ▸ List.prefix_rfl)).symm
  · rfl

end Refinement

/-- `/a`. -/
def shallow : Bytes := [slash, 0x61]

/-- `/a/b`. -/
def deep : Bytes := [slash, 0x61, slash, 0x62]

lemma isCleanAbsolute_shallow : IsCleanAbsolute shallow := ⟨rfl, shallow, false, by decide⟩

lemma isCleanAbsolute_deep : IsCleanAbsolute deep := ⟨rfl, deep, false, by decide⟩

/-- A remote bound at `/a` is where a walk of `/a/b` ends. -/
theorem namespace_refines_mounts_remote :
    walkLocked (rootAfter (fun channel : Nat => .ok channel) [.bindRemote shallow (some 7)] :
      Vnode Unit Nat) deep.tail = .ok (.remote 7, [0x62]) := by
  have clean : ∀ operation ∈ ([.bindRemote shallow (some 7)] : List (Operation Unit Nat)),
      IsCleanAbsolute operation.path := by
    intro operation member
    obtain rfl := List.mem_singleton.mp member
    exact isCleanAbsolute_shallow
  have agrees := (namespace_refines_mounts (fun channel : Nat => .ok channel) _ clean (.walk deep)
    isCleanAbsolute_deep).2
  exact agrees (.remote 7) [[0x62]] rfl

/-- A local binding ends no walk that has segments left, though its key is on
the way. -/
theorem walk_past_local :
    IsCleanAbsolute shallow ∧ IsCleanAbsolute deep ∧
    (mountsAfter (fun channel : Nat => .ok channel) [.bindLocal shallow ()]).resolve
      (components deep) = some (.local (), [[0x62]]) ∧
    walkLocked (rootAfter (fun channel : Nat => .ok channel) [.bindLocal shallow ()])
      deep.tail = .error .notFound :=
  ⟨isCleanAbsolute_shallow, isCleanAbsolute_deep, rfl, rfl⟩

end FuchsiaSdk.NamespaceMounts
