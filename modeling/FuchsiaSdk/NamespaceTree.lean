import FuchsiaSdk.NamespaceMounts

/-! The tree of an `fdio_namespace` over whole histories, for paths of any
spelling: every directory but the root has children, the two maps of each agree,
and a bind that fails leaves no trace. -/
namespace FuchsiaSdk.NamespaceTree
open CleanPath LocalVnode LocalVnode.Vnode Namespace NamespaceMounts

variable {Callback Storage Channel : Type}

/-- The vnode at the end of a list of names. -/
def nodeAt : List Bytes → Vnode Callback Storage → Option (Vnode Callback Storage)
  | [], vn => some vn
  | name :: rest, vn => (vn.lookup name).bind (nodeAt rest)

/-- The names of a directory, in the order of their ids. -/
def names (entries : Entries (Vnode Callback Storage)) : List Bytes :=
  entries.byId.map fun entry => entry.2.1

/-- What the directory at the end of a list of names holds; there may be none. -/
def namesAt : List Bytes → Vnode Callback Storage → Option (List Bytes)
  | [], .intermediate entries => some (names entries)
  | [], _ => none
  | name :: rest, vn => (vn.lookup name).bind (namesAt rest)

/-- Every directory has maps that agree, and one below the root has children. -/
def WellFormed (root : Vnode Callback Storage) : Prop :=
  ∀ place entries, nodeAt place root = some (.intermediate entries) →
    entries.Consistent ∧ (place ≠ [] → entries.size ≠ 0)

/-- Every entry was there before, or has an id that had not been given yet. -/
def Numbers (before after : Entries (Vnode Callback Storage)) : Prop :=
  before.nextNodeId ≤ after.nextNodeId ∧ ∀ entry ∈ after.byId,
    (entry.1, entry.2.1) ∈ before.byId.map (fun old => (old.1, old.2.1)) ∨
      before.nextNodeId ≤ entry.1

/-- An operation that gives ids in increasing order, in every directory that stays. -/
def Orderly (before after : Vnode Callback Storage) : Prop :=
  ∀ place old new, nodeAt place before = some (.intermediate old) →
    nodeAt place after = some (.intermediate new) → Numbers old new

/-- Two trees with the same mounts, and the same names in every directory. -/
def Unchanged (before after : Vnode Callback Storage) : Prop :=
  (∀ key, mountAt key after = mountAt key before) ∧
    ∀ place, namesAt place after = namesAt place before

/-- The entries of a directory change one at a time, and what was put into a new directory is
unlinked if the operation fails. -/
inductive Edits (builder : Except Status (Mount Callback Storage)) :
    Except Status Unit → Vnode Callback Storage → Vnode Callback Storage → Prop where
  | same (result : Except Status Unit) (vn : Vnode Callback Storage) : Edits builder result vn vn
  | child (present : entries.lookup name = some vn) (inside : Edits builder result vn after) :
    Edits builder result (.intermediate entries) (.intermediate (entries.update name after))
  | mount (missing : entries.lookup name = none) (built : builder = .ok mount) :
    Edits builder (.ok ()) (.intermediate entries)
      (.intermediate (entries.addEntry name mount.node))
  | create (missing : entries.lookup name = none)
    (inside : Edits builder (.ok ()) (.intermediate {}) after) :
    Edits builder (.ok ()) (.intermediate entries) (.intermediate (entries.addEntry name after))
  | discard (missing : entries.lookup name = none)
    (inside : Edits builder (.error status) (.intermediate {}) after) :
    Edits builder (.error status) (.intermediate entries)
      (.intermediate ((entries.addEntry name after).removeEntry name))
  | remove (entries : Entries (Vnode Callback Storage)) (name : Bytes)
    (nothing : ∀ mount, builder ≠ .ok mount) :
    Edits builder (.ok ()) (.intermediate entries) (.intermediate (entries.removeEntry name))

section

variable {vn root child : Vnode Callback Storage} {entries : Entries (Vnode Callback Storage)}
  {name : Bytes} {place key : List Bytes} {builder : Except Status (Mount Callback Storage)}

lemma namesAt_cons : namesAt (name :: rest) vn = (vn.lookup name).bind (namesAt rest) := by
  cases vn <;> rfl

lemma mountAt_append (front back : List Bytes) (vn : Vnode Callback Storage) :
    mountAt (front ++ back) vn = (nodeAt front vn).bind (mountAt back) := by
  induction front generalizing vn with
  | nil => rfl
  | cons name _ ih =>
    rw [List.cons_append, mountAt_cons, nodeAt]
    cases vn.lookup name with
    | none => rfl
    | some child => exact ih child

lemma sound_nodeAt (sound : Sound vn) (found : nodeAt place vn = some child) :
    Sound child ∧ (place ≠ [] → child.Occupied) := by
  induction place generalizing vn with
  | nil =>
    cases found
    exact ⟨sound, fun nonempty => absurd rfl nonempty⟩
  | cons _ rest ih =>
    obtain ⟨_, looked, deeper⟩ := Option.bind_eq_some_iff.mp found
    cases vn with
    | «local» | remote => cases looked
    | intermediate =>
      obtain ⟨-, occupied, inside⟩ := sound.inside looked
      obtain ⟨soundChild, below⟩ := ih inside deeper
      refine ⟨soundChild, fun _ => ?_⟩
      by_cases last : rest = []
      · subst last
        cases deeper
        exact occupied
      · exact below last

lemma wellFormed_of_sound (sound : Sound root) : WellFormed root := by
  intro _ _ found
  obtain ⟨inside, occupied⟩ := sound_nodeAt sound found
  exact ⟨inside.consistent, occupied⟩

/-! ## What operations do -/

lemma bindLoop_edits (vn : Vnode Callback Storage) :
    Edits builder (bindLoop builder key vn).1 vn (bindLoop builder key vn).2 := by
  induction key generalizing vn with
  | nil => exact .same ..
  | cons name rest ih =>
    by_cases long : name.length > nameMax
    · simpa [bindLoop, long] using .same ..
    cases vn with
    | «local» | remote => simpa [bindLoop, long] using .same ..
    | intermediate entries =>
      simp only [bindLoop, if_neg long]
      cases looked : entries.lookup name with
      | some child =>
        split
        · exact .same ..
        · exact .child looked (ih child)
      | none =>
        split
        · cases builder with
          | error status => exact .same ..
          | ok mount => exact .mount looked rfl
        · have inside := ih (.intermediate {})
          generalize bindLoop builder rest (.intermediate {}) = outcome at inside ⊢
          rcases outcome with ⟨status | _, child⟩
          · exact .discard looked inside
          · exact .create looked inside

lemma unlinkAt_edits (vn : Vnode Callback Storage) :
    Edits (.error .notFound) (.ok ()) vn (unlinkAt place vn) := by
  induction place generalizing vn with
  | nil => exact .same ..
  | cons name _ ih =>
    cases vn with
    | «local» | remote => exact .same ..
    | intermediate entries =>
      simp only [unlinkAt]
      split
      · exact .remove entries name (by simp)
      cases looked : entries.lookup name with
      | none => exact .same ..
      | some child => exact .child looked (ih child)

/-- A bind changes the entries of directories, or makes the root a mount. -/
lemma bind_edits (builder : Except Status (Mount Callback Storage)) (path : Bytes)
    (root : Vnode Callback Storage) :
    Edits builder (Namespace.bind builder path root).1 root (Namespace.bind builder path root).2 ∨
      ((Namespace.bind builder path root).1 = .ok () ∧ path.tail = []) ∧
        ∃ mount : Mount Callback Storage, (Namespace.bind builder path root).2 = mount.node := by
  unfold Namespace.bind
  split
  · exact .inl (.same ..)
  split
  · cases root with
    | «local» | remote => exact .inl (.same ..)
    | intermediate =>
      simp only [bindRoot]
      split
      · exact .inl (.same ..)
      cases builder with
      | error => exact .inl (.same ..)
      | ok mount => exact .inr ⟨⟨rfl, ‹_›⟩, mount, rfl⟩
  · exact .inl (bindLoop_edits ..)

lemma unbind_edits (path : Bytes) (root : Vnode Callback Storage) :
    Edits (.error .notFound) (unbind path root).1 root (unbind path root).2 ∨
      ((unbind path root).1 = .ok () ∧ path.tail = []) ∧
        ∃ mount : Mount Callback Storage, root = mount.node := by
  unfold unbind
  split
  · exact .inl (.same ..)
  split
  · cases root with
    | «local» onOpen => exact .inr ⟨⟨rfl, ‹_›⟩, .local onOpen, rfl⟩
    | remote storage => exact .inr ⟨⟨rfl, ‹_›⟩, .remote storage, rfl⟩
    | intermediate => exact .inl (.same ..)
  · split
    · exact .inl (.same ..)
    · exact .inl (unlinkAt_edits ..)

/-! ## Ids -/

lemma numbers_refl : Numbers entries entries :=
  ⟨Nat.le_refl _, fun _ mem => .inl (List.mem_map_of_mem mem)⟩

lemma orderly_refl : Orderly vn vn := by
  intro _ _ _ first second
  cases first.symm.trans second
  exact numbers_refl

/-- One child changes in place, and the rest stays. -/
lemma orderly_replaced {after : Entries (Vnode Callback Storage)}
    (replaced : Replaced name replacement entries after) (numbers : Numbers entries after)
    (inside : ∀ old new, entries.lookup name = some old → replacement = some new → Orderly old new) :
    Orderly (.intermediate entries) (.intermediate after) := by
  intro place old new first second
  cases place with
  | nil =>
    cases first
    cases second
    exact numbers
  | cons head rest =>
    obtain ⟨below, looked, deeper⟩ := Option.bind_eq_some_iff.mp first
    obtain ⟨below', looked', deeper'⟩ := Option.bind_eq_some_iff.mp second
    by_cases same : head = name
    · subst same
      simp only [lookup, replaced.lookup, if_true] at looked'
      exact inside below below' looked looked' rest old new deeper deeper'
    · simp only [lookup, replaced.lookup, if_neg same] at looked'
      cases looked.symm.trans looked'
      exact orderly_refl rest old new deeper deeper'

lemma numbers_addEntry : Numbers entries (entries.addEntry name child) := by
  refine ⟨Nat.le_succ _, fun entry mem => ?_⟩
  rcases List.mem_append.mp mem with old | new
  · exact .inl (List.mem_map_of_mem old)
  · rw [List.mem_singleton.mp new]
    exact .inr (Nat.le_refl _)

lemma numbers_update : Numbers entries (entries.update name child) := by
  unfold Entries.update
  split
  · exact numbers_refl
  refine ⟨Nat.le_refl _, fun entry mem => ?_⟩
  obtain ⟨_, here, rfl⟩ := List.mem_map.mp mem
  rw [Entries.withNode_id, Entries.withNode_name]
  exact .inl (List.mem_map_of_mem here)

lemma numbers_removeEntry (numbers : Numbers before entries) : Numbers before (entries.removeEntry name) := by
  unfold Entries.removeEntry
  split
  · exact numbers
  · exact ⟨numbers.1, fun entry mem => numbers.2 entry (List.mem_of_mem_eraseP mem)⟩

lemma Edits.orderly (edits : Edits builder result vn after) (sound : Sound vn) : Orderly vn after := by
  induction edits with
  | same => exact orderly_refl
  | child present inside ih =>
    refine orderly_replaced (sound.update present _) (numbers_update ..) ?_
    rintro old new first ⟨⟩
    cases present.symm.trans first
    exact ih (sound.inside present).2.2
  -- nothing was there under that name, so only the ids of this directory matter
  | mount missing | create missing =>
    refine orderly_replaced (sound.addEntry missing _) (numbers_addEntry ..) fun old new first => ?_
    cases missing.symm.trans first
  | discard missing =>
    exact orderly_replaced (sound.discard missing _) (numbers_removeEntry (numbers_addEntry ..)) nofun
  | remove _ name =>
    exact orderly_replaced (sound.removeEntry name)
      (numbers_removeEntry (numbers_refl)) nofun

/-! ## A bind that fails -/

lemma names_update : names (entries.update name child) = names entries := by
  unfold names Entries.update
  split
  · rfl
  · simp [Function.comp_def]

/-- An entry that was added and removed again. -/
lemma byId_discard (consistent : entries.Consistent) (missing : entries.lookup name = none) :
    ((entries.addEntry name child).removeEntry name).byId = entries.byId := by
  have grown := consistent.addEntry missing child
  have others : entries.byId.filter (fun entry => entry.2.1 != name) = entries.byId := by
    refine List.filter_eq_self.mpr fun entry mem => ?_
    simpa using consistent.lookup_eq_none missing entry mem
  rw [grown.byId_removeEntry]
  simp [Entries.addEntry, others]

lemma namesAt_replaced {after : Entries (Vnode Callback Storage)}
    (replaced : Replaced name replacement entries after) (same : names after = names entries)
    (inside : ∀ rest, replacement.bind (namesAt rest) = (entries.lookup name).bind (namesAt rest)) :
    namesAt place (.intermediate after) = namesAt place (.intermediate entries) := by
  cases place with
  | nil => exact congrArg some same
  | cons _ others =>
    rw [namesAt_cons, lookup, replaced.lookup]
    split
    next here =>
      rw [here]
      exact inside others
    · rfl

lemma Edits.failed (edits : Edits builder (.error status) vn after) (sound : Sound vn)
    (place : List Bytes) : namesAt place after = namesAt place vn := by
  generalize error : (.error status : Except Status Unit) = result at edits
  induction edits generalizing place with
  | same => rfl
  | child present inside ih =>
    refine namesAt_replaced (sound.update present _) (names_update ..) (fun rest => ?_)
    rw [present]
    exact ih (sound.inside present).2.2 rest error
  | discard missing =>
    refine namesAt_replaced (sound.discard missing _) ?_ fun rest => ?_
    · rw [names, byId_discard sound.consistent missing, names]
    · rw [missing]
  | mount | create | remove => cases error

lemma segments_ne_nil : segments path ≠ [] := by
  unfold segments segmentsLoop
  rcases findNextPathSegment path with ⟨_, isLast⟩
  cases isLast <;> simp

lemma unchanged_refl : Unchanged root root :=
  ⟨fun _ => rfl, fun _ => rfl⟩

/-! ## Mounts -/

/-- The names that a path leads through. -/
def keyOf (path : Bytes) : List Bytes :=
  if path.tail = [] then [] else segments path.tail

/-- A bind adds a mount, or keeps what there is. -/
lemma bind_mounts (builder : Except Status (Mount Callback Storage)) (path : Bytes) (sound : Sound root) :
    (∃ mount, builder = .ok mount ∧ (Namespace.bind builder path root).1 = .ok () ∧
      Added (keyOf path) mount root (Namespace.bind builder path root).2) ∨
    ((Namespace.bind builder path root).1 ≠ .ok () ∧ Kept root (Namespace.bind builder path root).2) := by
  unfold Namespace.bind keyOf
  split
  · exact .inr ⟨nofun, Kept.refl sound⟩
  split
  · rcases bindRoot_spec sound with ⟨mount, built, -, done, added⟩ | ⟨-, ⟨status, failed⟩, kept⟩
    · exact .inl ⟨mount, built, done, added⟩
    · exact .inr ⟨by rw [failed]; exact nofun, kept⟩
  · rcases bindLoop_spec sound (segments_ne_nil) with
      ⟨mount, built, -, done, added⟩ | ⟨-, ⟨status, failed⟩, kept⟩
    · exact .inl ⟨mount, built, done, added⟩
    · exact .inr ⟨by rw [failed]; exact nofun, kept⟩

/-- An unbind removes the mount that the path leads to, or does nothing. -/
lemma unbind_mounts (sound : Sound root) :
    ((unbind path root).1 = .ok () ∧ Removed (keyOf path) root (unbind path root).2) ∨
      ((unbind path root).1 ≠ .ok () ∧ (unbind path root).2 = root) := by
  unfold unbind keyOf
  split
  · exact .inr ⟨nofun, rfl⟩
  split
  · cases root with
    | intermediate => exact .inr ⟨nofun, rfl⟩
    | «local» onOpen => exact .inl ⟨rfl, removed_node (.local onOpen)⟩
    | remote storage => exact .inl ⟨rfl, removed_node (.remote storage)⟩
  · cases outcome : unbindLoop (segments path.tail) [] none root with
    | error => exact .inr ⟨nofun, rfl⟩
    | ok => exact .inl ⟨rfl, (unbindLoop_removes sound outcome).2⟩

/-- A mount after a bind was there before, or it is the new one. -/
lemma mountAt_bind (sound : Sound root)
    (found : mountAt key (Namespace.bind builder path root).2 = some mount) : mountAt key root = some mount ∨
      key = keyOf path ∧ builder = .ok mount ∧ (Namespace.bind builder path root).1 = .ok () := by
  rcases bind_mounts builder path sound with ⟨_, same, done, added⟩ | ⟨-, kept⟩
  · rw [added.mounts] at found
    split at found
    next here =>
      cases found
      exact .inr ⟨here, same, done⟩
    · exact .inl found
  · exact .inl ((kept.mounts key).symm.trans found)

/-- A mount after an unbind was there before, at the same key. -/
lemma mountAt_unbind (sound : Sound root) (found : mountAt key (unbind path root).2 = some mount) :
    mountAt key root = some mount ∧ ((unbind path root).1 = .ok () → key ≠ keyOf path) := by
  rcases unbind_mounts sound with ⟨-, removed⟩ | ⟨failed, same⟩
  · rw [removed.mounts] at found
    split at found
    · cases found
    next apart => exact ⟨found, fun _ => apart⟩
  · rw [same] at found
    exact ⟨found, fun done => absurd done failed⟩

/-! ## Sound and orderly trees -/

/-- What a bind does, for a path of any spelling. -/
lemma bind_keeps (builder : Except Status (Mount Callback Storage)) (path : Bytes) (sound : Sound root) :
    Sound (Namespace.bind builder path root).2 ∧ Orderly root (Namespace.bind builder path root).2 ∧
      ((Namespace.bind builder path root).1 ≠ .ok () →
        Unchanged root (Namespace.bind builder path root).2) := by
  have mounts := bind_mounts builder path sound
  rcases bind_edits builder path root with edits | ⟨⟨done, -⟩, mount, replaced⟩
  · rcases mounts with ⟨_, -, done, added⟩ | ⟨refused, kept⟩
    · exact ⟨added.sound, edits.orderly sound, fun refused => absurd done refused⟩
    refine ⟨kept.sound, edits.orderly sound, fun _ => ⟨kept.mounts, ?_⟩⟩
    cases result : (Namespace.bind builder path root).1 with
    | ok => exact absurd result refused
    | error => exact (result ▸ edits).failed sound
  · -- A root that has become a mount is not the directory that it was.
    rw [replaced]
    refine ⟨sound_node, fun place old new _ second => ?_, fun refused => absurd done refused⟩
    cases place <;> cases mount <;> cases second

/-- What an unbind does, for a path of any spelling. -/
lemma unbind_keeps (sound : Sound root) : Sound (unbind path root).2 ∧ Orderly root (unbind path root).2 := by
  have sound' : Sound (unbind path root).2 := by
    rcases unbind_mounts sound with ⟨-, removed⟩ | ⟨-, same⟩
    · exact removed.sound
    · rwa [same]
  refine ⟨sound', ?_⟩
  rcases unbind_edits path root with edits | ⟨-, mount, rfl⟩
  · exact edits.orderly sound
  · intro place _ _ first
    cases place <;> cases mount <;> cases first

end

/-! ## Numbered mounts -/

/-- Each mount of one kind carries the number of the bind that made it, and is there once. -/
structure Numbered (kind : Nat → Mount Callback Storage) (limit : Nat)
    (root : Vnode Callback Storage) : Prop where
  sound : Sound root
  known : ∀ key number, mountAt key root = some (kind number) → number < limit
  once : ∀ key other number, mountAt key root = some (kind number) →
    mountAt other root = some (kind number) → key = other

lemma Numbered.start {kind : Nat → Mount Callback Storage} : Numbered kind 0 (.intermediate {}) where
  sound := sound_empty
  known key number found := by
    rw [mountAt_empty] at found
    cases found
  once key other number found := by
    rw [mountAt_empty] at found
    cases found

/-- Mounts may stay where they are or go away, and the next number may come in one place. -/
lemma Numbered.of_mounts {root after : Vnode Callback Storage} (numbered : Numbered kind limit root)
    (place : List Bytes) (sound : Sound after) (more : limit ≤ further)
    (old : ∀ key number, mountAt key after = some (kind number) →
      mountAt key root = some (kind number) ∨ key = place ∧ number = limit ∧ number < further) :
    Numbered kind further after where
  sound := sound
  known key number found := by
    rcases old key number found with before | ⟨-, -, below⟩
    · exact Nat.lt_of_lt_of_le (numbered.known key number before) more
    · exact below
  once key other number found again := by
    rcases old key number found with before | ⟨rfl, rfl, -⟩
    · rcases old other number again with before' | ⟨-, rfl, -⟩
      · exact numbered.once key other number before before'
      · exact absurd (numbered.known key _ before) (Nat.lt_irrefl _)
    · rcases old other _ again with before | ⟨rfl, -, -⟩
      · exact absurd (numbered.known other _ before) (Nat.lt_irrefl _)
      · rfl

/-! ## Whole histories -/

section Histories

variable (createDirectory : Channel → Except Status Storage)

lemma bindRemote_keeps (client : Option Channel) (path : Bytes) (sound : Sound root) :
    Sound (bindRemote createDirectory client path root).2 ∧
      Orderly root (bindRemote createDirectory client path root).2 ∧
      ((bindRemote createDirectory client path root).1 ≠ .ok () →
        Unchanged root (bindRemote createDirectory client path root).2) := by
  cases client with
  | none => exact ⟨sound, orderly_refl, fun _ => unchanged_refl⟩
  | some channel => exact bind_keeps ((createDirectory channel).map .remote) path sound

lemma apply_keeps (operation : Operation Callback Channel)
    (sound : Sound root) : Sound (NamespaceMounts.apply createDirectory root operation) ∧
      Orderly root (NamespaceMounts.apply createDirectory root operation) := by
  cases operation with
  | bindRemote path client =>
    have kept := bindRemote_keeps createDirectory client path sound
    exact ⟨kept.1, kept.2.1⟩
  | bindLocal path onOpen =>
    have kept := bind_keeps (.ok (.local onOpen)) path sound
    exact ⟨kept.1, kept.2.1⟩
  | unbind path => exact unbind_keeps sound
  | isBound | walk => exact ⟨sound, orderly_refl⟩

lemma sound_after (operations : List (Operation Callback Channel)) :
    Sound (rootAfter createDirectory operations) :=
  List.foldlRecOn operations _ sound_empty fun _ sound operation _ =>
    (apply_keeps createDirectory operation sound).1

/-- After any history the tree is well formed, the next operation gives ids in increasing
order, and if it is a bind that is refused, it changes neither the bound paths nor the
names in any directory. -/
theorem namespace_well_formed (operations : List (Operation Callback Channel)) :
    WellFormed (rootAfter createDirectory operations) ∧
    (∀ next, Orderly (rootAfter createDirectory operations)
      (NamespaceMounts.apply createDirectory (rootAfter createDirectory operations) next)) ∧
    (∀ path client,
      (bindRemote createDirectory client path (rootAfter createDirectory operations)).1 ≠ .ok () →
        Unchanged (rootAfter createDirectory operations)
          (bindRemote createDirectory client path (rootAfter createDirectory operations)).2) ∧
    ∀ path onOpen, (bindLocal onOpen path (rootAfter createDirectory operations)).1 ≠ .ok () →
      Unchanged (rootAfter createDirectory operations)
        (bindLocal onOpen path (rootAfter createDirectory operations)).2 := by
  have sound := sound_after createDirectory operations
  refine ⟨wellFormed_of_sound sound, fun next => ?_, fun path client => ?_, fun path onOpen => ?_⟩
  · exact (apply_keeps createDirectory next sound).2
  · exact (bindRemote_keeps createDirectory client path sound).2.2
  · exact (bind_keeps (.ok (.local onOpen)) path sound).2.2

end Histories

end FuchsiaSdk.NamespaceTree
