import FuchsiaSdk.NamespaceTree
import Mathlib.Algebra.Ring.Nat

/-! `fdio_namespace::Export` and `SetRoot` (`fdio/namespace/local-filesystem.cc`) over the
enumeration of remote vnodes (`local-vnode.cc`). The path of a mount is put together from
the names of the vnodes above it, the root's own name included, and `SetRoot` may make a
named vnode the root. A remote vnode is known by the number under which it was created. -/
namespace FuchsiaSdk.NamespaceExport
open CleanPath LocalVnode LocalVnode.Vnode Namespace NamespaceTree
open NamespaceMounts (shallow deep isCleanAbsolute_deep)
open List hiding after lookup

variable {Callback Storage Channel : Type}

/-! ## Enumeration -/

/-- `PathBuffer::Append` of a name, which drops what does not fit. -/
def appendName (path name : Bytes) : Bytes := name.foldl append path

/-- The path below which the children of an `Intermediate` are enumerated. -/
def enter (path name : Bytes) : Bytes :=
  if name.length > 0 then append (appendName path name) slash else appendName path name

mutual

/-- `EnumerateInternal`: what `func` is called with, in order. The status that `func`
returns is dropped, and so is that of `ForAllEntries`. -/
def enumerateInternal (path name : Bytes) : Vnode Callback Storage → List (Bytes × Storage)
  | .local _ => []
  | .intermediate entries => forAllEntries (enter path name) entries
  | .remote storage => [(appendName path name, storage)]

def forAllEntries (path : Bytes) : Entries (Vnode Callback Storage) → List (Bytes × Storage)
  | ⟨_, _, byId⟩ => forEach path byId

def forEach (path : Bytes) : List (Nat × Bytes × Vnode Callback Storage) → List (Bytes × Storage)
  | [] => []
  | entry :: rest => forEntry path entry ++ forEach path rest

def forEntry (path : Bytes) : Nat × Bytes × Vnode Callback Storage → List (Bytes × Storage)
  | (_, child) => forChild path child

def forChild (path : Bytes) : Bytes × Vnode Callback Storage → List (Bytes × Storage)
  | (name, vn) => enumerateInternal path name vn

end

/-- `EnumerateRemotes` of a vnode of that name. -/
def enumerateRemotes (name : Bytes) (vn : Vnode Callback Storage) : List (Bytes × Storage) :=
  enumerateInternal [slash] name vn

/-! ## Export -/

/-- A handle that `zxio_clone` made: the number of the call, and the remote vnode it cloned. -/
structure Handle where
  call : Nat
  mount : Nat
  deriving DecidableEq, Repr

/-- The filling pass: the entries that `export_callback` stores. -/
def fill (clone : Nat → Except Status Unit) : (call : Nat) → List (Bytes × Nat) → List (Bytes × Handle)
  | _, [] => []
  | call, (path, mount) :: rest =>
    match clone call with
    | .ok () => (path, ⟨call, mount⟩) :: fill clone (call + 1) rest
    | .error _ => fill clone (call + 1) rest

/-- The bytes that the paths take in the buffer, with a terminator each. -/
def pathBytes {α : Type} (calls : List (Bytes × α)) : Nat :=
  (calls.map fun call => call.1.length + 1).sum

/-- `ZX_ERR_NO_MEMORY`. -/
def noMemory : Status := .other (-4)

structure State (Callback : Type) where
  rootName : Bytes := []
  root : Vnode Callback Nat := .intermediate {}
  /-- The number of the next remote vnode. -/
  created : Nat := 0

/-- `fdio_namespace::Export`: the entries of the flat namespace. The counting pass decides
how much is allocated, `clone` is the outcome of every `zxio_clone`. -/
def exportFlat (malloc : (count bufferSize : Nat) → Bool) (clone : Nat → Except Status Unit)
    (st : State Callback) : Except Status (List (Bytes × Handle)) :=
  let calls := enumerateRemotes st.rootName st.root
  if malloc calls.length (pathBytes calls) then
    .ok (fill clone 0 (enumerateRemotes st.rootName st.root))
  else .error noMemory

/-! ## Histories -/

/-- What an `fdio_t` given to `SetRoot` refers to. -/
inductive Directory (Channel : Type) where
  /-- An `Intermediate` of the namespace's tree. -/
  | linked (place : List Bytes)
  /-- An `Intermediate` that has left the tree: `Unlink` took its children. Its name was a
  segment of a path. -/
  | unlinked (name : Bytes) (segment : slash ∉ name) (nextNodeId : Nat)
  /-- Anything else, with the outcome of cloning it. -/
  | foreign (cloned : Except Status Channel)

inductive Operation (Callback Channel : Type) where
  | bindRemote (path : Bytes) (client : Option Channel)
  | bindLocal (path : Bytes) (onOpen : Callback)
  | unbind (path : Bytes)
  | setRoot (directory : Directory Channel)

def Operation.path? : Operation Callback Channel → Option Bytes
  | .bindRemote path _ => some path
  | .bindLocal path _ => some path
  | .unbind path => some path
  | .setRoot _ => none

/-- `Bind` and `Unbind` of `/` put a vnode without a name in the place of the root. -/
def nameAfter (path : Bytes) (result : Except Status Unit) (name : Bytes) : Bytes :=
  if result = .ok () ∧ path.tail = [] then [] else name

/-- `fdio_namespace::SetRoot`. The root itself is left in place, any other vnode leaves its
parent and the old root is unlinked. -/
def setRoot (createRemoteVnode : Channel → Except Status Unit) (st : State Callback) :
    Directory Channel → State Callback
  | .linked place =>
    match place.getLast?, nodeAt place st.root with
    | some name, some (.intermediate entries) =>
      { st with rootName := name, root := .intermediate entries }
    | _, _ => st
  | .unlinked name _ nextNodeId =>
    { st with rootName := name, root := .intermediate { nextNodeId := nextNodeId } }
  | .foreign cloned =>
    match cloned.bind createRemoteVnode with
    | .ok () => { rootName := [], root := .remote st.created, created := st.created + 1 }
    | .error _ => st

def step (createRemoteVnode : Channel → Except Status Unit) (st : State Callback) :
    Operation Callback Channel → State Callback
  | .bindRemote path client =>
    let bound := bindRemote (fun channel => (createRemoteVnode channel).map fun _ => st.created)
      client path st.root
    { rootName := nameAfter path bound.1 st.rootName
      root := bound.2
      created := st.created + 1 }
  | .bindLocal path onOpen =>
    let bound := bindLocal onOpen path st.root
    { st with rootName := nameAfter path bound.1 st.rootName, root := bound.2 }
  | .unbind path =>
    let unbound := unbind path st.root
    { st with rootName := nameAfter path unbound.1 st.rootName, root := unbound.2 }
  | .setRoot directory => setRoot createRemoteVnode st directory

/-- The namespace after a history of operations. -/
def stateAfter (createRemoteVnode : Channel → Except Status Unit)
    (operations : List (Operation Callback Channel)) : State Callback :=
  operations.foldl (step createRemoteVnode) {}

/-! ## Names of mounts -/

/-- What the path buffer holds at the mount with a list of names below a vnode. -/
def labelFrom : (path name : Bytes) → List Bytes → Bytes
  | path, name, [] => appendName path name
  | path, name, next :: rest => labelFrom (enter path name) next rest

/-- The path under which a mount is exported. -/
def label (rootName : Bytes) (key : List Bytes) : Bytes := labelFrom [slash] rootName key

/-- The flat namespace has for each remote mount of the tree one entry, under the path by
which it is reached and with a handle that was cloned from it, and no other entry. -/
structure Faithful (clone : Nat → Except Status Unit) (root : Vnode Callback Nat)
    (entries : List (Bytes × Handle)) : Prop where
  complete : ∀ key mount, mountAt key root = some (.remote mount) →
    ∃ handle, entries.filter (fun entry => entry.2.mount = mount) = [(render key, handle)]
  exact : ∀ entry ∈ entries, clone entry.2.call = .ok () ∧
    ∃ key, mountAt key root = some (.remote entry.2.mount)

lemma forEach_eq (byId : List (Nat × Bytes × Vnode Callback Storage)) :
    forEach path byId = byId.flatMap fun entry => enumerateInternal path entry.2.1 entry.2.2 := by
  induction byId with
  | nil => rfl
  | cons entry _ ih =>
    obtain ⟨_, _, _⟩ := entry
    rw [forEach, ih]
    rfl

/-- A list of the remote mounts below a vnode, in the order of their enumeration. -/
structure Lists (path name : Bytes) (vn : Vnode Callback Storage)
    (keyed : List (List Bytes × Storage)) : Prop where
  calls : enumerateInternal path name vn =
    keyed.map fun mount => (labelFrom path name mount.1, mount.2)
  mem : ∀ key storage, (key, storage) ∈ keyed ↔ mountAt key vn = some (.remote storage)
  distinct : (keyed.map Prod.fst).Nodup

/-- The same for some entries of a directory. -/
private lemma exists_lists_entries (byId : List (Nat × Bytes × Vnode Callback Storage))
    (distinct : (byId.map fun entry => entry.2.1).Nodup)
    (below : ∀ entry ∈ byId, ∃ keyed, Lists path entry.2.1 entry.2.2 keyed) :
    ∃ keyed : List (List Bytes × Storage),
      byId.flatMap (fun entry => enumerateInternal path entry.2.1 entry.2.2) =
        keyed.map (fun mount => (labelFrom path (mount.1.headD []) mount.1.tail, mount.2)) ∧
      (∀ key storage, (key, storage) ∈ keyed ↔
        ∃ entry ∈ byId, ∃ rest, key = entry.2.1 :: rest ∧ mountAt rest entry.2.2 = some (.remote storage)) ∧
      (keyed.map Prod.fst).Nodup := by
  induction byId with
  | nil => exact ⟨[], rfl, by simp, nodup_nil⟩
  | cons entry _ ih =>
    obtain ⟨fresh, distinct⟩ := nodup_cons.mp distinct
    obtain ⟨later, laterCalls, laterMem, laterDistinct⟩ :=
      ih distinct fun other member => below other (mem_cons_of_mem _ member)
    obtain ⟨first, lists⟩ := below entry (mem_cons_self ..)
    refine ⟨first.map (fun mount => (entry.2.1 :: mount.1, mount.2)) ++ later, ?_, ?_, ?_⟩
    · rw [flatMap_cons, laterCalls, lists.calls, map_append, map_map]
      rfl
    · intro key storage
      rw [mem_append, laterMem]
      constructor
      · rintro (member | ⟨other, member, found⟩)
        · obtain ⟨⟨rest, _⟩, listed, same⟩ := mem_map.mp member
          cases same
          exact ⟨entry, mem_cons_self .., rest, rfl, (lists.mem ..).mp listed⟩
        · exact ⟨other, mem_cons_of_mem _ member, found⟩
      · rintro ⟨other, member, rest, rfl, found⟩
        rcases mem_cons.mp member with rfl | member
        · exact .inl (mem_map.mpr ⟨(rest, storage), (lists.mem ..).mpr found, rfl⟩)
        · exact .inr ⟨other, member, rest, rfl, found⟩
    · rw [map_append, map_map]
      refine List.Nodup.append ?_ laterDistinct ?_
      · have prefixed : first.map (Prod.fst ∘ fun mount => (entry.2.1 :: mount.1, mount.2)) =
            (first.map Prod.fst).map (entry.2.1 :: ·) := by
          rw [map_map]
          rfl
        rw [prefixed]
        exact lists.distinct.map (cons_injective)
      · intro key here there
        obtain ⟨⟨rest, storage⟩, -, rfl⟩ := mem_map.mp here
        obtain ⟨⟨key, _⟩, member, same⟩ := mem_map.mp there
        obtain ⟨other, member, rest', same', -⟩ := (laterMem ..).mp member
        -- another entry has another name
        have name : entry.2.1 = other.2.1 := by
          have heads := congrArg head? (same.symm.trans same')
          exact Option.some.inj heads
        exact fresh (mem_map.mpr ⟨other, member, name.symm⟩)

lemma exists_lists (sound : Sound vn) (path name : Bytes) : ∃ keyed, Lists path name vn keyed := by
  induction sound generalizing path name with
  | «local» onOpen =>
    refine ⟨[], rfl, fun key storage => ?_, nodup_nil⟩
    cases key <;> simp [mountAt, mount?, lookup]
  | remote storage =>
    refine ⟨[([], storage)], rfl, fun key storage' => ?_, nodup_singleton _⟩
    cases key <;> simp [mountAt, mount?, lookup, eq_comm]
  | @intermediate entries consistent _ _ sound ih =>
    obtain ⟨keyed, calls, mem, distinct⟩ := exists_lists_entries entries.byId
      consistent.distinct fun entry member =>
        ih entry.2.1 entry.2.2 (consistent.lookup_eq_some_iff.mpr ⟨entry.1, member⟩) _ _
    refine ⟨keyed, ?_, ?_, distinct⟩
    · rw [enumerateInternal, forAllEntries, forEach_eq, calls]
      refine map_congr_left fun mount member => ?_
      obtain ⟨entry, -, rest, same, -⟩ := (mem mount.1 mount.2).mp member
      rw [same]
      rfl
    · intro key storage
      rw [mem]
      cases key with
      | nil => simp [mountAt, mount?]
      | cons _ rest =>
        rw [mountAt_cons, Option.bind_eq_some_iff]
        constructor
        · rintro ⟨entry, member, _, same, found⟩
          cases same
          exact ⟨entry.2.2, consistent.lookup_eq_some_iff.mpr ⟨entry.1, member⟩, found⟩
        · rintro ⟨_, looked, found⟩
          obtain ⟨id, member⟩ := consistent.lookup_eq_some_iff.mp looked
          exact ⟨_, member, rest, rfl, found⟩

/-! ## Paths in the buffer -/

/-- The names of a remote mount that keeps its path. Below a root without a name the path
fits the buffer, and no name but the last is empty. Below a root with a name the path is
that name over and over, and it fills the buffer to the last byte. -/
def Plain (rootName : Bytes) (key : List Bytes) : Prop :=
  (rootName = [] ∧ (∀ part ∈ key.dropLast, part ≠ []) ∧ (render key).length ≤ pathMax - 1) ∨
    (rootName ≠ [] ∧ (render key).length = pathMax - 1 ∧
      ∃ count cut, cut <+: rootName ∧ key = replicate count rootName ++ [cut])

section Paths

variable {path name rootName : Bytes} {parts key front : List Bytes}

/-- The names after which a separator comes, and the last name. -/
def squeeze : List Bytes → List Bytes
  | [] => []
  | [name] => [name]
  | name :: next :: rest =>
    if name.length > 0 then name :: squeeze (next :: rest) else squeeze (next :: rest)

lemma squeeze_ne_nil : squeeze (name :: parts) ≠ [] := by
  induction parts generalizing name with
  | nil => exact cons_ne_nil _ _
  | cons next rest ih =>
    rw [squeeze]
    split
    · exact cons_ne_nil _ _
    · exact ih

private lemma mem_squeeze (mem : name ∈ squeeze parts) : name ∈ parts := by
  fun_induction squeeze parts with
  | case1 | case2 => exact mem
  | case3 first next rest long ih =>
    rcases mem_cons.mp mem with rfl | mem
    · exact mem_cons_self ..
    · exact mem_cons_of_mem _ (ih mem)
  | case4 first next rest short ih => exact mem_cons_of_mem _ (ih mem)

lemma squeeze_eq (named : ∀ part ∈ parts.dropLast, part ≠ []) : squeeze parts = parts := by
  fun_induction squeeze parts with
  | case1 | case2 => rfl
  | case3 first next rest long ih =>
    rw [ih fun part mem => named part (by rw [dropLast_cons_cons]; exact mem_cons_of_mem _ mem)]
  | case4 first next rest short ih =>
    exact absurd (length_pos_iff.mpr (named first (by simp))) short

private lemma named_squeeze : ∀ part ∈ (squeeze parts).dropLast, part ≠ [] := by
  fun_induction squeeze parts with
  | case1 | case2 => simp
  | case3 first next rest long ih =>
    rw [dropLast_cons_of_ne_nil squeeze_ne_nil]
    intro part mem
    rcases mem_cons.mp mem with rfl | mem
    · exact length_pos_iff.mp long
    · exact ih part mem
  | case4 first next rest short ih => exact ih

lemma take_append_take (front back : Bytes) :
    (front.take room ++ back).take room = (front ++ back).take room := by
  rcases Nat.le_total front.length room with short | long
  · rw [take_of_length_le short]
  · rw [take_append_of_le_length (by rw [length_take]; omega), take_take, Nat.min_self,
      take_append_of_le_length long]

lemma append_eq_take (fits : path.length ≤ pathMax - 1) (byte : UInt8) :
    append path byte = (path ++ [byte]).take (pathMax - 1) := by
  rw [append]
  split
  · rw [take_of_length_le (by rw [length_append, length_singleton]; omega)]
  · rw [take_append_of_le_length (by omega), take_of_length_le fits]

lemma appendName_eq (fits : path.length ≤ pathMax - 1) :
    appendName path name = (path ++ name).take (pathMax - 1) := by
  induction name generalizing path with
  | nil => rw [append_nil, take_of_length_le fits, appendName, foldl_nil]
  | cons byte rest ih =>
    have step := @ih (append path byte) (by rw [append_eq_take fits]; exact length_take_le ..)
    rw [appendName] at step ⊢
    rw [foldl_cons, step, append_eq_take fits, take_append_take, append_assoc, singleton_append]

private lemma labelFrom_eq (fits : path.length ≤ pathMax - 1) :
    labelFrom path name key =
      (path ++ [slash].intercalate (squeeze (name :: key))).take (pathMax - 1) := by
  induction key generalizing path name with
  | nil => rw [labelFrom, squeeze, intercalate_singleton, appendName_eq fits]
  | cons next rest ih =>
    have cut : ∀ text : Bytes, (text.take (pathMax - 1)).length ≤ pathMax - 1 := length_take_le _
    rw [labelFrom, enter, squeeze]
    split
    · rw [appendName_eq fits, append_eq_take (cut _), take_append_take, ih (cut _), take_append_take,
        intercalate_cons_of_ne_nil squeeze_ne_nil]
      simp only [append_assoc]
    next short =>
      rw [length_eq_zero_iff.mp (Nat.eq_zero_of_not_pos short)]
      exact ih fits

lemma label_eq : label rootName key = (render (squeeze (rootName :: key))).take (pathMax - 1) :=
  labelFrom_eq (by decide)

/-- A name that is all of the text before a separator is not shorter than one that the text
begins with. -/
lemma length_le_of_separator {text : Bytes} (free : slash ∉ path) (starts : path <+: text)
    (separated : name ++ [slash] <+: text) : path.length ≤ name.length := by
  by_contra longer
  have inside : name ++ [slash] <+: path :=
    prefix_of_prefix_length_le separated starts (by rw [length_append, length_singleton]; omega)
  exact free (inside.subset (mem_append_right _ (mem_singleton_self _)))

private lemma separated_prefix {back rest : Bytes} (free : slash ∉ path) (free' : slash ∉ name)
    (starts : path ++ slash :: back <+: name ++ slash :: rest) : path = name ∧ back <+: rest := by
  have ended : ∀ part rest : Bytes, part ++ [slash] <+: part ++ slash :: rest := fun part rest =>
    ⟨rest, by rw [append_assoc, singleton_append]⟩
  have first : path <+: name ++ slash :: rest := (prefix_append ..).trans starts
  have length : path.length = name.length := Nat.le_antisymm
    (length_le_of_separator free first (ended name rest))
    (length_le_of_separator free' (prefix_append ..) ((ended path back).trans starts))
  have same : path = name :=
    (prefix_of_prefix_length_le first (prefix_append ..) (Nat.le_of_eq length)).eq_of_length length
  subst same
  exact ⟨rfl, (cons_prefix_cons.mp ((prefix_append_right_inj path).mp starts)).2⟩

/-- The names of a path that begins another are the first names of the other, up to the
last one, which may be cut off. -/
private lemma names_of_part (free : ∀ part ∈ key, slash ∉ part)
    (free' : ∀ part ∈ parts, slash ∉ part) (nonempty : key ≠ []) (nonempty' : parts ≠ [])
    (starts : [slash].intercalate key <+: [slash].intercalate parts) :
    ∃ front last cut back, key = front ++ [cut] ∧ parts = front ++ last :: back ∧ cut <+: last := by
  induction key generalizing parts with
  | nil => exact absurd rfl nonempty
  | cons name more ih =>
    obtain ⟨first, others, rfl⟩ := exists_cons_of_ne_nil nonempty'
    rw [forall_mem_cons] at free free'
    cases more with
    | nil =>
      refine ⟨[], first, name, others, rfl, rfl, ?_⟩
      rw [intercalate_singleton] at starts
      cases others with
      | nil => rwa [intercalate_singleton] at starts
      | cons next rest =>
        rw [intercalate_cons_cons] at starts
        have shorter := length_le_of_separator free.1 starts (prefix_append ..)
        rw [append_assoc] at starts
        exact prefix_of_prefix_length_le starts (prefix_append ..) shorter
    | cons next rest =>
      rw [intercalate_cons_cons, append_assoc, singleton_append] at starts
      cases others with
      | nil =>
        rw [intercalate_singleton] at starts
        exact absurd (starts.subset (mem_append_right _ (mem_cons_self ..))) free'.1
      | cons next' rest' =>
        rw [intercalate_cons_cons, append_assoc, singleton_append] at starts
        obtain ⟨rfl, deeper⟩ := separated_prefix free.1 free'.1 starts
        obtain ⟨front, last, cut, back, own, other, cutOff⟩ :=
          ih free.2 free'.2 (cons_ne_nil _ _) (cons_ne_nil _ _) deeper
        exact ⟨name :: front, last, cut, back, by rw [own, cons_append], by rw [other, cons_append],
          cutOff⟩

private lemma prefix_of_intercalate {cut last : Bytes} (starts : cut <+: last) :
    [slash].intercalate (front ++ [cut]) <+: [slash].intercalate (front ++ last :: parts) := by
  induction front with
  | nil =>
    rw [nil_append, nil_append, intercalate_singleton]
    cases parts with
    | nil => rwa [intercalate_singleton]
    | cons =>
      rw [intercalate_cons_cons, append_assoc]
      exact starts.trans (prefix_append ..)
  | cons name _ ih =>
    rw [cons_append, cons_append, intercalate_cons_of_ne_nil (by simp),
      intercalate_cons_of_ne_nil (by simp)]
    exact (prefix_append_right_inj _).mpr ih

private lemma replicate_of_rotation (rotated : rootName :: front = front ++ [last]) :
    front = replicate front.length rootName ∧ last = rootName := by
  induction front with
  | nil => exact ⟨rfl, (cons.inj rotated).1.symm⟩
  | cons name rest ih =>
    obtain ⟨rfl, rest'⟩ := cons.inj rotated
    obtain ⟨same, lastSame⟩ := ih rest'
    exact ⟨by rw [length_cons, replicate_succ, ← same], lastSame⟩

private lemma plain_of_label (free : slash ∉ rootName) (frees : ∀ part ∈ key, slash ∉ part)
    (labelled : label rootName key = render key) : Plain rootName key := by
  rw [label_eq] at labelled
  have length : (render key).length ≤ pathMax - 1 := labelled ▸ length_take_le ..
  have starts : render key <+: render (squeeze (rootName :: key)) := labelled ▸ take_prefix ..
  cases key with
  | nil =>
    -- the path is the separator, so there is no room for a name
    refine .inl ⟨?_, by simp, length⟩
    rw [squeeze, render, intercalate_singleton, render, intercalate_nil] at labelled
    have lengths := congrArg List.length labelled
    rw [length_take, length_cons, length_singleton] at lengths
    have room : 2 ≤ pathMax - 1 := by decide
    exact length_eq_zero_iff.mp (by omega)
  | cons name rest =>
    have inside := (cons_prefix_cons.mp starts).2
    obtain ⟨front, last, cut, back, own, other, cutOff⟩ := names_of_part frees
      (fun part mem => (mem_cons.mp (mem_squeeze mem)).elim (fun same => same ▸ free) (frees part))
      (cons_ne_nil _ _) squeeze_ne_nil inside
    have named : ∀ part ∈ (name :: rest).dropLast, part ≠ [] := by
      rw [own, dropLast_concat]
      intro part mem
      refine @named_squeeze (rootName :: name :: rest) part ?_
      rw [other, dropLast_append_of_ne_nil (cons_ne_nil _ _)]
      exact mem_append_left _ mem
    by_cases unnamed : rootName = []
    · exact .inl ⟨unnamed, named, length⟩
    · have all : squeeze (rootName :: name :: rest) = rootName :: name :: rest :=
        squeeze_eq (by
          rw [dropLast_cons_cons, forall_mem_cons]
          exact ⟨unnamed, named⟩)
      have longer : (render (rootName :: name :: rest)).length =
          (render (name :: rest)).length + rootName.length + 1 := by
        simp only [render, intercalate_cons_cons, length_cons, length_append, length_nil]
        omega
      have lengths := congrArg List.length labelled
      rw [all, length_take, longer] at lengths
      rw [all, own, ← cons_append, append_cons front] at other
      have rotated := append_inj_left other (by rw [length_cons, length_append, length_singleton])
      obtain ⟨repeated, lastSame⟩ := replicate_of_rotation rotated
      refine .inr ⟨unnamed, by omega, front.length, cut, lastSame ▸ cutOff, ?_⟩
      rw [← repeated, own]

private lemma label_of_plain (plain : Plain rootName key) : label rootName key = render key := by
  rw [label_eq]
  rcases plain with ⟨rfl, named, length⟩ | ⟨named, length, count, cut, starts, rfl⟩
  · cases key with
    | nil => rfl
    | cons name rest =>
      have dropped : squeeze ([] :: name :: rest) = squeeze (name :: rest) := rfl
      rw [dropped, squeeze_eq named, take_of_length_le length]
  · have all : squeeze (rootName :: (replicate count rootName ++ [cut])) =
        replicate count rootName ++ rootName :: [cut] := by
      rw [← cons_append, ← replicate_succ, squeeze_eq]
      · rw [replicate_succ', append_assoc, singleton_append]
      · rw [dropLast_concat]
        intro part mem
        rwa [eq_of_mem_replicate mem]
    have longer := cons_prefix_cons.mpr
      ⟨@rfl _ slash, @prefix_of_intercalate [cut] (replicate count rootName) _ _ starts⟩
    rw [all, ← length]
    exact (prefix_iff_eq_take.mp longer).symm

end Paths

/-! ## The filling pass -/

section Filling

variable {clone : Nat → Except Status Unit} {calls : List (Bytes × Nat)} {path : Bytes} {mount : Nat}

private lemma fill_append (call : Nat) :
    fill clone call (front ++ back) = fill clone call front ++ fill clone (call + front.length) back := by
  induction front generalizing call with
  | nil => rfl
  | cons _ rest ih =>
    have later : call + (rest.length + 1) = call + 1 + rest.length := by omega
    rw [cons_append, fill, fill, length_cons, later]
    cases clone call with
    | ok => rw [cons_append, ih]
    | error => exact ih (call + 1)

lemma mem_fill (mem : entry ∈ fill clone call calls) :
    (entry.1, entry.2.mount) ∈ calls ∧ clone entry.2.call = .ok () := by
  induction calls generalizing call with
  | nil => cases mem
  | cons _ _ ih =>
    rw [fill] at mem
    split at mem
    next cloned =>
      rcases mem_cons.mp mem with rfl | mem
      · exact ⟨mem_cons_self .., cloned⟩
      · exact ⟨mem_cons_of_mem _ (ih mem).1, (ih mem).2⟩
    · exact ⟨mem_cons_of_mem _ (ih mem).1, (ih mem).2⟩

lemma filter_fill_nil (absent : mount ∉ calls.map Prod.snd) :
    (fill clone call calls).filter (fun entry => entry.2.mount = mount) = [] := by
  rw [filter_eq_nil_iff]
  intro entry mem same
  have here := mem_map_of_mem (f := Prod.snd) (mem_fill mem).1
  rw [of_decide_eq_true same] at here
  exact absent here

/-- The entries of one mount: that of its only call, if the clone succeeded. -/
private lemma filter_fill {front back : List (Bytes × Nat)}
    (distinct : ((front ++ (path, mount) :: back).map Prod.snd).Nodup) :
    (fill clone 0 (front ++ (path, mount) :: back)).filter (fun entry => entry.2.mount = mount) =
      match clone front.length with
      | .ok () => [(path, ⟨front.length, mount⟩)]
      | .error _ => [] := by
  rw [map_append, nodup_append] at distinct
  obtain ⟨-, after, apart⟩ := distinct
  have notBefore : mount ∉ front.map Prod.snd := fun mem =>
    apart mount mem mount (mem_cons_self ..) rfl
  have notAfter : mount ∉ back.map Prod.snd := (nodup_cons.mp after).1
  rw [fill_append, filter_append, filter_fill_nil notBefore, nil_append, Nat.zero_add, fill]
  cases clone front.length with
  | ok _ => rw [filter_cons_of_pos (by simp), filter_fill_nil notAfter]
  | error _ => exact filter_fill_nil notAfter

end Filling

lemma free_findNextPathSegment : slash ∉ (findNextPathSegment path).1 := by
  rw [findNextPathSegment]
  split
  · intro mem
    have passed := all_eq_true.mp (@all_takeWhile _ (· != slash) path) _ mem
    exact bne_iff_ne.mp passed rfl
  next last => exact last

private lemma free_segmentsLoop : ∀ part ∈ segmentsLoop fuel path, slash ∉ part := by
  induction fuel generalizing path with
  | zero => exact fun part mem => absurd mem not_mem_nil
  | succ fuel ih =>
    simp only [segmentsLoop]
    split
    · exact forall_mem_singleton.mpr free_findNextPathSegment
    · exact forall_mem_cons.mpr ⟨free_findNextPathSegment, ih⟩

private lemma free_keyOf (path : Bytes) : ∀ part ∈ keyOf path, slash ∉ part := by
  rw [keyOf]
  split
  · exact fun part mem => absurd mem not_mem_nil
  · exact free_segmentsLoop

/-! ## Whole histories -/

section Histories

variable {createRemoteVnode : Channel → Except Status Unit} {st : State Callback}

/-- Every remote vnode is in the tree at most once. -/
abbrev Inv (st : State Callback) : Prop := Numbered .remote st.created st.root

private lemma inv_bindRemote (inv : Inv st) : Inv (step createRemoteVnode st (.bindRemote path client)) := by
  cases client with
  | none => exact inv.of_mounts [] inv.sound (Nat.le_succ _) fun key mount found => .inl found
  | some channel =>
    refine inv.of_mounts (keyOf path) (bind_keeps _ path inv.sound).1 (Nat.le_succ _)
      fun key mount found => (mountAt_bind inv.sound found).imp_right fun ⟨here, built, _⟩ => ?_
    cases created : createRemoteVnode channel <;> simp only [created] at built <;> cases built
    exact ⟨here, rfl, Nat.lt_succ_self _⟩

private lemma inv_bindLocal (inv : Inv st) (path : Bytes) (onOpen : Callback) :
    Inv (step createRemoteVnode st (.bindLocal path onOpen)) := by
  refine inv.of_mounts [] (bind_keeps _ path inv.sound).1 (Nat.le_refl _) fun key mount found => ?_
  rcases mountAt_bind inv.sound found with before | ⟨-, built, -⟩
  · exact .inl before
  · cases built

private lemma inv_unbind (inv : Inv st) (path : Bytes) : Inv (step createRemoteVnode st (.unbind path)) :=
  inv.of_mounts [] (unbind_keeps inv.sound).1 (Nat.le_refl _)
    fun _ _ found => .inl (mountAt_unbind inv.sound found).1

/-- What lies below a place in the tree. -/
lemma mountAt_below (found : nodeAt place vn = some (.intermediate entries)) (key : List Bytes) :
    mountAt key (.intermediate entries) = mountAt (place ++ key) vn := by
  rw [mountAt_append, found]
  rfl

private lemma inv_setRoot (inv : Inv st) : Inv (setRoot createRemoteVnode st directory) := by
  cases directory with
  | linked place =>
    rw [setRoot]
    split
    · rename_i name entries last found
      -- a mount of the new root is one of the old root, below the place
      refine ⟨(sound_nodeAt inv.sound found).1, fun key mount bound => ?_,
        fun key other mount bound again => ?_⟩
      · rw [mountAt_below found] at bound
        exact inv.known _ mount bound
      · rw [mountAt_below found] at bound again
        exact append_cancel_left (inv.once _ _ mount bound again)
    · exact inv
  | unlinked name segment nextNodeId =>
    have empty : ∀ key, mountAt key (.intermediate { nextNodeId := nextNodeId } : Vnode Callback Nat) =
        none := by
      rintro (_ | ⟨name, rest⟩) <;> rfl
    refine inv.of_mounts [] ?_ (Nat.le_refl _) fun key mount bound => ?_
    · refine .intermediate ⟨rfl, List.Pairwise.nil, by simp, nodup_nil⟩ ?_ ?_ ?_ <;>
        · intro name _ looked
          cases looked
    · rw [setRoot, empty] at bound
      cases bound
  | foreign =>
    rw [setRoot]
    split
    · refine inv.of_mounts [] (.remote _) (Nat.le_succ _) ?_
      rintro (_ | ⟨name, rest⟩) mount bound
      · cases bound
        exact .inr ⟨rfl, rfl, Nat.lt_succ_self _⟩
      · cases bound
    · exact inv

lemma inv_step (inv : Inv st) (operation : Operation Callback Channel) :
    Inv (step createRemoteVnode st operation) := by
  cases operation with
  | bindRemote path => exact inv_bindRemote inv
  | bindLocal path onOpen => exact inv_bindLocal inv path onOpen
  | unbind path => exact inv_unbind inv path
  | setRoot => exact inv_setRoot inv

lemma inv_stateAfter : Inv (stateAfter createRemoteVnode operations) :=
  foldlRecOn operations _ Numbered.start fun _ inv operation _ => inv_step inv operation

/-- What is known of the root's name, and of the names on the way to every mount. -/
structure Names (own : Bytes → Prop) (onTheWay : List Bytes → Prop) (st : State Callback) : Prop where
  root : own st.rootName
  mounts : ∀ key mount, mountAt key st.root = some mount → onTheWay key

lemma Names.of_mounts (names : Names own onTheWay st) (bare : own []) (here : onTheWay (keyOf path))
    (result : Except Status Unit) (old : ∀ key mount, mountAt key after = some mount →
      mountAt key st.root = some mount ∨ key = keyOf path) :
    Names own onTheWay ⟨nameAfter path result st.rootName, after, created⟩ where
  root := by
    rw [nameAfter]
    split
    · exact bare
    · exact names.root
  mounts key mount found := by
    rcases old key mount found with before | rfl
    · exact names.mounts key mount before
    · exact here

/-- A mount comes at the end of a path, and `SetRoot` is for the caller to judge. -/
lemma Names.step (names : Names own onTheWay st) (sound : Sound st.root) (bare : own [])
    (here : ∀ path ∈ operation.path?, onTheWay (keyOf path))
    (rooted : ∀ directory, operation = .setRoot directory →
      Names own onTheWay (setRoot createRemoteVnode st directory)) :
    Names own onTheWay (step createRemoteVnode st operation) := by
  cases operation with
  | bindRemote path client =>
    refine names.of_mounts bare (here path rfl) _ fun key mount found => ?_
    cases client with
    | none => exact .inl found
    | some => exact (mountAt_bind sound found).imp_right And.left
  | bindLocal path =>
    exact names.of_mounts bare (here path rfl) _ fun key mount found =>
      (mountAt_bind sound found).imp_right And.left
  | unbind path =>
    exact names.of_mounts bare (here path rfl) _ fun key mount found =>
      .inl (mountAt_unbind sound found).1
  | setRoot directory => exact rooted directory rfl

lemma names_stateAfter (bare : own []) (kept : ∀ st : State Callback, Sound st.root →
      ∀ operation ∈ operations, Names own onTheWay st →
        Names own onTheWay (step createRemoteVnode st operation)) :
    Names own onTheWay (stateAfter createRemoteVnode operations : State Callback) := by
  have start : Inv ({} : State Callback) ∧ Names own onTheWay ({} : State Callback) :=
    ⟨.start, bare, fun key mount found => by rw [mountAt_empty] at found; cases found⟩
  exact (foldlRecOn (motive := fun st : State Callback => Inv st ∧ Names own onTheWay st)
    operations (step createRemoteVnode) start fun st both operation mem =>
      ⟨inv_step both.1 operation, kept st both.1.sound operation mem both.2⟩).2

/-- No name has a separator in it. -/
abbrev Free : State Callback → Prop := Names (slash ∉ ·) fun key => ∀ part ∈ key, slash ∉ part

private lemma free_setRoot (free : Free st) (sound : Sound st.root) :
    Free (setRoot createRemoteVnode st directory) := by
  cases directory with
  | linked place =>
    rw [setRoot]
    split
    · rename_i name entries last found
      have member := mem_of_getLast? last
      -- the directory has a mount below it, so its own name is one on the way to a mount
      obtain ⟨inside, occupied⟩ := sound_nodeAt sound found
      obtain ⟨key, mount, bound⟩ := inside.exists_mount (occupied (ne_nil_of_mem member))
      rw [mountAt_below found] at bound
      refine ⟨free.mounts _ mount bound name (mem_append_left _ member), fun key mount bound => ?_⟩
      rw [mountAt_below found] at bound
      exact fun part mem => free.mounts _ mount bound part (mem_append_right _ mem)
    · exact free
  | unlinked name segment nextNodeId =>
    refine ⟨segment, ?_⟩
    rintro (_ | ⟨name, rest⟩) mount bound <;> cases bound
  | foreign cloned =>
    rw [setRoot]
    split
    · refine ⟨not_mem_nil, ?_⟩
      rintro (_ | ⟨name, rest⟩) mount bound
      · exact fun part mem => absurd mem not_mem_nil
      · cases bound
    · exact free

private lemma free_stateAfter : Free (stateAfter createRemoteVnode operations : State Callback) :=
  names_stateAfter not_mem_nil fun _ sound _ _ free =>
    free.step sound not_mem_nil (fun path _ => free_keyOf path) fun _ _ => free_setRoot free sound

/-- Every clone that `Export` asks for succeeds. -/
def Cloned (clone : Nat → Except Status Unit) (st : State Callback) : Prop :=
  ∀ call < (enumerateRemotes st.rootName st.root).length, clone call = .ok ()

def Tidy (st : State Callback) : Prop :=
  ∀ key mount, mountAt key st.root = some (.remote mount) → Plain st.rootName key

/-- The calls of the enumeration are the remote mounts, each once. -/
lemma enumerateRemotes_mounts (inv : Inv st) :
    ((enumerateRemotes st.rootName st.root).map Prod.snd).Nodup ∧
    (∀ key mount, mountAt key st.root = some (.remote mount) →
      (label st.rootName key, mount) ∈ enumerateRemotes st.rootName st.root) ∧
    ∀ path mount, (path, mount) ∈ enumerateRemotes st.rootName st.root →
      ∃ key, mountAt key st.root = some (.remote mount) := by
  obtain ⟨keyed, calls, mem, distinct⟩ := exists_lists inv.sound [slash] st.rootName
  have same : enumerateRemotes st.rootName st.root =
      keyed.map fun mount => (label st.rootName mount.1, mount.2) := calls
  rw [same]
  refine ⟨?_, fun key mount bound => ?_, fun path mount member => ?_⟩
  · rw [map_map]
    refine List.Nodup.map_on ?_ (List.Nodup.of_map _ distinct)
    intro first here second there mounts
    have second' : (second.1, first.2) ∈ keyed := by
      rw [show first.2 = second.2 from mounts]
      exact there
    exact Prod.ext (inv.once _ _ first.2 ((mem ..).mp here) ((mem ..).mp second')) mounts
  · exact mem_map.mpr ⟨(key, mount), (mem ..).mpr bound, rfl⟩
  · obtain ⟨⟨key, _⟩, listed, equal⟩ := mem_map.mp member
    cases equal
    exact ⟨key, (mem ..).mp listed⟩

/-- The entries of the mount of one call: its own, if the clone succeeded. -/
lemma entries_of_call (inv : Inv st)
    (called : (enumerateRemotes st.rootName st.root)[call]? = some (path, mount)) :
    (fill clone 0 (enumerateRemotes st.rootName st.root)).filter (fun entry => entry.2.mount = mount) =
      match clone call with
      | .ok () => [(path, ⟨call, mount⟩)]
      | .error _ => [] := by
  obtain ⟨distinct, -, -⟩ := enumerateRemotes_mounts inv
  obtain ⟨within, here⟩ := List.getElem?_eq_some_iff.mp called
  have split := take_append_drop call (enumerateRemotes st.rootName st.root)
  rw [drop_eq_getElem_cons within, here] at split
  have length : ((enumerateRemotes st.rootName st.root).take call).length = call :=
    length_take_of_le (Nat.le_of_lt within)
  rw [← split] at distinct
  have entries := @filter_fill clone _ _ _ _ distinct
  rw [split, length] at entries
  exact entries

lemma faithful_iff (inv : Inv st) (free : Free st) :
    Faithful clone st.root (fill clone 0 (enumerateRemotes st.rootName st.root)) ↔
      Cloned clone st ∧ Tidy st := by
  obtain ⟨-, listed, bound⟩ := enumerateRemotes_mounts inv
  constructor
  · -- the one entry of a mount is that of its call
    intro faithful
    have named : ∀ call path mount key, mountAt key st.root = some (.remote mount) →
        (enumerateRemotes st.rootName st.root)[call]? = some (path, mount) →
        clone call = .ok () ∧ path = render key := by
      intro call path mount key mounted called
      obtain ⟨handle, only⟩ := faithful.complete key mount mounted
      rw [entries_of_call inv called] at only
      split at only <;> cases only
      rename_i cloned
      exact ⟨cloned, rfl⟩
    constructor
    · intro call within
      have called := getElem?_eq_getElem within
      obtain ⟨key, mounted⟩ := bound _ _ (getElem_mem within)
      exact (named call _ _ key mounted called).1
    · intro key mount mounted
      obtain ⟨call, called⟩ := mem_iff_getElem?.mp (listed key mount mounted)
      exact plain_of_label free.root (free.mounts key _ mounted)
        (named call _ mount key mounted called).2
  · rintro ⟨cloned, tidy⟩
    constructor
    · intro key mount mounted
      obtain ⟨call, called⟩ := mem_iff_getElem?.mp (listed key mount mounted)
      obtain ⟨within, -⟩ := List.getElem?_eq_some_iff.mp called
      refine ⟨⟨call, mount⟩, ?_⟩
      rw [entries_of_call inv called, cloned call within, label_of_plain (tidy key mount mounted)]
    · intro _ mem
      obtain ⟨mem, succeeded⟩ := mem_fill mem
      exact ⟨succeeded, bound _ _ mem⟩

theorem export_faithful_iff (operations : List (Operation Callback Channel))
    (malloc : (count bufferSize : Nat) → Bool) (clone : Nat → Except Status Unit)
    {entries : List (Bytes × Handle)}
    (exported : exportFlat malloc clone (stateAfter createRemoteVnode operations) = .ok entries) :
    Faithful clone (stateAfter createRemoteVnode operations).root entries ↔
      Cloned clone (stateAfter createRemoteVnode operations) ∧
        Tidy (stateAfter createRemoteVnode operations) := by
  simp only [exportFlat] at exported
  split at exported <;> cases exported
  exact faithful_iff inv_stateAfter free_stateAfter

end Histories

/-! ## Namespaces that are bound by clean paths -/

section Clean

variable {createRemoteVnode : Channel → Except Status Unit} {st : State Callback}

/-- A bind or an unbind of a path that `CleanPath` returned. -/
def Operation.Clean (operation : Operation Callback Channel) : Prop :=
  ∃ path, operation.path? = some path ∧ IsCleanAbsolute path

private lemma keyOf_render (proper : ∀ part ∈ key, Proper part) : keyOf (render key) = key := by
  unfold keyOf
  split
  next empty =>
    by_contra nonempty
    exact intercalate_ne_nil (Ne.symm nonempty) proper empty
  next full =>
    refine segments_tail ?_ proper
    rintro rfl
    exact full rfl

/-- Without `SetRoot` and with clean paths only, every mount keeps its path. -/
private lemma tidy_of_clean (operations : List (Operation Callback Channel))
    (clean : ∀ operation ∈ operations, operation.Clean) :
    Tidy (stateAfter createRemoteVnode operations) := by
  have names := @names_stateAfter _ _ createRemoteVnode (· = []) operations
    (fun key => (∀ part ∈ key, part ≠ []) ∧ (render key).length ≤ pathMax - 1) rfl
    fun st sound operation mem names => by
      obtain ⟨path, bound, absolute⟩ := clean operation mem
      refine names.step sound rfl (fun other same => ?_) (fun directory root => ?_)
      · cases bound.symm.trans same
        have fits := cleanAbsolute_length absolute
        obtain ⟨_, rfl, proper⟩ := cleanAbsolute_render absolute
        rw [keyOf_render proper]
        exact ⟨fun part mem => (proper part mem).1, fits⟩
      · rw [root] at bound
        cases bound
  intro key mount found
  obtain ⟨named, fits⟩ := names.mounts key _ found
  exact .inl ⟨names.root, fun part mem => named part ((dropLast_sublist _).mem mem), fits⟩

end Clean

/-- One remote bound at `/a/b`. -/
theorem export_faithful_deep :
    Faithful (fun _ => .ok ())
      (stateAfter (fun _ : Unit => .ok ()) [.bindRemote deep (some ())] : State Unit).root
      [(deep, ⟨0, 0⟩)] :=
  (export_faithful_iff [.bindRemote deep (some ())] (fun _ _ => true) (fun _ => .ok ()) rfl).mpr
    ⟨fun _ _ => rfl, tidy_of_clean _ fun operation member => by
      rw [mem_singleton.mp member]
      exact ⟨deep, rfl, isCleanAbsolute_deep⟩⟩

/-- A remote bound at `/a`. -/
def mounted : State Unit := stateAfter (fun _ : Unit => .ok ()) [.bindRemote shallow (some ())]

/-- A remote bound at `/a/b`, and then the directory `/a` made the root. -/
def moved : State Unit :=
  stateAfter (fun _ : Unit => .ok ()) [.bindRemote deep (some ()), .setRoot (.linked [[0x61]])]

/-- A clone that fails leaves a mount out of a flat namespace that is returned all the same.
And after `SetRoot` of `/a` the mount at `/b` is exported as `/a/b`. -/
theorem export_unfaithful :
    (∃ entries, exportFlat (fun _ _ => true) (fun _ => .error .badHandle) mounted = .ok entries ∧
      ¬ Faithful (fun _ => .error .badHandle) mounted.root entries) ∧
    ∃ entries, exportFlat (fun _ _ => true) (fun _ => .ok ()) moved = .ok entries ∧
      ¬ Faithful (fun _ => .ok ()) moved.root entries := by
  constructor
  · refine ⟨_, rfl, fun faithful => ?_⟩
    obtain ⟨handle, only⟩ := faithful.complete [[0x61]] 0 rfl
    cases only
  · refine ⟨_, rfl, fun faithful => ?_⟩
    obtain ⟨handle, only⟩ := faithful.complete [[0x62]] 0 rfl
    have path : [deep] = [render [[0x62]]] := congrArg (map Prod.fst) only
    exact absurd path (by decide)

end FuchsiaSdk.NamespaceExport
