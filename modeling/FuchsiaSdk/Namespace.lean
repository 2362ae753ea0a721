import FuchsiaSdk.LocalVnode

/-! `fdio_namespace` (`fdio/namespace/local-filesystem.cc`): binding, unbinding
and walking paths in a tree of vnodes. The state is the root vnode; every
operation runs under the namespace's lock. Creating a zxio directory from a
channel is the parameter `createDirectory`. -/
namespace FuchsiaSdk.Namespace
open CleanPath LocalVnode LocalVnode.Vnode
open List hiding lookup

inductive Status where
  | invalidArgs
  | badHandle
  | badPath
  | notFound
  | notSupported
  | alreadyExists
  | other (code : Int)
  deriving DecidableEq, Repr

/-- `FindNextPathSegment`: the segment, and whether it is the last. -/
def findNextPathSegment (path : Bytes) : Bytes × Bool :=
  if slash ∈ path then (path.takeWhile (· != slash), false) else (path, true)

def segmentsLoop : Nat → Bytes → List Bytes
  | 0, _ => []
  | fuel + 1, path =>
    let (segment, isLast) := findNextPathSegment path
    if isLast then [segment] else segment :: segmentsLoop fuel (path.drop (segment.length + 1))

/-- What `FindNextPathSegment` returns in the rounds of a loop that drops each
segment with the slash after it, up to the last segment. -/
def segments (path : Bytes) : List Bytes := segmentsLoop (path.length + 1) path

variable {Callback Storage Channel : Type} {parts : List Bytes}

/-- The loop of `Bind`. The first vnode it creates is unlinked if a later round
fails; its parent has used up an id then. -/
def bindLoop (builder : Except Status (Mount Callback Storage)) :
    List Bytes → Vnode Callback Storage → Except Status Unit × Vnode Callback Storage
  | [], vn => (.ok (), vn)
  | segment :: rest, vn =>
    if segment.length > nameMax then (.error .badPath, vn)
    else
      match vn with
      | .local _ => (.error .notSupported, vn)
      | .remote _ => (.error .notSupported, vn)
      | .intermediate entries =>
        if rest = [] then
          match entries.lookup segment, builder with
          | some _, _ => (.error .alreadyExists, vn)
          | none, .error status => (.error status, vn)
          | none, .ok mount => (.ok (), .intermediate (entries.addEntry segment mount.node))
        else
          match entries.lookup segment with
          | some child =>
            let (status, child) := bindLoop builder rest child
            (status, .intermediate (entries.update segment child))
          | none =>
            match bindLoop builder rest (.intermediate {}) with
            | (.ok (), child) => (.ok (), .intermediate (entries.addEntry segment child))
            | (.error status, child) =>
              (.error status, .intermediate ((entries.addEntry segment child).removeEntry segment))

def bindRoot (builder : Except Status (Mount Callback Storage)) :
    Vnode Callback Storage → Except Status Unit × Vnode Callback Storage
  | .local onOpen => (.error .alreadyExists, .local onOpen)
  | .remote storage => (.error .alreadyExists, .remote storage)
  | .intermediate entries =>
    if entries.size ≠ 0 then (.error .notSupported, .intermediate entries)
    else
      match builder with
      | .error status => (.error status, .intermediate entries)
      | .ok mount => (.ok (), mount.node)

/-- `fdio_namespace::Bind` with a builder. -/
def bind (builder : Except Status (Mount Callback Storage)) (path : Bytes)
    (root : Vnode Callback Storage) : Except Status Unit × Vnode Callback Storage :=
  if path.head? ≠ some slash then (.error .invalidArgs, root)
  else if path.tail = [] then bindRoot builder root
  else bindLoop builder (segments path.tail) root

/-- `fdio_namespace::Bind` of a client end, which may be invalid. -/
def bindRemote (createDirectory : Channel → Except Status Storage) (remote : Option Channel)
    (path : Bytes) (root : Vnode Callback Storage) : Except Status Unit × Vnode Callback Storage :=
  match remote with
  | none => (.error .badHandle, root)
  | some channel => bind ((createDirectory channel).map .remote) path root

/-- `fdio_namespace::Bind` of an open callback. -/
def bindLocal (onOpen : Callback) (path : Bytes) (root : Vnode Callback Storage) :
    Except Status Unit × Vnode Callback Storage :=
  bind (.ok (.local onOpen)) path root

/-- The loop of `Unbind` up to `Unlink`: the place of the vnode to unlink.
`walked` is the place of the working vnode and `origin` that of
`removable_origin_vn`. -/
def unbindLoop : List Bytes → (walked : List Bytes) → (origin : Option (List Bytes)) →
    Vnode Callback Storage → Except Status (List Bytes)
  | [], _, _, _ => .error .notFound
  | segment :: rest, walked, origin, vn =>
    if segment.length > nameMax then .error .badPath
    else
      match vn with
      | .local _ => .error .badPath
      | .remote _ => .error .badPath
      | .intermediate entries =>
        match entries.lookup segment with
        | none => .error .notFound
        | some (.intermediate inside) =>
          if rest = [] then .error .notFound
          else
            unbindLoop rest (walked ++ [segment])
              (if inside.size > 1 then none else origin <|> some (walked ++ [segment]))
              (.intermediate inside)
        | some _ => if rest = [] then .ok (origin.getD (walked ++ [segment])) else .error .notFound

/-- `LocalVnode::Unlink` of the vnode at a place: it leaves its parent. -/
def unlinkAt : List Bytes → Vnode Callback Storage → Vnode Callback Storage
  | [], vn => vn
  | name :: rest, vn =>
    match vn with
    | .intermediate entries =>
      if rest = [] then .intermediate (entries.removeEntry name)
      else
        match entries.lookup name with
        | some child => .intermediate (entries.update name (unlinkAt rest child))
        | none => vn
    | _ => vn

/-- `fdio_namespace::Unbind`. -/
def unbind (path : Bytes) (root : Vnode Callback Storage) :
    Except Status Unit × Vnode Callback Storage :=
  if path.head? ≠ some slash then (.error .invalidArgs, root)
  else if path.tail = [] then
    match root with
    | .intermediate _ => (.error .notFound, root)
    | _ => (.ok (), .intermediate {})
  else
    match unbindLoop (segments path.tail) [] none root with
    | .error status => (.error status, root)
    | .ok place => (.ok (), unlinkAt place root)

/-- The loop of `WalkLocked`; without a further segment the last round found
the terminal vnode. -/
def walkLoop : List Bytes → Vnode Callback Storage →
    Except Status (Vnode Callback Storage × Bytes)
  | [], vn => .ok (vn, [dot])
  | segment :: rest, vn =>
    if segment.length > nameMax then .error .badPath
    else if segment = [dot] then walkLoop rest vn
    else
      match vn with
      | .local _ => .error .notFound
      | .remote _ => .ok (vn, [slash].intercalate (segment :: rest))
      | .intermediate entries =>
        match entries.lookup segment with
        | none => .error .notFound
        | some child => walkLoop rest child

/-- `fdio_namespace::WalkLocked`: the vnode and the path that is left. -/
def walkLocked (vn : Vnode Callback Storage) (path : Bytes) :
    Except Status (Vnode Callback Storage × Bytes) :=
  if path = [] ∨ path = [dot] then .ok (vn, path) else walkLoop (segments path) vn

def endsAtMount : Except Status (Vnode Callback Storage × Bytes) → Bool
  | .error _ => false
  | .ok (.intermediate _, _) => false
  | .ok (_, rest) => rest == [dot]

/-- `fdio_namespace::IsBound`. -/
def isBound (path : Bytes) (root : Vnode Callback Storage) : Bool :=
  if path.head? ≠ some slash then false else endsAtMount (walkLocked root path.tail)

/-! ## Segments -/

lemma findNextPathSegment_last {segment : Bytes} (free : slash ∉ segment) :
    findNextPathSegment segment = (segment, true) := if_neg free

lemma findNextPathSegment_more {segment : Bytes} (free : slash ∉ segment) :
    findNextPathSegment (segment ++ slash :: rest) = (segment, false) := by
  have ordinary : ∀ byte ∈ segment, (byte != slash) = true := by
    intro byte mem
    have apart : byte ≠ slash := fun same => free (same ▸ mem)
    simpa using apart
  rw [findNextPathSegment, takeWhile_append_of_pos ordinary]
  simp

lemma segmentsLoop_intercalate (nonempty : parts ≠ []) (free : ∀ part ∈ parts, slash ∉ part)
    (enough : ([slash].intercalate parts).length < fuel) :
    segmentsLoop fuel ([slash].intercalate parts) = parts := by
  induction parts generalizing fuel with
  | nil => exact absurd rfl nonempty
  | cons part rest ih =>
    obtain _ | fuel := fuel
    · omega
    have here := free part mem_cons_self
    cases rest with
    | nil => simp [segmentsLoop, findNextPathSegment_last here]
    | cons next rest =>
      have joined : [slash].intercalate (part :: next :: rest) =
          part ++ slash :: [slash].intercalate (next :: rest) := by
        simp [intercalate_cons_cons]
      rw [joined] at enough ⊢
      simp only [segmentsLoop, findNextPathSegment_more here]
      have dropped : (part ++ slash :: [slash].intercalate (next :: rest)).drop (part.length + 1) =
          [slash].intercalate (next :: rest) := by
        simp
      rw [dropped, if_neg (by simp), ih (by simp)]
      · exact fun part mem => free part (mem_cons_of_mem _ mem)
      · simp only [length_append, length_cons] at enough
        omega

lemma segments_intercalate (nonempty : parts ≠ [])
    (free : ∀ part ∈ parts, slash ∉ part) : segments ([slash].intercalate parts) = parts :=
  segmentsLoop_intercalate nonempty free (Nat.lt_succ_self _)

/-! ## Binding -/

variable {vn after root : Vnode Callback Storage} {entries : Entries (Vnode Callback Storage)}
  {mount : Mount Callback Storage}
  {builder : Except Status (Mount Callback Storage)} {key rest : List Bytes} {name : Bytes}

/-- The key has become a mount, and nothing else has changed. -/
structure Added (key : List Bytes) (mount : Mount Callback Storage)
    (before after : Vnode Callback Storage) : Prop where
  sound : Sound after
  occupied : after.Occupied
  mounts : ∀ other, mountAt other after = if other = key then some mount else mountAt other before

/-- The mounts are as they were. -/
structure Kept (before after : Vnode Callback Storage) : Prop where
  sound : Sound after
  occupied : before.Occupied → after.Occupied
  mounts : ∀ other, mountAt other after = mountAt other before

/-- What `Bind` requires of a path that begins with a slash. -/
def Bindable (key : List Bytes) (vn : Vnode Callback Storage) : Prop :=
  (∀ name ∈ key, name.length ≤ nameMax) ∧ ClearAt vn key

lemma Kept.refl (sound : Sound vn) : Kept vn vn := ⟨sound, id, fun _ => rfl⟩

lemma bindable_child (present : entries.lookup name = some vn) (short : name.length ≤ nameMax) :
    Bindable (name :: rest) (.intermediate entries) ↔ Bindable rest vn := by
  unfold Bindable
  rw [clearAt_present present]
  simp [short]

lemma bindable_missing (missing : entries.lookup name = none) (short : name.length ≤ nameMax) :
    Bindable (name :: rest) (.intermediate entries) ↔ ∀ name ∈ rest, name.length ≤ nameMax := by
  have clear := clearAt_missing missing rest
  unfold Bindable
  simp [short, clear]

section

variable (sound : Sound (.intermediate entries))
include sound

lemma Added.child {child : Vnode Callback Storage}
    (present : entries.lookup name = some child) (added : Added rest mount child after) :
    Added (name :: rest) mount (.intermediate entries) (.intermediate (entries.update name after)) where
  sound := by
    refine (sound.update present after).sound sound fun vn same => ?_
    cases same
    exact ⟨(sound.inside present).1, added.occupied, added.sound⟩
  occupied := by
    rw [occupied_intermediate, Entries.size_update]
    exact Nat.ne_of_gt (sound.consistent.size_pos present)
  mounts := by
    refine (sound.update present after).mounts fun tail => ?_
    rw [present]
    exact added.mounts tail

lemma Kept.child {child : Vnode Callback Storage}
    (present : entries.lookup name = some child) (kept : Kept child after) :
    Kept (.intermediate entries) (.intermediate (entries.update name after)) where
  sound := by
    refine (sound.update present after).sound sound fun vn same => ?_
    cases same
    exact ⟨(sound.inside present).1, kept.occupied (sound.inside present).2.1, kept.sound⟩
  occupied := by
    rw [occupied_intermediate, occupied_intermediate, Entries.size_update]
    exact id
  mounts := by
    refine (sound.update present after).mounts_kept fun tail => ?_
    rw [present]
    exact kept.mounts tail

/-- A new child that holds nothing but the mount. -/
lemma Added.create (missing : entries.lookup name = none)
    (short : name.length ≤ nameMax) (inside : Sound after) (occupied : after.Occupied)
    (mounts : ∀ other, mountAt other after = if other = rest then some mount else none) :
    Added (name :: rest) mount (.intermediate entries) (.intermediate (entries.addEntry name after)) where
  sound := by
    refine (sound.addEntry missing after).sound sound fun vn same => ?_
    cases same
    exact ⟨short, occupied, inside⟩
  occupied := by simp [Entries.size, Entries.addEntry]
  mounts := by
    refine (sound.addEntry missing after).mounts fun tail => ?_
    rw [missing]
    exact mounts tail

/-- A child that was created and is unlinked again. -/
lemma Kept.discard (missing : entries.lookup name = none) (child : Vnode Callback Storage) :
    Kept (.intermediate entries) (.intermediate ((entries.addEntry name child).removeEntry name)) := by
  have replaced := sound.discard missing child
  refine ⟨replaced.sound sound (fun vn same => nomatch same), fun occupied => ?_,
    replaced.mounts_kept fun tail => by rw [missing]⟩
  obtain ⟨other, found, present⟩ := sound.consistent.lookup_of_size occupied
  have apart : other ≠ name := by
    rintro rfl
    rw [missing] at present
    cases present
  have still : ((entries.addEntry name child).removeEntry name).lookup other = some found := by
    rw [replaced.lookup, if_neg apart, present]
  exact Nat.ne_of_gt (replaced.consistent.size_pos still)

end

/-- One run of the loop either adds the mount, and may, or keeps the mounts. -/
lemma bindLoop_spec (sound : Sound vn) (nonempty : key ≠ []) :
    (∃ mount, builder = .ok mount ∧ Bindable key vn ∧ (bindLoop builder key vn).1 = .ok () ∧
      Added key mount vn (bindLoop builder key vn).2) ∨ (¬((∃ mount, builder = .ok mount) ∧ Bindable key vn) ∧
      (∃ status, (bindLoop builder key vn).1 = .error status) ∧ Kept vn (bindLoop builder key vn).2) := by
  induction key generalizing vn with
  | nil => exact absurd rfl nonempty
  | cons name rest ih =>
    by_cases long : name.length > nameMax
    · refine .inr ⟨fun may => ?_, ⟨.badPath, by simp [bindLoop, long]⟩, ?_⟩
      · exact absurd (may.2.1 name mem_cons_self) (by omega)
      · simpa [bindLoop, long] using Kept.refl sound
    have short : name.length ≤ nameMax := by omega
    cases vn with
    | «local» onOpen =>
      refine .inr ⟨fun may => clearAt_node (.local onOpen) may.2.2,
        ⟨.notSupported, by simp [bindLoop, long]⟩, ?_⟩
      simpa [bindLoop, long] using Kept.refl sound
    | remote storage =>
      refine .inr ⟨fun may => clearAt_node (.remote storage) may.2.2,
        ⟨.notSupported, by simp [bindLoop, long]⟩, ?_⟩
      simpa [bindLoop, long] using Kept.refl sound
    | intermediate entries =>
      simp only [bindLoop, if_neg long]
      cases looked : entries.lookup name with
      | some child =>
        obtain ⟨-, occupied, inside⟩ := sound.inside looked
        by_cases last : rest = []
        · subst last
          refine .inr ⟨fun may => ?_, ⟨.alreadyExists, by simp⟩, by simpa using Kept.refl sound⟩
          exact inside.not_clearAt occupied ((clearAt_present looked).mp may.2.2)
        · simp only [if_neg last, bindable_child looked short]
          rcases ih inside last with ⟨mount, built, may, done, added⟩ | ⟨may, failed, kept⟩
          · exact .inl ⟨mount, built, may, done, added.child sound looked⟩
          · exact .inr ⟨may, failed, kept.child sound looked⟩
      | none =>
        by_cases last : rest = []
        · subst last
          cases builder with
          | error status =>
            refine .inr ⟨?_, ⟨status, by simp⟩, by simpa using Kept.refl sound⟩
            rintro ⟨⟨mount, built⟩, -⟩
            cases built
          | ok mount =>
            refine .inl ⟨mount, rfl, (bindable_missing looked short).mpr (by simp), by simp, ?_⟩
            simpa using Added.create sound looked short (sound_node) (occupied_node)
              (mountAt_node mount)
        · simp only [if_neg last, bindable_missing looked short]
          have deeper := ih sound_empty last
          rcases outcome : bindLoop builder rest (.intermediate {}) with ⟨status, child⟩
          rw [outcome] at deeper
          rcases deeper with ⟨mount, built, may, done, added⟩ | ⟨may, ⟨failure, failed⟩, -⟩
          · cases done
            refine .inl ⟨mount, built, may.1, rfl, ?_⟩
            refine Added.create sound looked short added.sound added.occupied fun other => ?_
            rw [added.mounts, mountAt_empty]
          · cases failed
            refine .inr ⟨fun wanted => may ⟨wanted.1, wanted.2, clearAt_empty⟩,
              ⟨failure, rfl⟩, Kept.discard sound looked child⟩

/-! ## Unbinding -/

/-- The key is a mount, and the only one below the vnode. -/
def Alone (key : List Bytes) (vn : Vnode Callback Storage) : Prop :=
  mountAt key vn ≠ none ∧ ∀ other, mountAt other vn ≠ none → other = key

def Several : Vnode Callback Storage → Prop
  | .intermediate entries => entries.size > 1
  | _ => False

/-- The place to unlink for a key: what hangs there is the mount alone, and its
parent is the top or has other children. -/
inductive Prunes : (top : Prop) → (key place : List Bytes) → Vnode Callback Storage → Prop
  | here {entries : Entries (Vnode Callback Storage)} {name : Bytes} {rest : List Bytes}
      {child : Vnode Callback Storage} {top : Prop} (present : entries.lookup name = some child)
      (alone : Alone rest child) (stays : top ∨ entries.size > 1) :
      Prunes top (name :: rest) [name] (.intermediate entries)
  | deeper {entries : Entries (Vnode Callback Storage)} {name : Bytes} {rest place : List Bytes}
      {child : Vnode Callback Storage} {top : Prop} (present : entries.lookup name = some child)
      (inside : Prunes False rest place child) :
      Prunes top (name :: rest) (name :: place) (.intermediate entries)

lemma alone_node (mount : Mount Callback Storage) : Alone [] mount.node := by
  refine ⟨by simp [mountAt_node], fun other found => ?_⟩
  by_contra apart
  simp [mountAt_node, apart] at found

/-- What is alone in an only child is alone. -/
lemma Alone.cons {entries : Entries (Vnode Callback Storage)}
    (sound : Sound (.intermediate entries)) (present : entries.lookup name = some vn)
    (single : ¬entries.size > 1) (alone : Alone rest vn) : Alone (name :: rest) (.intermediate entries) := by
  constructor
  · rw [mountAt_cons, lookup, present]
    exact alone.1
  · intro other found
    cases other with
    | nil => exact absurd rfl found
    | cons head tail =>
      rw [mountAt_cons, lookup] at found
      cases looked : entries.lookup head with
      | none =>
        rw [looked] at found
        exact absurd rfl found
      | some =>
        obtain rfl := sound.consistent.only single present looked
        rw [present] at found
        rw [alone.2 tail found]

/-- If the loop finds a place, the key is a mount there. While `origin` is unset
the working vnode is the top or has several children, otherwise it has one. -/
lemma unbindLoop_ok (top : Prop) (sound : Sound vn) (done : unbindLoop key walked origin vn = .ok place)
    (unset : origin = none → top ∨ Several vn) (set : origin ≠ none → ¬Several vn) :
    (origin = some place ∧ Alone key vn) ∨ ∃ front, place = walked ++ front ∧ Prunes top key front vn := by
  induction key generalizing vn walked origin top with
  | nil => cases done
  | cons name _ ih =>
    cases vn with
    | «local» | remote =>
      simp only [unbindLoop] at done
      split at done <;> cases done
    | intermediate =>
      simp only [unbindLoop] at done
      split at done
      · cases done
      split at done
      · cases done
      · -- a child with children: the walk goes on, with a new candidate or none
        rename_i inside looked
        split at done
        · cases done
        split at done <;> rename_i several
        · rcases ih False (sound.inside looked).2.2 done (fun _ => .inr several)
            (fun set => absurd rfl set) with ⟨same, -⟩ | ⟨front, rfl, prunes⟩
          · cases same
          · exact .inr ⟨name :: front, by simp, .deeper looked prunes⟩
        · have candidate : (origin <|> some (walked ++ [name])) ≠ none := by
            cases origin <;> simp
          rcases ih False (sound.inside looked).2.2 done
            (fun unset => absurd unset candidate) (fun _ => several) with
            ⟨same, alone⟩ | ⟨front, rfl, prunes⟩
          · cases origin with
            | none =>
              cases same
              exact .inr ⟨[name], rfl, .here looked alone (unset rfl)⟩
            | some origin =>
              cases same
              exact .inl ⟨rfl, alone.cons sound looked (set (by simp))⟩
          · exact .inr ⟨name :: front, by simp, .deeper looked prunes⟩
      next child mounted looked =>
        split at done
        next last =>
          subst last
          have alone : Alone [] child := by
            cases child with
            | «local» onOpen => exact alone_node (.local onOpen)
            | remote storage => exact alone_node (.remote storage)
            | intermediate inside => exact absurd rfl (mounted inside)
          cases origin with
          | none =>
            cases done
            exact .inr ⟨[name], rfl, .here looked alone (unset rfl)⟩
          | some origin =>
            cases done
            exact .inl ⟨rfl, alone.cons sound looked (set (by simp))⟩
        · cases done

/-- If the loop fails, the key is not a mount. -/
lemma unbindLoop_error (sound : Sound vn) (nonempty : key ≠ [])
    (failed : unbindLoop key walked origin vn = .error status) : mountAt key vn = none := by
  induction key generalizing vn walked origin with
  | nil => exact absurd rfl nonempty
  | cons name rest ih =>
    cases vn with
    | «local» | remote => rfl
    | intermediate entries =>
      rw [mountAt_cons, lookup]
      simp only [unbindLoop] at failed
      cases looked : entries.lookup name with
      | none => rfl
      | some child =>
        obtain ⟨short, -, inside⟩ := sound.inside looked
        rw [if_neg (Nat.not_lt.mpr short), looked] at failed
        cases child with
        | intermediate =>
          simp only at failed
          split at failed
          next last =>
            rw [last]
            rfl
          next more => exact ih inside more failed
        | «local» onOpen =>
          have more : rest ≠ [] := by
            rintro rfl
            cases failed
          exact (mountAt_node (.local onOpen) rest).trans (if_neg more)
        | remote storage =>
          have more : rest ≠ [] := by
            rintro rfl
            cases failed
          exact (mountAt_node (.remote storage) rest).trans (if_neg more)

lemma Prunes.mountAt (prunes : Prunes top key place vn) : mountAt key vn ≠ none := by
  induction prunes with
  | here present alone =>
    rw [mountAt_cons, lookup, present]
    exact alone.1
  | deeper present _ ih =>
    rw [mountAt_cons, lookup, present]
    exact ih

lemma Prunes.place_ne_nil (prunes : Prunes top key place vn) : place ≠ [] := by
  cases prunes <;> simp

/-- Unlinking at the place that was found removes the key and no other mount. -/
lemma unlinkAt_spec (prunes : Prunes top key place vn) (sound : Sound vn) :
    Sound (unlinkAt place vn) ∧ (¬top → (unlinkAt place vn).Occupied) ∧
      ∀ other, Vnode.mountAt other (unlinkAt place vn) =
        if other = key then none else Vnode.mountAt other vn := by
  induction prunes with
  | @here entries name rest child top present alone stays =>
    have replaced := sound.removeEntry name
    refine ⟨replaced.sound sound (fun vn same => nomatch same), fun apart => ?_,
      replaced.mounts fun tail => ?_⟩
    · exact Entries.size_removeEntry (stays.resolve_left apart)
    · rw [present]
      split
      · rfl
      next apart => exact (not_not.mp fun found => apart (alone.2 tail found)).symm
  | @deeper entries name rest place child top present inside ih =>
    obtain ⟨short, -, sound_child⟩ := sound.inside present
    obtain ⟨sound_after, occupied, mounts⟩ := ih sound_child
    simp only [unlinkAt, if_neg inside.place_ne_nil, present]
    have replaced := sound.update present (unlinkAt place child)
    refine ⟨replaced.sound sound fun vn same => ?_, fun _ => ?_, replaced.mounts fun tail => ?_⟩
    · cases same
      exact ⟨short, occupied id, sound_after⟩
    · rw [occupied_intermediate, Entries.size_update]
      exact Nat.ne_of_gt (sound.consistent.size_pos present)
    · rw [present]
      exact mounts tail

/-! ## Walking -/

lemma intercalate_ne_dot (proper : ∀ part ∈ name :: parts, Proper part) :
    [slash].intercalate (name :: parts) ≠ [dot] := by
  obtain ⟨nonempty, -, other, -⟩ := proper name mem_cons_self
  cases parts with
  | nil => simpa using other
  | cons =>
    intro same
    have long := congrArg length same
    have positive := length_pos_iff.mpr nonempty
    simp only [intercalate_cons_cons, length_append, length_cons, length_nil]
      at long
    omega

lemma endsAtMount_walkLoop (sound : Sound vn) (proper : ∀ part ∈ key, Proper part) :
    endsAtMount (walkLoop key vn) = (mountAt key vn).isSome := by
  induction key generalizing vn with
  | nil => cases vn <;> rfl
  | cons name _ ih =>
    have here := proper name mem_cons_self
    simp only [walkLoop, if_neg here.2.2.1]
    cases vn with
    | «local» onOpen => split <;> rfl
    | remote =>
      split
      · rfl
      · simpa [endsAtMount, mountAt_cons, lookup] using intercalate_ne_dot proper
    | intermediate entries =>
      rw [mountAt_cons, lookup]
      cases looked : entries.lookup name with
      | none =>
        simp only [looked]
        split <;> rfl
      | some =>
        obtain ⟨short, -, inside⟩ := sound.inside looked
        simp only [looked, if_neg (Nat.not_lt.mpr short)]
        exact ih inside fun part mem => proper part (mem_cons_of_mem _ mem)

/-- Where a walk ends that meets a mount with these segments left. -/
def arrival (mount : Mount Callback Storage) :
    List Bytes → Except Status (Vnode Callback Storage × Bytes)
  | [] => .ok (mount.node, [dot])
  | name :: rest =>
    if name.length > nameMax then .error .badPath
    else
      match mount with
      | .local _ => .error .notFound
      | .remote _ => .ok (mount.node, [slash].intercalate (name :: rest))

lemma walkLoop_arrival (sound : Sound vn) (proper : ∀ part ∈ key ++ rest, Proper part)
    (found : mountAt key vn = some mount) : walkLoop (key ++ rest) vn = arrival mount rest := by
  induction key generalizing vn with
  | nil =>
    have node : vn = mount.node := by
      cases vn <;> cases found <;> rfl
    subst node
    cases rest with
    | nil => rfl
    | cons name rest =>
      have here := proper name mem_cons_self
      simp only [nil_append, walkLoop, arrival, if_neg here.2.2.1]
      cases mount <;> rfl
  | cons name _ ih =>
    have here := proper name mem_cons_self
    cases vn with
    | «local» | remote => cases found
    | intermediate =>
      rw [mountAt_cons, lookup] at found
      obtain ⟨_, looked, deeper⟩ := Option.bind_eq_some_iff.mp found
      obtain ⟨short, -, inside⟩ := sound.inside looked
      simp only [cons_append, walkLoop, if_neg here.2.2.1, if_neg (Nat.not_lt.mpr short), looked]
      exact ih inside (fun part mem => proper part (mem_cons_of_mem _ mem)) deeper

/-! ## Whole operations -/

lemma intercalate_ne_nil (nonempty : parts ≠ [])
    (proper : ∀ part ∈ parts, Proper part) : [slash].intercalate parts ≠ [] := by
  cases parts with
  | nil => exact absurd rfl nonempty
  | cons part rest =>
    have here := (proper part mem_cons_self).1
    cases rest with
    | nil => simpa using here
    | cons _ rest => simp [intercalate_cons_cons]

lemma segments_tail (nonempty : key ≠ []) (proper : ∀ part ∈ key, Proper part) :
    segments (render key).tail = key :=
  segments_intercalate nonempty fun part mem => (proper part mem).2.1

lemma mountAt_of_size
    (sound : Sound (.intermediate entries)) (childless : entries.size = 0) (key : List Bytes) :
    mountAt key (.intermediate entries) = none := by
  cases key with
  | nil => rfl
  | cons name =>
    rw [mountAt_cons, lookup]
    cases looked : entries.lookup name with
    | none => rfl
    | some => exact absurd childless (Nat.ne_of_gt (sound.consistent.size_pos looked))

lemma bindRoot_spec (sound : Sound vn) :
    (∃ mount, builder = .ok mount ∧ Bindable [] vn ∧ (bindRoot builder vn).1 = .ok () ∧
      Added [] mount vn (bindRoot builder vn).2) ∨ (¬((∃ mount, builder = .ok mount) ∧ Bindable [] vn) ∧
      (∃ status, (bindRoot builder vn).1 = .error status) ∧ Kept vn (bindRoot builder vn).2) := by
  cases vn with
  | «local» onOpen =>
    exact .inr ⟨fun may => clearAt_node (.local onOpen) may.2.2, ⟨_, rfl⟩, Kept.refl sound⟩
  | remote storage =>
    exact .inr ⟨fun may => clearAt_node (.remote storage) may.2.2, ⟨_, rfl⟩, Kept.refl sound⟩
  | intermediate entries =>
    by_cases childless : entries.size = 0
    · have unmounted := mountAt_of_size sound childless
      cases builder with
      | error status =>
        refine .inr ⟨?_, ⟨status, by simp [bindRoot, childless]⟩,
          by simpa [bindRoot, childless] using Kept.refl sound⟩
        rintro ⟨⟨mount, built⟩, -⟩
        cases built
      | ok mount =>
        refine .inl ⟨mount, rfl, ⟨by simp, fun other mount found => ?_⟩,
          by simp [bindRoot, childless], ?_⟩
        · rw [unmounted] at found
          cases found
        · simp only [bindRoot, childless, ne_eq, not_true_eq_false, ↓reduceIte]
          refine ⟨sound_node, occupied_node, fun other => ?_⟩
          rw [mountAt_node, unmounted]
    · refine .inr ⟨fun may => sound.not_clearAt childless may.2.2,
        ⟨.notSupported, by simp [bindRoot, childless]⟩,
        by simpa [bindRoot, childless] using Kept.refl sound⟩

lemma bind_spec (builder : Except Status (Mount Callback Storage)) (sound : Sound root)
    (proper : ∀ part ∈ key, Proper part) : (∃ mount, builder = .ok mount ∧ Bindable key root ∧
      (bind builder (render key) root).1 = .ok () ∧ Added key mount root (bind builder (render key) root).2) ∨
    (¬((∃ mount, builder = .ok mount) ∧ Bindable key root) ∧
      (∃ status, (bind builder (render key) root).1 = .error status) ∧
      Kept root (bind builder (render key) root).2) := by
  by_cases empty : key = []
  · subst empty
    exact bindRoot_spec sound
  have unrooted : (render key).tail ≠ [] := intercalate_ne_nil empty proper
  have same : bind builder (render key) root = bindLoop builder key root := by
    unfold bind
    rw [if_neg unrooted, segments_tail empty proper]
    rfl
  rw [same]
  exact bindLoop_spec sound empty

/-- The key is no longer a mount, and nothing else has changed. -/
structure Removed (key : List Bytes) (before after : Vnode Callback Storage) : Prop where
  sound : Sound after
  mounts : ∀ other, mountAt other after = if other = key then none else mountAt other before

lemma removed_node (mount : Mount Callback Storage) : Removed [] mount.node (.intermediate {}) := by
  refine ⟨sound_empty, fun other => ?_⟩
  rw [mountAt_empty, mountAt_node]
  split <;> rfl

lemma unbindLoop_prunes (sound : Sound root) (found : unbindLoop key [] none root = .ok place) :
    Prunes True key place root := by
  rcases unbindLoop_ok True sound found (fun _ => .inl trivial)
    (fun set => absurd rfl set) with ⟨same, -⟩ | ⟨_, rfl, prunes⟩
  · cases same
  · exact prunes

lemma unbindLoop_removes (sound : Sound root) (found : unbindLoop key [] none root = .ok place) :
    mountAt key root ≠ none ∧ Removed key root (unlinkAt place root) := by
  have prunes := unbindLoop_prunes sound found
  obtain ⟨after, -, mounts⟩ := unlinkAt_spec prunes sound
  exact ⟨prunes.mountAt, after, mounts⟩

lemma unbindRoot_spec (sound : Sound root) : (mountAt [] root ≠ none ∧ (unbind (render []) root).1 = .ok () ∧
      Removed [] root (unbind (render []) root).2) ∨
    (mountAt [] root = none ∧ (∃ status, (unbind (render []) root).1 = .error status) ∧
      (unbind (render []) root).2 = root) := by
  cases root with
  | «local» onOpen => exact .inl ⟨by simp [mountAt, mount?], rfl, removed_node (.local onOpen)⟩
  | remote storage => exact .inl ⟨by simp [mountAt, mount?], rfl, removed_node (.remote storage)⟩
  | intermediate => exact .inr ⟨rfl, ⟨.notFound, rfl⟩, rfl⟩

lemma unbind_spec (sound : Sound root) (proper : ∀ part ∈ key, Proper part) :
    (mountAt key root ≠ none ∧ (unbind (render key) root).1 = .ok () ∧
      Removed key root (unbind (render key) root).2) ∨
    (mountAt key root = none ∧ (∃ status, (unbind (render key) root).1 = .error status) ∧
      (unbind (render key) root).2 = root) := by
  by_cases empty : key = []
  · subst empty
    exact unbindRoot_spec sound
  have unrooted : (render key).tail ≠ [] := intercalate_ne_nil empty proper
  have same : unbind (render key) root =
      match unbindLoop key [] none root with
      | .error status => (.error status, root)
      | .ok place => (.ok (), unlinkAt place root) := by
    unfold unbind
    rw [if_neg unrooted, segments_tail empty proper]
    rfl
  rw [same]
  cases outcome : unbindLoop key [] none root with
  | error status => exact .inr ⟨unbindLoop_error sound empty outcome, ⟨status, rfl⟩, rfl⟩
  | ok place =>
    obtain ⟨mounted, removed⟩ := unbindLoop_removes sound outcome
    exact .inl ⟨mounted, rfl, removed⟩

lemma walkLocked_eq (nonempty : key ≠ []) (proper : ∀ part ∈ key, Proper part) :
    walkLocked root (render key).tail = walkLoop key root := by
  have path : ¬((render key).tail = [] ∨ (render key).tail = [dot]) := by
    rintro (empty | same)
    · exact intercalate_ne_nil nonempty proper empty
    · obtain ⟨_, _, rfl⟩ := exists_cons_of_ne_nil nonempty
      exact intercalate_ne_dot proper same
  rw [walkLocked, if_neg path, segments_tail nonempty proper]

lemma isBound_eq (sound : Sound root) (nonempty : key ≠ []) (proper : ∀ part ∈ key, Proper part) :
    isBound (render key) root = (mountAt key root).isSome := by
  have walked : isBound (render key) root = endsAtMount (walkLocked root (render key).tail) := rfl
  rw [walked, walkLocked_eq nonempty proper, endsAtMount_walkLoop sound proper]

lemma walkLocked_arrival (sound : Sound root) (proper : ∀ part ∈ key ++ rest, Proper part)
    (found : mountAt key root = some mount) : walkLocked root (render (key ++ rest)).tail =
      if key ++ rest = [] then .ok (mount.node, []) else arrival mount rest := by
  split
  next empty =>
    obtain ⟨rfl, rfl⟩ := append_eq_nil_iff.mp empty
    have node : root = mount.node := by
      cases root <;> cases found <;> rfl
    rw [node]
    rfl
  next nonempty => rw [walkLocked_eq nonempty proper, walkLoop_arrival sound proper found]

end FuchsiaSdk.Namespace
