import FuchsiaSdk.CleanPath
import Mathlib.Tactic.Common

/-! Path lookup of `vfs::internal::Directory` (`vfs/cpp/internal/directory.cc`) and the
directory that forwards unknown names (`vfs/cpp/composed_service_dir.cc`). `WalkPath` looks
for `..` at the front of the path it is given and removes `./` from it afterwards. A parent
reference right behind a `.` therefore reaches `Lookup`. -/
namespace FuchsiaSdk.VfsPath
open CleanPath
open List hiding count

inductive Status where
  | invalidArgs
  | notFound
  | notDir
  | notSupported
  deriving DecidableEq, Repr

/-- `NAME_MAX`. -/
def nameMax : Nat := 255

/-- `..`. -/
def parent : Bytes := [dot, dot]

/-- `Directory::ValidatePath`. -/
def validatePath (path : Bytes) : Bool :=
  if path.length > nameMax then false
  else if path = parent then false
  else if [slash].isPrefixOf path then false
  else if (parent ++ [slash]).isPrefixOf path then false
  else true

/-- `while (starts_with(path, '/')) path.remove_prefix(1)`. -/
def dropSlashes (path : Bytes) : Bytes := path.dropWhile (· == slash)

/-- The loop that removes `./`, `.//` and so on; a round takes two bytes at least. -/
def stripDots : Nat → Bytes → Bytes
  | 0, path => path
  | fuel + 1, path =>
    if [dot, slash].isPrefixOf path then stripDots fuel (dropSlashes (path.drop 2)) else path

/-- `Directory::WalkPathResult`. -/
structure WalkPathResult where
  currentNodeName : Option Bytes := none
  remainingPath : Bytes := []
  deriving DecidableEq, Repr

/-- What `WalkPath` does with a path that it has stripped. -/
def firstName (path : Bytes) : WalkPathResult :=
  if path = [] ∨ path = [dot] then { remainingPath := path }
  else if slash ∈ path then
    let currentNodeName := path.takeWhile (· != slash)
    { currentNodeName := some currentNodeName
      remainingPath := dropSlashes (path.drop (currentNodeName.length + 1)) }
  else { currentNodeName := some path }

/-- `Directory::WalkPath`. -/
def walkPath (path : Bytes) : Except Status WalkPathResult :=
  if validatePath path then .ok (firstName (stripDots path.length path)) else .error .invalidArgs

/-- What the nodes of a tree answer. -/
structure Tree (Node : Type) where
  lookup : Node → Bytes → Except Status Node
  isRemote : Node → Bool

/-- `Directory::LookupPathResult`. -/
structure LookupPathResult (Node : Type) where
  node : Node
  remainingPath : Bytes
  isDir : Bool
  deriving DecidableEq, Repr

variable {Node : Type}

/-- The loop of `LookupPath`: the names it calls `Lookup` with, and the result. -/
def lookupLoop (tree : Tree Node) : Nat → Node → Bytes → Bool →
    Option (List Bytes × Except Status (LookupPathResult Node))
  | 0, _, _, _ => none
  | fuel + 1, currentNode, path, isDir =>
    match walkPath path with
    | .error status => some ([], .error status)
    | .ok ⟨none, remainingPath⟩ => some ([], .ok ⟨currentNode, remainingPath, true⟩)
    | .ok ⟨some name, remainingPath⟩ =>
      match tree.lookup currentNode name with
      | .error status => some ([name], .error status)
      | .ok child =>
        if tree.isRemote child || remainingPath = [] then some ([name], .ok ⟨child, remainingPath, isDir⟩)
        else
          (lookupLoop tree fuel child remainingPath isDir).map fun outcome =>
            (name :: outcome.1, outcome.2)

/-- `Directory::LookupPath`. -/
def lookupPath (tree : Tree Node) (directory : Node) (path : Bytes) :
    Option (List Bytes × Except Status (LookupPathResult Node)) :=
  lookupLoop tree (path.length + 1) directory path (path = [] || path.getLast? = some slash)

/-! ## Where a parent reference hides -/

/-- The names before the first `..` among the components of a path, if only empty
components stand between it and a `.`. -/
def hidden : (dotted : Bool) → List Bytes → Option (List Bytes)
  | _, [] => none
  | dotted, component :: rest =>
    if component = [] then hidden dotted rest
    else if component = [dot] then hidden true rest
    else if component = parent then if dotted then some [] else none
    else (hidden false rest).map (component :: ·)

/-- The same for a path that is looked at. -/
def hiddenParent (path : Bytes) : Option (List Bytes) :=
  if path.length > nameMax ∨ path.head? = some slash then none
  else hidden false (path.splitOn slash)

/-- The names lead from directory to directory. -/
def Resolves (tree : Tree Node) : Node → List Bytes → Prop
  | _, [] => True
  | node, name :: rest =>
    ∃ child, tree.lookup node name = .ok child ∧ tree.isRemote child = false ∧ Resolves tree child rest

section Components

variable {path rest name : Bytes} {dotted : Bool}

/-- What does not see an empty component does not see the slashes in front. -/
lemma dropSlashes_unseen {see : List Bytes → α}
    (empty : ∀ path : Bytes, see ([] :: path.splitOn slash) = see (path.splitOn slash)) (path : Bytes) :
    see ((dropSlashes path).splitOn slash) = see (path.splitOn slash) := by
  induction path with
  | nil => rfl
  | cons byte rest ih =>
    by_cases same : byte = slash
    · subst same
      rw [← nil_append (slash :: rest), splitOn_append_cons_self, splitOn_nil,
        singleton_append, empty, ← ih]
      rfl
    · rw [dropSlashes, dropWhile_cons_of_neg (by simpa using same)]

lemma hidden_dropSlashes :
    hidden dotted ((dropSlashes path).splitOn slash) = hidden dotted (path.splitOn slash) :=
  dropSlashes_unseen (fun _ => if_pos rfl) path

lemma head_dropSlashes : (dropSlashes path).head? ≠ some slash := by
  intro slashed
  have stopped := head?_dropWhile_not (fun byte => byte == slash) path
  rw [show path.dropWhile (fun byte => byte == slash) = dropSlashes path from rfl, slashed] at stopped
  simp at stopped

lemma length_dropSlashes (path : Bytes) : (dropSlashes path).length ≤ path.length :=
  (dropWhile_sublist _).length_le

/-- Removing `./` from the front is seen by `hidden` as the `.` that was there. -/
lemma stripDots_spec {fuel : Nat} (enough : path.length ≤ fuel) (start : path.head? ≠ some slash) :
    (stripDots fuel path).length ≤ path.length ∧ (stripDots fuel path).head? ≠ some slash ∧
      ¬ [dot, slash] <+: stripDots fuel path ∧
      (hidden dotted (path.splitOn slash) = hidden dotted ((stripDots fuel path).splitOn slash) ∧
          stripDots fuel path = path ∨
        hidden dotted (path.splitOn slash) = hidden true ((stripDots fuel path).splitOn slash)) := by
  induction fuel generalizing path dotted with
  | zero =>
    cases path with
    | nil => exact ⟨Nat.le_refl _, start, by simp [stripDots], .inl ⟨rfl, rfl⟩⟩
    | cons _ rest => exact absurd enough (Nat.not_succ_le_zero _)
  | succ fuel ih =>
    rw [stripDots]
    split
    next dots =>
      obtain ⟨rest, rfl⟩ := isPrefixOf_iff_prefix.mp dots
      have shorter := length_dropSlashes rest
      simp only [cons_append, nil_append, length_cons] at enough
      obtain ⟨_, bare, done, same⟩ := @ih (dropSlashes rest) true (by omega) (head_dropSlashes)
      rw [show ([dot, slash] ++ rest).drop 2 = rest from rfl]
      have seen : hidden dotted (([dot, slash] ++ rest).splitOn slash) =
          hidden true ((dropSlashes rest).splitOn slash) := by
        rw [show [dot, slash] ++ rest = [dot] ++ slash :: rest from rfl,
          splitOn_append_cons_self_of_not_mem (by decide), hidden_dropSlashes, hidden,
          if_neg (by decide), if_pos rfl]
      rw [seen]
      refine ⟨?_, bare, done, .inr ?_⟩
      · simp only [cons_append, nil_append, length_cons]
        omega
      · rcases same with ⟨same, -⟩ | same <;> exact same
    next other =>
      refine ⟨Nat.le_refl _, start, fun dots => other ?_, .inl ⟨rfl, rfl⟩⟩
      exact isPrefixOf_iff_prefix.mpr dots

lemma stripDots_unseen {see : List Bytes → α}
    (empty : ∀ path : Bytes, see ([] :: path.splitOn slash) = see (path.splitOn slash))
    (dots : ∀ path : Bytes, see ([dot] :: path.splitOn slash) = see (path.splitOn slash))
    (fuel : Nat) (path : Bytes) : see ((stripDots fuel path).splitOn slash) = see (path.splitOn slash) := by
  induction fuel generalizing path with
  | zero => rfl
  | succ fuel ih =>
    rw [stripDots]
    split
    next dotted =>
      obtain ⟨rest, rfl⟩ := isPrefixOf_iff_prefix.mp dotted
      rw [ih, dropSlashes_unseen empty, ← dots]
      exact congrArg see (@splitOn_append_cons_self_of_not_mem _ [dot] _ _ _ (by decide) rest).symm
    · rfl

/-- What a name that `WalkPath` returns has to do with a hidden parent reference. -/
structure Step (path name rest : Bytes) : Prop where
  nonempty : name ≠ []
  free : slash ∉ name
  notDot : name ≠ [dot]
  shorter : rest.length < path.length
  parent : name = VfsPath.parent → hiddenParent path = some []
  other : name ≠ VfsPath.parent → hiddenParent path = (hiddenParent rest).map (name :: ·)

lemma hiddenParent_eq (short : path.length ≤ nameMax) (start : path.head? ≠ some slash) :
    hiddenParent path = hidden false (path.splitOn slash) :=
  if_neg (not_or.mpr ⟨Nat.not_lt.mpr short, start⟩)

lemma validatePath_iff :
    validatePath path = true ↔ path.length ≤ nameMax ∧ path ≠ parent ∧ path.head? ≠ some slash ∧
      ¬ (parent ++ [slash]) <+: path := by
  have rooted : [slash].isPrefixOf path = true ↔ path.head? = some slash := by
    refine isPrefixOf_iff_prefix.trans ?_
    cases path <;> simp [cons_prefix_cons, eq_comm]
  rw [ne_eq, ne_eq, ← rooted, validatePath]
  split <;> rename_i long
  · simp [Nat.not_le.mpr long]
  · split <;> rename_i up
    · simp [up]
    · simp [up, Nat.not_lt.mp long]

/-- What the result of `WalkPath` on a path says about it. -/
def Tracks (path : Bytes) : WalkPathResult → Prop
  | ⟨none, _⟩ => hiddenParent path = none
  | ⟨some name, rest⟩ => Step path name rest

lemma cut_at_slash (slashed : slash ∈ path) :
    path = path.takeWhile (· != slash) ++ slash :: path.drop ((path.takeWhile (· != slash)).length + 1) := by
  induction path with
  | nil => cases slashed
  | cons byte rest ih =>
    by_cases same : byte = slash
    · subst same
      rfl
    · have later : slash ∈ rest := (mem_cons.mp slashed).resolve_left (Ne.symm same)
      rw [takeWhile_cons_of_pos (by simpa using same), length_cons, drop_succ_cons,
        cons_append, ← ih later]

/-- The path ends at this directory, or a name stands in front of a slash or alone. -/
lemma firstName_cases (start : path.head? ≠ some slash) (bare : ¬ [dot, slash] <+: path) :
    (path = [] ∨ path = [dot]) ∧ firstName path = ⟨none, path⟩ ∨
      ∃ name, name ≠ [] ∧ name ≠ [dot] ∧ slash ∉ name ∧ (path = name ∧ firstName path = ⟨some name, []⟩ ∨
          ∃ rest, path = name ++ slash :: rest ∧ firstName path = ⟨some name, dropSlashes rest⟩) := by
  by_cases ends : path = [] ∨ path = [dot]
  · exact .inl ⟨ends, if_pos ends⟩
  have body := if_neg ends ▸ firstName.eq_1 path
  obtain ⟨nonempty, notDot⟩ := not_or.mp ends
  split at body <;> rename_i slashed
  · have cut := cut_at_slash slashed
    have free : slash ∉ path.takeWhile (· != slash) := by
      intro mem
      simpa using all_eq_true.mp all_takeWhile slash mem
    refine .inr ⟨path.takeWhile (· != slash), fun empty => ?_, fun dotted => ?_, free,
      .inr ⟨_, cut, body⟩⟩
    · rw [empty] at cut
      exact start (by rw [cut]; rfl)
    · rw [dotted] at cut
      exact bare ⟨_, cut.symm⟩
  · exact .inr ⟨path, nonempty, notDot, slashed, .inl ⟨rfl, body⟩⟩

lemma firstName_spec (short : path.length ≤ whole.length) (small : whole.length ≤ nameMax)
    (start : path.head? ≠ some slash) (bare : ¬ [dot, slash] <+: path)
    (same : hiddenParent whole = hidden dotted (path.splitOn slash))
    (plain : dotted = false → path ≠ parent ∧ ¬ (parent ++ [slash]) <+: path) :
    Tracks whole (firstName path) := by
  rcases firstName_cases start bare with
    ⟨ends, first⟩ | ⟨_, nonempty, notDot, free, ⟨rfl, first⟩ | ⟨rest, rfl, first⟩⟩
  · rcases ends with rfl | rfl
    · exact same
    · exact same
  · rw [first]
    rw [splitOn_eq_singleton free] at same
    refine ⟨nonempty, free, notDot, ?_, ?_, ?_⟩
    · exact Nat.lt_of_lt_of_le (length_pos_iff.mpr nonempty) short
    · rintro rfl
      cases dotted with
      | false => exact absurd rfl (plain rfl).1
      | true => exact same
    · intro other
      rw [same, hidden, if_neg nonempty, if_neg notDot, if_neg other]
      rfl
  · rw [first]
    rw [splitOn_append_cons_self_of_not_mem free, hidden, if_neg nonempty, if_neg notDot] at same
    have shorter := length_dropSlashes rest
    simp only [length_append, length_cons] at short
    refine ⟨nonempty, free, notDot, by omega, ?_, ?_⟩
    · intro up
      cases dotted with
      | false =>
        refine absurd ⟨rest, ?_⟩ (plain rfl).2
        rw [up]
        rfl
      | true =>
        rw [if_pos up] at same
        exact same
    · intro other
      rw [if_neg other, ← hidden_dropSlashes,
        ← hiddenParent_eq (by omega) (head_dropSlashes)] at same
      exact same

lemma walkPath_spec (walked : walkPath path = .ok result) : Tracks path result := by
  unfold walkPath at walked
  split at walked <;> cases walked
  rename_i valid
  obtain ⟨small, notParent, start, notUp⟩ := validatePath_iff.mp valid
  have whole := hiddenParent_eq small start
  obtain ⟨fewer, stripped, bare, same⟩ :=
    @stripDots_spec path false path.length (Nat.le_refl _) start
  rcases same with ⟨same, unchanged⟩ | same
  · refine firstName_spec fewer small stripped bare (whole.trans same) fun _ => ?_
    rw [unchanged]
    exact ⟨notParent, notUp⟩
  · exact firstName_spec fewer small stripped bare (whole.trans same) fun no =>
      absurd no.symm Bool.false_ne_true

/-- A path that is refused hides nothing: a `..` that is seen stands in front. -/
private lemma walkPath_error (refused : walkPath path = .error status) : hiddenParent path = none := by
  unfold walkPath at refused
  split at refused
  · cases refused
  rename_i invalid
  rw [validatePath_iff] at invalid
  by_cases small : path.length ≤ nameMax
  · by_cases start : path.head? = some slash
    · exact if_pos (.inr start)
    rw [hiddenParent_eq small start]
    have up : path = parent ∨ (parent ++ [slash]) <+: path := by
      by_contra other
      obtain ⟨notParent, notUp⟩ := not_or.mp other
      exact invalid ⟨small, notParent, start, notUp⟩
    rcases up with rfl | ⟨_, rfl⟩
    · rfl
    · rfl
  · exact if_pos (.inl (Nat.not_le.mp small))

end Components

/-! ## Whole lookups -/

section Lookups

variable {tree : Tree Node} {node : Node} {path : Bytes}

private lemma lookupLoop_some {fuel : Nat} {isDir : Bool} (enough : path.length < fuel) :
    ∃ outcome, lookupLoop tree fuel node path isDir = some outcome := by
  induction fuel generalizing node path with
  | zero => exact absurd enough (Nat.not_lt_zero _)
  | succ fuel ih =>
    rw [lookupLoop]
    split
    · exact ⟨_, rfl⟩
    · exact ⟨_, rfl⟩
    rename_i name rest walked
    split
    · exact ⟨_, rfl⟩
    rename_i child looked
    split
    · exact ⟨_, rfl⟩
    have shorter := Step.shorter (walkPath_spec walked)
    obtain ⟨outcome, done⟩ := @ih child rest (by omega)
    exact ⟨_, by rw [done]; rfl⟩

private lemma resolves_cons : (∃ names, behind.map (name :: ·) = some names ∧ Resolves tree node names) ↔
      ∃ child, tree.lookup node name = .ok child ∧ tree.isRemote child = false ∧
        ∃ names, behind = some names ∧ Resolves tree child names := by
  constructor
  · rintro ⟨_, mapped, resolves⟩
    obtain ⟨names, found, rfl⟩ := Option.map_eq_some_iff.mp mapped
    obtain ⟨child, looked, inside, further⟩ := resolves
    exact ⟨child, looked, inside, names, found, further⟩
  · rintro ⟨child, looked, inside, names, found, further⟩
    exact ⟨name :: names, by rw [found]; rfl, child, looked, inside, further⟩

/-- One round: the name of this round is proper unless it is the hidden parent reference,
and the rounds after it look at what is left of the path. -/
lemma lookupLoop_proper_iff (done : lookupLoop tree fuel node path isDir = some outcome) :
    (∀ name ∈ outcome.1, Proper name) ↔
      ¬ ∃ names, hiddenParent path = some names ∧ Resolves tree node names := by
  induction fuel generalizing node path outcome with
  | zero => cases done
  | succ fuel ih =>
    rw [lookupLoop] at done
    split at done
    next status refused =>
      cases done
      simp [walkPath_error refused]
    next rest walked =>
      cases done
      simp [show hiddenParent path = none from walkPath_spec walked]
    rename_i name rest walked
    obtain ⟨nonempty, free, notDot, -, up, other⟩ : Step path name rest := walkPath_spec walked
    by_cases isParent : name = parent
    · -- this name is the hidden reference, whatever follows
      have called : name ∈ outcome.1 := by
        split at done
        · cases done
          exact mem_singleton_self _
        split at done
        · cases done
          exact mem_singleton_self _
        · obtain ⟨later, -, rfl⟩ := Option.map_eq_some_iff.mp done
          exact mem_cons_self ..
      constructor
      · intro proper
        exact absurd isParent (proper name called).2.2.2
      · intro absent
        exact absurd ⟨[], up isParent, trivial⟩ absent
    · have proper : Proper name := ⟨nonempty, free, notDot, isParent⟩
      rw [other isParent, resolves_cons]
      split at done
      next status failed =>
        cases done
        simp [proper, failed]
      rename_i child looked
      rw [looked]
      split at done
      next stop =>
        cases done
        have ended : tree.isRemote child = true ∨ rest = [] := by simpa using stop
        rcases ended with remote | rfl
        · simp [proper, remote]
        · simp [proper, show hiddenParent [] = none from rfl]
      next goes =>
        have inside : tree.isRemote child = false ∧ rest ≠ [] := by simpa using goes
        obtain ⟨later, further, rfl⟩ := Option.map_eq_some_iff.mp done
        simp only [forall_mem_cons, proper, true_and, ih further]
        simp [inside.1]

/-- The names that `LookupPath` calls `Lookup` with. -/
def lookups (tree : Tree Node) (directory : Node) (path : Bytes) : List Bytes :=
  ((lookupPath tree directory path).map Prod.fst).getD []

/-- Every name that reaches `Lookup` is a proper one, unless the names of the path lead
through directories up to a `..` that stands behind a `.`. -/
theorem lookups_proper_iff (tree : Tree Node) (directory : Node) (path : Bytes) :
    (∀ name ∈ lookups tree directory path, Proper name) ↔
      ¬ ∃ names, hiddenParent path = some names ∧ Resolves tree directory names := by
  obtain ⟨outcome, done⟩ := @lookupLoop_some _ tree directory path (path.length + 1)
    (path = [] || path.getLast? = some slash) (Nat.lt_succ_self _)
  have called : lookups tree directory path = outcome.1 := by
    rw [lookups, lookupPath, done]
    rfl
  rw [called]
  exact lookupLoop_proper_iff done

end Lookups

/-! ## Resolution of the components -/

/-- The components in order, without the empty ones and `.`: the names that are looked up, and
the first error, the first remote node with what follows its slashes, or the last node. -/
def resolve (tree : Tree Node) : Node → List Bytes →
    List Bytes × Except Status (Node × Option Bytes)
  | node, [] => ([], .ok (node, none))
  | node, component :: rest =>
    if component = [] ∨ component = [dot] then resolve tree node rest
    else
      match tree.lookup node component with
      | .error status => ([component], .error status)
      | .ok child =>
        if tree.isRemote child then
          ([component], .ok (child, some (dropSlashes ([slash].intercalate rest))))
        else (component :: (resolve tree child rest).1, (resolve tree child rest).2)

/-- The path is empty, ends with a slash or has `.` as its last component. -/
def NamesDirectory (path : Bytes) : Prop :=
  path = [] ∨ path.getLast? = some slash ∨ (path.splitOn slash).getLast? = some [dot]

/-- The result of `LookupPath` is that of the components; `directory` says what `is_dir` is. -/
def Answers (directory : Prop) (expected : List Bytes × Except Status (Node × Option Bytes)) :
    Option (List Bytes × Except Status (LookupPathResult Node)) → Prop
  | none => False
  | some (names, result) =>
    names = expected.1 ∧
      match expected.2 with
      | .error status => result = .error status
      | .ok (node, some rest) => ∃ isDir, result = .ok ⟨node, rest, isDir⟩
      | .ok (node, none) => ∃ rest isDir, result = .ok ⟨node, rest, isDir⟩ ∧ (isDir ↔ directory)

section Resolution

variable {tree : Tree Node} {node : Node} {path : Bytes}

lemma getLast_splitOn : (component :: path.splitOn slash).getLast? = (path.splitOn slash).getLast? :=
  getLast?_cons_of_ne_nil (splitOn_ne_nil slash path)

/-- The last component is empty if the path is or ends with a slash. -/
lemma splitOn_getLast_nil (path : Bytes) :
    (path.splitOn slash).getLast? = some [] ↔ path = [] ∨ path.getLast? = some slash := by
  by_cases slashed : slash ∈ path
  · have cut := cut_at_slash slashed
    have shorter := congrArg length cut
    rw [cut, splitOn_append_cons_self, getLast?_append_of_ne_nil _ (splitOn_ne_nil _ _),
      splitOn_getLast_nil]
    cases path.drop ((path.takeWhile (· != slash)).length + 1) with
    | nil => simp
    | cons => simp [getLast?_cons_cons]
  · rw [splitOn_eq_singleton slashed]
    have other : path.getLast? ≠ some slash := fun last => slashed (mem_of_getLast? last)
    simp [other]
termination_by path.length
decreasing_by
  simp only [length_append, length_cons] at shorter
  omega

/-- Empty components and `.` are skipped, and so the slashes and dots in front are. -/
private lemma resolve_stripDots :
    resolve tree node ((stripDots fuel path).splitOn slash) = resolve tree node (path.splitOn slash) :=
  stripDots_unseen (fun _ => if_pos (.inl rfl)) (fun _ => if_pos (.inr rfl)) fuel path

lemma Answers.cons {expected : List Bytes × Except Status (Node × Option Bytes)}
    (further : Answers directory expected outcome) : Answers directory (name :: expected.1, expected.2)
      (outcome.map fun outcome => (name :: outcome.1, outcome.2)) := by
  cases outcome with
  | none => exact further
  | some outcome => exact ⟨congrArg (name :: ·) further.1, further.2⟩

/-- Every round looks up the first name that is left; `isDir` is right about the end of the
path unless that is a `.`. -/
private lemma lookupLoop_answers {fuel : Nat} {isDir : Bool} (enough : path.length < fuel)
    (short : path.length ≤ nameMax) (start : path.head? ≠ some slash) (proper : parent ∉ path.splitOn slash)
    (ends : ∀ last, (path.splitOn slash).getLast? = some last → last ≠ [dot] → (isDir ↔ last = [])) :
    Answers ((path.splitOn slash).getLast? = some [] ∨ (path.splitOn slash).getLast? = some [dot])
      (resolve tree node (path.splitOn slash)) (lookupLoop tree fuel node path isDir) := by
  induction fuel generalizing node path with
  | zero => exact absurd enough (Nat.not_lt_zero _)
  | succ fuel ih =>
    have valid : validatePath path := by
      refine validatePath_iff.mpr ⟨short, ?_, start, ?_⟩
      · rintro rfl
        exact proper (by decide)
      · rintro ⟨rest, rfl⟩
        exact proper (mem_cons_self ..)
    rw [lookupLoop, walkPath, if_pos valid, ← resolve_stripDots]
    obtain ⟨fewer, stripped, bare, -⟩ := @stripDots_spec path false path.length (Nat.le_refl _) start
    have last := stripDots_unseen (fun path => getLast_splitOn)
      (fun path => getLast_splitOn) path.length path
    have unseen := @stripDots_unseen _ (parent ∈ ·) (by simp [parent]) (by simp [parent])
      path.length path
    rw [← last] at ends ⊢
    rw [← unseen] at proper
    generalize stripDots path.length path = left at fewer stripped bare ends proper ⊢
    rcases firstName_cases stripped bare with
      ⟨here, first⟩ | ⟨name, nonempty, notDot, free, ⟨rfl, first⟩ | ⟨rest, rfl, first⟩⟩
    · rcases here with rfl | rfl
      · exact ⟨rfl, _, true, rfl, by simp⟩
      · rw [splitOn_eq_singleton (by decide)]
        exact ⟨rfl, _, true, rfl, by simp⟩
    · rw [splitOn_eq_singleton free] at ends ⊢
      rw [first, resolve, if_neg (not_or.mpr ⟨nonempty, notDot⟩)]
      simp only
      cases tree.lookup node left with
      | error status => exact ⟨rfl, rfl⟩
      | ok child =>
        have plain := ends left rfl notDot
        simp only [decide_true, Bool.or_true, if_true]
        split
        · exact ⟨rfl, _, rfl⟩
        · refine ⟨rfl, [], isDir, rfl, ?_⟩
          simp [plain, nonempty, notDot]
    · rw [splitOn_append_cons_self_of_not_mem free] at ends proper ⊢
      rw [getLast_splitOn] at ends ⊢
      rw [first, resolve, if_neg (not_or.mpr ⟨nonempty, notDot⟩), intercalate_splitOn]
      simp only
      have skipped := dropSlashes_unseen (fun path => getLast_splitOn) rest
      have shorter := length_dropSlashes rest
      simp only [length_append, length_cons] at fewer
      cases tree.lookup node name with
      | error status => exact ⟨rfl, rfl⟩
      | ok child =>
        simp only
        cases remote : tree.isRemote child with
        | true => exact ⟨rfl, isDir, rfl⟩
        | false =>
          have same : resolve tree child ((dropSlashes rest).splitOn slash) =
            resolve tree child (rest.splitOn slash) :=
              dropSlashes_unseen (fun _ => if_pos (.inl rfl)) rest
          have unseen := @dropSlashes_unseen _ (parent ∈ ·) (by simp [parent]) rest
          rw [← skipped] at ends ⊢
          rw [mem_cons, not_or, ← unseen] at proper
          simp only [← same, Bool.false_or, Bool.false_eq_true, if_false]
          by_cases empty : dropSlashes rest = []
          · rw [empty] at ends ⊢
            refine ⟨rfl, [], isDir, rfl, ?_⟩
            simp [ends [] rfl (by decide)]
          · rw [if_neg (by simpa using empty)]
            exact Answers.cons (ih (by omega) (by omega) (head_dropSlashes) proper.2 ends)

/-- The paths that `LookupPath` should resolve. -/
structure Relative (path : Bytes) : Prop where
  fits : path.length ≤ pathMax - 1
  start : path.head? ≠ some slash
  proper : parent ∉ path.splitOn slash
  names : ∀ component ∈ path.splitOn slash, component.length ≤ nameMax

lemma lookupPath_long (long : nameMax < path.length) :
    lookupPath tree node path = some ([], .error .invalidArgs) := by
  have invalid : validatePath path = false := if_pos long
  rw [lookupPath, lookupLoop, walkPath, invalid]
  rfl

/-- Without a lookup nothing has failed. -/
private lemma resolve_error (failed : (resolve tree node components).2 = .error status) :
    (resolve tree node components).1 ≠ [] := by
  induction components generalizing node with
  | nil => cases failed
  | cons _ _ ih =>
    rw [resolve] at failed ⊢
    split
    next skipped =>
      rw [if_pos skipped] at failed
      exact ih failed
    · split
      · exact cons_ne_nil _ _
      · split <;> exact cons_ne_nil _ _

/-- A path is resolved as its components say exactly if it is no longer than a name may be:
`ValidatePath` compares the whole path with `NAME_MAX`. -/
theorem lookupPath_answers_iff (tree : Tree Node) (directory : Node) (path : Bytes)
    (relative : Relative path) :
    Answers (NamesDirectory path) (resolve tree directory (path.splitOn slash))
        (lookupPath tree directory path) ↔ path.length ≤ nameMax := by
  constructor
  · intro answers
    by_contra long
    rw [lookupPath_long (Nat.not_le.mp long)] at answers
    obtain ⟨unasked, result⟩ := answers
    cases resolved : (resolve tree directory (path.splitOn slash)).2 with
    | error => exact resolve_error resolved unasked.symm
    | ok found =>
      obtain ⟨_, rest⟩ := found
      rw [resolved] at result
      cases rest <;> simp at result
  · intro short
    have answers := @lookupLoop_answers _ tree directory path (path.length + 1)
      (path = [] || path.getLast? = some slash) (Nat.lt_succ_self _) short relative.start relative.proper
      (fun last isLast notDot => by
        rw [Bool.or_eq_true, decide_eq_true_eq, decide_eq_true_eq, ← splitOn_getLast_nil, isLast,
          Option.some.injEq])
    rw [splitOn_getLast_nil, or_assoc] at answers
    exact answers

end Resolution

/-- A tree in which every name leads to a directory. -/
def endless : Tree Unit := ⟨fun _ _ => .ok (), fun _ => false⟩

/-- `x` and a number of slashes. -/
def padded (count : Nat) : Bytes := [120] ++ slash :: List.replicate count slash

lemma splitOn_padded : (padded count).splitOn slash = [120] :: replicate (count + 1) [] := by
  rw [padded, splitOn_append_cons_self_of_not_mem (by decide)]
  congr 1
  induction count with
  | zero => rfl
  | succ count ih => exact congrArg ([] :: ·) ih

private lemma relative_padded (fits : count + 2 < pathMax) : Relative (padded count) := by
  refine ⟨?_, by simp [padded, slash], ?_, ?_⟩
  · simp only [padded, length_append, length_cons, length_replicate]
    simp only [length_nil]
    omega
  · simp [splitOn_padded, parent, dot]
  · simp [splitOn_padded, nameMax]

private lemma resolve_empty : resolve tree node (replicate count []) = ([], .ok (node, none)) := by
  induction count with
  | zero => rfl
  | succ count ih => rw [replicate_succ, resolve, if_pos (.inl rfl), ih]

/-- `x` and 255 slashes: the components fit, and yet nothing is looked up. -/
theorem padded_path_refused :
    Relative (padded 254) ∧ lookupPath endless () (padded 254) = some ([], .error .invalidArgs) ∧
      resolve endless () ((padded 254).splitOn slash) = ([[120]], .ok ((), none)) := by
  refine ⟨relative_padded (by decide), lookupPath_long ?_, ?_⟩
  · rw [padded, length_append, length_cons, length_cons, length_replicate]
    decide
  · rw [splitOn_padded, resolve]
    simp only [endless, resolve_empty]
    rfl

theorem short_path_answers :
    Answers (NamesDirectory [120, slash, dot]) (resolve endless () [[120], [dot]])
      (lookupPath endless () [120, slash, dot]) := by
  have relative : Relative [120, slash, dot] := by
    refine ⟨by decide, by decide, by decide, ?_⟩
    decide
  exact (lookupPath_answers_iff endless () _ relative).mpr (by decide)

/-! ## A directory that forwards what it does not know -/

/-- `vfs::ComposedServiceDir`: the services of its pseudo directory, and whether there is a
fallback directory. -/
structure ComposedServiceDir where
  services : List Bytes
  fallbackDir : Bool

/-- The directory, one of its services, or a service that connects to that name of the
fallback directory (`fdio_service_connect_at`). -/
inductive ServiceNode where
  | directory
  | service (name : Bytes)
  | fallback (name : Bytes)
  deriving DecidableEq, Repr

/-- `ComposedServiceDir::Lookup`; services are no directories. -/
def ComposedServiceDir.tree (dir : ComposedServiceDir) : Tree ServiceNode where
  lookup
    | .directory, name =>
      if name ∈ dir.services then .ok (.service name)
      else if dir.fallbackDir then .ok (.fallback name)
      else .error .notFound
    | _, _ => .error .notDir
  isRemote _ := false

/-- `./..` is looked up as the service `..` of the fallback directory. -/
theorem fallback_receives_parent :
    lookupPath (ComposedServiceDir.tree ⟨[], true⟩) .directory [dot, slash, dot, dot] =
        some ([parent], .ok ⟨.fallback parent, [], false⟩) ∧
      ¬ ∀ name ∈ lookups (ComposedServiceDir.tree ⟨[], true⟩) .directory [dot, slash, dot, dot],
        Proper name := by
  refine ⟨by decide, fun proper => ?_⟩
  exact (proper parent (by decide)).2.2.2 rfl

end FuchsiaSdk.VfsPath
