import FuchsiaSdk.CleanPath

/-! `chroot` (`fdio/unistd.cc`) gives the working directory the name it has below
the new root. It compares the two paths as strings, so a root that is the working
directory itself is not recognised. -/
namespace FuchsiaSdk.Chroot
open CleanPath List

/-- `kUnreachable`: `(unreachable)`. -/
def unreachable : Bytes := [40, 117, 110, 114, 101, 97, 99, 104, 97, 98, 108, 101, 41]

/-- `resolve_path`. -/
def resolvePath (cwd relative : Bytes) : Option Bytes :=
  if relative.head? = some slash then (cleanPath relative).map Prod.fst
  else if cwd.length + relative.length + 2 > pathMax then none
  else (cleanPath (cwd ++ slash :: relative)).map Prod.fst

/-- What becomes of `fdio_cwd_path` once the root is set. The byte behind a string
is its terminator. -/
def renameCwd (cwd root : Bytes) : Bytes :=
  if root.length > 1 then
    if root <+: cwd ∧ cwd[root.length]? = some slash then cwd.drop root.length else unreachable
  else cwd

/-- `chroot`, with the new `fdio_cwd_path`. The path is opened as a directory, which
then becomes the root of the namespace. -/
def chroot (nameTooLong : ε) (openDirectory : Bytes → Except ε Unit) (setRoot : Except ε Unit)
    (cwd path : Bytes) : Except ε Bytes :=
  match resolvePath cwd path with
  | none => .error nameTooLong
  | some root => do
    openDirectory root
    setRoot
    return renameCwd cwd root

/-- The name of a directory below a root. -/
def remainder (root components : List Bytes) : Bytes :=
  if root <+: components then render (components.drop root.length) else unreachable

variable {root components : List Bytes}

private lemma renameCwd_append (proper : ∀ component ∈ root, Proper component) (nonempty : root ≠ [])
    (others : more ≠ []) : renameCwd (render (root ++ more)) (render root) = render more := by
  have next : (render root ++ render more)[(render root).length]? = some slash := by
    rw [getElem?_append_right (Nat.le_refl _), Nat.sub_self]
    rfl
  rw [renameCwd, render_append nonempty others, if_pos (render_length proper nonempty),
    if_pos ⟨prefix_append _ _, next⟩, drop_left]

lemma renameCwd_unreachable (proper : ∀ component ∈ components, Proper component)
    (proper' : ∀ component ∈ root, Proper component) (nonempty : root ≠ [])
    (apart : ∀ more, more ≠ [] → components ≠ root ++ more) :
    renameCwd (render components) (render root) = unreachable := by
  rw [renameCwd, if_pos (render_length proper' nonempty), if_neg]
  rintro ⟨⟨rest, same⟩, next⟩
  rw [← same, getElem?_append_right (Nat.le_refl _), Nat.sub_self] at next
  obtain ⟨tail, rfl⟩ : ∃ tail, rest = slash :: tail := by
    cases rest with
    | nil => cases next
    | cons _ tail => exact ⟨tail, by rw [Option.some.inj next]⟩
  have filled : components ≠ [] := by
    rintro rfl
    have length := congrArg length same
    simp [render] at length
  have cut : ([slash].intercalate root ++ slash :: tail).splitOn slash =
      ([slash].intercalate components).splitOn slash := congrArg (·.tail.splitOn slash) same
  rw [splitOn_append_cons_self,
    splitOn_intercalate slash (fun part mem => (proper' part mem).2.1) nonempty,
    splitOn_intercalate slash (fun part mem => (proper part mem).2.1) filled] at cut
  exact apart _ (splitOn_ne_nil _ _) cut.symm

lemma renameCwd_iff (proper : ∀ component ∈ components, Proper component)
    (proper' : ∀ component ∈ root, Proper component) :
    renameCwd (render components) (render root) = remainder root components ↔
      root ≠ components ∨ components = [] := by
  by_cases empty : root = []
  · subst empty
    refine iff_of_true rfl ?_
    cases components with
    | nil => exact .inr rfl
    | cons => exact .inl nofun
  · by_cases below : root <+: components
    · obtain ⟨more, rfl⟩ := below
      rw [remainder, if_pos (prefix_append _ _), drop_left]
      cases more with
      | nil =>
        -- The working directory is the root.
        rw [append_nil, renameCwd_unreachable proper' proper' empty fun more others same =>
          others (self_eq_append_right.mp same)]
        exact iff_of_false (by decide) (not_or.mpr ⟨not_not.mpr rfl, empty⟩)
      | cons _ more =>
        refine iff_of_true (renameCwd_append proper' empty nofun) (.inl fun same => ?_)
        cases self_eq_append_right.mp same
    · rw [remainder, if_neg below, renameCwd_unreachable proper proper' empty fun more _ same =>
        below ⟨more, same.symm⟩]
      exact iff_of_true rfl (.inl fun same => below (same ▸ prefix_rfl))

/-- `resolve_path` gives an absolute path of components. -/
private lemma resolvePath_render (resolved : resolvePath (slash :: rest) path = some absolute) :
    ∃ root, absolute = render root ∧ ∀ component ∈ root, Proper component := by
  have clean : ∀ {input}, (cleanPath (slash :: input)).map Prod.fst = some absolute →
      ∃ root, absolute = render root ∧ ∀ component ∈ root, Proper component := by
    intro input found
    obtain ⟨⟨path, isDir⟩, cleaned, rfl⟩ := Option.map_eq_some_iff.mp found
    obtain ⟨_, inv, rfl⟩ := cleanPath_cursor cleaned
    exact inv.shape
  unfold resolvePath at resolved
  split at resolved
  next rooted =>
    obtain ⟨input, rfl⟩ := head?_eq_some_iff.mp rooted
    exact clean resolved
  · split at resolved
    · cases resolved
    · exact clean resolved

/-- The working directory gets its name below the new root unless it is the new root. -/
theorem chroot_remainder_iff (proper : ∀ component ∈ components, Proper component)
    (done : chroot nameTooLong openDirectory setRoot (render components) path = .ok cwd) :
    ∃ root, resolvePath (render components) path = some (render root) ∧
      (∀ component ∈ root, Proper component) ∧
      (cwd = remainder root components ↔ root ≠ components ∨ components = []) := by
  unfold chroot at done
  split at done
  · cases done
  rename_i absolute resolved
  obtain ⟨root, rfl, proper'⟩ := resolvePath_render resolved
  refine ⟨root, resolved, proper', ?_⟩
  cases opened : openDirectory (render root) with
  | error =>
    rw [opened] at done
    cases done
  | ok =>
    rw [opened] at done
    cases setRoot with
    | error => cases done
    | ok =>
      cases done
      exact renameCwd_iff proper proper'

/-- `chroot("..")` in `/a/b`. -/
theorem chroot_remainder_above :
    chroot () (fun _ => .ok ()) (.ok ()) (render [[97], [98]]) [dot, dot] = .ok (render [[98]]) ∧
      ∃ root, resolvePath (render [[97], [98]]) [dot, dot] = some (render root) ∧
        (render [[98]] = remainder root [[97], [98]] ↔ root ≠ [[97], [98]] ∨
          [[(97 : UInt8)], [98]] = []) := by
  have done : chroot () (fun _ => .ok ()) (.ok ()) (render [[97], [98]]) [dot, dot] =
      .ok (render [[98]]) := rfl
  have proper : ∀ component ∈ [[97], [98]], Proper component := by
    unfold Proper
    decide
  obtain ⟨root, resolved, -, named⟩ := chroot_remainder_iff proper done
  exact ⟨done, root, resolved, named⟩

/-- `chroot(".")` in `/a`: the working directory is the root, and is reported as
unreachable. -/
theorem chroot_here_unreachable :
    resolvePath (render [[97]]) [dot] = some (render [[97]]) ∧ remainder [[97]] [[97]] = render [] ∧
      chroot () (fun _ => .ok ()) (.ok ()) (render [[97]]) [dot] = .ok unreachable := by
  decide

end FuchsiaSdk.Chroot
