import FuchsiaSdk.FdTable

/-! `socketpair_create` (`fdio/unistd.cc`), which serves `socketpair` and `pipe2`. Both ends are bound in
one pass over the descriptor table. -/

open List Function

namespace FuchsiaSdk.SocketPair
open FdTable

/-- The loop: the ends that are left are bound to the slots that take them. -/
def bindEnds (table : Table Io maxFd) : List Io → List (Fin maxFd) → List (Fin maxFd) × Table Io maxFd
  | ptr :: ends, fd :: rest =>
    match (table fd).trySet ptr with
    | some slot =>
      let (fds, table) := bindEnds (update table fd slot) ends rest
      (fd :: fds, table)
    | none => bindEnds table (ptr :: ends) rest
  | _, _ => ([], table)

/-- `socketpair_create`: `allowed` if the flags are, and `pair` is what `create_pair` returns. -/
def socketpairCreate (allowed : Bool) (pair : Except Errno (Io × Io)) (table : Table Io maxFd) :
    Except Errno (Fin maxFd × Fin maxFd) × Table Io maxFd :=
  if !allowed then (.error .EINVAL, table)
  else
    match pair with
    | .error error => (.error error, table)
    | .ok (left, right) =>
      match bindEnds table [left, right] (finRange maxFd) with
      | ([first, second], table) => (.ok (first, second), table)
      | (_, table) => (.error .EMFILE, table)

/-- Nothing is bound by a call that fails, and two free descriptors by one that succeeds. -/
def AllOrNothing (pair : Except Errno (Io × Io)) (before after : Table Io maxFd) :
    Except Errno (Fin maxFd × Fin maxFd) → Prop
  | .error _ => after = before
  | .ok (first, second) => ∃ left right, pair = .ok (left, right) ∧ first ≠ second ∧
    before first = .available ∧ before second = .available ∧
    after = update (update before first (.io left)) second (.io right)

/-- An end is bound to the first slot that is available. -/
lemma bindEnds_cons (table : Table Io maxFd) (ptr : Io) (ends : List Io) (fds : List (Fin maxFd)) :
    (bindEnds table (ptr :: ends) fds = ([], table) ∧ ∀ fd ∈ fds, table fd ≠ .available) ∨
    ∃ before fd after, fds = before ++ fd :: after ∧ table fd = .available ∧
      (∀ other ∈ before, table other ≠ .available) ∧ bindEnds table (ptr :: ends) fds =
        (fd :: (bindEnds (update table fd (.io ptr)) ends after).1,
          (bindEnds (update table fd (.io ptr)) ends after).2) := by
  induction fds with
  | nil => exact .inl ⟨rfl, nofun⟩
  | cons fd fds ih =>
    cases slot : table fd with
    | available =>
      refine .inr ⟨[], fd, fds, rfl, slot, nofun, ?_⟩
      rw [bindEnds, slot]
      rfl
    | reserved | io =>
      have skipped : bindEnds table (ptr :: ends) (fd :: fds) = bindEnds table (ptr :: ends) fds := by
        rw [bindEnds, slot]
        rfl
      have taken : table fd ≠ .available := by rw [slot]; nofun
      rw [skipped]
      rcases ih with ⟨same, none⟩ | ⟨before, found, after, rfl, free, none, same⟩
      · exact .inl ⟨same, forall_mem_cons.mpr ⟨taken, none⟩⟩
      · exact .inr ⟨fd :: before, found, after, rfl, free, forall_mem_cons.mpr ⟨taken, none⟩, same⟩

/-- One end stays bound after a failure if there is one descriptor left. -/
theorem allOrNothing_iff (allowed : Bool) (pair : Except Errno (Io × Io)) (table : Table Io maxFd) :
    let (result, after) := socketpairCreate allowed pair table
    AllOrNothing pair table after result ↔
      ¬ (allowed = true ∧ (∃ ends, pair = .ok ends) ∧ ∃! fd, table fd = .available) := by
  cases allowed with
  | false => exact ⟨nofun, fun _ => rfl⟩
  | true =>
  rcases pair with _ | ⟨left, right⟩
  · exact ⟨nofun, fun _ => rfl⟩
  rcases bindEnds_cons table left [right] (finRange maxFd) with
    ⟨same, taken⟩ | ⟨_, first, after, parts, free, taken, same⟩
  · simp only [socketpairCreate, same]
    exact ⟨fun _ ⟨_, _, fd, free, _⟩ => taken fd (mem_finRange fd) free, fun _ => rfl⟩
  have distinct := nodup_finRange maxFd
  rw [parts, nodup_append, nodup_cons] at distinct
  have others (fd) (mem : fd ∈ after) : update table first (.io left) fd = table fd :=
    update_of_ne (ne_of_mem_of_not_mem mem distinct.2.1.1) ..
  rcases bindEnds_cons (update table first (.io left)) right [] after with
    ⟨same', taken'⟩ | ⟨between, second, later, rfl, free', -, same'⟩
  · -- The search for the second slot has failed, with the first one set.
    simp only [socketpairCreate, same, same']
    refine iff_of_false (fun unchanged => ?_) (not_not.mpr ⟨trivial, ⟨_, rfl⟩, first, free, fun fd free => ?_⟩)
    · have held := congrFun (show update table first (.io left) = table from unchanged) first
      rw [update_self, free] at held
      cases held
    · have mem := mem_finRange fd
      rw [parts, mem_append, mem_cons] at mem
      rcases mem with mem | same | mem
      · exact absurd free (taken fd mem)
      · exact same
      · exact absurd ((others fd mem).trans free) (taken' fd mem)
  · simp only [socketpairCreate, same, same', bindEnds]
    have mem : second ∈ between ++ second :: later := mem_append_right _ mem_cons_self
    have apart : first ≠ second := (ne_of_mem_of_not_mem mem distinct.2.1.1).symm
    rw [others second mem] at free'
    refine iff_of_true ⟨left, right, rfl, apart, free, free', rfl⟩ ?_
    rintro ⟨-, -, fd, -, unique⟩
    exact apart ((unique first free).trans (unique second free').symm)

/-- Every descriptor but the first is in use. -/
def oneLeft : Table Nat fdioMaxFd := fun fd => if fd.val = 0 then .available else .io fd.val

set_option maxRecDepth 16000 in
theorem one_end_bound : (socketpairCreate true (.ok (7, 8)) oneLeft).1 = .error .EMFILE ∧
    (socketpairCreate true (.ok (7, 8)) oneLeft).2 ⟨0, by decide⟩ = .io 7 :=
  ⟨rfl, rfl⟩

end FuchsiaSdk.SocketPair
