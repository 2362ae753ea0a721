import FuchsiaSdk.CodedDecoder

/-! `FidlHandleDispositionsToHandleInfos` (`fidl_base/internal.c`) moves handles from one
array to another. At the first one that does not pass it closes what is in both arrays. -/
namespace FuchsiaSdk.HandleDispositions
open WireFormat CodedDecoder List

/-- `zx_status_t`. -/
abbrev Status : Type := Int

/-- `ZX_ERR_INVALID_ARGS`. -/
def invalidArgs : Status := -10

/-- `zx_handle_disposition_t`, and whether its operation is `ZX_HANDLE_OP_MOVE`. -/
structure Disposition where
  isMove : Bool := true
  handle : Handle
  attributes : HandleAttributes
  result : Status := 0

/-- What the kernel answers for one handle: `zx_object_get_info`, and `zx_handle_replace`
with whether the handle is gone after a failure. -/
structure Answers where
  info : Except Status HandleAttributes
  replace : Except (Status × Bool) Handle

inductive Check where
  | passed (handle : Handle)
  /-- With what was closed, and what is left in the disposition. -/
  | failed (status : Status) (closed : List Handle) (left : Handle)
  | crashed

/-- `FidlEnsureActualHandleRights`, where `error` is null. -/
def ensureActualHandleRights (answers : Answers) (handle : Handle) (required : HandleAttributes) :
    Check :=
  match answers.info with
  -- The text is written to `*error` all the same.
  | .error _ => .crashed
  | .ok actual =>
    match ensureHandleRights actual required (some 0) with
    | .refused _ => .failed invalidArgs (close [handle]) 0
    | .unchanged => .passed handle
    | .replaced _ =>
      match answers.replace with
      | .ok successor => .passed successor
      | .error (status, gone) => .failed status (if gone then close [handle] else []) handle

def Disposition.check (disposition : Disposition) (answers : Answers) : Check :=
  if !disposition.isMove then .failed invalidArgs [] disposition.handle
  else if disposition.result ≠ 0 then .failed invalidArgs [] disposition.handle
  else ensureActualHandleRights answers disposition.handle disposition.attributes

/-- What the handle is after the check. -/
def Disposition.became (disposition : Disposition) (answers : Answers) : Handle :=
  match disposition.check answers with
  | .passed handle => handle
  | _ => disposition.handle

inductive Outcome where
  /-- With the handles in the dispositions, and those of `handle_infos`. -/
  | ok (left infos : List Handle)
  /-- With what was closed, and what the input handles are. -/
  | error (status : Status) (closed current : List Handle)
  | crashed

/-- `FidlHandleDispositionCloseMany` and `FidlHandleInfoCloseMany`. -/
def closeMany (handles : List Handle) : Option (List Handle) :=
  if handles.length ≤ maxMsgHandles then some (close handles) else none

/-- `FidlHandleDispositionsToHandleInfos`, once some handles have been moved. -/
def handleDispositionsToHandleInfos (answers : Nat → Answers) (moved : List Handle) :
    List Disposition → Outcome
  | [] => .ok (List.replicate moved.length 0) moved
  | disposition :: rest =>
    match disposition.check (answers moved.length) with
    | .passed handle => handleDispositionsToHandleInfos answers (moved ++ [handle]) rest
    | .failed status closed left =>
      let others := rest.map Disposition.handle
      match closeMany (List.replicate moved.length 0 ++ left :: others), closeMany moved with
      | some first, some second =>
        .error status (closed ++ first ++ second) (moved ++ disposition.handle :: others)
      | _, _ => .crashed
    | .crashed => .crashed

/-- What the first disposition that does not pass fails with. -/
def firstStatus (answers : Nat → Answers) : (i : Nat) → List Disposition → Option Status
  | _, [] => none
  | i, disposition :: rest =>
    match disposition.check (answers i) with
    | .passed _ => firstStatus answers (i + 1) rest
    | .failed status _ _ => some status
    | .crashed => none

/-- Every handle is in the output and no longer in the input, or was closed once. -/
def Conserves (answers : Nat → Answers) (dispositions : List Disposition) : Outcome → Prop
  | .ok left infos => (∀ handle ∈ left, handle = 0) ∧
      infos = dispositions.mapIdx fun i disposition => disposition.became (answers i)
  | .error status closed current =>
    firstStatus answers 0 dispositions = some status ∧ closed.Perm (close current)
  | .crashed => False

/-- The first disposition that does not pass is one of few, its handle is known to the kernel,
and no `zx_handle_replace` that fails has consumed it. -/
def Harmless (total : Nat) (answers : Nat → Answers) : (i : Nat) → List Disposition → Prop
  | _, [] => True
  | i, disposition :: rest =>
    if !disposition.isMove || disposition.result ≠ 0 then total ≤ maxMsgHandles
    else
      match (answers i).info with
      | .error _ => False
      | .ok actual =>
        match ensureHandleRights actual disposition.attributes (some 0), (answers i).replace with
        | .refused _, _ => total ≤ maxMsgHandles
        | .replaced _, .error (_, gone) =>
          total ≤ maxMsgHandles ∧ (gone = false ∨ disposition.handle = 0)
        | _, _ => Harmless total answers (i + 1) rest

private lemma harmless_cons : Harmless total answers i (disposition :: rest) ↔
    match disposition.check (answers i) with
    | .passed _ => Harmless total answers (i + 1) rest
    | .failed _ closed left => total ≤ maxMsgHandles ∧ (closed = [] ∨ left = 0)
    | .crashed => False := by
  unfold Disposition.check ensureActualHandleRights
  rw [Harmless]
  cases disposition.isMove with
  | false => simp
  | true =>
    by_cases result : disposition.result = 0
    · cases (answers i).info with
      | error => simp [result]
      | ok actual =>
        cases check : ensureHandleRights actual disposition.attributes (some 0) with
        | unchanged | refused => simp [result, check]
        | replaced =>
          cases (answers i).replace with
          | ok => simp [result, check]
          | error failure =>
            obtain ⟨_, gone⟩ := failure
            cases gone <;> simp [result, check, close]
    · simp [result]

private lemma check_failed {disposition : Disposition}
    (failed : disposition.check answers = .failed status closed left) :
    (closed ++ close [left]).Perm (close [disposition.handle]) ↔ closed = [] ∨ left = 0 := by
  have cases : closed = [] ∧ left = disposition.handle ∨
      closed = close [disposition.handle] ∧ (left = 0 ∨ left = disposition.handle) := by
    unfold Disposition.check ensureActualHandleRights at failed
    repeat' split at failed
    all_goals cases failed
    all_goals simp
  by_cases zero : disposition.handle = 0 <;>
    rcases cases with ⟨rfl, rfl⟩ | ⟨rfl, rfl | rfl⟩ <;> simp [close, zero]

/-- What is closed after an error, one handle apart from the others. -/
private lemma close_perm (count : Nat) :
    (closed ++ close (replicate count 0 ++ left :: others) ++ close moved).Perm
      (close (moved ++ handle :: others)) ↔ (closed ++ close [left]).Perm (close [handle]) := by
  have first : closed ++ close (replicate count 0 ++ left :: others) ++ close moved =
      closed ++ close [left] ++ (close others ++ close moved) := by
    rw [← singleton_append]
    simp only [close, filter_append, append_assoc]
    simp
  have second : (close (moved ++ handle :: others)).Perm
      (close [handle] ++ (close others ++ close moved)) := by
    rw [← singleton_append]
    simp only [close, filter_append]
    exact perm_append_comm.trans (.of_eq (append_assoc ..))
  rw [first]
  exact ⟨fun perm => (perm_append_right_iff _).mp (perm.trans second),
    fun perm => ((perm_append_right_iff _).mpr perm).trans second.symm⟩

lemma moved_conserves_iff {moved : List Handle}
    (same : moved = before.mapIdx fun i disposition => disposition.became (answers i))
    (met : firstStatus answers 0 (before ++ rest) = firstStatus answers moved.length rest) :
    Conserves answers (before ++ rest) (handleDispositionsToHandleInfos answers moved rest) ↔
      Harmless (before ++ rest).length answers moved.length rest := by
  induction rest generalizing before moved with
  | nil =>
    refine iff_of_true ⟨fun handle mem => eq_of_mem_replicate mem, ?_⟩ trivial
    rw [append_nil, same]
  | cons disposition rest ih =>
    have length : moved.length = before.length := by rw [same, length_mapIdx]
    unfold handleDispositionsToHandleInfos
    rw [harmless_cons]
    rw [firstStatus] at met
    cases checked : disposition.check (answers moved.length) with
    | passed handle =>
      rw [checked] at met
      have next := @ih (before ++ [disposition]) (moved ++ [handle]) (by
        rw [mapIdx_concat, ← same, ← length, Disposition.became, checked]) (by
        rwa [append_assoc, length_append])
      rwa [append_assoc, @length_append _ moved] at next
    | failed =>
      rw [checked] at met
      simp only [closeMany, length_append, length_replicate, length_cons, length_map, length]
      by_cases few : before.length + (rest.length + 1) ≤ maxMsgHandles
      · rw [if_pos few, if_pos (Nat.le_of_add_right_le few)]
        refine (and_iff_right met).trans ?_
        exact (close_perm ..).trans ((check_failed checked).trans (and_iff_right few).symm)
      · rw [if_neg few]
        exact iff_of_false id fun right => few right.1
    | crashed => exact Iff.rfl

/-- The handles are conserved exactly if the first disposition that does not pass is
harmless. -/
theorem conserves_iff (answers : Nat → Answers) (dispositions : List Disposition) :
    Conserves answers dispositions (handleDispositionsToHandleInfos answers [] dispositions) ↔
      Harmless dispositions.length answers 0 dispositions :=
  @moved_conserves_iff answers [] dispositions [] rfl rfl

/-- The kernel does not know the handle. -/
theorem unknown_handle_crashes :
    handleDispositionsToHandleInfos (fun _ => ⟨.error (-11), .ok 0⟩) []
      [{ handle := 7, attributes := ⟨0, 0⟩ }] = .crashed := rfl

end FuchsiaSdk.HandleDispositions
