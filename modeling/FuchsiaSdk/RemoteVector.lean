import Mathlib.Data.List.Basic

/-! Vectored I/O on a remote file (`zxio/remote.cc` over `zxio/cpp/vector.h`): a loop over the buffers
around a loop over chunks. Together they are one transfer of the cells of all buffers, which ends with
the first request that is short or fails. -/
namespace FuchsiaSdk.RemoteVector
open List hiding count

variable {Cell Status : Type}

/-- A request for a chunk of cells, and what the client takes from the reply: how many cells were
moved, or a status other than `ZX_OK`. -/
structure Exchange (Cell Status : Type) where
  offset : UInt64
  chunk : List Cell
  result : Except Status Nat

/-- What a call returns, and the requests so far. -/
abbrev Run (Cell Status : Type) : Type := Except Status Nat × List (Exchange Cell Status)

/-- `offset += actual` for every request that did not fail. -/
def advance (offset : UInt64) (log : List (Exchange Cell Status)) : UInt64 :=
  log.foldl (fun offset exchange => offset + .ofNat (exchange.result.toOption.getD 0)) offset

variable (io notSupported : Status) (server : Nat → Except Status Nat) (offset : UInt64)
  -- `fio::wire::kMaxBuf`, a generated constant.
  {kMaxBuf : Nat}

/-- The reply to a request, as the lambdas of the four callers take it. -/
def reply (sent length : Nat) : Except Status Nat :=
  match server sent with
  | .ok actual => if actual > length then .error io else .ok actual
  | .error status => .error status

/-- The lambda of `zxio_remote_do_vector`. -/
def transfer (positive : 0 < kMaxBuf) (log : List (Exchange Cell Status)) (cells : List Cell)
    (total : Nat) : Run Cell Status :=
  if cells = [] then (.ok total, log)
  else
    let chunk := cells.take kMaxBuf
    match reply io server log.length chunk.length with
    | .error status => (if total > 0 then .ok total else .error status,
      log ++ [⟨advance offset log, chunk, .error status⟩])
    | .ok actual =>
      let log := log ++ [⟨advance offset log, chunk, .ok actual⟩]
      if actual ≠ chunk.length then (.ok (total + actual), log)
      else transfer positive log (cells.drop actual) (total + actual)
termination_by cells.length
decreasing_by
  rename_i nonempty full
  have chunk : actual = min kMaxBuf cells.length := (not_not.mp full).trans length_take
  have present := length_pos_iff.mpr nonempty
  rw [length_drop, chunk]
  omega

/-- `zxio_do_vector`. -/
def doVector (positive : 0 < kMaxBuf) (log : List (Exchange Cell Status)) :
    List (List Cell) → (total : Nat) → Run Cell Status
  | [], total => (.ok total, log)
  | buffer :: rest, total =>
    match transfer io server offset positive log buffer 0 with
    | (.error status, log) => (if total > 0 then .ok total else .error status, log)
    | (.ok actual, log) =>
      if actual ≠ buffer.length then (.ok (total + actual), log)
      else doVector positive log rest (total + actual)

/-- `ReadvAt`, `WritevAt`, `Readv` and `Writev`. -/
def vector (positive : 0 < kMaxBuf) (flags : UInt32) (buffers : List (List Cell)) : Run Cell Status :=
  if flags ≠ 0 then (.error notSupported, []) else doVector io server offset positive [] buffers 0

/-- Requests that moved all of their cells, one behind the other. -/
inductive Full (offset : UInt64) : List Cell → List (Exchange Cell Status) → Prop where
  | nil : Full offset [] []
  | snoc : Full offset done log →
    Full offset (done ++ chunk) (log ++ [⟨advance offset log, chunk, .ok chunk.length⟩])

/-- A transfer of cells, after others in full: all of them are moved, or the last request is short or
fails. A status is returned only if nothing was moved. -/
inductive Transfers (offset : UInt64) (before cells : List Cell) (total : Nat) :
    Run Cell Status → Prop where
  | whole : Full offset (before ++ cells) log →
    Transfers offset before cells total (.ok (total + cells.length), log)
  | short : Full offset (before ++ done) log → cells = done ++ (chunk ++ rest) →
    actual < chunk.length → Transfers offset before cells total
      (.ok (total + done.length + actual), log ++ [⟨advance offset log, chunk, .ok actual⟩])
  | failed : Full offset (before ++ done) log → cells = done ++ (chunk ++ rest) → chunk ≠ [] →
    Transfers offset before cells total
      (if total + done.length > 0 then .ok (total + done.length) else .error status,
        log ++ [⟨advance offset log, chunk, .error status⟩])

/-- Every request has cells, no more than a message takes, and the log holds what the server answered
to it. -/
def Asked (kMaxBuf : Nat) (log : List (Exchange Cell Status)) : Prop :=
  ∀ i exchange, log[i]? = some exchange → exchange.chunk ≠ [] ∧
    exchange.chunk.length ≤ kMaxBuf ∧ exchange.result = reply io server i exchange.chunk.length

variable {io server offset} {positive : 0 < kMaxBuf} {log : List (Exchange Cell Status)} {run : Run Cell Status}

/-- What was moved in full belongs to the transfer. -/
lemma Transfers.cons (transfers : Transfers offset (before ++ first) cells (total + first.length) run) :
    Transfers offset before (first ++ cells) total run := by
  cases transfers with
  | whole full =>
    rw [append_assoc] at full
    rw [Nat.add_assoc, ← length_append]
    exact .whole full
  | short full split less =>
    rw [append_assoc] at full
    rw [Nat.add_assoc total, ← length_append]
    exact .short full (by rw [split, append_assoc]) less
  | failed full split nonempty =>
    rw [append_assoc] at full
    rw [Nat.add_assoc, ← length_append]
    exact .failed full (by rw [split, append_assoc]) nonempty

private lemma reply_le (replied : reply io server sent count = .ok actual) : actual ≤ count := by
  unfold reply at replied
  split at replied
  · split at replied <;> cases replied
    exact Nat.not_lt.mp ‹_›
  · cases replied

lemma Full.nothing (full : Full offset before log) : Full offset (before ++ []) log :=
  (append_nil _).symm ▸ full

lemma chunk_ne_nil {cells : List Cell} (positive : 0 < kMaxBuf) (nonempty : cells ≠ []) :
    cells.take kMaxBuf ≠ [] := by
  simpa [Nat.ne_of_gt positive] using nonempty

private lemma transfer_transfers (full : Full offset before log) :
    Transfers offset before cells total (transfer io server offset positive log cells total) := by
  fun_induction transfer io server offset positive log cells total generalizing before with
  | case1 => exact .whole full.nothing
  | case2 log cells total nonempty =>
    exact .failed full.nothing (take_append_drop ..).symm (chunk_ne_nil positive nonempty)
  | case3 =>
    rename_i replied log short
    exact .short full.nothing (take_append_drop ..).symm (Nat.lt_of_le_of_ne (reply_le replied) short)
  | case4 =>
    rename_i chunk actual replied log whole ih
    obtain rfl : actual = chunk.length := not_not.mp whole
    have rest := (ih full.snoc).cons
    have front : chunk <+: _ := take_prefix ..
    rwa [prefix_iff_eq_append.mp front] at rest

private lemma doVector_transfers (full : Full offset before log) :
    Transfers offset before buffers.flatten total (doVector io server offset positive log buffers total) := by
  induction buffers generalizing before log total with
  | nil => exact .whole full.nothing
  | cons buffer rest ih =>
    have first : Transfers offset before buffer 0 (transfer io server offset positive log buffer 0) :=
      transfer_transfers full
    rw [doVector]
    generalize transfer io server offset positive log buffer 0 = run at first
    rw [flatten_cons]
    cases first with
    | whole full =>
      dsimp only
      rw [Nat.zero_add, if_neg (not_not.mpr rfl)]
      exact (ih full).cons
    | short full split less =>
      dsimp only
      rw [split, if_pos (by rw [length_append, length_append]; omega), append_assoc, append_assoc,
        Nat.zero_add, ← Nat.add_assoc]
      exact .short full rfl less
    | @failed done _ chunk rest' status full split nonempty =>
      have whole : buffer ++ rest.flatten = done ++ (chunk ++ (rest' ++ rest.flatten)) := by
        rw [split, append_assoc, append_assoc]
      have stopped := @Transfers.failed _ _ _ _ _ total _ _ _ _ status full whole nonempty
      rw [Nat.zero_add]
      by_cases moved : done.length > 0
      · have incomplete : done.length ≠ buffer.length := by
          have present := length_pos_iff.mpr nonempty
          rw [split, length_append, length_append]
          omega
        simp only [if_pos moved, if_pos incomplete]
        rwa [if_pos (by omega)] at stopped
      · simp only [if_neg moved]
        rwa [show done.length = 0 by omega] at stopped

/-! ## The log -/

lemma Asked.snoc (asked : Asked io server kMaxBuf log) (nonempty : chunk ≠ [])
    (short : chunk.length ≤ kMaxBuf) (replied : reply io server log.length chunk.length = result) :
    Asked io server kMaxBuf (log ++ [⟨addr, chunk, result⟩]) := by
  intro i exchange found
  rcases Nat.lt_or_ge i log.length with before | after
  · rw [getElem?_append_left before] at found
    exact asked i exchange found
  · rw [getElem?_append_right after, getElem?_singleton] at found
    split at found <;> cases found
    exact ⟨nonempty, short, replied.symm.trans (by rw [show i = log.length by omega])⟩

private lemma transfer_asked (asked : Asked io server kMaxBuf log) :
    Asked io server kMaxBuf (transfer io server offset positive log cells total).2 := by
  fun_induction transfer io server offset positive log cells total with
  | case1 => exact asked
  | case2 log cells total nonempty chunk status replied =>
    exact asked.snoc (chunk_ne_nil positive nonempty) (length_take_le ..) replied
  | case3 log cells total nonempty chunk actual replied =>
    exact asked.snoc (chunk_ne_nil positive nonempty) (length_take_le ..) replied
  | case4 log cells total nonempty chunk actual replied longer whole ih =>
    exact ih (asked.snoc (chunk_ne_nil positive nonempty) (length_take_le ..) replied)

private lemma doVector_asked (asked : Asked io server kMaxBuf log) :
    Asked io server kMaxBuf (doVector io server offset positive log buffers total).2 := by
  induction buffers generalizing log total with
  | nil => exact asked
  | cons buffer rest ih =>
    have first : Asked io server kMaxBuf (transfer io server offset positive log buffer 0).2 :=
      transfer_asked asked
    rw [doVector]
    generalize transfer io server offset positive log buffer 0 = run at first
    obtain ⟨_ | actual, log⟩ := run
    · exact first
    · dsimp only
      split
      · exact first
      · exact ih first

/-- Vectored I/O is one transfer of all buffers, and each of its requests is answered by the server. -/
theorem vector_transfers (io notSupported : Status) (server : Nat → Except Status Nat)
    (offset : UInt64) (positive : 0 < kMaxBuf) (buffers : List (List Cell)) :
    let run := vector io notSupported server offset positive 0 buffers
    Transfers offset [] buffers.flatten 0 run ∧ Asked io server kMaxBuf run.2 :=
  ⟨doVector_transfers .nil, doVector_asked nofun⟩

/-- Three cells in two buffers, in chunks of two cells; the server moves all that it is asked to. -/
theorem vector_transfers_three :
    let run := vector "io" "not supported" (fun sent => .ok (2 - sent)) 8 Nat.two_pos 0
      [['a', 'b'], ['c']]
    run.1.toOption = some 3 ∧ Asked "io" (fun sent => .ok (2 - sent)) 2 run.2 :=
  ⟨by decide +kernel, (vector_transfers "io" "not supported" _ 8 Nat.two_pos [['a', 'b'], ['c']]).2⟩

end FuchsiaSdk.RemoteVector
