import FuchsiaSdk.IdCursor
import FuchsiaSdk.VfsPath
import Mathlib.Algebra.Ring.Nat

/-! `LazyDir::Readdir` (`vfs/cpp/lazy_dir.cc`) fills one buffer of `ReadDirents` after the other.
The connection goes on from `out_offset`, which `Readdir` writes only together with a dirent. -/
namespace FuchsiaSdk.LazyDir
open CleanPath IdCursor VfsPath
open List hiding after

def kDotId : Nat := 1

/-- `LazyEntry`: the id, the name and the mode. -/
abbrev LazyEntry : Type := Nat × Bytes × UInt32

/-- What `GetContents` gives, after `std::sort`. -/
structure Contents where
  entries : List LazyEntry
  increasing : Increasing entries
  above : ∀ entry ∈ entries, kDotId < entry.1

/-- `vdirent_t`, always with `INO_UNKNOWN`. -/
structure Dirent where
  type : UInt8
  name : Bytes
  deriving DecidableEq

/-- What is generated from `fuchsia.io`. -/
structure IoConstants where
  direntTypeDirectory : UInt8
  modeTypeMask : UInt32

section Readdir

variable (io : IoConstants)

/-- With `DirentType::DIRECTORY`. -/
def dotDirent : Dirent := ⟨io.direntTypeDirectory, [dot]⟩

/-- With the type from `MODE_TYPE_MASK`. -/
def direntOf (entry : LazyEntry) : Dirent := ⟨((entry.2.2 &&& io.modeTypeMask) >>> 12).toUInt8, entry.2.1⟩

/-- `DirentFiller::Next`. -/
def next (len : Nat) (filled : List Dirent) (dirent : Dirent) : Option (List Dirent) :=
  if 10 + dirent.name.length > len - (filled.map fun dirent => 10 + dirent.name.length).sum ∨
      dirent.name.length > nameMax then none
  else some (filled ++ [dirent])

/-- The loop of `Readdir`: `out_offset` and what is filled. -/
def fill (len : Nat) : List LazyEntry → (outOffset : Nat) → List Dirent →
    Except Status (Nat × List Dirent)
  | [], outOffset, filled => .ok (outOffset, filled)
  | entry :: rest, outOffset, filled =>
    match next len filled (direntOf io entry) with
    | none => if filled = [] then .error .invalidArgs else .ok (outOffset, filled)
    | some filled => fill len rest entry.1 filled

variable (contents : Contents)

/-- `LazyDir::Readdir`. -/
def readdir (off len outOffset : Nat) : Except Status (Nat × List Dirent) :=
  if off < kDotId then
    match next len [] (dotDirent io) with
    | none => .error .invalidArgs
    | some filled => fill io len (ahead contents.entries (off + 1)) kDotId filled
  else fill io len (ahead contents.entries off) outOffset []

/-- `DirectoryConnection::ReadDirents`: the offset after it, and the reply. -/
def readDirents (off maxBytes : Nat) : Nat × Except Status (List Dirent) :=
  match readdir io contents off maxBytes 0 with
  | .error status => (off, .error status)
  | .ok (newOffset, dirents) => (newOffset, .ok dirents)

def replies : (off : Nat) → (requests : List Nat) → List (Except Status (List Dirent))
  | _, [] => []
  | off, maxBytes :: rest =>
    (readDirents io contents off maxBytes).2 :: replies (readDirents io contents off maxBytes).1 rest

/-- The offset of the connection after some requests. -/
def offsetAfter (off : Nat) (requests : List Nat) : Nat :=
  requests.foldl (fun off maxBytes => (readDirents io contents off maxBytes).1) off

/-- What is to be listed from an offset on. -/
def pending (off : Nat) : List Dirent :=
  if off < kDotId then dotDirent io :: contents.entries.map (direntOf io)
  else (ahead contents.entries off).map (direntOf io)

/-- Nothing is repeated, and the end is final. -/
def ReadsOnce (replies : List (Except Status (List Dirent))) : Prop :=
  replies.flatMap (fun reply => reply.toOption.getD []) <+: pending io contents 0 ∧
    ∀ before after, replies = before ++ .ok [] :: after → ∀ reply ∈ after, reply = .ok []

end Readdir

variable {io : IoConstants} {contents : Contents} {requests : List Nat} {off : Nat}

/-- Nothing was added, or the first entries were and the offset is that of the last. -/
lemma fill_cases (here : ahead contents.entries last = rest)
    (done : fill io len rest outOffset filled = .ok (newOffset, dirents)) :
    dirents = filled ∧ newOffset = outOffset ∧ (filled = [] → rest = []) ∨
      last < newOffset ∧ ∃ first more, rest = first :: more ++ ahead contents.entries newOffset ∧
        dirents = filled ++ (first :: more).map (direntOf io) := by
  induction rest generalizing last outOffset filled with
  | nil =>
    cases done
    exact .inl ⟨rfl, rfl, fun _ => rfl⟩
  | cons entry rest ih =>
    have later := ahead_next contents.increasing here
    have beyond := (mem_ahead.mp (here ▸ mem_cons_self)).2
    rw [fill, next] at done
    split at done
    · split at done <;> cases done
      rename_i nonempty
      exact .inl ⟨rfl, rfl, fun empty => absurd empty nonempty⟩
    rename_i more fits
    split at fits <;> cases fits
    rcases ih later done with ⟨rfl, rfl, -⟩ | ⟨further, first, others, rfl, rfl⟩
    · exact .inr ⟨beyond, entry, [], by rw [later]; rfl, rfl⟩
    · exact .inr ⟨Nat.lt_trans beyond further, entry, first :: others, rfl, by rw [append_assoc]; rfl⟩

/-- The reply is empty exactly if nothing is left, and the offset is then set back; any other
reply takes from what is left. -/
lemma readDirents_cases (off : Nat) :
    pending io contents off = [] ∧ readDirents io contents off maxBytes = (0, .ok []) ∨
      pending io contents off ≠ [] ∧
        ((∃ status, readDirents io contents off maxBytes = (off, .error status)) ∨
        ∃ newOffset first more, readDirents io contents off maxBytes = (newOffset, .ok (first :: more)) ∧
          pending io contents off = first :: more ++ pending io contents newOffset) := by
  have behind : ∀ newOffset, kDotId ≤ newOffset →
      pending io contents newOffset = (ahead contents.entries newOffset).map (direntOf io) :=
    fun newOffset dotted => if_neg (Nat.not_lt.mpr dotted)
  have all : ahead contents.entries kDotId = contents.entries :=
    filter_eq_self.mpr fun entry mem => decide_eq_true (contents.above entry mem)
  unfold readDirents readdir
  by_cases start : off < kDotId
  · cases Nat.lt_one_iff.mp start
    rw [if_pos start, next, pending, if_pos start]
    refine .inr ⟨cons_ne_nil _ _, ?_⟩
    split
    · exact .inl ⟨_, rfl⟩
    next newOffset dirents done =>
      split at done <;> rename_i fits
      · cases done
      split at fits <;> cases fits
      rcases fill_cases rfl done with ⟨rfl, rfl, -⟩ | ⟨further, first, more, rest, rfl⟩
      · exact .inr ⟨kDotId, _, [], rfl, by rw [behind _ (Nat.le_refl _), all]; rfl⟩
      · refine .inr ⟨newOffset, _, _, rfl, ?_⟩
        have whole := congrArg (map (direntOf io)) (all.symm.trans rest)
        rw [behind _ (Nat.le_of_lt further), whole, map_append]
        rfl
  · have dotted := Nat.not_lt.mp start
    rw [if_neg start, behind _ dotted]
    split
    next error =>
      refine .inr ⟨fun none => ?_, .inl ⟨_, rfl⟩⟩
      rw [map_eq_nil_iff.mp none] at error
      cases error
    next newOffset dirents done =>
      rcases fill_cases rfl done with ⟨rfl, rfl, none⟩ | ⟨further, first, more, rest, rfl⟩
      · exact .inl ⟨by rw [none rfl]; rfl, rfl⟩
      · rw [rest, map_append]
        refine .inr ⟨cons_ne_nil _ _, .inr ⟨newOffset, _, _, rfl, ?_⟩⟩
        rw [behind _ (Nat.le_of_lt (Nat.lt_of_le_of_lt dotted further))]
        rfl

private lemma replies_append (first rest : List Nat) : replies io contents off (first ++ rest) =
    replies io contents off first ++ replies io contents (offsetAfter io contents off first) rest := by
  induction first generalizing off with
  | nil => rfl
  | cons _ _ ih =>
    rw [cons_append, replies, ih]
    rfl

/-- Nothing is requested after a request for which nothing was left. -/
def Stops (io : IoConstants) (contents : Contents) (off : Nat) (requests : List Nat) : Prop :=
  ∀ before maxBytes after, requests = before ++ maxBytes :: after →
    pending io contents (offsetAfter io contents off before) = [] → after = []

lemma Stops.tail (stops : Stops io contents off (maxBytes :: requests)) :
    Stops io contents (readDirents io contents off maxBytes).1 requests :=
  fun before last after same => stops (maxBytes :: before) last after (congrArg _ same)

private lemma returned_within (stops : Stops io contents off requests) :
    (replies io contents off requests).flatMap (fun reply => reply.toOption.getD []) <+:
      pending io contents off := by
  induction requests generalizing off with
  | nil => exact nil_prefix
  | cons _ rest ih =>
    have later := ih stops.tail
    rw [replies]
    rcases readDirents_cases off with ⟨none, step⟩ | ⟨-, ⟨_, step⟩ | ⟨_, _, _, step, split⟩⟩ <;>
      rw [step] at later ⊢
    · rw [stops [] _ rest rfl none]
      exact nil_prefix
    · exact later
    · rw [split]
      exact (prefix_append_right_inj _).mpr later

/-- An empty reply is the last one. -/
lemma Stops.last (stops : Stops io contents off requests)
    (same : replies io contents off requests = before ++ .ok [] :: after) : after = [] := by
  induction requests generalizing off before with
  | nil => cases before <;> cases same
  | cons _ rest ih =>
    rw [replies] at same
    cases before with
    | cons reply before => exact ih stops.tail (cons.inj same).2
    | nil =>
      obtain ⟨reply, rfl⟩ := cons.inj same
      rcases readDirents_cases off with ⟨none, step⟩ | ⟨-, ⟨_, step⟩ | ⟨_, _, _, step, -⟩⟩
      · rw [stops [] _ rest rfl none]
        rfl
      all_goals rw [step] at reply; cases reply

/-- A listing is read once exactly if nothing is asked after its end: the offset is then 0 again. -/
theorem reads_once_iff (io : IoConstants) (contents : Contents) (requests : List Nat) :
    ReadsOnce io contents (replies io contents 0 requests) ↔
      ∀ before maxBytes after, requests = before ++ maxBytes :: after →
        pending io contents (offsetAfter io contents 0 before) = [] → after = [] := by
  constructor
  · rintro ⟨-, final⟩ before maxBytes after rfl none
    cases after with
    | nil => rfl
    | cons =>
      -- the reply after the empty one is that to a request from the start
      rw [replies_append, replies] at final
      rcases readDirents_cases (offsetAfter io contents 0 before) with ⟨-, step⟩ | ⟨left, -⟩
      · rw [step] at final
        have empty := final _ _ rfl _ mem_cons_self
        rcases readDirents_cases 0 with ⟨none, -⟩ | ⟨-, ⟨_, step⟩ | ⟨_, _, _, step, -⟩⟩
        · cases none
        all_goals rw [step] at empty; cases empty
      · exact absurd none left
  · intro stops
    exact ⟨returned_within stops, fun before after same => by simp [Stops.last stops same]⟩

/-- The third request for an empty directory returns `.` again. -/
theorem dot_returned_again :
    let io : IoConstants := ⟨4, 0xFF000⟩
    let contents : Contents := ⟨[], List.Pairwise.nil, fun _ member => nomatch member⟩
    replies io contents 0 [11, 11, 11] = [.ok [dotDirent io], .ok [], .ok [dotDirent io]] ∧
      ¬ ReadsOnce io contents (replies io contents 0 [11, 11, 11]) :=
  ⟨rfl, fun once => nomatch once.2 [_] [_] rfl _ mem_cons_self⟩

end FuchsiaSdk.LazyDir
