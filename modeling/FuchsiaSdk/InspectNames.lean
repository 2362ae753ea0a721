import FuchsiaSdk.Memory
import Mathlib.Algebra.Ring.Nat

/-! Child names page by page: the servers of `TreeNameIterator` (`inspect/component/cpp/service.cc` and
`inspect/service/cpp/service.cc`, with the same loop) and the client that asks for page after page
(`inspect/service/cpp/reader.cc`). A name that is too long for a message hides those behind it. -/

open List

namespace FuchsiaSdk.InspectNames

abbrev Names : Type := List (List UInt8)

/-- A `fidl_string_t` and the text it points to. -/
def nameBytes (name : List UInt8) : Nat := 16 + align name.length

/-- The loop of `GetNext`. -/
def fill (bytesUsed : Nat) : Names → Names
  | [] => []
  | name :: names =>
    let bytesUsed := bytesUsed + nameBytes name
    if bytesUsed > 65536 then [] else name :: fill bytesUsed names

structure Server where
  names : Names
  currentIndex : Nat := 0

/-- `GetNext`; a message begins with its header and that of the vector. -/
def Server.getNext (server : Server) : Names × Server :=
  let reply := fill 32 (server.names.drop server.currentIndex)
  (reply, { server with currentIndex := server.currentIndex + reply.length })

/-- `ReadAllChildNames`, on a connection that answers a number of calls and then fails. -/
def readAllChildNames : (answered : Nat) → Server → Names
  | 0, _ => []
  | answered + 1, server =>
    match server.getNext with
    | ([], _) => []
    | (reply, server) => reply ++ readAllChildNames answered server

/-- The names before the first that is too long. -/
def visible (names : Names) : Names :=
  names.takeWhile (32 + nameBytes · ≤ 65536)

private lemma fill_bytes (names : Names) (room : used ≤ 65536) :
    used + ((fill used names).map nameBytes).sum ≤ 65536 := by
  induction names generalizing used with
  | nil => exact room
  | cons name names ih =>
    rw [fill]
    split
    · exact room
    next fits =>
      rw [map_cons, sum_cons, ← Nat.add_assoc]
      exact ih (Nat.not_lt.mp fits)

/-- What goes into a reply is visible, and so is what is visible behind it. -/
private lemma visible_eq_fill (names : Names) (above : 32 ≤ used) :
    visible names = fill used names ++ visible (names.drop (fill used names).length) := by
  induction names generalizing used with
  | nil => rfl
  | cons name names ih =>
    rw [fill]
    split
    · rfl
    next fits =>
      have alone : 32 + nameBytes name ≤ 65536 := by omega
      have taken : visible (name :: names) = name :: visible names :=
        takeWhile_cons_of_pos (decide_eq_true alone)
      rw [taken, cons_append, length_cons, drop_succ_cons, ← ih (Nat.le_add_right_of_le above)]

/-- A reply is empty only if nothing that is left is visible. -/
private lemma visible_of_fill_nil (empty : fill 32 names = []) : visible names = [] := by
  cases names with
  | nil => rfl
  | cons name names =>
    rw [fill] at empty
    split at empty
    next long => exact takeWhile_cons_of_neg (by simpa using long)
    · cases empty

lemma readAllChildNames_from (names : Names) (answered i : Nat) :
    readAllChildNames answered ⟨names, i⟩ <+: visible (names.drop i) ∧
      (names.length - i < answered →
        readAllChildNames answered ⟨names, i⟩ = visible (names.drop i)) := by
  induction answered generalizing i with
  | zero =>
    refine ⟨?_, nofun⟩
    exact nil_prefix
  | succ answered ih =>
    have paged := visible_eq_fill (names.drop i) (Nat.le_refl 32)
    rw [drop_drop] at paged
    obtain ⟨front, whole⟩ := ih (i + (fill 32 (names.drop i)).length)
    simp only [readAllChildNames, Server.getNext]
    split
    next empty =>
      rw [visible_of_fill_nil (congrArg Prod.fst empty)]
      exact ⟨prefix_rfl, fun _ => rfl⟩
    next some same =>
      cases same
      have left : i < names.length := by
        by_contra beyond
        exact some (by rw [drop_of_length_le (Nat.le_of_not_lt beyond), fill])
      have shorter := length_pos_iff.mpr some
      rw [paged]
      exact ⟨(prefix_append_right_inj _).mpr front, fun enough => congrArg _ (whole (by omega))⟩

/-- Every reply fits into a message. A client whose calls are all answered has the visible names in
order, and one whose connection has failed has the first of them. -/
theorem readAllChildNames_visible (names : Names) (answered : Nat) :
    (∀ i, 32 + ((Server.getNext ⟨names, i⟩).1.map nameBytes).sum ≤ 65536) ∧
      readAllChildNames answered ⟨names, 0⟩ <+: visible names ∧
      readAllChildNames (names.length + 1 + answered) ⟨names, 0⟩ = visible names :=
  ⟨fun _ => fill_bytes _ (by decide), (readAllChildNames_from names answered 0).1,
    (readAllChildNames_from names _ 0).2 (by omega)⟩

end FuchsiaSdk.InspectNames
