import Mathlib.Data.List.Basic
import Mathlib.Tactic.Common

/-! `CleanPath` (`fdio/cleanpath.cc`): lexical normalisation of a path, and the
paths it can produce. A C string is the list of its bytes; its terminator is
the end of the list. -/
namespace FuchsiaSdk.CleanPath
open Option
open List

abbrev Bytes : Type := List UInt8

def slash : UInt8 := 0x2F
def dot : UInt8 := 0x2E

/-- `PATH_MAX`, which counts the terminator. -/
def pathMax : Nat := 4096

/-- `PathBuffer::Append`, which drops what does not fit. -/
def append (out : Bytes) (byte : UInt8) : Bytes :=
  if out.length < pathMax - 1 then out ++ [byte] else out

/-- `is_separator` of the next byte. -/
def isSeparator : Bytes → Bool
  | [] => true
  | byte :: _ => byte == slash

def canIncrement (index : Nat) : Bool := index < pathMax - 1

/-- The locals of the main loop; `rest` is the input from `in_index` on. -/
structure Cursor where
  rest : Bytes
  index : Nat
  out : Bytes
  isDir : Bool
  dotdot : Nat
  deriving DecidableEq, Repr

/-- The inner loop that copies a normal component. -/
def copyComponent : (rest : Bytes) → (index : Nat) → (out : Bytes) → Option (Bytes × Nat × Bytes)
  | [], index, out => some ([], index, out)
  | byte :: rest, index, out =>
    if byte = slash then some (byte :: rest, index, out)
    else if canIncrement index then copyComponent rest (index + 1) (append out byte)
    else none

/-- The inner loop that looks for the element before `..`. -/
def lastElem (out : Bytes) (dotdot : Nat) : Nat → Nat
  | 0 => 0
  | last + 1 =>
    if last + 1 > dotdot ∧ out[last + 1]? ≠ some slash then lastElem out dotdot last else last + 1

/-- What `..` does to the output: cases 3 to 5 of the source. -/
def upOne (rooted : Bool) (cursor : Cursor) : Cursor :=
  if cursor.out.length > cursor.dotdot then
    { cursor with
      out := cursor.out.take (lastElem cursor.out cursor.dotdot (cursor.out.length - 1)) }
  else if rooted then cursor
  else
    let out := if cursor.out.length > 0 then append cursor.out slash else cursor.out
    let out := append (append out dot) dot
    { cursor with out := out, dotdot := out.length }

/-- One round of the main loop. -/
def round (rooted : Bool) (cursor : Cursor) : Option Cursor :=
  let cursor := { cursor with isDir := true }
  match cursor.rest with
  | [] => some cursor
  | byte :: rest =>
    if byte = slash then
      if canIncrement cursor.index then some { cursor with rest := rest, index := cursor.index + 1 }
      else none
    else if byte = dot ∧ isSeparator rest then
      if canIncrement cursor.index then some { cursor with rest := rest, index := cursor.index + 1 }
      else none
    else if byte = dot ∧ rest.head? = some dot ∧ isSeparator rest.tail then
      if canIncrement (cursor.index + 1) then
        some (upOne rooted { cursor with rest := rest.tail, index := cursor.index + 2 })
      else none
    else
      let first := if rooted then 1 else 0
      let out := if cursor.out.length ≠ first then append cursor.out slash else cursor.out
      (copyComponent cursor.rest cursor.index out).map fun (rest, index, out) =>
        { cursor with rest := rest, index := index, out := out, isDir := false }

/-- The main loop. Every round reads at least one byte, so the length of the
input is fuel enough. -/
def rounds (rooted : Bool) : Nat → Cursor → Option Cursor
  | 0, cursor => some cursor
  | fuel + 1, cursor =>
    if cursor.rest = [] then some cursor else (round rooted cursor).bind (rounds rooted fuel)

def cleanPath : Bytes → Option (Bytes × Bool)
  | [] => some ([dot], true)
  | byte :: rest =>
    let rooted := byte == slash
    let cursor : Cursor :=
      if rooted then ⟨rest, 1, append [] slash, true, 1⟩ else ⟨byte :: rest, 0, [], false, 0⟩
    (rounds rooted (rest.length + 1) cursor).map fun cursor =>
      if cursor.out = [] then ([dot], true) else (cursor.out, cursor.isDir)

/-! ## Clean absolute paths -/

/-- A component that normalisation keeps. -/
def Proper (component : Bytes) : Prop :=
  component ≠ [] ∧ slash ∉ component ∧ component ≠ [dot] ∧ component ≠ [dot, dot]

/-- The absolute path with these components. -/
def render (components : List Bytes) : Bytes := slash :: [slash].intercalate components

/-- A path that `CleanPath` outputs for some input, and that begins with `/`. -/
def IsCleanAbsolute (path : Bytes) : Prop :=
  path.head? = some slash ∧ ∃ input isDir, cleanPath input = some (path, isDir)

lemma append_of_lt (fits : out.length < pathMax - 1) (byte : UInt8) :
    append out byte = out ++ [byte] := if_pos fits

/-- The copied component ends at a separator, and nothing of it is dropped. -/
private lemma copyComponent_spec (room : out.length ≤ index) (bound : index ≤ pathMax - 1)
    (copied : copyComponent rest index out = some (rest', index', out')) :
    ∃ component, rest = component ++ rest' ∧ slash ∉ component ∧ isSeparator rest' = true ∧
      index' = index + component.length ∧ index' ≤ pathMax - 1 ∧ out' = out ++ component := by
  induction rest generalizing index out with
  | nil =>
    cases copied
    exact ⟨[], rfl, not_mem_nil, rfl, rfl, bound, by simp⟩
  | cons byte rest ih =>
    simp only [copyComponent] at copied
    split at copied
    next separator =>
      cases copied
      exact ⟨[], rfl, not_mem_nil, by simp [isSeparator, separator], rfl, bound,
        by simp⟩
    next ordinary =>
      split at copied
      next fits =>
        have inside : index < pathMax - 1 := by simpa [canIncrement] using fits
        rw [append_of_lt (by omega)] at copied
        obtain ⟨component, split, free, ended, _, within, grown⟩ :=
          ih (by simpa using Nat.succ_le_succ room) inside copied
        refine ⟨byte :: component, by rw [split]; rfl, ?_, ended, ?_, within, by simp [grown]⟩
        · simp only [mem_cons, not_or]
          exact ⟨fun same => ordinary same.symm, free⟩
        · rw [length_cons]
          omega
      · cases copied

/-- The search for the last element stops at the slash before it, or at
`dotdot`. -/
lemma lastElem_eq (stop : start ≤ dotdot ∨ out[start]? = some slash) (floor : dotdot ≤ start) :
    ∀ last, start ≤ last → (∀ pos, start < pos → pos ≤ last →
      out[pos]? ≠ some slash) → lastElem out dotdot last = start := by
  intro last
  induction last with
  | zero =>
    rw [lastElem]
    omega
  | succ last ih =>
    intro _ free
    simp only [lastElem]
    by_cases reached : start = last + 1
    · subst reached
      rw [if_neg]
      rintro ⟨above, other⟩
      rcases stop with low | found
      · omega
      · exact other found
    · have above : last + 1 > dotdot ∧ out[last + 1]? ≠ some slash :=
        ⟨by omega, free (last + 1) (by omega) (Nat.le_refl _)⟩
      rw [if_pos above]
      exact ih (by omega) fun pos after within => free pos after (by omega)

lemma render_append (nonempty : components ≠ []) (others : more ≠ []) :
    render (components ++ more) = render components ++ render more := by
  induction components with
  | nil => exact absurd rfl nonempty
  | cons _ rest ih =>
    cases rest with
    | nil => simp [render, intercalate_cons_of_ne_nil others]
    | cons _ rest =>
      have tail := ih (by simp)
      simp only [render, cons_append, cons.injEq, true_and] at tail ⊢
      rw [intercalate_cons_cons, tail]
      simp

lemma render_concat (components : List Bytes) (component : Bytes) (nonempty : components ≠ []) :
    render (components ++ [component]) = render components ++ slash :: component := by
  rw [render_append nonempty (cons_ne_nil _ _)]
  simp [render]

/-- The main loop on an absolute path. A component may only start where the
output is shorter than what was read, so there is room for its slash. -/
structure Inv (cursor : Cursor) : Prop where
  shape : ∃ components, cursor.out = render components ∧ ∀ component ∈ components, Proper component
  dotdot : cursor.dotdot = 1
  bound : cursor.index ≤ pathMax - 1
  short : cursor.out.length ≤ cursor.index
  fresh : isSeparator cursor.rest = false → cursor.out.length = 1 ∨ cursor.out.length < cursor.index

private lemma take_lastElem (components : List Bytes) (proper : Proper component) :
    (render (components ++ [component])).take (lastElem (render (components ++ [component])) 1
        ((render (components ++ [component])).length - 1)) = render components := by
  obtain ⟨nonempty, free, -, -⟩ := proper
  have long : 0 < component.length := length_pos_iff.mpr nonempty
  cases components with
  | nil =>
    have out : render ([] ++ [component]) = slash :: component := by simp [render]
    rw [out, lastElem_eq (Or.inl (Nat.le_refl 1)) (Nat.le_refl 1)]
    · simp [render]
    · simp only [length_cons]
      omega
    · intro pos after _ found
      obtain ⟨before, rfl⟩ : ∃ before, pos = before + 1 := ⟨pos - 1, by omega⟩
      exact free (mem_of_getElem? found)
  | cons first rest =>
    have out := render_concat (first :: rest) component (by simp)
    have size : 1 ≤ (render (first :: rest)).length := by simp [render]
    rw [out, lastElem_eq (Or.inr (by simp)) size]
    · simp
    · simp
    · intro pos after _ found
      obtain ⟨off, rfl⟩ : ∃ off, pos = (render (first :: rest)).length + 1 + off :=
        ⟨pos - (render (first :: rest)).length - 1, by omega⟩
      rw [getElem?_append_right (by omega)] at found
      have index : (render (first :: rest)).length + 1 + off - (render (first :: rest)).length =
          off + 1 := by omega
      rw [index] at found
      exact free (mem_of_getElem? found)

lemma render_length (proper : ∀ component ∈ components, Proper component) (nonempty : components ≠ []) :
    1 < (render components).length := by
  cases components with
  | nil => exact absurd rfl nonempty
  | cons first rest =>
    have long : 0 < first.length := length_pos_iff.mpr (proper first (by simp)).1
    cases rest with
    | nil => simpa [render] using long
    | cons _ rest =>
      simp only [render, intercalate_cons_cons, length_cons, length_append]
      omega

private lemma upOne_keeps (inv : Inv cursor) : Inv (upOne true cursor) := by
  obtain ⟨components, out, proper⟩ := inv.shape
  have short := inv.short
  simp only [upOne, inv.dotdot, if_true]
  split
  next longer =>
    rcases eq_nil_or_concat components with rfl | ⟨front, last, rfl⟩
    · simp [out, render] at longer
    rw [concat_eq_append] at out proper
    have cut := take_lastElem front (proper last (by simp))
    rw [← out] at cut
    have fewer : (render front).length ≤ cursor.out.length := by
      rw [← cut]
      exact length_take_le' _ _
    refine ⟨⟨front, cut, ?_⟩, rfl, inv.bound, ?_, ?_⟩
    · intro component mem
      exact proper component (by simp [mem])
    · rw [cut]
      exact Nat.le_trans fewer short
    · intro next
      dsimp only at ⊢
      rw [cut]
      have fresh := inv.fresh next
      omega
  · exact inv

private lemma round_keeps (inv : Inv cursor) (nonempty : cursor.rest ≠ [])
    (done : round true cursor = some later) : Inv later := by
  obtain ⟨components, out, proper⟩ := inv.shape
  have short := inv.short
  -- A slash or a dot is skipped; what follows may be a component.
  have skip {rest : Bytes} (done : (if canIncrement cursor.index then
      some { cursor with rest, index := cursor.index + 1, isDir := true } else none) = some later) :
      Inv later := by
    obtain ⟨fits, moved⟩ := ite_none_right_eq_some.mp done
    cases moved
    have bound : cursor.index < pathMax - 1 := by simpa [canIncrement] using fits
    exact ⟨⟨components, out, proper⟩, inv.dotdot, bound, Nat.le_succ_of_le short,
      fun _ => Or.inr (Nat.lt_succ_of_le short)⟩
  unfold round at done
  dsimp only at done
  split at done
  · exact absurd ‹_› nonempty
  rename_i byte rest input
  split at done
  · exact skip done
  split at done
  · exact skip done
  split at done
  · obtain ⟨fits, moved⟩ := ite_none_right_eq_some.mp done
    cases moved
    have bound : cursor.index + 1 < pathMax - 1 := by simpa [canIncrement] using fits
    refine upOne_keeps ⟨⟨components, out, proper⟩, inv.dotdot, bound, ?_, fun _ => Or.inr ?_⟩
    · exact Nat.le_add_right_of_le short
    · dsimp only
      omega
  next notSlash notDot notDotDot =>
    obtain ⟨⟨_, _, _⟩, copied, rfl⟩ := map_eq_some_iff.mp done
    have fresh := inv.fresh (by simp [input, isSeparator, notSlash])
    rw [input] at copied
    -- The output with its slash is what the component is put behind.
    have front : ∃ front, (if cursor.out.length ≠ 1 then append cursor.out slash else cursor.out) =
        front ∧ front.length ≤ cursor.index ∧
        ∀ component, front ++ component = render (components ++ [component]) := by
      refine ⟨_, rfl, ?_⟩
      by_cases first : components = []
      · subst first
        have root : cursor.out = [slash] := by simp [out, render]
        rw [root] at short ⊢
        exact ⟨by simpa using short, by simp [render]⟩
      · have longer : cursor.out.length ≠ 1 := by
          have long := render_length proper first
          rw [← out] at long
          omega
        rw [if_pos longer, append_of_lt (by have := inv.bound; omega)]
        refine ⟨by simp; omega, ?_⟩
        intro component
        rw [render_concat components component first, ← out]
        simp
    obtain ⟨front, equation, room, placed⟩ := front
    rw [if_pos rfl, equation] at copied
    obtain ⟨component, split, free, ended, moved, within, grown⟩ :=
      copyComponent_spec room inv.bound copied
    have new : Proper component := by
      refine ⟨?_, free, ?_, ?_⟩
      · rintro rfl
        rw [nil_append] at split
        rw [← split] at ended
        exact notSlash (by simpa [isSeparator] using ended)
      · rintro rfl
        obtain ⟨rfl, rfl⟩ := split
        exact notDot ⟨rfl, ended⟩
      · rintro rfl
        obtain ⟨rfl, rfl⟩ := split
        exact notDotDot ⟨rfl, rfl, ended⟩
    refine ⟨⟨components ++ [component], grown.trans (placed component), ?_⟩, inv.dotdot, within, ?_,
      fun later => ?_⟩
    · intro other mem
      rcases mem_append.mp mem with mem | mem
      · exact proper other mem
      · rw [mem_singleton.mp mem]
        exact new
    · dsimp only
      rw [grown, length_append]
      omega
    · rw [ended] at later
      cases later

private lemma rounds_keeps (inv : Inv cursor) (done : rounds true fuel cursor = some final) : Inv final := by
  induction fuel generalizing cursor with
  | zero =>
    cases done
    exact inv
  | succ fuel ih =>
    simp only [rounds] at done
    split at done
    · cases done
      exact inv
    next more =>
      obtain ⟨next, moved, done⟩ := bind_eq_some_iff.mp done
      exact ih (round_keeps inv more moved) done

/-! A path that does not begin with `/` does not get one at the front. -/

lemma append_head (other : out.head? ≠ some slash) (byte : UInt8)
    (plain : out = [] → byte ≠ slash) : (append out byte).head? ≠ some slash := by
  unfold append
  split
  · cases out with
    | nil => simpa using plain rfl
    | cons => simpa using other
  · exact other

private lemma copyComponent_head (other : out.head? ≠ some slash)
    (copied : copyComponent rest index out = some (rest', index', out')) : out'.head? ≠ some slash := by
  induction rest generalizing index out with
  | nil =>
    cases copied
    exact other
  | cons byte rest ih =>
    simp only [copyComponent] at copied
    split at copied
    · cases copied
      exact other
    rename_i plain
    split at copied
    · exact ih (append_head other byte fun _ => plain) copied
    · cases copied

private lemma take_head {out : Bytes} (other : out.head? ≠ some slash) (count : Nat) :
    (out.take count).head? ≠ some slash := by
  cases count with
  | zero => simp
  | succ count =>
    cases out with
    | nil => simp
    | cons => simpa using other

private lemma round_head (other : cursor.out.head? ≠ some slash)
    (done : round false cursor = some later) : later.out.head? ≠ some slash := by
  unfold round at done
  dsimp only at done
  split at done
  · cases done
    exact other
  split at done
  · obtain ⟨-, moved⟩ := ite_none_right_eq_some.mp done
    cases moved
    exact other
  split at done
  · obtain ⟨-, moved⟩ := ite_none_right_eq_some.mp done
    cases moved
    exact other
  split at done
  · obtain ⟨-, moved⟩ := ite_none_right_eq_some.mp done
    cases moved
    unfold upOne
    split
    · exact take_head other _
    have dots : ∀ out : Bytes, out.head? ≠ some slash →
        (append (append out dot) dot).head? ≠ some slash := fun out other =>
      append_head (append_head other dot fun _ => by decide) dot fun _ => by decide
    apply dots
    split
    next filled => exact append_head other slash fun empty => by simp [empty] at filled
    · exact other
  · obtain ⟨⟨_, _, _⟩, copied, rfl⟩ := map_eq_some_iff.mp done
    refine copyComponent_head ?_ copied
    simp only [Bool.false_eq_true, if_false]
    split
    next filled => exact append_head other slash fun empty => by simp [empty] at filled
    · exact other

private lemma rounds_head (other : cursor.out.head? ≠ some slash)
    (done : rounds false fuel cursor = some final) : final.out.head? ≠ some slash := by
  induction fuel generalizing cursor with
  | zero =>
    cases done
    exact other
  | succ fuel ih =>
    simp only [rounds] at done
    split at done
    · cases done
      exact other
    · obtain ⟨_, moved, done⟩ := bind_eq_some_iff.mp done
      exact ih (round_head other moved) done

/-- The main loop on a path that begins with `/` ends with the clean path in the buffer. -/
lemma cleanPath_cursor (cleaned : cleanPath (slash :: rest) = some (path, isDir)) :
    ∃ final : Cursor, Inv final ∧ final.out = path := by
  obtain ⟨final, done, answer⟩ := map_eq_some_iff.mp cleaned
  have start : Inv ⟨rest, 1, append [] slash, true, 1⟩ :=
    ⟨⟨[], rfl, by simp⟩, rfl, by simp [pathMax], by simp [append, pathMax], fun _ => Or.inl rfl⟩
  have inv := rounds_keeps start done
  obtain ⟨_, out, -⟩ := inv.shape
  have filled : final.out ≠ [] := by simp [out, render]
  rw [if_neg filled] at answer
  exact ⟨final, inv, (Prod.mk.inj answer).1⟩

/-- Such a path is what `CleanPath` outputs something absolute for. -/
lemma cleanAbsolute_cursor (clean : IsCleanAbsolute path) :
    ∃ final : Cursor, Inv final ∧ final.out = path := by
  obtain ⟨absolute, input, _, cleaned⟩ := clean
  cases input with
  | nil =>
    cases cleaned
    simp [dot, slash] at absolute
  | cons byte =>
    by_cases rooted : byte = slash
    · subst rooted
      exact cleanPath_cursor cleaned
    obtain ⟨final, done, answer⟩ := map_eq_some_iff.mp cleaned
    have relative : (byte == slash) = false := by simpa using rooted
    simp only [relative, Bool.false_eq_true, if_false] at done
    have other := rounds_head (by simp) done
    split at answer
    · obtain ⟨rfl, -⟩ := Prod.mk.inj answer
      simp [dot, slash] at absolute
    · obtain ⟨rfl, -⟩ := Prod.mk.inj answer
      exact absurd absolute other

/-- A clean absolute path is `/` followed by its components with a slash
between them, and none of the components is empty, `.` or `..`. -/
lemma cleanAbsolute_render (clean : IsCleanAbsolute path) :
    ∃ components, path = render components ∧ ∀ component ∈ components, Proper component := by
  obtain ⟨_, inv, rfl⟩ := cleanAbsolute_cursor clean
  exact inv.shape

lemma cleanAbsolute_length (clean : IsCleanAbsolute path) : path.length ≤ pathMax - 1 := by
  obtain ⟨_, inv, rfl⟩ := cleanAbsolute_cursor clean
  exact Nat.le_trans inv.short inv.bound

end FuchsiaSdk.CleanPath
