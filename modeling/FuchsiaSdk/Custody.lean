import Mathlib.Data.List.Nodup
import Mathlib.Logic.Function.Basic

/-! Custody of distinct items. Every item is received once; while it is held it is at one
address, and it leaves by being closed or by being handed on. An address that is overwritten
while it holds items loses them, and so does one that never takes what was received. -/
namespace FuchsiaSdk.Custody
open Function
open List

variable {Address Item : Type*}

structure Ledger (Address Item : Type*) where
  holds : Address → List Item := fun _ => []
  received : List Item := []
  closed : List Item := []
  handed : List Item := []

inductive Action (Address Item : Type*) where
  | idle
  | receive (addr : Address) (items : List Item)
  /-- Items are received and nobody takes them. -/
  | miss (items : List Item)
  | transfer (target source : Address)
  | close (addr : Address)
  | hand (addr : Address)

variable {ledger : Ledger Address Item} {action : Action Address Item}

def Ledger.act [DecidableEq Address] (ledger : Ledger Address Item) : Action Address Item → Ledger Address Item
  | .idle => ledger
  | .receive addr items => { ledger with
      holds := Function.update ledger.holds addr items, received := ledger.received ++ items }
  | .miss items => { ledger with received := ledger.received ++ items }
  | .transfer target source =>
    if target = source then ledger
    else { ledger with
      holds := Function.update (Function.update ledger.holds target (ledger.holds source)) source [] }
  | .close addr => { ledger with
      holds := Function.update ledger.holds addr [], closed := ledger.closed ++ ledger.holds addr }
  | .hand addr => { ledger with
      holds := Function.update ledger.holds addr [], handed := ledger.handed ++ ledger.holds addr }

/-- What is received is new. -/
def Valid (ledger : Ledger Address Item) : Action Address Item → Prop
  | .receive _ items | .miss items => items.Nodup ∧ ∀ item ∈ items, item ∉ ledger.received
  | _ => True

/-- Nothing is lost. -/
def Harmless (ledger : Ledger Address Item) : Action Address Item → Prop
  | .receive addr _ => ledger.holds addr = []
  | .miss items => items = []
  | .transfer target source => target ≠ source → ledger.holds target = []
  | _ => True

/-- No item is in two places. -/
structure Sound (ledger : Ledger Address Item) : Prop where
  distinct : ∀ addr, (ledger.holds addr).Nodup
  apart : ∀ addr other item, item ∈ ledger.holds addr → item ∈ ledger.holds other → addr = other
  once : (ledger.closed ++ ledger.handed).Nodup
  unspent : ∀ addr, ∀ item ∈ ledger.holds addr, item ∉ ledger.closed ++ ledger.handed
  known : ∀ addr, ∀ item ∈ ledger.holds addr, item ∈ ledger.received
  spent : ∀ item ∈ ledger.closed ++ ledger.handed, item ∈ ledger.received

/-- Every item that was received is somewhere. -/
def Accounted (ledger : Ledger Address Item) : Prop :=
  ∀ item ∈ ledger.received, (∃ addr, item ∈ ledger.holds addr) ∨ item ∈ ledger.closed ++ ledger.handed

lemma sound_start : Sound ({} : Ledger Address Item) where
  distinct _ := nodup_nil
  apart _ _ _ mem := by cases mem
  once := nodup_nil
  unspent _ _ mem := by cases mem
  known _ _ mem := by cases mem
  spent _ mem := by cases mem

lemma Sound.act [DecidableEq Address] (sound : Sound ledger) (valid : Valid ledger action) :
    Sound (ledger.act action) := by
  obtain ⟨distinct, apart, once, unspent, known, spent⟩ := sound
  cases action with
  | idle => exact ⟨distinct, apart, once, unspent, known, spent⟩
  | receive _ items =>
    obtain ⟨_, _⟩ := valid
    refine ⟨?_, ?_, once, ?_, ?_, ?_⟩ <;> simp only [Ledger.act, update_apply] <;> grind
  | miss items =>
    refine ⟨distinct, apart, once, unspent, ?_, ?_⟩ <;> simp only [Ledger.act] <;> grind
  | transfer target source =>
    by_cases same : target = source
    · simp only [Ledger.act, if_pos same]
      exact ⟨distinct, apart, once, unspent, known, spent⟩
    · simp only [Ledger.act, if_neg same]
      refine ⟨?_, ?_, once, ?_, ?_, spent⟩ <;> simp only [update_apply] <;> grind
  | close | hand =>
    refine ⟨?_, ?_, ?_, ?_, ?_, ?_⟩ <;> simp only [Ledger.act, update_apply] <;> grind

/-- What an address held was nothing if everything is accounted for after it has been
overwritten. -/
lemma holds_nil_of_accounted (sound : Sound ledger)
    (accounted : Accounted later) (kept : ∀ item ∈ ledger.received, item ∈ later.received)
    (gone : ∀ other, ∀ item ∈ later.holds other, item ∉ ledger.holds addr)
    (closed : later.closed = ledger.closed) (handed : later.handed = ledger.handed) :
    ledger.holds addr = [] := by
  refine eq_nil_iff_forall_not_mem.mpr fun item mem => ?_
  rcases accounted item (kept item (sound.known addr item mem)) with ⟨other, held⟩ | spent
  · exact gone other item held mem
  · rw [closed, handed] at spent
    exact sound.unspent addr item mem spent

lemma accounted_act_iff [DecidableEq Address] (sound : Sound ledger) (valid : Valid ledger action) :
    Accounted (ledger.act action) ↔ Accounted ledger ∧ Harmless ledger action := by
  cases action with
  | idle => exact (and_iff_left trivial).symm
  | receive addr items =>
    obtain ⟨-, new⟩ := valid
    have known := sound.known
    have apart := sound.apart
    constructor
    · intro accounted
      refine ⟨fun item mem => ?_, ?_⟩
      · rcases accounted item (mem_append_left _ mem) with ⟨other, held⟩ | spent
        · simp only [Ledger.act, update_apply] at held
          grind
        · exact .inr spent
      · refine holds_nil_of_accounted sound accounted (fun item mem => mem_append_left _ mem)
          (fun other item held => ?_) rfl rfl
        simp only [Ledger.act, update_apply] at held
        grind
    · rintro ⟨accounted, empty⟩ item mem
      simp only [Harmless] at empty
      rcases mem_append.mp mem with old | fresh
      · rcases accounted item old with ⟨other, held⟩ | spent
        · simp only [Ledger.act, update_apply]
          grind
        · exact .inr spent
      · exact .inl ⟨addr, by simpa [Ledger.act] using fresh⟩
  | miss items =>
    obtain ⟨-, new⟩ := valid
    constructor
    · intro accounted
      refine ⟨fun item mem => accounted item (mem_append_left _ mem), ?_⟩
      refine eq_nil_iff_forall_not_mem.mpr fun item mem => new item mem ?_
      rcases accounted item (mem_append_right _ mem) with ⟨other, held⟩ | spent
      · exact sound.known other item held
      · exact sound.spent item spent
    · rintro ⟨accounted, empty⟩ item mem
      cases empty
      exact accounted item (by simpa [Ledger.act] using mem)
  | transfer target source =>
    by_cases same : target = source
    · simp only [Ledger.act, if_pos same]
      exact (and_iff_left fun apart => absurd same apart).symm
    have apart := sound.apart
    simp only [Ledger.act, if_neg same]
    constructor
    · intro accounted
      refine ⟨fun item mem => ?_, fun _ => ?_⟩
      · rcases accounted item mem with ⟨other, held⟩ | spent
        · grind
        · exact .inr spent
      · refine holds_nil_of_accounted sound accounted (fun item mem => mem)
          (fun other item held => ?_) rfl rfl
        grind
    · rintro ⟨accounted, empty⟩ item mem
      rcases accounted item mem with ⟨other, held⟩ | spent
      · have empty := empty same
        refine .inl ⟨if other = source then target else other, ?_⟩
        grind
      · exact .inr spent
  | close | hand =>
    refine Iff.trans (forall_congr' fun item => imp_congr_right fun _ => ?_) (and_iff_left trivial).symm
    simp only [Ledger.act, update_apply]
    grind

end FuchsiaSdk.Custody
