import Mathlib.Data.List.Nodup
import Mathlib.Tactic.Common

/-!
# Counting the holders of a read/write lock

A lock that many readers or one writer can hold is usually kept as one
integer: the number of readers, or -1 when a writer holds it.
-/

namespace Rcgo.Foundation

universe u

inductive LockMode where
  | read
  | write
  deriving DecidableEq, Repr

variable {τ : Type u}

/-- `count` describes the tasks that hold a lock. -/
inductive CountsHolders (holds : τ → LockMode → Prop) : Int → Prop where
  | readers
      (list : List τ)
      (nodup : list.Nodup)
      (mem_iff : ∀ t, t ∈ list ↔ holds t .read)
      (noWriter : ∀ t, ¬ holds t .write) :
      CountsHolders holds list.length
  | writer
      (t : τ)
      (holdsWrite : holds t .write)
      (alone : ∀ u mode, holds u mode → u = t ∧ mode = .write) :
      CountsHolders holds (-1)

namespace CountsHolders

variable {holds other : τ → LockMode → Prop} {count : Int}

theorem congr
    (counts : CountsHolders holds count)
    (same : ∀ t mode, other t mode ↔ holds t mode) :
    CountsHolders other count := by
  have equal : other = holds := by
    funext t mode
    exact propext (same t mode)
  rw [equal]
  exact counts

theorem exclusive
    (counts : CountsHolders holds count) {t u : τ} {mode : LockMode}
    (writes : holds t .write) (holdsToo : holds u mode) :
    u = t := by
  cases counts with
  | readers list nodup mem_iff noWriter => exact absurd writes (noWriter t)
  | writer w holdsWrite alone =>
      rw [(alone u mode holdsToo).1, (alone t .write writes).1]

theorem not_holds_of_zero
    (counts : CountsHolders holds 0) (t : τ) (mode : LockMode) :
    ¬ holds t mode := by
  generalize zero : (0 : Int) = count at counts
  cases counts with
  | readers list nodup mem_iff noWriter =>
      have isEmpty : list = [] := List.length_eq_zero_iff.mp (by omega)
      cases mode with
      | read =>
          intro reads
          have member := (mem_iff t).mpr reads
          rw [isEmpty] at member
          exact List.not_mem_nil member
      | write => exact noWriter t
  | writer w holdsWrite alone => omega

theorem exists_holder (counts : CountsHolders holds count) (busy : count ≠ 0) :
    ∃ t mode, holds t mode := by
  cases counts with
  | readers list nodup mem_iff noWriter =>
      obtain ⟨t, rest, isList⟩ := List.exists_cons_of_ne_nil fun isEmpty : list = [] => by
        rw [isEmpty] at busy
        exact busy rfl
      exact ⟨t, .read, (mem_iff t).mp (isList ▸ List.mem_cons_self)⟩
  | writer w holdsWrite alone => exact ⟨w, .write, holdsWrite⟩

theorem zero (nobody : ∀ t mode, ¬ holds t mode) : CountsHolders holds 0 :=
  CountsHolders.readers [] List.nodup_nil
    (fun t => ⟨fun member => absurd member List.not_mem_nil,
      fun reads => absurd reads (nobody t .read)⟩)
    (fun t => nobody t .write)

theorem grantRead
    (counts : CountsHolders holds count) (shared : 0 ≤ count)
    {t : τ} (new : ∀ mode, ¬ holds t mode) :
    CountsHolders (fun u mode => holds u mode ∨ (u = t ∧ mode = .read)) (count + 1) := by
  cases counts with
  | readers list nodup mem_iff noWriter =>
      have notMember : t ∉ list := fun member => new .read ((mem_iff t).mp member)
      have extended :
          CountsHolders (fun u mode => holds u mode ∨ (u = t ∧ mode = .read))
            (t :: list).length := by
        refine CountsHolders.readers (t :: list) ?_ ?_ ?_
        · exact List.nodup_cons.mpr ⟨notMember, nodup⟩
        · intro u
          rw [List.mem_cons, mem_iff u]
          simp [or_comm]
        · intro u
          simp [noWriter u]
      simpa using extended
  | writer w holdsWrite alone => omega

theorem grantWrite
    (counts : CountsHolders holds 0) (t : τ) :
    CountsHolders (fun u mode => holds u mode ∨ (u = t ∧ mode = .write)) (-1) := by
  refine CountsHolders.writer t (Or.inr ⟨rfl, rfl⟩) ?_
  rintro u mode (holdsOld | new)
  · exact absurd holdsOld (counts.not_holds_of_zero u mode)
  · exact new

theorem pos_of_read
    (counts : CountsHolders holds count) {t : τ} (reads : holds t .read) :
    0 < count := by
  cases counts with
  | readers list nodup mem_iff noWriter =>
      have member := (mem_iff t).mpr reads
      have := List.length_pos_of_mem member
      omega
  | writer w holdsWrite alone => cases (alone t .read reads).2

theorem eq_of_write
    (counts : CountsHolders holds count) {t : τ} (writes : holds t .write) :
    count = -1 := by
  cases counts with
  | readers list nodup mem_iff noWriter => exact absurd writes (noWriter t)
  | writer w holdsWrite alone => rfl

theorem releaseRead [DecidableEq τ]
    (counts : CountsHolders holds count) {t : τ} (reads : holds t .read) :
    CountsHolders (fun u mode => holds u mode ∧ u ≠ t) (count - 1) := by
  cases counts with
  | readers list nodup mem_iff noWriter =>
      have member := (mem_iff t).mpr reads
      have shortened :
          CountsHolders (fun u mode => holds u mode ∧ u ≠ t) (list.erase t).length := by
        refine CountsHolders.readers (list.erase t) (nodup.erase t) ?_ ?_
        · intro u
          rw [nodup.mem_erase_iff, mem_iff u]
          exact and_comm
        · rintro u ⟨writes, _⟩
          exact noWriter u writes
      have length := List.length_erase_of_mem member
      have positive := List.length_pos_of_mem member
      have same : ((list.erase t).length : Int) = list.length - 1 := by omega
      rwa [same] at shortened
  | writer w holdsWrite alone => cases (alone t .read reads).2

theorem releaseWrite
    (counts : CountsHolders holds count) {t : τ} (writes : holds t .write) :
    CountsHolders (fun u mode => holds u mode ∧ u ≠ t) 0 := by
  refine zero ?_
  rintro u mode ⟨holdsOld, different⟩
  exact different (counts.exclusive writes holdsOld)

end CountsHolders

end Rcgo.Foundation
