import Chamneul.Spec.Models
import Mathlib.Data.Set.Insert
import Mathlib.Logic.Function.Basic

/-! What the concerns come to: the status each shows, which of them an advisor is
working on, and which carry an approved advice. The status is a summary of the
other two, kept by hand; this is the machine that keeps it. -/

namespace Chamneul

structure Board where
  status : Id → Option ConcernStatus
  active : Set Id
  approved : Set Id

/-- The status of a concern moves along these four edges. -/
inductive ConcernStatus.Moves : ConcernStatus → ConcernStatus → Prop
  | assign : Moves .submitted .assigned
  | unassign : Moves .assigned .submitted
  | answer : Moves .assigned .answered
  | close : Moves .answered .closed

namespace Board

inductive Event
  | stay
  | file (c : Id)
  | assign (c : Id)
  | unassign (c : Id)
  | approve (c : Id)
  | close (cs : Set Id)

def set (b : Board) (c : Id) (s : ConcernStatus) : Id → Option ConcernStatus :=
  Function.update b.status c (some s)

@[simp] theorem set_self (b : Board) (c : Id) (s : ConcernStatus) : b.set c s c = some s := by
  simp [set]

theorem set_of_ne (b : Board) {c i : Id} (s : ConcernStatus) (h : i ≠ c) :
    b.set c s i = b.status i := by
  simp [set, h]

theorem set_same {b : Board} {c : Id} {s : ConcernStatus} (h : b.status c = some s) :
    b.set c s = b.status := by
  rw [set, ← h, Function.update_eq_self]

/-- The steps of the board. Unassigning one of several advisors is `stay`. -/
inductive Step (b : Board) : Event → Board → Prop
  | stay : Step b .stay b
  | file (c : Id) (hnew : b.status c = none) :
      Step b (.file c) { b with status := b.set c .submitted }
  | assign (c : Id) (s : ConcernStatus) (hs : b.status c = some s) :
      Step b (.assign c)
        { b with
          status := b.set c (if s = .submitted then .assigned else s)
          active := insert c b.active }
  | unassign (c : Id) (s : ConcernStatus) (hs : b.status c = some s) :
      Step b (.unassign c)
        { b with
          status := b.set c (if s = .assigned then .submitted else s)
          active := b.active \ {c} }
  | approve (c : Id) (s : ConcernStatus) (hs : b.status c = some s) :
      Step b (.approve c)
        { b with
          status := b.set c (if s = .assigned then .answered else s)
          approved := insert c b.approved }
  | close (cs : Set Id) (hcs : ∀ c ∈ cs, b.status c = some .answered)
      (status : Id → Option ConcernStatus) (hin : ∀ c ∈ cs, status c = some .closed)
      (hout : ∀ c, c ∉ cs → status c = b.status c) : Step b (.close cs) { b with status := status }

/-- The status `s` of a concern, whether an advisor is at work on it, and whether
it carries an approved advice, fit together. -/
def Fits (s : Option ConcernStatus) (active approved : Prop) : Prop :=
  match s with
  | none => ¬ active
  | some .submitted => ¬ active
  | some .assigned => active
  | some .answered => approved
  | some .closed => approved

/-- Every status agrees with the work under way and the work done. -/
def Consistent (b : Board) : Prop := ∀ c, Fits (b.status c) (c ∈ b.active) (c ∈ b.approved)

/-- Every concern with an approved advice shows it. -/
def Reflected (b : Board) : Prop :=
  ∀ c ∈ b.approved, b.status c = some .answered ∨ b.status c = some .closed

/-- No concern is lost, and its status moves only along an edge. -/
def Follows (b b' : Board) : Prop :=
  ∀ c s, b.status c = some s → ∃ s', b'.status c = some s' ∧ (s' = s ∨ s.Moves s')

variable {b b' : Board} {e : Event}

theorem Step.to {b₁ b₂ : Board} (h : Step b e b₁) (he : b₂ = b₁) : Step b e b₂ := he ▸ h

theorem Step.follows (h : Step b e b') : Follows b b' := by
  intro i s hs
  have keep : ∀ c t, (i = c → t = s ∨ s.Moves t) →
      ∃ s', b.set c t i = some s' ∧ (s' = s ∨ s.Moves s') := by
    intro c t ht
    by_cases hi : i = c
    · exact ⟨t, by rw [hi, set_self], ht hi⟩
    · exact ⟨s, by rw [set_of_ne b t hi, hs], Or.inl rfl⟩
  cases h with
  | stay => exact ⟨s, hs, Or.inl rfl⟩
  | file c hnew =>
    refine keep c _ fun hi => ?_
    rw [hi, hnew] at hs
    cases hs
  | assign c t ht =>
    refine keep c _ fun hi => ?_
    obtain rfl : t = s := Option.some.inj (by rw [← ht, ← hs, hi])
    by_cases h : t = .submitted
    · rw [if_pos h, h]
      exact Or.inr .assign
    · rw [if_neg h]
      exact Or.inl rfl
  | unassign c t ht =>
    refine keep c _ fun hi => ?_
    obtain rfl : t = s := Option.some.inj (by rw [← ht, ← hs, hi])
    by_cases h : t = .assigned
    · rw [if_pos h, h]
      exact Or.inr .unassign
    · rw [if_neg h]
      exact Or.inl rfl
  | approve c t ht =>
    refine keep c _ fun hi => ?_
    obtain rfl : t = s := Option.some.inj (by rw [← ht, ← hs, hi])
    by_cases h : t = .assigned
    · rw [if_pos h, h]
      exact Or.inr .answer
    · rw [if_neg h]
      exact Or.inl rfl
  | close cs hcs status hin hout =>
    by_cases hi : i ∈ cs
    · have hans : s = .answered := Option.some.inj (by rw [← hs, hcs i hi])
      exact ⟨.closed, hin i hi, Or.inr (hans ▸ .close)⟩
    · exact ⟨s, by rw [← hs]; exact hout i hi, Or.inl rfl⟩

theorem Step.consistent (h : Step b e b') (hb : b.Consistent) : b'.Consistent := by
  intro i
  have hi := hb i
  cases h with
  | stay => exact hi
  | file c hnew =>
    by_cases hic : i = c
    · subst hic
      rw [hnew] at hi
      simpa [Fits] using hi
    · simpa [set_of_ne b _ hic] using hi
  | assign c s hs =>
    by_cases hic : i = c
    · subst hic
      rw [hs] at hi
      cases s <;> simp_all [Fits]
    · simpa [set_of_ne b _ hic, hic] using hi
  | unassign c s hs =>
    by_cases hic : i = c
    · subst hic
      rw [hs] at hi
      cases s <;> simp_all [Fits]
    · simpa [set_of_ne b _ hic, hic] using hi
  | approve c s hs =>
    by_cases hic : i = c
    · subst hic
      rw [hs] at hi
      cases s <;> simp_all [Fits]
    · simpa [set_of_ne b _ hic, hic] using hi
  | close cs hcs status hin hout =>
    by_cases hic : i ∈ cs
    · rw [hcs i hic] at hi
      show Fits (status i) _ _
      rw [hin i hic]
      exact hi
    · show Fits (status i) _ _
      rw [hout i hic]
      exact hi

/-- An approval is reflected unless it comes while the concern stands at SUBMITTED. -/
theorem Step.reflected (h : Step b e b') (he : ∀ c, e = .approve c → b.status c ≠ some .submitted)
    (hb : b.Reflected) : b'.Reflected := by
  intro i hi
  cases h with
  | stay => exact hb i hi
  | file c hnew =>
    by_cases hic : i = c
    · subst hic
      rcases hb i hi with h | h <;> rw [hnew] at h <;> cases h
    · simpa [set_of_ne b _ hic] using hb i hi
  | assign c s hs =>
    by_cases hic : i = c
    · subst hic
      have := hb i hi
      rw [hs] at this
      cases s <;> simp_all
    · simpa [set_of_ne b _ hic] using hb i hi
  | unassign c s hs =>
    by_cases hic : i = c
    · subst hic
      have := hb i hi
      rw [hs] at this
      cases s <;> simp_all
    · simpa [set_of_ne b _ hic] using hb i hi
  | approve c s hs =>
    by_cases hic : i = c
    · subst hic
      have := he i rfl
      rw [hs] at this
      cases s <;> simp_all
    · rcases hi with hi | hi
      · exact absurd hi hic
      · simpa [set_of_ne b _ hic] using hb i hi
  | close cs hcs status hin hout =>
    show status i = _ ∨ status i = _
    by_cases hic : i ∈ cs
    · exact Or.inr (hin i hic)
    · rw [hout i hic]
      exact hb i hi

end Board

end Chamneul
