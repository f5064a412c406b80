import Chamneul.Store.Writes

/-! The worlds a run passes through. Where calls are only started once a world has admitted them, a
session can be asked at its commit for the world that admitted its call. -/

namespace ReadCommitted

variable {D K W ε : Type} {S : System D K W ε}

namespace Config

/-- The call an event starts, if any, has been admitted by the committed rows of one of `σs`. -/
def Admits (gate : D → S.Call → Prop) (σs : List (World D)) (e : Event S) : Prop :=
  ∀ t call, e = .start t call → ∃ σ ∈ σs, gate σ.db call

theorem admits_run (gate : D → S.Call → Prop) (σs : List (World D)) (t uuid : ℕ) :
    Admits gate σs (.run t uuid) := by
  intro t' call he
  cases he

theorem admits_abort (gate : D → S.Call → Prop) (σs : List (World D)) (t : ℕ) :
    Admits gate σs (.abort t) := by
  intro t' call he
  cases he

theorem admits_of_true (σs : List (World D)) (h : σs ≠ []) (e : Event S) :
    Admits (fun _ _ => True) σs e := by
  intro _ _ _
  obtain ⟨σ, hσ⟩ := List.exists_mem_of_ne_nil σs h
  exact ⟨σ, hσ, trivial⟩

variable [Engine D K W] [DecidableEq K]

/-- Reached from `c₀` through the worlds `σs`, in order, every call admitted by one of those before. -/
inductive Through (gate : D → S.Call → Prop) (c₀ : Config S) : Config S → List (World D) → Prop
  | refl : Through gate c₀ c₀ [c₀.world]
  | step {c c' : Config S} {e : Event S} {σs : List (World D)} :
      Through gate c₀ c σs → Admits gate σs e → c.step e = some c' →
        Through gate c₀ c' (σs ++ [c'.world])

/-- Reached from `c₀` through the worlds `σs`, by whatever calls. -/
abbrev Run (c₀ c : Config S) (σs : List (World D)) : Prop := Through (fun _ _ => True) c₀ c σs

variable {gate : D → S.Call → Prop} {c₀ c : Config S} {σs : List (World D)}

theorem Through.reaches (h : Through gate c₀ c σs) : Reaches (fun _ _ => True) c₀ c := by
  induction h with
  | refl => exact .refl
  | step _ _ hs ih => exact ih.step trivial hs

/-- The run ends in the last of its worlds. -/
theorem Through.world_mem (h : Through gate c₀ c σs) : c.world ∈ σs := by
  cases h with
  | refl => exact List.mem_singleton_self _
  | step _ _ _ => exact List.mem_append_right _ (List.mem_singleton_self _)

theorem Through.first_mem (h : Through gate c₀ c σs) : c₀.world ∈ σs := by
  induction h with
  | refl => exact List.mem_singleton_self _
  | step _ _ _ ih => exact List.mem_append_left _ ih

/-- Every run passes through some worlds. -/
theorem Reaches.through {ok : Config S → Event S → Prop} (h : Reaches ok c₀ c) :
    ∃ σs, Run c₀ c σs := by
  induction h with
  | refl => exact ⟨_, .refl⟩
  | step _ _ hs ih =>
    obtain ⟨σs, h⟩ := ih
    exact ⟨_, h.step (admits_of_true σs (List.ne_nil_of_mem h.world_mem) _) hs⟩

theorem Through.mono {gate' : D → S.Call → Prop} (hgate : ∀ db call, gate db call → gate' db call)
    (h : Through gate c₀ c σs) : Through gate' c₀ c σs := by
  induction h with
  | refl => exact .refl
  | step _ ho hs ih =>
    refine ih.step (fun t call he => ?_) hs
    obtain ⟨σ, hσ, hcall⟩ := ho t call he
    exact ⟨σ, hσ, hgate _ _ hcall⟩

/-- A world of the run is the world of a configuration the run passed through. -/
theorem Through.mem (h : Through gate c₀ c σs) {σ : World D} (hσ : σ ∈ σs) :
    ∃ c₁, Reaches (fun _ _ => True) c₀ c₁ ∧ Reaches (fun _ _ => True) c₁ c ∧ c₁.world = σ := by
  induction h with
  | refl =>
    obtain rfl := List.mem_singleton.mp hσ
    exact ⟨c₀, .refl, .refl, rfl⟩
  | step h _ hs ih =>
    rcases List.mem_append.mp hσ with hσ | hσ
    · obtain ⟨c₁, hto, hfrom, hw⟩ := ih hσ
      exact ⟨c₁, hto, hfrom.step trivial hs, hw⟩
    · obtain rfl := List.mem_singleton.mp hσ
      exact ⟨_, h.reaches.step trivial hs, .refl, rfl⟩

/-- The worlds come in the order of their times. -/
theorem Through.now_le (h : Through gate c₀ c σs) : ∀ σ ∈ σs, σ.now ≤ c.world.now := by
  induction h with
  | refl =>
    intro σ hσ
    rw [List.mem_singleton.mp hσ]
  | step _ _ hs ih =>
    intro σ hσ
    rw [step_now hs]
    rcases List.mem_append.mp hσ with hσ | hσ
    · have := ih σ hσ
      omega
    · rw [List.mem_singleton.mp hσ, step_now hs]

/-- What holds at first, and what no later world and no commit takes away, holds at the end. -/
theorem Through.invariant {I : List (World D) → D → Prop} (h : Through gate c₀ c σs)
    (h₀ : I [c₀.world] c₀.world.db) (hlater : ∀ σs σ, I σs σ.db → I (σs ++ [σ]) σ.db)
    (hcommit : ∀ {c σs t s n}, Through gate c₀ c σs → c.slot t = some s → s.prog = .commit n →
      I σs c.world.db → I σs (applyAll s.writes c.world.db)) : I σs c.world.db := by
  induction h with
  | refl => exact h₀
  | @step c c' e σs h _ hs ih =>
    refine hlater _ _ ?_
    exact step_keeps hs ih fun _ hslot hp => hcommit h hslot hp ih

/-- One of the worlds before admitted the call of a session, which has written nothing but after it,
and has taken no time off the clock but a later one. -/
theorem Through.admitted {σ₀ : World D} (h : Through gate (idle σ₀) c σs) {t : ℕ}
    {s : Session S} (hs : c.slot t = some s) :
    ∃ σ ∈ σs, σ.now < c.world.now ∧ gate σ.db s.call ∧ (∀ p ∈ s.writes, σ.now < p.1.now) ∧
      ∀ P : W → Prop, (S.program s.call).WritesAfter σ.now P →
        s.prog.WritesAfter σ.now P ∧ ∀ p ∈ s.writes, P p.2 := by
  induction h generalizing t s with
  | refl => cases hs
  | @step c c' e σs h ho hstep ih =>
    have hnow := step_now hstep
    obtain hold | ⟨he, hfresh⟩ | ⟨uuid, s₀, rfl, hslot, hcall, hturn⟩ := step_slot hstep hs
    · obtain ⟨σ, hσ, hlt, hrest⟩ := ih hold
      exact ⟨σ, List.mem_append_left _ hσ, by omega, hrest⟩
    · obtain ⟨σ, hσ, hgate⟩ := ho t s.call he
      have hle := h.now_le σ hσ
      refine ⟨σ, List.mem_append_left _ hσ, by omega, hgate, ?_, fun P hP => ?_⟩
      · rw [hfresh.writes]
        exact List.forall_mem_nil _
      · rw [hfresh.prog, hfresh.writes]
        exact ⟨hP, List.forall_mem_nil _⟩
    · obtain ⟨σ, hσ, hlt, hgate, hwrites, hdated⟩ := ih hslot
      refine ⟨σ, List.mem_append_left _ hσ, by omega, hcall ▸ hgate, fun p hp => ?_, fun P hP => ?_⟩
      · obtain ⟨-, hold | ⟨stmt, n, x, -, -, -, rfl⟩⟩ := hturn.mem_writes hs hp
        · exact hwrites p hold
        · exact hlt
      · rw [← hcall] at hP
        obtain ⟨hprog, hold⟩ := hdated P hP
        exact hturn.writesAfter hs hlt hprog hold

end Config

end ReadCommitted
