import Chamneul.Store.Locking

/-! Who waits for whom. Only the session that runs comes to own a lock, and sessions
that can be put in an order along which they wait never wait in a cycle. -/

namespace ReadCommitted

variable {D K W ε : Type} [Engine D K W] {S : System D K W ε}

namespace Config

/-- Who is waited for owns a lock. -/
theorem Waits.owned {c : Config S} {t t' : ℕ} (h : c.Waits t t') : ∃ k, c.owner k = some t' := by
  obtain ⟨-, s, -, hneeds | ⟨k, -, hk⟩⟩ := h
  · obtain ⟨k, -, hk⟩ := hneeds 0
    exact ⟨k, hk⟩
  · exact ⟨k, hk⟩

/-- Sessions that are waited for, and wait themselves, have a place, and wait for later
places only: then nobody waits in a cycle. -/
theorem not_deadlocked_of_order {α : Type} [Preorder α] {c : Config S} (place : ℕ → α → Prop)
    (hplace : ∀ {t t' t''}, c.Waits t t' → c.Waits t' t'' → ∃ a, place t' a)
    (hlater : ∀ {t t' a b}, c.Waits t t' → (∃ t'', c.Waits t' t'') → place t a → place t' b → a < b) :
    ¬ c.Deadlocked := by
  have hchain : ∀ {t t'}, Relation.TransGen c.Waits t t' → ∀ {t'' a b}, c.Waits t' t'' →
      place t a → place t' b → a < b := by
    intro t t' h
    induction h with
    | single hw => exact fun hnext => hlater hw ⟨_, hnext⟩
    | tail hbefore hw ih =>
      intro t'' a b hnext ha hb
      obtain ⟨_, -, hw'⟩ := Relation.TransGen.tail'_iff.mp hbefore
      obtain ⟨m, hm⟩ := hplace hw' hw
      exact (ih hw ha hm).trans (hlater hw ⟨_, hnext⟩ hm hb)
  rintro ⟨t, ht⟩
  obtain ⟨_, hnext, -⟩ := Relation.TransGen.head'_iff.mp ht
  obtain ⟨_, -, hlast⟩ := Relation.TransGen.tail'_iff.mp ht
  obtain ⟨a, ha⟩ := hplace hlast hnext
  exact lt_irrefl a (hchain ht hnext ha ha)

/-- Nobody who is at a statement that takes locks looks anything up. -/
theorem refers_of_needs {s : Session S} {σ : World D} {uuid : ℕ} {k : K} (h : k ∈ s.needs σ uuid) :
    s.refers = [] := by
  unfold Session.needs at h
  unfold Session.refers
  split at h <;> rename_i hp
  · rw [hp]
  · rw [hp]
  · cases h

/-- The session is at a read that takes `k`, or at a commit that looks it up, and `t'` owns `k`. -/
def waitsAt (c : Config S) [DecidableEq K] (t t' : ℕ) (k : K) : Bool :=
  (c.slot t).any fun s =>
    match s.prog with
    | .forUpdate rows _ => decide (k ∈ rows (c.world.view s.writes)) && decide (c.owner k = some t')
    | .commit _ => decide (k ∈ s.refers) && decide (c.owner k = some t')
    | _ => false

theorem waits_of_waitsAt [DecidableEq K] {c : Config S} {t t' : ℕ} {k : K} (ht : t ≠ t')
    (h : c.waitsAt t t' k = true) : c.Waits t t' := by
  obtain ⟨s, hs, h⟩ := (Option.any_eq_true _ _).mp h
  refine ⟨ht, s, hs, ?_⟩
  split at h
  · rename_i rows n hp
    rw [Bool.and_eq_true, decide_eq_true_eq, decide_eq_true_eq] at h
    refine Or.inl fun uuid => ⟨k, ?_⟩
    unfold Session.needs
    simpa only [hp] using h
  · rw [Bool.and_eq_true, decide_eq_true_eq, decide_eq_true_eq] at h
    exact Or.inr ⟨k, h⟩
  · cases h

variable [DecidableEq K]

/-- Either no lock is taken, or the session that runs takes what it needs. -/
theorem step_locks {c c' : Config S} {e : Event S} (hs : c.step e = some c') :
    (∀ k t, c'.owner k = some t → c.owner k = some t) ∨
      ∃ t uuid s, e = .run t uuid ∧ c.slot t = some s ∧
        c'.owner = c.acquire t (s.needs c.world uuid) ∧ c'.world.db = c.world.db := by
  have hreleased : ∀ t₀ k t, c.release t₀ k = some t → c.owner k = some t := by
    intro t₀ k t h
    unfold release at h
    split_ifs at h
    exact h
  obtain ⟨t₀, call, -, -, rfl⟩ | ⟨t₀, uuid, s, rfl, hslot, ht⟩ | ⟨t₀, s, -, -, rfl⟩ := step_cases hs
  · exact Or.inl fun _ _ hk => hk
  · cases ht with
    | commit n hp | rollback n hp => exact Or.inl (hreleased t₀)
    | clock n hp | select n hp | refused stmt n hp hv => exact Or.inl fun _ _ hk => hk
    | forUpdate rows n hp hf | written stmt n hp hf hv =>
      exact Or.inr ⟨t₀, uuid, s, rfl, hslot, by simp only [Session.needs, hp], rfl⟩
  · exact Or.inl (hreleased t₀)

/-- A commit gives up the locks of its session. -/
theorem owner_of_commit {c c' : Config S} {t uuid : ℕ} {s : Session S} {n}
    (hs : c.step (.run t uuid) = some c') (hslot : c.slot t = some s) (hp : s.prog = .commit n) :
    c'.owner = c.release t := by
  obtain ⟨_, _, he, -⟩ | ⟨t₀, uuid₀, s₀, he, hslot₀, hturn⟩ | ⟨_, _, he, -⟩ := step_cases hs
  · cases he
  · cases he
    obtain rfl := Option.some.inj (hslot.symm.trans hslot₀)
    cases hturn with
    | commit n hp => rfl
    | _ => simp_all
  · cases he

/-- A lock was owned before, or it is taken by the session that runs. -/
theorem step_owner {c c' : Config S} {e : Event S} (hs : c.step e = some c') {k : K} {t : ℕ}
    (hk : c'.owner k = some t) : c.owner k = some t ∨
      ∃ uuid s, e = .run t uuid ∧ c.slot t = some s ∧ k ∈ s.needs c.world uuid ∧
        c'.world.db = c.world.db := by
  obtain hold | ⟨t₀, uuid, s, rfl, hslot, howner, hdb⟩ := step_locks hs
  · exact Or.inl (hold k t hk)
  · rw [howner] at hk
    unfold acquire at hk
    split_ifs at hk with hmem
    · cases hk
      exact Or.inr ⟨uuid, s, rfl, hslot, hmem, hdb⟩
    · exact Or.inl hk

/-- Where nothing is read for update, a lock is owned for a change that takes it. -/
theorem Reaches.owned_for_write {ok : Config S → Event S → Prop} {σ : World D}
    (hread : ∀ {c t s}, Reaches ok (idle σ) c → c.slot t = some s → ∀ rows n, s.prog ≠ .forUpdate rows n)
    {c : Config S} (h : Reaches ok (idle σ) c) {k : K} {t : ℕ} (hk : c.owner k = some t) :
    ∃ s, c.slot t = some s ∧ ∃ p ∈ s.writes, k ∈ Engine.locks D p.1 p.2 := by
  induction h generalizing k t with
  | refl => cases hk
  | @step c c' e hr _ hs ih =>
    have hother : ∀ {t₀ s₀}, t ≠ t₀ → c.owner k = some t →
        ∃ s, c.put t₀ s₀ t = some s ∧ ∃ p ∈ s.writes, k ∈ Engine.locks D p.1 p.2 := by
      intro t₀ s₀ ht hold
      obtain ⟨s, hslot, hlocked⟩ := ih hold
      exact ⟨s, by simpa [put, ht] using hslot, hlocked⟩
    have hreleased : ∀ {t₀}, c.release t₀ k = some t → t ≠ t₀ ∧ c.owner k = some t := by
      intro t₀ hk
      have ht : t ≠ t₀ := by
        rintro rfl
        have hnone : k ∈ {k | c.release t k = some t} := hk
        rw [c.held_release t] at hnone
        exact hnone
      exact ⟨ht, (c.release_other ht k).mp hk⟩
    obtain ⟨t₀, call, -, hslot, rfl⟩ | ⟨t₀, uuid, s, rfl, hslot, hturn⟩ | ⟨t₀, s, -, hslot, rfl⟩ :=
      step_cases hs
    · refine hother (fun ht => ?_) hk
      obtain ⟨s, hsome, -⟩ := ih hk
      rw [ht, hslot] at hsome
      cases hsome
    · have hown : c.owner k = some t₀ → ∃ p ∈ s.writes, k ∈ Engine.locks D p.1 p.2 := by
        intro hold
        obtain ⟨s₁, hslot₁, hlocked⟩ := ih hold
        obtain rfl := Option.some.inj (hslot.symm.trans hslot₁)
        exact hlocked
      cases hturn with
      | commit n _ | rollback n _ => exact hother (hreleased hk).1 (hreleased hk).2
      | clock n _ | select n _ | refused stmt n _ _ =>
        by_cases ht : t = t₀
        · subst ht
          exact ⟨_, Function.update_self .., hown hk⟩
        · exact hother ht hk
      | forUpdate rows n hp _ => exact absurd hp (hread hr hslot rows n)
      | written stmt n _ hf _ =>
        by_cases ht : t = t₀
        · subst ht
          refine ⟨_, Function.update_self .., ?_⟩
          simp only [acquire] at hk
          split_ifs at hk with hnew
          · obtain ⟨x, hx, hkx⟩ := List.mem_flatMap.mp hnew
            exact ⟨_, List.mem_append_right _ (List.mem_map.mpr ⟨x, hx, rfl⟩), hkx⟩
          · obtain ⟨p, hp, hkp⟩ := hown hk
            exact ⟨p, List.mem_append_left _ hp, hkp⟩
        · exact hother ht ((c.acquire_other ht hf k).mp hk)
    · exact hother (hreleased hk).1 (hreleased hk).2

/-- A lock owned before and after a step has kept what it protects. -/
theorem Tidy.kept [Guarded D] {c c' : Config S} {e : Event S} (h : c.Tidy) (hs : c.step e = some c')
    {k : K} {t : ℕ} (hk : c.owner k = some t) (hk' : c'.owner k = some t) :
    Guarded.keeps k c.world.db c'.world.db := by
  obtain ⟨_, _, -, -, rfl⟩ | ⟨t₀, uuid, s, -, hslot, ht⟩ | ⟨_, _, -, -, rfl⟩ := step_cases hs
  · exact Guarded.refl k _
  · cases ht with
    | commit n hp =>
      have hne : t₀ ≠ t := by
        rintro rfl
        have hnone : k ∈ {k | c.release t₀ k = some t₀} := hk'
        rw [c.held_release t₀] at hnone
        exact hnone
      exact h.keeps hne hslot hk
    | _ => exact Guarded.refl k _
  · exact Guarded.refl k _

end Config

end ReadCommitted
