import Chamneul.Store.Schedule
import Mathlib.Data.Set.Finite.Range
import Mathlib.Data.Set.Finite.Lemmas

/-! What the engine guarantees of every schedule, whatever the programs: a session
owns the locks of all it has written, so nobody else changes what it has locked,
and everything written carries the time of its statement. -/

namespace ReadCommitted

/-- An engine whose changes leave alone whatever they need no lock for. `keeps k`
relates the databases that agree on what lock `k` protects. -/
class Guarded (D : Type) {K W : outParam Type} [Engine D K W] where
  keeps : K → D → D → Prop
  refl : ∀ k db, keeps k db db
  trans : ∀ {k db db' db''}, keeps k db db' → keeps k db' db'' → keeps k db db''
  frame : ∀ {k} {e : Env} {w : W} {db : D}, k ∉ Engine.locks D e w →
    keeps k db (Engine.apply e w db)

variable {D K W ε : Type} [Engine D K W] {S : System D K W ε}

theorem keeps_applyAll [Guarded D] {k : K} {ws : Pending W} {db : D}
    (h : ∀ p ∈ ws, k ∉ Engine.locks D p.1 p.2) : Guarded.keeps k db (applyAll ws db) := by
  refine holds_applyAll (Guarded.refl k db) fun p hp db' hold => ?_
  exact Guarded.trans hold (Guarded.frame (h p hp))

namespace Config

/-- Sessions own the locks of what they have written, and have written it in the past. -/
structure Tidy (c : Config S) : Prop where
  owned : ∀ k t, c.owner k = some t → ∃ s, c.slot t = some s
  locked : ∀ t s, c.slot t = some s → ∀ p ∈ s.writes, ∀ k ∈ Engine.locks D p.1 p.2,
    c.owner k = some t
  past : ∀ t s, c.slot t = some s → ∀ p ∈ s.writes, p.1.now < c.world.now
  finite : {k | c.owner k ≠ none}.Finite

theorem Tidy.idle (σ : World D) : (idle σ : Config S).Tidy where
  owned := by intro k t h; cases h
  locked := by intro t s h; cases h
  past := by intro t s h; cases h
  finite := by simp [Config.idle]

/-- Some identifier is not locked. -/
theorem Tidy.exists_free {c : Config S} (h : c.Tidy) {f : ℕ → K} (hf : Function.Injective f) :
    ∃ n, c.owner (f n) = none := by
  by_contra hn
  simp only [not_exists] at hn
  have hsub : Set.range f ⊆ {k | c.owner k ≠ none} := by
    rintro _ ⟨n, rfl⟩
    exact hn n
  exact Set.infinite_range_of_injective hf (h.finite.subset hsub)

theorem finite_release {c : Config S} (h : c.Tidy) (t : ℕ) : {k | c.release t k ≠ none}.Finite := by
  refine h.finite.subset fun k hk => ?_
  simp only [release, Set.mem_ofPred_eq] at hk ⊢
  split_ifs at hk with ho
  · exact absurd rfl hk
  · exact hk

/-- A commit leaves alone what another session has locked. -/
theorem Tidy.keeps [Guarded D] {c : Config S} (h : c.Tidy) {t t' : ℕ} {s : Session S}
    (ht : t ≠ t') (hs : c.slot t = some s) {k : K} (hk : k ∈ c.held t') :
    Guarded.keeps k c.world.db (c.world.commit s.writes).db := by
  refine keeps_applyAll fun p hp hmem => ?_
  exact ht (owner_unique (h.locked t s hs p hp k hmem) hk)

theorem Tidy.put {c : Config S} (h : c.Tidy) {t : ℕ} {σ : World D} {owner : K → Option ℕ}
    {s : Option (Session S)} (hσ : c.world.now ≤ σ.now)
    (ho : ∀ t' k, t' ≠ t → (owner k = some t' ↔ c.owner k = some t'))
    (hn : s = none → ∀ k, owner k ≠ some t)
    (hl : ∀ s', s = some s' → ∀ p ∈ s'.writes, ∀ k ∈ Engine.locks D p.1 p.2, owner k = some t)
    (hp : ∀ s', s = some s' → ∀ p ∈ s'.writes, p.1.now < σ.now)
    (hfin : {k | owner k ≠ none}.Finite) :
    (⟨σ, owner, c.put t s⟩ : Config S).Tidy where
  owned := by
    intro k t' hk
    by_cases ht : t' = t
    · subst ht
      cases s with
      | none => exact absurd hk (hn rfl k)
      | some s' => exact ⟨s', by simp [Config.put]⟩
    · obtain ⟨s', hs'⟩ := h.owned k t' ((ho t' k ht).mp hk)
      exact ⟨s', by simpa [Config.put, ht] using hs'⟩
  locked := by
    intro t' s' hs'
    by_cases ht : t' = t
    · subst ht
      exact hl s' (by simpa [Config.put] using hs')
    · intro p hp k hk
      exact (ho t' k ht).mpr (h.locked t' s' (by simpa [Config.put, ht] using hs') p hp k hk)
  past := by
    intro t' s' hs' p hmem
    by_cases ht : t' = t
    · subst ht
      exact hp s' (by simpa [Config.put] using hs') p hmem
    · exact lt_of_lt_of_le (h.past t' s' (by simpa [Config.put, ht] using hs') p hmem) hσ
  finite := hfin

variable [DecidableEq K]

theorem finite_acquire {c : Config S} (h : c.Tidy) (t : ℕ) (ks : List K) :
    {k | c.acquire t ks k ≠ none}.Finite := by
  refine (h.finite.union (List.finite_toSet ks)).subset fun k hk => ?_
  simp only [acquire, Set.mem_ofPred_eq] at hk
  split_ifs at hk with hm
  · exact Or.inr hm
  · exact Or.inl hk

theorem Tidy.step {c c' : Config S} {e : Event S} (h : c.Tidy) (hs : c.step e = some c') :
    c'.Tidy := by
  have hempty : ∀ {P : Env × W → Prop} (s' : Session S), s'.writes = [] → ∀ p ∈ s'.writes, P p := by
    intro P s' hw p hp
    rw [hw] at hp
    cases hp
  obtain ⟨t, call, -, hslot, rfl⟩ | ⟨t, uuid, s, -, hslot, ht⟩ | ⟨t, s, -, hslot, rfl⟩ :=
    step_cases hs
  · refine h.put (Nat.le_succ _) (fun _ _ _ => Iff.rfl) (fun hn => by cases hn) ?_ ?_ h.finite
    · intro s' hs'
      exact hempty s' (by rw [← Option.some.inj hs'])
    · intro s' hs'
      exact hempty s' (by rw [← Option.some.inj hs'])
  · have hl := h.locked t s hslot
    have hold : ∀ p ∈ s.writes, p.1.now < c.world.tick.now :=
      fun p hm => Nat.lt_succ_of_lt (h.past t s hslot p hm)
    cases ht with
    | commit n _ | rollback n _ =>
      refine h.put (Nat.le_succ _) (fun t' k ht => c.release_other ht k)
        (fun hn => by cases hn) ?_ ?_ (finite_release h t)
      · intro s' hs'
        exact hempty s' (by rw [← Option.some.inj hs'])
      · intro s' hs'
        exact hempty s' (by rw [← Option.some.inj hs'])
    | clock n _ | select n _ | refused stmt n _ hv =>
      refine h.put (Nat.le_succ _) (fun _ _ _ => Iff.rfl) (fun hn => by cases hn) ?_ ?_ h.finite
      · intro s' hs'
        obtain rfl := Option.some.inj hs'
        exact hl
      · intro s' hs'
        obtain rfl := Option.some.inj hs'
        exact hold
    | forUpdate rows n _ hf =>
      refine h.put (Nat.le_succ _) (fun t' k ht => c.acquire_other ht hf k)
        (fun hn => by cases hn) ?_ ?_ (finite_acquire h t _)
      · intro s' hs' p hm k hk
        obtain rfl := Option.some.inj hs'
        simp [acquire, hl p hm k hk]
      · intro s' hs'
        obtain rfl := Option.some.inj hs'
        exact hold
    | written stmt n _ hf hv =>
      refine h.put (Nat.le_succ _) (fun t' k ht => c.acquire_other ht hf k)
        (fun hn => by cases hn) ?_ ?_ (finite_acquire h t _)
      · intro s' hs' p hm k hk
        obtain rfl := Option.some.inj hs'
        rcases List.mem_append.mp hm with hm | hm
        · simp [acquire, hl p hm k hk]
        · obtain ⟨x, hx, rfl⟩ := List.mem_map.mp hm
          have : k ∈ (stmt (c.world.view s.writes)).flatMap
              (Engine.locks D ⟨c.world.now, uuid⟩) := List.mem_flatMap.mpr ⟨x, hx, hk⟩
          simp only [acquire, if_pos this]
      · intro s' hs' p hm
        obtain rfl := Option.some.inj hs'
        rcases List.mem_append.mp hm with hm | hm
        · exact hold p hm
        · obtain ⟨x, hx, rfl⟩ := List.mem_map.mp hm
          exact Nat.lt_succ_self _
  · refine h.put (Nat.le_succ _) (fun t' k ht => c.release_other ht k) (fun _ k hk => ?_)
      (fun _ hn => by cases hn) (fun _ hn => by cases hn) (finite_release h t)
    have : k ∈ {k | c.release t k = some t} := hk
    rw [c.held_release t] at this
    exact this

theorem Tidy.reaches {ok : Config S → Event S → Prop} {c₀ c : Config S} (h : c₀.Tidy)
    (hr : Reaches ok c₀ c) : c.Tidy :=
  hr.invariant h fun _ _ _ _ hi _ hs => hi.step hs

end Config

end ReadCommitted
