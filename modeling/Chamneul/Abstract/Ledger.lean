import Chamneul.Abstract.Roster

/-! The trail of one office while sessions work on it. A session drafts an event,
which nobody sees, and publishes it with the change it is about, or with none. -/

namespace Chamneul

/-- An event not yet published. `moves` if its session gives or takes the role. -/
structure Draft where
  event : RoleGrant
  moves : Bool

structure Ledger where
  roster : Roster
  drafts : ℕ → Option Draft

/-- What an event of the roster is as a draft about office `k`. -/
def Roster.Event.draft (k : Id × Role) : Roster.Event → Option Draft
  | .gain g | .lose g => if g.office = k then some ⟨g, true⟩ else none
  | .again g => if g.office = k then some ⟨g, false⟩ else none
  | .stay | .wear => none

namespace Ledger

/-- What a session may draft at `now`. One that moves the role is the only one, and
moves it the way it can move; one that does not has found it held, and nobody is
about to say otherwise. -/
structure Fair (k : Id × Role) (now : Time) (l : Ledger) (t : ℕ) (d : Draft) : Prop where
  stamp : d.event.actedAt = now
  moves : d.moves = true → l.roster.holds k = decide (d.event.action = .revoke) ∧
    ∀ t' d', t' ≠ t → l.drafts t' = some d' → d'.moves = false
  found : d.moves = false → d.event.action = .grant ∧ l.roster.holds k = true ∧
    ∀ t' d', t' ≠ t → l.drafts t' = some d' → d'.event.action ≠ .revoke

/-- The steps of a ledger at `now`, each of one session. -/
inductive Step (k : Id × Role) (now : Time) (l : Ledger) : Ledger → Prop
  | draft (t : ℕ) (d : Option Draft)
      (hd : ∀ x, d = some x → l.drafts t = some x ∨ Fair k now l t x) :
      Step k now l { l with drafts := Function.update l.drafts t d }
  | publish (t : ℕ) (e : Roster.Event) (r : Roster) (hr : l.roster.Step e r)
      (hd : l.drafts t = e.draft k) :
      Step k now l { roster := r, drafts := Function.update l.drafts t none }

/-- What is published agrees with the roster, and what is drafted will. -/
structure Sound (k : Id × Role) (now : Time) (l : Ledger) : Prop where
  agrees : l.roster.Agrees k
  past : ∀ g ∈ l.roster.log k, g.actedAt < now
  drafted : ∀ t d, l.drafts t = some d → d.event.actedAt < now
  apart : ∀ t d, l.drafts t = some d → ∀ g ∈ l.roster.log k, g.actedAt ≠ d.event.actedAt
  distinct : ∀ t t' d d', t' ≠ t → l.drafts t = some d → l.drafts t' = some d' →
    d'.event.actedAt ≠ d.event.actedAt
  moving : ∀ t d, l.drafts t = some d → d.moves = true →
    l.roster.holds k = decide (d.event.action = .revoke) ∧
    (∀ g ∈ l.roster.log k, g.actedAt < d.event.actedAt) ∧
    ∀ t' d', t' ≠ t → l.drafts t' = some d' → d'.event.actedAt < d.event.actedAt
  found : ∀ t d, l.drafts t = some d → d.moves = false →
    l.roster.holds k = true ∨
      ∃ g ∈ l.roster.log k, g.action = .revoke ∧ d.event.actedAt < g.actedAt

variable {k : Id × Role} {now : Time} {l l' : Ledger}

theorem Sound.later {now' : Time} (h : l.Sound k now) (hn : now ≤ now') : l.Sound k now' :=
  { h with
    past := fun g hg => (h.past g hg).trans_le hn
    drafted := fun t d hd => (h.drafted t d hd).trans_le hn }

/-- Only the log and the holder of the office matter. -/
theorem Sound.congr {r : Roster} (hlog : r.log k = l.roster.log k)
    (hholds : r.holds k = l.roster.holds k) (h : l.Sound k now) : Sound k now { l with roster := r } where
  agrees :=
    ⟨fun hr => by simpa only [Roster.Latest, hlog] using h.agrees.held (hholds ▸ hr),
      fun hr => by simpa only [Roster.Latest, hlog] using h.agrees.lost (hholds ▸ hr)⟩
  past := by simpa only [hlog] using h.past
  drafted := h.drafted
  apart := by simpa only [hlog] using h.apart
  distinct := h.distinct
  moving := by simpa only [hlog, hholds] using h.moving
  found := by simpa only [hlog, hholds] using h.found

theorem eq_or_old {t t' : ℕ} {d : Option Draft} {d' : Draft}
    (h : Function.update l.drafts t d t' = some d') :
    t' = t ∧ d = some d' ∨ t' ≠ t ∧ l.drafts t' = some d' := by
  by_cases ht : t' = t
  · subst ht
    rw [Function.update_self] at h
    exact Or.inl ⟨rfl, h⟩
  · rw [Function.update_of_ne ht] at h
    exact Or.inr ⟨ht, h⟩

theorem old_of_drop {t t' : ℕ} {d' : Draft} (h : Function.update l.drafts t none t' = some d') :
    t' ≠ t ∧ l.drafts t' = some d' := by
  rcases eq_or_old h with ⟨-, hn⟩ | hold
  · cases hn
  · exact hold

/-- A session gives its draft up, or has none. -/
theorem Sound.drop (h : l.Sound k now) (t : ℕ) :
    Sound k now { l with drafts := Function.update l.drafts t none } where
  agrees := h.agrees
  past := h.past
  drafted t' d hd := h.drafted t' d (old_of_drop hd).2
  apart t' d hd := h.apart t' d (old_of_drop hd).2
  distinct t₁ t₂ d d' hne hd hd' := h.distinct t₁ t₂ d d' hne (old_of_drop hd).2 (old_of_drop hd').2
  moving t' d hd hm := by
    obtain ⟨hh, hlog, hother⟩ := h.moving t' d (old_of_drop hd).2 hm
    exact ⟨hh, hlog, fun t₂ d₂ hne hd₂ => hother t₂ d₂ hne (old_of_drop hd₂).2⟩
  found t' d hd hm := h.found t' d (old_of_drop hd).2 hm

/-- A session drafts its event. -/
theorem Sound.write (h : l.Sound k now) {t : ℕ} {x : Draft} (hx : Fair k now l t x) :
    Sound k (now + 1) { l with drafts := Function.update l.drafts t (some x) } where
  agrees := h.agrees
  past g hg := (h.past g hg).trans (Nat.lt_succ_self _)
  drafted t' d hd := by
    rcases eq_or_old hd with ⟨-, heq⟩ | ⟨-, hold⟩
    · rw [← Option.some.inj heq, hx.stamp]
      exact Nat.lt_succ_self _
    · exact (h.drafted t' d hold).trans (Nat.lt_succ_self _)
  apart t' d hd g hg := by
    rcases eq_or_old hd with ⟨-, heq⟩ | ⟨-, hold⟩
    · rw [← Option.some.inj heq, hx.stamp]
      exact (h.past g hg).ne
    · exact h.apart t' d hold g hg
  distinct t₁ t₂ d d' hne hd hd' := by
    rcases eq_or_old hd with ⟨rfl, heq⟩ | ⟨h₁, hold⟩ <;>
      rcases eq_or_old hd' with ⟨rfl, heq'⟩ | ⟨h₂, hold'⟩
    · exact absurd rfl hne
    · rw [← Option.some.inj heq, hx.stamp]
      exact (h.drafted t₂ d' hold').ne
    · rw [← Option.some.inj heq', hx.stamp]
      exact (h.drafted t₁ d hold).ne'
    · exact h.distinct t₁ t₂ d d' hne hold hold'
  moving t' d hd hm := by
    rcases eq_or_old hd with ⟨rfl, heq⟩ | ⟨hne, hold⟩
    · obtain rfl := Option.some.inj heq
      refine ⟨(hx.moves hm).1, fun g hg => ?_, fun t₂ d₂ hne hd₂ => ?_⟩
      · rw [hx.stamp]
        exact h.past g hg
      · rcases eq_or_old hd₂ with ⟨rfl, -⟩ | ⟨-, hold₂⟩
        · exact absurd rfl hne
        · rw [hx.stamp]
          exact h.drafted t₂ d₂ hold₂
    · obtain ⟨hh, hlog, hother⟩ := h.moving t' d hold hm
      refine ⟨hh, hlog, fun t₂ d₂ hne₂ hd₂ => ?_⟩
      rcases eq_or_old hd₂ with ⟨rfl, heq⟩ | ⟨-, hold₂⟩
      · -- nobody drafts while another session is moving the role
        obtain rfl := Option.some.inj heq
        exfalso
        cases hmx : x.moves with
        | true =>
          rw [(hx.moves hmx).2 t' d hne hold] at hm
          cases hm
        | false =>
          obtain ⟨-, hheld, hnone⟩ := hx.found hmx
          rw [hh] at hheld
          exact hnone t' d hne hold (by simpa using hheld)
      · exact hother t₂ d₂ hne₂ hold₂
  found t' d hd hm := by
    rcases eq_or_old hd with ⟨rfl, heq⟩ | ⟨-, hold⟩
    · obtain rfl := Option.some.inj heq
      exact Or.inl (hx.found hm).2.1
    · exact h.found t' d hold hm

/-- A session that moves the role publishes its event. -/
theorem Sound.publish_moving (h : l.Sound k now) {t : ℕ} {g : RoleGrant} {r : Roster}
    (hd : l.drafts t = some ⟨g, true⟩) (hlog : r.log k = l.roster.log k ++ [g])
    (hf : Roster.Filed l.roster r k) :
    Sound k now { roster := r, drafts := Function.update l.drafts t none } := by
  obtain ⟨-, hlate, hother⟩ := h.moving t _ hd rfl
  have hmem : ∀ g', g' ∈ r.log k ↔ g' ∈ l.roster.log k ∨ g' = g := by simp [hlog]
  have hstill : ∀ t' d, t' ≠ t → l.drafts t' = some d → d.moves = false := by
    intro t' d hne hd'
    by_contra hm
    have hlt := (h.moving t' d hd' (by simpa using hm)).2.2 t _ (Ne.symm hne) hd
    exact lt_asymm hlt (hother t' d hne hd')
  constructor
  · refine hf.agrees (fun g' hg' => ?_) h.agrees
    have heq : [g] = [g'] := List.append_cancel_left (hlog.symm.trans hg')
    rw [← (List.singleton_inj.mp heq)]
    exact hlate
  · intro g' hg'
    rcases (hmem g').mp hg' with hold | rfl
    · exact h.past g' hold
    · exact h.drafted t _ hd
  · exact fun t' d hd' => h.drafted t' d (old_of_drop hd').2
  · intro t' d hd' g' hg'
    obtain ⟨hne, hold⟩ := old_of_drop hd'
    rcases (hmem g').mp hg' with hm | rfl
    · exact h.apart t' d hold g' hm
    · exact (hother t' d hne hold).ne'
  · exact fun t₁ t₂ d d' hne hd₁ hd₂ =>
      h.distinct t₁ t₂ d d' hne (old_of_drop hd₁).2 (old_of_drop hd₂).2
  · intro t' d hd' hm
    obtain ⟨hne, hold⟩ := old_of_drop hd'
    rw [hstill t' d hne hold] at hm
    cases hm
  · intro t' d hd' hm
    obtain ⟨hne, hold⟩ := old_of_drop hd'
    cases hf with
    | nothing hsame _ => simp [hsame] at hlog
    | grant g' _ _ _ hheld => exact Or.inl hheld
    | revoke g' hg' hlog' _ _ =>
      have heq : [g] = [g'] := List.append_cancel_left (hlog.symm.trans hlog')
      obtain rfl := List.singleton_inj.mp heq
      exact Or.inr ⟨g, (hmem g).mpr (Or.inr rfl), hg', hother t' d hne hold⟩

/-- A session that found the role held publishes its grant. -/
theorem Sound.publish_found (h : l.Sound k now) {t : ℕ} {g : RoleGrant} {r : Roster}
    (hd : l.drafts t = some ⟨g, false⟩) (hg : g.action = .grant)
    (hlog : r.log k = l.roster.log k ++ [g]) (hholds : r.holds k = l.roster.holds k) :
    Sound k now { roster := r, drafts := Function.update l.drafts t none } := by
  have hmem : ∀ g', g' ∈ r.log k ↔ g' ∈ l.roster.log k ∨ g' = g := by simp [hlog]
  constructor
  · exact Roster.agrees_again hg hlog hholds (h.apart t _ hd) (h.found t _ hd rfl) h.agrees
  · intro g' hg'
    rcases (hmem g').mp hg' with hold | rfl
    · exact h.past g' hold
    · exact h.drafted t _ hd
  · exact fun t' d hd' => h.drafted t' d (old_of_drop hd').2
  · intro t' d hd' g' hg'
    obtain ⟨hne, hold⟩ := old_of_drop hd'
    rcases (hmem g').mp hg' with hm | rfl
    · exact h.apart t' d hold g' hm
    · exact h.distinct t' t d _ (Ne.symm hne) hold hd
  · exact fun t₁ t₂ d d' hne hd₁ hd₂ =>
      h.distinct t₁ t₂ d d' hne (old_of_drop hd₁).2 (old_of_drop hd₂).2
  · intro t' d hd' hm
    obtain ⟨hne, hold⟩ := old_of_drop hd'
    obtain ⟨hh, hlate, hother⟩ := h.moving t' d hold hm
    refine ⟨hholds.trans hh, fun g' hg' => ?_, fun t₂ d₂ hne₂ hd₂ =>
      hother t₂ d₂ hne₂ (old_of_drop hd₂).2⟩
    rcases (hmem g').mp hg' with hm' | rfl
    · exact hlate g' hm'
    · exact hother t _ (Ne.symm hne) hd
  · intro t' d hd' hm
    rcases h.found t' d (old_of_drop hd').2 hm with hheld | ⟨g', hg', hrev, hlt⟩
    · exact Or.inl (hholds.trans hheld)
    · exact Or.inr ⟨g', (hmem g').mpr (Or.inl hg'), hrev, hlt⟩

theorem Sound.publish (h : l.Sound k now) {t : ℕ} {e : Roster.Event} {r : Roster}
    (hr : l.roster.Step e r) (hd : l.drafts t = e.draft k) :
    Sound k now { roster := r, drafts := Function.update l.drafts t none } := by
  by_cases hk : ∀ g ∈ e.filed, g.office ≠ k
  · obtain ⟨hlog, hholds⟩ := hr.untouched hk
    exact Sound.congr (l := { l with drafts := Function.update l.drafts t none }) hlog hholds
      (h.drop t)
  · obtain ⟨g, hg, rfl⟩ : ∃ g ∈ e.filed, g.office = k := by simpa using hk
    have hlog := hr.log g.office
    cases e with
    | stay | wear => cases hg
    | gain g' | lose g' =>
      obtain rfl : g = g' := List.mem_singleton.mp hg
      simp only [Roster.Event.filed, List.filter_cons, decide_true, if_true, List.filter_nil] at hlog
      simp only [Roster.Event.draft, if_true] at hd
      exact h.publish_moving hd hlog (hr.filed fun g' he => by cases he)
    | again g' =>
      obtain rfl : g = g' := List.mem_singleton.mp hg
      simp only [Roster.Event.filed, List.filter_cons, decide_true, if_true, List.filter_nil] at hlog
      simp only [Roster.Event.draft, if_true] at hd
      cases hr with
      | again _ hgrant => exact h.publish_found hd hgrant hlog rfl

theorem Step.sound (hs : Step k now l l') (h : l.Sound k now) : l'.Sound k (now + 1) := by
  cases hs with
  | draft t d hd =>
    cases d with
    | none => exact (h.drop t).later (Nat.le_succ _)
    | some x =>
      rcases hd x rfl with hsame | hfair
      · rw [← hsame, Function.update_eq_self]
        exact h.later (Nat.le_succ _)
      · exact h.write hfair
  | publish t e r hr hd => exact (h.publish hr hd).later (Nat.le_succ _)

end Ledger

end Chamneul
