import Chamneul.Spec.Models
import Mathlib.Logic.Function.Basic
import Mathlib.Data.List.Chain

/-! Who holds which role, which of their roles each user wears, and the trail kept
of it all. Nothing ties the three together but the steps. -/

namespace Chamneul

/-- The role an event of the trail is about, and whose. -/
def RoleGrant.office (g : RoleGrant) : Id × Role := (g.user, g.role)

structure Roster where
  holds : Id × Role → Bool
  wears : Id → Option ActiveRole
  enabled : Id → Bool
  trail : List RoleGrant

namespace Roster

inductive Event
  | stay
  | wear
  | gain (g : RoleGrant)
  | again (g : RoleGrant)
  | lose (g : RoleGrant)

/-- What an event adds to the trail. -/
def Event.filed : Event → List RoleGrant
  | .stay | .wear => []
  | .gain g | .again g | .lose g => [g]

/-- The events of one office, in the order they were filed. -/
def log (r : Roster) (k : Id × Role) : List RoleGrant := r.trail.filter fun g => decide (g.office = k)

/-- The steps of the roster. `again` files a grant of a role that stays as it is. -/
inductive Step (r : Roster) : Event → Roster → Prop
  | stay : Step r .stay r
  | wear (u : Id) (a : ActiveRole) (ha : a = .advisor → r.holds (u, .advisor) = true) :
      Step r .wear { r with wears := Function.update r.wears u ((r.wears u).map fun _ => a) }
  | gain (g : RoleGrant) (hg : g.action = .grant) (hfree : r.holds g.office = false) :
      Step r (.gain g)
        { r with holds := Function.update r.holds g.office true, trail := r.trail ++ [g] }
  | again (g : RoleGrant) (hg : g.action = .grant) : Step r (.again g) { r with trail := r.trail ++ [g] }
  | lose (g : RoleGrant) (hg : g.action = .revoke) (hheld : r.holds g.office = true)
      (hadmin : g.role = .admin →
        ∃ u ≠ g.user, r.holds (u, .admin) = true ∧ r.enabled u = true) :
      Step r (.lose g)
        { r with
          holds := Function.update r.holds g.office false
          wears := if g.role = .advisor
            then Function.update r.wears g.user ((r.wears g.user).map fun _ => .user) else r.wears
          trail := r.trail ++ [g] }

/-- Whoever wears ADVISOR holds it. -/
def Modest (r : Roster) : Prop := ∀ u, r.wears u = some .advisor → r.holds (u, .advisor) = true

/-- Some administrator can log in. -/
def Manned (r : Roster) : Prop := ∃ u, r.holds (u, .admin) = true ∧ r.enabled u = true

/-- Grants and revocations in turn, from a first grant to one that stands if the
role is held. -/
structure Alternates (actions : List RoleGrantAction) (held : Bool) : Prop where
  turns : actions.IsChain (· ≠ ·)
  first : ∀ a ∈ actions.head?, a = .grant
  last : held = true ↔ actions.getLast? = some .grant

/-- The trail of one office tells its whole story. -/
def Tells (r : Roster) (k : Id × Role) : Prop :=
  Alternates ((r.log k).map (·.action)) (r.holds k)

/-- What is filed about an office between `r` and `r'` is the change there was. -/
inductive Filed (r r' : Roster) (k : Id × Role) : Prop
  | nothing (hlog : r'.log k = r.log k) (hholds : r'.holds k = r.holds k)
  | grant (g : RoleGrant) (hg : g.action = .grant) (hlog : r'.log k = r.log k ++ [g])
      (hfree : r.holds k = false) (hheld : r'.holds k = true)
  | revoke (g : RoleGrant) (hg : g.action = .revoke) (hlog : r'.log k = r.log k ++ [g])
      (hheld : r.holds k = true) (hfree : r'.holds k = false)

/-- The events of an office carry times that increase, up to `t`. -/
structure Ordered (r : Roster) (k : Id × Role) (t : Time) : Prop where
  pairwise : (r.log k).Pairwise fun g g' => g.actedAt < g'.actedAt
  past : ∀ g ∈ r.log k, g.actedAt < t

/-- The latest event of an office. -/
def Latest (r : Roster) (k : Id × Role) (g : RoleGrant) : Prop :=
  g ∈ r.log k ∧ ∀ g' ∈ r.log k, g' ≠ g → g'.actedAt < g.actedAt

/-- The role is held or not, as the latest event of its trail says. -/
structure Agrees (r : Roster) (k : Id × Role) : Prop where
  held : r.holds k = true → ∃ g, r.Latest k g ∧ g.action = .grant
  lost : r.holds k = false → r.log k = [] ∨ ∃ g, r.Latest k g ∧ g.action = .revoke

variable {r r' : Roster} {e : Event} {k : Id × Role}

theorem Step.to {r₁ r₂ : Roster} (h : Step r e r₁) (he : r₂ = r₁) : Step r e r₂ := he ▸ h

theorem Step.modest (h : Step r e r') (hr : r.Modest) : r'.Modest := by
  intro u hu
  cases h with
  | stay => exact hr u hu
  | wear v a ha =>
    by_cases huv : u = v
    · subst huv
      simp only [Function.update_self, Option.map_eq_some_iff] at hu
      obtain ⟨_, -, rfl⟩ := hu
      exact ha rfl
    · simp only [Function.update_of_ne huv] at hu
      exact hr u hu
  | gain g hg hfree =>
    by_cases hk : (u, Role.advisor) = g.office
    · simp [hk]
    · simp only [Function.update_of_ne hk]
      exact hr u hu
  | again g hg => exact hr u hu
  | lose g hg hheld hadmin =>
    by_cases hk : (u, Role.advisor) = g.office
    · obtain ⟨rfl, hrole⟩ := Prod.mk.inj hk
      simp [← hrole] at hu
    · simp only [Function.update_of_ne hk]
      refine hr u ?_
      by_cases hrole : g.role = .advisor
      · have hne : u ≠ g.user := fun he => hk (by rw [RoleGrant.office, hrole, he])
        simpa [hrole, Function.update_of_ne hne] using hu
      · simpa [hrole] using hu

theorem Step.manned (h : Step r e r') (hr : r.Manned) : r'.Manned := by
  obtain ⟨u, hu, hact⟩ := hr
  cases h with
  | stay => exact ⟨u, hu, hact⟩
  | wear v a ha => exact ⟨u, hu, hact⟩
  | gain g hg hfree =>
    refine ⟨u, ?_, hact⟩
    by_cases hk : (u, Role.admin) = g.office
    · simp [hk]
    · simpa only [Function.update_of_ne hk] using hu
  | again g hg => exact ⟨u, hu, hact⟩
  | lose g hg hheld hadmin =>
    -- the revoked administrator is not the one who remains
    by_cases hrole : g.role = .admin
    · obtain ⟨v, hv, hheldv, hactv⟩ := hadmin hrole
      have hk : (v, Role.admin) ≠ g.office := fun he => hv (congrArg Prod.fst he)
      exact ⟨v, by simpa only [Function.update_of_ne hk] using hheldv, hactv⟩
    · have hk : (u, Role.admin) ≠ g.office := fun he => hrole (congrArg Prod.snd he).symm
      exact ⟨u, by simpa only [Function.update_of_ne hk] using hu, hact⟩

/-! The trail of one office. -/

theorem Step.trail (h : Step r e r') : r'.trail = r.trail ++ e.filed := by
  cases h <;> simp [Event.filed]

theorem Step.log (h : Step r e r') (k : Id × Role) :
    r'.log k = r.log k ++ e.filed.filter fun g => decide (g.office = k) := by
  rw [Roster.log, h.trail, List.filter_append, Roster.log]

/-- An event about another office is nothing to this one. -/
theorem Step.untouched (h : Step r e r') (hk : ∀ g ∈ e.filed, g.office ≠ k) :
    r'.log k = r.log k ∧ r'.holds k = r.holds k := by
  refine ⟨?_, ?_⟩
  · rw [h.log k, List.filter_eq_nil_iff.mpr fun g hg => by simpa using hk g hg, List.append_nil]
  · cases h with
    | stay | wear | again => rfl
    | gain g _ _ | lose g _ _ _ =>
      exact Function.update_of_ne (Ne.symm (hk g (List.mem_singleton_self g))) _ _

/-- Unless a grant is filed of a role that is held already, what is filed is the change. -/
theorem Step.filed (h : Step r e r') (hfresh : ∀ g, e = .again g → g.office ≠ k) : Filed r r' k := by
  have hlog := h.log k
  cases h with
  | stay => exact .nothing rfl rfl
  | wear u a ha => exact .nothing rfl rfl
  | gain g hg hfree =>
    by_cases hk : g.office = k
    · exact .grant g hg (by simpa [Event.filed, hk] using hlog) (hk ▸ hfree) (by simp [hk])
    · exact .nothing (by simpa [Event.filed, hk] using hlog) (Function.update_of_ne (Ne.symm hk) _ _)
  | again g hg => exact .nothing (by simpa [Event.filed, hfresh g rfl] using hlog) rfl
  | lose g hg hheld hadmin =>
    by_cases hk : g.office = k
    · exact .revoke g hg (by simpa [Event.filed, hk] using hlog) (hk ▸ hheld) (by simp [hk])
    · exact .nothing (by simpa [Event.filed, hk] using hlog) (Function.update_of_ne (Ne.symm hk) _ _)

theorem Alternates.grant {actions : List RoleGrantAction} (h : Alternates actions false) :
    Alternates (actions ++ [.grant]) true := by
  have hlast : actions.getLast? ≠ some .grant := fun hl => by simpa using h.last.mpr hl
  refine ⟨List.isChain_append.mpr ⟨h.turns, .singleton _, ?_⟩, ?_, by simp⟩
  · intro a ha b hb
    obtain rfl : b = .grant := by simpa using hb.symm
    rintro rfl
    exact hlast ha
  · cases actions with
    | nil => simp
    | cons a actions => simpa using h.first

theorem Alternates.revoke {actions : List RoleGrantAction} (h : Alternates actions true) :
    Alternates (actions ++ [.revoke]) false := by
  have hlast : actions.getLast? = some .grant := h.last.mp rfl
  refine ⟨List.isChain_append.mpr ⟨h.turns, .singleton _, ?_⟩, ?_, by simp⟩
  · intro a ha b hb
    obtain rfl : b = .revoke := by simpa using hb.symm
    obtain rfl : a = .grant := by simpa [hlast] using ha.symm
    simp
  · cases actions with
    | nil => simp at hlast
    | cons a actions => simpa using h.first

theorem Filed.tells (h : Filed r r' k) (ht : r.Tells k) : r'.Tells k := by
  unfold Tells at *
  cases h with
  | nothing hlog hholds => rwa [hlog, hholds]
  | grant g hg hlog hfree hheld =>
    rw [hfree] at ht
    rw [hlog, hheld, List.map_append, List.map_singleton, hg]
    exact .grant ht
  | revoke g hg hlog hheld hfree =>
    rw [hheld] at ht
    rw [hlog, hfree, List.map_append, List.map_singleton, hg]
    exact .revoke ht

theorem Filed.ordered {t t' : Time} (h : Filed r r' k) (ht : t ≤ t')
    (hnew : ∀ g, r'.log k = r.log k ++ [g] → t ≤ g.actedAt ∧ g.actedAt < t') (ho : r.Ordered k t) :
    r'.Ordered k t' := by
  have happend : ∀ g, r'.log k = r.log k ++ [g] → r'.Ordered k t' := by
    intro g hlog
    obtain ⟨hle, hlt⟩ := hnew g hlog
    constructor
    · rw [hlog, List.pairwise_append]
      refine ⟨ho.pairwise, List.pairwise_singleton _ g, fun x hx y hy => ?_⟩
      rw [List.mem_singleton.mp hy]
      exact (ho.past x hx).trans_le hle
    · intro x hx
      rw [hlog, List.mem_append, List.mem_singleton] at hx
      rcases hx with hx | rfl
      · exact (ho.past x hx).trans_le ht
      · exact hlt
  cases h with
  | nothing hlog _ =>
    constructor
    · rw [hlog]
      exact ho.pairwise
    · intro g hg
      rw [hlog] at hg
      exact (ho.past g hg).trans_le ht
  | grant g _ hlog _ _ => exact happend g hlog
  | revoke g _ hlog _ _ => exact happend g hlog

/-- An event later than all before it is the latest. -/
theorem latest_append {g : RoleGrant} (hlog : r'.log k = r.log k ++ [g])
    (hlate : ∀ g' ∈ r.log k, g'.actedAt < g.actedAt) : r'.Latest k g := by
  refine ⟨by simp [hlog], fun g' hg' hne => ?_⟩
  rw [hlog, List.mem_append, List.mem_singleton] at hg'
  exact hlate g' (hg'.resolve_right hne)

/-- The latest event stays the latest when an earlier one is filed. -/
theorem Latest.append {g g₀ : RoleGrant} (h : r.Latest k g₀) (hlog : r'.log k = r.log k ++ [g])
    (hlate : g.actedAt < g₀.actedAt) : r'.Latest k g₀ := by
  refine ⟨by simp [hlog, h.1], fun g' hg' hne => ?_⟩
  rw [hlog, List.mem_append, List.mem_singleton] at hg'
  rcases hg' with hg' | rfl
  · exact h.2 g' hg' hne
  · exact hlate

/-- The role is held exactly when its latest event is a grant. -/
theorem Agrees.holds_iff (h : r.Agrees k) :
    r.holds k = true ↔ ∃ g, r.Latest k g ∧ g.action = .grant := by
  refine ⟨h.held, fun ⟨g, hlast, hg⟩ => ?_⟩
  by_contra hr
  rcases h.lost (by simpa using hr) with hnil | ⟨g₀, hlast₀, hg₀⟩
  · have hmem := hlast.1
    rw [hnil] at hmem
    cases hmem
  · have hne : g ≠ g₀ := by
      rintro rfl
      rw [hg] at hg₀
      cases hg₀
    exact lt_asymm (hlast.2 g₀ hlast₀.1 hne.symm) (hlast₀.2 g hlast.1 hne)

/-- An office with events has a latest one. -/
theorem Agrees.latest (h : r.Agrees k) : r.log k = [] ∨ ∃ g, r.Latest k g := by
  cases hr : r.holds k with
  | true =>
    obtain ⟨g, hlast, -⟩ := h.held hr
    exact Or.inr ⟨g, hlast⟩
  | false => exact (h.lost hr).imp_right fun ⟨g, hlast, _⟩ => ⟨g, hlast⟩

/-- A change filed after all before it keeps the agreement. -/
theorem Filed.agrees (h : Filed r r' k)
    (hlate : ∀ g, r'.log k = r.log k ++ [g] → ∀ g' ∈ r.log k, g'.actedAt < g.actedAt)
    (ha : r.Agrees k) : r'.Agrees k := by
  cases h with
  | nothing hlog hholds =>
    constructor
    · intro hr
      simpa only [Latest, hlog] using ha.held (hholds ▸ hr)
    · intro hr
      simpa only [Latest, hlog] using ha.lost (hholds ▸ hr)
  | grant g hg hlog hfree hheld =>
    refine ⟨fun _ => ⟨g, latest_append hlog (hlate g hlog), hg⟩, fun hr => ?_⟩
    rw [hheld] at hr
    cases hr
  | revoke g hg hlog hheld hfree =>
    refine ⟨fun hr => ?_, fun _ => Or.inr ⟨g, latest_append hlog (hlate g hlog), hg⟩⟩
    rw [hfree] at hr
    cases hr

/-- So does a grant filed again, while the role is held or a later revocation stands. -/
theorem agrees_again {g : RoleGrant} (hg : g.action = .grant) (hlog : r'.log k = r.log k ++ [g])
    (hholds : r'.holds k = r.holds k) (hdistinct : ∀ g' ∈ r.log k, g'.actedAt ≠ g.actedAt)
    (hcover : r.holds k = true ∨ ∃ g' ∈ r.log k, g'.action = .revoke ∧ g.actedAt < g'.actedAt)
    (ha : r.Agrees k) : r'.Agrees k := by
  constructor
  · intro hr
    obtain ⟨g₀, hlast, hg₀⟩ := ha.held (hholds ▸ hr)
    rcases lt_or_gt_of_ne (hdistinct g₀ hlast.1) with hlt | hgt
    · refine ⟨g, latest_append hlog fun g' hg' => ?_, hg⟩
      by_cases hne : g' = g₀
      · rw [hne]
        exact hlt
      · exact (hlast.2 g' hg' hne).trans hlt
    · exact ⟨g₀, hlast.append hlog hgt, hg₀⟩
  · intro hr
    rw [hholds] at hr
    obtain ⟨g', hg', -, hlt⟩ := hcover.resolve_left (by simp [hr])
    rcases ha.lost hr with hnil | ⟨g₀, hlast, hg₀⟩
    · rw [hnil] at hg'
      cases hg'
    · refine Or.inr ⟨g₀, hlast.append hlog ?_, hg₀⟩
      by_cases hne : g' = g₀
      · rwa [hne] at hlt
      · exact hlt.trans (hlast.2 g' hg' hne)

end Roster

end Chamneul
