import Chamneul.Store.Sessions
import Chamneul.Store.Locking

/-! Changes that wait for their commit. What holds of a change when it is made, and is protected
by the locks it takes, holds until it is committed. -/

namespace ReadCommitted

variable {D K W ε : Type} {S : System D K W ε} [Engine D K W] [Guarded D] [DecidableEq K]

/-- `F` relates a change to the committed rows. -/
theorem Config.Reaches.pending {ok : Config S → Event S → Prop} {σ : World D} {F : Env → W → D → Prop}
    (hmade : ∀ {c t uuid s stmt n}, Reaches ok (idle σ) c → c.slot t = some s →
      s.prog = .write stmt n → (stmt (c.world.view s.writes)).any
        (Engine.violates (c.world.view s.writes) ⟨c.world.now, uuid⟩) = false →
      ∀ x ∈ stmt (c.world.view s.writes), F ⟨c.world.now, uuid⟩ x c.world.db)
    (hkept : ∀ {e x db db'}, (∀ k ∈ Engine.locks D e x, Guarded.keeps k db db') → F e x db → F e x db')
    {c : Config S} (h : Reaches ok (idle σ) c) {t : ℕ} {s : Session S} (hs : c.slot t = some s) :
    ∀ p ∈ s.writes, F p.1 p.2 c.world.db := by
  refine h.assertions (I := fun s db => ∀ p ∈ s.writes, F p.1 p.2 db) ?_ ?_ ?_ hs
  · intro s db hfresh
    rw [hfresh.writes]
    simp
  · intro c c' t uuid s s' hr _ hs hold ht hs' p hm
    obtain ⟨hworld, hm⟩ := ht.mem_writes hs' hm
    rw [hworld]
    obtain hm | ⟨stmt, n, x, hp, hv, hx, rfl⟩ := hm
    · exact hold p hm
    · exact hmade hr hs hp hv x hx
  · intro c t t' uuid s s' n hr _ hne hs hs' _ hold p hm
    have htidy := (Tidy.idle σ).reaches hr
    refine hkept (fun k hk => ?_) (hold p hm)
    exact htidy.keeps (Ne.symm hne) hs' (htidy.locked t s hs p hm k hk)

end ReadCommitted
