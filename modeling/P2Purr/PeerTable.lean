import P2Purr.ServerRuns

namespace P2Purr
open Memory Runs

namespace Process

variable {s s' s₀ : Process} {fd : ℤ} {peer : PeerConnHandler}
  {ts : List (Transition Process Event)}

/-- The descriptor handed out is no open one, so that a peer found under it is disconnected. -/
theorem Sane.lookup_iff {e : Event} (h : Sane s) (hstep : Step s e s')
    (hmade : e.made = some (fd, peer)) :
    s'.sockToPeerMap.lookup fd = some peer ↔ fd ∉ s.disconnected := by
  have hchange := (hstep.change h.running).2
  cases hchange with
  | nothing _ _ _ => cases hmade
  | entered hfree hown hnew hmap hpoll hopen =>
    cases hmade
    rw [hmap, List.lookup_cons_self]
    simp only [true_iff]
    intro hgone
    obtain ⟨old, hold, -⟩ := mem_disconnected.mp hgone
    exact hnew (mem_keys hold)
  | met hfree hown hkey hmap hpoll hopen =>
    cases hmade
    -- a connected peer would hold its descriptor open, and the kernel would not hand it out
    have hclosed : ∀ old, (fd, old) ∈ s.sockToPeerMap → old.connActive = false := by
      intro old hold
      rw [← Bool.not_eq_true]
      intro hactive
      exact hfree.2 (h.active fd old hold hactive).2
    obtain ⟨⟨x, old⟩, hold, hfst⟩ := List.mem_map.mp hkey
    obtain rfl : x = fd := hfst
    have hgone : x ∈ s.disconnected := mem_disconnected.mpr ⟨old, hold, hclosed old hold⟩
    simp only [hgone, not_true_eq_false, iff_false]
    intro hfound
    rw [hmap] at hfound
    have hactive := hown.active
    -- the new peer is connected, and what is found is not
    rw [hclosed peer (mem_of_lookup hfound)] at hactive
    cases hactive
  | handled _ _ _ _ _ => cases hmade
  | removed _ _ _ _ => cases hmade

/-- In a run, each new peer is found under its descriptor, exactly when no descriptor handed out
for one is the number of a disconnected peer that is still in the table. -/
theorem lookup_made_iff (h₀ : Started s₀) (hrun : Run Step s₀ ts s) :
    (∀ t ∈ ts, ∀ fd peer, t.event.made = some (fd, peer) →
      t.after.sockToPeerMap.lookup fd = some peer) ↔
      ∀ t ∈ ts, ∀ fd peer, t.event.made = some (fd, peer) → fd ∉ t.before.disconnected := by
  have hsane := (hrun.invariant Sane h₀.sane fun _ _ _ => Sane.step).2
  apply forall₂_congr
  intro t ht
  apply forall₂_congr
  intro fd peer
  apply imp_congr_right
  exact fun hmade => (hsane t ht).1.lookup_iff (hsane t ht).2 hmade

theorem lookup_made_one :
    ∃ s ts, Run Step listener ts s ∧ (∃ t ∈ ts, t.event.made = some (4, newcomer 4)) ∧
      ∀ t ∈ ts, ∀ fd peer, t.event.made = some (fd, peer) →
        t.after.sockToPeerMap.lookup fd = some peer := by
  have hnil : Run Step listener [] listener := Run.nil
  have hrun := hnil.snoc
    (step_joined 4 ⟨by decide, by decide⟩ (by decide))
  refine ⟨_, _, hrun, ⟨_, List.mem_append_right _ (List.mem_singleton_self _), rfl⟩,
    (lookup_made_iff listener_started hrun).mpr ?_⟩
  intro t ht fd peer _
  rw [List.nil_append, List.mem_singleton] at ht
  rw [ht]
  exact List.not_mem_nil

/-- A client that gets the descriptor of a peer that has just gone is accepted and dropped. -/
theorem not_lookup_made_reused :
    ∃ s ts, Run Step listener ts s ∧ ∃ t ∈ ts, t.event.made = some (4, newcomer 4) ∧
      t.after.sockToPeerMap.lookup 4 ≠ some (newcomer 4) := by
  have hnil : Run Step listener [] listener := Run.nil
  have hrun := (hnil.snoc
    (step_joined 4 ⟨by decide, by decide⟩ (by decide))).snoc (step_left 4 rfl)
  have hrun := hrun.snoc (step_joined 4 ⟨by decide, by decide⟩ (by decide))
  refine ⟨_, _, hrun, _, List.mem_append_right _ (List.mem_singleton_self _), rfl, ?_⟩
  intro hfound
  have hactive := congrArg (Option.map PeerConnHandler.connActive) hfound
  exact absurd hactive (by decide)

end Process

end P2Purr
