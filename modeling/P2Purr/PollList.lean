import P2Purr.ServerRuns

namespace P2Purr
open Memory Runs

namespace Process

/-- The poll list is the listening descriptor, and each key of the table once. -/
def Agrees (s : Process) : Prop :=
  ∃ rest, s.pollfdList = s.serverSockHelper.sock :: rest ∧ rest.Nodup ∧
    ∀ fd, fd ∈ rest ↔ fd ∈ s.keys

variable {s s' s₀ : Process} {fd : ℤ} {peer : PeerConnHandler}
  {ts : List (Transition Process Event)}

/-- The listening descriptor, and behind it keys of the table; the key of a connected peer is there
once. -/
def Polls (s : Process) : Prop :=
  ∃ rest, s.pollfdList = s.serverSockHelper.sock :: rest ∧ (∀ fd ∈ rest, fd ∈ s.keys) ∧
    ∀ fd peer, (fd, peer) ∈ s.sockToPeerMap → peer.connActive = true → rest.count fd = 1

theorem Polls.agrees (h : Polls s)
    (hall : ∀ fd peer, (fd, peer) ∈ s.sockToPeerMap → peer.connActive = true) : s.Agrees := by
  obtain ⟨rest, hpoll, hkeys, hcount⟩ := h
  have hone : ∀ fd ∈ s.keys, rest.count fd = 1 := by
    intro fd hfd
    obtain ⟨e, he, heq⟩ := List.mem_map.mp hfd
    rw [← heq]
    exact hcount e.1 e.2 he (hall e.1 e.2 he)
  refine ⟨rest, hpoll, ?_, ?_⟩
  · apply List.nodup_iff_count_le_one.mpr
    intro fd
    by_cases hfd : fd ∈ rest
    · exact (hone fd (hkeys fd hfd)).le
    · simp [List.count_eq_zero_of_not_mem hfd]
  · intro fd
    refine ⟨hkeys fd, ?_⟩
    intro hfd
    apply List.count_pos_iff.mp
    rw [hone fd hfd]
    exact Nat.one_pos

theorem Polls.opened (h : Polls s) (hsane : Sane s) (hstay : Stays s s') (hfree : s.Free fd)
    (hpoll : s'.pollfdList = s.pollfdList ++ [fd]) (hkey : fd ∈ s'.keys)
    (hkeys : ∀ x ∈ s.keys, x ∈ s'.keys)
    (hmem : ∀ x p, (x, p) ∈ s'.sockToPeerMap → (x, p) ∈ s.sockToPeerMap ∨ x = fd ∧ fd ∉ s.keys) :
    Polls s' := by
  obtain ⟨rest, hold, hin, hcount⟩ := h
  refine ⟨rest ++ [fd], by rw [hpoll, hold, hstay.listening]; rfl, ?_, ?_⟩
  · intro x hx
    rw [List.mem_append, List.mem_singleton] at hx
    cases hx with
    | inl hx => exact hkeys x (hin x hx)
    | inr hx => rwa [hx]
  · intro x p hp hactive
    rw [List.count_append]
    cases hmem x p hp with
    | inl hp =>
      -- a connected peer's descriptor is open, so that it is not handed out
      have hne : fd ≠ x := by
        intro heq
        exact hfree.2 (heq ▸ (hsane.active x p hp hactive).2)
      rw [hcount x p hp hactive, List.count_singleton, if_neg (by simpa using hne)]
    | inr hnew =>
      rw [hnew.1, List.count_eq_zero_of_not_mem fun hfd => hnew.2 (hin fd hfd)]
      simp

theorem Polls.handled (h : Polls s) (hstay : Stays s s') {peer' : PeerConnHandler}
    (hold : (fd, peer) ∈ s.sockToPeerMap)
    (hmap : s'.sockToPeerMap = replacePeer fd peer' s.sockToPeerMap)
    (hpoll : s'.pollfdList = s.pollfdList) (hown : ∀ x, peer'.Owns x → peer.Owns x) : Polls s' := by
  obtain ⟨rest, hrest, hin, hcount⟩ := h
  refine ⟨rest, by rw [hpoll, hrest, hstay.listening], ?_, ?_⟩
  · unfold keys
    rw [hmap, map_fst_replacePeer]
    exact hin
  · rw [hmap]
    intro x p hp hactive
    cases mem_replacePeer hp with
    | inl hsame =>
      rw [hsame.2] at hactive
      rw [hsame.1]
      exact hcount fd peer hold (hown _ ⟨rfl, hactive⟩).active
    | inr hother => exact hcount x p hother.2 hactive

section Pass

variable {order : List (ℤ × PeerConnHandler)} {e : ℤ × PeerConnHandler} {x : ℤ}
  {p : PeerConnHandler}

theorem mem_keys_or_gone (horder : order.Perm s.sockToPeerMap)
    (hmap : s'.sockToPeerMap = order.filter fun e => e.2.connActive) (hx : x ∈ s.keys) :
    x ∈ s'.keys ∨ ∃ e ∈ order.filter fun e => !e.2.connActive, e.1 = x := by
  obtain ⟨e, he, heq⟩ := List.mem_map.mp hx
  have hmem := horder.mem_iff.mpr he
  cases hactive : e.2.connActive with
  | true =>
    left
    unfold keys
    rw [hmap, ← heq]
    exact List.mem_map_of_mem (List.mem_filter.mpr ⟨hmem, hactive⟩)
  | false => exact Or.inr ⟨e, List.mem_filter.mpr ⟨hmem, by simp [hactive]⟩, heq⟩

theorem mem_of_mem_kept (horder : order.Perm s.sockToPeerMap)
    (hmap : s'.sockToPeerMap = order.filter fun e => e.2.connActive)
    (hp : (x, p) ∈ s'.sockToPeerMap) : (x, p) ∈ s.sockToPeerMap ∧ p.connActive = true := by
  rw [hmap] at hp
  exact ⟨horder.mem_iff.mp (List.mem_filter.mp hp).1, (List.mem_filter.mp hp).2⟩

theorem mem_of_mem_gone (horder : order.Perm s.sockToPeerMap)
    (he : e ∈ order.filter fun e => !e.2.connActive) :
    e ∈ s.sockToPeerMap ∧ e.2.connActive = false := by
  refine ⟨horder.mem_iff.mp (List.mem_filter.mp he).1, ?_⟩
  simpa using (List.mem_filter.mp he).2

theorem ne_of_mem_gone (hsane : Sane s) (horder : order.Perm s.sockToPeerMap)
    (he : e ∈ order.filter fun e => !e.2.connActive) (hp : (x, p) ∈ s.sockToPeerMap)
    (hactive : p.connActive = true) : x ≠ e.1 := by
  intro heq
  obtain ⟨hmem, hinactive⟩ := mem_of_mem_gone horder he
  rw [heq] at hp
  rw [← hsane.unique hp hmem, hactive] at hinactive
  exact Bool.noConfusion hinactive

/-- One disconnected peer at most, and the pass brings the poll list up to date. -/
theorem Polls.removed (h : Polls s) (hsane : Sane s) (hstay : Stays s s')
    (horder : order.Perm s.sockToPeerMap)
    (hmap : s'.sockToPeerMap = order.filter fun e => e.2.connActive)
    (hpoll : s'.pollfdList = scanAll ((order.filter fun e => !e.2.connActive).map Prod.fst) []
      s.pollfdList)
    (hone : s.disconnected.length ≤ 1) : Polls s' := by
  obtain ⟨rest, hrest, hin, hcount⟩ := h
  have hlen : (order.filter fun e => !e.2.connActive).length ≤ 1 := by
    rw [(horder.filter fun e => !e.2.connActive).length_eq]
    simpa [disconnected] using hone
  have hstill : ∀ x ∈ rest, x ∈ s'.keys ∨ ∃ e ∈ order.filter fun e => !e.2.connActive, e.1 = x :=
    fun x hx => mem_keys_or_gone horder hmap (hin x hx)
  have hdiff : ∀ e ∈ order.filter fun e => !e.2.connActive, ∀ x p, (x, p) ∈ s'.sockToPeerMap →
      x ≠ e.1 := by
    intro e he x p hp
    obtain ⟨hold, hactive⟩ := mem_of_mem_kept horder hmap hp
    exact ne_of_mem_gone hsane horder he hold hactive
  cases hgone : order.filter fun e => !e.2.connActive with
  | nil =>
    rw [hgone] at hpoll hstill
    refine ⟨rest, by rw [hpoll, hstay.listening, ← hrest]; rfl, ?_, ?_⟩
    · intro x hx
      simpa using hstill x hx
    · intro x p hp hactive
      exact hcount x p (mem_of_mem_kept horder hmap hp).1 hactive
  | cons e others =>
    have hothers : others = [] := by
      rw [hgone, List.length_cons] at hlen
      exact List.eq_nil_of_length_eq_zero (by omega)
    have he : e ∈ order.filter fun e => !e.2.connActive := by simp [hgone]
    rw [hgone, hothers] at hpoll hstill
    have hlisten : s.serverSockHelper.sock ≠ e.1 :=
      (hsane.key e.1 (mem_keys (mem_of_mem_gone horder he).1)).2.1.symm
    have hnonneg := hsane.nonneg
    -- the scan takes the key of the disconnected peer, and -1
    refine ⟨rest.filter fun x => decide (x ≠ e.1 ∧ x ≠ -1), ?_, ?_, ?_⟩
    · rw [hpoll, List.map_cons, scanAll_cons, hrest, hstay.listening, List.filter_cons]
      apply if_pos
      have hne : s.serverSockHelper.sock ≠ -1 := by omega
      simp [hlisten, hne]
    · intro x hx
      obtain ⟨hx, hne⟩ := List.mem_filter.mp hx
      apply (hstill x hx).resolve_right
      intro hsame
      simp only [List.mem_singleton, exists_eq_left] at hsame
      simp [hsame] at hne
    · intro x p hp hactive
      have hold := (mem_of_mem_kept horder hmap hp).1
      have hkey := (hsane.key x (mem_keys hold)).1
      have hnone : x ≠ -1 := by omega
      rw [List.count_filter, hcount x p hold hactive]
      simp [hdiff e he x p hp, hnone]

/-- After a pass that meets two disconnected peers, the second is still polled. -/
theorem length_disconnected_of_agrees (hsane : Sane s) (hstay : Stays s s')
    (horder : order.Perm s.sockToPeerMap)
    (hmap : s'.sockToPeerMap = order.filter fun e => e.2.connActive)
    (hpoll : s'.pollfdList = scanAll ((order.filter fun e => !e.2.connActive).map Prod.fst) []
      s.pollfdList)
    (hagrees : s'.Agrees) : s.disconnected.length ≤ 1 := by
  have hlen : s.disconnected.length = (order.filter fun e => !e.2.connActive).length := by
    rw [(horder.filter fun e => !e.2.connActive).length_eq]
    simp [disconnected]
  have hnodup : (order.map Prod.fst).Nodup := (horder.map Prod.fst).nodup_iff.mpr hsane.nodup
  rw [hlen]
  by_contra hmany
  cases hgone : order.filter fun e => !e.2.connActive with
  | nil => simp [hgone] at hmany
  | cons e others =>
    cases others with
    | nil => simp [hgone] at hmany
    | cons e' others =>
      have he' : e' ∈ order.filter fun e => !e.2.connActive := by simp [hgone]
      obtain ⟨hmem, -⟩ := mem_of_mem_gone horder he'
      have hdiff : e'.1 ≠ e.1 := by
        have hsub := hnodup.sublist
          (List.filter_sublist (p := fun e => !e.2.connActive).map Prod.fst)
        rw [hgone] at hsub
        intro heq
        simp [heq] at hsub
      have hkey := hsane.key e'.1 (mem_keys hmem)
      have hnone : e'.1 ≠ -1 := by omega
      obtain ⟨rest, hrest, -, hiff⟩ := hagrees
      have hstill : e'.1 ∈ s'.pollfdList := by
        rw [hpoll, hgone, List.map_cons, scanAll_cons, List.mem_filter]
        exact ⟨hkey.2.2, by simp [hdiff, hnone]⟩
      rw [hrest, hstay.listening, List.mem_cons] at hstill
      have hkeep := (hiff e'.1).mp (hstill.resolve_left hkey.2.1)
      -- but it is not in the table any more
      obtain ⟨q, hq, heq⟩ := List.mem_map.mp hkeep
      obtain ⟨hold, hactive⟩ := mem_of_mem_kept horder hmap hq
      exact ne_of_mem_gone hsane horder he' hold hactive heq

end Pass

theorem Polls.step {e : Event} (h : Polls s) (hsane : Sane s) (hstep : Step s e s')
    (hone : e.op.IsRemoval → s.disconnected.length ≤ 1) : Polls s' := by
  obtain ⟨hstay, hchange⟩ := hstep.change hsane.running
  cases hchange with
  | nothing hmap hpoll hopen =>
    unfold Polls keys
    rw [hpoll, hmap, hstay.listening]
    exact h
  | entered hfree hown hnew hmap hpoll hopen =>
    refine h.opened hsane hstay hfree hpoll ?_ ?_ ?_
    · simp [keys, hmap]
    · intro x hx
      simpa [keys, hmap] using Or.inr hx
    · rw [hmap]
      intro x p hp
      cases List.mem_cons.mp hp with
      | inl heq => exact Or.inr ⟨(Prod.mk.inj heq).1, hnew⟩
      | inr hp => exact Or.inl hp
  | met hfree hown hkey hmap hpoll hopen =>
    have hkeys : s'.keys = s.keys := congrArg (List.map Prod.fst) hmap
    apply h.opened hsane hstay hfree hpoll (by rwa [hkeys]) (by simp [hkeys])
    rw [hmap]
    exact fun x p hp => Or.inl hp
  | handled hold hmap hpoll hown hopen => exact h.handled hstay hold hmap hpoll hown
  | removed horder hmap hpoll hopen =>
    exact h.removed hsane hstay horder hmap hpoll (hone trivial)

theorem Started.polls (h : Started s) : Polls s := by
  obtain ⟨-, -, hmap, hpoll, -⟩ := h.start
  exact ⟨[], hpoll, by simp, by simp [hmap]⟩

theorem Step.removal {e : Event} (hrun : s.isLocalServerRunning = true) (h : Step s e s')
    (hremoval : e.op.IsRemoval) :
    ∃ order : List (ℤ × PeerConnHandler), order.Perm s.sockToPeerMap ∧
      s'.sockToPeerMap = (order.filter fun e => e.2.connActive) ∧
      s'.pollfdList = scanAll ((order.filter fun e => !e.2.connActive).map Prod.fst) []
        s.pollfdList := by
  cases h with
  | handleNewClient _ _ => exact hremoval.elim
  | connectToPeer _ _ => exact hremoval.elim
  | handleClientCommunications _ => exact hremoval.elim
  | @removeDisconnectedPeers order horder =>
    unfold Process.removeDisconnectedPeers
    rw [hrun, sweep_eq]
    exact ⟨order, horder, rfl, rfl⟩

/-- The poll list agrees with the table after every pass of a run, exactly when no pass meets two
disconnected peers. -/
theorem agrees_iff (h₀ : Started s₀) (hrun : Run Step s₀ ts s) :
    (∀ t ∈ ts, t.event.op.IsRemoval → t.after.Agrees) ↔
      ∀ t ∈ ts, t.event.op.IsRemoval → t.before.disconnected.length ≤ 1 := by
  constructor
  · intro hagrees t ht hremoval
    obtain ⟨hsane, hstep⟩ := (hrun.invariant Sane h₀.sane fun _ _ _ => Sane.step).2 t ht
    obtain ⟨order, horder, hmap, hpoll⟩ := hstep.removal hsane.running hremoval
    exact length_disconnected_of_agrees hsane (hstep.change hsane.running).1 horder hmap hpoll
      (hagrees t ht hremoval)
  · intro hone t ht hremoval
    have hkeep : ∀ s e s', Sane s ∧ Polls s → Step s e s' →
        (e.op.IsRemoval → s.disconnected.length ≤ 1) → Sane s' ∧ Polls s' :=
      fun s e s' h hstep hle => ⟨h.1.step hstep, h.2.step h.1 hstep hle⟩
    obtain ⟨⟨hsane, hpolls⟩, hstep⟩ := (hrun.keeps (fun s => Sane s ∧ Polls s)
      (fun t => t.event.op.IsRemoval → t.before.disconnected.length ≤ 1) ⟨h₀.sane, h₀.polls⟩ hkeep
      hone).2 t ht
    obtain ⟨order, -, hmap, -⟩ := hstep.removal hsane.running hremoval
    refine (hpolls.step hsane hstep fun _ => hone t ht hremoval).agrees ?_
    rw [hmap]
    exact fun _ _ hp => (List.mem_filter.mp hp).2

theorem agrees_one :
    ∃ s ts, Run Step listener ts s ∧ (∃ t ∈ ts, t.event.op.IsRemoval) ∧
      ∀ t ∈ ts, t.event.op.IsRemoval → t.after.Agrees := by
  have hnil : Run Step listener [] listener := Run.nil
  have hrun := hnil.snoc
    (step_joined 4 ⟨by decide, by decide⟩ (by decide))
  have hrun := (hrun.snoc (step_left 4 rfl)).snoc (Step.removeDisconnectedPeers (List.Perm.refl _))
  refine ⟨_, _, hrun, ⟨_, List.mem_append_right _ (List.mem_singleton_self _), trivial⟩,
    (agrees_iff listener_started hrun).mpr ?_⟩
  simp only [List.nil_append, List.cons_append, List.mem_cons, List.not_mem_nil, or_false,
    forall_eq_or_imp, forall_eq, Op.IsRemoval, false_implies, true_and, forall_const]
  decide

/-- Two peers go at once, and one of them is polled for ever. -/
theorem not_agrees_two :
    ∃ s ts, Run Step listener ts s ∧ ∃ t ∈ ts, t.event.op.IsRemoval ∧ ¬ t.after.Agrees := by
  have hnil : Run Step listener [] listener := Run.nil
  have hrun := (hnil.snoc
    (step_joined 4 ⟨by decide, by decide⟩ (by decide))).snoc
    (step_joined 5 ⟨by decide, by decide⟩ (by decide))
  have hrun := ((hrun.snoc (step_left 4 rfl)).snoc (step_left 5 rfl)).snoc
    (Step.removeDisconnectedPeers (List.Perm.refl _))
  refine ⟨_, _, hrun, _, List.mem_append_right _ (List.mem_singleton_self _), trivial, ?_⟩
  rintro ⟨rest, hpoll, -, hiff⟩
  have hrest : [4] = rest := List.tail_eq_of_cons_eq hpoll
  have hfour := (hiff 4).mp (by simp [← hrest])
  exact absurd hfour (by decide)

end Process

end P2Purr
