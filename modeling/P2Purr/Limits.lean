import P2Purr.ServerRuns

namespace P2Purr
open Memory Runs

namespace Process

def limited (M : ℕ) (s : Process) : Process :=
  { s with maxInboundConnections := M, maxOutboundConnections := M }

/-- Nothing is left of a client that was refused. -/
structure TurnedAway (s : Process) (fd : ℤ) : Prop where
  closed : fd ∉ s.openFds
  table : fd ∉ s.keys
  polled : fd ∉ s.pollfdList

def Refuses (t : Transition Process Event) (a : Accepting) : Prop :=
  t.event = ⟨.handleNewClient a, none⟩

/-- The table never holds more than `M` peers, and refused clients are gone. -/
structure RespectsLimit (M : ℕ) (ts : List (Transition Process Event)) : Prop where
  room : ∀ t ∈ ts, t.after.sockToPeerMap.length ≤ M
  refused : ∀ t ∈ ts, ∀ a, Refuses t a → TurnedAway t.after a.sock

/-- A client comes under a new descriptor while the table holds as many peers as it may. -/
def Overfills (M : ℕ) (t : Transition Process Event) : Prop :=
  ∃ a, t.event.op = .handleNewClient a ∧ t.before.sockToPeerMap.length = M ∧
    a.sock ∉ t.before.keys

variable {s s' s₀ : Process} {fd : ℤ} {e : Event} {M : ℕ} {ts : List (Transition Process Event)}

structure Bounded (M : ℕ) (s : Process) : Prop where
  running : s.isLocalServerRunning = true
  inbound : s.maxInboundConnections = M
  outbound : s.maxOutboundConnections = M

theorem bounded_limited (h : Started s₀) (M : ℕ) : Bounded M (s₀.limited M) :=
  ⟨h.start.1, rfl, rfl⟩

theorem Bounded.of_server (h : Bounded M s) (hserver : s'.toP2PurrServer = s.toP2PurrServer) :
    Bounded M s' :=
  ⟨by rw [hserver, h.running], by rw [hserver, h.inbound], by rw [hserver, h.outbound]⟩

theorem Bounded.enter {peer : PeerConnHandler} {k : CloseResult} (h : Bounded M s) :
    Bounded M (s.enter fd peer k) := by
  cases hold : s.sockToPeerMap.lookup fd with
  | none =>
    rw [enter_of_none hold]
    exact ⟨h.running, h.inbound, h.outbound⟩
  | some old =>
    rw [enter_of_some hold]
    have hadd : Bounded M (s.addFdToWatchList fd) := ⟨h.running, h.inbound, h.outbound⟩
    exact hadd.of_server (destroy_toP2PurrServer _ _ _)

theorem Bounded.opened {made : Option (ℤ × PeerConnHandler)} (h : Bounded M s)
    (hopened : Opened s fd made s') : Bounded M s' := by
  cases hopened with
  | nothing hserver _ => exact h.of_server hserver
  | entered _ =>
    have hopen : Bounded M { s with openFds := fd :: s.openFds } :=
      ⟨h.running, h.inbound, h.outbound⟩
    exact hopen.enter

theorem Bounded.step (h : Bounded M s) (hstep : Step s e s') : Bounded M s' := by
  cases hstep with
  | handleNewClient hfree hcall => exact h.opened (handleNewClient_opened hcall)
  | connectToPeer hfree hcall => exact h.opened (connectToPeer_opened hcall)
  | @handleClientCommunications fd r s' call hcall =>
    cases hold : s.sockToPeerMap.lookup fd with
    | none =>
      rw [handleClientCommunications_of_none hold] at hcall
      rw [← (Prod.mk.inj (Except.ok.inj hcall)).1]
      exact h
    | some peer =>
      rw [handleClientCommunications_of_lookup hold] at hcall
      obtain ⟨⟨t, pkt⟩, -, hs'⟩ := bind_eq_ok.mp hcall
      rw [← (Prod.mk.inj (Except.ok.inj hs')).1]
      apply Bounded.of_server _ (released_toP2PurrServer _ _ _)
      exact ⟨h.running, h.inbound, h.outbound⟩
  | removeDisconnectedPeers horder =>
    unfold removeDisconnectedPeers
    split
    · exact h
    · exact ⟨h.running, h.inbound, h.outbound⟩

theorem Bounded.room {peer : PeerConnHandler} (h : Bounded M s) (hstep : Step s e s')
    (hmade : e.made = some (fd, peer)) :
    s.sockToPeerMap.length < M ∨
      s.sockToPeerMap.length = M ∧ ∃ a, e.op = .handleNewClient a ∧ a.sock = fd := by
  cases hstep with
  | @handleNewClient a s' made hfree hcall =>
    obtain ⟨-, -, peer', -, hends⟩ := handleNewClient_ok hcall
    rw [h.inbound] at hends
    cases hends with
    | inl hrefused =>
      have hsame : none = some (fd, peer) := hrefused.2.1.symm.trans hmade
      cases hsame
    | inr hentered =>
      have hsame : some (a.sock, peer') = some (fd, peer) := hentered.2.1.symm.trans hmade
      have hsock := (Prod.mk.inj (Option.some.inj hsame)).1
      exact (Nat.lt_or_eq_of_le hentered.1).imp_right fun hfull => ⟨hfull, a, rfl, hsock⟩
  | @connectToPeer host port a s' made hfree hcall =>
    have hsome : made = some (fd, peer) := hmade
    obtain hrefused | ⟨e, helper, hnone, -⟩ | ⟨hroom, -⟩ := connectToPeer_ok hcall
    · rw [hrefused.1] at hsome
      cases hsome
    · rw [hnone] at hsome
      cases hsome
    · rw [h.outbound] at hroom
      exact Or.inl hroom
  | handleClientCommunications hcall => cases hmade
  | removeDisconnectedPeers horder => cases hmade

/-- The table grows by one peer at most, and at the limit only in the one way. -/
theorem Bounded.length_step (h : Bounded M s) (hstep : Step s e s') :
    s'.sockToPeerMap.length ≤ s.sockToPeerMap.length ∨
      s'.sockToPeerMap.length = s.sockToPeerMap.length + 1 ∧
        (s.sockToPeerMap.length < M ∨ Overfills M ⟨s, e, s'⟩) := by
  have hchange := (hstep.change h.running).2
  cases hchange with
  | nothing hmap hpoll hopen => exact Or.inl (by rw [hmap])
  | @entered op fd peer hfree hown hnew hmap hpoll hopen =>
    refine Or.inr ⟨by rw [hmap, List.length_cons], (h.room hstep rfl).imp_right ?_⟩
    rintro ⟨hfull, a, hop, hsock⟩
    exact ⟨a, hop, hfull, by rwa [hsock]⟩
  | met hfree hown hkey hmap hpoll hopen => exact Or.inl (by rw [hmap])
  | handled hold hmap hpoll hown hopen =>
    left
    rw [hmap, replacePeer, List.length_map]
  | removed horder hmap hpoll hopen =>
    left
    rw [hmap, ← horder.length_eq]
    exact List.length_filter_le _ _

theorem Bounded.overfilled (h : Bounded M s) (hstep : Step s e s')
    (hover : Overfills M ⟨s, e, s'⟩) : s'.sockToPeerMap.length = M + 1 := by
  obtain ⟨a, hop, hfull, hnew⟩ := hover
  cases hstep with
  | @handleNewClient a' s' made hfree hcall =>
    obtain rfl : a' = a := Op.handleNewClient.inj hop
    obtain ⟨-, -, peer, -, hends⟩ := handleNewClient_ok hcall
    rw [h.inbound] at hends
    cases hends with
    | inl hrefused =>
      have hlt := hrefused.1
      simp only at hfull
      omega
    | inr hentered =>
      have hnone : s.sockToPeerMap.lookup a'.sock = none := by
        cases hold : s.sockToPeerMap.lookup a'.sock with
        | none => rfl
        | some old => exact absurd (mem_keys (mem_of_lookup hold)) hnew
      rw [hentered.2.2, enter_of_none (by exact hnone)]
      simpa using hfull
  | connectToPeer hfree hcall => cases hop
  | handleClientCommunications hcall => cases hop
  | removeDisconnectedPeers horder => cases hop

/-- The server itself is as before, and the socket is closed unless `close` fails twice. -/
theorem refused_spec {a : Accepting} (h : s.handleNewClient a = .ok (s', none)) :
    s.maxInboundConnections < s.sockToPeerMap.length ∧ s'.toP2PurrServer = s.toP2PurrServer ∧
      (a.sock ∉ s'.openFds ↔ a.close.close = true ∨ a.destroy.close = true) := by
  obtain ⟨hsock, -, peer, hpeer, hends⟩ := handleNewClient_ok h
  have hhelper := (PeerConnHandler.create_inv hpeer).2.2
  rw [if_neg hsock] at hhelper
  cases hends with
  | inr hentered => cases hentered.2.1
  | inl hrefused =>
    refine ⟨hrefused.1, by rw [hrefused.2.2]; simp, ?_⟩
    rw [hrefused.2.2, PeerConnHandler.close, hhelper]
    cases hclose : a.close.close <;> cases hdestroy : a.destroy.close <;>
      simp [destroy, released, SocketHelper.closeSock, SocketHelper.fresh, hclose, hdestroy]

theorem Bounded.length_le (h : Bounded M s) (hle : s.sockToPeerMap.length ≤ M)
    (hstep : Step s e s') (hnot : ¬ Overfills M ⟨s, e, s'⟩) : s'.sockToPeerMap.length ≤ M := by
  cases h.length_step hstep with
  | inl hless => exact hless.trans hle
  | inr hmore =>
    have hlt := hmore.2.resolve_right hnot
    omega

theorem limited_empty (h : Started s₀) (M : ℕ) : (s₀.limited M).sockToPeerMap.length = 0 :=
  congrArg List.length h.start.2.2.1

theorem length_le_succ (h₀ : Started s₀) (hrun : Run Step (s₀.limited M) ts s) :
    s.sockToPeerMap.length ≤ M + 1 ∧
      ∀ t ∈ ts, Bounded M t.before ∧ t.before.sockToPeerMap.length ≤ M + 1 ∧
        Step t.before t.event t.after := by
  have hrun := hrun.invariant (fun s => Bounded M s ∧ s.sockToPeerMap.length ≤ M + 1)
    ⟨bounded_limited h₀ M, by rw [limited_empty h₀]; omega⟩ ?_
  · exact ⟨hrun.1.2, fun t ht => and_assoc.mp (hrun.2 t ht)⟩
  · intro s e s' hs hstep
    refine ⟨hs.1.step hstep, ?_⟩
    cases hs.1.length_step hstep with
    | inl hless => exact hless.trans hs.2
    | inr hmore =>
      cases hmore.2 with
      | inl hlt => omega
      | inr hover =>
        obtain ⟨a, -, hfull, -⟩ := hover
        simp only at hfull
        omega

/-- Without a client too many, the table keeps to the limit. -/
theorem length_le_of_not_overfills (h₀ : Started s₀) (hrun : Run Step (s₀.limited M) ts s)
    (hnot : ∀ t ∈ ts, ¬ Overfills M t) :
    ∀ t ∈ ts, t.before.sockToPeerMap.length ≤ M ∧ t.after.sockToPeerMap.length ≤ M := by
  have hkeeps := hrun.keeps (fun s => Bounded M s ∧ s.sockToPeerMap.length ≤ M)
    (fun t => ¬ Overfills M t) ⟨bounded_limited h₀ M, by rw [limited_empty h₀]; omega⟩
    (fun s e s' hs hstep hone => ⟨hs.1.step hstep, hs.1.length_le hs.2 hstep hone⟩) hnot
  intro t ht
  obtain ⟨⟨hbounded, hle⟩, hstep⟩ := hkeeps.2 t ht
  exact ⟨hle, hbounded.length_le hle hstep (hnot t ht)⟩

theorem Refuses.call {t : Transition Process Event} {a : Accepting} (h : Refuses t a)
    (hstep : Step t.before t.event t.after) : t.before.handleNewClient a = .ok (t.after, none) := by
  obtain ⟨before, event, after⟩ := t
  obtain rfl : event = ⟨.handleNewClient a, none⟩ := h
  cases hstep with
  | handleNewClient hfree hcall => exact hcall

theorem refused_in_run (h₀ : Started s₀) (hrun : Run Step (s₀.limited M) ts s)
    {t : Transition Process Event} (ht : t ∈ ts) {a : Accepting} (hrefuses : Refuses t a) :
    t.before.sockToPeerMap.length = M + 1 ∧ t.after.toP2PurrServer = t.before.toP2PurrServer ∧
      (a.sock ∉ t.after.openFds ↔ a.close.close = true ∨ a.destroy.close = true) := by
  obtain ⟨hbounded, hle, hstep⟩ := (length_le_succ h₀ hrun).2 t ht
  obtain ⟨hfull, hserver, hclosed⟩ := refused_spec (hrefuses.call hstep)
  rw [hbounded.inbound] at hfull
  exact ⟨by omega, hserver, hclosed⟩

/-- The limit is respected in exactly those runs in which no client comes under a new descriptor
while the table holds `M` peers.  A client is refused when there are `M + 1`, and leaves the server
as it was. -/
theorem respectsLimit_iff (h₀ : Started s₀) (hrun : Run Step (s₀.limited M) ts s) :
    (RespectsLimit M ts ↔ ∀ t ∈ ts, ¬ Overfills M t) ∧
    ∀ t ∈ ts, ∀ a, Refuses t a →
      t.before.sockToPeerMap.length = M + 1 ∧ t.after.toP2PurrServer = t.before.toP2PurrServer ∧
        (a.sock ∉ t.after.openFds ↔ a.close.close = true ∨ a.destroy.close = true) := by
  refine ⟨⟨fun h t ht hover => ?_, fun hnot => ?_⟩, fun t ht a => refused_in_run h₀ hrun ht⟩
  · obtain ⟨hbounded, -, hstep⟩ := (length_le_succ h₀ hrun).2 t ht
    have hmore := hbounded.overfilled hstep hover
    have hroom := h.room t ht
    omega
  · have hle := length_le_of_not_overfills h₀ hrun hnot
    refine ⟨fun t ht => (hle t ht).2, fun t ht a hrefuses => ?_⟩
    have hfull := (refused_in_run h₀ hrun ht hrefuses).1
    have hroom := (hle t ht).1
    omega

theorem respectsLimit_one :
    ∃ s ts, Run Step (listener.limited 1) ts s ∧ s.sockToPeerMap.length = 1 ∧
      RespectsLimit 1 ts := by
  have hnil : Run Step (listener.limited 1) [] (listener.limited 1) := Run.nil
  have hrun := hnil.snoc (step_joined 4 ⟨by decide, by decide⟩ (by decide))
  refine ⟨_, _, hrun, rfl, (respectsLimit_iff listener_started hrun).1.mpr ?_⟩
  intro t ht hover
  rw [List.nil_append, List.mem_singleton] at ht
  obtain ⟨a, -, hfull, -⟩ := hover
  rw [ht] at hfull
  cases hfull

/-- The second client is let in as well. -/
theorem not_respectsLimit_one :
    ∃ s ts, Run Step (listener.limited 1) ts s ∧ s.sockToPeerMap.length = 2 ∧
      ¬ RespectsLimit 1 ts := by
  have hnil : Run Step (listener.limited 1) [] (listener.limited 1) := Run.nil
  have hrun := (hnil.snoc (step_joined 4 ⟨by decide, by decide⟩ (by decide))).snoc
    (step_joined 5 ⟨by decide, by decide⟩ (by decide))
  refine ⟨_, _, hrun, rfl, fun h => ?_⟩
  have hroom := h.room _ (List.mem_append_right _ (List.mem_singleton_self _))
  exact absurd hroom (by decide)

end Process

end P2Purr
