import Mathlib.Logic.Relation
import Mathlib.Tactic.Common

namespace P2Purr.Loop

universe u v
variable {ε : Type u} {σ : Type v} (guard : σ → Bool) (body : σ → Except ε σ) (stuck : ε)

/-- `while (guard) body`, for at most `n` turns; where it wants to turn once more, it ends in the
error `stuck`. -/
def whileLoop : ℕ → σ → Except ε σ
  | 0, s => if guard s then .error stuck else .ok s
  | n + 1, s =>
    if guard s then
      match body s with
      | .ok s' => whileLoop n s'
      | .error e => .error e
    else .ok s

variable {guard body stuck} {n m : ℕ} {s s' : σ} {e : ε}

theorem whileLoop_exit (h : guard s = false) : whileLoop guard body stuck n s = .ok s := by
  cases n <;> simp [whileLoop, h]

theorem whileLoop_turn (h : guard s = true) (hb : body s = .ok s') :
    whileLoop guard body stuck (n + 1) s = whileLoop guard body stuck n s' := by
  simp [whileLoop, h, hb]

theorem whileLoop_stop (h : guard s = true) (hb : body s = .error e) :
    whileLoop guard body stuck (n + 1) s = .error e := by
  simp [whileLoop, h, hb]

/-- An invariant, and a variant that is lowered by every turn, but for those that stop in one of
the errors `E`. -/
theorem whileLoop_ends (I : σ → Prop) (variant : σ → ℕ) (E : ε → Prop)
    (hpos : ∀ s, I s → guard s = true → 0 < variant s)
    (hbody : ∀ s, I s → guard s = true →
      (∃ s', body s = .ok s' ∧ I s' ∧ variant s' < variant s) ∨ ∃ e, body s = .error e ∧ E e)
    (hs : I s) (hn : variant s ≤ n) :
    (∃ s', whileLoop guard body stuck n s = .ok s' ∧ I s' ∧ guard s' = false) ∨
      ∃ e, whileLoop guard body stuck n s = .error e ∧ E e := by
  induction n generalizing s with
  | zero =>
    cases hg : guard s with
    | false => exact Or.inl ⟨s, whileLoop_exit hg, hs, hg⟩
    | true =>
      have hlt := hpos s hs hg
      omega
  | succ n ih =>
    cases hg : guard s with
    | false => exact Or.inl ⟨s, whileLoop_exit hg, hs, hg⟩
    | true =>
      cases hbody s hs hg with
      | inl hok =>
        obtain ⟨s', hb, hi, hlt⟩ := hok
        rw [whileLoop_turn hg hb]
        exact ih hi (by omega)
      | inr herr =>
        obtain ⟨e, hb, he⟩ := herr
        exact Or.inr ⟨e, whileLoop_stop hg hb, he⟩

/-- Total correctness: an invariant, and a variant that every turn lowers. -/
theorem whileLoop_total (I : σ → Prop) (variant : σ → ℕ)
    (hbody : ∀ s, I s → guard s = true →
      ∃ s', body s = .ok s' ∧ I s' ∧ variant s' < variant s)
    (hs : I s) (hn : variant s ≤ n) :
    ∃ s', whileLoop guard body stuck n s = .ok s' ∧ I s' ∧ guard s' = false := by
  have hpos : ∀ s, I s → guard s = true → 0 < variant s := by
    intro s hi hg
    obtain ⟨s', -, -, hlt⟩ := hbody s hi hg
    omega
  apply (whileLoop_ends I variant (fun _ => False) hpos
    (fun s hi hg => Or.inl (hbody s hi hg)) hs hn).resolve_right
  simp

/-- Partial correctness: what every turn keeps holds where the loop ends, and what every stop of
a turn leaves is left by the loop. -/
theorem whileLoop_keeps (I : σ → Prop) (E : ε → Prop)
    (hok : ∀ s s', I s → guard s = true → body s = .ok s' → I s')
    (herr : ∀ s e, I s → guard s = true → body s = .error e → E e) (hstuck : E stuck) (hs : I s) :
    (∀ s', whileLoop guard body stuck n s = .ok s' → I s') ∧
      ∀ e, whileLoop guard body stuck n s = .error e → E e := by
  induction n generalizing s with
  | zero =>
    cases hg : guard s with
    | false => simpa [whileLoop, hg] using hs
    | true => simpa [whileLoop, hg] using hstuck
  | succ n ih =>
    cases hg : guard s with
    | false => simpa [whileLoop, hg] using hs
    | true =>
      cases hb : body s with
      | error e =>
        rw [whileLoop_stop hg hb]
        simpa using herr s e hs hg hb
      | ok s' =>
        rw [whileLoop_turn hg hb]
        exact ih (hok s s' hs hg hb)

theorem whileLoop_invariant (I : σ → Prop)
    (hbody : ∀ s s', I s → guard s = true → body s = .ok s' → I s') (hs : I s)
    (h : whileLoop guard body stuck n s = .ok s') : I s' :=
  (whileLoop_keeps I (fun _ => True) hbody (fun _ _ _ _ _ => trivial) trivial hs).1 s' h

theorem whileLoop_exited (h : whileLoop guard body stuck n s = .ok s') : guard s' = false := by
  induction n generalizing s with
  | zero =>
    cases hg : guard s with
    | false =>
      rw [whileLoop_exit hg] at h
      rwa [← Except.ok.inj h]
    | true => simp [whileLoop, hg] at h
  | succ n ih =>
    cases hg : guard s with
    | false =>
      rw [whileLoop_exit hg] at h
      rwa [← Except.ok.inj h]
    | true =>
      cases hb : body s with
      | ok t =>
        rw [whileLoop_turn hg hb] at h
        exact ih h
      | error e =>
        rw [whileLoop_stop hg hb] at h
        cases h

def Turns (guard : σ → Bool) (body : σ → Except ε σ) : σ → σ → Prop :=
  Relation.ReflTransGen fun s s' => guard s = true ∧ body s = .ok s'

/-- What every turn keeps holds wherever the loop gets to, whether or not it ends. -/
theorem Turns.keeps (I : σ → Prop)
    (hbody : ∀ s s', I s → guard s = true → body s = .ok s' → I s') (hs : I s)
    (h : Turns guard body s s') : I s' := by
  induction h with
  | refl => exact hs
  | tail _ hturn ih => exact hbody _ _ ih hturn.1 hturn.2

theorem Turns.comes_back {t : σ} (ht : Turns guard body s t)
    (h : whileLoop guard body stuck n s = .ok s') (hg : guard t = true) :
    ∃ t', body t = .ok t' := by
  induction n generalizing s with
  | zero =>
    -- the loop has no turn
    cases hs : guard s with
    | true => simp [whileLoop, hs] at h
    | false =>
      cases ht.cases_head with
      | inl heq =>
        rw [← heq, hs] at hg
        cases hg
      | inr hturn =>
        obtain ⟨u, hu, -⟩ := hturn
        rw [hs] at hu
        exact absurd hu.1 Bool.false_ne_true
  | succ n ih =>
    cases ht.cases_head with
    | inl heq =>
      rw [← heq] at hg ⊢
      cases hb : body s with
      | ok s₁ => exact ⟨s₁, rfl⟩
      | error e =>
        rw [whileLoop_stop hg hb] at h
        cases h
    | inr hturn =>
      obtain ⟨u, hu, hrest⟩ := hturn
      rw [whileLoop_turn hu.1 hu.2] at h
      exact ih hrest h

/-- The same loop on other states, as long as its turns do the same in all states that it gets
to. -/
theorem whileLoop_map {ε' : Type u} {τ : Type v} {guard' : τ → Bool} {body' : τ → Except ε' τ}
    (φ : σ → τ) (ψ : ε → ε') (hguard : ∀ t, guard' (φ t) = guard t)
    (hbody : ∀ t, Turns guard body s t → guard t = true →
      body' (φ t) = ((body t).map φ).mapError ψ) (n : ℕ) :
    whileLoop guard' body' (ψ stuck) n (φ s) =
      ((whileLoop guard body stuck n s).map φ).mapError ψ := by
  induction n generalizing s with
  | zero =>
    cases hg : guard s with
    | false => simp [whileLoop, hguard, hg, Except.map, Except.mapError]
    | true => simp [whileLoop, hguard, hg, Except.map, Except.mapError]
  | succ n ih =>
    cases hg : guard s with
    | false =>
      rw [whileLoop_exit hg, whileLoop_exit (by rw [hguard, hg])]
      rfl
    | true =>
      have hturn := hbody s Relation.ReflTransGen.refl hg
      cases hb : body s with
      | error e =>
        rw [hb] at hturn
        rw [whileLoop_stop hg hb, whileLoop_stop (by rw [hguard, hg]) hturn]
        rfl
      | ok t =>
        rw [hb] at hturn
        rw [whileLoop_turn hg hb, whileLoop_turn (by rw [hguard, hg]) hturn]
        exact ih fun t' ht' => hbody t' (Relation.ReflTransGen.head ⟨hg, hb⟩ ht')

/-- A loop that ended within `n` turns ends the same way when allowed more. -/
theorem whileLoop_mono (h : whileLoop guard body stuck n s ≠ .error stuck) (hnm : n ≤ m) :
    whileLoop guard body stuck m s = whileLoop guard body stuck n s := by
  induction n generalizing s m with
  | zero =>
    cases hg : guard s with
    | false => rw [whileLoop_exit hg, whileLoop_exit hg]
    | true => simp [whileLoop, hg] at h
  | succ n ih =>
    obtain ⟨m, rfl⟩ : ∃ k, m = k + 1 := ⟨m - 1, by omega⟩
    cases hg : guard s with
    | false => rw [whileLoop_exit hg, whileLoop_exit hg]
    | true =>
      cases hb : body s with
      | error e => rw [whileLoop_stop hg hb, whileLoop_stop hg hb]
      | ok s' =>
        rw [whileLoop_turn hg hb] at h
        rw [whileLoop_turn hg hb, whileLoop_turn hg hb]
        exact ih h (by omega)

/-- A loop whose turns stay inside a set of states that all want to turn again
never ends. -/
theorem whileLoop_diverges (I : σ → Prop)
    (hbody : ∀ s, I s → guard s = true ∧ ∃ s', body s = .ok s' ∧ I s') (hs : I s) (n : ℕ) :
    whileLoop guard body stuck n s = .error stuck := by
  induction n generalizing s with
  | zero => simp [whileLoop, (hbody s hs).1]
  | succ n ih =>
    obtain ⟨hg, s', hb, hi⟩ := hbody s hs
    rw [whileLoop_turn hg hb]
    exact ih hi

end P2Purr.Loop
