import Mathlib.Data.List.Basic
import Mathlib.Tactic.Common

namespace P2Purr.Runs

universe u v
variable {σ : Type u} {ε : Type v}

structure Transition (σ : Type u) (ε : Type v) where
  before : σ
  event : ε
  after : σ

variable (step : σ → ε → σ → Prop) (s₀ : σ)

inductive Run : List (Transition σ ε) → σ → Prop
  | nil : Run [] s₀
  | snoc {ts s e s'} : Run ts s → step s e s' → Run (ts ++ [⟨s, e, s'⟩]) s'

variable {step s₀} {ts : List (Transition σ ε)} {s : σ}

/-- What every step keeps that meets a condition holds throughout a run whose transitions all
meet it. -/
theorem Run.keeps (I : σ → Prop) (G : Transition σ ε → Prop) (h₀ : I s₀)
    (hstep : ∀ s e s', I s → step s e s' → G ⟨s, e, s'⟩ → I s') (h : Run step s₀ ts s)
    (hG : ∀ t ∈ ts, G t) :
    I s ∧ ∀ t ∈ ts, I t.before ∧ step t.before t.event t.after := by
  induction h with
  | nil => exact ⟨h₀, by simp⟩
  | @snoc ts s e s' _ hs ih =>
    obtain ⟨hI, hall⟩ := ih fun t ht => hG t (List.mem_append_left _ ht)
    refine ⟨hstep s e s' hI hs (hG _ (by simp)), ?_⟩
    intro t ht
    rw [List.mem_append, List.mem_singleton] at ht
    cases ht with
    | inl ht => exact hall t ht
    | inr ht =>
      rw [ht]
      exact ⟨hI, hs⟩

theorem Run.invariant (I : σ → Prop) (h₀ : I s₀) (hstep : ∀ s e s', I s → step s e s' → I s')
    (h : Run step s₀ ts s) : I s ∧ ∀ t ∈ ts, I t.before ∧ step t.before t.event t.after :=
  h.keeps I (fun _ => True) h₀ (fun s e s' hI hs _ => hstep s e s' hI hs) fun _ _ => trivial

/-- What is built up along a run. -/
theorem Run.traces (I : List (Transition σ ε) → σ → Prop) (G : Transition σ ε → Prop)
    (h₀ : I [] s₀)
    (hstep : ∀ ts s e s', I ts s → step s e s' → G ⟨s, e, s'⟩ → I (ts ++ [⟨s, e, s'⟩]) s')
    (h : Run step s₀ ts s) (hG : ∀ t ∈ ts, G t) : I ts s := by
  induction h with
  | nil => exact h₀
  | @snoc ts s e s' _ hs ih =>
    exact hstep ts s e s' (ih fun t ht => hG t (List.mem_append_left _ ht)) hs (hG _ (by simp))

end P2Purr.Runs
