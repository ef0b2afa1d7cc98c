import P2Purr.Memory
import Mathlib.Algebra.Order.Ring.Int

namespace P2Purr
open Memory Loop

inductive ExceptionClass
  | generic | socket | socketOptions | bind | listen | accept | connect | send | receive
  | getAddrInfo | socketClose | socketShutdown | fctrl | poll | packet
  deriving DecidableEq, Repr

structure GenericException where
  cls : ExceptionClass
  message : String := ""
  deriving DecidableEq, Repr

/-- No statement after the call runs: undefined behaviour, a loop without end, or `exit`. -/
inductive Halt
  | fault (f : Fault)
  | hang
  | exit
  deriving DecidableEq, Repr

/-- What was written to an object stays there when a call throws, so a throw carries the state that
it leaves behind. -/
inductive Stop (ρ : Type)
  | raised (e : GenericException) (left : ρ)
  | halt (h : Halt)

variable {ρ α β ε : Type}

def access : Except Fault α → Except (Stop ρ) α
  | .ok a => .ok a
  | .error f => .error (.halt (.fault f))

def throwPacket (msg : String) (left : ρ) : Except (Stop ρ) α :=
  .error (.raised { cls := .packet, message := msg } left)

def deref : Option α → Except Fault α
  | some a => .ok a
  | none => .error .nullAccess

@[simp] theorem access_ok (a : α) : (access (.ok a) : Except (Stop ρ) α) = .ok a := rfl

@[simp] theorem access_error (f : Fault) :
    (access (.error f) : Except (Stop ρ) α) = .error (.halt (.fault f)) := rfl

@[simp] theorem deref_some (a : α) : deref (some a) = .ok a := rfl

@[simp] theorem deref_none : (deref none : Except Fault α) = .error .nullAccess := rfl

@[simp] theorem ok_bind (a : α) (f : α → Except ε β) : (Except.ok a >>= f) = f a := rfl

@[simp] theorem error_bind (e : ε) (f : α → Except ε β) : (Except.error e >>= f) = .error e := rfl

@[simp] theorem pure_eq_ok (a : α) : (pure a : Except ε α) = .ok a := rfl

@[simp] theorem throwPacket_bind (msg : String) (left : ρ) (f : α → Except (Stop ρ) β) :
    (throwPacket msg left >>= f) = throwPacket msg left := rfl

theorem bind_eq_ok {x : Except ε α} {f : α → Except ε β} {b : β} :
    (x >>= f) = .ok b ↔ ∃ a, x = .ok a ∧ f a = .ok b := by
  cases x <;> simp

theorem access_eq_ok {x : Except Fault α} {a : α} :
    (access x : Except (Stop ρ) α) = .ok a ↔ x = .ok a := by
  cases x <;> simp

theorem throwPacket_ne_ok {msg : String} {left : ρ} {a : α} :
    (throwPacket msg left : Except (Stop ρ) α) ≠ .ok a := by
  simp [throwPacket]

def Stop.map {ρ' : Type} (φ : ρ → ρ') : Stop ρ → Stop ρ'
  | .raised e left => .raised e (φ left)
  | .halt h => .halt h

/-- The result of a call, with its value and what it leaves on a throw replaced. -/
def transfer {ρ' : Type} (φ : ρ → ρ') (f : α → β) (x : Except (Stop ρ) α) : Except (Stop ρ') β :=
  (x.map f).mapError (Stop.map φ)

section Transfer

variable {ρ' γ δ : Type} {φ : ρ → ρ'} {f : α → β} {h : γ → δ}

@[simp] theorem transfer_ok (φ : ρ → ρ') (f : α → β) (a : α) :
    transfer φ f (.ok a) = .ok (f a) := rfl

@[simp] theorem transfer_raised (φ : ρ → ρ') (f : α → β) (e : GenericException) (left : ρ) :
    transfer φ f (.error (.raised e left)) = .error (.raised e (φ left)) := rfl

@[simp] theorem transfer_halt (φ : ρ → ρ') (f : α → β) (k : Halt) :
    transfer φ f (.error (.halt k)) = .error (.halt k) := rfl

theorem transfer_bind {x : Except (Stop ρ) α} {x' : Except (Stop ρ') β}
    {k : α → Except (Stop ρ) γ} {k' : β → Except (Stop ρ') δ} (hx : x' = transfer φ f x)
    (hk : ∀ a, x = .ok a → k' (f a) = transfer φ h (k a)) :
    x' >>= k' = transfer φ h (x >>= k) := by
  subst hx
  cases x with
  | ok a => exact hk a rfl
  | error e => rfl

theorem transfer_access_bind {x : Except Fault α} {k : α → Except (Stop ρ) γ}
    {k' : α → Except (Stop ρ') δ} (hk : ∀ a, k' a = transfer φ h (k a)) :
    access x >>= k' = transfer φ h (access x >>= k) := by
  cases x with
  | ok a => exact hk a
  | error e => rfl

theorem transfer_ite {c c' : Prop} [Decidable c] [Decidable c'] {x y : Except (Stop ρ) γ}
    {x' y' : Except (Stop ρ') δ} (hc : c' ↔ c) (ht : c → x' = transfer φ h x)
    (he : ¬ c → y' = transfer φ h y) :
    (if c' then x' else y') = transfer φ h (if c then x else y) := by
  by_cases hif : c
  · rw [if_pos hif, if_pos (hc.mpr hif)]
    exact ht hif
  · rw [if_neg hif, if_neg (fun h => hif (hc.mp h))]
    exact he hif

/-- A loop whose turns do the same in every state that it gets to. -/
theorem transfer_whileLoop {σ σ' : Type} {guard : σ → Bool} {turn : σ → Except (Stop ρ) σ}
    {guard' : σ' → Bool} {turn' : σ' → Except (Stop ρ') σ'} {s : σ} {g : σ → σ'}
    (hguard : ∀ t, guard' (g t) = guard t)
    (hturn : ∀ t, Turns guard turn s t → guard t = true → turn' (g t) = transfer φ g (turn t))
    (n : ℕ) :
    whileLoop guard' turn' (.halt .hang) n (g s) =
      transfer φ g (whileLoop guard turn (.halt .hang) n s) :=
  @whileLoop_map _ _ guard turn (.halt .hang) s _ _ guard' turn' g (Stop.map φ) hguard hturn n

end Transfer

def NeverThrows (x : Except (Stop ρ) α) : Prop := ∀ e left, x ≠ .error (.raised e left)

theorem neverThrows_ok (a : α) : NeverThrows (.ok a : Except (Stop ρ) α) := by
  intro e left h
  cases h

theorem neverThrows_halt (k : Halt) : NeverThrows (.error (.halt k) : Except (Stop ρ) α) := by
  intro e left h
  cases h

theorem neverThrows_access (x : Except Fault α) : NeverThrows (access x : Except (Stop ρ) α) := by
  cases x with
  | ok a => exact neverThrows_ok a
  | error f => exact neverThrows_halt (.fault f)

theorem NeverThrows.bind {x : Except (Stop ρ) α} {f : α → Except (Stop ρ) β} (h : NeverThrows x)
    (hf : ∀ a, x = .ok a → NeverThrows (f a)) : NeverThrows (x >>= f) := by
  cases x with
  | ok a => exact hf a rfl
  | error stop =>
    intro e left heq
    exact h e left (congrArg Except.error (Except.error.inj heq))

def i32 (x : ℤ) : ℤ := x.bmod (2 ^ 32)

def u32 (x : ℤ) : ℕ := (x % 2 ^ 32).toNat

def u16 (x : ℕ) : ℕ := x % 2 ^ 16

def sizeT (x : ℤ) : ℕ := (x % 2 ^ 64).toNat

theorem i32_eq (x : ℤ) : i32 x = (x + 2147483648) % 4294967296 - 2147483648 := by
  change x.bmod 4294967296 = _
  rw [Int.bmod_def]
  split <;> omega

theorem i32_of_small {x : ℤ} (h₀ : -2 ^ 31 ≤ x) (h₁ : x < 2 ^ 31) : i32 x = x := by
  rw [i32_eq]
  omega

theorem u32_lt (x : ℤ) : u32 x < 2 ^ 32 := by
  unfold u32
  omega

theorem u32_le (n : ℕ) : u32 n ≤ n := by
  unfold u32
  omega

theorem u32_of_small {n : ℕ} (h : n < 2 ^ 32) : u32 n = n := by
  unfold u32
  omega

end P2Purr
