import P2Purr.Loop
import Mathlib.Data.List.Basic
import Mathlib.Logic.Function.Basic
import Mathlib.Tactic.Common

namespace P2Purr.Memory
open Loop

abbrev Byte := UInt8

inductive Fault
  | nullAccess
  | outOfBounds
  | uninitialised
  | afterFree
  deriving DecidableEq, Repr

/-- A heap block, and which of its bytes were written.  Reading another byte, or outside the block,
is a fault: it is never given a value. -/
structure Block where
  size : ℕ
  cell : ℕ → Option Byte

namespace Block

/-- An allocation of any size succeeds. -/
def malloc (n : ℕ) : Block := ⟨n, fun _ => none⟩

def ofList (bs : List Byte) : Block := ⟨bs.length, fun i => bs[i]?⟩

def load (b : Block) (i : ℕ) : Except Fault Byte :=
  if i < b.size then
    match b.cell i with
    | some v => .ok v
    | none => .error .uninitialised
  else .error .outOfBounds

def store (b : Block) (i : ℕ) (v : Byte) : Except Fault Block :=
  if i < b.size then .ok { b with cell := Function.update b.cell i (some v) }
  else .error .outOfBounds

def memset (b : Block) (v : Byte) (n : ℕ) : Except Fault Block :=
  if n ≤ b.size then .ok { b with cell := fun i => if i < n then some v else b.cell i }
  else .error .outOfBounds

/-- The first `n` bytes of `src` go to offset `off`.  A byte that was not
written is copied as such. -/
def memcpy (b : Block) (off : ℕ) (src : Block) (n : ℕ) : Except Fault Block :=
  if off + n ≤ b.size ∧ n ≤ src.size then
    .ok { b with cell := fun i => if off ≤ i ∧ i < off + n then src.cell (i - off) else b.cell i }
  else .error .outOfBounds

def storeAll (b : Block) : ℕ → List Byte → Except Fault Block
  | _, [] => .ok b
  | off, v :: vs =>
    match b.store off v with
    | .ok b' => b'.storeAll (off + 1) vs
    | .error f => .error f

def loadAll (b : Block) : ℕ → ℕ → Except Fault (List Byte)
  | _, 0 => .ok []
  | off, n + 1 =>
    match b.load off with
    | .ok v => (b.loadAll (off + 1) n).map (v :: ·)
    | .error f => .error f

/-- The bytes `bs` stand in the block from offset `off` on. -/
structure HoldsAt (b : Block) (off : ℕ) (bs : List Byte) : Prop where
  fits : off + bs.length ≤ b.size
  cell_eq : ∀ i < bs.length, b.cell (off + i) = bs[i]?

variable {b src : Block} {off i n : ℕ} {bs cs : List Byte} {v : Byte}

@[simp] theorem malloc_size (n : ℕ) : (malloc n).size = n := rfl

@[simp] theorem ofList_size (bs : List Byte) : (ofList bs).size = bs.length := rfl

theorem holdsAt_nil (h : off ≤ b.size) : b.HoldsAt off [] :=
  ⟨by simpa using h, by simp⟩

theorem holdsAt_ofList (bs : List Byte) : (ofList bs).HoldsAt 0 bs :=
  ⟨by simp, by simp [ofList]⟩

theorem HoldsAt.left (h : b.HoldsAt off (bs ++ cs)) : b.HoldsAt off bs := by
  refine ⟨?_, ?_⟩
  · have := h.fits
    simp only [List.length_append] at this
    omega
  · intro i hi
    rw [h.cell_eq i (by simp; omega), List.getElem?_append_left hi]

theorem HoldsAt.right (h : b.HoldsAt off (bs ++ cs)) : b.HoldsAt (off + bs.length) cs := by
  refine ⟨?_, ?_⟩
  · have := h.fits
    simp only [List.length_append] at this
    omega
  · intro i hi
    rw [Nat.add_assoc, h.cell_eq _ (by simp; omega),
      List.getElem?_append_right (by omega), Nat.add_sub_cancel_left]

theorem HoldsAt.take (h : b.HoldsAt off bs) (n : ℕ) : b.HoldsAt off (bs.take n) :=
  HoldsAt.left (show b.HoldsAt off (bs.take n ++ bs.drop n) by rwa [List.take_append_drop])

theorem HoldsAt.suffix {off' : ℕ} (h : b.HoldsAt off bs) (hs : cs <:+ bs)
    (hoff : off' + cs.length = off + bs.length) : b.HoldsAt off' cs := by
  obtain ⟨pre, rfl⟩ := hs
  rw [List.length_append] at hoff
  obtain rfl : off' = off + pre.length := by omega
  exact h.right

theorem HoldsAt.load_eq (h : b.HoldsAt off bs) (hi : bs[i]? = some v) :
    b.load (off + i) = .ok v := by
  obtain ⟨hlt, -⟩ := List.getElem?_eq_some_iff.mp hi
  have hfits := h.fits
  have hcell := h.cell_eq i hlt
  rw [hi] at hcell
  simp [load, hcell, show off + i < b.size by omega]

theorem HoldsAt.load_head (h : b.HoldsAt off (v :: bs)) : b.load off = .ok v :=
  h.load_eq (i := 0) rfl

theorem HoldsAt.tail (h : b.HoldsAt off (v :: bs)) : b.HoldsAt (off + 1) bs :=
  HoldsAt.right (show b.HoldsAt off ([v] ++ bs) from h)

theorem store_of_lt (h : i < b.size) (v : Byte) :
    ∃ b', b.store i v = .ok b' ∧ b'.size = b.size := by
  rw [store, if_pos h]
  exact ⟨_, rfl, rfl⟩

theorem memset_of_le (h : n ≤ b.size) (v : Byte) :
    ∃ b', b.memset v n = .ok b' ∧ b'.size = b.size := by
  rw [memset, if_pos h]
  exact ⟨_, rfl, rfl⟩

theorem store_size {b' : Block} (h : b.store i v = .ok b') : b'.size = b.size := by
  unfold store at h
  split at h
  · rw [← Except.ok.inj h]
  · cases h

theorem memcpy_size {b' : Block} (h : b.memcpy off src n = .ok b') : b'.size = b.size := by
  unfold memcpy at h
  split at h
  · rw [← Except.ok.inj h]
  · cases h

theorem store_cell_of_ne {b' : Block} {j : ℕ} (h : b.store i v = .ok b') (hj : j ≠ i) :
    b'.cell j = b.cell j := by
  unfold store at h
  split at h
  · obtain rfl := Except.ok.inj h
    exact Function.update_of_ne hj _ _
  · cases h

/-- Writing the next byte extends what the block holds. -/
theorem HoldsAt.store_snoc (h : b.HoldsAt off bs) (hlt : off + bs.length < b.size) (v : Byte) :
    ∃ b', b.store (off + bs.length) v = .ok b' ∧ b'.size = b.size ∧ b'.HoldsAt off (bs ++ [v]) := by
  refine ⟨_, if_pos hlt, rfl, ⟨by simp; omega, ?_⟩⟩
  intro i hi
  simp only [List.length_append, List.length_singleton] at hi
  change Function.update b.cell (off + bs.length) (some v) (off + i) = _
  rcases Nat.lt_or_eq_of_le (Nat.le_of_lt_succ hi) with hlt' | rfl
  · rw [Function.update_of_ne (by omega), h.cell_eq i hlt', List.getElem?_append_left hlt']
  · simp

theorem HoldsAt.memcpy (h : b.HoldsAt 0 bs) (hs : src.HoldsAt 0 cs)
    (hfits : bs.length + cs.length ≤ b.size) :
    ∃ b', b.memcpy bs.length src cs.length = .ok b' ∧ b'.size = b.size ∧
      b'.HoldsAt 0 (bs ++ cs) := by
  have hsize : cs.length ≤ src.size := by simpa using hs.fits
  refine ⟨_, if_pos ⟨hfits, hsize⟩, rfl, ⟨by simpa using hfits, ?_⟩⟩
  intro i hi
  simp only [List.length_append] at hi
  simp only [Nat.zero_add]
  by_cases hin : bs.length ≤ i
  · have hcell := hs.cell_eq (i - bs.length) (by omega)
    rw [Nat.zero_add] at hcell
    rw [if_pos ⟨hin, hi⟩, List.getElem?_append_right hin, hcell]
  · have hcell := h.cell_eq i (by omega)
    rw [Nat.zero_add] at hcell
    rw [if_neg (by omega), List.getElem?_append_left (by omega), hcell]

theorem HoldsAt.storeAll (h : b.HoldsAt off bs) (cs : List Byte)
    (hfits : off + bs.length + cs.length ≤ b.size) :
    ∃ b', b.storeAll (off + bs.length) cs = .ok b' ∧ b'.size = b.size ∧
      b'.HoldsAt off (bs ++ cs) := by
  induction cs generalizing b bs with
  | nil => exact ⟨b, rfl, rfl, by simpa using h⟩
  | cons v cs ih =>
    simp only [List.length_cons] at hfits
    obtain ⟨b', hb', hsize, hold⟩ := h.store_snoc (by omega) v
    obtain ⟨b'', hb'', hsize', hold'⟩ := ih hold (by simp; omega)
    refine ⟨b'', ?_, hsize'.trans hsize, by simpa using hold'⟩
    simpa [Block.storeAll, hb', Nat.add_assoc] using hb''

theorem storeAll_le {b' : Block} (hbs : bs ≠ []) (h : b.storeAll off bs = .ok b') :
    off + bs.length ≤ b.size := by
  induction bs generalizing b off with
  | nil => exact absurd rfl hbs
  | cons v bs ih =>
    unfold storeAll at h
    by_cases hlt : off < b.size
    · obtain ⟨b₁, hstore, hsize⟩ := store_of_lt hlt v
      rw [hstore] at h
      cases bs with
      | nil => exact hlt
      | cons w bs =>
        have hle := ih (by simp) h
        simp only [List.length_cons] at hle ⊢
        omega
    · simp [store, hlt] at h

theorem HoldsAt.loadAll_eq (h : b.HoldsAt off bs) : b.loadAll off bs.length = .ok bs := by
  induction bs generalizing off with
  | nil => rfl
  | cons v bs ih => simp [loadAll, h.load_head, ih h.tail, Except.map]

theorem holdsAt_of_loadAll (hoff : off ≤ b.size) (h : b.loadAll off n = .ok bs) :
    b.HoldsAt off bs ∧ bs.length = n := by
  induction n generalizing off bs with
  | zero =>
    obtain rfl : [] = bs := Except.ok.inj h
    exact ⟨holdsAt_nil hoff, rfl⟩
  | succ n ih =>
    rw [loadAll, load] at h
    by_cases hlt : off < b.size
    · cases hcell : b.cell off with
      | none => simp [hlt, hcell] at h
      | some v =>
        cases hrest : b.loadAll (off + 1) n with
        | error f => simp [hlt, hcell, hrest, Except.map] at h
        | ok vs =>
          obtain rfl : v :: vs = bs := by simpa [hlt, hcell, hrest, Except.map] using h
          obtain ⟨hold, hlen⟩ := ih hlt hrest
          refine ⟨⟨?_, ?_⟩, by rw [List.length_cons, hlen]⟩
          · have := hold.fits
            rw [List.length_cons]
            omega
          · intro i hi
            cases i with
            | zero => simpa using hcell
            | succ i =>
              have hcell' := hold.cell_eq i (by simpa using hi)
              rw [List.getElem?_cons_succ, ← hcell']
              congr 1
              omega
    · simp [hlt] at h

/-- The first `r` turns of a loop that stores the bytes of `fresh` one by one
behind what the block holds already. -/
theorem whileLoop_copy_turns {ε σ : Type*} {guard : σ → Bool} {turn : σ → Except ε σ} (stuck : ε)
    (state : ℕ → Block → σ) {b₀ : Block} {acc fresh : List Byte} {r : ℕ}
    (hacc : b₀.HoldsAt 0 acc) (hr : r ≤ fresh.length) (hfits : acc.length + r ≤ b₀.size)
    (hguard : ∀ j b, j < r → guard (state j b) = true)
    (hturn : ∀ j b b' (hj : j < fresh.length), j < r →
      b.store (acc.length + j) fresh[j] = .ok b' → turn (state j b) = .ok (state (j + 1) b'))
    (n : ℕ) :
    ∃ b, b.size = b₀.size ∧ b.HoldsAt 0 (acc ++ fresh.take r) ∧
      (∀ i, acc.length + r ≤ i → b.cell i = b₀.cell i) ∧
      whileLoop guard turn stuck (n + r) (state 0 b₀) =
        whileLoop guard turn stuck n (state r b) := by
  induction r generalizing n with
  | zero => exact ⟨b₀, rfl, by simpa using hacc, fun _ _ => rfl, rfl⟩
  | succ r ih =>
    obtain ⟨b, hb, hold, hcell, hloop⟩ :=
      ih (by omega) (by omega) (fun j b hj => hguard j b (by omega))
      (fun j b b' hj hjr => hturn j b b' hj (by omega)) (n + 1)
    have hlt : r < fresh.length := by omega
    have hlen : (acc ++ fresh.take r).length = acc.length + r := by simp; omega
    obtain ⟨b', hstore, hb', hold'⟩ := hold.store_snoc (by omega) fresh[r]
    rw [hlen, Nat.zero_add] at hstore
    rw [List.append_assoc, List.take_append_getElem hlt] at hold'
    refine ⟨b', hb'.trans hb, hold', fun i hi => ?_, ?_⟩
    · rw [store_cell_of_ne hstore (by omega), hcell i (by omega)]
    rw [show n + (r + 1) = n + 1 + r by omega, hloop,
      whileLoop_turn (hguard r b (by omega)) (hturn r b b' hlt (by omega) hstore)]

/-- Such a loop, when it stops after `r` turns. -/
theorem whileLoop_copy {ε σ : Type*} {guard : σ → Bool} {turn : σ → Except ε σ} (stuck : ε)
    (state : ℕ → Block → σ) {b₀ : Block} {acc fresh : List Byte} {r n : ℕ}
    (hacc : b₀.HoldsAt 0 acc) (hr : r ≤ fresh.length) (hfits : acc.length + r ≤ b₀.size)
    (hguard : ∀ j b, guard (state j b) = decide (j < r))
    (hturn : ∀ j b b' (hj : j < fresh.length),
      b.store (acc.length + j) fresh[j] = .ok b' → turn (state j b) = .ok (state (j + 1) b'))
    (hn : r ≤ n) :
    ∃ b, b.size = b₀.size ∧ b.HoldsAt 0 (acc ++ fresh.take r) ∧
      whileLoop guard turn stuck n (state 0 b₀) = .ok (state r b) := by
  have hgo : ∀ j b, j < r → guard (state j b) = true := fun j b hj => by simp [hguard, hj]
  obtain ⟨b, hb, hold, -, hloop⟩ := whileLoop_copy_turns stuck state hacc hr hfits hgo
    (fun j b b' hj _ => hturn j b b' hj) (n - r)
  refine ⟨b, hb, hold, ?_⟩
  rw [← Nat.sub_add_cancel hn, hloop]
  exact whileLoop_exit (by simp [hguard])

end Block

end P2Purr.Memory
