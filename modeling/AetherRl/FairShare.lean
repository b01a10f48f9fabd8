import Mathlib.Algebra.Order.Field.Basic
import Mathlib.Tactic.Linarith
/-!
# FairShare — weighted fair queueing by virtual finish times

Each client has a virtual finish time and a share, the time one service adds to it.  Serving a client that finishes
first, and letting new ones join at the least finish time, keep every finish time within its own share of every other.
So the finish times never differ by more than the largest share, and services stay in proportion.
-/
namespace FairShare

structure Client (𝕜 : Type*) where
  finish : 𝕜
  share : 𝕜

variable {𝕜 : Type*} [Field 𝕜] [LinearOrder 𝕜] [IsStrictOrderedRing 𝕜] {A A' : Set (Client 𝕜)} {c : Client 𝕜}

/-- The client after one service. -/
def Client.served (c : Client 𝕜) : Client 𝕜 := ⟨c.finish + c.share, c.share⟩

/-- `c` finishes no later than any client. -/
def First (A : Set (Client 𝕜)) (c : Client 𝕜) : Prop := ∀ a ∈ A, c.finish ≤ a.finish

/-- Every finish time is within its own share of every other. -/
def Spread (A : Set (Client 𝕜)) : Prop := ∀ a ∈ A, ∀ b ∈ A, a.finish ≤ b.finish + a.share

/-- **Serving a first client keeps the spread.** -/
theorem Spread.serve (h : Spread A) (hc : c ∈ A) (hfirst : First A c) (hpos : 0 ≤ c.share)
    (hA : ∀ a ∈ A', a ∈ A ∨ a = c.served) : Spread A' := by
  intro a ha b hb
  rcases hA a ha with ha | rfl <;> rcases hA b hb with hb | rfl
  · exact h a ha b hb
  · have hac := h a ha c hc
    simp only [Client.served]
    linarith
  · have hcb := hfirst b hb
    simp only [Client.served]
    linarith
  · simp only [Client.served]
    linarith

/-- **A client that joins at the least finish time keeps the spread.** -/
theorem Spread.join (h : Spread A) (hfirst : First A c) (hleast : A.Nonempty → ∃ a ∈ A, a.finish = c.finish)
    (hpos : 0 ≤ c.share) (hA : ∀ a ∈ A', a ∈ A ∨ a = c) : Spread A' := by
  intro a ha b hb
  rcases hA a ha with ha | rfl <;> rcases hA b hb with hb | rfl
  · exact h a ha b hb
  · obtain ⟨m, hm, he⟩ := hleast ⟨a, ha⟩
    have ham := h a ha m hm
    linarith
  · have hcb := hfirst b hb
    linarith
  · linarith

/-- **Finish times differ by no more than a bound on the shares.** -/
theorem Spread.close (h : Spread A) {bound : 𝕜} (hb : ∀ a ∈ A, a.share ≤ bound) {a b : Client 𝕜} (ha : a ∈ A)
    (hbA : b ∈ A) : |a.finish - b.finish| ≤ bound := by
  have hab := h a ha b hbA
  have hba := h b hbA a ha
  have hsa := hb a ha
  have hsb := hb b hbA
  rw [abs_le]
  constructor <;> linarith

/-- **What two clients gain between two spreads** differs by no more than the two bounds together. -/
theorem Spread.gain_le (h : Spread A) (h' : Spread A') {bound bound' : 𝕜} (hb : ∀ a ∈ A, a.share ≤ bound)
    (hb' : ∀ a ∈ A', a.share ≤ bound') {a b a' b' : Client 𝕜} (ha : a ∈ A) (hbA : b ∈ A) (ha' : a' ∈ A') (hbA' : b' ∈ A') :
    |(a'.finish - a.finish) - (b'.finish - b.finish)| ≤ bound + bound' := by
  have h₁ := h.close hb ha hbA
  have h₂ := h'.close hb' ha' hbA'
  calc |(a'.finish - a.finish) - (b'.finish - b.finish)|
      = |(a'.finish - b'.finish) - (a.finish - b.finish)| := by rw [sub_sub_sub_comm]
    _ ≤ |a'.finish - b'.finish| + |a.finish - b.finish| := abs_sub _ _
    _ ≤ bound + bound' := by linarith

end FairShare
