import AetherRl.MambaRank
/-!
# MambaScan — what the layer relies on of its scan

The kernel scans each head from that head's tokens and those of its group, and starts anew where the sequence index
changes.  So the scan of a rank's heads is its heads of the scan of all of them, and with the layer's sequence index no
document reads another.
-/
namespace Aether
namespace Mamba

open Checked Tensor Shape

variable {K : Type} [Field K]

/-! ## Heads of rank-three and rank-four tensors -/

section
variable {n b S w r j : Nat} {s : List Nat} {t u : Tensor K}

theorem shape_select_head (ht : t.shape = b :: S :: w :: s) : (t.select 2 j).shape = b :: S :: s := by
  rw [select, shape_ofFn, ht]
  rfl

theorem get_select_head (ht : t.shape = b :: S :: w :: s) {i x : Nat} {idx : List Nat} (hi : i < b) (hx : x < S)
    (hin : Inside s idx) : (t.select 2 j).get (i :: x :: idx) = t.get (i :: x :: j :: idx) := by
  have hout : Inside (t.select 2 j).shape (i :: x :: idx) := by
    rw [shape_select_head ht]
    exact ⟨hi, hx, hin⟩
  rw [select, shape_ofFn] at hout
  rw [select, get_ofFn hout]
  rfl

/-- The entry of a head, inside it or not. -/
theorem get_select_any (ht : t.shape = b :: S :: w :: s) (i x : Nat) (idx : List Nat) :
    (t.select 2 j).get (i :: x :: idx) = t.get (i :: x :: j :: idx) := by
  by_cases hin : i < b ∧ x < S ∧ Inside s idx
  · exact get_select_head ht hin.1 hin.2.1 hin.2.2
  · rw [(t.select 2 j).outside _ (by rw [shape_select_head ht]; exact fun h => hin ⟨h.1, h.2.1, h.2.2⟩),
      t.outside _ (by rw [ht]; exact fun h => hin ⟨h.1, h.2.1, h.2.2.2⟩)]

/-- Head `j` of the `r`-th group of heads. -/
theorem select_features (ht : t.shape = b :: S :: n * w :: s) (hr : r < n) (hj : j < w) :
    (features n r t).select 2 j = t.select 2 (r * w + j) := by
  have hfeat := shape_features ht hr
  refine ext_inside ((shape_select_head hfeat).trans (shape_select_head ht).symm) fun idx hi => ?_
  rw [shape_select_head hfeat] at hi
  match idx, hi with
  | i :: x :: idx, hi =>
    rw [get_select_head hfeat hi.1 hi.2.1 hi.2.2, get_features ht hr hi.1 hi.2.1 hj hi.2.2,
      get_select_head ht hi.1 hi.2.1 hi.2.2]

/-- **Tensors with the same heads are equal.** -/
theorem ext_select (ht : t.shape = b :: S :: w :: s) (hu : u.shape = b :: S :: w :: s)
    (h : ∀ j < w, t.select 2 j = u.select 2 j) : t = u := by
  refine ext_inside (ht.trans hu.symm) fun idx hi => ?_
  rw [ht] at hi
  match idx, hi with
  | i :: x :: j :: idx, hi =>
    rw [← get_select_head ht hi.1 hi.2.1 hi.2.2.2, h j hi.2.2.1, get_select_head hu hi.1 hi.2.1 hi.2.2.2]

end

/-! ## The scan -/

/-- What the scan of a head reads. -/
structure HeadInputs (K : Type) [Zero K] where
  x : Tensor K
  dt : Tensor K
  A : K
  B : Tensor K
  C : Tensor K
  D : K
  dtBias : K
  seqIdx : Tensor Nat

namespace ScanInputs

/-- `H` heads of `P` elements in `G` groups with `N` states. -/
structure Shaped (i : ScanInputs K) (b S H P G N : Nat) : Prop where
  x : i.x.shape = [b, S, H, P]
  dt : i.dt.shape = [b, S, H]
  A : i.A.shape = [H]
  B : i.B.shape = [b, S, G, N]
  C : i.C.shape = [b, S, G, N]
  D : i.D.shape = [H]
  dtBias : i.dtBias.shape = [H]
  seqIdx : i.seqIdx.shape = [b, S]

/-- Head `j`, with group `g`. -/
def head (i : ScanInputs K) (j g : Nat) : HeadInputs K where
  x := i.x.select 2 j
  dt := i.dt.select 2 j
  A := i.A.get [j]
  B := i.B.select 2 g
  C := i.C.select 2 g
  D := i.D.get [j]
  dtBias := i.dtBias.get [j]
  seqIdx := i.seqIdx

/-- The `r`-th of `n` parts of the heads, with their groups. -/
def part (n r : Nat) (i : ScanInputs K) : ScanInputs K where
  x := features n r i.x
  dt := features n r i.dt
  A := chunk n r i.A
  B := features n r i.B
  C := features n r i.C
  D := chunk n r i.D
  dtBias := chunk n r i.dtBias
  seqIdx := i.seqIdx

/-- The inputs read the same at token `t` of row `b`. -/
structure SameAt (i j : ScanInputs K) (b t : Nat) : Prop where
  x : ∀ h p, i.x.get [b, t, h, p] = j.x.get [b, t, h, p]
  dt : ∀ h, i.dt.get [b, t, h] = j.dt.get [b, t, h]
  B : ∀ g s, i.B.get [b, t, g, s] = j.B.get [b, t, g, s]
  C : ∀ g s, i.C.get [b, t, g, s] = j.C.get [b, t, g, s]

end ScanInputs

/-- **The scan of a head is computed from that head and its group**: heads are grouped contiguously, `H / G` to a group. -/
def PerHead (scan : Scan K) : Prop :=
  ∃ head : ScanOptions K → HeadInputs K → Tensor K, ∀ (o : ScanOptions K) (i : ScanInputs K) (b S H P G N : Nat),
    i.Shaped b S H P G N → G ∣ H →
    (scan o i).shape = [b, S, H, P] ∧ ∀ j < H, (scan o i).select 2 j = head o (i.head j (j / (H / G)))

/-- **The scan of a token is computed from the tokens of its sequence index.** -/
def RespectsSeqIdx (scan : Scan K) : Prop :=
  ∀ (o : ScanOptions K) (i j : ScanInputs K) (b S H P G N : Nat), i.Shaped b S H P G N → j.Shaped b S H P G N → G ∣ H →
    i.A = j.A → i.D = j.D → i.dtBias = j.dtBias → i.seqIdx = j.seqIdx → ∀ row < b, ∀ t < S,
    (∀ t' < S, i.seqIdx.get [row, t'] = i.seqIdx.get [row, t] → i.SameAt j row t') →
    ∀ h p, (scan o i).get [row, t, h, p] = (scan o j).get [row, t, h, p]

section
variable {scan : Scan K} {i : ScanInputs K} {n r b S h P g N : Nat}

theorem ScanInputs.Shaped.part (hi : i.Shaped b S (n * h) P (n * g) N) (hr : r < n) :
    (i.part n r).Shaped b S h P g N where
  x := shape_features hi.x hr
  dt := shape_features hi.dt hr
  A := shape_chunk hi.A hr
  B := shape_features hi.B hr
  C := shape_features hi.C hr
  D := shape_chunk hi.D hr
  dtBias := shape_chunk hi.dtBias hr
  seqIdx := hi.seqIdx

/-- A head of a part is that head of the whole, with its group. -/
theorem head_part (hi : i.Shaped b S (n * h) P (n * g) N) (hr : r < n) {j k : Nat} (hj : j < h) (hk : k < g) :
    (i.part n r).head j k = i.head (r * h + j) (r * g + k) := by
  have hnil : Inside [] [] := trivial
  unfold ScanInputs.head ScanInputs.part
  dsimp only
  rw [select_features hi.x hr hj, select_features hi.dt hr hj, get_chunk hi.A hr hj hnil, select_features hi.B hr hk,
    select_features hi.C hr hk, get_chunk hi.D hr hj hnil, get_chunk hi.dtBias hr hj hnil]

/-- **The scan of a part is the part of the scan.** -/
theorem scan_part (hscan : PerHead scan) (hi : i.Shaped b S (n * h) P (n * g) N) (hg : 0 < g) (hdvd : g ∣ h) (hr : r < n)
    (o : ScanOptions K) : scan o (i.part n r) = features n r (scan o i) := by
  obtain ⟨head, hhead⟩ := hscan
  have hn : 0 < n := Nat.zero_lt_of_lt hr
  obtain ⟨q, rfl⟩ := hdvd
  have hpartQ : g * q / g = q := Nat.mul_div_cancel_left q hg
  have hwholeQ : n * (g * q) / (n * g) = q := by
    rw [← Nat.mul_assoc]
    exact Nat.mul_div_cancel_left q (Nat.mul_pos hn hg)
  obtain ⟨hps, hpart⟩ := hhead o (i.part n r) b S (g * q) P g N (hi.part hr) ⟨q, rfl⟩
  obtain ⟨hws, hwhole⟩ := hhead o i b S (n * (g * q)) P (n * g) N hi ⟨q, by ring⟩
  refine ext_select hps (shape_features hws hr) fun j hj => ?_
  have hq : 0 < q := Nat.pos_of_mul_pos_left (Nat.zero_lt_of_lt hj)
  have hgroup : j / q < g := Nat.div_lt_of_lt_mul (Nat.mul_comm g q ▸ hj)
  have hdiv : (r * (g * q) + j) / q = r * g + j / q := by
    rw [← Nat.mul_assoc, Nat.mul_comm (r * g) q, Nat.mul_add_div hq]
  rw [select_features hws hr hj, hpart j hj, hwhole _ (place_lt hr hj), hpartQ, hwholeQ, hdiv, head_part hi hr hj hgroup]

end

end Mamba
end Aether
