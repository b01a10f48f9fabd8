import Mathlib.Data.Nat.Digits.Defs
import Mathlib.Data.List.Basic
/-!
# Numeral — decimal numerals inside texts

A text composed of fixed parts, arbitrary parts and numerals can be taken apart again where a character that is no digit
stands next to a numeral: at its end (`suffix_inj`) or, padded with zeros, at its start (`prefix_inj`).
-/
namespace Numeral

/-- **Where the first element outside `p` is the same mark**, two lists split alike. -/
theorem split_inj {α : Type} {p : α → Prop} {c c' : α} (hc : ¬ p c) (hc' : ¬ p c') : ∀ {l l' r r' : List α},
    (∀ x ∈ l, p x) → (∀ x ∈ l', p x) → l ++ c :: r = l' ++ c' :: r' → l = l' ∧ c :: r = c' :: r'
  | [], [], _, _, _, _, h => ⟨rfl, h⟩
  | [], x :: _, _, _, _, hl', h => by
    have hx : c = x := (List.cons.inj h).1
    exact absurd (hx ▸ hl' x List.mem_cons_self) hc
  | x :: _, [], _, _, hl, _, h => by
    have hx : x = c' := (List.cons.inj h).1
    exact absurd (hx ▸ hl x List.mem_cons_self) hc'
  | x :: l, y :: l', r, r', hl, hl', h => by
    obtain ⟨hxy, h⟩ := List.cons.inj h
    obtain ⟨hll, hr⟩ := split_inj hc hc' (fun z hz => hl z (List.mem_cons_of_mem _ hz))
      (fun z hz => hl' z (List.mem_cons_of_mem _ hz)) h
    exact ⟨by rw [hxy, hll], hr⟩

/-- `f"{n:0{width}d}"`. -/
def zfill (width n : Nat) : String := String.ofList (List.replicate (width - (toString n).length) '0') ++ toString n

theorem toList_toString (n : Nat) : (toString n).toList = Nat.toDigits 10 n := Nat.toList_repr

theorem isDigit_toString {n : Nat} {c : Char} (h : c ∈ (toString n).toList) : c.isDigit = true :=
  Nat.isDigit_of_mem_toDigits (by decide) (by decide) (toList_toString n ▸ h)

theorem isDigit_zfill {width n : Nat} {c : Char} (h : c ∈ (zfill width n).toList) : c.isDigit = true := by
  rw [zfill, String.toList_append, List.mem_append, String.toList_ofList] at h
  rcases h with h | h
  · rw [List.eq_of_mem_replicate h]
    rfl
  · exact isDigit_toString h

theorem ofDigitChars_toString (n : Nat) : Nat.ofDigitChars 10 (toString n).toList 0 = n := by
  rw [toList_toString]
  exact Nat.ofDigitChars_ten_toDigits

theorem ofDigitChars_zfill (width n : Nat) : Nat.ofDigitChars 10 (zfill width n).toList 0 = n := by
  rw [zfill, String.toList_append, String.toList_ofList, Nat.ofDigitChars_append, Nat.ofDigitChars_replicate_zero,
    Nat.mul_zero, ofDigitChars_toString]

/-- **A text that ends in a numeral after a mark that is no digit** determines both. -/
theorem suffix_inj {s s' : String} {c : Char} {n n' : Nat} (hc : c.isDigit = false)
    (h : s ++ String.singleton c ++ toString n = s' ++ String.singleton c ++ toString n') : s = s' ∧ n = n' := by
  have hl := congrArg (fun x : String => x.toList.reverse) h
  simp only [String.toList_append, String.toList_singleton, List.reverse_append, List.reverse_cons, List.reverse_nil,
    List.nil_append, List.singleton_append] at hl
  have hdigit : ∀ k : Nat, ∀ x ∈ (toString k).toList.reverse, x.isDigit = true :=
    fun k x hx => isDigit_toString (List.mem_reverse.1 hx)
  have hmark : ¬ c.isDigit = true := by rw [hc]; exact Bool.false_ne_true
  obtain ⟨hd, ht⟩ := split_inj (p := fun x : Char => x.isDigit = true) hmark hmark (hdigit n) (hdigit n') hl
  refine ⟨String.toList_inj.1 (List.reverse_injective (List.cons.inj ht).2), ?_⟩
  rw [← ofDigitChars_toString n, ← ofDigitChars_toString n', List.reverse_injective hd]

/-- **A padded numeral before a mark that is no digit** is determined by the text. -/
theorem prefix_inj {width n n' : Nat} {c : Char} {s s' : String} (hc : c.isDigit = false)
    (h : zfill width n ++ String.singleton c ++ s = zfill width n' ++ String.singleton c ++ s') : n = n' := by
  have hl := congrArg String.toList h
  simp only [String.toList_append, String.toList_singleton, List.append_assoc, List.singleton_append] at hl
  have hmark : ¬ c.isDigit = true := by rw [hc]; exact Bool.false_ne_true
  obtain ⟨hd, _⟩ := split_inj (p := fun x : Char => x.isDigit = true) hmark hmark (fun x hx => isDigit_zfill hx) (fun x hx => isDigit_zfill hx) hl
  rw [← ofDigitChars_zfill width n, ← ofDigitChars_zfill width n', hd]

end Numeral
