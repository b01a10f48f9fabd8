import AetherRl.Numeral
import AetherRl.Protocol
/-!
# Http — what worker and coordinator read of a request and a response

Headers by their name, whatever its case, and the integers in them as Python's `int` reads a text of Latin-1 characters.
-/
namespace Aether
namespace Http

/-! ## Integers -/

/-- `str.isspace` of a Latin-1 character. -/
def isSpace (c : Char) : Bool :=
  decide (9 ≤ c.toNat ∧ c.toNat ≤ 13 ∨ 28 ≤ c.toNat ∧ c.toNat ≤ 32 ∨ c.toNat = 0x85 ∨ c.toNat = 0xA0)

/-- The text without the characters at its ends that count as space. -/
def stripBy (space : Char → Bool) (cs : List Char) : List Char :=
  ((cs.dropWhile space).reverse.dropWhile space).reverse

/-- `str.strip`. -/
def strip (cs : List Char) : List Char := stripBy isSpace cs

/-- The Latin-1 characters that `int` passes over at the ends of a text: not the ASCII separators. -/
def isIntSpace (c : Char) : Bool :=
  decide (9 ≤ c.toNat ∧ c.toNat ≤ 13 ∨ c.toNat = 32 ∨ c.toNat = 0x85 ∨ c.toNat = 0xA0)

/-- The digits of a run of digits with single underscores between them; the flag says whether a digit came before. -/
def digitRun : Bool → List Char → Option (List Char)
  | after, [] => if after then some [] else none
  | after, c :: cs =>
    if c = '_' then (if after then digitRun false cs else none)
    else if c.isDigit then (digitRun true cs).map (c :: ·)
    else none

/-- `int(text)`, or nothing where it raises `ValueError`. -/
def parseInt (text : List Char) : Option Int :=
  match stripBy isIntSpace text with
  | '-' :: cs => (digitRun false cs).map fun ds => -(Nat.ofDigitChars 10 ds 0 : Int)
  | '+' :: cs => (digitRun false cs).map fun ds => (Nat.ofDigitChars 10 ds 0 : Int)
  | cs => (digitRun false cs).map fun ds => (Nat.ofDigitChars 10 ds 0 : Int)

theorem dropWhile_digits {cs : List Char} (h : ∀ c ∈ cs, c.isDigit = true) : cs.dropWhile isIntSpace = cs := by
  cases cs with
  | nil => rfl
  | cons c cs =>
    have hc := h c List.mem_cons_self
    rw [List.dropWhile_cons_of_neg]
    rw [Char.isDigit, Bool.and_eq_true, decide_eq_true_eq, decide_eq_true_eq] at hc
    rw [isIntSpace, decide_eq_true_eq]
    have h1 : 48 ≤ c.toNat := hc.1
    have h2 : c.toNat ≤ 57 := hc.2
    omega

theorem strip_digits {cs : List Char} (h : ∀ c ∈ cs, c.isDigit = true) : stripBy isIntSpace cs = cs := by
  rw [stripBy, dropWhile_digits h, dropWhile_digits fun c hc => h c (List.mem_reverse.1 hc), List.reverse_reverse]

theorem digitRun_digits : ∀ {cs : List Char} (after : Bool), (∀ c ∈ cs, c.isDigit = true) →
    (after = true ∨ cs ≠ []) → digitRun after cs = some cs
  | [], after, _, h => by
    rw [digitRun, if_pos (h.resolve_right fun h => h rfl)]
  | c :: cs, after, h, _ => by
    have hc := h c List.mem_cons_self
    have hne : c ≠ '_' := by
      rintro rfl
      cases hc
    rw [digitRun, if_neg hne, if_pos hc, digitRun_digits true (fun x hx => h x (List.mem_cons_of_mem _ hx)) (Or.inl rfl),
      Option.map_some]

/-- **`int` reads a run of digits** as their number. -/
theorem parseInt_digits {cs : List Char} (h : ∀ c ∈ cs, c.isDigit = true) (hne : cs ≠ []) :
    parseInt cs = some (Nat.ofDigitChars 10 cs 0 : Int) := by
  have hrun := digitRun_digits false h (Or.inr hne)
  unfold parseInt
  rw [strip_digits h]
  split
  · have hminus := h '-' List.mem_cons_self
    cases hminus
  · have hplus := h '+' List.mem_cons_self
    cases hplus
  · rw [hrun, Option.map_some]

/-- **`int` reads back the text of a number.** -/
theorem parseInt_toString (n : Nat) : parseInt (toString n).toList = some (n : Int) := by
  have hdigits : ∀ c ∈ (toString n).toList, c.isDigit = true := fun c hc => Numeral.isDigit_toString hc
  have hne : (toString n).toList ≠ [] := by
    rw [Numeral.toList_toString]
    exact Nat.toDigits_ne_nil
  rw [parseInt_digits hdigits hne, Numeral.ofDigitChars_toString]

/-! ## Responses -/

/-- `str.lower`, for the ASCII letters of a header. -/
def lower (text : String) : String := String.ofList (text.toList.map Char.toLower)

/-- How a body ends: as it should, or with an exception of the transport or another. -/
inductive Ending
  | complete
  | dropped
  | failed
deriving DecidableEq

structure Response where
  status : Nat
  headers : List (String × String)
  chunks : List Bytes
  ending : Ending
deriving DecidableEq

/-- `response.headers.get(name)`, of a name in lower case. -/
def Response.header (r : Response) (name : String) : Option String :=
  match (r.headers.filter fun h => decide (lower h.1 = name)).map (·.2) with
  | [] => none
  | v :: vs => some (vs.foldl (fun text v => text ++ ", " ++ v) v)

/-- `text.split(separator, 1)[0]`. -/
def beforeChar (separator : Char) (text : String) : String := String.ofList (text.toList.takeWhile (· ≠ separator))

end Http
end Aether
