import AetherRl.PolicyFile
/-!
# PolicyRange — which `Range` headers the policy file endpoint accepts

The grammar of a single byte range over ASCII digits, `int` of any text, and where the two part: the endpoint reads its
numerals with `int`, which knows more spellings and counts digits.
-/
namespace Aether
namespace PolicyFile

/-! ## `int` of any text -/

/-- The zeros of the decimal digits beyond ASCII; nine digits follow each. -/
def decimalZeros : List Nat :=
  [0x660, 0x6F0, 0x7C0, 0x966, 0x9E6, 0xA66, 0xAE6, 0xB66, 0xBE6, 0xC66, 0xCE6, 0xD66, 0xDE6, 0xE50, 0xED0, 0xF20,
    0x1040, 0x1090, 0x17E0, 0x1810, 0x1946, 0x19D0, 0x1A80, 0x1A90, 0x1B50, 0x1BB0, 0x1C40, 0x1C50, 0xA620, 0xA8D0,
    0xA900, 0xA9D0, 0xA9F0, 0xAA50, 0xABF0, 0xFF10, 0x104A0, 0x10D30, 0x11066, 0x110F0, 0x11136, 0x111D0, 0x112F0,
    0x11450, 0x114D0, 0x11650, 0x116C0, 0x11730, 0x118E0, 0x11950, 0x11C50, 0x11D50, 0x11DA0, 0x11F50, 0x16A60,
    0x16AC0, 0x16B50, 0x1D7CE, 0x1D7D8, 0x1D7E2, 0x1D7EC, 0x1D7F6, 0x1E140, 0x1E2F0, 0x1E4F0, 0x1E950, 0x1FBF0]

/-- The characters beyond ASCII that are space. -/
def wideSpaces : List Nat :=
  [0x85, 0xA0, 0x1680, 0x2000, 0x2001, 0x2002, 0x2003, 0x2004, 0x2005, 0x2006, 0x2007, 0x2008, 0x2009, 0x200A, 0x2028,
    0x2029, 0x202F, 0x205F, 0x3000]

/-- A character of a numeral in ASCII: a space, a decimal digit, or `?` for one that is neither. -/
def toAscii (c : Char) : Char :=
  if c.toNat < 127 then c
  else if c.toNat ∈ wideSpaces then ' '
  else match decimalZeros.find? fun z => z ≤ c.toNat ∧ c.toNat < z + 10 with
    | some z => Char.ofNat ('0'.toNat + (c.toNat - z))
    | none => '?'

/-- The number a text spells for `int`, whatever its length. -/
def spelled (text : List Char) : Option Int := Http.parseInt (text.map toAscii)

/-- The digits of a numeral. -/
def digitCount (text : List Char) : Nat := ((text.map toAscii).filter Char.isDigit).length

/-- `sys.get_int_max_str_digits()`. -/
def intMaxStrDigits : Nat := 4300

/-- `int(text)`, or nothing where it raises `ValueError`. -/
def intOfText (text : List Char) : Option Int :=
  if digitCount text ≤ intMaxStrDigits then spelled text else none

/-! ## The grammar -/

/-- A numeral of ASCII digits. -/
def Decimal (text : List Char) : Prop := text ≠ [] ∧ ∀ c ∈ text, c.isDigit = true

instance (text : List Char) : Decidable (Decimal text) :=
  decidable_of_iff (text.isEmpty = false ∧ text.all Char.isDigit = true) (by
    rw [Decimal, List.isEmpty_eq_false_iff, List.all_eq_true])

def value (text : List Char) : Nat := Nat.ofDigitChars 10 text 0

/-- **A satisfiable single range** of a file of `size` bytes, and the first and last byte it means: `bytes=a-b`, `bytes=a-`
or `bytes=-n`. -/
inductive Means (size : Nat) : String → Nat → Nat → Prop
  | closed {a b : List Char} (ha : Decimal a) (hb : Decimal b) (hab : value a ≤ value b) (hin : value a < size) :
    Means size (String.ofList ("bytes=".toList ++ (a ++ '-' :: b))) (value a) (min (value b) (size - 1))
  | onward {a : List Char} (ha : Decimal a) (hin : value a < size) :
    Means size (String.ofList ("bytes=".toList ++ (a ++ ['-']))) (value a) (size - 1)
  | suffix {n : List Char} (hn : Decimal n) (hpos : 0 < value n) (hin : 0 < size) :
    Means size (String.ofList ("bytes=".toList ++ '-' :: n)) (size - value n) (size - 1)

/-! ## Readers of numerals -/

/-- A reader that knows the ASCII digits only. -/
def plainInt (text : List Char) : Option Int := if Decimal text then some (value text) else none

/-- A reader reads what another does, but only texts of a kind. -/
def Restricts (narrow wide : List Char → Option Int) (P : List Char → Prop) : Prop :=
  ∀ text n, narrow text = some n ↔ wide text = some n ∧ P text

theorem intOfText_restricts : Restricts intOfText spelled fun text => digitCount text ≤ intMaxStrDigits := by
  intro text n
  rw [intOfText]
  split <;> simp_all

theorem toAscii_digit {c : Char} (h : c.isDigit = true) : toAscii c = c := by
  rw [Char.isDigit, Bool.and_eq_true, decide_eq_true_eq, decide_eq_true_eq] at h
  have h57 : c.toNat ≤ 57 := h.2
  rw [toAscii, if_pos (by omega)]

theorem spelled_decimal {text : List Char} (h : Decimal text) : spelled text = some (value text : Int) := by
  have hmap : text.map toAscii = text := by
    conv_rhs => rw [← List.map_id text]
    exact List.map_congr_left fun c hc => toAscii_digit (h.2 c hc)
  rw [spelled, hmap, Http.parseInt_digits h.2 h.1]
  rfl

theorem plainInt_restricts : Restricts plainInt spelled Decimal := by
  intro text n
  rw [plainInt]
  split
  · rename_i h
    simp [spelled_decimal h, h]
  · simp_all

theorem plainInt_eq_some {text : List Char} {n : Int} : plainInt text = some n ↔ Decimal text ∧ n = value text := by
  rw [plainInt]
  split <;> simp_all [eq_comm]

theorem spelled_nil : spelled [] = none := by decide

/-- The texts of a range that are read. -/
def numerals (startText endText : List Char) : List (List Char) := [startText, endText].filter (· ≠ [])

theorem forall_numerals {P : List Char → Prop} {startText endText : List Char} :
    (∀ text ∈ numerals startText endText, P text) ↔ (startText ≠ [] → P startText) ∧ (endText ≠ [] → P endText) := by
  simp [numerals]

/-- **A narrower reader finds the same ranges**, where it reads every numeral of them. -/
theorem Restricts.rangeOf {narrow wide : List Char → Option Int} {P : List Char → Prop} (h : Restricts narrow wide P)
    (hnil : wide [] = none) {size : Nat} {startText endText : List Char} {p : Int × Int} :
    rangeOf narrow size startText endText = some p ↔
      rangeOf wide size startText endText = some p ∧ ∀ text ∈ numerals startText endText, P text := by
  have hempty : narrow [] = none := Option.eq_none_iff_forall_ne_some.2 fun n hn => by
    rw [h, hnil] at hn
    cases hn.1
  rw [PolicyFile.rangeOf, PolicyFile.rangeOf, forall_numerals]
  by_cases hstart : startText = []
  · by_cases hend : endText = []
    · simp [hstart, hend, hempty, hnil]
    · simp only [hstart, hend, ne_eq, not_true_eq_false, not_false_eq_true, if_false, false_implies, true_implies, true_and,
        Option.bind_eq_bind, Option.bind_eq_some_iff, h endText]
      constructor
      · rintro ⟨n, ⟨hn, hP⟩, hrest⟩
        exact ⟨⟨n, hn, hrest⟩, hP⟩
      · rintro ⟨⟨n, hn, hrest⟩, hP⟩
        exact ⟨n, ⟨hn, hP⟩, hrest⟩
  · by_cases hend : endText = []
    · simp only [hend, hstart, ne_eq, not_false_eq_true, not_true_eq_false, if_true, if_false, false_implies, true_implies,
        and_true, Option.bind_eq_bind, Option.bind_eq_some_iff, h startText]
      constructor
      · rintro ⟨n, ⟨hn, hP⟩, hrest⟩
        exact ⟨⟨n, hn, hrest⟩, hP⟩
      · rintro ⟨⟨n, hn, hrest⟩, hP⟩
        exact ⟨n, ⟨hn, hP⟩, hrest⟩
    · simp only [hend, hstart, ne_eq, not_false_eq_true, if_true, true_implies, Option.bind_eq_bind,
        Option.bind_eq_some_iff, h startText, h endText]
      constructor
      · rintro ⟨n, ⟨hn, hP⟩, m, ⟨hm, hQ⟩, hrest⟩
        exact ⟨⟨n, hn, m, hm, hrest⟩, hP, hQ⟩
      · rintro ⟨⟨n, hn, m, hm, hrest⟩, hP, hQ⟩
        exact ⟨n, ⟨hn, hP⟩, m, ⟨hm, hQ⟩, hrest⟩

/-! ## The headers of a single range -/

/-- A header of one range, and the texts around its dash. -/
structure Splits (header : String) (startText endText : List Char) : Prop where
  text : header.toList = "bytes=".toList ++ (startText ++ '-' :: endText)
  dash : '-' ∉ startText
  comma : ',' ∉ header.toList

/-- A range that starts in the file and does not end before it starts. -/
def Satisfiable (size : Nat) (p : Int × Int) : Prop := 0 ≤ p.1 ∧ p.1 ≤ p.2 ∧ p.1 < size

theorem partitionDash_eq {cs before after : List Char} :
    partitionDash cs = (before, true, after) ↔ cs = before ++ '-' :: after ∧ '-' ∉ before := by
  constructor
  · intro h
    rw [partitionDash] at h
    split at h
    · cases h
    · rename_i c rest hdrop
      cases h
      have hc : c = '-' := by
        have hhead := List.head?_dropWhile_not (fun c => decide (c ≠ '-')) cs
        rw [hdrop] at hhead
        simpa using hhead
      refine ⟨?_, fun hm => ?_⟩
      · conv_lhs => rw [← List.takeWhile_append_dropWhile (p := fun c => decide (c ≠ '-')) (l := cs), hdrop, hc]
      · have hne := List.all_eq_true.1 List.all_takeWhile _ hm
        simp at hne
  · rintro ⟨rfl, hb⟩
    exact partitionDash_of_not_mem hb after

/-- **What the parser accepts**, for any reading of numerals. -/
theorem parseRangeWith_ok {readInt : List Char → Option Int} {header : String} {size : Nat} {s e : Int} :
    parseRangeWith readInt (some header) size = .ok (s, e) ↔
      ∃ startText endText stop, Splits header startText endText ∧
        rangeOf readInt size startText endText = some (s, stop) ∧ Satisfiable size (s, stop) ∧
        e = min stop ((size : Int) - 1) := by
  constructor
  · intro h
    rw [parseRangeWith] at h
    split at h
    · cases h
    · rename_i hform
      rw [not_or, not_not] at hform
      obtain ⟨⟨rest, hrest⟩, hcomma⟩ := hform
      have hdrop : header.toList.drop "bytes=".length = rest := by
        rw [← hrest, show "bytes=".length = "bytes=".toList.length from rfl, List.drop_left]
      split at h
      · cases h
      · rename_i startText endText hpart
        rw [hdrop, partitionDash_eq] at hpart
        split at h
        · cases h
        · rename_i start stop hrange
          split at h
          · cases h
          · rename_i hsat
            cases h
            exact ⟨startText, endText, stop, ⟨by rw [← hrest, hpart.1], hpart.2, hcomma⟩, hrange, by
              rw [Satisfiable]
              omega, rfl⟩
  · rintro ⟨startText, endText, stop, hsplit, hrange, hsat, rfl⟩
    have hbytes : "bytes=".toList <+: header.toList := ⟨_, hsplit.text.symm⟩
    have hpart : partitionDash (header.toList.drop "bytes=".length) = (startText, true, endText) := by
      rw [hsplit.text, show "bytes=".length = "bytes=".toList.length from rfl, List.drop_left,
        partitionDash_of_not_mem hsplit.dash]
    rw [Satisfiable] at hsat
    rw [parseRangeWith]
    rw [if_neg (fun h => h.elim (· hbytes) hsplit.comma), hpart]
    simp only [hrange]
    rw [if_neg (by omega)]

theorem parseRangeWith_error {readInt : List Char → Option Int} {header : String} {size : Nat} {err : Error}
    (h : parseRangeWith readInt (some header) size = .error err) : ∃ message, err = invalidRange size message := by
  rw [parseRangeWith] at h
  split at h
  · exact ⟨_, (Except.error.inj h).symm⟩
  · split at h
    · exact ⟨_, (Except.error.inj h).symm⟩
    · split at h
      · exact ⟨_, (Except.error.inj h).symm⟩
      · split at h
        · exact ⟨_, (Except.error.inj h).symm⟩
        · cases h

theorem Splits.unique {header : String} {s e s' e' : List Char} (h : Splits header s e) (h' : Splits header s' e') :
    s' = s ∧ e' = e := by
  have htext : s ++ '-' :: e = s' ++ '-' :: e' := List.append_cancel_left (h.text.symm.trans h'.text)
  have hpart : partitionDash (s ++ '-' :: e) = (s', true, e') := partitionDash_eq.2 ⟨htext, h'.dash⟩
  rw [partitionDash_of_not_mem h.dash, Prod.mk.injEq, Prod.mk.injEq] at hpart
  exact ⟨hpart.1.symm, hpart.2.2.symm⟩

theorem splits_ofList {startText endText : List Char} (hs : ∀ c ∈ startText, c.isDigit = true)
    (he : ∀ c ∈ endText, c.isDigit = true) :
    Splits (String.ofList ("bytes=".toList ++ (startText ++ '-' :: endText))) startText endText where
  text := String.toList_ofList
  dash := fun hm => by cases hs '-' hm
  comma := fun hm => by
    rw [String.toList_ofList] at hm
    rcases List.mem_append.1 hm with hm | hm
    · revert hm
      decide
    · rcases List.mem_append.1 hm with hm | hm
      · cases hs ',' hm
      · rcases List.mem_cons.1 hm with hm | hm
        · cases hm
        · cases he ',' hm

/-- **The parser that reads ASCII digits only accepts the grammar**, and answers with the bytes it means. -/
theorem parseRangeWith_plainInt {header : String} {size : Nat} {s e : Int} :
    parseRangeWith plainInt (some header) size = .ok (s, e) ↔ ∃ a b : Nat, s = a ∧ e = b ∧ Means size header a b := by
  rw [parseRangeWith_ok]
  constructor
  · rintro ⟨startText, endText, stop, hsplit, hrange, ⟨h0, hle, hlt⟩, rfl⟩
    have hheader : header = String.ofList ("bytes=".toList ++ (startText ++ '-' :: endText)) := by
      rw [← hsplit.text, String.ofList_toList]
    rw [rangeOf] at hrange
    dsimp only at h0 hle hlt
    by_cases hstart : startText = []
    · rw [if_neg (not_not.2 hstart), Option.bind_eq_bind, Option.bind_eq_some_iff] at hrange
      obtain ⟨n, hn, hrest⟩ := hrange
      obtain ⟨hdec, rfl⟩ := plainInt_eq_some.1 hn
      split at hrest
      · cases hrest
      · cases hrest
        refine ⟨size - value endText, size - 1, by omega, by omega, ?_⟩
        rw [hheader, hstart]
        exact .suffix hdec (by omega) (by omega)
    · rw [if_pos hstart, Option.bind_eq_bind, Option.bind_eq_some_iff] at hrange
      obtain ⟨n, hn, hrest⟩ := hrange
      obtain ⟨hdec, rfl⟩ := plainInt_eq_some.1 hn
      by_cases hend : endText = []
      · rw [if_neg (not_not.2 hend)] at hrest
        cases hrest
        refine ⟨value startText, size - 1, rfl, by omega, ?_⟩
        rw [hheader, hend]
        exact .onward hdec (by omega)
      · rw [if_pos hend, Option.bind_eq_some_iff] at hrest
        obtain ⟨m, hm, hrest⟩ := hrest
        obtain ⟨hdec', rfl⟩ := plainInt_eq_some.1 hm
        cases hrest
        refine ⟨value startText, min (value endText) (size - 1), rfl, by omega, ?_⟩
        rw [hheader]
        exact .closed hdec hdec' (by omega) (by omega)
  · rintro ⟨a, b, rfl, rfl, h⟩
    cases h with
    | @closed a b ha hb hab hin =>
      refine ⟨a, b, value b, splits_ofList ha.2 hb.2, ?_, ⟨by omega, by omega, by omega⟩, by omega⟩
      rw [rangeOf, if_pos ha.1, plainInt_eq_some.2 ⟨ha, rfl⟩, plainInt_eq_some.2 ⟨hb, rfl⟩, Option.bind_eq_bind,
        Option.bind_some]
      dsimp only
      rw [if_pos hb.1]
      rfl
    | @onward a ha hin =>
      refine ⟨a, [], (size : Int) - 1, splits_ofList ha.2 (List.forall_mem_nil _), ?_, ⟨by omega, by omega, by omega⟩, by omega⟩
      rw [rangeOf, if_pos ha.1, plainInt_eq_some.2 ⟨ha, rfl⟩]
      rfl
    | @suffix n hn hpos hin =>
      refine ⟨[], n, (size : Int) - 1, splits_ofList (List.forall_mem_nil _) hn.2, ?_, ⟨by omega, by omega, by omega⟩, by omega⟩
      have hmax : max 0 ((size : Int) - value n) = ((size - value n : Nat) : Int) := by omega
      rw [rangeOf, if_neg (not_not.2 rfl), plainInt_eq_some.2 ⟨hn, rfl⟩, ← hmax]
      change (if (value n : Int) ≤ 0 then none else some (max 0 ((size : Int) - value n), (size : Int) - 1)) = _
      rw [if_neg (by omega)]

/-! ## The file's chunks -/

/-- `file.read(n)` where at most `short` bytes are handed out at a time, and one at least. -/
def readUpTo (short n : Nat) (file : Bytes) : Bytes := file.take (min n (max 1 short))

theorem length_readUpTo_le (short n : Nat) (file : Bytes) : (readUpTo short n file).length ≤ n :=
  (List.length_take_le _ _).trans (min_le_left _ _)

theorem take_readUpTo (short n : Nat) (file : Bytes) :
    readUpTo short n file = file.take (readUpTo short n file).length :=
  List.prefix_iff_eq_take.1 (List.take_prefix _ _)

theorem readUpTo_eq_nil {short n : Nat} {file : Bytes} (h : readUpTo short n file = []) : n = 0 ∨ file = [] := by
  rw [readUpTo, List.take_eq_nil_iff] at h
  exact h.imp_left fun h => by omega

/-- `_file_chunks`, where reads may be short: `short` is how much of the file left is handed out. -/
def fileChunksWith (short : Bytes → Nat) (file : Bytes) (remaining : Nat) : List Bytes :=
  if readUpTo (short file) (min (1024 * 1024) remaining) file = [] then []
  else readUpTo (short file) (min (1024 * 1024) remaining) file ::
    fileChunksWith short (file.drop (readUpTo (short file) (min (1024 * 1024) remaining) file).length)
      (remaining - (readUpTo (short file) (min (1024 * 1024) remaining) file).length)
termination_by remaining
decreasing_by
  rename_i h
  have hpos := List.length_pos_iff.2 h
  have hle := length_readUpTo_le (short file) (min (1024 * 1024) remaining) file
  omega

/-- **However the file is read, the chunks are its bytes**, as many as are asked for. -/
theorem flatten_fileChunksWith (short : Bytes → Nat) (file : Bytes) (remaining : Nat) :
    (fileChunksWith short file remaining).flatten = file.take remaining := by
  fun_induction fileChunksWith short file remaining with
  | case1 file remaining h =>
    rcases readUpTo_eq_nil h with hn | hn
    · rw [show remaining = 0 by omega, List.take_zero, List.flatten_nil]
    · rw [hn, List.take_nil, List.flatten_nil]
  | case2 file remaining h ih =>
    have hle := length_readUpTo_le (short file) (min (1024 * 1024) remaining) file
    have htake := take_readUpTo (short file) (min (1024 * 1024) remaining) file
    rw [List.flatten_cons, ih]
    generalize readUpTo (short file) (min (1024 * 1024) remaining) file = chunk at hle htake ⊢
    have hsplit : remaining = chunk.length + (remaining - chunk.length) := by omega
    conv_rhs => rw [hsplit, List.take_add, ← htake]

theorem readUpTo_full (remaining : Nat) (file : Bytes) :
    readUpTo (1024 * 1024) (min (1024 * 1024) remaining) file = file.take (min (1024 * 1024) remaining) := by
  rw [readUpTo, show min (min (1024 * 1024) remaining) (max 1 (1024 * 1024)) = min (1024 * 1024) remaining by omega]

/-- Reads that are never short make the chunks of the endpoint. -/
theorem fileChunksWith_full (file : Bytes) (remaining : Nat) :
    fileChunksWith (fun _ => 1024 * 1024) file remaining = fileChunks file remaining := by
  fun_induction fileChunks file remaining with
  | case1 file remaining h => rw [fileChunksWith, readUpTo_full, if_pos h]
  | case2 file remaining h ih =>
    rw [fileChunksWith, readUpTo_full, if_neg h, ← ih, List.length_take]
    rcases Nat.le_total (min (1024 * 1024) remaining) file.length with hle | hle
    · rw [min_eq_left hle]
    · -- the file ends in this chunk, and nothing is left of it either way
      rw [min_eq_right hle, List.drop_length, List.drop_of_length_le hle]
      have hnil : ∀ n, fileChunksWith (fun _ => 1024 * 1024) [] n = [] := fun n => by
        rw [fileChunksWith, readUpTo_full, List.take_nil, if_pos rfl]
      rw [hnil, hnil]

/-! ## Range parsing -/

/-- **Where `int` and the grammar part**: in a header of one satisfiable range, the numerals are plain digits just when
they are few enough for `int`. -/
def Agrees (header : String) (size : Nat) : Prop :=
  ∀ startText endText p, Splits header startText endText → rangeOf spelled size startText endText = some p →
    Satisfiable size p →
    ((∀ text ∈ numerals startText endText, Decimal text) ↔
      ∀ text ∈ numerals startText endText, digitCount text ≤ intMaxStrDigits)

theorem parse_restricts {readInt : List Char → Option Int} {P : List Char → Prop} (h : Restricts readInt spelled P)
    {header : String} {size : Nat} {s e : Int} :
    parseRangeWith readInt (some header) size = .ok (s, e) ↔
      ∃ startText endText stop, Splits header startText endText ∧
        rangeOf spelled size startText endText = some (s, stop) ∧ Satisfiable size (s, stop) ∧
        e = min stop ((size : Int) - 1) ∧ ∀ text ∈ numerals startText endText, P text := by
  rw [parseRangeWith_ok]
  constructor
  · rintro ⟨startText, endText, stop, hsplit, hrange, hsat, he⟩
    rw [h.rangeOf spelled_nil] at hrange
    exact ⟨startText, endText, stop, hsplit, hrange.1, hsat, he, hrange.2⟩
  · rintro ⟨startText, endText, stop, hsplit, hrange, hsat, he, hP⟩
    exact ⟨startText, endText, stop, hsplit, (h.rangeOf spelled_nil).2 ⟨hrange, hP⟩, hsat, he⟩

/-- Two readers accept the same ranges of a header just when they read its numerals alike. -/
theorem parse_agrees {P Q : List Char → Prop} {readP readQ : List Char → Option Int} (hP : Restricts readP spelled P)
    (hQ : Restricts readQ spelled Q) {header : String} {size : Nat} :
    (∀ s e, parseRangeWith readP (some header) size = .ok (s, e) ↔
      parseRangeWith readQ (some header) size = .ok (s, e)) ↔
    ∀ startText endText p, Splits header startText endText → rangeOf spelled size startText endText = some p →
      Satisfiable size p →
      ((∀ text ∈ numerals startText endText, Q text) ↔ ∀ text ∈ numerals startText endText, P text) := by
  constructor
  · intro h startText endText p hsplit hrange hsat
    have hiff := h p.1 (min p.2 ((size : Int) - 1))
    rw [parse_restricts hP, parse_restricts hQ] at hiff
    constructor
    · intro hq
      obtain ⟨s', e', -, hsplit', -, -, -, hp⟩ := hiff.2 ⟨startText, endText, p.2, hsplit, hrange, hsat, rfl, hq⟩
      obtain ⟨rfl, rfl⟩ := hsplit.unique hsplit'
      exact hp
    · intro hp
      obtain ⟨s', e', -, hsplit', -, -, -, hq⟩ := hiff.1 ⟨startText, endText, p.2, hsplit, hrange, hsat, rfl, hp⟩
      obtain ⟨rfl, rfl⟩ := hsplit.unique hsplit'
      exact hq
  · intro h s e
    rw [parse_restricts hP, parse_restricts hQ]
    constructor
    · rintro ⟨startText, endText, stop, hsplit, hrange, hsat, he, hp⟩
      exact ⟨startText, endText, stop, hsplit, hrange, hsat, he, (h _ _ _ hsplit hrange hsat).2 hp⟩
    · rintro ⟨startText, endText, stop, hsplit, hrange, hsat, he, hq⟩
      exact ⟨startText, endText, stop, hsplit, hrange, hsat, he, (h _ _ _ hsplit hrange hsat).1 hq⟩

theorem parseRangeWith_within {readInt : List Char → Option Int} {header : String} {size : Nat} {s e : Int}
    (h : parseRangeWith readInt (some header) size = .ok (s, e)) : 0 ≤ s ∧ s ≤ e ∧ e < size := by
  obtain ⟨-, -, stop, -, -, ⟨h0, hle, hlt⟩, rfl⟩ := parseRangeWith_ok.1 h
  dsimp only at h0 hle hlt
  omega

/-- **The endpoint accepts the single ranges of ASCII digits and streams the bytes they mean** exactly where `int` reads
the numerals of the header as the grammar does. -/
theorem range_parsing (header : String) (file : Bytes) :
    ((∀ s e : Int, parseRangeWith intOfText (some header) file.length = .ok (s, e) ↔
        ∃ a b : Nat, s = a ∧ e = b ∧ Means file.length header a b) ∧
      (∀ s e : Int, parseRangeWith intOfText (some header) file.length = .ok (s, e) →
        0 ≤ s ∧ s ≤ e ∧ e < file.length ∧
        ∀ short, (fileChunksWith short (file.drop s.toNat) (e - s + 1).toNat).flatten =
          (file.drop s.toNat).take (e - s + 1).toNat) ∧
      (∀ err, parseRangeWith intOfText (some header) file.length = .error err →
        ∃ message, err = invalidRange file.length message)) ↔ Agrees header file.length := by
  have hgrammar : (∀ s e : Int, parseRangeWith intOfText (some header) file.length = .ok (s, e) ↔
      ∃ a b : Nat, s = a ∧ e = b ∧ Means file.length header a b) ↔ Agrees header file.length := by
    simp only [← parseRangeWith_plainInt]
    exact parse_agrees intOfText_restricts plainInt_restricts
  rw [← hgrammar]
  constructor
  · exact fun h => h.1
  · intro h
    refine ⟨h, fun s e hse => ?_, fun err => parseRangeWith_error⟩
    obtain ⟨h0, hle, hlt⟩ := parseRangeWith_within hse
    exact ⟨h0, hle, hlt, fun short => flatten_fileChunksWith short _ _⟩

/-- A header with a sign before its first numeral is answered with bytes, and is none of the grammar. -/
theorem range_parsing_sign :
    parseRangeWith intOfText (some "bytes=+1-2") 10 = .ok (1, 2) ∧ ¬∃ a b, Means 10 "bytes=+1-2" a b := by
  refine ⟨by decide, ?_⟩
  rintro ⟨a, b, h⟩
  have hplain := parseRangeWith_plainInt.2 ⟨a, b, rfl, rfl, h⟩
  have hnone : (parseRangeWith plainInt (some "bytes=+1-2") 10).toOption = none := by decide
  rw [hplain] at hnone
  cases hnone

end PolicyFile
end Aether
