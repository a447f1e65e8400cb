import Mathlib.Tactic.IntervalCases
import PeerLink.Json.Draft
/-!
# Tokens and their spellings

A text may escape any of its characters, and a number may have leading zeros in its exponent. The
tokenizer gives the same token for every spelling and leaves the characters after it.

## Main definitions

* `Piece`, `Piece.Written`, `Piece.chars?`: a piece of a text, its spellings, and its characters.
* `TextBody`: the spellings of a text between its quotes.
* `Numeral.Written`: the spellings of a number.

## Main statements

* `tokens_text`, `tokens_number`: the tokens of a text and of a number.
-/

namespace PeerLink.Json

/-! ## Blanks and single tokens -/

/-- The characters allowed between two tokens. -/
def IsBlank (ws : List Char) : Prop := ∀ c ∈ ws, isSpace c = true

theorem isBlank_nil : IsBlank [] := List.forall_mem_nil _

theorem tokens_blank {ws : List Char} (h : IsBlank ws) (rest : List Char) :
    tokens (ws ++ rest) = tokens rest := by
  induction ws with
  | nil => rfl
  | cons c ws ih =>
    obtain ⟨hc, hws⟩ := List.forall_mem_cons.1 h
    rw [List.cons_append, tokens, if_pos hc, ih hws]

theorem tokens_cons {c : Char} {cs rest : List Char} {t : Token} (hc : isSpace c = false)
    (h : Token.next c cs = (t, rest)) (ht : t ≠ .junk) : tokens (c :: cs) = t :: tokens rest := by
  rw [tokens, if_neg (by simp [hc])]
  simp only [h]

theorem word_append (w : List Char) (t : Token) (rest : List Char) :
    Token.word w t (w ++ rest) = (t, rest) := by
  rw [Token.word, if_pos (by simp), List.drop_left]

/-- The tokens of one character. -/
def Token.ofMark? : Char → Option Token
  | '[' => some .openArray
  | ']' => some .closeArray
  | '\x7b' => some .openObject
  | '\x7d' => some .closeObject
  | ',' => some .comma
  | ':' => some .colon
  | _ => none

theorem tokens_mark {c : Char} {t : Token} (h : Token.ofMark? c = some t) (rest : List Char) :
    tokens (c :: rest) = t :: tokens rest := by
  unfold Token.ofMark? at h
  split at h <;> cases h <;> exact tokens_cons rfl rfl (by simp)

theorem tokens_null (rest : List Char) : tokens ("null".toList ++ rest) = .null :: tokens rest :=
  tokens_cons rfl (word_append "ull".toList _ rest) (by simp)

theorem tokens_bool (b : Bool) (rest : List Char) :
    tokens ((if b then "true" else "false").toList ++ rest) = .bool b :: tokens rest := by
  cases b with
  | true => exact tokens_cons rfl (word_append "rue".toList _ rest) (by simp)
  | false => exact tokens_cons rfl (word_append "alse".toList _ rest) (by simp)

/-! ## Texts -/

/-- A piece of a text between its quotes. -/
inductive Piece where
  /-- A character, either literal or as a short escape. -/
  | char (c : Char)
  /-- A code unit of 16 bits, as four hexadecimal digits. -/
  | unit (n : Nat)
  deriving DecidableEq, Repr

/-- The short escapes, with their characters. -/
def shortEscapes : List (Char × Char) :=
  [('"', '"'), ('\\', '\\'), ('/', '/'), ('b', '\x08'), ('f', '\x0c'), ('n', '\n'), ('r', '\r'),
    ('t', '\t')]

/-- The hexadecimal digits with their values. -/
def hexDigits : List (Char × Nat) :=
  "0123456789abcdef".toList.zipIdx ++ "0123456789ABCDEF".toList.zipIdx

namespace Piece

/-- The spellings of a piece. -/
inductive Written : Piece → List Char → Prop
  | plain {c : Char} : 32 ≤ c.toNat → c ≠ '"' → c ≠ '\\' → Written (.char c) [c]
  | short {l c : Char} : (l, c) ∈ shortEscapes → Written (.char c) ['\\', l]
  | unit {a b c d : Char} {i j k l : Nat} : (a, i) ∈ hexDigits → (b, j) ∈ hexDigits →
      (c, k) ∈ hexDigits → (d, l) ∈ hexDigits →
      Written (.unit (((i * 16 + j) * 16 + k) * 16 + l)) ['\\', 'u', a, b, c, d]

/-- The high and the low surrogates. -/
def IsHigh (n : Nat) : Prop := 0xD800 ≤ n ∧ n ≤ 0xDBFF

@[inherit_doc IsHigh]
def IsLow (n : Nat) : Prop := 0xDC00 ≤ n ∧ n ≤ 0xDFFF

instance (n : Nat) : Decidable (IsHigh n) := inferInstanceAs (Decidable (_ ∧ _))

instance (n : Nat) : Decidable (IsLow n) := inferInstanceAs (Decidable (_ ∧ _))

/-- The characters of a list of pieces. A surrogate must be part of a pair. -/
def chars? : List Piece → Option (List Char)
  | [] => some []
  | .char c :: ps => (chars? ps).map (c :: ·)
  | .unit n :: ps =>
    if IsHigh n then
      match ps with
      | .unit m :: ps =>
        if IsLow m then
          (chars? ps).map (Char.ofNat (0x10000 + (n - 0xD800) * 0x400 + (m - 0xDC00)) :: ·)
        else none
      | _ => none
    else if IsLow n then none
    else (chars? ps).map (Char.ofNat n :: ·)

theorem chars?_unit {n : Nat} (hhigh : ¬IsHigh n) (hlow : ¬IsLow n) (ps : List Piece) :
    chars? (.unit n :: ps) = (chars? ps).map (Char.ofNat n :: ·) := by
  rw [chars?.eq_def]
  dsimp only
  rw [if_neg hhigh, if_neg hlow]

end Piece

/-- The spellings of a list of pieces. -/
inductive TextBody : List Piece → List Char → Prop
  | nil : TextBody [] []
  | cons {p ps w cs} : Piece.Written p w → TextBody ps cs → TextBody (p :: ps) (w ++ cs)

namespace Token

theorem hexValue?_of_mem {d : Char} {v : Nat} (h : (d, v) ∈ hexDigits) : hexValue? d = some v := by
  revert h
  have : ∀ p ∈ hexDigits, hexValue? p.1 = some p.2 := by decide
  exact this (d, v)

theorem escaped?_of_mem {l c : Char} (h : (l, c) ∈ shortEscapes) :
    escaped? l = some c ∧ l ≠ 'u' := by
  have : ∀ p ∈ shortEscapes, escaped? p.1 = some p.2 ∧ p.1 ≠ 'u' := by decide
  exact this (l, c) h

namespace TextSoFar

/-- The state after another piece. -/
def take (t : TextSoFar) : Piece → TextSoFar
  | .char c => t.push c
  | .unit n => t.pushUnit n

end TextSoFar

theorem scanText_written {p : Piece} {w : List Char} (h : p.Written w) (t : TextSoFar)
    (rest : List Char) : scanText t (w ++ rest) = scanText (t.take p) rest := by
  cases h with
  | plain hle hq hb =>
    rw [List.singleton_append, scanText]
    · simp [TextSoFar.take, hb, Nat.not_lt.2 hle]
    all_goals grind
  | @short l c hmem =>
    obtain ⟨hesc, hu⟩ := escaped?_of_mem hmem
    show scanText t ('\\' :: l :: rest) = _
    rw [scanText]
    · rw [hesc]; rfl
    · grind
  | unit ha hb hc hd =>
    rw [List.cons_append, List.cons_append, List.cons_append, List.cons_append, List.cons_append,
      List.singleton_append, scanText]
    simp [hexUnit?, hexValue?_of_mem ha, hexValue?_of_mem hb, hexValue?_of_mem hc,
      hexValue?_of_mem hd, TextSoFar.take]

theorem scanText_body {ps : List Piece} {cs : List Char} (h : TextBody ps cs) (t : TextSoFar)
    (rest : List Char) :
    scanText t (cs ++ '"' :: rest) = some ((ps.foldl TextSoFar.take t).result, rest) := by
  induction h generalizing t with
  | nil => rfl
  | cons hp hps ih => rw [List.append_assoc, scanText_written hp, ih, List.foldl_cons]

namespace TextSoFar

theorem take_high {n : Nat} (h : Piece.IsHigh n) (t : TextSoFar) :
    t.take (.unit n) = { t with waiting := some n, sound := t.sound && t.waiting.isNone } :=
  if_pos h

theorem take_low {n : Nat} (h : Piece.IsLow n) (t : TextSoFar) :
    t.take (.unit n) = match t.waiting with
      | some high =>
        { t with
          chars := Char.ofNat (0x10000 + (high - 0xD800) * 0x400 + (n - 0xDC00)) :: t.chars
          waiting := none }
      | none => { t with sound := false } := by
  have hhigh : ¬(0xD800 ≤ n ∧ n ≤ 0xDBFF) := by have := h.1; omega
  exact (if_neg hhigh).trans (if_pos h)

theorem take_unit {n : Nat} (hhigh : ¬Piece.IsHigh n) (hlow : ¬Piece.IsLow n) (t : TextSoFar) :
    t.take (.unit n) = t.push (Char.ofNat n) :=
  (if_neg hhigh).trans (if_neg hlow)

theorem sound_take {t : TextSoFar} (h : t.sound = false) (p : Piece) :
    (t.take p).sound = false := by
  cases p with
  | char c => simp [take, push, h]
  | unit n =>
    by_cases hhigh : Piece.IsHigh n
    · simp [take_high hhigh, h]
    · by_cases hlow : Piece.IsLow n
      · rw [take_low hlow]
        split <;> simp [h]
      · simp [take_unit hhigh hlow, push, h]

theorem result_of_not_sound {t : TextSoFar} (h : t.sound = false) (ps : List Piece) :
    (ps.foldl take t).result = none := by
  induction ps generalizing t with
  | nil => simp [result, h]
  | cons p ps ih => exact ih (sound_take h p)

/-- After a high surrogate only a low one is sound. -/
theorem result_of_waiting {t : TextSoFar} {high : Nat} (h : t.waiting = some high)
    {ps : List Piece} (hps : ∀ m rest, ps = .unit m :: rest → ¬Piece.IsLow m) :
    (ps.foldl take t).result = none := by
  cases ps with
  | nil => simp [result, h]
  | cons p ps =>
    refine result_of_not_sound ?_ ps
    cases p with
    | char c => simp [take, push, h]
    | unit m =>
      by_cases hhigh : Piece.IsHigh m
      · simp [take_high hhigh, h]
      · simp [take_unit hhigh (hps m ps rfl), push, h]

/-- The result after a list of pieces is the text of their characters. -/
theorem result_foldl (ps : List Piece) {t : TextSoFar} (hw : t.waiting = none)
    (hs : t.sound = true) :
    (ps.foldl take t).result =
      (Piece.chars? ps).map fun cs => String.ofList (t.chars.reverse ++ cs) := by
  fun_induction Piece.chars? ps generalizing t with
  | case1 => simp [result, hw, hs]
  | case2 c ps ih =>
    rw [List.foldl_cons, ih (by simp [take, push]) (by simp [take, push, hw, hs])]
    simp [take, push, Function.comp_def]
  | case3 n hhigh m ps hlow ih =>
    rw [List.foldl_cons, List.foldl_cons, take_high hhigh, take_low hlow]
    dsimp only
    rw [ih rfl (by simp [hw, hs])]
    simp [Function.comp_def]
  | case4 n hhigh m ps hlow =>
    rw [List.foldl_cons, take_high hhigh]
    refine result_of_waiting rfl ?_
    rintro m' rest ⟨⟩
    exact hlow
  | case5 n ps hhigh hps =>
    rw [List.foldl_cons, take_high hhigh]
    exact result_of_waiting rfl fun m rest he => (hps m rest he).elim
  | case6 n ps hhigh hlow =>
    rw [List.foldl_cons, take_low hlow, hw]
    exact result_of_not_sound rfl ps
  | case7 n ps hhigh hlow ih =>
    rw [List.foldl_cons, take_unit hhigh hlow, ih (by simp [push]) (by simp [push, hw, hs])]
    simp [push, Function.comp_def]

end TextSoFar

end Token

/-- Every spelling of a text is tokenized to the text. -/
theorem tokens_text {ps : List Piece} {cs : List Char} (h : TextBody ps cs) (rest : List Char) :
    tokens ('"' :: (cs ++ '"' :: rest)) =
      .text ((Piece.chars? ps).map String.ofList) :: tokens rest := by
  have hscan := Token.scanText_body h {} rest
  rw [Token.TextSoFar.result_foldl ps rfl rfl] at hscan
  refine tokens_cons rfl ?_ (by simp)
  simp only [Token.next, hscan]
  rfl

/-! ## Numbers -/

/-- The characters of digits. -/
def digitChars (ds : List Nat) : List Char := ds.map fun d => Char.ofNat (48 + d)

/-- `ds` is a nonempty list of decimal digits. -/
def AreDigits (ds : List Nat) : Prop := ds ≠ [] ∧ ∀ d ∈ ds, d < 10

namespace Numeral

/-- The spellings of a fraction with its point. -/
inductive FractionWritten : Option (List Nat) → List Char → Prop
  | absent : FractionWritten none []
  | point {ds} : AreDigits ds → FractionWritten (some ds) ('.' :: digitChars ds)

/-- The spellings of an exponent. -/
inductive ExponentWritten : Option (Bool × List Nat) → List Char → Prop
  | absent : ExponentWritten none []
  | bare {e ds} : e = 'e' ∨ e = 'E' → AreDigits ds →
      ExponentWritten (some (false, ds)) (e :: digitChars ds)
  | plus {e ds} : e = 'e' ∨ e = 'E' → AreDigits ds →
      ExponentWritten (some (false, ds)) (e :: '+' :: digitChars ds)
  | minus {e ds} : e = 'e' ∨ e = 'E' → AreDigits ds →
      ExponentWritten (some (true, ds)) (e :: '-' :: digitChars ds)

/-- The spellings of a number. The whole part has no leading zero. -/
inductive Written : Numeral → List Char → Prop
  | mk {negative whole fraction exponent fs es} : AreDigits whole →
      (∀ rest, whole = 0 :: rest → rest = []) → FractionWritten fraction fs →
      ExponentWritten exponent es →
      Written ⟨negative, whole, fraction, exponent⟩
        ((if negative then ['-'] else []) ++ digitChars whole ++ fs ++ es)

/-- `rest` does not continue a number. -/
def Stops (rest : List Char) : Prop :=
  ∀ c, rest.head? = some c → c.isDigit = false ∧ c ≠ '.' ∧ c ≠ 'e' ∧ c ≠ 'E'

theorem digitChars_spec {d : Nat} (h : d < 10) :
    (Char.ofNat (48 + d)).isDigit = true ∧ (Char.ofNat (48 + d)).toNat - 48 = d := by
  interval_cases d <;> decide

theorem digits_append {ds : List Nat} (h : ∀ d ∈ ds, d < 10) {rest : List Char}
    (hrest : ∀ c, rest.head? = some c → c.isDigit = false) :
    digits (digitChars ds ++ rest) = (ds, rest) := by
  have htake : rest.takeWhile Char.isDigit = [] ∧ rest.dropWhile Char.isDigit = rest := by
    cases rest with
    | nil => exact ⟨rfl, rfl⟩
    | cons c rest => simp [hrest c rfl]
  have hdigits : ∀ c ∈ digitChars ds, c.isDigit = true := by
    intro c hc
    obtain ⟨d, hd, rfl⟩ := List.mem_map.1 hc
    exact (digitChars_spec (h d hd)).1
  have hvalues : (digitChars ds).map (fun c => c.toNat - 48) = ds := by
    rw [digitChars, List.map_map]
    exact (List.map_congr_left fun d hd => (digitChars_spec (h d hd)).2).trans (List.map_id ds)
  rw [digits, List.takeWhile_append_of_pos hdigits, List.dropWhile_append_of_pos hdigits, htake.1,
    htake.2, List.append_nil, hvalues]

theorem scanFraction_append {fraction : Option (List Nat)} {fs : List Char}
    (h : FractionWritten fraction fs) {rest : List Char}
    (hrest : ∀ c, rest.head? = some c → c.isDigit = false ∧ c ≠ '.') :
    scanFraction (fs ++ rest) = some (fraction, rest) := by
  cases h with
  | absent =>
    rw [List.nil_append, scanFraction]
    rintro cs rfl
    exact (hrest '.' rfl).2 rfl
  | @point ds hds =>
    rw [List.cons_append, scanFraction, digits_append hds.2 fun c hc => (hrest c hc).1]
    obtain ⟨d, ds, rfl⟩ := List.exists_cons_of_ne_nil hds.1
    rfl

theorem scanSign_of_isDigit {c : Char} (h : c.isDigit = true) (cs : List Char) :
    scanSign (c :: cs) = (false, c :: cs) := by
  rw [scanSign]
  all_goals
    rintro cs' he
    obtain ⟨rfl, -⟩ := List.cons.inj he
    exact absurd h (by decide)

theorem scanExponent_append {exponent : Option (Bool × List Nat)} {es : List Char}
    (h : ExponentWritten exponent es) {rest : List Char} (hrest : Stops rest) :
    scanExponent (es ++ rest) = some (exponent, rest) := by
  have hscan {negative : Bool} {e : Char} {ds : List Nat} {cs : List Char} (he : e = 'e' ∨ e = 'E')
      (hds : AreDigits ds) (hsign : scanSign (cs ++ rest) = (negative, digitChars ds ++ rest)) :
      scanExponent (e :: cs ++ rest) = some (some (negative, ds), rest) := by
    rw [List.cons_append, scanExponent, if_pos he, hsign]
    dsimp only
    rw [digits_append hds.2 fun c hc => (hrest c hc).1]
    obtain ⟨d, ds, rfl⟩ := List.exists_cons_of_ne_nil hds.1
    rfl
  cases h with
  | absent => cases rest with
    | nil => rfl
    | cons c rest =>
      have hc := hrest c rfl
      rw [List.nil_append, scanExponent, if_neg (by simp [hc.2.2.1, hc.2.2.2])]
  | bare he hds =>
    refine hscan he hds ?_
    obtain ⟨d, ds, rfl⟩ := List.exists_cons_of_ne_nil hds.1
    exact scanSign_of_isDigit (digitChars_spec (hds.2 d List.mem_cons_self)).1 _
  | plus he hds => exact hscan he hds rfl
  | minus he hds => exact hscan he hds rfl

theorem ExponentWritten.head? {exponent : Option (Bool × List Nat)} {es : List Char}
    (h : ExponentWritten exponent es) {rest : List Char} (hrest : Stops rest) {c : Char}
    (hc : (es ++ rest).head? = some c) : c.isDigit = false ∧ c ≠ '.' := by
  have hmark {e : Char} {cs : List Char} (he : e = 'e' ∨ e = 'E')
      (hc : (e :: cs ++ rest).head? = some c) : c.isDigit = false ∧ c ≠ '.' := by
    obtain rfl := Option.some.inj hc
    rcases he with rfl | rfl <;> decide
  cases h with
  | absent => exact ⟨(hrest c hc).1, (hrest c hc).2.1⟩
  | bare he hds => exact hmark he hc
  | plus he hds => exact hmark he hc
  | minus he hds => exact hmark he hc

theorem FractionWritten.head? {fraction : Option (List Nat)} {fs : List Char}
    (h : FractionWritten fraction fs) {rest : List Char}
    (hrest : ∀ c, rest.head? = some c → c.isDigit = false) {c : Char}
    (hc : (fs ++ rest).head? = some c) : c.isDigit = false := by
  cases h with
  | absent => exact hrest c hc
  | point hds =>
    obtain rfl := Option.some.inj hc
    rfl

/-- The numeral after its sign is scanned. -/
theorem scan_append (negative : Bool) {whole : List Nat} {fraction : Option (List Nat)}
    {exponent : Option (Bool × List Nat)} {fs es rest : List Char} (hwhole : AreDigits whole)
    (hzero : ∀ ds, whole = 0 :: ds → ds = []) (hfs : FractionWritten fraction fs)
    (hes : ExponentWritten exponent es) (hrest : Stops rest) :
    scan negative (digitChars whole ++ (fs ++ (es ++ rest))) =
      some (⟨negative, whole, fraction, exponent⟩, rest) := by
  have hexp : ∀ c, (es ++ rest).head? = some c → c.isDigit = false ∧ c ≠ '.' := fun c hc =>
    hes.head? hrest hc
  have hdigits := digits_append hwhole.2 fun c hc => hfs.head? (fun c hc => (hexp c hc).1) hc
  have htail : scanTail negative whole (fs ++ (es ++ rest)) =
      some (⟨negative, whole, fraction, exponent⟩, rest) := by
    rw [scanTail, scanFraction_append hfs hexp]
    show (scanExponent (es ++ rest)).bind _ = _
    rw [scanExponent_append hes hrest]
    rfl
  rw [scan, hdigits]
  obtain ⟨d, ds, rfl⟩ := List.exists_cons_of_ne_nil hwhole.1
  split
  · next he => cases he
  · next d' ds' _ he =>
    obtain ⟨he, -⟩ := Prod.mk.inj he
    obtain ⟨rfl, he⟩ := List.cons.inj he
    rw [hzero ds rfl] at he
    cases he
  · next he =>
    obtain ⟨rfl, rfl⟩ := Prod.mk.inj he
    exact htail

end Numeral

theorem next_of_digit {d : Nat} (h : d < 10) (cs : List Char) :
    Token.next (Char.ofNat (48 + d)) cs = Token.numeral false (Char.ofNat (48 + d) :: cs) ∧
      isSpace (Char.ofNat (48 + d)) = false := by
  interval_cases d <;> exact ⟨rfl, rfl⟩

/-- Every spelling of a number is tokenized to the number, if `rest` does not continue it. -/
theorem tokens_number {n : Numeral} {cs rest : List Char} (h : n.Written cs)
    (hrest : Numeral.Stops rest) : tokens (cs ++ rest) = .number n.value? :: tokens rest := by
  obtain ⟨hwhole, hzero, hfs, hes⟩ := h
  rename_i negative whole fraction exponent fs es
  have hscan := Numeral.scan_append negative hwhole hzero hfs hes hrest
  have hnumeral : Token.numeral negative (digitChars whole ++ (fs ++ (es ++ rest))) =
      (.number (Numeral.value? ⟨negative, whole, fraction, exponent⟩), rest) := by
    rw [Token.numeral, hscan]
  cases negative with
  | true =>
    simp only [if_true, List.append_assoc, List.singleton_append]
    exact tokens_cons rfl hnumeral (by simp)
  | false =>
    obtain ⟨d, ds, rfl⟩ := List.exists_cons_of_ne_nil hwhole.1
    have hd := next_of_digit (hwhole.2 d List.mem_cons_self)
      (digitChars ds ++ (fs ++ (es ++ rest)))
    simp only [Bool.false_eq_true, if_false, List.nil_append, List.append_assoc]
    exact tokens_cons hd.2 (hd.1.trans hnumeral) (by simp)

end PeerLink.Json
