import PeerLink.Json.Shape
import PeerLink.Proofs.Json.Words
/-!
# Documents and their spellings

A document can be spelled with blanks between any two of its tokens, and each token with any of its
spellings. Reading any spelling gives the document.

## Main definitions

* `Draft.Written`: the spellings of a document.
* `Draft.Spells`: a text is a spelling of a document, with blanks around it.
* `Draft.words`: the tokens of a document.

## Main statements

* `Draft.tokens_written`: the tokens of a spelling are the tokens of the document.
* `Draft.take_words`: parsing the tokens of a document gives the document.
* `Draft.Spells.readText`: reading a spelling of a document reads the document.
-/

namespace PeerLink.Json

/-- Characters with blanks around them. -/
def Padded (P : List Char → Prop) (cs : List Char) : Prop :=
  ∃ before inner after, IsBlank before ∧ P inner ∧ IsBlank after ∧ cs = before ++ (inner ++ after)

/-- The spellings of a text. The text is `none` if it contains an unpaired surrogate. -/
def TextWritten (s : Option String) (cs : List Char) : Prop :=
  ∃ ps body, TextBody ps body ∧ s = (Piece.chars? ps).map String.ofList ∧
    cs = '"' :: (body ++ ['"'])

namespace Draft

/-! ## Spellings -/

mutual

/-- The spellings of a document, without the blanks around it. -/
def Written : Draft → List Char → Prop
  | broken, _ => False
  | null, cs => cs = "null".toList
  | bool b, cs => cs = (if b then "true" else "false").toList
  | number v, cs => ∃ n : Numeral, n.Written cs ∧ v = n.value?
  | text s, cs => TextWritten s cs
  | array items closed, cs =>
    closed = true ∧ ∃ inner, ItemsWritten items inner ∧ cs = '[' :: (inner ++ [']'])
  | object members closed, cs =>
    closed = true ∧ ∃ inner, MembersWritten members inner ∧ cs = '\x7b' :: (inner ++ ['\x7d'])

/-- The spellings of the items of an array. -/
def ItemsWritten : List Draft → List Char → Prop
  | [], cs => IsBlank cs
  | [d], cs => Padded (Written d) cs
  | d :: ds, cs =>
    ∃ first rest, Padded (Written d) first ∧ ItemsWritten ds rest ∧ cs = first ++ ',' :: rest

/-- The spellings of the members of an object. -/
def MembersWritten : List (Option String × Draft) → List Char → Prop
  | [], cs => IsBlank cs
  | [(key, d)], cs =>
    ∃ first value, Padded (TextWritten key) first ∧ Padded (Written d) value ∧
      cs = first ++ ':' :: value
  | (key, d) :: ms, cs =>
    ∃ first value rest, Padded (TextWritten key) first ∧ Padded (Written d) value ∧
      MembersWritten ms rest ∧ cs = first ++ ':' :: (value ++ ',' :: rest)

end

/-- The text `s` is a spelling of the document, with blanks around it. -/
def Spells (s : String) (d : Draft) : Prop := Padded d.Written s.toList

mutual

/-- The tokens of a document. -/
def words : Draft → List Token
  | broken => [.junk]
  | null => [.null]
  | bool b => [.bool b]
  | number n => [.number n]
  | text s => [.text s]
  | array items _ => .openArray :: (itemWords items ++ [.closeArray])
  | object members _ => .openObject :: (memberWords members ++ [.closeObject])

/-- The tokens of the items of an array. -/
def itemWords : List Draft → List Token
  | [] => []
  | [d] => words d
  | d :: ds => words d ++ .comma :: itemWords ds

/-- The tokens of the members of an object. -/
def memberWords : List (Option String × Draft) → List Token
  | [] => []
  | [(key, d)] => .text key :: .colon :: words d
  | (key, d) :: ms => .text key :: .colon :: (words d ++ .comma :: memberWords ms)

end

theorem itemWords_cons (d d' : Draft) (ds : List Draft) :
    itemWords (d :: d' :: ds) = words d ++ .comma :: itemWords (d' :: ds) := rfl

theorem memberWords_cons (key : Option String) (d : Draft) (m : Option String × Draft)
    (ms : List (Option String × Draft)) :
    memberWords ((key, d) :: m :: ms) =
      .text key :: .colon :: (words d ++ .comma :: memberWords (m :: ms)) := rfl

/-! ## From texts to tokens -/

theorem stops_nil : Numeral.Stops [] := fun _ h => by cases h

theorem stops_cons {c : Char} {rest : List Char}
    (h : c.isDigit = false ∧ c ≠ '.' ∧ c ≠ 'e' ∧ c ≠ 'E') : Numeral.Stops (c :: rest) :=
  fun _ hc => Option.some.inj hc ▸ h

theorem stops_blank {ws rest : List Char} (h : IsBlank ws) (hrest : Numeral.Stops rest) :
    Numeral.Stops (ws ++ rest) := by
  cases ws with
  | nil => exact hrest
  | cons c ws =>
    have hc : isSpace c = true := h c List.mem_cons_self
    simp only [isSpace, Bool.or_eq_true, decide_eq_true_eq] at hc
    refine stops_cons ?_
    rcases hc with ((rfl | rfl) | rfl) | rfl <;> decide

theorem tokens_padded {P : List Char → Prop} {ts : List Token} {cs : List Char} (h : Padded P cs)
    (htokens : ∀ cs rest, P cs → Numeral.Stops rest → tokens (cs ++ rest) = ts ++ tokens rest)
    {rest : List Char} (hrest : Numeral.Stops rest) : tokens (cs ++ rest) = ts ++ tokens rest := by
  obtain ⟨before, inner, after, hbefore, hinner, hafter, rfl⟩ := h
  rw [List.append_assoc, tokens_blank hbefore, List.append_assoc,
    htokens inner _ hinner (stops_blank hafter hrest), tokens_blank hafter]

theorem tokens_textWritten {s : Option String} {cs : List Char} (h : TextWritten s cs)
    (rest : List Char) : tokens (cs ++ rest) = .text s :: tokens rest := by
  obtain ⟨ps, body, hbody, rfl, rfl⟩ := h
  rw [List.cons_append, List.append_assoc]
  exact tokens_text hbody rest

mutual

/-- The tokens of a spelling are the tokens of the document. -/
theorem tokens_written (d : Draft) {cs rest : List Char} (h : d.Written cs)
    (hrest : Numeral.Stops rest) : tokens (cs ++ rest) = d.words ++ tokens rest := by
  cases d with
  | broken => exact h.elim
  | null =>
    obtain rfl : cs = "null".toList := h
    exact tokens_null rest
  | bool b =>
    obtain rfl : cs = (if b then "true" else "false").toList := h
    exact tokens_bool b rest
  | number v =>
    obtain ⟨n, hn, rfl⟩ := h
    exact tokens_number hn hrest
  | text s => exact tokens_textWritten h rest
  | array items closed =>
    obtain ⟨-, inner, hinner, rfl⟩ := h
    have hclose : tokens (']' :: rest) = .closeArray :: tokens rest := tokens_mark rfl rest
    have hopen : tokens ('[' :: (inner ++ ']' :: rest)) =
        .openArray :: tokens (inner ++ ']' :: rest) :=
      tokens_mark rfl _
    rw [List.cons_append, List.append_assoc, List.singleton_append, hopen,
      tokens_itemsWritten items hinner (stops_cons (by decide)), hclose, words]
    simp
  | object members closed =>
    obtain ⟨-, inner, hinner, rfl⟩ := h
    have hclose : tokens ('\x7d' :: rest) = .closeObject :: tokens rest := tokens_mark rfl rest
    have hopen : tokens ('\x7b' :: (inner ++ '\x7d' :: rest)) =
        .openObject :: tokens (inner ++ '\x7d' :: rest) :=
      tokens_mark rfl _
    rw [List.cons_append, List.append_assoc, List.singleton_append, hopen,
      tokens_membersWritten members hinner (stops_cons (by decide)), hclose, words]
    simp

theorem tokens_itemsWritten (items : List Draft) {cs rest : List Char}
    (h : ItemsWritten items cs) (hrest : Numeral.Stops rest) :
    tokens (cs ++ rest) = itemWords items ++ tokens rest := by
  match items with
  | [] => exact tokens_blank h rest
  | [d] => exact tokens_padded h (fun _ _ hd hs => tokens_written d hd hs) hrest
  | d :: d' :: ds =>
    obtain ⟨first, more, hfirst, hmore, rfl⟩ := h
    have hcomma : tokens (',' :: (more ++ rest)) = .comma :: tokens (more ++ rest) :=
      tokens_mark rfl _
    rw [List.append_assoc, List.cons_append,
      tokens_padded hfirst (fun _ _ hd hs => tokens_written d hd hs) (stops_cons (by decide)),
      hcomma, tokens_itemsWritten (d' :: ds) hmore hrest, itemWords_cons]
    simp

theorem tokens_membersWritten (members : List (Option String × Draft)) {cs rest : List Char}
    (h : MembersWritten members cs) (hrest : Numeral.Stops rest) :
    tokens (cs ++ rest) = memberWords members ++ tokens rest := by
  have hkey {key : Option String} {first : List Char} (h : Padded (TextWritten key) first)
      (rest : List Char) : tokens (first ++ ':' :: rest) = .text key :: .colon :: tokens rest := by
    have hcolon : tokens (':' :: rest) = .colon :: tokens rest := tokens_mark rfl _
    have hwritten (cs rest : List Char) (hcs : TextWritten key cs) (_ : Numeral.Stops rest) :
        tokens (cs ++ rest) = [.text key] ++ tokens rest := tokens_textWritten hcs rest
    rw [tokens_padded h hwritten (stops_cons (by decide)), hcolon]
    rfl
  match members with
  | [] => exact tokens_blank h rest
  | [(key, d)] =>
    obtain ⟨first, value, hfirst, hvalue, rfl⟩ := h
    rw [List.append_assoc, List.cons_append, hkey hfirst,
      tokens_padded hvalue (fun _ _ hd hs => tokens_written d hd hs) hrest]
    rfl
  | (key, d) :: m :: ms =>
    obtain ⟨first, value, more, hfirst, hvalue, hmore, rfl⟩ := h
    have hcomma : tokens (',' :: (more ++ rest)) = .comma :: tokens (more ++ rest) :=
      tokens_mark rfl _
    rw [List.append_assoc, List.cons_append, hkey hfirst, List.append_assoc, List.cons_append,
      tokens_padded hvalue (fun _ _ hd hs => tokens_written d hd hs) (stops_cons (by decide)),
      hcomma, tokens_membersWritten (m :: ms) hmore hrest, memberWords_cons]
    simp

end

/-! ## From tokens to documents -/

mutual

theorem isWhole_of_written (d : Draft) {cs : List Char} (h : d.Written cs) : d.isWhole = true := by
  cases d with
  | broken => exact h.elim
  | null | bool | number | text => rfl
  | array items closed =>
    obtain ⟨rfl, inner, hinner, -⟩ := h
    simp [isWhole, allWhole_of_written items hinner]
  | object members closed =>
    obtain ⟨rfl, inner, hinner, -⟩ := h
    simp [isWhole, membersWhole_of_written members hinner]

theorem allWhole_of_written (items : List Draft) {cs : List Char} (h : ItemsWritten items cs) :
    allWhole items = true := by
  match items with
  | [] => rfl
  | [d] =>
    obtain ⟨_, _, _, _, hd, -⟩ := h
    simp [allWhole, isWhole_of_written d hd]
  | d :: d' :: ds =>
    obtain ⟨first, more, ⟨_, _, _, _, hd, -⟩, hmore, -⟩ := h
    rw [allWhole, isWhole_of_written d hd, allWhole_of_written (d' :: ds) hmore]
    rfl

theorem membersWhole_of_written (members : List (Option String × Draft)) {cs : List Char}
    (h : MembersWritten members cs) : membersWhole members = true := by
  match members with
  | [] => rfl
  | [(key, d)] =>
    obtain ⟨_, _, _, ⟨_, _, _, _, hd, -⟩, -⟩ := h
    simp [membersWhole, isWhole_of_written d hd]
  | (key, d) :: m :: ms =>
    obtain ⟨_, _, more, _, ⟨_, _, _, _, hd, -⟩, hmore, -⟩ := h
    rw [membersWhole, isWhole_of_written d hd, membersWhole_of_written (m :: ms) hmore]
    rfl

end

theorem length_words_pos (d : Draft) : 0 < d.words.length := by
  cases d <;> simp [words]

/-- The tokens of the items of an array do not begin with the closing bracket. -/
theorem itemWords_append_ne (d : Draft) (ds : List Draft) (more ts : List Token) :
    itemWords (d :: ds) ++ more ≠ .closeArray :: ts := by
  intro h
  have hhead := congrArg List.head? h
  cases ds <;> cases d <;> simp [itemWords, words] at hhead

/-- The tokens of the members of an object do not begin with the closing brace. -/
theorem memberWords_append_ne (m : Option String × Draft) (ms : List (Option String × Draft))
    (more ts : List Token) : memberWords (m :: ms) ++ more ≠ .closeObject :: ts := by
  cases ms <;> simp [memberWords]

mutual

/-- Parsing the tokens of a document gives the document, with enough fuel: a step for every token
and for every item or member. -/
theorem take_words (d : Draft) (h : d.isWhole = true) (fuel : Nat)
    (hfuel : 2 * d.words.length ≤ fuel + 2) (ts : List Token) :
    take fuel (d.words ++ ts) = (d, ts) := by
  match d with
  | broken => cases h
  | null | bool _ | number _ | text _ => cases fuel <;> rfl
  | array [] closed | object [] closed =>
    obtain rfl : closed = true := by simpa [isWhole, allWhole, membersWhole] using h
    cases fuel <;> rfl
  | array (d :: ds) closed =>
    simp only [isWhole, Bool.and_eq_true] at h
    obtain ⟨rfl, hitems⟩ := h
    simp only [words, List.length_cons, List.length_append, List.length_nil] at hfuel
    obtain ⟨fuel, rfl⟩ : ∃ n, fuel = n + 1 := ⟨fuel - 1, by omega⟩
    rw [words, List.cons_append, List.append_assoc, List.singleton_append, take]
    · rw [takeItems_words (d :: ds) (by simp) hitems fuel (by omega)]
    · exact itemWords_append_ne d ds _
  | object (m :: ms) closed =>
    simp only [isWhole, Bool.and_eq_true] at h
    obtain ⟨rfl, hmembers⟩ := h
    simp only [words, List.length_cons, List.length_append, List.length_nil] at hfuel
    obtain ⟨fuel, rfl⟩ : ∃ n, fuel = n + 1 := ⟨fuel - 1, by omega⟩
    rw [words, List.cons_append, List.append_assoc, List.singleton_append, take]
    · rw [takeMembers_words (m :: ms) (by simp) hmembers fuel (by omega)]
    · exact memberWords_append_ne m ms _

theorem takeItems_words (items : List Draft) (hne : items ≠ []) (h : allWhole items = true)
    (fuel : Nat) (hfuel : 2 * (itemWords items).length ≤ fuel + 1) (ts : List Token) :
    takeItems fuel (itemWords items ++ .closeArray :: ts) = (items, true, ts) := by
  match items with
  | [] => exact (hne rfl).elim
  | [d] =>
    simp only [allWhole, Bool.and_eq_true] at h
    simp only [itemWords] at hfuel ⊢
    have hpos := length_words_pos d
    obtain ⟨fuel, rfl⟩ : ∃ n, fuel = n + 1 := ⟨fuel - 1, by omega⟩
    rw [takeItems, take_words d h.1 fuel (by omega)]
  | d :: d' :: ds =>
    rw [allWhole, Bool.and_eq_true] at h
    rw [itemWords_cons] at hfuel ⊢
    simp only [List.length_append, List.length_cons] at hfuel
    have hpos := length_words_pos d
    obtain ⟨fuel, rfl⟩ : ∃ n, fuel = n + 1 := ⟨fuel - 1, by omega⟩
    rw [List.append_assoc, List.cons_append, takeItems, take_words d h.1 fuel (by omega)]
    dsimp only
    rw [takeItems_words (d' :: ds) (by simp) h.2 fuel (by omega)]

theorem takeMembers_words (members : List (Option String × Draft)) (hne : members ≠ [])
    (h : membersWhole members = true) (fuel : Nat)
    (hfuel : 2 * (memberWords members).length ≤ fuel + 1) (ts : List Token) :
    takeMembers fuel (memberWords members ++ .closeObject :: ts) = (members, true, ts) := by
  match members with
  | [] => exact (hne rfl).elim
  | [(key, d)] =>
    simp only [membersWhole, Bool.and_eq_true] at h
    simp only [memberWords, List.length_cons] at hfuel ⊢
    obtain ⟨fuel, rfl⟩ : ∃ n, fuel = n + 1 := ⟨fuel - 1, by omega⟩
    rw [List.cons_append, List.cons_append, takeMembers, take_words d h.1 fuel (by omega)]
  | (key, d) :: m :: ms =>
    rw [membersWhole, Bool.and_eq_true] at h
    rw [memberWords_cons] at hfuel ⊢
    simp only [List.length_append, List.length_cons] at hfuel
    obtain ⟨fuel, rfl⟩ : ∃ n, fuel = n + 1 := ⟨fuel - 1, by omega⟩
    rw [List.cons_append, List.cons_append, List.append_assoc, List.cons_append, takeMembers,
      take_words d h.1 fuel (by omega)]
    dsimp only
    rw [takeMembers_words (m :: ms) (by simp) h.2 fuel (by omega)]

end

/-! ## Whole texts -/

theorem Spells.isWhole {s : String} {d : Draft} (h : Spells s d) : d.isWhole = true := by
  obtain ⟨_, _, _, _, hd, -⟩ := h
  exact isWhole_of_written d hd

/-- Reading a spelling of a document reads the document. -/
theorem Spells.readText {α : Type} {s : String} {d : Draft} (h : Spells s d) (read : Reader α) :
    readText read s = read d := by
  have htokens : tokens s.toList = d.words := by
    have := tokens_padded h (fun _ _ hd hs => tokens_written d hd hs) stops_nil
    simpa [tokens] using this
  have htake : ofTokens (tokens s.toList) = (d, []) := by
    have := take_words d h.isWhole (2 * d.words.length + 1) (by omega) []
    rwa [List.append_nil, ← htokens] at this
  rw [Json.readText, htake]
  dsimp only
  cases read d <;> rfl

end Draft

end PeerLink.Json
