import Lox.Token.Lexer
import Mathlib.Data.List.TakeWhile

/-!
# The classes of pieces

`Matches form text` says which texts a piece of each form has: blanks and comments, symbols, strings,
numbers and words. The classes overlap, so a text may begin in several ways; `Begins` takes the
longest. Where nothing matches, the text begins with an error: a quote that is never closed takes in
all that is left, any other character stands alone.

`munch` gives the piece that a text begins with, and no other piece begins it (`begins_iff`).
-/

namespace Lox.Lexer

/-- The characters that separate tokens. -/
def blanks : List Char := [' ', '\t', '\r', '\n']

/-- The text begins with a letter or an underscore and goes on with letters, digits and underscores. -/
structure IsWord (text : List Char) : Prop where
  begins : ∃ c cs, text = c :: cs ∧ isWordStart c = true
  parts : ∀ c ∈ text, isWordPart c = true

/-- The text is digits, at least one. -/
structure IsDigits (text : List Char) : Prop where
  some : text ≠ []
  digits : ∀ c ∈ text, c.isDigit = true

/-- The text is that of one piece of this form. -/
inductive Matches : Form → List Char → Prop
  | blank {c : Char} : c ∈ blanks → Matches .layout [c]
  | comment {body : List Char} : '\n' ∉ body → Matches .layout ('/' :: '/' :: body)
  | symbol {text : List Char} (s : Symbol) :
    s.text = String.ofList text → Matches (.token (.symbol s)) text
  | string {value : List Char} :
    '"' ∉ value → Matches (.token (.string (String.ofList value))) ('"' :: value ++ ['"'])
  | integer {whole : List Char} :
    IsDigits whole → Matches (.token (.number (numberValue whole []))) whole
  | decimal {whole fraction : List Char} : IsDigits whole → IsDigits fraction →
    Matches (.token (.number (numberValue whole fraction))) (whole ++ '.' :: fraction)
  | keyword {text : List Char} (k : Keyword) :
    k.text = String.ofList text → Matches (.token (.keyword k)) text
  | identifier {text : List Char} : IsWord text → (∀ k : Keyword, k.text ≠ String.ofList text) →
    Matches (.token .identifier) text

/-- No front of the text is that of a piece. -/
def Unmatched (text : List Char) : Prop :=
  ∀ form front rest, Matches form front → front ++ rest ≠ text

/-- The text begins with this piece. -/
inductive Begins : List Char → Piece → Prop
  | longest {p : Piece} : Matches p.form p.text →
    (∀ form front rest, Matches form front → front ++ rest = p.text ++ p.rest →
      front.length ≤ p.text.length) →
    Begins (p.text ++ p.rest) p
  | stray {c : Char} {rest : List Char} : Unmatched (c :: rest) → c ≠ '"' →
    Begins (c :: rest) ⟨.error (.stray c), [c], rest⟩
  | unclosed {rest : List Char} : Unmatched ('"' :: rest) →
    Begins ('"' :: rest) ⟨.error .unclosedString, '"' :: rest, []⟩

/-! ## What is taken is the front of the text -/

/-- A piece is the front of its text, and not empty. -/
def Piece.Splits (p : Piece) (text : List Char) : Prop :=
  p.text ++ p.rest = text ∧ p.text ≠ []

theorem splits_cons (form : Form) (c : Char) (rest : List Char) :
    Piece.Splits ⟨form, [c], rest⟩ (c :: rest) := ⟨rfl, List.cons_ne_nil _ _⟩

theorem symbolPiece_splits (alone joined : Symbol) (c : Char) (rest : List Char) :
    (symbolPiece alone joined c rest).Splits (c :: rest) := by
  unfold symbolPiece
  split
  · exact ⟨rfl, List.cons_ne_nil _ _⟩
  · exact splits_cons _ _ _

theorem slashPiece_splits (rest : List Char) : (slashPiece rest).Splits ('/' :: rest) := by
  unfold slashPiece
  split
  · constructor
    · simp [List.takeWhile_append_dropWhile]
    · exact List.cons_ne_nil _ _
  · exact splits_cons _ _ _

theorem stringPiece_splits (rest : List Char) : (stringPiece rest).Splits ('"' :: rest) := by
  have whole : rest.takeWhile (· != '"') ++ rest.dropWhile (· != '"') = rest :=
    List.takeWhile_append_dropWhile
  unfold stringPiece
  dsimp only
  split
  · exact ⟨List.append_nil _, List.cons_ne_nil _ _⟩
  · next quote after behind =>
    rw [behind] at whole
    constructor
    · simpa using whole
    · exact List.cons_ne_nil _ _

theorem takeWhile_ne_nil {p : Char → Bool} {c : Char} (rest : List Char) (h : p c = true) :
    (c :: rest).takeWhile p ≠ [] := by
  simp [h]

theorem numberPiece_splits {c : Char} (rest : List Char) (digit : c.isDigit = true) :
    (numberPiece (c :: rest)).Splits (c :: rest) := by
  have whole : (c :: rest).takeWhile Char.isDigit ++ (c :: rest).dropWhile Char.isDigit = c :: rest :=
    List.takeWhile_append_dropWhile
  have some := takeWhile_ne_nil rest digit
  unfold numberPiece
  dsimp only
  split
  · next d more behind =>
    rw [behind] at whole
    split
    · constructor
      · simpa using whole
      · simp
    · exact ⟨whole, some⟩
  · next behind _ =>
    exact ⟨whole, some⟩

theorem isWordPart_of_isWordStart {c : Char} (begins : isWordStart c = true) :
    isWordPart c = true := by
  simp only [isWordStart, Bool.or_eq_true] at begins
  rcases begins with letter | underscore
  · simp [isWordPart, Char.isAlphanum, letter]
  · simp [isWordPart, underscore]

theorem wordPiece_splits {c : Char} (rest : List Char) (begins : isWordStart c = true) :
    (wordPiece (c :: rest)).Splits (c :: rest) :=
  ⟨List.takeWhile_append_dropWhile, takeWhile_ne_nil rest (isWordPart_of_isWordStart begins)⟩

theorem munch_splits (c : Char) (rest : List Char) : (munch c rest).Splits (c :: rest) := by
  unfold munch
  split
  all_goals try exact splits_cons _ _ _
  all_goals try exact symbolPiece_splits _ _ _ _
  · exact slashPiece_splits rest
  · exact stringPiece_splits rest
  · split
    · next digit => exact numberPiece_splits rest digit
    · split
      · next begins => exact wordPiece_splits rest begins
      · exact splits_cons _ _ _

theorem munch_rest_length (c : Char) (cs : List Char) : (munch c cs).rest.length ≤ cs.length := by
  obtain ⟨whole, some⟩ := munch_splits c cs
  have lengths := congrArg List.length whole
  have positive := List.length_pos_iff.2 some
  simp only [List.length_append, List.length_cons] at lengths
  omega

/-! ## What is taken matches -/

theorem ofText?_eq_some {word : String} {k : Keyword} (h : Keyword.ofText? word = some k) :
    k.text = word := by
  have found := List.find?_some h
  simpa using found

theorem ofText?_eq_none_iff {word : String} :
    Keyword.ofText? word = none ↔ ∀ k : Keyword, k.text ≠ word := by
  constructor
  · intro missed k
    have all : k ∈ Keyword.all := by cases k <;> decide
    have different := List.find?_eq_none.1 missed k all
    simpa using different
  · intro other
    cases found : Keyword.ofText? word with
    | none => rfl
    | some k => exact absurd (ofText?_eq_some found) (other k)

theorem ofText?_text (k : Keyword) : Keyword.ofText? k.text = some k := by
  cases k <;> decide +kernel

/-- The piece is a match, or an error where it should be. -/
def Piece.Fits (p : Piece) (c : Char) (cs : List Char) : Prop :=
  Matches p.form p.text ∨ (c ≠ '"' ∧ p = ⟨.error (.stray c), [c], cs⟩) ∨
    (c = '"' ∧ p = ⟨.error .unclosedString, '"' :: cs, []⟩)

theorem symbolPiece_matches {alone joined : Symbol} {c : Char} (rest : List Char)
    (single : alone.text = String.ofList [c]) (double : joined.text = String.ofList [c, '=']) :
    Matches (symbolPiece alone joined c rest).form (symbolPiece alone joined c rest).text := by
  unfold symbolPiece
  split
  · exact .symbol joined double
  · exact .symbol alone single

theorem slashPiece_matches (rest : List Char) :
    Matches (slashPiece rest).form (slashPiece rest).text := by
  unfold slashPiece
  split
  · next rest =>
    apply Matches.comment
    intro mem
    have inside := List.mem_takeWhile_imp mem
    simp at inside
  · exact .symbol .slash rfl

theorem stringPiece_fits (rest : List Char) : (stringPiece rest).Fits '"' rest := by
  unfold stringPiece
  dsimp only
  split
  · exact .inr (.inr ⟨rfl, rfl⟩)
  · next quote after behind =>
    have isQuote : quote = '"' := by
      have ends := List.head?_dropWhile_not (· != '"') rest
      rw [behind] at ends
      simpa using ends
    subst isQuote
    apply Or.inl
    apply Matches.string
    intro mem
    have inside := List.mem_takeWhile_imp mem
    simp at inside

theorem isDigits_takeWhile {c : Char} (rest : List Char) (digit : c.isDigit = true) :
    IsDigits ((c :: rest).takeWhile Char.isDigit) :=
  ⟨takeWhile_ne_nil rest digit, fun _ mem => List.mem_takeWhile_imp mem⟩

theorem numberPiece_matches {c : Char} (rest : List Char) (digit : c.isDigit = true) :
    Matches (numberPiece (c :: rest)).form (numberPiece (c :: rest)).text := by
  have whole := isDigits_takeWhile rest digit
  unfold numberPiece
  dsimp only
  split
  · next d more behind =>
    split
    · next isDigit => exact .decimal whole (isDigits_takeWhile more isDigit)
    · exact .integer whole
  · exact .integer whole

theorem wordPiece_matches {c : Char} (rest : List Char) (begins : isWordStart c = true) :
    Matches (wordPiece (c :: rest)).form (wordPiece (c :: rest)).text := by
  have part := isWordPart_of_isWordStart begins
  unfold wordPiece
  dsimp only
  split
  · next k found => exact .keyword k (ofText?_eq_some found)
  · next missed =>
    apply Matches.identifier
    · constructor
      · exact ⟨c, rest.takeWhile isWordPart, List.takeWhile_cons_of_pos part, begins⟩
      · exact fun _ mem => List.mem_takeWhile_imp mem
    · exact ofText?_eq_none_iff.1 missed

/-- The piece that is taken is a match, or an error. -/
theorem munch_fits (c : Char) (cs : List Char) : (munch c cs).Fits c cs := by
  unfold munch
  split
  all_goals try exact .inl (.symbol _ rfl)
  all_goals try exact .inl (symbolPiece_matches cs rfl rfl)
  all_goals try exact .inl (.blank (by decide))
  · exact .inl (slashPiece_matches cs)
  · exact stringPiece_fits cs
  · split
    · next digit => exact .inl (numberPiece_matches cs digit)
    · split
      · next begins => exact .inl (wordPiece_matches cs begins)
      · next noQuote _ _ => exact .inr (.inl ⟨fun isQuote => by simp [isQuote] at *, rfl⟩)

theorem matches_of_token {c : Char} {cs : List Char} {kind : Kind}
    (isToken : (munch c cs).form = .token kind) : Matches (.token kind) (munch c cs).text := by
  rcases munch_fits c cs with matched | ⟨-, stray⟩ | ⟨-, unclosed⟩
  · rwa [isToken] at matched
  · rw [stray] at isToken
    cases isToken
  · rw [unclosed] at isToken
    cases isToken

/-! ## What matches is taken -/

/-- The piece is the match with the rest behind it, or a longer piece. -/
def Piece.Reaches (p : Piece) (form : Form) (text rest : List Char) : Prop :=
  p = ⟨form, text, rest⟩ ∨ (text.length < p.text.length ∧ ∀ cause, p.form ≠ .error cause)

/-- A run of characters is taken whole, and what follows it may go on with it. -/
theorem takeWhile_run {p : Char → Bool} {run : List Char} (inside : ∀ c ∈ run, p c = true)
    (rest : List Char) :
    ((run ++ rest).takeWhile p = run ∧ (run ++ rest).dropWhile p = rest) ∨
      run.length < ((run ++ rest).takeWhile p).length := by
  rw [List.takeWhile_append_of_pos inside, List.dropWhile_append_of_pos inside]
  cases rest with
  | nil => exact .inl ⟨List.append_nil _, rfl⟩
  | cons c rest =>
    by_cases more : p c = true
    · apply Or.inr
      simp [more]
    · exact .inl (by simp [more])

theorem ofList_injective {text text' : List Char} (h : String.ofList text = String.ofList text') :
    text = text' := by
  simpa using congrArg String.toList h

theorem symbolPiece_reaches (alone joined : Symbol) (c : Char) (rest : List Char) :
    (symbolPiece alone joined c rest).Reaches (.token (.symbol alone)) [c] rest := by
  unfold symbolPiece
  split
  · exact .inr ⟨by simp, by simp⟩
  · exact .inl rfl

theorem slashPiece_reaches (rest : List Char) :
    (slashPiece rest).Reaches (.token (.symbol .slash)) ['/'] rest := by
  unfold slashPiece
  split
  · exact .inr ⟨by simp, by simp⟩
  · exact .inl rfl

theorem comment_reaches {body : List Char} (inside : '\n' ∉ body) (rest : List Char) :
    (slashPiece ('/' :: (body ++ rest))).Reaches .layout ('/' :: '/' :: body) rest := by
  have all : ∀ c ∈ body, (c != '\n') = true := by
    intro c mem
    simp only [bne_iff_ne, ne_eq]
    rintro rfl
    exact inside mem
  simp only [slashPiece]
  rcases takeWhile_run all rest with ⟨taken, left⟩ | longer
  · rw [taken, left]
    exact .inl rfl
  · exact .inr ⟨by simpa using longer, by simp⟩

theorem string_reaches {value : List Char} (inside : '"' ∉ value) (rest : List Char) :
    (stringPiece (value ++ '"' :: rest)).Reaches (.token (.string (String.ofList value)))
      ('"' :: value ++ ['"']) rest := by
  have all : ∀ c ∈ value, (c != '"') = true := by
    intro c mem
    simp only [bne_iff_ne, ne_eq]
    rintro rfl
    exact inside mem
  have taken : (value ++ '"' :: rest).takeWhile (· != '"') = value := by
    rw [List.takeWhile_append_of_pos all]
    simp
  have left : (value ++ '"' :: rest).dropWhile (· != '"') = '"' :: rest := by
    rw [List.dropWhile_append_of_pos all]
    simp
  apply Or.inl
  unfold stringPiece
  rw [taken, left]

theorem numberPiece_not_error (text : List Char) (cause : LexCause) :
    (numberPiece text).form ≠ .error cause := by
  unfold numberPiece
  dsimp only
  split
  · split <;> simp
  · simp

/-- A number has at least the digits that the text begins with. -/
theorem length_numberPiece (text : List Char) :
    (text.takeWhile Char.isDigit).length ≤ (numberPiece text).text.length := by
  unfold numberPiece
  dsimp only
  split
  · split <;> simp
  · simp

theorem integer_reaches {whole : List Char} (h : IsDigits whole) (rest : List Char) :
    (numberPiece (whole ++ rest)).Reaches (.token (.number (numberValue whole []))) whole rest := by
  rcases takeWhile_run h.digits rest with ⟨taken, left⟩ | longer
  · unfold numberPiece
    rw [taken, left]
    dsimp only
    split
    · split
      · exact .inr ⟨by simp, by simp⟩
      · exact .inl rfl
    · exact .inl rfl
  · have atLeast := length_numberPiece (whole ++ rest)
    exact .inr ⟨by omega, numberPiece_not_error _⟩

theorem decimal_reaches {whole fraction : List Char} (h : IsDigits whole)
    (h' : IsDigits fraction) (rest : List Char) :
    (numberPiece (whole ++ '.' :: (fraction ++ rest))).Reaches
      (.token (.number (numberValue whole fraction))) (whole ++ '.' :: fraction) rest := by
  have taken : (whole ++ '.' :: (fraction ++ rest)).takeWhile Char.isDigit = whole := by
    rw [List.takeWhile_append_of_pos h.digits]
    simp
  have left : (whole ++ '.' :: (fraction ++ rest)).dropWhile Char.isDigit =
      '.' :: (fraction ++ rest) := by
    rw [List.dropWhile_append_of_pos h.digits]
    simp
  obtain ⟨d, ds, rfl⟩ := List.exists_cons_of_ne_nil h'.some
  have digit : d.isDigit = true := h'.digits d List.mem_cons_self
  unfold numberPiece
  rw [taken, left]
  simp only [List.cons_append, digit, if_true]
  rw [← List.cons_append]
  rcases takeWhile_run h'.digits rest with ⟨taken, left⟩ | longer
  · rw [taken, left]
    exact .inl rfl
  · apply Or.inr
    constructor
    · simp only [List.length_append, List.length_cons] at longer ⊢
      omega
    · simp

theorem wordPiece_not_error (text : List Char) (cause : LexCause) :
    (wordPiece text).form ≠ .error cause := by
  unfold wordPiece
  simp

theorem word_reaches {text : List Char} {kind : Kind} (parts : ∀ c ∈ text, isWordPart c = true)
    (isKind : kind = match Keyword.ofText? (String.ofList text) with
      | some k => .keyword k
      | none => .identifier) (rest : List Char) :
    (wordPiece (text ++ rest)).Reaches (.token kind) text rest := by
  rcases takeWhile_run parts rest with ⟨taken, left⟩ | longer
  · unfold wordPiece
    rw [taken, left, isKind]
    exact .inl rfl
  · exact .inr ⟨longer, wordPiece_not_error _⟩

theorem munch_digit {c : Char} (digit : c.isDigit = true) (cs : List Char) :
    munch c cs = numberPiece (c :: cs) := by
  unfold munch
  split
  all_goals try exact absurd digit (by decide)
  simp only [digit, if_true]

theorem isDigit_of_isWordStart {c : Char} (begins : isWordStart c = true) : c.isDigit = false := by
  by_cases isUnderscore : c = '_'
  · rw [isUnderscore]
    decide
  · have alpha : c.isAlpha = (c.isUpper || c.isLower) := rfl
    have upper : c.isUpper = decide ('A'.val ≤ c.val ∧ c.val ≤ 'Z'.val) := rfl
    have lower : c.isLower = (decide ('a'.val ≤ c.val) && decide (c.val ≤ 'z'.val)) := rfl
    have digit : c.isDigit = (decide ('0'.val ≤ c.val) && decide (c.val ≤ '9'.val)) := rfl
    simp only [isWordStart, alpha, upper, lower, digit, Bool.or_eq_true, Bool.and_eq_true,
      decide_eq_true_eq, beq_iff_eq, isUnderscore, or_false, UInt32.le_iff_toNat_le] at begins ⊢
    simp at begins ⊢
    omega

theorem munch_wordStart {c : Char} (begins : isWordStart c = true) (cs : List Char) :
    munch c cs = wordPiece (c :: cs) := by
  have noDigit := isDigit_of_isWordStart begins
  unfold munch
  split
  all_goals try exact absurd begins (by decide)
  simp only [noDigit, begins, if_true]
  simp

theorem isWord_text (k : Keyword) : IsWord k.text.toList := by
  have parts : k.text.toList.all isWordPart = true := by cases k <;> rfl
  constructor
  · cases k <;> exact ⟨_, _, rfl, rfl⟩
  · exact List.all_eq_true.1 parts

/-- What matches at the front of a text is taken, or something longer. -/
theorem munch_reaches {form : Form} {text rest cs : List Char} {c : Char} (h : Matches form text)
    (front : text ++ rest = c :: cs) : (munch c cs).Reaches form text rest := by
  cases h with
  | blank mem =>
    cases front
    simp only [blanks, List.mem_cons, List.not_mem_nil, or_false] at mem
    rcases mem with rfl | rfl | rfl | rfl <;> exact .inl rfl
  | comment inside =>
    cases front
    exact comment_reaches inside rest
  | symbol s spelled =>
    cases s
    all_goals
      cases ofList_injective spelled
      cases front
    all_goals try exact .inl rfl
    all_goals try exact symbolPiece_reaches _ _ _ _
    exact slashPiece_reaches _
  | string inside =>
    simp only [List.cons_append, List.append_assoc, List.nil_append, List.cons.injEq] at front
    obtain ⟨rfl, rfl⟩ := front
    exact string_reaches inside rest
  | integer digits =>
    obtain ⟨d, ds, rfl⟩ := List.exists_cons_of_ne_nil digits.some
    cases front
    rw [munch_digit (digits.digits _ List.mem_cons_self)]
    exact integer_reaches digits rest
  | decimal digits digits' =>
    obtain ⟨d, ds, rfl⟩ := List.exists_cons_of_ne_nil digits.some
    simp only [List.cons_append, List.append_assoc, List.cons.injEq] at front
    obtain ⟨rfl, rfl⟩ := front
    rw [munch_digit (digits.digits _ List.mem_cons_self)]
    exact decimal_reaches digits digits' rest
  | keyword k spelled =>
    have word := isWord_text k
    rw [spelled, String.toList_ofList] at word
    obtain ⟨d, ds, rfl, begins⟩ := word.begins
    cases front
    rw [munch_wordStart begins]
    apply word_reaches word.parts
    rw [← spelled, ofText?_text]
  | identifier word other =>
    obtain ⟨d, ds, rfl, begins⟩ := word.begins
    cases front
    rw [munch_wordStart begins]
    apply word_reaches word.parts
    rw [ofText?_eq_none_iff.2 other]

/-! ## The piece that a text begins with -/

theorem Matches.ne_nil {form : Form} {text : List Char} (h : Matches form text) : text ≠ [] := by
  cases h with
  | blank | comment | string => simp
  | symbol s spelled =>
    rintro rfl
    cases s <;> exact absurd (ofList_injective spelled) (by simp)
  | integer digits => exact digits.some
  | decimal => simp
  | keyword k spelled =>
    rintro rfl
    cases k <;> exact absurd (ofList_injective spelled) (by simp)
  | identifier word =>
    obtain ⟨c, cs, rfl, -⟩ := word.begins
    simp

theorem Matches.not_error {form : Form} {text : List Char} (h : Matches form text)
    (cause : LexCause) : form ≠ .error cause := by
  cases h <;> simp

/-- Where an error is taken, nothing matches. -/
theorem unmatched_of_error {c : Char} {cs : List Char} {cause : LexCause}
    (isError : (munch c cs).form = .error cause) : Unmatched (c :: cs) := by
  intro form front rest matched whole
  rcases munch_reaches matched whole with same | ⟨-, noError⟩
  · rw [same] at isError
    exact matched.not_error cause isError
  · exact noError cause isError

/-- `munch` gives the piece that a text begins with, and no other begins it. -/
theorem begins_iff {c : Char} {cs : List Char} {p : Piece} :
    Begins (c :: cs) p ↔ p = munch c cs := by
  constructor
  · intro begins
    generalize whole : c :: cs = text at begins
    have fits := munch_fits c cs
    cases begins with
    | longest matched isLongest =>
      rcases munch_reaches matched whole.symm with same | ⟨longer, noError⟩
      · exact same.symm
      · rcases fits with matched' | ⟨-, stray⟩ | ⟨-, unclosed⟩
        · have atMost := isLongest _ _ _ matched' ((munch_splits c cs).1.trans whole)
          omega
        · exact absurd (congrArg Piece.form stray) (noError _)
        · exact absurd (congrArg Piece.form unclosed) (noError _)
    | stray none noQuote =>
      cases whole
      rcases fits with matched | ⟨-, stray⟩ | ⟨isQuote, -⟩
      · exact absurd (munch_splits c cs).1 (none _ _ _ matched)
      · exact stray.symm
      · exact absurd isQuote noQuote
    | unclosed none =>
      cases whole
      rcases fits with matched | ⟨noQuote, -⟩ | ⟨-, unclosed⟩
      · exact absurd (munch_splits _ _).1 (none _ _ _ matched)
      · exact absurd rfl noQuote
      · exact unclosed.symm
  · rintro rfl
    rcases munch_fits c cs with matched | ⟨noQuote, stray⟩ | ⟨rfl, unclosed⟩
    · rw [← (munch_splits c cs).1]
      apply Begins.longest matched
      intro form front rest matched' whole
      rcases munch_reaches matched' (whole.trans (munch_splits c cs).1) with same | ⟨longer, -⟩
      · rw [same]
      · omega
    · rw [stray]
      exact .stray (unmatched_of_error (congrArg Piece.form stray)) noQuote
    · rw [unclosed]
      exact .unclosed (unmatched_of_error (congrArg Piece.form unclosed))

theorem not_begins_nil_text {p : Piece} : ¬ Begins [] p := by
  intro begins
  generalize whole : [] = text at begins
  cases begins with
  | longest matched =>
    exact matched.ne_nil (List.append_eq_nil_iff.1 whole.symm).1
  | stray | unclosed => cases whole

end Lox.Lexer
