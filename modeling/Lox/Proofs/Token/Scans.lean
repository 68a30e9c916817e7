import Lox.Proofs.Syntax.Lines
import Lox.Proofs.Token.Classes

/-!
# Scanning part of a text

`Scans line text ts line' rest` says that the pieces at the front of a text that begins on a line
form these tokens, where the rest of the text begins on the other line. The rest is present when a
piece is taken, so the longest one is; behind what has been scanned, scanning may go on
(`Scans.trans`). A text can be scanned to its end exactly if `lex` finds no error in it.

No piece but a string goes on behind the end of a line. So what is scanned to its end is also
scanned in front of a further line (`Scans.append_line`), and a text of two parts is scanned part
by part.
-/

namespace Lox.Lexer

/-- The front of the text forms tokens. -/
inductive Scans : (line : Nat) → (text : List Char) → List Token → Nat → List Char → Prop
  | done {line : Nat} {text : List Char} : Scans line text [] line text
  | layout {line line' : Nat} {c : Char} {cs rest : List Char} {ts : List Token} :
    (munch c cs).form = .layout →
    Scans (line + newlines (munch c cs).text) (munch c cs).rest ts line' rest →
    Scans line (c :: cs) ts line' rest
  | token {line line' : Nat} {c : Char} {cs rest : List Char} {kind : Kind} {ts : List Token} :
    (munch c cs).form = .token kind →
    Scans (line + newlines (munch c cs).text) (munch c cs).rest ts line' rest →
    Scans line (c :: cs)
      (⟨kind, String.ofList (munch c cs).text, line + newlines (munch c cs).text⟩ :: ts) line' rest

/-! ## Lines -/

theorem munch_newlines (c : Char) (cs : List Char) :
    newlines (munch c cs).text + newlines (munch c cs).rest = newlines (c :: cs) := by
  have whole := congrArg newlines (munch_splits c cs).1
  simpa [newlines] using whole

theorem Piece.lineEnds_of_not_mem {p : Piece} (none : '\n' ∉ p.text) :
    p.lineEnds = newlines p.text := by
  have zero : newlines p.text = 0 := List.count_eq_zero.2 none
  unfold lineEnds
  split
  · rw [zero, if_neg]
    intro same
    simp [same] at none
  · rfl
  · rfl
  · exact zero.symm
  · exact zero.symm

theorem symbol_not_mem_line (s : Symbol) : '\n' ∉ s.text.toList := by
  cases s <;> decide

theorem IsWord.not_mem_line {text : List Char} (h : IsWord text) : '\n' ∉ text := fun mem =>
  absurd (h.parts _ mem) (by decide)

theorem IsDigits.not_mem_line {text : List Char} (h : IsDigits text) : '\n' ∉ text := fun mem =>
  absurd (h.digits _ mem) (by decide)

/-- What matches has line ends only if it is one, or a string. -/
theorem Matches.lineEnds {p : Piece} (h : Matches p.form p.text) : p.lineEnds = newlines p.text := by
  obtain ⟨form, text, rest⟩ := p
  dsimp only at h
  cases h with
  | blank mem =>
    simp only [blanks, List.mem_cons, List.not_mem_nil, or_false] at mem
    rcases mem with rfl | rfl | rfl | rfl <;> rfl
  | comment inside => exact Piece.lineEnds_of_not_mem (by simpa using inside)
  | string => rfl
  | symbol s spelled =>
    have none := symbol_not_mem_line s
    rw [spelled, String.toList_ofList] at none
    exact Piece.lineEnds_of_not_mem none
  | integer digits => exact Piece.lineEnds_of_not_mem digits.not_mem_line
  | decimal digits digits' =>
    apply Piece.lineEnds_of_not_mem
    simp [digits.not_mem_line, digits'.not_mem_line]
  | keyword k spelled =>
    have word := isWord_text k
    rw [spelled, String.toList_ofList] at word
    exact Piece.lineEnds_of_not_mem word.not_mem_line
  | identifier word => exact Piece.lineEnds_of_not_mem word.not_mem_line

/-- **Each line end is counted once**, whichever piece it is in. -/
theorem munch_lineEnds (c : Char) (cs : List Char) :
    (munch c cs).lineEnds = newlines (munch c cs).text := by
  rcases munch_fits c cs with matched | ⟨-, stray⟩ | ⟨rfl, unclosed⟩
  · exact matched.lineEnds
  · apply Piece.lineEnds_of_not_mem
    rw [stray, List.mem_singleton]
    rintro rfl
    cases stray
  · rw [unclosed]
    rfl

/-- No piece is the end. -/
theorem munch_not_end (c : Char) (cs : List Char) : (munch c cs).form ≠ .token .endOfInput := by
  intro isEnd
  cases matches_of_token isEnd

/-! ## In front of a line -/

section

variable (more : List Char)

/-- The line end that is behind the text is not taken in, and nothing behind it. -/
theorem takeWhile_append_line {p : Char → Bool} (text : List Char) (ends : p '\n' = false) :
    (text ++ '\n' :: more).takeWhile p = text.takeWhile p := by
  induction text with
  | nil => simp [ends]
  | cons c cs ih =>
    simp only [List.cons_append, List.takeWhile_cons, ih]

theorem dropWhile_append_line {p : Char → Bool} (text : List Char) (ends : p '\n' = false) :
    (text ++ '\n' :: more).dropWhile p = text.dropWhile p ++ '\n' :: more := by
  induction text with
  | nil => simp [ends]
  | cons c cs ih =>
    simp only [List.cons_append, List.dropWhile_cons]
    split
    · exact ih
    · rfl

/-- The piece with a further line behind it. -/
def Piece.before (p : Piece) : Piece := { p with rest := p.rest ++ '\n' :: more }

theorem symbolPiece_before (alone joined : Symbol) (c : Char) (rest : List Char) :
    symbolPiece alone joined c (rest ++ '\n' :: more) =
      (symbolPiece alone joined c rest).before more := by
  cases rest with
  | nil => simp [symbolPiece, Piece.before]
  | cons d rest =>
    by_cases isEqual : d = '='
    · subst isEqual
      rfl
    · simp [symbolPiece, Piece.before, isEqual]

theorem slashPiece_before (rest : List Char) :
    slashPiece (rest ++ '\n' :: more) = (slashPiece rest).before more := by
  cases rest with
  | nil => simp [slashPiece, Piece.before]
  | cons d rest =>
    by_cases isSlash : d = '/'
    · subst isSlash
      have taken := takeWhile_append_line more (p := (· != '\n')) rest (by decide)
      have left := dropWhile_append_line more (p := (· != '\n')) rest (by decide)
      simp only [slashPiece, Piece.before, List.cons_append, taken, left]
    · simp [slashPiece, Piece.before, isSlash]

/-- A string that ends in the text is the same string in front of a further line. -/
theorem stringPiece_before (rest : List Char)
    (closed : (stringPiece rest).form ≠ .error .unclosedString) :
    stringPiece (rest ++ '\n' :: more) = (stringPiece rest).before more := by
  have ends : ∃ quote after, rest.dropWhile (· != '"') = quote :: after := by
    cases behind : rest.dropWhile (· != '"') with
    | nil =>
      unfold stringPiece at closed
      rw [behind] at closed
      exact absurd rfl closed
    | cons quote after => exact ⟨quote, after, rfl⟩
  obtain ⟨quote, after, behind⟩ := ends
  have inside : (rest ++ '\n' :: more).takeWhile (· != '"') = rest.takeWhile (· != '"') := by
    rw [List.takeWhile_append]
    split
    · next all =>
      have lengths := congrArg List.length
        (List.takeWhile_append_dropWhile (p := (· != '"')) (l := rest))
      rw [behind] at lengths
      simp only [List.length_append, List.length_cons] at lengths
      omega
    · rfl
  have outside : (rest ++ '\n' :: more).dropWhile (· != '"') = quote :: after ++ '\n' :: more := by
    rw [List.dropWhile_append, behind]
    rfl
  unfold stringPiece
  rw [inside, outside, behind]
  rfl

theorem numberPiece_before (text : List Char) :
    numberPiece (text ++ '\n' :: more) = (numberPiece text).before more := by
  have whole := takeWhile_append_line more (p := Char.isDigit) text (by decide)
  have left := dropWhile_append_line more (p := Char.isDigit) text (by decide)
  unfold numberPiece
  rw [whole, left]
  cases text.dropWhile Char.isDigit with
  | nil => simp [Piece.before]
  | cons c rest =>
    by_cases isPoint : c = '.'
    · subst isPoint
      cases rest with
      | nil => simp [Piece.before]
      | cons d rest =>
        have fraction := takeWhile_append_line more (p := Char.isDigit) (d :: rest) (by decide)
        have behind := dropWhile_append_line more (p := Char.isDigit) (d :: rest) (by decide)
        simp only [List.cons_append] at fraction behind ⊢
        rw [fraction, behind]
        split
        · rfl
        · rfl
    · simp [Piece.before, isPoint]

theorem wordPiece_before (text : List Char) :
    wordPiece (text ++ '\n' :: more) = (wordPiece text).before more := by
  have word := takeWhile_append_line more (p := isWordPart) text (by decide)
  have left := dropWhile_append_line more (p := isWordPart) text (by decide)
  unfold wordPiece
  rw [word, left]
  rfl

/-- The longest piece stays the longest in front of a further line. -/
theorem munch_before (c : Char) (cs : List Char)
    (closed : (munch c cs).form ≠ .error .unclosedString) :
    munch c (cs ++ '\n' :: more) = (munch c cs).before more := by
  unfold munch at closed ⊢
  split
  all_goals try rfl
  all_goals try exact symbolPiece_before more _ _ _ _
  · exact slashPiece_before more cs
  · exact stringPiece_before more cs closed
  · split
    · exact numberPiece_before more (c :: cs)
    · split
      · exact wordPiece_before more (c :: cs)
      · rfl

end

theorem stringPiece_unclosed {rest : List Char} :
    (stringPiece rest).form = .error .unclosedString ↔ '"' ∉ rest := by
  have none : rest.dropWhile (· != '"') = [] ↔ '"' ∉ rest := by
    induction rest with
    | nil => simp
    | cons c cs ih =>
      by_cases isQuote : c = '"'
      · simp [isQuote]
      · simp [isQuote, Ne.symm isQuote, ih]
  unfold stringPiece
  dsimp only
  split
  · next behind => simp [← none, behind]
  · next behind => simp [← none, behind]

/-- What is left open is a string without a second quote. -/
theorem munch_unclosed {c : Char} {cs : List Char} :
    (munch c cs).form = .error .unclosedString ↔ c = '"' ∧ '"' ∉ cs := by
  constructor
  · intro isOpen
    rcases munch_fits c cs with matched | ⟨-, stray⟩ | ⟨rfl, -⟩
    · exact absurd isOpen (matched.not_error _)
    · rw [stray] at isOpen
      cases isOpen
    · exact ⟨rfl, stringPiece_unclosed.1 isOpen⟩
  · rintro ⟨rfl, none⟩
    exact stringPiece_unclosed.2 none

/-! ## Scanning -/

namespace Scans

variable {line line' line'' k n : Nat} {text rest rest' more : List Char} {ts ts' : List Token}

theorem trans (first : Scans line text ts line' rest) (second : Scans line' rest ts' line'' rest') :
    Scans line text (ts ++ ts') line'' rest' := by
  induction first with
  | done => exact second
  | layout form _ ih => exact .layout form (ih second)
  | token form _ ih => exact .token form (ih second)

theorem notEnd (h : Scans line text ts line' rest) : ∀ t ∈ ts, t.isEnd = false := by
  induction h with
  | done => simp
  | layout _ _ ih => exact ih
  | @token _ _ c cs _ kind _ form _ ih =>
    intro t mem
    rcases List.mem_cons.1 mem with rfl | later
    · apply Bool.eq_false_iff.2
      intro isEnd
      have isEnd : kind.sameSort .endOfInput = true := isEnd
      apply munch_not_end c cs
      cases kind with
      | endOfInput => exact form
      | _ => simp [Kind.sameSort] at isEnd
    · exact ih t later

theorem newlines_eq (h : Scans line text ts line' rest) :
    line + newlines text = line' + newlines rest := by
  induction h with
  | done => rfl
  | @layout _ _ c cs _ _ _ _ ih =>
    have split := munch_newlines c cs
    omega
  | @token _ _ c cs _ _ _ _ _ ih =>
    have split := munch_newlines c cs
    omega

/-- What is scanned to its end is scanned in front of a further line. -/
theorem append_line (h : Scans line text ts line' rest) (more : List Char) :
    Scans line (text ++ '\n' :: more) ts line' (rest ++ '\n' :: more) := by
  induction h with
  | done => exact .done
  | @layout _ _ c cs _ _ form _ ih =>
    have same := munch_before more c cs (by simp [form])
    have form' : (munch c (cs ++ '\n' :: more)).form = .layout := by
      rw [same]
      exact form
    rw [List.cons_append]
    apply Scans.layout form'
    rw [same]
    exact ih
  | @token _ _ c cs _ kind ts form _ ih =>
    have same := munch_before more c cs (by simp [form])
    have form' : (munch c (cs ++ '\n' :: more)).form = .token kind := by
      rw [same]
      exact form
    rw [← show (munch c (cs ++ '\n' :: more)).text = (munch c cs).text by rw [same]; rfl] at ih ⊢
    rw [← show (munch c (cs ++ '\n' :: more)).rest = (munch c cs).rest ++ '\n' :: more by
      rw [same]; rfl] at ih
    exact .token form' ih

/-- A further line without a quote goes on with no piece. -/
theorem munch_of_line {c : Char} {cs more : List Char} (quoteless : '"' ∉ more)
    (closed : (munch c (cs ++ '\n' :: more)).form ≠ .error .unclosedString) :
    munch c (cs ++ '\n' :: more) = (munch c cs).before more := by
  apply munch_before
  intro isOpen
  obtain ⟨isQuote, inside⟩ := munch_unclosed.1 isOpen
  apply closed
  apply munch_unclosed.2
  simp [isQuote, inside, quoteless]

/-- A text that is scanned to its end is scanned line by line, if its last line could not close a
string. -/
theorem of_append_line (h : Scans line (text ++ '\n' :: more) ts line' [])
    (quoteless : '"' ∉ more) :
    ∃ ts₁ ts₂ middle, Scans line text ts₁ middle [] ∧ Scans middle ('\n' :: more) ts₂ line' [] ∧
      ts = ts₁ ++ ts₂ := by
  generalize whole : text ++ '\n' :: more = all at h
  generalize none : ([] : List Char) = last at h
  induction h generalizing text with
  | done => simp [← none] at whole
  | @layout line _ c cs _ ts form scans ih =>
    subst none
    cases text with
    | nil =>
      cases whole
      exact ⟨[], ts, _, .done, .layout form scans, rfl⟩
    | cons d text =>
      obtain ⟨rfl, behind⟩ : d = c ∧ text ++ '\n' :: more = cs := List.cons.inj whole
      subst behind
      have closed : (munch d (text ++ '\n' :: more)).form ≠ .error .unclosedString := by simp [form]
      have same := munch_of_line quoteless closed
      rw [same] at form ih
      obtain ⟨ts₁, ts₂, middle, front, back, rfl⟩ := ih rfl rfl
      exact ⟨ts₁, ts₂, middle, .layout form front, back, rfl⟩
  | @token line _ c cs _ kind ts form scans ih =>
    subst none
    cases text with
    | nil =>
      cases whole
      exact ⟨[], _, _, .done, .token form scans, rfl⟩
    | cons d text =>
      obtain ⟨rfl, behind⟩ : d = c ∧ text ++ '\n' :: more = cs := List.cons.inj whole
      subst behind
      have closed : (munch d (text ++ '\n' :: more)).form ≠ .error .unclosedString := by simp [form]
      have same := munch_of_line quoteless closed
      rw [same] at form ih ⊢
      obtain ⟨ts₁, ts₂, middle, front, back, rfl⟩ := ih rfl rfl
      exact ⟨_, ts₂, middle, .token form front, back, rfl⟩

/-- A text that begins on a later line has its tokens on later lines. -/
theorem later (h : Scans line text ts line' rest) (k : Nat) :
    Scans (line + k) text (ts.map (·.mapLine (· + k))) (line' + k) rest := by
  induction h with
  | done => exact .done
  | @layout line _ c cs _ _ form _ ih =>
    apply Scans.layout form
    rwa [Nat.add_right_comm] at ih
  | @token line _ c cs _ kind ts form _ ih =>
    rw [Nat.add_right_comm] at ih
    have scans := Scans.token form ih
    rwa [Nat.add_right_comm line k] at scans

/-- Line ends in front of a text are layout. -/
theorem lineEnds (line k : Nat) (more : List Char) :
    Scans line (List.replicate k '\n' ++ more) [] (line + k) more := by
  induction k generalizing line with
  | zero => exact .done
  | succ k ih =>
    have rest := ih (line + 1)
    rw [Nat.add_assoc, Nat.add_comm 1 k] at rest
    exact .layout rfl rest

/-- Lexing goes on behind what has been scanned. -/
theorem lexFrom (h : Scans line text ts line' rest) (enough : text.length ≤ n) :
    ∃ m, rest.length ≤ m ∧ Lexer.lexFrom n line text = ts.map .ok ++ Lexer.lexFrom m line' rest := by
  induction h generalizing n with
  | done => exact ⟨n, enough, rfl⟩
  | @layout _ _ c cs _ _ form _ ih =>
    obtain ⟨n, rfl⟩ : ∃ i, n = i + 1 := ⟨n - 1, by simp at enough; omega⟩
    have shorter := munch_rest_length c cs
    obtain ⟨m, enough', eq⟩ := ih (n := n) (by simp at enough; omega)
    refine ⟨m, enough', ?_⟩
    simp only [Lexer.lexFrom, munch_lineEnds, form, eq]
  | @token _ _ c cs _ _ _ form _ ih =>
    obtain ⟨n, rfl⟩ : ∃ i, n = i + 1 := ⟨n - 1, by simp at enough; omega⟩
    have shorter := munch_rest_length c cs
    obtain ⟨m, enough', eq⟩ := ih (n := n) (by simp at enough; omega)
    refine ⟨m, enough', ?_⟩
    simp only [Lexer.lexFrom, munch_lineEnds, form, eq, List.map_cons, List.cons_append]

end Scans

/-- A text in which no error is found is scanned to its end. -/
theorem scans_of_noErrors {n line : Nat} {text : List Char} (enough : text.length ≤ n)
    (noErrors : errorsOf (lexFrom n line text) = []) :
    ∃ ts, Scans line text ts (line + newlines text) [] := by
  induction n generalizing line text with
  | zero =>
    have empty : text = [] := List.length_eq_zero_iff.1 (Nat.le_zero.1 enough)
    rw [empty]
    exact ⟨[], .done⟩
  | succ n ih =>
    cases text with
    | nil => exact ⟨[], .done⟩
    | cons c cs =>
      have shorter := munch_rest_length c cs
      have fits : (munch c cs).rest.length ≤ n := by
        simp only [List.length_cons] at enough
        omega
      rw [← munch_newlines c cs, ← Nat.add_assoc]
      cases form : (munch c cs).form with
      | layout =>
        simp only [lexFrom, munch_lineEnds, form] at noErrors
        obtain ⟨ts, scans⟩ := ih fits noErrors
        exact ⟨ts, .layout form scans⟩
      | token kind =>
        simp only [lexFrom, munch_lineEnds, form] at noErrors
        obtain ⟨ts, scans⟩ := ih fits noErrors
        exact ⟨_, .token form scans⟩
      | error cause =>
        simp only [lexFrom, munch_lineEnds, form] at noErrors
        cases noErrors

end Lox.Lexer

namespace Lox

open Lexer

/-- The end of a text that ends on the line. -/
def Token.ending (line : Nat) : Token := ⟨.endOfInput, "", line⟩

@[simp] theorem Token.isEnd_ending (line : Nat) : (Token.ending line).isEnd = true := rfl

/-- What `lex` gives for a text that is scanned to its end. -/
theorem lex_of_scans {source : String} {ts : List Token} {line : Nat}
    (h : Scans 1 source.toList ts line []) :
    tokensOf (lex source) = ts ++ [.ending line] ∧ errorsOf (lex source) = [] := by
  obtain ⟨m, -, eq⟩ := h.lexFrom (Nat.le_refl _)
  have last : lexFrom m line [] = [.ok (.ending line)] := by
    cases m <;> rfl
  have items : lex source = (ts ++ [Token.ending line]).map .ok := by
    rw [List.map_append, lex, eq, last]
    rfl
  rw [items]
  constructor
  · exact List.filterMap_map.trans List.filterMap_some
  · simp [errorsOf, List.filterMap_map]

/-- A text without errors is scanned to its end. -/
theorem scans_of_lex {source : String} (noErrors : errorsOf (lex source) = []) :
    ∃ ts, Scans 1 source.toList ts (1 + newlines source.toList) [] :=
  scans_of_noErrors (Nat.le_refl _) noErrors

end Lox
