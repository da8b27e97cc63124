import Mathlib.Data.List.Chain
import Mathlib.Data.List.TakeWhile
import GambitRecord.Library.Json.Scalar

/-! # The lexer of JSON

Tokens and their texts. A text made of token texts, with white space between
them, is read back as its tokens, provided that no two words touch.
-/

namespace Library.Json
open Library.DigitText

inductive Mark where
  | lbrace | rbrace | lbracket | rbracket | colon | comma
  deriving DecidableEq

inductive Token where
  | mark (m : Mark)
  | string (s : Text)
  | scalar (s : Scalar)
  deriving DecidableEq

def Mark.char : Mark → Char
  | .lbrace => '\x7b'
  | .rbrace => '\x7d'
  | .lbracket => '['
  | .rbracket => ']'
  | .colon => ':'
  | .comma => ','

def Mark.ofChar (c : Char) : Option Mark :=
  [Mark.lbrace, .rbrace, .lbracket, .rbracket, .colon, .comma].find? fun m => m.char = c

def escapeLetter (c : Char) : Option Char :=
  if c = '"' then some '"'
  else if c = '\\' then some '\\'
  else if c = '\x08' then some 'b'
  else if c = '\x0c' then some 'f'
  else if c = '\n' then some 'n'
  else if c = '\r' then some 'r'
  else if c = '\t' then some 't'
  else none

def unescapeLetter (letter : Char) : Option Char :=
  if letter = '"' then some '"'
  else if letter = '\\' then some '\\'
  else if letter = '/' then some '/'
  else if letter = 'b' then some '\x08'
  else if letter = 'f' then some '\x0c'
  else if letter = 'n' then some '\n'
  else if letter = 'r' then some '\r'
  else if letter = 't' then some '\t'
  else none

def escape (c : Char) : Text :=
  match escapeLetter c with
  | some letter => ['\\', letter]
  | none =>
    if c.toNat < 32 then
      ['\\', 'u', '0', '0', Nat.digitChar (c.toNat / 16), Nat.digitChar (c.toNat % 16)]
    else [c]

def Token.text : Token → Text
  | .mark m => [m.char]
  | .string s => '"' :: (s.flatMap escape ++ ['"'])
  | .scalar s => s.text

def hexValue (c : Char) : Option ℕ :=
  if c.isDigit then some (c.toNat - 48)
  else if 'a' ≤ c ∧ c ≤ 'f' then some (c.toNat - 87)
  else if 'A' ≤ c ∧ c ≤ 'F' then some (c.toNat - 55)
  else none

/-- Four hexadecimal digits, and what follows them. -/
def hex4 : Text → Option (ℕ × Text)
  | a :: b :: c :: d :: rest =>
    match hexValue a, hexValue b, hexValue c, hexValue d with
    | some a, some b, some c, some d => some (((a * 16 + b) * 16 + c) * 16 + d, rest)
    | _, _, _, _ => none
  | _ => none

/-- What follows `\u`: one unit, or a pair of surrogates. -/
def unicodeEscape (text : Text) : Option (Char × Text) :=
  match hex4 text with
  | none => none
  | some (unit, rest) =>
    if 0xD800 ≤ unit ∧ unit < 0xDC00 then
      match rest with
      | '\\' :: 'u' :: rest =>
        match hex4 rest with
        | some (low, rest) =>
          if 0xDC00 ≤ low ∧ low < 0xE000 then
            some (Char.ofNat (0x10000 + (unit - 0xD800) * 0x400 + (low - 0xDC00)), rest)
          else none
        | none => none
      | _ => none
    else if 0xDC00 ≤ unit ∧ unit < 0xE000 then none
    else some (Char.ofNat unit, rest)

/-- The rest of a string after its opening quote; every character takes at least one step of the
fuel. -/
def lexString : ℕ → Text → Option (Text × Text)
  | 0, _ => none
  | _, [] => none
  | n + 1, c :: rest =>
    if c = '"' then some ([], rest)
    else if c = '\\' then
      match rest with
      | [] => none
      | letter :: rest =>
        if letter = 'u' then
          (unicodeEscape rest).bind fun read =>
            (lexString n read.2).map fun p => (read.1 :: p.1, p.2)
        else
          (unescapeLetter letter).bind fun c =>
            (lexString n rest).map fun p => (c :: p.1, p.2)
    else if c.toNat < 32 then none
    else (lexString n rest).map fun p => (c :: p.1, p.2)

def lexToken : Text → Option (Token × Text)
  | [] => none
  | c :: rest =>
    match Mark.ofChar c with
    | some m => some (.mark m, rest)
    | none =>
      if c = '"' then (lexString (rest.length + 1) rest).map fun p => (.string p.1, p.2)
      else
        (readScalar ((c :: rest).takeWhile wordChar)).map fun s =>
          (.scalar s, (c :: rest).dropWhile wordChar)

def blank (c : Char) : Bool := c = ' ' ∨ c = '\t' ∨ c = '\n' ∨ c = '\r'

/-- The tokens of a text; every token takes at least one character. -/
def lex : ℕ → Text → Option (List Token)
  | 0, text => if text.all blank then some [] else none
  | n + 1, text =>
    match text.dropWhile blank with
    | [] => some []
    | c :: rest =>
      (lexToken (c :: rest)).bind fun read => (lex n read.2).map fun tokens => read.1 :: tokens

/-- The tokens before the first that cannot be read. -/
def lexPrefix : ℕ → Text → List Token
  | 0, _ => []
  | n + 1, text =>
    match text.dropWhile blank with
    | [] => []
    | c :: rest =>
      match lexToken (c :: rest) with
      | none => []
      | some read => read.1 :: lexPrefix n read.2

def Token.isWord : Token → Bool
  | .scalar _ => true
  | _ => false

theorem Mark.ofChar_char (m : Mark) : Mark.ofChar m.char = some m := by
  cases m <;> decide

theorem unescapeLetter_of_escapeLetter {c letter : Char} (h : escapeLetter c = some letter) :
    unescapeLetter letter = some c ∧ letter ≠ 'u' := by
  unfold escapeLetter at h
  split_ifs at h with h1 h2 h3 h4 h5 h6 h7 <;> cases h <;> subst_vars <;> decide

theorem hex4_control {n : ℕ} (h : n < 32) (rest : Text) :
    hex4 ('0' :: '0' :: Nat.digitChar (n / 16) :: Nat.digitChar (n % 16) :: rest) =
      some (n, rest) := by
  have hdigits : ∀ n < 32, hexValue (Nat.digitChar (n / 16)) = some (n / 16) ∧
      hexValue (Nat.digitChar (n % 16)) = some (n % 16) := by decide
  have hzero : hexValue '0' = some 0 := by decide
  have hvalue : ((0 * 16 + 0) * 16 + n / 16) * 16 + n % 16 = n := by omega
  simp only [hex4, hzero, (hdigits n h).1, (hdigits n h).2, hvalue]

theorem lexString_escape (n : ℕ) (c : Char) (rest : Text) :
    lexString (n + 1) (escape c ++ rest) = (lexString n rest).map fun p => (c :: p.1, p.2) := by
  unfold escape
  cases hletter : escapeLetter c with
  | some letter =>
    rcases unescapeLetter_of_escapeLetter hletter with ⟨hback, hu⟩
    simp [lexString, hu, hback]
  | none =>
    have hplain : c ≠ '"' ∧ c ≠ '\\' := by
      constructor <;> rintro rfl <;> exact absurd hletter (by decide)
    by_cases hcontrol : c.toNat < 32
    · have hunit : unicodeEscape ('0' :: '0' :: Nat.digitChar (c.toNat / 16) ::
          Nat.digitChar (c.toNat % 16) :: rest) = some (c, rest) := by
        have hlow : ¬ (0xD800 ≤ c.toNat ∧ c.toNat < 0xDC00) := by omega
        have hhigh : ¬ (0xDC00 ≤ c.toNat ∧ c.toNat < 0xE000) := by omega
        simp only [unicodeEscape, hex4_control hcontrol, hlow, hhigh, if_false, Char.ofNat_toNat]
      simp [lexString, hcontrol, hunit]
    · simp [lexString, hcontrol, hplain]

theorem lexString_text (s rest : Text) {n : ℕ} (h : s.length < n) :
    lexString n (s.flatMap escape ++ '"' :: rest) = some (s, rest) := by
  induction s generalizing n with
  | nil =>
    cases n with
    | zero => simp at h
    | succ n => simp [lexString]
  | cons c s ih =>
    cases n with
    | zero => simp at h
    | succ n =>
      rw [List.flatMap_cons, List.append_assoc, lexString_escape, ih (by simpa using h)]
      rfl

theorem length_le_flatMap_escape (s : Text) : s.length ≤ (s.flatMap escape).length := by
  induction s with
  | nil => simp
  | cons c s ih =>
    have hpos : 1 ≤ (escape c).length := by
      unfold escape
      split
      · simp
      · split_ifs <;> simp
    rw [List.flatMap_cons, List.length_append, List.length_cons]
    omega

/-- A token is read back when no word follows a word. -/
theorem lexToken_text (t : Token) (rest : Text)
    (h : t.isWord = true → ∀ c ∈ rest.head?, wordChar c = false) :
    lexToken (t.text ++ rest) = some (t, rest) := by
  cases t with
  | mark m => simp [Token.text, lexToken, Mark.ofChar_char]
  | string s =>
    have hmark : Mark.ofChar '"' = none := by decide
    have hlen := length_le_flatMap_escape s
    simp only [Token.text, List.cons_append, List.append_assoc, List.nil_append, lexToken, hmark,
      if_true]
    rw [lexString_text s rest (by simp only [List.length_append]; omega)]
    rfl
  | scalar s =>
    cases hs : s.text with
    | nil => exact absurd hs s.text_ne_nil
    | cons c word =>
      have hall : ∀ d ∈ s.text, wordChar d = true := fun d hd => wordChar_of_mem_text hd
      have hc : wordChar c = true := hall c (by simp [hs])
      have hmark : Mark.ofChar c = none := by
        cases hm : Mark.ofChar c with
        | none => rfl
        | some m =>
          have hchar := List.find?_some hm
          rw [decide_eq_true_eq] at hchar
          rw [← hchar] at hc
          cases m <;> exact absurd hc (by decide)
      have hquote : c ≠ '"' := by
        rintro rfl
        exact absurd hc (by decide)
      have htake : (s.text ++ rest).takeWhile wordChar = s.text := by
        rw [List.takeWhile_append_of_pos hall]
        cases rest with
        | nil => simp
        | cons d rest => simp [h rfl d (by simp)]
      have hdrop : (s.text ++ rest).dropWhile wordChar = rest := by
        rw [List.dropWhile_append_of_pos hall]
        cases rest with
        | nil => simp
        | cons d rest => simp [h rfl d (by simp)]
      have hcons : (Token.scalar s).text ++ rest = c :: (word ++ rest) := by
        rw [Token.text, hs, List.cons_append]
      rw [hs, List.cons_append] at htake hdrop
      rw [hcons]
      simp only [lexToken, hmark, hquote, if_false, htake, hdrop]
      rw [← hs, readScalar_text]
      rfl

/-- Token texts with white space before each. -/
def render (pieces : List (Text × Token)) : Text :=
  pieces.flatMap fun piece => piece.1 ++ piece.2.text

/-- No word directly follows a word. -/
def Spaced (tokens : List Token) : Prop :=
  tokens.IsChain fun a b => a.isWord = true → b.isWord = false

theorem head_text_of_not_isWord {t : Token} (h : t.isWord = false) :
    ∀ c ∈ t.text.head?, wordChar c = false ∧ blank c = false := by
  intro c hc
  cases t with
  | mark m =>
    cases hc
    cases m <;> decide
  | string s =>
    cases hc
    decide
  | scalar s => cases h

theorem blank_of_wordChar {c : Char} (h : wordChar c = true) : blank c = false := by
  by_contra hblank
  simp only [blank, Bool.decide_or, Bool.not_eq_false, Bool.or_eq_true,
    decide_eq_true_eq] at hblank
  rcases hblank with rfl | rfl | rfl | rfl <;> exact absurd h (by decide)

theorem Token.exists_text (t : Token) :
    ∃ c rest, t.text = c :: rest ∧ blank c = false ∧ c ≠ '\uFEFF' := by
  cases t with
  | mark m => exact ⟨m.char, [], rfl, by cases m <;> decide, by cases m <;> decide⟩
  | string s => exact ⟨'"', _, rfl, by decide, by decide⟩
  | scalar s =>
    cases hs : s.text with
    | nil => exact absurd hs s.text_ne_nil
    | cons c rest =>
      have hword : wordChar c = true := wordChar_of_mem_text (s := s) (by simp [hs])
      refine ⟨c, rest, hs, blank_of_wordChar hword, ?_⟩
      rintro rfl
      exact absurd hword (by decide)

/-- Rendered tokens are read back, whatever white space separates and follows them. -/
theorem lex_render {pieces : List (Text × Token)} {tail : Text} {n : ℕ}
    (hblank : ∀ p ∈ pieces, p.1.all blank = true) (htail : tail.all blank = true)
    (hspaced : Spaced (pieces.map Prod.snd)) (hn : pieces.length ≤ n) :
    lex n (render pieces ++ tail) = some (pieces.map Prod.snd) := by
  induction pieces generalizing n with
  | nil =>
    have hdrop : tail.dropWhile blank = [] :=
      List.dropWhile_eq_nil_iff.mpr (List.all_eq_true.mp htail)
    cases n with
    | zero => simp [lex, render, htail]
    | succ n => simp [lex, render, hdrop]
  | cons piece pieces ih =>
    rcases piece with ⟨gap, t⟩
    cases n with
    | zero => simp at hn
    | succ n =>
      rcases t.exists_text with ⟨c, word, htext, hc, -⟩
      have hgap : ∀ d ∈ gap, blank d = true := by
        simpa using hblank (gap, t) (List.mem_cons_self ..)
      have hdrop : (render ((gap, t) :: pieces) ++ tail).dropWhile blank =
          c :: (word ++ (render pieces ++ tail)) := by
        rw [render, List.flatMap_cons, List.append_assoc, List.append_assoc,
          List.dropWhile_append_of_pos hgap, htext, List.cons_append, List.dropWhile_cons_of_neg]
        · rfl
        · simp [hc]
      have hnext : t.isWord = true → ∀ d ∈ (render pieces ++ tail).head?, wordChar d = false := by
        intro hword d hd
        have hwhite : ∀ g : Text, g.all blank = true → ∀ d ∈ g.head?, wordChar d = false := by
          intro g hg d hd
          have hb := List.all_eq_true.mp hg d (List.mem_of_mem_head? hd)
          simp only [blank, Bool.decide_or, Bool.or_eq_true, decide_eq_true_eq] at hb
          rcases hb with rfl | rfl | rfl | rfl <;> decide
        cases pieces with
        | nil => exact hwhite tail htail d hd
        | cons next pieces =>
          rcases next with ⟨gap', t'⟩
          have hnot : t'.isWord = false := by
            have hchain : Spaced (t :: t' :: pieces.map Prod.snd) := hspaced
            exact (List.isChain_cons_cons.mp hchain).1 hword
          cases hgap' : gap' with
          | nil =>
            rcases t'.exists_text with ⟨c', word', htext', -, -⟩
            have hhead : d = c' := by
              rw [hgap'] at hd
              simpa [render, htext'] using hd.symm
            exact (head_text_of_not_isWord hnot d (by rw [htext', hhead]; rfl)).1
          | cons g gs =>
            have hg := hblank (gap', t') (by simp)
            apply hwhite gap' hg d
            rw [hgap'] at hd ⊢
            simpa [render] using hd
      have htoken := lexToken_text t (render pieces ++ tail) hnext
      rw [htext, List.cons_append] at htoken
      have hrest := ih (fun p hp => hblank p (List.mem_cons_of_mem _ hp))
        (List.IsChain.tail hspaced) (by simpa using hn)
      rw [lex]
      simp only [hdrop, htoken, Option.bind_some, hrest, Option.map_some, List.map_cons]

theorem lexPrefix_of_lex {n : ℕ} {text : Text} {tokens : List Token}
    (h : lex n text = some tokens) : lexPrefix n text = tokens := by
  induction n generalizing text tokens with
  | zero =>
    rw [lex] at h
    split_ifs at h
    cases h
    rfl
  | succ n ih =>
    rw [lex] at h
    rw [lexPrefix]
    cases hdrop : text.dropWhile blank with
    | nil =>
      rw [hdrop] at h
      cases h
      rfl
    | cons c rest =>
      rw [hdrop] at h
      simp only [Option.bind_eq_some_iff, Option.map_eq_some_iff] at h
      rcases h with ⟨read, hread, tail, htail, rfl⟩
      simp only [hread, ih htail]

theorem le_of_mem_escape {c d : Char} (h : d ∈ escape c) : 32 ≤ d.toNat := by
  unfold escape at h
  cases hletter : escapeLetter c with
  | some letter =>
    have hle : 32 ≤ letter.toNat := by
      unfold escapeLetter at hletter
      split_ifs at hletter <;> cases hletter <;> decide
    simp only [hletter, List.mem_cons, List.not_mem_nil, or_false] at h
    rcases h with rfl | rfl
    · decide
    · exact hle
  | none =>
    have hdigits : ∀ n < 32, 32 ≤ (Nat.digitChar (n / 16)).toNat ∧
        32 ≤ (Nat.digitChar (n % 16)).toNat := by decide
    by_cases hcontrol : c.toNat < 32
    · have hle := hdigits _ hcontrol
      simp only [hletter, hcontrol, if_true, List.mem_cons, List.not_mem_nil, or_false] at h
      rcases h with rfl | rfl | rfl | rfl | rfl | rfl
      · decide
      · decide
      · decide
      · decide
      · exact hle.1
      · exact hle.2
    · simp only [hletter, hcontrol, if_false, List.mem_singleton] at h
      rw [h]
      exact Nat.not_lt.mp hcontrol

theorem le_of_wordChar {c : Char} (h : wordChar c = true) : 32 ≤ c.toNat := by
  have hlow : ∀ n < 32, wordChar (Char.ofNat n) = false := by decide
  by_contra hlt
  have hnot := hlow c.toNat (by omega)
  rw [Char.ofNat_toNat, h] at hnot
  cases hnot

/-- No control character stands in the text of a token. -/
theorem Token.le_of_mem_text {t : Token} {c : Char} (h : c ∈ t.text) : 32 ≤ c.toNat := by
  cases t with
  | mark m =>
    rw [Token.text, List.mem_singleton] at h
    rw [h]
    cases m <;> decide
  | string s =>
    simp only [Token.text, List.mem_cons, List.mem_append, List.mem_flatMap, List.not_mem_nil,
      or_false] at h
    rcases h with rfl | ⟨d, -, hd⟩ | rfl
    · decide
    · exact le_of_mem_escape hd
    · decide
  | scalar s => exact le_of_wordChar (wordChar_of_mem_text h)

end Library.Json
