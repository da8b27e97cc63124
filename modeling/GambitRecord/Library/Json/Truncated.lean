import GambitRecord.Library.Json.Document
import GambitRecord.Library.TextMode

/-! # Texts cut short

The lexer and the parser read locally: what they take from a text does not depend
on what follows. So the text of an object, cut before its last brace, is no JSON
text, and neither is what a file in text mode keeps of it.
-/

namespace Library.Json
open Library.DigitText

theorem hex4_local {text rest : Text} {unit : ℕ} (h : hex4 text = some (unit, rest)) :
    ∃ used, text = used ++ rest ∧ ∀ more, hex4 (used ++ more) = some (unit, more) := by
  match text with
  | [] | [_] | [_, _] | [_, _, _] => cases h
  | a :: b :: c :: d :: tail =>
    refine ⟨[a, b, c, d], ?_⟩
    simp only [hex4] at h
    split at h
    · rename_i ha hb hc hd
      cases h
      refine ⟨rfl, fun more => ?_⟩
      simp only [List.cons_append, List.nil_append, hex4, ha, hb, hc, hd]
    · cases h

theorem unicodeEscape_local {text rest : Text} {c : Char}
    (h : unicodeEscape text = some (c, rest)) :
    ∃ used, text = used ++ rest ∧ ∀ more, unicodeEscape (used ++ more) = some (c, more) := by
  rw [unicodeEscape] at h
  cases hunit : hex4 text with
  | none =>
    rw [hunit] at h
    cases h
  | some read =>
    rcases read with ⟨unit, tail⟩
    rcases hex4_local hunit with ⟨used, rfl, hused⟩
    rw [hunit] at h
    by_cases hhigh : 0xD800 ≤ unit ∧ unit < 0xDC00
    · simp only [hhigh, and_self, if_true] at h
      split at h
      · rename_i pair
        cases hlow : hex4 pair with
        | none =>
          rw [hlow] at h
          cases h
        | some read =>
          rcases read with ⟨low, tail⟩
          rcases hex4_local hlow with ⟨used', rfl, hused'⟩
          rw [hlow] at h
          by_cases hpair : 0xDC00 ≤ low ∧ low < 0xE000
          · simp only [hpair, and_self, if_true, Option.some_inj, Prod.mk.injEq] at h
            rcases h with ⟨rfl, rfl⟩
            refine ⟨used ++ '\\' :: 'u' :: used', by simp, fun more => ?_⟩
            simp only [List.append_assoc, List.cons_append, unicodeEscape, hused, hused', hhigh,
              hpair, and_self, if_true]
          · simp only [hpair, if_false] at h
            cases h
      · cases h
    · simp only [hhigh, if_false] at h
      by_cases hlow : 0xDC00 ≤ unit ∧ unit < 0xE000
      · simp only [hlow, and_self, if_true] at h
        cases h
      · simp only [hlow, if_false, Option.some_inj, Prod.mk.injEq] at h
        rcases h with ⟨rfl, rfl⟩
        refine ⟨used, rfl, fun more => ?_⟩
        simp only [unicodeEscape, hused, hhigh, hlow, if_false]

theorem lexString_local {n : ℕ} {text s rest : Text} (h : lexString n text = some (s, rest)) :
    ∃ used, text = used ++ '"' :: rest ∧
      ∀ m more, used.length < m → lexString m (used ++ '"' :: more) = some (s, more) := by
  induction n generalizing text s rest with
  | zero => cases h
  | succ n ih =>
    cases text with
    | nil => cases h
    | cons c tail =>
      simp only [lexString] at h
      by_cases hquote : c = '"'
      · rw [if_pos hquote] at h
        cases h
        refine ⟨[], by rw [hquote]; rfl, fun m more hm => ?_⟩
        obtain ⟨m, rfl⟩ : ∃ k, m = k + 1 := ⟨m - 1, by simp at hm; omega⟩
        rfl
      rw [if_neg hquote] at h
      by_cases hslash : c = '\\'
      · rw [if_pos hslash] at h
        cases tail with
        | nil => cases h
        | cons letter tail =>
          by_cases hu : letter = 'u'
          · simp only [hu, if_true, Option.bind_eq_some_iff, Option.map_eq_some_iff] at h
            rcases h with ⟨⟨d, after⟩, hd, ⟨s', rest'⟩, hs, hpair⟩
            cases hpair
            rcases unicodeEscape_local hd with ⟨escape, rfl, hescape⟩
            rcases ih hs with ⟨used, hused, hlocal⟩
            change after = used ++ '"' :: rest' at hused
            refine ⟨'\\' :: 'u' :: (escape ++ used), by simp [hslash, hu, hused],
              fun m more hm => ?_⟩
            simp only [List.length_cons, List.length_append] at hm
            obtain ⟨m, rfl⟩ : ∃ k, m = k + 1 := ⟨m - 1, by omega⟩
            simp only [List.cons_append, List.append_assoc, lexString, hescape, Option.bind_some,
              hlocal m more (by omega), Option.map_some, if_true,
              show ¬ ('\\' : Char) = '"' from by decide, if_false]
          · simp only [hu, if_false, Option.bind_eq_some_iff, Option.map_eq_some_iff] at h
            rcases h with ⟨d, hd, ⟨s', rest'⟩, hs, hpair⟩
            cases hpair
            rcases ih hs with ⟨used, rfl, hlocal⟩
            refine ⟨'\\' :: letter :: used, by simp [hslash], fun m more hm => ?_⟩
            simp only [List.length_cons] at hm
            obtain ⟨m, rfl⟩ : ∃ k, m = k + 1 := ⟨m - 1, by omega⟩
            simp only [List.cons_append, lexString, hu, hd, Option.bind_some,
              hlocal m more (by omega), Option.map_some, if_true,
              show ¬ ('\\' : Char) = '"' from by decide, if_false]
      · rw [if_neg hslash] at h
        by_cases hcontrol : c.toNat < 32
        · rw [if_pos hcontrol] at h
          cases h
        · rw [if_neg hcontrol, Option.map_eq_some_iff] at h
          rcases h with ⟨⟨s', rest'⟩, hs, hpair⟩
          cases hpair
          rcases ih hs with ⟨used, rfl, hlocal⟩
          refine ⟨c :: used, rfl, fun m more hm => ?_⟩
          rw [List.length_cons] at hm
          obtain ⟨m, rfl⟩ : ∃ k, m = k + 1 := ⟨m - 1, by omega⟩
          simp only [List.cons_append, lexString, hquote, hslash, hcontrol, if_false,
            hlocal m more (by omega), Option.map_some]

/-- The rest of a word does not go on. -/
def Stops (t : Token) (rest : Text) : Prop :=
  t.isWord = true → ∀ c ∈ rest.head?, wordChar c = false

theorem readScalar_nil : readScalar [] = none := by decide +kernel

theorem lexToken_word {c : Char} {tail more : Text} {s : Scalar} (hmark : Mark.ofChar c = none)
    (hquote : c ≠ '"') (hs : readScalar ((c :: tail).takeWhile wordChar) = some s)
    (hmore : Stops (.scalar s) more) :
    lexToken ((c :: tail).takeWhile wordChar ++ more) = some (.scalar s, more) := by
  have hall : ∀ d ∈ (c :: tail).takeWhile wordChar, wordChar d = true := fun d hd =>
    List.mem_takeWhile_imp hd
  have hnil : more.takeWhile wordChar = [] ∧ more.dropWhile wordChar = more := by
    cases more with
    | nil => exact ⟨rfl, rfl⟩
    | cons d more => simp [hmore rfl d (by simp)]
  have htake : (List.takeWhile wordChar (c :: tail) ++ more).takeWhile wordChar =
      (c :: tail).takeWhile wordChar := by
    rw [List.takeWhile_append_of_pos hall, hnil.1, List.append_nil]
  have hdrop : (List.takeWhile wordChar (c :: tail) ++ more).dropWhile wordChar = more := by
    rw [List.dropWhile_append_of_pos hall, hnil.2]
  by_cases hc : wordChar c = true
  · rw [List.takeWhile_cons_of_pos hc, List.cons_append] at htake hdrop ⊢
    rw [List.takeWhile_cons_of_pos hc] at hs
    simp only [lexToken, hmark, hquote, if_false, htake, hdrop, hs, Option.map_some]
  · rw [List.takeWhile_cons_of_neg hc, readScalar_nil] at hs
    cases hs

/-- A token ends in its own last character, and is read from any text that stops it. -/
theorem lexToken_local {text rest : Text} {t : Token} (h : lexToken text = some (t, rest)) :
    Stops t rest ∧ ∃ used last, text = used ++ last :: rest ∧ blank last = false ∧
      ∀ more, Stops t more → lexToken (used ++ last :: more) = some (t, more) := by
  cases text with
  | nil => cases h
  | cons c tail =>
    rw [lexToken] at h
    cases hmark : Mark.ofChar c with
    | some m =>
      rw [hmark] at h
      cases h
      have hchar := List.find?_some hmark
      rw [decide_eq_true_eq] at hchar
      refine ⟨by rintro ⟨⟩, [], c, rfl, ?_, fun more _ => ?_⟩
      · rw [← hchar]
        cases m <;> decide
      · simp only [List.nil_append, lexToken, hmark]
    | none =>
      rw [hmark] at h
      by_cases hquote : c = '"'
      · simp only [hquote, if_true, Option.map_eq_some_iff] at h
        rcases h with ⟨⟨s, rest'⟩, hs, hpair⟩
        cases hpair
        rcases lexString_local hs with ⟨used, hused, hlocal⟩
        refine ⟨by rintro ⟨⟩, '"' :: used, '"', by rw [hquote, hused]; rfl, by decide,
          fun more _ => ?_⟩
        simp only [List.cons_append, lexToken, ← hquote, hmark, if_true]
        have hlong : used.length < (used ++ '"' :: more).length + 1 := by
          rw [List.length_append]
          omega
        rw [hquote, hlocal _ more hlong]
        rfl
      · simp only [hquote, if_false, Option.map_eq_some_iff] at h
        rcases h with ⟨s, hs, hpair⟩
        cases hpair
        have hstops : Stops (.scalar s) ((c :: tail).dropWhile wordChar) := by
          intro _ d hd
          have hnot := List.head?_dropWhile_not wordChar (c :: tail)
          rw [hd] at hnot
          exact hnot
        have hne : (c :: tail).takeWhile wordChar ≠ [] := by
          intro hnil
          rw [hnil, readScalar_nil] at hs
          cases hs
        have hall : ∀ d ∈ (c :: tail).takeWhile wordChar, wordChar d = true := fun d hd =>
          List.mem_takeWhile_imp hd
        generalize hword : (c :: tail).takeWhile wordChar = word at hne hall hs
        have hsplit := List.dropLast_append_getLast hne
        refine ⟨hstops, word.dropLast, word.getLast hne, ?_,
          blank_of_wordChar (hall _ (List.getLast_mem hne)), fun more hmore => ?_⟩
        · rw [List.append_cons, hsplit, ← hword, List.takeWhile_append_dropWhile]
        · rw [List.append_cons, hsplit, ← hword]
          rw [← hword] at hs
          exact lexToken_word hmark hquote hs hmore

theorem lex_white {n : ℕ} {white : Text} (h : white.all blank = true) : lex n white = some [] := by
  cases n with
  | zero => rw [lex, if_pos h]
  | succ n => rw [lex, List.dropWhile_eq_nil_iff.mpr (List.all_eq_true.mp h)]

theorem lexPrefix_lbrace {n : ℕ} {text : Text} {ts : List Token}
    (h : lexPrefix n ('\x7b' :: text) = ts) : ts = [] ∨ ∃ ts', ts = .mark .lbrace :: ts' := by
  cases n with
  | zero => exact Or.inl h.symm
  | succ n =>
    have hread : lexToken ('\x7b' :: text) = some (.mark .lbrace, text) := rfl
    have hdrop : ('\x7b' :: text).dropWhile blank = '\x7b' :: text := rfl
    simp only [lexPrefix, hdrop, hread] at h
    exact Or.inr ⟨_, h.symm⟩

theorem all_blank_of_lex {n : ℕ} {text : Text} (h : lex n text = some []) :
    text.all blank = true := by
  cases n with
  | zero =>
    rw [lex] at h
    split_ifs at h with hblank
    exact hblank
  | succ n =>
    rw [lex] at h
    cases hdrop : text.dropWhile blank with
    | nil => exact List.all_eq_true.mpr (List.dropWhile_eq_nil_iff.mp hdrop)
    | cons c rest =>
      rw [hdrop] at h
      simp only [Option.bind_eq_some_iff, Option.map_eq_some_iff] at h
      rcases h with ⟨read, -, tokens, -, hcons⟩
      cases hcons

theorem lex_cons {n : ℕ} {text rest tail : Text} {c : Char} {ts : List Token}
    (hdrop : text.dropWhile blank = c :: rest) (h : lex n (text ++ tail) = some ts) :
    ∃ m t after ts', lexToken (c :: rest ++ tail) = some (t, after) ∧ n = m + 1 ∧
      lex m after = some ts' ∧ ts = t :: ts' := by
  have happ : (text ++ tail).dropWhile blank = c :: rest ++ tail := by
    rw [List.dropWhile_append, hdrop]
    rfl
  cases n with
  | zero =>
    rw [lex] at h
    split_ifs at h with hblank
    rw [List.dropWhile_eq_nil_iff.mpr (List.all_eq_true.mp hblank)] at happ
    cases happ
  | succ n =>
    rw [lex, happ] at h
    simp only [Option.bind_eq_some_iff, Option.map_eq_some_iff, List.cons_append] at h
    rcases h with ⟨⟨t, after⟩, hread, ts', hts, rfl⟩
    exact ⟨n, t, after, ts', hread, rfl, hts, rfl⟩

theorem exists_of_append_white {used text white after : Text} {last : Char}
    (hlast : blank last = false) (hwhite : white.all blank = true)
    (h : text ++ white = used ++ last :: after) :
    ∃ rest, text = used ++ last :: rest ∧ after = rest ++ white := by
  rw [List.append_cons] at h
  rcases List.append_eq_append_iff.mp h with ⟨gap, hused, hgap⟩ | ⟨rest, htext, hafter⟩
  · cases hnil : gap.reverse with
    | nil =>
      rw [List.reverse_eq_nil_iff] at hnil
      rw [hnil] at hused hgap
      exact ⟨[], by simpa using hused.symm, by simpa using hgap.symm⟩
    | cons d gap' =>
      rw [List.reverse_eq_cons_iff] at hnil
      rw [hnil, ← List.append_assoc] at hused
      have hd := (List.append_inj' hused rfl).2
      cases hd
      have hmem : last ∈ white := by simp [hgap, hnil]
      rw [List.all_eq_true.mp hwhite last hmem] at hlast
      cases hlast
  · exact ⟨rest, by simpa using htext, hafter⟩

/-- Of a text cut short, with white space behind the cut, the tokens are the first of the whole
text's; only a word at the cut may be another. -/
theorem lexPrefix_cut {n m : ℕ} {text white cut : Text} {all : List Token}
    (hwhite : white.all blank = true) (hall : lex m (text ++ cut) = some all) :
    ∃ shared more, all = shared ++ more ∧
      ((lexPrefix n (text ++ white) = shared ∧ (more = [] → cut.all blank = true)) ∨
        more ≠ [] ∧ ∃ s, lexPrefix n (text ++ white) = shared ++ [.scalar s]) := by
  have hnone : ∀ {n m text all}, lex m (text ++ cut) = some all → lexPrefix n (text ++ white) = [] →
      ∃ shared more, all = shared ++ more ∧
        ((lexPrefix n (text ++ white) = shared ∧ (more = [] → cut.all blank = true)) ∨
          more ≠ [] ∧ ∃ s, lexPrefix n (text ++ white) = shared ++ [.scalar s]) := by
    intro n m text all hall hnil
    refine ⟨[], all, rfl, Or.inl ⟨hnil, ?_⟩⟩
    rintro rfl
    have hblank := all_blank_of_lex hall
    rw [List.all_append, Bool.and_eq_true] at hblank
    exact hblank.2
  induction n generalizing m text all with
  | zero => exact hnone hall rfl
  | succ n ih =>
    cases hdrop : text.dropWhile blank with
    | nil =>
      have hnil : (text ++ white).dropWhile blank = [] := by
        rw [List.dropWhile_append, hdrop]
        exact List.dropWhile_eq_nil_iff.mpr (List.all_eq_true.mp hwhite)
      exact hnone hall (by rw [lexPrefix, hnil])
    | cons c rest =>
      have happ : (text ++ white).dropWhile blank = c :: (rest ++ white) := by
        rw [List.dropWhile_append, hdrop]
        rfl
      cases hread : lexToken (c :: (rest ++ white)) with
      | none => exact hnone hall (by simp only [lexPrefix, happ, hread])
      | some read =>
        obtain ⟨t, after⟩ := read
        have hstep : lexPrefix (n + 1) (text ++ white) = t :: lexPrefix n after := by
          simp only [lexPrefix, happ, hread]
        rcases lexToken_local hread with ⟨hstops, used, last, htext, hlast, hlocal⟩
        rw [← List.cons_append] at htext
        rcases exists_of_append_white hlast hwhite htext with ⟨rest', hrest', rfl⟩
        rcases lex_cons hdrop hall with ⟨k, t', after', all', hread', rfl, hall', rfl⟩
        rw [hrest', List.append_assoc, List.cons_append] at hread'
        by_cases hword : t.isWord = true ∧ rest' = []
        · rcases hword with ⟨hword, rfl⟩
          rw [List.nil_append, lexPrefix_of_lex (lex_white hwhite)] at hstep
          cases t with
          | scalar s => exact ⟨[], _, rfl, Or.inr ⟨List.cons_ne_nil _ _, s, hstep⟩⟩
          | mark m => cases hword
          | string s => cases hword
        · have hstop : Stops t (rest' ++ cut) := by
            intro hw d hd
            cases rest' with
            | nil => exact absurd ⟨hw, rfl⟩ hword
            | cons e rest' => exact hstops hw d hd
          rw [hlocal _ hstop] at hread'
          cases hread'
          rcases ih hall' with ⟨shared, more, rfl, hcase⟩
          refine ⟨t :: shared, more, rfl, ?_⟩
          rcases hcase with ⟨hshared, hcut⟩ | ⟨hmore, s, hshared⟩
          · exact Or.inl ⟨by rw [hstep, hshared], hcut⟩
          · exact Or.inr ⟨hmore, s, by rw [hstep, hshared, List.cons_append]⟩

theorem parseValue_lbracket {n : ℕ} {ts rest : List Token} {js : List Json}
    (h : parseElements n ts = some (js, rest)) :
    parseValue (n + 1) (.mark .lbracket :: ts) = some (.array js, rest) := by
  have hhead : ∀ more, ts ≠ .mark .rbracket :: more := by
    rintro more rfl
    match n with
    | 0 | 1 | n + 2 => cases h
  rw [parseValue, h]
  · rfl
  · exact hhead

theorem parseValue_lbrace {n : ℕ} {ts rest : List Token} {ms : List (Bytes × Json)}
    (h : parseMembers n ts = some (ms, rest)) :
    parseValue (n + 1) (.mark .lbrace :: ts) = some (.object ms, rest) := by
  have hhead : ∀ more, ts ≠ .mark .rbrace :: more := by
    rintro more rfl
    match n with
    | 0 | n + 1 => cases h
  rw [parseValue, h]
  · rfl
  · exact hhead

mutual

theorem parseValue_local {n : ℕ} {ts rest : List Token} {j : Json}
    (h : parseValue n ts = some (j, rest)) :
    ∃ used, ts = used ++ rest ∧
      ∀ m more, n ≤ m → parseValue m (used ++ more) = some (j, more) := by
  match n, ts with
  | 0, _ => cases h
  | _ + 1, [] => cases h
  | n + 1, .scalar s :: ts =>
    cases h
    refine ⟨[.scalar s], rfl, fun m more hm => ?_⟩
    obtain ⟨m, rfl⟩ : ∃ k, m = k + 1 := ⟨m - 1, by omega⟩
    rfl
  | n + 1, .string s :: ts =>
    cases h
    refine ⟨[.string s], rfl, fun m more hm => ?_⟩
    obtain ⟨m, rfl⟩ : ∃ k, m = k + 1 := ⟨m - 1, by omega⟩
    rfl
  | n + 1, .mark .lbracket :: ts =>
    by_cases hempty : ∃ more, ts = .mark .rbracket :: more
    · rcases hempty with ⟨more, rfl⟩
      cases h
      refine ⟨[.mark .lbracket, .mark .rbracket], rfl, fun m more hm => ?_⟩
      obtain ⟨m, rfl⟩ : ∃ k, m = k + 1 := ⟨m - 1, by omega⟩
      rfl
    · rw [parseValue] at h
      · rw [Option.map_eq_some_iff] at h
        rcases h with ⟨⟨js, rest'⟩, hread, hpair⟩
        cases hpair
        rcases parseElements_local hread with ⟨used, rfl, hlocal⟩
        refine ⟨.mark .lbracket :: used, rfl, fun m more hm => ?_⟩
        obtain ⟨m, rfl⟩ : ∃ k, m = k + 1 := ⟨m - 1, by omega⟩
        exact parseValue_lbracket (hlocal m more (by omega))
      · exact fun more hmore => hempty ⟨more, hmore⟩
  | n + 1, .mark .lbrace :: ts =>
    by_cases hempty : ∃ more, ts = .mark .rbrace :: more
    · rcases hempty with ⟨more, rfl⟩
      cases h
      refine ⟨[.mark .lbrace, .mark .rbrace], rfl, fun m more hm => ?_⟩
      obtain ⟨m, rfl⟩ : ∃ k, m = k + 1 := ⟨m - 1, by omega⟩
      rfl
    · rw [parseValue] at h
      · rw [Option.map_eq_some_iff] at h
        rcases h with ⟨⟨ms, rest'⟩, hread, hpair⟩
        cases hpair
        rcases parseMembers_local hread with ⟨used, rfl, hlocal⟩
        refine ⟨.mark .lbrace :: (used ++ [.mark .rbrace]), by simp, fun m more hm => ?_⟩
        obtain ⟨m, rfl⟩ : ∃ k, m = k + 1 := ⟨m - 1, by omega⟩
        have hmore := hlocal m more (by omega)
        rw [List.append_cons] at hmore
        exact parseValue_lbrace hmore
      · exact fun more hmore => hempty ⟨more, hmore⟩
  | n + 1, .mark .rbracket :: ts => cases h
  | n + 1, .mark .rbrace :: ts => cases h
  | n + 1, .mark .colon :: ts => cases h
  | n + 1, .mark .comma :: ts => cases h

theorem parseElements_local {n : ℕ} {ts rest : List Token} {js : List Json}
    (h : parseElements n ts = some (js, rest)) :
    ∃ used, ts = used ++ rest ∧
      ∀ m more, n ≤ m → parseElements m (used ++ more) = some (js, more) := by
  match n with
  | 0 => cases h
  | n + 1 =>
    rw [parseElements, Option.bind_eq_some_iff] at h
    rcases h with ⟨⟨j, after⟩, hread, hnext⟩
    rcases parseValue_local hread with ⟨used, rfl, hlocal⟩
    dsimp only at hnext hlocal
    split at hnext
    · rw [Option.map_eq_some_iff] at hnext
      rcases hnext with ⟨⟨js, rest'⟩, hread', hpair⟩
      cases hpair
      rcases parseElements_local hread' with ⟨used', rfl, hlocal'⟩
      refine ⟨used ++ .mark .comma :: used', by simp, fun m more hm => ?_⟩
      obtain ⟨m, rfl⟩ : ∃ k, m = k + 1 := ⟨m - 1, by omega⟩
      rw [List.append_assoc, List.cons_append, parseElements_cons (hlocal m _ (by omega)),
        hlocal' m more (by omega)]
      rfl
    · cases hnext
      refine ⟨used ++ [.mark .rbracket], by simp, fun m more hm => ?_⟩
      obtain ⟨m, rfl⟩ : ∃ k, m = k + 1 := ⟨m - 1, by omega⟩
      rw [List.append_assoc, List.singleton_append]
      exact parseElements_last (hlocal m _ (by omega))
    · cases hnext

theorem parseMembers_local {n : ℕ} {ts rest : List Token} {ms : List (Bytes × Json)}
    (h : parseMembers n ts = some (ms, rest)) :
    ∃ used, ts = used ++ .mark .rbrace :: rest ∧
      ∀ m more, n ≤ m → parseMembers m (used ++ .mark .rbrace :: more) = some (ms, more) := by
  match n with
  | 0 => cases h
  | n + 1 =>
    by_cases hhead : ∃ key more, ts = .string key :: .mark .colon :: more
    rotate_left
    · rw [parseMembers] at h
      · cases h
      · exact fun key more hmore => hhead ⟨key, more, hmore⟩
    rcases hhead with ⟨key, ts, rfl⟩
    rw [parseMembers, Option.bind_eq_some_iff] at h
    rcases h with ⟨⟨j, after⟩, hread, hnext⟩
    rcases parseValue_local hread with ⟨used, rfl, hlocal⟩
    dsimp only at hnext hlocal
    split at hnext
    · rw [Option.map_eq_some_iff] at hnext
      rcases hnext with ⟨⟨ms, rest'⟩, hread', hpair⟩
      cases hpair
      rcases parseMembers_local hread' with ⟨used', rfl, hlocal'⟩
      refine ⟨.string key :: .mark .colon :: (used ++ .mark .comma :: used'), by simp,
        fun m more hm => ?_⟩
      obtain ⟨m, rfl⟩ : ∃ k, m = k + 1 := ⟨m - 1, by omega⟩
      rw [List.cons_append, List.cons_append, List.append_assoc, List.cons_append,
        parseMembers_cons (hlocal m _ (by omega)), hlocal' m more (by omega)]
      rfl
    · cases hnext
      refine ⟨.string key :: .mark .colon :: used, by simp, fun m more hm => ?_⟩
      obtain ⟨m, rfl⟩ : ∃ k, m = k + 1 := ⟨m - 1, by omega⟩
      exact parseMembers_last (hlocal m _ (by omega))
    · cases hnext

end

theorem parseValue_lbrace_ends {n : ℕ} {ts : List Token} {j : Json}
    (h : parseValue n (.mark .lbrace :: ts) = some (j, [])) :
    ∃ used, ts = used ++ [.mark .rbrace] := by
  match n with
  | 0 => cases h
  | n + 1 =>
    by_cases hempty : ∃ more, ts = .mark .rbrace :: more
    · rcases hempty with ⟨more, rfl⟩
      cases h
      exact ⟨[], rfl⟩
    · rw [parseValue] at h
      · rw [Option.map_eq_some_iff] at h
        rcases h with ⟨⟨ms, rest⟩, hread, hpair⟩
        cases hpair
        rcases parseMembers_local hread with ⟨used, rfl, -⟩
        exact ⟨used, rfl⟩
      · exact fun more hmore => hempty ⟨more, hmore⟩

theorem layout_cons (indent : Option ℕ) (t : Token) (ts : List Token) :
    ∃ pieces, layout indent (t :: ts) = ([], t) :: pieces ∧ pieces.map Prod.snd = ts := by
  cases indent with
  | none => exact ⟨ts.map fun t => ([], t), rfl, by simp [Function.comp_def]⟩
  | some indent => exact ⟨_, rfl, (indented_spec indent _ t ts).1⟩

theorem dump_object {indent : Option ℕ} {ms : List (Bytes × Json)} {body : Text}
    (h : dump indent (.object ms) = some body) :
    ∃ middle, body = '\x7b' :: (middle ++ ['\x7d']) := by
  unfold dump at h
  split_ifs at h with hvalid
  cases h
  have hparse : parseValue _ ((object ms).tokens ++ []) = some (.object ms, []) :=
    parseValue_tokens (.object ms) hvalid (Nat.le_refl _)
  rw [List.append_nil] at hparse
  simp only [tokens] at hparse
  rcases parseValue_lbrace_ends hparse with ⟨used, hused⟩
  rcases layout_cons indent (.mark .lbrace) (memberTokens ms) with ⟨pieces, hlayout, hpieces⟩
  rw [hused, List.map_eq_append_iff] at hpieces
  rcases hpieces with ⟨front, back, rfl, -, hback⟩
  rcases List.map_eq_cons_iff.mp hback with ⟨p, ps, rfl, hp, hps⟩
  rw [List.map_eq_nil_iff] at hps
  refine ⟨render front ++ p.1, ?_⟩
  rw [tokens, hlayout, hps]
  simp [render, hp, Token.text, Mark.char]

/-- What is missing of the text of an object ends in its brace. -/
theorem not_all_blank_of_append_eq {text cut middle : Text}
    (h : text ++ cut = '\x7b' :: (middle ++ ['\x7d'])) (hcut : cut ≠ []) :
    ¬ cut.all blank = true := by
  intro hblank
  have hlast : (text ++ cut).getLast? = some '\x7d' := by
    rw [h, ← List.cons_append, List.getLast?_concat]
  rw [List.getLast?_append_of_ne_nil _ hcut, List.getLast?_eq_some_getLast hcut,
    Option.some_inj] at hlast
  have hbrace := List.all_eq_true.mp hblank (cut.getLast hcut) (List.getLast_mem hcut)
  rw [hlast] at hbrace
  cases hbrace

/-- Cut before its last brace, the text of an object has no value in front, whatever white space
stands in the place of the rest. -/
theorem parseValue_cut {indent : Option ℕ} {ms : List (Bytes × Json)} {text cut white : Text}
    {ts : List Token} {n : ℕ} (h : dump indent (.object ms) = some (text ++ cut)) (hcut : cut ≠ [])
    (hwhite : white.all blank = true) (hts : lexPrefix n (text ++ white) = ts) :
    parseValue (2 * ts.length) ts = none := by
  rw [Option.eq_none_iff_forall_not_mem]
  rintro ⟨j, rest⟩ hvalue
  rw [Option.mem_def] at hvalue
  have hwhole : parse (text ++ cut ++ []) = some (.object ms) := parse_dump h rfl
  rw [List.append_nil] at hwhole
  simp only [parse, Option.bind_eq_some_iff] at hwhole
  rcases hwhole with ⟨all, hall, hwhole⟩
  rcases dump_object h with ⟨middle, hbody⟩
  split at hwhole
  rotate_left
  · cases hwhole
  rename_i whole hwholeValue
  rcases parseValue_local hvalue with ⟨used, hused, hlocal⟩
  rcases @lexPrefix_cut n _ _ _ _ _ hwhite hall with
    ⟨shared, more, rfl, ⟨hshared, hmore⟩ | ⟨hmore, s, hshared⟩⟩
  · -- all tokens before the cut are the whole text's: none may be left
    rw [hts] at hshared
    rw [← hshared, hused, List.append_assoc,
      hlocal _ _ (by rw [hused]; simp only [List.length_append]; omega)] at hwholeValue
    have hnone := (List.append_eq_nil_iff.mp (Prod.mk.inj (Option.some.inj hwholeValue)).2).2
    exact not_all_blank_of_append_eq hbody hcut (hmore hnone)
  · rw [hts] at hshared
    rcases List.eq_nil_or_concat rest with rfl | ⟨rest', t, rfl⟩
    · -- a word at the cut: but the tokens begin with a brace, and so end in one
      cases text with
      | nil =>
        rw [List.nil_append, lexPrefix_of_lex (lex_white hwhite)] at hts
        rw [← hts] at hshared
        simp at hshared
      | cons c text =>
        rw [List.cons_append, List.cons.injEq] at hbody
        rw [hbody.1, List.cons_append] at hts
        rcases lexPrefix_lbrace hts with rfl | ⟨ts', rfl⟩
        · simp at hshared
        · rcases parseValue_lbrace_ends hvalue with ⟨body, rfl⟩
          rw [← List.cons_append] at hshared
          have hends := (List.append_inj' hshared rfl).2
          cases hends
    · -- a word behind the value: then the whole text's value would end before its end
      rw [hused, List.concat_eq_append, ← List.append_assoc] at hshared
      have hfront := (List.append_inj' hshared rfl).1
      have hpos := List.length_pos_iff.mpr hmore
      rw [← hfront, List.append_assoc, hlocal _ _ (by
        rw [hused, List.concat_eq_append]
        simp only [List.length_append, List.length_singleton]
        omega)] at hwholeValue
      exact hmore (List.append_eq_nil_iff.mp (Prod.mk.inj (Option.some.inj hwholeValue)).2).2

/-- So the rest is no JSON text. -/
theorem parse_cut {indent : Option ℕ} {ms : List (Bytes × Json)} {text cut white : Text}
    (h : dump indent (.object ms) = some (text ++ cut)) (hcut : cut ≠ [])
    (hwhite : white.all blank = true) : parse (text ++ white) = none := by
  rw [parse, Option.bind_eq_none_iff]
  intro ts hts
  rw [parseValue_cut h hcut hwhite (lexPrefix_of_lex hts)]

theorem eq_of_mem_gap {indent depth : ℕ} {previous t : Token} {c : Char}
    (h : c ∈ gap indent depth previous t) : c = '\n' ∨ c = ' ' := by
  unfold gap newline at h
  split_ifs at h <;> simp only [List.mem_cons, List.mem_replicate, List.not_mem_nil] at h <;> tauto

theorem eq_of_mem_indented {indent depth : ℕ} {previous : Token} {ts : List Token}
    {p : Text × Token} {c : Char} (hp : p ∈ indented indent depth previous ts) (hc : c ∈ p.1) :
    c = '\n' ∨ c = ' ' := by
  induction ts generalizing depth previous with
  | nil => cases hp
  | cons t ts ih =>
    rcases List.mem_cons.mp hp with rfl | hp
    · exact eq_of_mem_gap hc
    · exact ih hp

theorem eq_of_mem_layout {indent : Option ℕ} {ts : List Token} {p : Text × Token} {c : Char}
    (hp : p ∈ layout indent ts) (hc : c ∈ p.1) : c = '\n' ∨ c = ' ' := by
  cases indent with
  | none =>
    rcases List.mem_map.mp hp with ⟨t, -, rfl⟩
    cases hc
  | some indent =>
    cases ts with
    | nil => cases hp
    | cons t ts =>
      rcases List.mem_cons.mp hp with rfl | hp
      · cases hc
      · exact eq_of_mem_indented hp hc

/-- A line feed is the only control character of a text. -/
theorem newline_or_le_of_mem_dump {indent : Option ℕ} {j : Json} {body : Text}
    (h : dump indent j = some body) {c : Char} (hc : c ∈ body) : c = '\n' ∨ 32 ≤ c.toNat := by
  unfold dump at h
  split_ifs at h
  cases h
  rcases List.mem_flatMap.mp hc with ⟨p, hp, hc⟩
  rcases List.mem_append.mp hc with hgap | htext
  · rcases eq_of_mem_layout hp hgap with rfl | rfl
    · exact Or.inl rfl
    · exact Or.inr (by decide)
  · exact Or.inr (Token.le_of_mem_text htext)

theorem plain_dump {indent : Option ℕ} {j : Json} {body : Text} (h : dump indent j = some body) :
    TextMode.Plain (Utf8.encode body) := by
  intro b hb
  rcases List.mem_flatMap.mp hb with ⟨c, hc, hbyte⟩
  have hnot : ∀ n : UInt8, n.toNat < 32 → n ≠ 10 → b ≠ n := by
    rintro n hn hten rfl
    have hval := Utf8.toNat_of_mem_utf8EncodeChar hbyte (by omega)
    rcases newline_or_le_of_mem_dump h hc with rfl | hle
    · exact hten (UInt8.toNat_inj.mp hval.symm)
    · omega
  exact ⟨hnot 13 (by decide) (by decide), hnot 26 (by decide) (by decide)⟩

/-- An object's text, written to a file that keeps only a part of it, is not parsed. -/
theorem parseBytes_cut {indent : Option ℕ} {ms : List (Bytes × Json)} {body : Text} {k : ℕ}
    (h : dump indent (.object ms) = some body)
    (hk : k < (TextMode.write (Utf8.encode body)).length) :
    parseBytes (TextMode.read ((TextMode.write (Utf8.encode body)).take k)) = none := by
  rcases TextMode.read_take_write (plain_dump h) hk with ⟨front, b, back, hsplit, hread⟩
  have hcut : ∀ {cs white : Text}, Utf8.encode cs = front → white.all blank = true →
      white.head? ≠ some '\uFEFF' →
      (parse (if (cs ++ white).head? = some '\uFEFF' then (cs ++ white).tail
        else cs ++ white)) = none := by
    intro cs white hcs hwhite hbom
    rcases Utf8.exists_of_encode_append (hsplit.trans (by rw [hcs])) with ⟨ds, rfl, hds⟩
    have hne : ds ≠ [] := by
      rintro rfl
      cases hds
    have hhead : (cs ++ white).head? ≠ some '\uFEFF' := by
      cases cs with
      | nil => exact hbom
      | cons c cs => exact head_dump h []
    rw [if_neg hhead, parse_cut h hne hwhite]
  rw [parseBytes, Option.bind_eq_none_iff]
  intro cs hcs
  have hencode := Utf8.encode_of_decode hcs
  rcases hread with hread | ⟨-, hread⟩
  · rw [hread] at hencode
    have hnone := @hcut cs [] hencode rfl (by decide)
    rw [List.append_nil] at hnone
    exact hnone
  · rw [hread] at hencode
    rcases Utf8.exists_of_encode_concat (c := '\r') (by decide) hencode with ⟨ds, rfl, hds⟩
    exact hcut hds (by decide) (by decide)

/-- From a stream that keeps only a part of an object's text no value is read. -/
theorem readBytes_cut {indent : Option ℕ} {ms : List (Bytes × Json)} {body : Text} {k : ℕ}
    (h : dump indent (.object ms) = some body) (hk : k < (Utf8.encode body).length) :
    readBytes ((Utf8.encode body).take k) = none := by
  generalize hn : ((Utf8.encode body).take k).length = n
  obtain ⟨rest, hrest⟩ := Utf8.encode_decodePrefix_prefix n ((Utf8.encode body).take k)
  generalize hcs : Utf8.decodePrefix n ((Utf8.encode body).take k) = cs at hrest
  have hsplit : Utf8.encode body = Utf8.encode cs ++ (rest ++ (Utf8.encode body).drop k) := by
    rw [← List.append_assoc, hrest, List.take_append_drop]
  rcases Utf8.exists_of_encode_append hsplit with ⟨ds, rfl, hds⟩
  have hne : ds ≠ [] := by
    rintro rfl
    have hdrop := (List.append_eq_nil_iff.mp hds.symm).2
    rw [List.drop_eq_nil_iff] at hdrop
    omega
  have hhead : cs.head? ≠ some '\uFEFF' := by
    cases cs with
    | nil => simp
    | cons c cs => exact head_dump h []
  have hread := @parseValue_cut indent ms cs ds [] _ cs.length h hne rfl rfl
  rw [List.append_nil] at hread
  simp only [readBytes, hn, hcs, if_neg hhead, hread, Option.map_none]

end Library.Json
