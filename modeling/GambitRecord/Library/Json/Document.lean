import GambitRecord.Library.Json.Lexer
import GambitRecord.Library.Utf8

/-! # JSON documents

Values with byte strings, their texts, compact or indented, and the parser. A
text exists only when every string of the value is UTF-8; it is then read back as
the value. The members of an object keep their order, and of two with one key the
later counts.
-/

namespace Library

inductive Json where
  | scalar (s : Json.Scalar)
  | string (s : Bytes)
  | array (elements : List Json)
  | object (members : List (Bytes × Json))

namespace Json
open DigitText

mutual

/-- Every string and every key of a value. -/
def strings : Json → List Bytes
  | .scalar _ => []
  | .string s => [s]
  | .array elements => elementStrings elements
  | .object members => memberStrings members

def elementStrings : List Json → List Bytes
  | [] => []
  | j :: js => j.strings ++ elementStrings js

def memberStrings : List (Bytes × Json) → List Bytes
  | [] => []
  | (key, j) :: ms => key :: j.strings ++ memberStrings ms

end

/-- Every string is UTF-8. -/
def Valid (j : Json) : Prop := ∀ s ∈ j.strings, Utf8.Valid s

instance : DecidablePred Valid := fun j => inferInstanceAs (Decidable (∀ s ∈ j.strings, _))

def stringToken (s : Bytes) : Token := .string ((Utf8.decode s).getD [])

mutual

def tokens : Json → List Token
  | .scalar s => [.scalar s]
  | .string s => [stringToken s]
  | .array elements => .mark .lbracket :: elementTokens elements
  | .object members => .mark .lbrace :: memberTokens members

/-- The rest of an array after its bracket. -/
def elementTokens : List Json → List Token
  | [] => [.mark .rbracket]
  | j :: js => j.tokens ++ moreElements js

def moreElements : List Json → List Token
  | [] => [.mark .rbracket]
  | j :: js => .mark .comma :: (j.tokens ++ moreElements js)

def memberTokens : List (Bytes × Json) → List Token
  | [] => [.mark .rbrace]
  | (key, j) :: ms => stringToken key :: .mark .colon :: (j.tokens ++ moreMembers ms)

def moreMembers : List (Bytes × Json) → List Token
  | [] => [.mark .rbrace]
  | (key, j) :: ms =>
    .mark .comma :: stringToken key :: .mark .colon :: (j.tokens ++ moreMembers ms)

end

mutual

def parseValue : ℕ → List Token → Option (Json × List Token)
  | 0, _ => none
  | _, [] => none
  | n + 1, t :: ts =>
    match t with
    | .scalar s => some (.scalar s, ts)
    | .string s => some (.string (Utf8.encode s), ts)
    | .mark .lbracket =>
      match ts with
      | .mark .rbracket :: ts => some (.array [], ts)
      | ts => (parseElements n ts).map fun p => (.array p.1, p.2)
    | .mark .lbrace =>
      match ts with
      | .mark .rbrace :: ts => some (.object [], ts)
      | ts => (parseMembers n ts).map fun p => (.object p.1, p.2)
    | .mark _ => none

/-- At least one element, up to the closing bracket. -/
def parseElements : ℕ → List Token → Option (List Json × List Token)
  | 0, _ => none
  | n + 1, ts =>
    (parseValue n ts).bind fun read =>
      match read.2 with
      | .mark .comma :: ts => (parseElements n ts).map fun p => (read.1 :: p.1, p.2)
      | .mark .rbracket :: ts => some ([read.1], ts)
      | _ => none

def parseMembers : ℕ → List Token → Option (List (Bytes × Json) × List Token)
  | 0, _ => none
  | n + 1, ts =>
    match ts with
    | .string key :: .mark .colon :: ts =>
      (parseValue n ts).bind fun read =>
        match read.2 with
        | .mark .comma :: ts =>
          (parseMembers n ts).map fun p => ((Utf8.encode key, read.1) :: p.1, p.2)
        | .mark .rbrace :: ts => some ([(Utf8.encode key, read.1)], ts)
        | _ => none
    | _ => none

end

def Token.opens : Token → Bool
  | .mark .lbrace | .mark .lbracket => true
  | _ => false

def Token.closes : Token → Bool
  | .mark .rbrace | .mark .rbracket => true
  | _ => false

def newline (indent depth : ℕ) : Text := '\n' :: List.replicate (indent * depth) ' '

/-- The white space of an indented text before a token at a depth. -/
def gap (indent depth : ℕ) (previous t : Token) : Text :=
  if previous = .mark .colon then [' ']
  else if previous = .mark .comma then newline indent depth
  else if previous.opens then if t.closes then [] else newline indent depth
  else if t.closes then newline indent (depth - 1)
  else []

def depthAfter (depth : ℕ) (t : Token) : ℕ :=
  if t.opens then depth + 1 else if t.closes then depth - 1 else depth

/-- The tokens that follow one at a depth, with the white space before each. -/
def indented (indent : ℕ) : ℕ → Token → List Token → List (Text × Token)
  | _, _, [] => []
  | depth, previous, t :: ts =>
    (gap indent depth previous t, t) :: indented indent (depthAfter depth t) t ts

/-- The pieces of a text, on one line without an indentation. -/
def layout : Option ℕ → List Token → List (Text × Token)
  | none, ts => ts.map fun t => ([], t)
  | some _, [] => []
  | some indent, t :: ts => ([], t) :: indented indent (depthAfter 0 t) t ts

/-- The characters of `dump`; it throws when a string is not UTF-8. -/
def dump (indent : Option ℕ) (j : Json) : Option Text :=
  if j.Valid then some (render (layout indent j.tokens)) else none

/-- `parse` of a text: one value and white space. -/
def parse (text : Text) : Option Json :=
  (lex text.length text).bind fun ts =>
    match parseValue (2 * ts.length) ts with
    | some (j, []) => some j
    | _ => none

/-- `parse` of bytes, with or without a byte order mark. -/
def parseBytes (bytes : Bytes) : Option Json :=
  (Utf8.decode bytes).bind fun text =>
    parse (if text.head? = some '\uFEFF' then text.tail else text)

/-- Reading a value from a stream, whatever follows it. A word is read as a whole: a number that runs
into letters is no value here, where the stream would give the number, never an object. -/
def readBytes (bytes : Bytes) : Option Json :=
  let text := Utf8.decodePrefix bytes.length bytes
  let text := if text.head? = some '\uFEFF' then text.tail else text
  let ts := lexPrefix text.length text
  (parseValue (2 * ts.length) ts).map Prod.fst

theorem encode_getD_decode {s : Bytes} (h : Utf8.Valid s) :
    Utf8.encode ((Utf8.decode s).getD []) = s := by
  rcases Option.isSome_iff_exists.mp h with ⟨cs, hcs⟩
  rw [hcs, Option.getD_some, Utf8.encode_of_decode hcs]

theorem parseElements_cons {n : ℕ} {ts : List Token} {j : Json} {rest : List Token}
    (h : parseValue n ts = some (j, .mark .comma :: rest)) :
    parseElements (n + 1) ts = (parseElements n rest).map fun p => (j :: p.1, p.2) := by
  rw [parseElements, h, Option.bind_some]

theorem parseElements_last {n : ℕ} {ts : List Token} {j : Json} {rest : List Token}
    (h : parseValue n ts = some (j, .mark .rbracket :: rest)) :
    parseElements (n + 1) ts = some ([j], rest) := by
  rw [parseElements, h, Option.bind_some]

theorem parseMembers_cons {n : ℕ} {key : Text} {ts : List Token} {j : Json} {rest : List Token}
    (h : parseValue n ts = some (j, .mark .comma :: rest)) :
    parseMembers (n + 1) (.string key :: .mark .colon :: ts) =
      (parseMembers n rest).map fun p => ((Utf8.encode key, j) :: p.1, p.2) := by
  rw [parseMembers, h, Option.bind_some]

theorem parseMembers_last {n : ℕ} {key : Text} {ts : List Token} {j : Json} {rest : List Token}
    (h : parseValue n ts = some (j, .mark .rbrace :: rest)) :
    parseMembers (n + 1) (.string key :: .mark .colon :: ts) =
      some ([(Utf8.encode key, j)], rest) := by
  rw [parseMembers, h, Option.bind_some]

/-- A value does not begin with a closing bracket. -/
theorem exists_tokens (j : Json) : ∃ t ts, j.tokens = t :: ts ∧ t.closes = false := by
  cases j with
  | scalar s => exact ⟨_, _, rfl, rfl⟩
  | string s => exact ⟨_, _, rfl, rfl⟩
  | array elements => exact ⟨_, _, rfl, rfl⟩
  | object members => exact ⟨_, _, rfl, rfl⟩

theorem parseValue_array {n : ℕ} {j : Json} {rest : List Token} :
    parseValue (n + 1) (.mark .lbracket :: (j.tokens ++ rest)) =
      (parseElements n (j.tokens ++ rest)).map fun p => (.array p.1, p.2) := by
  rcases j.exists_tokens with ⟨t, ts, htokens, hcloses⟩
  rw [htokens, List.cons_append, parseValue]
  rintro more ⟨⟩
  cases hcloses

mutual

/-- The tokens of a value are parsed back, each within two steps of the fuel. -/
theorem parseValue_tokens (j : Json) {n : ℕ} {rest : List Token} (hvalid : j.Valid)
    (hn : 2 * j.tokens.length ≤ n) : parseValue n (j.tokens ++ rest) = some (j, rest) := by
  cases n with
  | zero =>
    rcases j.exists_tokens with ⟨t, ts, htokens, -⟩
    rw [htokens] at hn
    simp at hn
  | succ n =>
    match j with
    | .scalar s => rfl
    | .string s =>
      have hs : Utf8.Valid s := hvalid s (by simp [strings])
      simp [tokens, stringToken, parseValue, encode_getD_decode hs]
    | .array [] => rfl
    | .array (j :: js) =>
      have hj : j.Valid := fun s hs => hvalid s (by simp [strings, elementStrings, hs])
      have hjs : ∀ s ∈ elementStrings js, Utf8.Valid s :=
        fun s hs => hvalid s (by simp [strings, elementStrings, hs])
      simp only [tokens, elementTokens, List.length_cons, List.length_append] at hn
      obtain ⟨m, rfl⟩ : ∃ m, n = m + 1 := ⟨n - 1, by omega⟩
      have hread : parseValue m (j.tokens ++ (moreElements js ++ rest)) =
          some (j, moreElements js ++ rest) := parseValue_tokens j hj (by omega)
      have hmore := parseElements_more js hjs (by omega) hread
      simp only [tokens, elementTokens, List.cons_append, List.append_assoc]
      rw [parseValue_array, hmore]
      rfl
    | .object [] => rfl
    | .object ((key, j) :: ms) =>
      have hkey : Utf8.Valid key := hvalid key (by simp [strings, memberStrings])
      have hj : j.Valid := fun s hs => hvalid s (by simp [strings, memberStrings, hs])
      have hms : ∀ s ∈ memberStrings ms, Utf8.Valid s :=
        fun s hs => hvalid s (by simp [strings, memberStrings, hs])
      simp only [tokens, memberTokens, List.length_cons, List.length_append] at hn
      obtain ⟨m, rfl⟩ : ∃ m, n = m + 1 := ⟨n - 1, by omega⟩
      have hread : parseValue m (j.tokens ++ (moreMembers ms ++ rest)) =
          some (j, moreMembers ms ++ rest) := parseValue_tokens j hj (by omega)
      have hmore := parseMembers_more ms hkey hms (by omega) hread
      simp only [tokens, memberTokens, List.cons_append, List.append_assoc, stringToken, parseValue]
      rw [← stringToken, hmore]
      rfl

theorem parseElements_more (js : List Json) {n : ℕ} {ts rest : List Token} {j : Json}
    (hvalid : ∀ s ∈ elementStrings js, Utf8.Valid s) (hn : 2 * (moreElements js).length ≤ n)
    (hread : parseValue n ts = some (j, moreElements js ++ rest)) :
    parseElements (n + 1) ts = some (j :: js, rest) := by
  match js with
  | [] => exact parseElements_last hread
  | k :: ks =>
    have hk : k.Valid := fun s hs => hvalid s (by simp [elementStrings, hs])
    have hks : ∀ s ∈ elementStrings ks, Utf8.Valid s :=
      fun s hs => hvalid s (by simp [elementStrings, hs])
    simp only [moreElements, List.length_cons, List.length_append] at hn
    simp only [moreElements, List.cons_append, List.append_assoc] at hread
    obtain ⟨m, rfl⟩ : ∃ m, n = m + 1 := ⟨n - 1, by omega⟩
    have hnext : parseValue m (k.tokens ++ (moreElements ks ++ rest)) =
        some (k, moreElements ks ++ rest) := parseValue_tokens k hk (by omega)
    rw [parseElements_cons hread, parseElements_more ks hks (by omega) hnext]
    rfl

theorem parseMembers_more (ms : List (Bytes × Json)) {n : ℕ} {key : Bytes} {ts rest : List Token}
    {j : Json} (hkey : Utf8.Valid key) (hvalid : ∀ s ∈ memberStrings ms, Utf8.Valid s)
    (hn : 2 * (moreMembers ms).length ≤ n)
    (hread : parseValue n ts = some (j, moreMembers ms ++ rest)) :
    parseMembers (n + 1) (stringToken key :: .mark .colon :: ts) =
      some ((key, j) :: ms, rest) := by
  match ms with
  | [] =>
    rw [stringToken, parseMembers_last hread, encode_getD_decode hkey]
    rfl
  | (key', k) :: ks =>
    have hkey' : Utf8.Valid key' := hvalid key' (by simp [memberStrings])
    have hk : k.Valid := fun s hs => hvalid s (by simp [memberStrings, hs])
    have hks : ∀ s ∈ memberStrings ks, Utf8.Valid s :=
      fun s hs => hvalid s (by simp [memberStrings, hs])
    simp only [moreMembers, List.length_cons, List.length_append] at hn
    simp only [moreMembers, List.cons_append, List.append_assoc] at hread
    obtain ⟨m, rfl⟩ : ∃ m, n = m + 1 := ⟨n - 1, by omega⟩
    have hnext : parseValue m (k.tokens ++ (moreMembers ks ++ rest)) =
        some (k, moreMembers ks ++ rest) := parseValue_tokens k hk (by omega)
    rw [stringToken, parseMembers_cons hread, parseMembers_more ks hkey' hks (by omega) hnext,
      encode_getD_decode hkey]
    rfl

end

theorem spaced_cons {t : Token} {ts : List Token} (ht : t.isWord = false) (hts : Spaced ts) :
    Spaced (t :: ts) := by
  rw [Spaced, List.isChain_cons]
  refine ⟨fun u _ hword => ?_, hts⟩
  rw [ht] at hword
  cases hword

mutual

theorem spaced_tokens (j : Json) {rest : List Token} (hrest : Spaced rest)
    (hhead : ∀ t ∈ rest.head?, t.isWord = false) : Spaced (j.tokens ++ rest) := by
  match j with
  | .scalar s =>
    rw [tokens, List.singleton_append, Spaced, List.isChain_cons]
    exact ⟨fun t ht _ => hhead t ht, hrest⟩
  | .string s => exact spaced_cons rfl hrest
  | .array [] => exact spaced_cons rfl (spaced_cons rfl hrest)
  | .array (j :: js) =>
    simp only [tokens, elementTokens, List.cons_append, List.append_assoc]
    have hmore := spaced_moreElements js hrest hhead
    exact spaced_cons rfl (spaced_tokens j hmore.1 hmore.2)
  | .object [] => exact spaced_cons rfl (spaced_cons rfl hrest)
  | .object ((key, j) :: ms) =>
    simp only [tokens, memberTokens, List.cons_append, List.append_assoc]
    have hmore := spaced_moreMembers ms hrest hhead
    exact spaced_cons rfl (spaced_cons rfl (spaced_cons rfl (spaced_tokens j hmore.1 hmore.2)))

theorem spaced_moreElements (js : List Json) {rest : List Token} (hrest : Spaced rest)
    (hhead : ∀ t ∈ rest.head?, t.isWord = false) :
    Spaced (moreElements js ++ rest) ∧
      ∀ t ∈ (moreElements js ++ rest).head?, t.isWord = false := by
  match js with
  | [] => exact ⟨spaced_cons rfl hrest, by rintro t ⟨⟩; rfl⟩
  | k :: ks =>
    simp only [moreElements, List.cons_append, List.append_assoc]
    have hmore := spaced_moreElements ks hrest hhead
    exact ⟨spaced_cons rfl (spaced_tokens k hmore.1 hmore.2), by rintro t ⟨⟩; rfl⟩

theorem spaced_moreMembers (ms : List (Bytes × Json)) {rest : List Token} (hrest : Spaced rest)
    (hhead : ∀ t ∈ rest.head?, t.isWord = false) :
    Spaced (moreMembers ms ++ rest) ∧
      ∀ t ∈ (moreMembers ms ++ rest).head?, t.isWord = false := by
  match ms with
  | [] => exact ⟨spaced_cons rfl hrest, by rintro t ⟨⟩; rfl⟩
  | (key, k) :: ks =>
    simp only [moreMembers, List.cons_append, List.append_assoc]
    have hmore := spaced_moreMembers ks hrest hhead
    exact ⟨spaced_cons rfl (spaced_cons rfl (spaced_cons rfl
      (spaced_tokens k hmore.1 hmore.2))), by rintro t ⟨⟩; rfl⟩

end

theorem all_blank_newline (indent depth : ℕ) : (newline indent depth).all blank = true := by
  simp [newline, blank]

theorem all_blank_gap (indent depth : ℕ) (previous t : Token) :
    (gap indent depth previous t).all blank = true := by
  unfold gap
  split_ifs <;> first | rfl | exact all_blank_newline indent _

theorem indented_spec (indent depth : ℕ) (previous : Token) (ts : List Token) :
    (indented indent depth previous ts).map Prod.snd = ts ∧
      ∀ p ∈ indented indent depth previous ts, p.1.all blank = true := by
  induction ts generalizing depth previous with
  | nil => exact ⟨rfl, by simp [indented]⟩
  | cons t ts ih =>
    rcases ih (depthAfter depth t) t with ⟨hmap, hblank⟩
    refine ⟨by rw [indented, List.map_cons, hmap], ?_⟩
    intro p hp
    rcases List.mem_cons.mp hp with rfl | hp
    · exact all_blank_gap indent depth previous t
    · exact hblank p hp

theorem layout_spec (indent : Option ℕ) (ts : List Token) :
    (layout indent ts).map Prod.snd = ts ∧ ∀ p ∈ layout indent ts, p.1.all blank = true := by
  cases indent with
  | none =>
    constructor
    · simp [layout, Function.comp_def]
    · intro p hp
      rcases List.mem_map.mp hp with ⟨t, -, rfl⟩
      rfl
  | some indent =>
    cases ts with
    | nil => exact ⟨rfl, by simp [layout]⟩
    | cons t ts =>
      rcases indented_spec indent (depthAfter 0 t) t ts with ⟨hmap, hblank⟩
      refine ⟨by rw [layout, List.map_cons, hmap], ?_⟩
      intro p hp
      rcases List.mem_cons.mp hp with rfl | hp
      · rfl
      · exact hblank p hp

theorem length_le_render (pieces : List (Text × Token)) :
    pieces.length ≤ (render pieces).length := by
  induction pieces with
  | nil => simp
  | cons p pieces ih =>
    rcases p.2.exists_text with ⟨c, word, htext, -, -⟩
    have hcons : render (p :: pieces) = p.1 ++ p.2.text ++ render pieces := rfl
    simp only [hcons, htext, List.length_append, List.length_cons]
    omega

/-- The text of a value, with white space behind it, is parsed back. -/
theorem parse_dump {indent : Option ℕ} {j : Json} {text : Text}
    (h : dump indent j = some text) {tail : Text} (htail : tail.all blank = true) :
    parse (text ++ tail) = some j := by
  unfold dump at h
  split_ifs at h with hvalid
  cases h
  rcases layout_spec indent j.tokens with ⟨hmap, hblank⟩
  have hspaced : Spaced ((layout indent j.tokens).map Prod.snd) := by
    rw [hmap, ← List.append_nil j.tokens]
    exact spaced_tokens j (by simp [Spaced]) (by simp)
  have hlen := length_le_render (layout indent j.tokens)
  have hlex := lex_render (n := (render (layout indent j.tokens) ++ tail).length) hblank htail
    hspaced (by rw [List.length_append]; omega)
  have hvalue : parseValue (2 * j.tokens.length) (j.tokens ++ []) = some (j, []) :=
    parseValue_tokens j hvalid (Nat.le_refl _)
  rw [List.append_nil] at hvalue
  rw [parse, hlex, Option.bind_some, hmap, hvalue]

theorem head_dump {indent : Option ℕ} {j : Json} {text : Text} (h : dump indent j = some text)
    (tail : Text) : (text ++ tail).head? ≠ some '\uFEFF' := by
  unfold dump at h
  split_ifs at h
  cases h
  rcases j.exists_tokens with ⟨t, ts, htokens, -⟩
  rcases t.exists_text with ⟨c, word, htext, -, hbom⟩
  have hhead : (render (layout indent j.tokens)).head? = some c := by
    cases indent <;> simp [htokens, layout, render, htext]
  rw [List.head?_append, hhead, Option.some_or]
  intro heq
  cases heq
  exact hbom rfl

theorem parseBytes_dump {indent : Option ℕ} {j : Json} {text : Text}
    (h : dump indent j = some text) {tail : Text} (htail : tail.all blank = true) :
    parseBytes (Utf8.encode (text ++ tail)) = some j := by
  rw [parseBytes, Utf8.decode_encode, Option.bind_some, if_neg (head_dump h tail),
    parse_dump h htail]

theorem readBytes_of_parseBytes {bytes : Bytes} {j : Json} (h : parseBytes bytes = some j) :
    readBytes bytes = some j := by
  simp only [parseBytes, parse, Option.bind_eq_some_iff] at h
  rcases h with ⟨text, htext, ts, hts, h⟩
  rw [readBytes, Utf8.decodePrefix_of_decodeFuel htext, lexPrefix_of_lex hts]
  split at h
  · rename_i hvalue
    rw [hvalue]
    exact h
  · cases h

theorem dump_isSome (indent : Option ℕ) {j : Json} : (dump indent j).isSome ↔ j.Valid := by
  unfold dump
  split_ifs with h <;> simp [h]

/-- A compact text is one line. -/
theorem newline_notMem_dump {j : Json} {body : Text} (h : dump none j = some body) :
    '\n' ∉ body := by
  unfold dump at h
  split_ifs at h with hvalid
  cases h
  intro hmem
  rcases List.mem_flatMap.mp hmem with ⟨piece, hpiece, hmem⟩
  rcases List.mem_map.mp hpiece with ⟨t, -, rfl⟩
  have hle := Token.le_of_mem_text (by simpa using hmem)
  exact absurd hle (by decide)

@[simp] theorem valid_scalar (s : Scalar) : (scalar s).Valid := by simp [Valid, strings]

@[simp] theorem valid_string {s : Bytes} : (string s).Valid ↔ Utf8.Valid s := by
  simp [Valid, strings]

@[simp] theorem valid_object_nil : (object []).Valid := by simp [Valid, strings, memberStrings]

@[simp] theorem valid_object_cons {key : Bytes} {j : Json} {ms : List (Bytes × Json)} :
    (object ((key, j) :: ms)).Valid ↔ Utf8.Valid key ∧ j.Valid ∧ (object ms).Valid := by
  simp [Valid, strings, memberStrings, or_imp, forall_and]

@[simp] theorem valid_object_append {ms ns : List (Bytes × Json)} :
    (object (ms ++ ns)).Valid ↔ (object ms).Valid ∧ (object ns).Valid := by
  induction ms with
  | nil => simp
  | cons m ms ih =>
    rcases m with ⟨key, j⟩
    rw [List.cons_append, valid_object_cons, valid_object_cons, ih, and_assoc, and_assoc]

end Json
end Library
