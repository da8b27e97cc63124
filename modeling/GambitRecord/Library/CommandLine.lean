import Mathlib.Data.List.TakeWhile

/-! # Arguments of a command line

How the C runtime takes a command line apart: blanks separate the arguments, a
quote begins or ends a part in which blanks count as text, and backslashes are
special only before a quote. A line made of quoted and plain pieces is taken
apart into these pieces.
-/

namespace Library.CommandLine

structure Marks (α : Type*) where
  quote : α
  backslash : α
  blank : α → Bool
  backslash_ne_quote : backslash ≠ quote
  blank_quote : blank quote = false
  blank_backslash : blank backslash = false

variable {α : Type*} [DecidableEq α] (m : Marks α)

/-- Characters ahead of what was read. -/
def ahead (before : List α) (read : List α × List α) : List α × List α :=
  (before ++ read.1, read.2)

/-- The program's name and what follows it; backslashes are text. -/
def program (quoted : Bool) : List α → List α × List α
  | [] => ([], [])
  | c :: rest =>
    if c = m.quote then program (!quoted) rest
    else if quoted = false ∧ m.blank c then ([], rest)
    else ahead [c] (program quoted rest)

/-- One argument and what follows it; `count` backslashes have just been read. -/
def argument (quoted : Bool) (count : ℕ) : List α → List α × List α
  | [] => (List.replicate count m.backslash, [])
  | c :: rest =>
    if c = m.backslash then argument quoted (count + 1) rest
    else if c = m.quote then
      ahead (List.replicate (count / 2) m.backslash) <|
        if count % 2 = 1 then ahead [c] (argument quoted 0 rest)
        else
          match rest with
          | [] => ([], [])
          | d :: tail =>
            -- two quotes within a quoted part are one
            if quoted = true ∧ d = m.quote then ahead [c] (argument quoted 0 tail)
            else argument (!quoted) 0 (d :: tail)
    else if quoted = false ∧ m.blank c then (List.replicate count m.backslash, c :: rest)
    else ahead (List.replicate count m.backslash ++ [c]) (argument quoted 0 rest)

omit [DecidableEq α] in
@[simp] theorem ahead_nil (read : List α × List α) : ahead [] read = read := rfl

omit [DecidableEq α] in
@[simp] theorem snd_ahead (before : List α) (read : List α × List α) :
    (ahead before read).2 = read.2 := rfl

variable {m}

theorem argument_backslash (quoted : Bool) (count : ℕ) (rest : List α) :
    argument m quoted count (m.backslash :: rest) = argument m quoted (count + 1) rest := by
  rw [argument.eq_def]
  exact if_pos rfl

theorem argument_open (rest : List α) :
    argument m false 0 (m.quote :: rest) = argument m true 0 rest := by
  rw [argument.eq_def]
  cases rest <;> simp [m.backslash_ne_quote.symm, argument]

theorem argument_close {rest : List α} (hrest : rest.head? ≠ some m.quote) :
    argument m true 0 (m.quote :: rest) = argument m false 0 rest := by
  rw [argument.eq_def]
  cases rest with
  | nil => simp [m.backslash_ne_quote.symm, argument]
  | cons d tail =>
    have hd : d ≠ m.quote := fun h => hrest (congrArg some h)
    simp [m.backslash_ne_quote.symm, hd]

theorem argument_blank {c : α} (hblank : m.blank c = true) (count : ℕ) (rest : List α) :
    argument m false count (c :: rest) = (List.replicate count m.backslash, c :: rest) := by
  have hbackslash : c ≠ m.backslash := by
    rintro rfl
    rw [m.blank_backslash] at hblank
    cases hblank
  have hquote : c ≠ m.quote := by
    rintro rfl
    rw [m.blank_quote] at hblank
    cases hblank
  rw [argument.eq_def]
  simp [hbackslash, hquote, hblank]

theorem argument_other {quoted : Bool} {c : α} (hbackslash : c ≠ m.backslash)
    (hquote : c ≠ m.quote) (htext : quoted = false → m.blank c = false) (count : ℕ)
    (rest : List α) :
    argument m quoted count (c :: rest) =
      ahead (List.replicate count m.backslash ++ [c]) (argument m quoted 0 rest) := by
  rw [argument.eq_def]
  simp only [hbackslash, hquote, if_false]
  rw [if_neg]
  rintro ⟨hout, hblank⟩
  rw [htext hout] at hblank
  cases hblank

theorem length_argument_le (quoted : Bool) (count : ℕ) (line : List α) :
    (argument m quoted count line).2.length ≤ line.length := by
  fun_induction argument m quoted count line with
  | case1 => exact le_rfl
  | case2 quoted count rest ih => exact ih.trans (Nat.le_succ _)
  | case3 quoted count rest hquote ihrest ihtail =>
    rw [snd_ahead]
    split
    · rw [snd_ahead]
      exact ihrest.trans (Nat.le_succ _)
    · cases rest with
      | nil => exact Nat.zero_le _
      | cons d tail =>
        change (if _ then _ else _ : List α × List α).2.length ≤ _
        split
        · rw [snd_ahead]
          exact ihtail.1.trans ((Nat.le_succ _).trans (Nat.le_succ _))
        · exact ihtail.2.trans (Nat.le_succ _)
  | case4 => exact le_rfl
  | case5 quoted count c rest _ _ _ ih =>
    rw [snd_ahead]
    exact ih.trans (Nat.le_succ _)

/-- An argument takes up its first character, which is no blank. -/
theorem length_argument_lt {c : α} (hblank : m.blank c = false) (rest : List α) :
    (argument m false 0 (c :: rest)).2.length < (c :: rest).length := by
  have hle (quoted : Bool) (count : ℕ) :
      (argument m quoted count rest).2.length < rest.length + 1 :=
    Nat.lt_succ_of_le (length_argument_le quoted count rest)
  by_cases hbackslash : c = m.backslash
  · rw [hbackslash, argument_backslash]
    exact hle false 1
  · by_cases hquote : c = m.quote
    · rw [hquote, argument_open]
      exact hle true 0
    · rw [argument_other hbackslash hquote fun _ => hblank, snd_ahead]
      exact hle false 0

variable (m) in
/-- The arguments after the program's name. -/
def arguments (line : List α) : List (List α) :=
  match _ : line.dropWhile m.blank with
  | [] => []
  | c :: rest =>
    let read := argument m false 0 (c :: rest)
    read.1 :: arguments read.2
termination_by line.length
decreasing_by
  rename_i h
  have hblank : m.blank c = false := by
    have hhead := List.head?_dropWhile_not m.blank line
    rw [h] at hhead
    simpa using hhead
  have hle := (List.dropWhile_suffix (l := line) m.blank).length_le
  rw [h] at hle
  exact (length_argument_lt hblank rest).trans_le hle

theorem arguments_eq_nil {line : List α} (h : line.dropWhile m.blank = []) :
    arguments m line = [] := by
  rw [arguments]
  split
  · rfl
  · next hcons =>
    rw [h] at hcons
    cases hcons

theorem arguments_eq_cons {line : List α} {c : α} {rest : List α}
    (h : line.dropWhile m.blank = c :: rest) :
    arguments m line = (argument m false 0 (c :: rest)).1 ::
      arguments m (argument m false 0 (c :: rest)).2 := by
  rw [arguments]
  split
  · next hnil =>
    rw [h] at hnil
    cases hnil
  · next hcons =>
    rw [h] at hcons
    cases hcons
    rfl

theorem arguments_cons_blank {c : α} (hblank : m.blank c = true) (line : List α) :
    arguments m (c :: line) = arguments m line := by
  have hdrop : (c :: line).dropWhile m.blank = line.dropWhile m.blank :=
    List.dropWhile_cons_of_pos hblank
  cases hline : line.dropWhile m.blank with
  | nil => rw [arguments_eq_nil hline, arguments_eq_nil (hdrop.trans hline)]
  | cons d rest => rw [arguments_eq_cons hline, arguments_eq_cons (hdrop.trans hline)]

variable (m) in
/-- The arguments of a line, the program's name first. -/
def argv (line : List α) : List (List α) :=
  let read := program m false line
  read.1 :: arguments m read.2

/-! ## Lines made of pieces -/

/-- An argument as it is written: between quotes or as it is. -/
structure Piece (α : Type*) where
  quoted : Bool
  text : List α

variable (m) in
/-- Nothing within the piece has a meaning of its own. -/
structure Piece.Plain (p : Piece α) : Prop where
  quote : m.quote ∉ p.text
  backslash : p.quoted = true → p.text.getLast? ≠ some m.backslash
  blank : p.quoted = false → p.text ≠ [] ∧ ∀ c ∈ p.text, m.blank c = false

variable (m) in
def Piece.line (p : Piece α) : List α :=
  if p.quoted = true then m.quote :: (p.text ++ [m.quote]) else p.text

variable (m) in
/-- A quoted program name and pieces, each after a separator. -/
def commandLine (name : List α) (separator : α) (pieces : List (Piece α)) : List α :=
  m.quote :: name ++ m.quote :: pieces.flatMap fun p => separator :: p.line m

variable (m) in
/-- What ends an argument outside of quotes. -/
def Ends (rest : List α) : Prop := ∀ c ∈ rest.head?, m.blank c = true

theorem argument_ends {rest : List α} (h : Ends m rest) (count : ℕ) :
    argument m false count rest = (List.replicate count m.backslash, rest) := by
  cases rest with
  | nil => rfl
  | cons c rest => exact argument_blank (h c rfl) count rest

/-- A plain text outside of quotes is read to its end. -/
theorem argument_text {text rest : List α} (hquote : m.quote ∉ text)
    (hblank : ∀ c ∈ text, m.blank c = false) (hrest : Ends m rest) (count : ℕ) :
    argument m false count (text ++ rest) =
      (List.replicate count m.backslash ++ text, rest) := by
  induction text generalizing count with
  | nil => rw [List.nil_append, List.append_nil, argument_ends hrest]
  | cons c text ih =>
    rw [List.mem_cons, not_or] at hquote
    rw [List.forall_mem_cons] at hblank
    rw [List.cons_append]
    by_cases hbackslash : c = m.backslash
    · rw [hbackslash, argument_backslash, ih hquote.2 hblank.2, List.replicate_succ',
        List.append_assoc, List.singleton_append]
    · rw [argument_other hbackslash (Ne.symm hquote.1) fun _ => hblank.1, ih hquote.2 hblank.2]
      simp [ahead]

/-- A text within quotes is read to the quote that ends it, unless a backslash is before that. -/
theorem argument_quoted {text rest : List α} (hquote : m.quote ∉ text) (hrest : Ends m rest)
    {count : ℕ}
    (hlast : (List.replicate count m.backslash ++ text).getLast? ≠ some m.backslash) :
    argument m true count (text ++ m.quote :: rest) =
      (List.replicate count m.backslash ++ text, rest) := by
  induction text generalizing count with
  | nil =>
    cases count with
    | succ count =>
      rw [List.append_nil, List.getLast?_replicate, if_neg (Nat.succ_ne_zero count)] at hlast
      exact absurd rfl hlast
    | zero =>
      have hclose : rest.head? ≠ some m.quote := by
        intro hhead
        have hblank := hrest _ hhead
        rw [m.blank_quote] at hblank
        cases hblank
      rw [List.nil_append, argument_close hclose, argument_ends hrest]
      rfl
  | cons c text ih =>
    rw [List.mem_cons, not_or] at hquote
    rw [List.cons_append]
    by_cases hbackslash : c = m.backslash
    · have hmove : List.replicate count m.backslash ++ c :: text =
          List.replicate (count + 1) m.backslash ++ text := by
        rw [hbackslash, List.replicate_succ', List.append_assoc, List.singleton_append]
      rw [hmove] at hlast
      rw [hmove, hbackslash, argument_backslash, ih hquote.2 hlast]
    · have htail : (List.replicate 0 m.backslash ++ text).getLast? ≠ some m.backslash := by
        cases text with
        | nil => simp
        | cons d text => simpa using hlast
      rw [argument_other hbackslash (Ne.symm hquote.1) (by simp), ih hquote.2 htail]
      simp [ahead]

theorem program_quoted {text : List α} (hquote : m.quote ∉ text) (rest : List α) :
    program m true (text ++ m.quote :: rest) = ahead text (program m false rest) := by
  induction text with
  | nil => rw [List.nil_append, program, if_pos rfl, Bool.not_true, ahead_nil]
  | cons c text ih =>
    rw [List.mem_cons, not_or] at hquote
    have hstop : ¬ (true = false ∧ m.blank c = true) := by simp
    rw [List.cons_append, program, if_neg (Ne.symm hquote.1), if_neg hstop, ih hquote.2]
    rfl

/-- A plain piece after a separator is an argument. -/
theorem arguments_piece {p : Piece α} (hp : p.Plain m) {separator : α}
    (hseparator : m.blank separator = true) {rest : List α} (hrest : Ends m rest) :
    arguments m (separator :: p.line m ++ rest) = p.text :: arguments m rest := by
  have hread : argument m false 0 (p.line m ++ rest) = (p.text, rest) := by
    by_cases hquoted : p.quoted = true
    · have hlast := hp.backslash hquoted
      rw [Piece.line, if_pos hquoted, List.cons_append, List.append_assoc, argument_open,
        List.singleton_append, argument_quoted hp.quote hrest (by simpa using hlast)]
      rfl
    · rw [Bool.not_eq_true] at hquoted
      rw [Piece.line, if_neg (by simp [hquoted]),
        argument_text hp.quote (hp.blank hquoted).2 hrest]
      rfl
  have hfirst : ∃ c text, p.line m = c :: text ∧ m.blank c = false := by
    by_cases hquoted : p.quoted = true
    · exact ⟨m.quote, _, by rw [Piece.line, if_pos hquoted], m.blank_quote⟩
    · rw [Bool.not_eq_true] at hquoted
      obtain ⟨hne, hblank⟩ := hp.blank hquoted
      obtain ⟨c, text, htext⟩ := List.exists_cons_of_ne_nil hne
      refine ⟨c, text, by rw [Piece.line, if_neg (by simp [hquoted]), htext], ?_⟩
      exact hblank c (by rw [htext]; exact List.mem_cons_self)
  obtain ⟨c, text, hline, hblank⟩ := hfirst
  have hdrop : (separator :: p.line m ++ rest).dropWhile m.blank = c :: (text ++ rest) := by
    rw [hline, List.cons_append, List.dropWhile_cons_of_pos hseparator, List.cons_append,
      List.dropWhile_cons_of_neg (by simp [hblank])]
  rw [hline, List.cons_append] at hread
  rw [arguments_eq_cons hdrop, hread]

theorem arguments_pieces {pieces : List (Piece α)} (hpieces : ∀ p ∈ pieces, p.Plain m)
    {separator : α} (hseparator : m.blank separator = true) :
    arguments m (pieces.flatMap fun p => separator :: p.line m) = pieces.map Piece.text := by
  induction pieces with
  | nil => exact arguments_eq_nil rfl
  | cons p pieces ih =>
    rw [List.forall_mem_cons] at hpieces
    have hends : Ends m (pieces.flatMap fun p => separator :: p.line m) := by
      cases pieces with
      | nil => simp [Ends]
      | cons q pieces => simpa [Ends] using hseparator
    rw [List.flatMap_cons, arguments_piece hpieces.1 hseparator hends, ih hpieces.2, List.map_cons]

/-- A line made of plain pieces is taken apart into them. -/
theorem argv_commandLine {name : List α} (hname : m.quote ∉ name) {separator : α}
    (hseparator : m.blank separator = true) {pieces : List (Piece α)}
    (hpieces : ∀ p ∈ pieces, p.Plain m) :
    argv m (commandLine m name separator pieces) = name :: pieces.map Piece.text := by
  have hpast (rest : List α) (hrest : rest = [] ∨ ∃ tail, rest = separator :: tail) :
      (program m false rest).1 = [] ∧ arguments m (program m false rest).2 = arguments m rest := by
    rcases hrest with rfl | ⟨tail, rfl⟩
    · exact ⟨rfl, rfl⟩
    · have hquote : separator ≠ m.quote := by
        rintro rfl
        rw [m.blank_quote] at hseparator
        cases hseparator
      rw [program, if_neg hquote, if_pos ⟨rfl, hseparator⟩]
      exact ⟨rfl, (arguments_cons_blank hseparator tail).symm⟩
  obtain ⟨hnone, hrest⟩ := hpast (pieces.flatMap fun p => separator :: p.line m) (by
    cases pieces with
    | nil => exact .inl rfl
    | cons p pieces => exact .inr ⟨_, by rw [List.flatMap_cons, List.cons_append]⟩)
  rw [argv, commandLine, List.cons_append, program, if_pos rfl, Bool.not_false,
    program_quoted hname]
  simp only [ahead]
  rw [hnone, List.append_nil, hrest, arguments_pieces hpieces hseparator]

/-- The marks of the runtime, as units of 16 bits. -/
def wide : Marks UInt16 where
  quote := 34
  backslash := 92
  blank c := c = 32 ∨ c = 9
  backslash_ne_quote := by decide
  blank_quote := by decide
  blank_backslash := by decide

end Library.CommandLine
