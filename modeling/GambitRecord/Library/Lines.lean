import Mathlib.Data.List.Basic

/-! # Lines read in pieces

A line ends at an element that is nowhere else in it. Whatever the pieces are in
which it comes, it is gathered whole when it fits, and as many elements as the
limit when it does not.
-/

namespace Library.Lines
variable {α : Type*} {limit : ℕ} {stop : α} {before body : List α} {pieces more : List (List α)}

theorem eq_nil_of_stop_mem {front rest : List α} (h : front ++ rest = body ++ [stop])
    (hbody : stop ∉ body) (hfront : stop ∈ front) : rest = [] := by
  rcases List.eq_nil_or_concat' rest with rfl | ⟨init, last, rfl⟩
  · rfl
  · rw [← List.append_assoc] at h
    have hinit := (List.append_inj' h rfl).1
    rw [← hinit] at hbody
    exact absurd (List.mem_append_left init hfront) hbody

variable [DecidableEq α]

/-- The pieces read until the end of a line is among them, or no more than the limit; an empty
piece is the end. -/
def gather (limit : ℕ) (stop : α) : List α → List (List α) → List α
  | before, [] => before
  | before, piece :: pieces =>
    if limit ≤ before.length ∨ piece = [] then before
    else if stop ∈ before ++ piece then before ++ piece
    else gather limit stop (before ++ piece) pieces

theorem gather_of_le (h : limit ≤ before.length) : gather limit stop before pieces = before := by
  cases pieces with
  | nil => rfl
  | cons piece pieces => rw [gather, if_pos (.inl h)]

/-- A line that fits is gathered whole, and nothing that comes behind it is read. -/
theorem gather_line (hpieces : ∀ piece ∈ pieces, piece ≠ [])
    (hline : before ++ pieces.flatten = body ++ [stop]) (hbody : stop ∉ body)
    (hbefore : stop ∉ before) (hlimit : (body ++ [stop]).length ≤ limit) :
    gather limit stop before (pieces ++ more) = body ++ [stop] := by
  induction pieces generalizing before with
  | nil =>
    rw [List.flatten_nil, List.append_nil] at hline
    rw [hline] at hbefore
    exact absurd (by simp) hbefore
  | cons piece pieces ih =>
    rw [List.forall_mem_cons] at hpieces
    rw [List.flatten_cons, ← List.append_assoc] at hline
    have hlength := congrArg List.length hline
    have hpos := List.length_pos_iff.mpr hpieces.1
    simp only [List.length_append] at hlength hlimit
    have hroom : ¬ (limit ≤ before.length ∨ piece = []) := by
      rintro (hle | hnil)
      · omega
      · exact hpieces.1 hnil
    rw [List.cons_append, gather, if_neg hroom]
    by_cases hstop : stop ∈ before ++ piece
    · rw [if_pos hstop, ← hline, eq_nil_of_stop_mem hline hbody hstop, List.append_nil]
    · rw [if_neg hstop]
      exact ih hpieces.2 hline hstop

/-- Of a line that does not fit at least the limit is gathered. -/
theorem le_length_gather (hpieces : ∀ piece ∈ pieces, piece ≠ [])
    (hline : before ++ pieces.flatten = body ++ [stop]) (hbody : stop ∉ body)
    (hlimit : limit ≤ (body ++ [stop]).length) :
    limit ≤ (gather limit stop before (pieces ++ more)).length := by
  induction pieces generalizing before with
  | nil =>
    rw [List.flatten_nil, List.append_nil] at hline
    rw [← hline] at hlimit
    rw [gather_of_le hlimit]
    exact hlimit
  | cons piece pieces ih =>
    rw [List.forall_mem_cons] at hpieces
    by_cases hle : limit ≤ before.length
    · rw [gather_of_le hle]
      exact hle
    · have hroom : ¬ (limit ≤ before.length ∨ piece = []) := not_or.mpr ⟨hle, hpieces.1⟩
      rw [List.flatten_cons, ← List.append_assoc] at hline
      rw [List.cons_append, gather, if_neg hroom]
      by_cases hstop : stop ∈ before ++ piece
      · have hrest := eq_nil_of_stop_mem hline hbody hstop
        rw [hrest, List.append_nil] at hline
        rw [if_pos hstop, hline]
        exact hlimit
      · rw [if_neg hstop]
        exact ih hpieces.2 hline

end Library.Lines
