import GambitRecord.Library.DigitText
import GambitRecord.Library.Binary64

/-! # The broker's upload protocol

The header texts and the chunk decision of `broker/src/protocol.ts`. A
JavaScript number read from a digit string is the nearest double; the texts
that the client writes stay below `2 ^ 53`, where every integer is one.
-/

namespace GambitRecord.Broker
open Library Library.DigitText

structure ByteRange where
  start : ℕ
  «end» : ℕ
  total : ℕ
  deriving DecidableEq

/-- `Number` of a string of decimal digits. -/
def number (digits : Text) : ℕ := Binary64.round (value digits)

/-- `/^bytes (\d+)-(\d+)\/(\d+)$/`: a digit run ends at the literal after it, so the match
never backtracks. -/
def matchContentRange (header : Text) : Option (Text × Text × Text) := do
  let (start, rest) ← digits (← literal (text "bytes ") header)
  let («end», rest) ← digits (← literal ['-'] rest)
  let (total, rest) ← digits (← literal ['/'] rest)
  if rest.isEmpty then some (start, «end», total) else none

def parseContentRange (header : Option Text) : Option ByteRange := do
  let (startText, endText, totalText) ← matchContentRange (← header)
  let range : ByteRange := ⟨number startText, number endText, number totalText⟩
  if range.start ≤ Binary64.maxSafe ∧ range.end ≤ Binary64.maxSafe ∧
      range.total ≤ Binary64.maxSafe ∧ range.start ≤ range.end ∧ range.end < range.total then
    some range
  else none

/-- `/^bytes=0-(\d+)$/` on an answer's `Range` header. -/
def matchRange (header : Text) : Option Text := do
  let (last, rest) ← digits (← literal (text "bytes=0-") header)
  if rest.isEmpty then some last else none

def nextOffsetFromRange (header : Option Text) (fallback : ℕ) : ℕ :=
  match header.bind matchRange with
  | some last => Binary64.round (number last + 1)
  | none => fallback

inductive ChunkDecision where
  | accept | replay | gap | invalid
  deriving DecidableEq

def classifyChunk (range : Option ByteRange) (expectedOffset expectedTotal contentLength
    maxChunk : ℕ) : ChunkDecision :=
  match range with
  | none => .invalid
  | some range =>
    if range.total ≠ expectedTotal ∨ contentLength ≠ range.end - range.start + 1 ∨
        contentLength > maxChunk then .invalid
    else if range.start < expectedOffset then .replay
    else if range.start > expectedOffset then .gap
    else .accept

def isExpired (expiresAt now : ℕ) : Bool := expiresAt ≤ now

def canConsume (ipCount globalCount perIpLimit globalLimit : ℕ) : Bool :=
  ipCount < perIpLimit ∧ globalCount < globalLimit

/-- The `Content-Range` text a client writes for the bytes `start` to `end` of `total`. -/
def contentRange (start «end» total : ℕ) : Text :=
  text "bytes " ++ (decimal start ++ '-' :: (decimal «end» ++ '/' :: decimal total))

/-- The `Range` text of a server that holds the first `count + 1` bytes. -/
def heldRange (last : ℕ) : Text := text "bytes=0-" ++ decimal last

theorem number_decimal {n : ℕ} (h : n ≤ Binary64.maxSafe) : number (decimal n) = n := by
  rw [number, value_decimal, Binary64.round_of_le h]

theorem matchContentRange_contentRange (start last total : ℕ) :
    matchContentRange (contentRange start last total) =
      some (decimal start, decimal last, decimal total) := by
  have hdash : '-'.isDigit = false := by decide
  have hslash : '/'.isDigit = false := by decide
  simp [matchContentRange, contentRange, literal_append, hdash, hslash]

/-- Every `Content-Range` text of a chunk of a file below `2 ^ 53` bytes parses back. -/
theorem parseContentRange_contentRange {start last total : ℕ} (hle : start ≤ last)
    (hlt : last < total) (htotal : total ≤ Binary64.maxSafe) :
    parseContentRange (some (contentRange start last total)) = some ⟨start, last, total⟩ := by
  have hs : start ≤ Binary64.maxSafe := by omega
  have hl : last ≤ Binary64.maxSafe := by omega
  simp [parseContentRange, matchContentRange_contentRange, number_decimal, hs, hl, htotal, hle, hlt]

theorem parseContentRange_bounds {header : Option Text} {range : ByteRange}
    (h : parseContentRange header = some range) :
    range.start ≤ range.end ∧ range.end < range.total := by
  simp only [parseContentRange, Option.bind_eq_bind, Option.bind_eq_some_iff] at h
  obtain ⟨_, _, _, _, h⟩ := h
  split_ifs at h with hb
  cases h
  exact hb.2.2.2

theorem nextOffsetFromRange_heldRange {last : ℕ} (h : last < Binary64.maxSafe) (fallback : ℕ) :
    nextOffsetFromRange (some (heldRange last)) fallback = last + 1 := by
  have hm : matchRange (heldRange last) = some (decimal last) := by
    simp [matchRange, heldRange, literal_append]
  simp [nextOffsetFromRange, hm, number_decimal (Nat.le_of_lt h), Binary64.round_of_le (Nat.succ_le_of_lt h)]

/-- What each decision says about the range and the expected offset. -/
theorem classifyChunk_accept {range : Option ByteRange} {offset total length max : ℕ}
    (h : classifyChunk range offset total length max = .accept) :
    ∃ r, range = some r ∧ r.total = total ∧ length = r.end - r.start + 1 ∧ length ≤ max ∧
      r.start = offset := by
  cases range with
  | none => simp [classifyChunk] at h
  | some r =>
    simp only [classifyChunk] at h
    split_ifs at h with h₁ h₂ h₃
    refine ⟨r, rfl, ?_⟩
    omega

end GambitRecord.Broker
