import Mathlib.Data.Bool.AllAny
import GambitRecord.Plugin.Logic

/-! # The game's texts

`cp1251_to_utf8` and `utf8_to_cp1251`. The game has its texts in code page 1251,
in which every byte is a character; the plugin keeps them in UTF-8 and sends
them back in the code page.
-/

namespace GambitRecord.Plugin
open Library Library.DigitText

/-- `best_fit` is what the system makes of a text that the page does not have. -/
def utf8_to_cp1251 (best_fit : List UInt16 → Bytes) (input : Bytes) : Bytes :=
  match Utf8.decode input with
  | none => input
  | some text =>
    (CodePage.windows1251.encode (Utf16.encode text)).getD (best_fit (Utf16.encode text))

/-- The bytes that the page has for a text. -/
def InPage (text : List Char) (bytes : Bytes) : Prop :=
  CodePage.windows1251.encode (Utf16.encode text) = some bytes

instance (text : List Char) (bytes : Bytes) : Decidable (InPage text bytes) :=
  inferInstanceAs (Decidable (_ = _))

/-- Every text of the game is read, and the page has its bytes for what is read. -/
theorem exists_inPage (raw : Bytes) :
    ∃ text, cp1251_to_utf8 raw = Utf8.encode text ∧ InPage text raw := by
  obtain ⟨table, htable, hplain⟩ := CodePage.windows1251_plain
  obtain ⟨units, text, hunits, htext, hback⟩ := hplain.exists_text raw
  rw [← htable] at hunits hback
  refine ⟨text, ?_, hback⟩
  rw [cp1251_to_utf8, hunits, Option.bind_some, htext]

theorem valid_cp1251_to_utf8 (raw : Bytes) : Utf8.Valid (cp1251_to_utf8 raw) := by
  obtain ⟨text, htext, -⟩ := exists_inPage raw
  rw [htext]
  exact Utf8.valid_encode text

theorem InPage.append {text more : List Char} {a b : Bytes} (ha : InPage text a)
    (hb : InPage more b) : InPage (text ++ more) (a ++ b) := by
  obtain ⟨table, htable, -⟩ := CodePage.windows1251_plain
  unfold InPage at ha hb ⊢
  rw [htable] at ha hb ⊢
  rw [Utf16.encode, List.flatMap_append]
  exact CodePage.Table.encode_append ha hb

theorem InPage.utf8_to_cp1251 {text : List Char} {bytes : Bytes} (h : InPage text bytes)
    (best_fit : List UInt16 → Bytes) :
    utf8_to_cp1251 best_fit (Utf8.encode text) = bytes := by
  rw [Plugin.utf8_to_cp1251, Utf8.decode_encode]
  change (CodePage.windows1251.encode (Utf16.encode text)).getD _ = bytes
  rw [h, Option.getD_some]

/-- What the page has for a text is read as that text. -/
theorem InPage.cp1251_to_utf8 {text : List Char} {bytes : Bytes} (h : InPage text bytes) :
    cp1251_to_utf8 bytes = Utf8.encode text := by
  rw [Plugin.cp1251_to_utf8, CodePage.windows1251.decode_encode _ _ h, Option.bind_some,
    Utf16.decode_encode]

theorem inPage_ascii {text : List Char} (h : ∀ c ∈ text, c.toNat < 128) :
    InPage text (Utf8.encode text) := by
  obtain ⟨table, htable, -⟩ := CodePage.windows1251_plain
  rw [InPage, htable]
  exact CodePage.Table.encode_ascii h

/-- What the game sent goes back to it byte for byte. -/
theorem utf8_to_cp1251_cp1251_to_utf8 (best_fit : List UInt16 → Bytes) (raw : Bytes) :
    utf8_to_cp1251 best_fit (cp1251_to_utf8 raw) = raw := by
  obtain ⟨text, htext, hpage⟩ := exists_inPage raw
  rw [htext]
  exact hpage.utf8_to_cp1251 best_fit

def IsGameText (value : Bytes) : Prop := ∃ raw, cp1251_to_utf8 raw = value

theorem isGameText_nil : IsGameText [] := ⟨[], rfl⟩

theorem IsGameText.valid {value : Bytes} (h : IsGameText value) : Utf8.Valid value := by
  obtain ⟨raw, rfl⟩ := h
  exact valid_cp1251_to_utf8 raw

theorem InPage.isGameText {text : List Char} {bytes : Bytes} (h : InPage text bytes) :
    IsGameText (Utf8.encode text) := ⟨bytes, h.cp1251_to_utf8⟩

theorem ascii_of_isDigit {c : Char} (h : c.isDigit) : c.toNat < 128 := by
  simp only [Char.isDigit, Bool.and_eq_true, decide_eq_true_eq] at h
  have hle : c.val.toNat ≤ 57 := h.2
  exact Nat.lt_of_le_of_lt hle (by decide)

theorem ascii_padded (width n : ℕ) : ∀ c ∈ padded width n, c.toNat < 128 :=
  fun _ hc => ascii_of_isDigit (isDigit_of_mem_padded hc)

def numbered (n : Int32) : Text :=
  text "ID " ++ if n.toInt < 0 then '-' :: decimal n.toInt.natAbs else decimal n.toInt.natAbs

theorem encode_numbered (n : Int32) :
    Utf8.encode (numbered n) = Utf8.bytes "ID " ++ to_string n := by
  have hbytes : Utf8.bytes "ID " = Utf8.encode (text "ID ") := by decide +kernel
  rw [numbered, Utf8.encode_append, hbytes]
  rfl

theorem ascii_numbered (n : Int32) : ∀ c ∈ numbered n, c.toNat < 128 := by
  have hfront : ∀ c ∈ text "ID ", c.toNat < 128 :=
    List.all_iff_forall_prop.mp (by decide +kernel)
  intro c hc
  rcases List.mem_append.mp hc with hc | hc
  · exact hfront c hc
  · split_ifs at hc
    · rcases List.mem_cons.mp hc with rfl | hc
      · decide
      · exact ascii_of_isDigit (isDigit_of_mem_decimal hc)
    · exact ascii_of_isDigit (isDigit_of_mem_decimal hc)

theorem isGameText_numbered (n : Int32) : IsGameText (Utf8.bytes "ID " ++ to_string n) := by
  rw [← encode_numbered]
  exact (inPage_ascii (ascii_numbered n)).isGameText

end GambitRecord.Plugin
