import GambitRecord.Library.Algorithms
import GambitRecord.Library.Bits
import GambitRecord.Library.DigitText
import GambitRecord.Library.Utf16
import GambitRecord.Library.Utf8

/-! # The broker's key

The default handler of `broker/src/index.ts` lets a request in when its
`x-grecord-key` header compares equal to `BROKER_KEY`, both empty when they are
missing. JavaScript strings are lists of UTF-16 units, and the operators of the
comparison work on 32 bits.
-/

namespace GambitRecord.Broker
open Library Library.DigitText

abbrev JsString := List UInt16

def textEncode (s : JsString) : Bytes := Utf8.encode (Utf16.decodeLossy s)

/-- A byte as an operand, and 0 past the end. -/
def byteAt (bytes : Bytes) (i : ℕ) : Int32 := Int32.ofNat (bytes.getD i 0).toNat

def fixedTimeEqual (supplied expected : JsString) : Bool :=
  let a := textEncode supplied
  let b := textEncode expected
  let difference := Int32.ofNat a.length ^^^ Int32.ofNat b.length
  (List.range (max a.length b.length)).foldl
    (fun difference i => difference ||| (byteAt a i ^^^ byteAt b i)) difference = 0

/-- The part of the environment that authenticates. -/
structure Env where
  BROKER_KEY : Option JsString
  deriving DecidableEq

/-- What the default handler itself reads of a request. -/
structure HttpRequest where
  method : Text
  pathname : Text
  x_grecord_key : Option JsString
  deriving DecidableEq

/-- Where the default handler sends a request. -/
inductive Route where
  | unauthorized
  | channel
  | createUpload
  | routeUpload (id : Text) (cancel : Bool)
  | not_found
  deriving DecidableEq

namespace Authentication

def authenticated (request : HttpRequest) (env : Env) : Bool :=
  fixedTimeEqual (request.x_grecord_key.getD []) (env.BROKER_KEY.getD [])

def isHexDigit (c : Char) : Bool := c.isDigit || ('a' ≤ c && c ≤ 'f')

/-- `/^\/v1\/uploads\/([0-9a-f]{64})(?:\/(cancel))?$/`. -/
def matchUpload (pathname : Text) : Option (Text × Bool) := do
  let rest ← literal (text "/v1/uploads/") pathname
  let id := rest.take 64
  if id.length = 64 ∧ id.all isHexDigit then
    if rest.drop 64 = [] then some (id, false)
    else if rest.drop 64 = text "/cancel" then some (id, true)
    else none
  else none

/-- The default handler up to the handler of the route. -/
def fetch (request : HttpRequest) (env : Env) : Route :=
  if ¬ authenticated request env then .unauthorized
  else if request.method = text "GET" ∧ request.pathname = text "/v1/channel" then .channel
  else if request.method = text "POST" ∧ request.pathname = text "/v1/uploads" then .createUpload
  else
    match matchUpload request.pathname with
    | some (id, cancel) =>
      if (request.method = text "PUT" ∧ ¬ cancel) ∨ request.method = text "GET" ∨
          (request.method = text "POST" ∧ cancel) then .routeUpload id cancel
      else .not_found
    | none => .not_found

/-- A key is configured, and the header is sent with the same bytes. -/
def HasKey (request : HttpRequest) (env : Env) : Prop :=
  ∃ key ∈ env.BROKER_KEY, key ≠ [] ∧
    ∃ header ∈ request.x_grecord_key, textEncode header = textEncode key

/-- The request passes exactly with the key, and its comparison is equality. -/
structure Authenticates (request : HttpRequest) (env : Env) : Prop where
  admitted : fetch request env ≠ .unauthorized ↔ HasKey request env
  compared : fixedTimeEqual (request.x_grecord_key.getD []) (env.BROKER_KEY.getD []) = true ↔
    textEncode (request.x_grecord_key.getD []) = textEncode (env.BROKER_KEY.getD [])

/-- Byte strings that only zeros at the end tell apart, `2 ^ 32` of them or a multiple: the
difference of the lengths is then 0 on 32 bits. -/
def Wrapped (a b : Bytes) : Prop :=
  ∃ k, 0 < k ∧ (a = b ++ List.replicate (k * 2 ^ 32) 0 ∨ b = a ++ List.replicate (k * 2 ^ 32) 0)

/-- Neither a key nor a header, or empty ones. -/
def Keyless (request : HttpRequest) (env : Env) : Prop :=
  request.x_grecord_key.getD [] = [] ∧ env.BROKER_KEY.getD [] = []

theorem textEncode_eq_nil {s : JsString} : textEncode s = [] ↔ s = [] := by
  rw [← Utf16.decodeLossy_eq_nil, textEncode]
  cases Utf16.decodeLossy s with
  | nil => simp
  | cons c cs => simp [Utf8.encode_cons]

theorem byteAt_eq_iff {a b : Bytes} {i : ℕ} :
    byteAt a i = byteAt b i ↔ a.getD i 0 = b.getD i 0 := by
  have ha := (a.getD i 0).toNat_lt
  have hb := (b.getD i 0).toNat_lt
  rw [byteAt, byteAt, Bits.int32_ofNat_eq_iff, ← UInt8.toNat_inj]
  omega

/-- What the accumulated difference says. -/
theorem fixedTimeEqual_eq_true {supplied expected : JsString} :
    fixedTimeEqual supplied expected = true ↔
      (textEncode supplied).length % 2 ^ 32 = (textEncode expected).length % 2 ^ 32 ∧
        ∀ i < max (textEncode supplied).length (textEncode expected).length,
          (textEncode supplied).getD i 0 = (textEncode expected).getD i 0 := by
  simp only [fixedTimeEqual, decide_eq_true_eq, Bits.foldl_or_eq_zero, Int32.xor_eq_zero_iff,
    Bits.int32_ofNat_eq_iff, List.mem_range, byteAt_eq_iff]

theorem Wrapped.symm {a b : Bytes} (h : Wrapped a b) : Wrapped b a := by
  obtain ⟨k, hk, hab | hba⟩ := h
  · exact ⟨k, hk, .inr hab⟩
  · exact ⟨k, hk, .inl hba⟩

theorem not_wrapped_self (a : Bytes) : ¬ Wrapped a a := by
  rintro ⟨k, hk, h | h⟩ <;>
  · have hlength := congrArg List.length h
    rw [List.length_append, List.length_replicate] at hlength
    omega

/-- The longer of two byte strings without a difference is the other with zeros at its end. -/
theorem same_of_length_le {a b : Bytes} (hle : a.length ≤ b.length) :
    (a.length % 2 ^ 32 = b.length % 2 ^ 32 ∧ ∀ i < b.length, a.getD i 0 = b.getD i 0) ↔
      a = b ∨ Wrapped a b := by
  rw [Algorithms.getD_eq_iff hle]
  constructor
  · rintro ⟨hmod, hb⟩
    have hmultiple : b.length - a.length = (b.length - a.length) / 2 ^ 32 * 2 ^ 32 := by
      omega
    rcases Nat.eq_zero_or_pos ((b.length - a.length) / 2 ^ 32) with hzero | hpos
    · rw [hzero, Nat.zero_mul] at hmultiple
      rw [hmultiple, List.replicate_zero, List.append_nil] at hb
      exact .inl hb.symm
    · refine .inr ⟨_, hpos, .inr ?_⟩
      rw [← hmultiple]
      exact hb
  · rintro (rfl | ⟨k, hk, h | h⟩)
    · simp
    · have hlength := congrArg List.length h
      rw [List.length_append, List.length_replicate] at hlength
      omega
    · have hlength := congrArg List.length h
      rw [List.length_append, List.length_replicate] at hlength
      have hfilling : b.length - a.length = k * 2 ^ 32 := by
        omega
      rw [hfilling]
      exact ⟨by omega, h⟩

/-- The comparison takes two strings for equal when their bytes are, or when the difference of
their lengths is lost. -/
theorem fixedTimeEqual_iff {supplied expected : JsString} :
    fixedTimeEqual supplied expected = true ↔
      textEncode supplied = textEncode expected ∨
        Wrapped (textEncode supplied) (textEncode expected) := by
  rw [fixedTimeEqual_eq_true]
  rcases Nat.le_total (textEncode supplied).length (textEncode expected).length with hle | hle
  · rw [Nat.max_eq_right hle, same_of_length_le hle]
  · rw [Nat.max_eq_left hle, eq_comm]
    simp only [eq_comm (a := (textEncode supplied).getD _ 0)]
    rw [same_of_length_le hle, eq_comm]
    exact or_congr_right ⟨Wrapped.symm, Wrapped.symm⟩

/-- A request is let in exactly when it authenticates. -/
theorem fetch_ne_unauthorized {request : HttpRequest} {env : Env} :
    fetch request env ≠ .unauthorized ↔ authenticated request env = true := by
  cases h : authenticated request env with
  | false => simp [fetch, h]
  | true =>
    apply iff_of_true _ rfl
    rw [fetch, h, if_neg (not_not.mpr rfl)]
    split_ifs
    · exact Route.noConfusion
    · exact Route.noConfusion
    · split
      · split_ifs <;> exact Route.noConfusion
      · exact Route.noConfusion

theorem hasKey_iff {request : HttpRequest} {env : Env} (h : ¬ Keyless request env) :
    HasKey request env ↔
      textEncode (request.x_grecord_key.getD []) = textEncode (env.BROKER_KEY.getD []) := by
  constructor
  · rintro ⟨key, hkey, -, header, hheader, hsame⟩
    rw [hkey, hheader]
    exact hsame
  · intro hsame
    have hboth : request.x_grecord_key.getD [] = [] ↔ env.BROKER_KEY.getD [] = [] := by
      rw [← textEncode_eq_nil, hsame, textEncode_eq_nil]
    have hkey : env.BROKER_KEY.getD [] ≠ [] := fun hnil => h ⟨hboth.mpr hnil, hnil⟩
    cases hconfigured : env.BROKER_KEY with
    | none => simp [hconfigured] at hkey
    | some key =>
      cases hsent : request.x_grecord_key with
      | none => simp [hsent, hkey] at hboth
      | some header =>
        rw [hconfigured] at hkey hsame
        rw [hsent] at hsame
        exact ⟨key, hconfigured, hkey, header, hsent, hsame⟩

theorem not_hasKey {request : HttpRequest} {env : Env} (h : Keyless request env) :
    ¬ HasKey request env := by
  rintro ⟨key, hkey, hne, -⟩
  apply hne
  have hempty := h.2
  rw [hkey] at hempty
  exact hempty

/-- A request authenticates with the key alone exactly when there is a key or a header, and the
difference of their lengths is not lost. -/
theorem authenticates_iff (request : HttpRequest) (env : Env) :
    Authenticates request env ↔ ¬ Keyless request env ∧
      ¬ Wrapped (textEncode (request.x_grecord_key.getD []))
        (textEncode (env.BROKER_KEY.getD [])) := by
  have hadmitted : fetch request env ≠ .unauthorized ↔ _ :=
    fetch_ne_unauthorized.trans fixedTimeEqual_iff
  constructor
  · intro h
    constructor
    · intro hkeyless
      apply not_hasKey hkeyless
      rw [← h.admitted, hadmitted, hkeyless.1, hkeyless.2]
      exact .inl rfl
    · intro hwrapped
      have hsame := h.compared.mp (fixedTimeEqual_iff.mpr (.inr hwrapped))
      rw [hsame] at hwrapped
      exact not_wrapped_self _ hwrapped
  · rintro ⟨hkeyless, hwrapped⟩
    constructor
    · rw [hadmitted, hasKey_iff hkeyless, or_iff_left hwrapped]
    · rw [fixedTimeEqual_iff, or_iff_left hwrapped]

/-- No key is configured, and none is sent. -/
def openRequest : HttpRequest := ⟨text "GET", text "/v1/channel", none⟩

/-- Without a key everyone is let in. -/
theorem not_alwaysAuthenticates : ¬ ∀ request env, Authenticates request env := by
  intro hall
  have hadmitted : fetch openRequest ⟨none⟩ ≠ .unauthorized := by
    decide +kernel
  obtain ⟨key, hkey, -⟩ := (hall openRequest ⟨none⟩).admitted.mp hadmitted
  cases hkey

end Authentication
end GambitRecord.Broker
