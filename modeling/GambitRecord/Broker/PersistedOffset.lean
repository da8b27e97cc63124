import GambitRecord.Broker.SessionRace

/-! # The stored offset and what YouTube has persisted

Requests of one session, each handled to its end before the next. YouTube's
answers are any; only a 308 is taken to name the persisted bytes in `Range`, and
to have no `Range` while there are none. The handler falls back to the end of
the chunk it sent, where the tests of `nextOffsetFromRange` pass the offset from
before the request.
-/

namespace GambitRecord.Broker
open Library Library.DigitText Library.Runs

/-- What becomes of a forwarded chunk: YouTube then holds `persisted` bytes, and its answer may be
lost on the way. -/
structure Upstream where
  persisted : ℕ
  answer : Option Answer
  deriving DecidableEq

namespace PersistedOffset

/-- The stored state, what YouTube has persisted, whether the stored offset was written for a whole
upload, and what the last request was answered. -/
structure Session where
  storage : Option UploadState
  persisted : ℕ
  whole : Bool
  reply : Option Response
  deriving DecidableEq

inductive Event where
  | request (now : ℕ) (request : SessionRequest) (upstream : Option Upstream)
  | alarm
  deriving DecidableEq

/-- Persisted bytes of the file stay persisted, and a 308 names them. -/
structure Truthful (size : UploadSize) (persisted : ℕ) (upstream : Upstream) : Prop where
  grows : persisted ≤ upstream.persisted
  bound : upstream.persisted ≤ size.bytes
  range : ∀ answer ∈ upstream.answer, answer.status = 308 →
    answer.range = (Progress.incomplete.answer upstream.persisted).range

instance (size : UploadSize) (persisted : ℕ) (upstream : Upstream) :
    Decidable (Truthful size persisted upstream) :=
  decidable_of_iff
    (persisted ≤ upstream.persisted ∧ upstream.persisted ≤ size.bytes ∧
      ∀ answer ∈ upstream.answer, answer.status = 308 →
        answer.range = (Progress.incomplete.answer upstream.persisted).range)
    ⟨fun ⟨h₁, h₂, h₃⟩ => ⟨h₁, h₂, h₃⟩, fun ⟨h₁, h₂, h₃⟩ => ⟨h₁, h₂, h₃⟩⟩

def exchanged (s : Session) (storage : Option UploadState) (pending : Pending)
    (upstream : Upstream) : Session :=
  match upstream.answer with
  | none => { s with storage, persisted := upstream.persisted, reply := none }
  | some answer =>
    { storage := (UploadSession.resume storage pending answer).1
      persisted := upstream.persisted
      whole :=
        if (UploadSession.afterAnswer pending answer).isSome then answer.status ≠ 308 else s.whole
      reply := some (UploadSession.resume storage pending answer).2 }

def step (size : UploadSize) (s : Session) : Event → Option Session
  | .request now request upstream =>
    match UploadSession.fetch now s.storage request, upstream with
    | (storage, .respond r), none => some { s with storage, reply := some r }
    | (storage, .forward pending), some upstream =>
      if Truthful size s.persisted upstream then some (exchanged s storage pending upstream)
      else none
    | _, _ => none
  | .alarm => some { s with storage := UploadSession.alarm, reply := none }

/-- A session just stored by `/init`, handling one request at a time. -/
def machine (size : UploadSize) (now : ℕ) (uploadUrl : Text) : Machine Session Event where
  init := ⟨some (UploadSession.init now uploadUrl size.bytes), 0, false, none⟩
  step := step size

/-- Until the upload is answered to be whole, neither the stored offset nor one that is answered
with a 308 is past what YouTube has persisted. -/
structure Honest (s : Session) : Prop where
  stored : s.whole = false → ∀ state ∈ s.storage, state.nextOffset ≤ s.persisted
  returned : s.whole = false → ∀ r ∈ s.reply, r.status = 308 →
    ∀ offset, r.body.nextOffset = some (decimal offset) → offset ≤ s.persisted

/-- No 308 arrives while YouTube has persisted nothing. -/
def Ranged : Event → Prop
  | .request _ _ (some upstream) =>
    ∀ answer ∈ upstream.answer, answer.status = 308 → 0 < upstream.persisted
  | _ => True

theorem honest_init (size : UploadSize) (now : ℕ) (uploadUrl : Text) :
    Honest (machine size now uploadUrl).init where
  stored := by
    rintro - state ⟨⟩
    exact le_rfl
  returned := by
    rintro - r ⟨⟩

theorem decimal_inj {m n : ℕ} (h : decimal m = decimal n) : m = n := by
  rw [← value_decimal m, h, value_decimal]

/-- What a step does: it answers from what is stored, it forwards a chunk to a truthful YouTube, or
it deletes the state. -/
theorem step_cases {size : UploadSize} {s t : Session} {e : Event} (h : step size s e = some t) :
    (∃ now request storage r, e = .request now request none ∧
      UploadSession.fetch now s.storage request = (storage, .respond r) ∧
      t = { s with storage, reply := some r }) ∨
    (∃ now request storage pending upstream, e = .request now request (some upstream) ∧
      UploadSession.fetch now s.storage request = (storage, .forward pending) ∧
      Truthful size s.persisted upstream ∧ t = exchanged s storage pending upstream) ∨
    (e = .alarm ∧ t = { s with storage := none, reply := none }) := by
  cases e with
  | request now request upstream =>
    simp only [step] at h
    split at h
    · next storage r hfetch =>
      exact .inl ⟨now, request, storage, r, rfl, hfetch, (Option.some.inj h).symm⟩
    · next storage pending upstream hfetch =>
      split_ifs at h with htruthful
      exact .inr (.inl ⟨now, request, storage, pending, upstream, rfl, hfetch, htruthful,
        (Option.some.inj h).symm⟩)
    · cases h
  | alarm => exact .inr (.inr ⟨rfl, (Option.some.inj h).symm⟩)

/-- A request that is answered at once leaves the offset, and no 308 has another one. -/
theorem honest_responded {now : ℕ} {request : SessionRequest} {s : Session}
    {storage : Option UploadState} {r : Response} (hs : Honest s)
    (h : UploadSession.fetch now s.storage request = (storage, .respond r)) :
    Honest { s with storage, reply := some r } := by
  have hstored : ∀ state ∈ storage, state ∈ s.storage :=
    fun _ => UploadSession.mem_of_fetch_respond h
  constructor
  · exact fun hwhole state hstate => hs.stored hwhole state (hstored state hstate)
  · rintro hwhole r' ⟨⟩ hstatus offset hoffset
    obtain ⟨state, rfl, hbody⟩ := UploadSession.fetch_respond_308 h hstatus
    rw [hbody, Option.some_inj] at hoffset
    rw [← decimal_inj hoffset]
    exact hs.stored hwhole state (hstored state rfl)

theorem nextOffset_of_range {size : UploadSize} {upstream : Upstream} {answer : Answer} {n : ℕ}
    (hbound : upstream.persisted ≤ size.bytes)
    (hrange : answer.range = (Progress.incomplete.answer upstream.persisted).range) :
    nextOffsetFromRange answer.range n =
      if upstream.persisted = 0 then n else upstream.persisted := by
  rw [hrange, Progress.answer]
  by_cases hzero : upstream.persisted = 0
  · rw [if_pos hzero, if_pos hzero]
    rfl
  · have hsafe := size.safe
    have hlast : upstream.persisted - 1 < Binary64.maxSafe := by omega
    rw [if_neg hzero, if_neg hzero, nextOffsetFromRange_heldRange hlast]
    omega

theorem exchanged_308 {s : Session} {storage : Option UploadState} {pending : Pending}
    {upstream : Upstream} {answer : Answer} (hanswer : upstream.answer = some answer)
    (h308 : answer.status = 308) {offset : ℕ}
    (hoffset : nextOffsetFromRange answer.range (pending.range.end + 1) = offset) :
    exchanged s storage pending upstream =
      ⟨some { pending.state with nextOffset := offset }, upstream.persisted, false,
        some ⟨308, { nextOffset := some (decimal offset) }⟩⟩ := by
  simp [exchanged, hanswer, UploadSession.resume, UploadSession.afterAnswer,
    UploadSession.answerResponse, h308, hoffset]

theorem honest_308_iff {state : UploadState} {offset persisted : ℕ} :
    Honest ⟨some { state with nextOffset := offset }, persisted, false,
      some ⟨308, { nextOffset := some (decimal offset) }⟩⟩ ↔ offset ≤ persisted := by
  constructor
  · exact fun h => h.stored rfl _ rfl
  · intro hle
    constructor
    · rintro - stored ⟨⟩
      exact hle
    · rintro - r ⟨⟩ - returned hreturned
      rw [← decimal_inj (Option.some.inj hreturned)]
      exact hle

/-- Another answer of YouTube is written for a whole upload, or it leaves the state. -/
theorem honest_exchanged {s : Session} {storage : Option UploadState} {pending : Pending}
    {upstream : Upstream} {answer : Answer} (hanswer : upstream.answer = some answer)
    (h308 : answer.status ≠ 308)
    (hkept : s.whole = false → ∀ state ∈ storage, state.nextOffset ≤ upstream.persisted) :
    Honest (exchanged s storage pending upstream) := by
  have hreply : ∀ r ∈ (exchanged s storage pending upstream).reply, r.status ≠ 308 := by
    rw [exchanged, hanswer]
    rintro r ⟨⟩ hstatus
    exact h308 (UploadSession.answerResponse_308 hstatus)
  constructor
  · rw [exchanged, hanswer]
    cases hafter : UploadSession.afterAnswer pending answer with
    | none => simpa [UploadSession.resume, hafter] using hkept
    | some written => simp [hafter, h308]
  · exact fun _ r hr hstatus => absurd hstatus (hreply r hr)

/-- A chunk that YouTube answers keeps the session honest, unless it is a 308 while nothing is
persisted. -/
theorem honest_exchanged_iff {size : UploadSize} {s : Session} {storage : Option UploadState}
    {pending : Pending} {upstream : Upstream} (hs : Honest s) (hstorage : storage = s.storage)
    (htruthful : Truthful size s.persisted upstream) :
    Honest (exchanged s storage pending upstream) ↔
      ∀ answer ∈ upstream.answer, answer.status = 308 → 0 < upstream.persisted := by
  have hkept : s.whole = false → ∀ state ∈ storage, state.nextOffset ≤ upstream.persisted := by
    rw [hstorage]
    exact fun hwhole state hstate => (hs.stored hwhole state hstate).trans htruthful.grows
  cases hanswer : upstream.answer with
  | none =>
    refine iff_of_true ?_ (by simp)
    rw [exchanged, hanswer]
    exact ⟨hkept, by rintro - r ⟨⟩⟩
  | some answer =>
    simp only [Option.mem_def, Option.some_inj, forall_eq']
    by_cases h308 : answer.status = 308
    · have hoffset := nextOffset_of_range (n := pending.range.end + 1) htruthful.bound
        (htruthful.range answer hanswer h308)
      rw [exchanged_308 hanswer h308 hoffset, honest_308_iff]
      split_ifs <;> omega
    · exact iff_of_true (honest_exchanged hanswer h308 hkept) fun h => absurd h h308

/-- From an honest session a step leads to an honest one exactly when it is no 308 while nothing is
persisted. -/
theorem honest_step_iff {size : UploadSize} {s t : Session} {e : Event} (hs : Honest s)
    (h : step size s e = some t) : Honest t ↔ Ranged e := by
  rcases step_cases h with ⟨now, request, storage, r, rfl, hfetch, rfl⟩ |
    ⟨now, request, storage, pending, upstream, rfl, hfetch, htruthful, rfl⟩ | ⟨rfl, rfl⟩
  · exact iff_of_true (honest_responded hs hfetch) trivial
  · exact honest_exchanged_iff hs (UploadSession.fetch_forward_storage hfetch) htruthful
  · exact iff_of_true ⟨by rintro - state ⟨⟩, by rintro - r ⟨⟩⟩ trivial

/-- The offsets that a run stores and returns stay within what YouTube has persisted exactly when
no 308 arrives while it has persisted nothing. -/
theorem honest_iff (size : UploadSize) (now : ℕ) (uploadUrl : Text) (es : List Event) (t : Session)
    (hrun : (machine size now uploadUrl).run es = some t) :
    (∀ fs s, fs <+: es → (machine size now uploadUrl).run fs = some s → Honest s) ↔
      ∀ e ∈ es, Ranged e :=
  Machine.reached_iff (fun _ _ _ hs h => honest_step_iff hs h) hrun
    (honest_init size now uploadUrl)

def twoChunks : List Event :=
  [.request 0 (SessionRace.put 0 0 [7]) (some ⟨1, some (Progress.incomplete.answer 1)⟩),
    .request 0 (SessionRace.put 1 2 [8, 9])
      (some ⟨3, some ((Progress.completed true (.json (some ['v']))).answer 3)⟩)]

theorem twoChunks_accepted :
    ((machine SessionRace.threeBytes 0 []).run twoChunks).isSome := by
  decide +kernel

theorem honest_twoChunks :
    (∀ fs s, fs <+: twoChunks → (machine SessionRace.threeBytes 0 []).run fs = some s →
      Honest s) ↔ ∀ e ∈ twoChunks, Ranged e :=
  honest_iff SessionRace.threeBytes 0 [] twoChunks _
    (Option.some_get twoChunks_accepted).symm

def unpersisted : List Event :=
  [.request 0 (SessionRace.put 0 0 [7]) (some ⟨0, some (Progress.incomplete.answer 0)⟩)]

theorem unpersisted_accepted :
    ((machine SessionRace.threeBytes 0 []).run unpersisted).isSome := by
  decide +kernel

/-- The session then takes it for persisted. -/
theorem not_alwaysHonest :
    ¬ ∀ size now uploadUrl es s, (machine size now uploadUrl).run es = some s → Honest s := by
  intro hall
  have hhonest := hall SessionRace.threeBytes 0 [] unpersisted _
    (Option.some_get unpersisted_accepted).symm
  have hpast : ∃ state ∈ (Option.get _ unpersisted_accepted).storage,
      (Option.get _ unpersisted_accepted).whole = false ∧
        (Option.get _ unpersisted_accepted).persisted < state.nextOffset := by
    decide +kernel
  obtain ⟨state, hstate, hwhole, hlt⟩ := hpast
  exact absurd (hhonest.stored hwhole state hstate) (Nat.not_le_of_lt hlt)

end PersistedOffset
end GambitRecord.Broker
