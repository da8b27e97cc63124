import GambitRecord.Broker.UploadSession
import GambitRecord.Library.Runs

/-! # Interleaved handlers of one upload session

Handlers of one session interleave only while they await YouTube, so a step of
the race is the first part of a handler, an answer of YouTube, or the rest of a
handler. YouTube is any server whose persisted byte count never shrinks and
which completes an upload at most once; answers reach the handlers in any order.
-/

namespace GambitRecord.Broker
open Library Library.DigitText Library.Runs

/-- A size that `createUpload` accepts: a positive safe integer. -/
structure UploadSize where
  bytes : ℕ
  pos : 0 < bytes
  safe : bytes ≤ Binary64.maxSafe

/-- What YouTube does with a forwarded chunk, apart from the bytes it persists. -/
inductive Progress where
  | incomplete
  | completed (created : Bool) (body : AnswerBody)
  | failed (status : ℕ)
  deriving DecidableEq

/-- YouTube's answer when it holds `persisted` bytes: an incomplete upload is answered 308 with
the held range, which is left out while nothing is held. -/
def Progress.answer (persisted : ℕ) : Progress → Answer
  | .incomplete =>
    ⟨308, if persisted = 0 then none else some (heldRange (persisted - 1)), .unreadable⟩
  | .completed created body => ⟨if created then 201 else 200, none, body⟩
  | .failed status => ⟨status, none, .unreadable⟩

namespace SessionRace

structure Handler where
  pending : Pending
  answer : Option Answer
  deriving DecidableEq

structure Race where
  storage : Option UploadState
  handlers : List Handler
  persisted : ℕ
  completed : Bool
  deriving DecidableEq

inductive Event where
  | request (now : ℕ) (request : SessionRequest)
  | answer (handler persisted : ℕ) (progress : Progress)
  | resume (handler : ℕ)
  | abort (handler : ℕ)
  | alarm
  deriving DecidableEq

def start (race : Race) (now : ℕ) (request : SessionRequest) : Race :=
  match UploadSession.fetch now race.storage request with
  | (storage, .respond _) => { race with storage }
  | (storage, .forward pending) =>
    { race with storage, handlers := race.handlers ++ [⟨pending, none⟩] }

/-- What YouTube may do: it holds at least as much as before and at most the whole file, it
completes only what it holds whole and only once, and a failure has another status. -/
def Permitted (size : UploadSize) (race : Race) (persisted : ℕ) : Progress → Prop
  | .incomplete => race.persisted ≤ persisted ∧ persisted ≤ size.bytes
  | .completed _ _ => persisted = size.bytes ∧ race.completed = false
  | .failed status =>
    race.persisted ≤ persisted ∧ persisted ≤ size.bytes ∧ status ≠ 308 ∧ status ≠ 200 ∧
      status ≠ 201

instance (size : UploadSize) (race : Race) (persisted : ℕ) (progress : Progress) :
    Decidable (Permitted size race persisted progress) :=
  match progress with
  | .incomplete => instDecidableAnd
  | .completed _ _ => instDecidableAnd
  | .failed _ => instDecidableAnd

def answered (race : Race) (i persisted : ℕ) (progress : Progress) (h : Handler) : Race :=
  { race with
    handlers := race.handlers.set i { h with answer := some (progress.answer persisted) }
    persisted
    completed := race.completed || (match progress with | .completed _ _ => true | _ => false) }

def resumed (race : Race) (i : ℕ) (pending : Pending) (answer : Answer) : Race :=
  { race with
    storage := (UploadSession.resume race.storage pending answer).1
    handlers := race.handlers.eraseIdx i }

def step (size : UploadSize) (race : Race) : Event → Option Race
  | .request now request => some (start race now request)
  | .answer i persisted progress =>
    match race.handlers[i]? with
    | some ⟨pending, none⟩ =>
      if Permitted size race persisted progress then
        some (answered race i persisted progress ⟨pending, none⟩)
      else none
    | _ => none
  | .resume i =>
    match race.handlers[i]? with
    | some ⟨pending, some answer⟩ => some (resumed race i pending answer)
    | _ => none
  | .abort i => some { race with handlers := race.handlers.eraseIdx i }
  | .alarm => some { race with storage := UploadSession.alarm }

def machine (size : UploadSize) (now : ℕ) (uploadUrl : Text) : Machine Race Event where
  init := ⟨some (UploadSession.init now uploadUrl size.bytes), [], 0, false⟩
  step := step size

/-- Neither a cancellation nor the expiry alarm. -/
def Live : Event → Prop
  | .request _ request => request.path ≠ .cancel
  | .alarm => False
  | _ => True

instance : DecidablePred Live
  | .request _ _ => instDecidableNot
  | .alarm => instDecidableFalse
  | .answer _ _ _ => instDecidableTrue
  | .resume _ => instDecidableTrue
  | .abort _ => instDecidableTrue

/-- The stored session only moves on: the offset does not decrease, a link once stored with its
video id stays. -/
def MovesOn (s t : Race) : Prop :=
  ∀ a ∈ s.storage, ∃ b ∈ t.storage, a.nextOffset ≤ b.nextOffset ∧
    (a.url ≠ none → b.url = a.url ∧ b.videoId = a.videoId)

instance (s t : Race) : Decidable (MovesOn s t) :=
  inferInstanceAs (Decidable (∀ a ∈ s.storage, ∃ b ∈ t.storage, a.nextOffset ≤ b.nextOffset ∧
    (a.url ≠ none → b.url = a.url ∧ b.videoId = a.videoId)))

def AlwaysMovesOn : Prop :=
  ∀ size now uploadUrl es fs s t, (∀ e ∈ es ++ fs, Live e) →
    (machine size now uploadUrl).run es = some s →
    (machine size now uploadUrl).runFrom s fs = some t → MovesOn s t

/-- Whether a handler that resumes with its answer writes its copy back. -/
def Handler.Writes (h : Handler) : Prop :=
  ∃ answer ∈ h.answer, UploadSession.afterAnswer h.pending answer ≠ none

instance (h : Handler) : Decidable h.Writes :=
  inferInstanceAs (Decidable (∃ answer ∈ h.answer, UploadSession.afterAnswer h.pending answer ≠ none))

/-- Nothing was stored between the read of a handler that now writes and its write, and an
incomplete upload is answered with the range that YouTube holds. -/
def Undisturbed (race : Race) : Event → Prop
  | .resume i => ∀ h ∈ race.handlers[i]?, h.Writes → race.storage = some h.pending.state
  | .answer _ persisted .incomplete => 0 < persisted
  | _ => True

instance (race : Race) : DecidablePred (Undisturbed race)
  | .resume i =>
    inferInstanceAs
      (Decidable (∀ h ∈ race.handlers[i]?, h.Writes → race.storage = some h.pending.state))
  | .answer _ persisted .incomplete => inferInstanceAs (Decidable (0 < persisted))
  | .answer _ _ (.completed _ _) => instDecidableTrue
  | .answer _ _ (.failed _) => instDecidableTrue
  | .request _ _ => instDecidableTrue
  | .abort _ => instDecidableTrue
  | .alarm => instDecidableTrue

theorem MovesOn.refl (s : Race) : MovesOn s s := fun a ha => ⟨a, ha, le_rfl, fun _ => ⟨rfl, rfl⟩⟩

theorem MovesOn.trans {s t u : Race} (hst : MovesOn s t) (htu : MovesOn t u) : MovesOn s u := by
  intro a ha
  rcases hst a ha with ⟨b, hb, hab, hkeep⟩
  rcases htu b hb with ⟨c, hc, hbc, hkeep'⟩
  refine ⟨c, hc, hab.trans hbc, fun hurl => ?_⟩
  rcases hkeep hurl with ⟨hu, hv⟩
  rcases hkeep' (hu ▸ hurl) with ⟨hu', hv'⟩
  exact ⟨hu'.trans hu, hv'.trans hv⟩

theorem step_answer {size : UploadSize} {s t : Race} {i n : ℕ} {p : Progress}
    (h : step size s (.answer i n p) = some t) :
    ∃ pending, s.handlers[i]? = some ⟨pending, none⟩ ∧ Permitted size s n p ∧
      t = answered s i n p ⟨pending, none⟩ := by
  simp only [step] at h
  split at h
  · next pending hi =>
    split_ifs at h with hp
    exact ⟨pending, hi, hp, (Option.some.inj h).symm⟩
  · cases h

theorem step_resume {size : UploadSize} {s t : Race} {i : ℕ}
    (h : step size s (.resume i) = some t) :
    ∃ pending answer, s.handlers[i]? = some ⟨pending, some answer⟩ ∧
      t = resumed s i pending answer := by
  simp only [step] at h
  split at h
  · next pending answer hi => exact ⟨pending, answer, hi, (Option.some.inj h).symm⟩
  · cases h

theorem afterAnswer_offset {pending : Pending} {n : ℕ} {p : Progress} {state : UploadState}
    (hn : n ≤ Binary64.maxSafe) (hpos : p = .incomplete → 0 < n)
    (hfail : ∀ status, p = .failed status → status ≠ 308 ∧ status ≠ 200 ∧ status ≠ 201)
    (h : UploadSession.afterAnswer pending (p.answer n) = some state) :
    (p = .incomplete ∧ state = { pending.state with nextOffset := n }) ∨
      ((∃ created body, p = .completed created body) ∧
        state.nextOffset = pending.state.total) := by
  cases p with
  | incomplete =>
    have hne : n ≠ 0 := Nat.pos_iff_ne_zero.mp (hpos rfl)
    have hlast : n - 1 < Binary64.maxSafe := by omega
    have hsucc : n - 1 + 1 = n := by omega
    simp only [Progress.answer, UploadSession.afterAnswer, if_true, if_neg hne,
      nextOffsetFromRange_heldRange hlast, hsucc, Option.some.injEq] at h
    exact .inl ⟨rfl, h.symm⟩
  | completed created body =>
    refine .inr ⟨⟨created, body, rfl⟩, ?_⟩
    cases created <;> cases body <;> simp [Progress.answer, UploadSession.afterAnswer] at h <;>
      rw [← h]
  | failed status =>
    rcases hfail status rfl with ⟨h₁, h₂, h₃⟩
    simp [Progress.answer, UploadSession.afterAnswer, h₁, h₂, h₃] at h

/-- A state that agrees with a YouTube holding `persisted` bytes of the file. -/
structure Consistent (size : UploadSize) (persisted : ℕ) (state : UploadState) : Prop where
  total : state.total = size.bytes
  offset : state.nextOffset ≤ persisted
  link : state.url ≠ none → state.nextOffset = size.bytes

/-- A handler in flight: its copy agrees with YouTube, its chunk starts where the copy ends and
lies inside the file, and what its answer writes back agrees with YouTube and does not go back. -/
structure HandlerOk (size : UploadSize) (persisted : ℕ) (h : Handler) : Prop where
  copy : Consistent size persisted h.pending.state
  inside : h.pending.state.nextOffset < size.bytes
  written : ∀ answer ∈ h.answer, ∀ state ∈ UploadSession.afterAnswer h.pending answer,
    Consistent size persisted state ∧ h.pending.state.nextOffset ≤ state.nextOffset

structure Ready (size : UploadSize) (race : Race) : Prop where
  stored : ∃ state, race.storage = some state ∧ Consistent size race.persisted state
  bound : race.persisted ≤ size.bytes
  handlers : ∀ h ∈ race.handlers, HandlerOk size race.persisted h

theorem Consistent.mono {size : UploadSize} {m n : ℕ} {state : UploadState}
    (h : Consistent size m state) (hmn : m ≤ n) : Consistent size n state :=
  ⟨h.total, h.offset.trans hmn, h.link⟩

theorem HandlerOk.mono {size : UploadSize} {m n : ℕ} {h : Handler} (hok : HandlerOk size m h)
    (hmn : m ≤ n) : HandlerOk size n h :=
  ⟨hok.copy.mono hmn, hok.inside, fun a ha s hs =>
    ⟨(hok.written a ha s hs).1.mono hmn, (hok.written a ha s hs).2⟩⟩

/-- A handler in flight has no link to lose: a copy with one already ends at the total. -/
theorem HandlerOk.url_none {size : UploadSize} {persisted : ℕ} {h : Handler}
    (hok : HandlerOk size persisted h) : h.pending.state.url = none := by
  by_contra hurl
  exact absurd (hok.copy.link hurl) (Nat.ne_of_lt hok.inside)

theorem ready_init (size : UploadSize) (now : ℕ) (uploadUrl : Text) :
    Ready size (machine size now uploadUrl).init where
  stored := ⟨_, rfl, rfl, le_rfl, fun h => absurd rfl h⟩
  bound := Nat.zero_le _
  handlers := by simp [machine]

theorem ready_start {size : UploadSize} {race : Race} {now : ℕ} {request : SessionRequest}
    (hr : Ready size race) (hlive : request.path ≠ .cancel) :
    Ready size (start race now request) ∧ (start race now request).storage = race.storage := by
  unfold start
  rcases UploadSession.fetch_cases now race.storage request with
    ⟨r, h, -⟩ | ⟨r, h, hpath, -⟩ | ⟨state, range, hs, hparse, hstart, htotal, -, -, h⟩
  · rw [h]
    exact ⟨⟨hr.stored, hr.bound, hr.handlers⟩, rfl⟩
  · exact absurd hpath hlive
  · rw [h]
    refine ⟨⟨hr.stored, hr.bound, fun k hk => ?_⟩, rfl⟩
    rcases List.mem_append.mp hk with hk | hk
    · exact hr.handlers k hk
    · rcases hr.stored with ⟨state', hs', hc⟩
      cases hs.symm.trans hs'
      rw [List.mem_singleton.mp hk]
      refine ⟨hc, ?_, by simp⟩
      have hb := parseContentRange_bounds hparse
      have ht : range.total = size.bytes := htotal.trans hc.total
      simp only
      omega

theorem ready_answered {size : UploadSize} {race : Race} {i n : ℕ} {p : Progress}
    {pending : Pending} (hr : Ready size race) (hi : race.handlers[i]? = some ⟨pending, none⟩)
    (hp : Permitted size race n p) (hpos : p = .incomplete → 0 < n) :
    Ready size (answered race i n p ⟨pending, none⟩) := by
  have hle : race.persisted ≤ n ∧ n ≤ size.bytes := by
    cases p with
    | incomplete => exact hp
    | completed created body => exact ⟨hp.1 ▸ hr.bound, hp.1.le⟩
    | failed status => exact ⟨hp.1, hp.2.1⟩
  rcases hr.stored with ⟨state, hs, hc⟩
  refine ⟨⟨state, hs, hc.mono hle.1⟩, hle.2, fun k hk => ?_⟩
  have hown := hr.handlers _ (List.mem_of_getElem? hi)
  rcases List.mem_or_eq_of_mem_set hk with hk | rfl
  · exact (hr.handlers k hk).mono hle.1
  · refine ⟨(hown.mono hle.1).copy, hown.inside, fun a ha st hst => ?_⟩
    cases ha
    have hfail : ∀ status, p = .failed status → status ≠ 308 ∧ status ≠ 200 ∧ status ≠ 201 := by
      rintro status rfl
      exact hp.2.2
    have htotal : pending.state.total = size.bytes := hown.copy.total
    rcases afterAnswer_offset (hle.2.trans size.safe) hpos hfail hst with
      ⟨rfl, rfl⟩ | ⟨⟨created, body, rfl⟩, hoff⟩
    · refine ⟨⟨htotal, le_rfl, fun hurl => absurd hown.url_none hurl⟩, ?_⟩
      exact hown.copy.offset.trans hle.1
    · rcases UploadSession.afterAnswer_total hst with ⟨hst', -⟩
      have hn : n = size.bytes := hp.1
      refine ⟨⟨hst'.trans htotal, ?_, fun _ => hoff.trans htotal⟩, ?_⟩
      · show st.nextOffset ≤ n
        rw [hoff, htotal, hn]
      · rw [hoff, htotal]
        exact hown.inside.le

theorem ready_resumed {size : UploadSize} {race : Race} {i : ℕ} {pending : Pending}
    {answer : Answer} (hr : Ready size race)
    (hi : race.handlers[i]? = some ⟨pending, some answer⟩)
    (hsame : Handler.Writes ⟨pending, some answer⟩ → race.storage = some pending.state) :
    Ready size (resumed race i pending answer) ∧ MovesOn race (resumed race i pending answer) := by
  have hown := hr.handlers _ (List.mem_of_getElem? hi)
  have hrest : ∀ k ∈ race.handlers.eraseIdx i, HandlerOk size race.persisted k :=
    fun k hk => hr.handlers k (List.mem_of_mem_eraseIdx hk)
  cases hst : UploadSession.afterAnswer pending answer with
  | none =>
    have hstay : (resumed race i pending answer).storage = race.storage := by
      simp [resumed, UploadSession.resume, hst]
    refine ⟨⟨hstay ▸ hr.stored, hr.bound, hrest⟩, ?_⟩
    intro a ha
    exact ⟨a, hstay ▸ ha, le_rfl, fun _ => ⟨rfl, rfl⟩⟩
  | some state =>
    have hnew : (resumed race i pending answer).storage = some state := by
      simp [resumed, UploadSession.resume, hst]
    rcases hown.written answer rfl state hst with ⟨hc, hle⟩
    refine ⟨⟨⟨state, hnew, hc⟩, hr.bound, hrest⟩, ?_⟩
    intro a ha
    have hwrites : Handler.Writes ⟨pending, some answer⟩ := ⟨answer, rfl, by simp [hst]⟩
    cases (hsame hwrites).symm.trans ha
    exact ⟨state, hnew, hle, fun hurl => absurd hown.url_none hurl⟩

/-- One step of an undisturbed race keeps the invariant and moves the session on. -/
theorem ready_step {size : UploadSize} {s t : Race} {e : Event} (hr : Ready size s)
    (hlive : Live e) (hund : Undisturbed s e) (h : step size s e = some t) :
    Ready size t ∧ MovesOn s t := by
  cases e with
  | request now request =>
    cases h
    rcases ready_start hr hlive with ⟨hr', hsame⟩
    exact ⟨hr', fun a ha => ⟨a, hsame ▸ ha, le_rfl, fun _ => ⟨rfl, rfl⟩⟩⟩
  | answer i n p =>
    rcases step_answer h with ⟨pending, hi, hp, rfl⟩
    refine ⟨ready_answered hr hi hp ?_, MovesOn.refl s⟩
    rintro rfl
    exact hund
  | resume i =>
    rcases step_resume h with ⟨pending, answer, hi, rfl⟩
    exact ready_resumed hr hi (hund _ hi)
  | abort i =>
    cases h
    exact ⟨⟨hr.stored, hr.bound, fun k hk => hr.handlers k (List.mem_of_mem_eraseIdx hk)⟩,
      MovesOn.refl s⟩
  | alarm => exact absurd hlive id

/-- In every run whose write-backs are undisturbed and whose incomplete answers name a range, the
session moves on from each state to every later one. -/
theorem movesOn_of_undisturbed (size : UploadSize) (now : ℕ) (uploadUrl : Text) (es fs : List Event)
    (s t : Race) (hlive : ∀ e ∈ es ++ fs, Live e)
    (hund : (machine size now uploadUrl).Along Undisturbed
      (machine size now uploadUrl).init (es ++ fs))
    (hs : (machine size now uploadUrl).run es = some s)
    (ht : (machine size now uploadUrl).runFrom s fs = some t) : MovesOn s t := by
  have hall := (Machine.along_of_forall hlive).and hund
  rcases Machine.along_append hall with ⟨hes, hfs⟩
  have hready : Ready size s := Machine.invariant_along (I := Ready size)
    (fun a e b ha hc h => (ready_step ha hc.1 hc.2 h).1) hes hs (ready_init size now uploadUrl)
  exact Machine.relation_along (I := Ready size) MovesOn.refl (fun _ _ _ => MovesOn.trans)
    (fun a e b ha hc h => (ready_step ha hc.1 hc.2 h).1)
    (fun a e b ha hc h => (ready_step ha hc.1 hc.2 h).2) (hfs s hs) ht hready

def threeBytes : UploadSize := ⟨3, by decide, by decide⟩

def put (start last : ℕ) (body : List UInt8) : SessionRequest :=
  ⟨.chunk, .put, some (contentRange start last 3), last - start + 1, 8388608, body⟩

def firstChunk : List Event :=
  [.request 0 (put 0 0 [7]), .answer 0 1 .incomplete, .resume 0]

def secondChunk : List Event :=
  [.request 0 (put 1 2 [8, 9]), .answer 0 3 (.completed true (.json (some ['v']))), .resume 0]

/-- The first byte sent again while its first handler still waits, then the rest of the file. -/
def resentFirstByte : List Event :=
  [.request 0 (put 0 0 [7]), .request 0 (put 0 0 [7]), .answer 0 1 .incomplete,
    .answer 1 1 .incomplete, .resume 0, .request 0 (put 1 2 [8, 9]),
    .answer 1 3 (.completed true (.json (some ['v']))), .resume 1]

theorem firstChunk_accepted : ((machine threeBytes 0 []).run firstChunk).isSome := by
  decide +kernel

theorem secondChunk_accepted : ((machine threeBytes 0 []).runFrom
    (((machine threeBytes 0 []).run firstChunk).get firstChunk_accepted) secondChunk).isSome := by
  decide +kernel

theorem movesOn_twoChunks :
    MovesOn (((machine threeBytes 0 []).run firstChunk).get firstChunk_accepted)
      (((machine threeBytes 0 []).runFrom _ secondChunk).get secondChunk_accepted) :=
  movesOn_of_undisturbed threeBytes 0 [] firstChunk secondChunk _ _ (by decide)
    (by decide +kernel) (Option.some_get _).symm (Option.some_get _).symm

/-- The second handler of the first byte writes its copy over the completed session. -/
theorem not_alwaysMovesOn : ¬ AlwaysMovesOn := by
  intro h
  have hs := h threeBytes 0 [] resentFirstByte [.resume 0]
    (((machine threeBytes 0 []).run resentFirstByte).get (by decide +kernel))
    (((machine threeBytes 0 []).run (resentFirstByte ++ [.resume 0])).get (by decide +kernel))
    (by decide) (Option.some_get _).symm (by decide +kernel)
  revert hs
  decide +kernel

end SessionRace
end GambitRecord.Broker
