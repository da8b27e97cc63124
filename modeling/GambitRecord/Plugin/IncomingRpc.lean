import GambitRecord.Plugin.Globals
import GambitRecord.Plugin.RpcPayload

/-! # Remote calls from the game server

`process_rpc` and `incoming_rpc_hook`. The reader of a call is built from the
whole bytes of its payload, so that a string that the payload does not hold
reads as the empty one or takes in the bits that fill the last byte. The
nicknames of the game's own player list are given by `pool`.
-/

namespace GambitRecord.Plugin
open Library Library.Bits

def player_name (pool : UInt16 → Option Bytes) (id : UInt16) : Bytes :=
  match pool id with
  | some value => cp1251_to_utf8 value
  | none => []

/-- The fields of call 11. -/
def name_fields (bytes : List UInt8) : Except Failure (UInt16 × Bytes) := do
  let (player, reader) ← (BitReader.ofData bytes).read 2
  let (length, reader) ← reader.read 1
  let (nickname, _) ← reader.read_string length
  .ok (UInt16.ofNat player, nickname)

/-- The fields of call 93, of which the colour is not used. -/
def message_fields (bytes : List UInt8) : Except Failure Bytes := do
  let (_, reader) ← (BitReader.ofData bytes).read 4
  let (length, reader) ← reader.read 4
  if 0 ≤ (Int32.ofNat length).toInt ∧ (Int32.ofNat length).toInt ≤ 4096 then
    let (message, _) ← reader.read_string (Int32.ofNat length).toInt.toNat
    .ok message
  else .error .refused

/-- The fields of call 126, of which the camera is not used. -/
def spectate_fields (bytes : List UInt8) : Except Failure UInt16 := do
  let (player, reader) ← (BitReader.ofData bytes).read 2
  let (_, _) ← reader.read 1
  .ok (UInt16.ofNat player)

def when_read {α : Type} (plugin : Globals) (fields : Except Failure α) (act : α → Globals) :
    Except Failure Globals :=
  match fields with
  | .ok a => .ok (act a)
  | .error .refused => .ok plugin
  | .error .outside => .error .outside

def process_rpc (plugin : Globals) (pool : UInt16 → Option Bytes) (clock : Clock) (id : UInt8)
    (bytes : List UInt8) : Except Failure Globals :=
  if id = 11 then
    when_read plugin (name_fields bytes) fun fields =>
      { plugin with
        logic :=
          plugin.logic.on_player_name (Int32.ofNat fields.1.toNat) (cp1251_to_utf8 fields.2) }
  else if id = 93 then
    when_read plugin (message_fields bytes) fun message =>
      plugin.on_server_message (cp1251_to_utf8 message) clock
  else if id = 126 then
    when_read plugin (spectate_fields bytes) fun player =>
      plugin.on_spectating player (player_name pool player)
  else if id = 78 then .ok { plugin with logic := plugin.logic.clear_spectating }
  else .ok plugin

def incoming_rpc_hook (plugin : Globals) (pool : UInt16 → Option Bytes) (clock : Clock)
    (packet : List UInt8) : Except Failure Globals :=
  match extract_rpc_payload packet with
  | .ok rpc => process_rpc plugin pool clock rpc.id rpc.bytes
  | .error .refused => .ok plugin
  | .error .outside => .error .outside

theorem when_read_reacts {α : Type} {plugin plugin' : Globals} {clock : Clock}
    {fields : Except Failure α} {act : α → Globals} (event : α → Globals.Event)
    (hevent : ∀ a, plugin.react clock (event a) = some (act a, none))
    (h : when_read plugin fields act = .ok plugin') :
    plugin' = plugin ∨ ∃ event, plugin.react clock event = some (plugin', none) := by
  rcases fields with (_ | _) | a
  · cases h
    exact .inl rfl
  · cases h
  · cases h
    exact .inr ⟨event a, hevent a⟩

/-- What a call does is one of the events the plugin reacts to, or nothing. -/
theorem process_rpc_reacts {plugin plugin' : Globals} {pool : UInt16 → Option Bytes}
    {clock : Clock} {id : UInt8} {bytes : List UInt8}
    (h : process_rpc plugin pool clock id bytes = .ok plugin') :
    plugin' = plugin ∨ ∃ event, plugin.react clock event = some (plugin', none) := by
  rw [process_rpc] at h
  by_cases hname : id = 11
  · rw [if_pos hname] at h
    exact when_read_reacts
      (fun fields : UInt16 × Bytes => .player_joined fields.1 (cp1251_to_utf8 fields.2))
      (fun _ => rfl) h
  rw [if_neg hname] at h
  by_cases hmessage : id = 93
  · rw [if_pos hmessage] at h
    exact when_read_reacts (fun message => .server_message (cp1251_to_utf8 message))
      (fun _ => rfl) h
  rw [if_neg hmessage] at h
  by_cases hspectate : id = 126
  · rw [if_pos hspectate] at h
    exact when_read_reacts (fun player => .spectating player (player_name pool player))
      (fun _ => rfl) h
  rw [if_neg hspectate] at h
  by_cases hended : id = 78
  · rw [if_pos hended] at h
    cases h
    exact .inr ⟨.spectating_ended, rfl⟩
  · rw [if_neg hended] at h
    cases h
    exact .inl rfl

namespace BitReader

/-- A number of whole bytes, from a reader that has whole bytes left. -/
theorem read_ofBytes {r : BitReader} {bytes : List UInt8} (h : Holds r (ofBytes bytes)) {n : ℕ}
    (hpos : 0 < n) :
    if n ≤ bytes.length then
      ∃ r', r.read n = .ok (LittleEndian.decode (bytes.take n), r') ∧
        Holds r' (ofBytes (bytes.drop n))
    else r.read n = .error .refused := by
  by_cases hn : n ≤ bytes.length
  · rw [if_pos hn]
    have hlength : (bytes.take n).length = n := by
      rw [List.length_take]
      omega
    have hne : bytes.take n ≠ [] := List.length_pos_iff.mp (by omega)
    rw [← List.take_append_drop n bytes, ofBytes_append] at h
    have hread := (decodes_read hne).reads r _ h
    rwa [hlength] at hread
  · rw [if_neg hn]
    have hbits := @read_bits_refused r _ h (n * 8) (by rw [length_ofBytes]; omega) true
    rw [read, hbits, error_bind]

/-- The string at the front of some bytes; one that is longer than they are is empty. -/
def stringAt (bytes : List UInt8) (length : ℕ) : Bytes :=
  if length ≤ bytes.length then bytes.take length else []

theorem read_string_ofBytes {r : BitReader} {bytes : List UInt8} (h : Holds r (ofBytes bytes))
    (length : ℕ) : ∃ r', r.read_string length = .ok (stringAt bytes length, r') := by
  have hremaining := h.remaining
  rw [length_ofBytes] at hremaining
  rw [read_string, stringAt]
  by_cases hnone : length > r.remaining / 8 ∨ length = 0
  · rw [if_pos hnone]
    by_cases hle : length ≤ bytes.length
    · have hzero : length = 0 := hnone.resolve_left (by omega)
      exact ⟨r, by rw [if_pos hle, hzero, List.take_zero]⟩
    · exact ⟨r, by rw [if_neg hle]⟩
  · rw [if_neg hnone, if_pos (by omega)]
    have hlength : (bytes.take length).length = length := by
      rw [List.length_take]
      omega
    have hne : bytes.take length ≠ [] := List.length_pos_iff.mp (by omega)
    rw [← List.take_append_drop length bytes, ofBytes_append] at h
    obtain ⟨r', hr', -⟩ := (decodes_bytes hne true).reads r _ h
    rw [hlength] at hr'
    exact ⟨r', by rw [hr']⟩

end BitReader

open BitReader

theorem name_fields_eq {bytes : List UInt8} (h : bytes.length < 2 ^ 29) :
    name_fields bytes =
      if 3 ≤ bytes.length then
        .ok (UInt16.ofNat (LittleEndian.decode (bytes.take 2)),
          stringAt (bytes.drop 3) (LittleEndian.decode ((bytes.drop 2).take 1)))
      else .error .refused := by
  have hplayer := @read_ofBytes _ _ (holds_ofData h) 2 (by decide)
  rw [name_fields]
  by_cases htwo : 2 ≤ bytes.length
  · rw [if_pos htwo] at hplayer
    obtain ⟨r, hread, hr⟩ := hplayer
    have hlength := @read_ofBytes _ _ hr 1 (by decide)
    rw [hread, ok_bind]
    by_cases hthree : 3 ≤ bytes.length
    · rw [if_pos (by rw [List.length_drop]; omega), List.drop_drop] at hlength
      obtain ⟨r', hread', hr'⟩ := hlength
      obtain ⟨r'', hstring⟩ := read_string_ofBytes hr' (LittleEndian.decode ((bytes.drop 2).take 1))
      simp only [hread', ok_bind, hstring, if_pos hthree]
    · rw [if_neg (by rw [List.length_drop]; omega)] at hlength
      simp only [hlength, error_bind, if_neg hthree]
  · rw [if_neg htwo] at hplayer
    rw [hplayer, error_bind, if_neg (by omega)]

def messageLength (bytes : List UInt8) : ℤ :=
  (Int32.ofNat (LittleEndian.decode ((bytes.drop 4).take 4))).toInt

theorem message_fields_eq {bytes : List UInt8} (h : bytes.length < 2 ^ 29) :
    message_fields bytes =
      if 8 ≤ bytes.length ∧ 0 ≤ messageLength bytes ∧ messageLength bytes ≤ 4096 then
        .ok (stringAt (bytes.drop 8) (messageLength bytes).toNat)
      else .error .refused := by
  have hcolor := @read_ofBytes _ _ (holds_ofData h) 4 (by decide)
  rw [message_fields]
  by_cases hfour : 4 ≤ bytes.length
  · rw [if_pos hfour] at hcolor
    obtain ⟨r, hread, hr⟩ := hcolor
    have hlength := @read_ofBytes _ _ hr 4 (by decide)
    rw [hread, ok_bind]
    by_cases height : 8 ≤ bytes.length
    · rw [if_pos (by rw [List.length_drop]; omega), List.drop_drop] at hlength
      obtain ⟨r', hread', hr'⟩ := hlength
      simp only [hread', ok_bind]
      obtain ⟨r'', hstring⟩ := read_string_ofBytes hr' (messageLength bytes).toNat
      change (if 0 ≤ messageLength bytes ∧ messageLength bytes ≤ 4096 then
        r'.read_string (messageLength bytes).toNat >>= fun p => .ok p.1
        else .error .refused) = _
      rw [hstring, ok_bind]
      by_cases hbounds : 0 ≤ messageLength bytes ∧ messageLength bytes ≤ 4096
      · rw [if_pos hbounds, if_pos ⟨height, hbounds⟩]
      · rw [if_neg hbounds, if_neg fun hall => hbounds hall.2]
    · rw [if_neg (by rw [List.length_drop]; omega)] at hlength
      simp only [hlength, error_bind]
      rw [if_neg fun hall => height hall.1]
  · rw [if_neg hfour] at hcolor
    rw [hcolor, error_bind, if_neg (by omega)]

theorem spectate_fields_eq {bytes : List UInt8} (h : bytes.length < 2 ^ 29) :
    spectate_fields bytes =
      if 3 ≤ bytes.length then .ok (UInt16.ofNat (LittleEndian.decode (bytes.take 2)))
      else .error .refused := by
  have hplayer := @read_ofBytes _ _ (holds_ofData h) 2 (by decide)
  rw [spectate_fields]
  by_cases htwo : 2 ≤ bytes.length
  · rw [if_pos htwo] at hplayer
    obtain ⟨r, hread, hr⟩ := hplayer
    have hcamera := @read_ofBytes _ _ hr 1 (by decide)
    rw [hread, ok_bind]
    by_cases hthree : 3 ≤ bytes.length
    · rw [if_pos (by rw [List.length_drop]; omega)] at hcamera
      obtain ⟨r', hread', -⟩ := hcamera
      simp only [hread', ok_bind, if_pos hthree]
    · rw [if_neg (by rw [List.length_drop]; omega)] at hcamera
      simp only [hcamera, error_bind, if_neg hthree]
  · rw [if_neg htwo] at hplayer
    rw [hplayer, error_bind, if_neg (by omega)]

theorem length_of_read_loop {data : List UInt8} {m : ℕ} {align_right : Bool} (left offset : ℕ) :
    Post (fun _ => True) (read_loop data m align_right left offset) fun out =>
      out.length = (left + 7) / 8 := by
  induction left using Nat.strong_induction_on generalizing offset with
  | _ left ih =>
    rcases Nat.eq_zero_or_pos left with rfl | hpos
    · exact rfl
    rcases Nat.lt_or_ge left 8 with hsmall | hlarge
    · rw [read_loop_small hpos hsmall]
      apply Post.bind
      intro b
      change [_].length = _
      rw [List.length_singleton]
      omega
    · obtain ⟨k, rfl⟩ := Nat.exists_eq_add_of_le' hlarge
      rw [read_loop]
      apply Post.bind
      intro b
      rw [post_bind]
      exact (ih k (by omega) (offset + 8)).mono fun bs hbs => by
        change (b :: bs).length = _
        rw [List.length_cons, hbs]
        omega

/-- The payload that is handed on has the bytes its bits need, and not as many as would overflow a
count of bits. -/
theorem extract_fits {packet : List UInt8} {rpc : RpcPayload}
    (h : extract_rpc_payload packet = .ok rpc) :
    rpc.bytes.length = (rpc.bit_count + 7) / 8 ∧ rpc.bytes.length < 2 ^ 29 := by
  have hpost : Post (fun _ => True) (extract_rpc_payload packet) fun rpc =>
      rpc.bytes.length = (rpc.bit_count + 7) / 8 ∧ rpc.bytes.length < 2 ^ 29 := by
    rw [extract_rpc_payload]
    by_cases hempty : packet.isEmpty
    · rw [if_pos hempty]
      trivial
    rw [if_neg hempty]
    apply Post.bind
    rintro ⟨⟨id, bits⟩, stream⟩
    change Post _ (if bits > stream.remaining then _ else _) _
    by_cases hmore : bits > stream.remaining
    · rw [if_pos hmore]
      trivial
    rw [if_neg hmore]
    by_cases hzero : bits = 0
    · rw [if_pos hzero]
      simp
    rw [if_neg hzero, read_bits, if_neg (by omega), post_bind, post_bind]
    exact (length_of_read_loop bits stream.offset).mono fun bytes hbytes => by
      change Post _ (if bytes.length ≤ (bits + 7) % 2 ^ 32 / 8 then _ else _) _
      by_cases hsize : bytes.length ≤ (bits + 7) % 2 ^ 32 / 8
      · rw [if_pos hsize]
        exact ⟨hbytes, by change bytes.length < 2 ^ 29; omega⟩
      · rw [if_neg hsize]
        trivial
  exact hpost.of_ok h

/-- The logic has the nickname already. -/
def Stores (logic : Logic) (id : Int32) (nickname : Bytes) : Prop :=
  logic.player_names id = some nickname ∧ (id = logic.target_id → logic.target_name = nickname)

theorem on_player_name_eq_self_iff {logic : Logic} {id : Int32} {nickname : Bytes} :
    logic.on_player_name id nickname = logic ↔ Stores logic id nickname := by
  have hupdate : Function.update logic.player_names id (some nickname) = logic.player_names ↔
      logic.player_names id = some nickname := by
    rw [Function.update_eq_self_iff, eq_comm]
  rw [Logic.on_player_name, Stores]
  by_cases htarget : id = logic.target_id
  · rw [if_pos htarget]
    constructor
    · intro h
      have hnames := congrArg Logic.player_names h
      exact ⟨hupdate.mp hnames, fun _ => (congrArg Logic.target_name h).symm⟩
    · rintro ⟨hnames, hname⟩
      rw [hupdate.mpr hnames, ← hname htarget]
  · rw [if_neg htarget]
    constructor
    · intro h
      exact ⟨hupdate.mp (congrArg Logic.player_names h), fun h' => absurd h' htarget⟩
    · rintro ⟨hnames, -⟩
      rw [hupdate.mpr hnames]

/-- A message leaves the plugin as it is when no punishment is pending, or one that is neither
confirmed by it nor too old. -/
theorem on_server_message_eq_self_iff {plugin : Globals} {message : Bytes} {clock : Clock} :
    plugin.on_server_message message clock = plugin ↔
      ∀ pending, plugin.logic.pending = some pending →
        clock.steady - pending.sent_at ≤ Logic.window ∧
          ¬ Logic.confirms_punishment message plugin.logic.admin := by
  rw [Globals.on_server_message, Logic.on_server_message]
  cases hpending : plugin.logic.pending with
  | none => simp
  | some pending =>
    have hcleared : ∀ {plugin' : Globals}, plugin'.logic.pending = none → plugin' ≠ plugin := by
      intro plugin' hnone h
      rw [h, hpending] at hnone
      cases hnone
    by_cases hlate : clock.steady - pending.sent_at > Logic.window
    · constructor
      · intro h
        refine absurd h (hcleared ?_)
        simp only [if_pos hlate]
      · intro h
        exact absurd (h pending rfl).1 (not_le_of_gt hlate)
    · by_cases hconfirms : Logic.confirms_punishment message plugin.logic.admin
      · constructor
        · intro h
          refine absurd h (hcleared ?_)
          simp only [if_neg hlate, hconfirms, not_true_eq_false, if_false]
        · intro h
          exact absurd hconfirms (h pending rfl).2
      · simpa [hlate, hconfirms] using not_lt.mp hlate

theorem on_spectating_player_eq (logic : Logic) (id : Int32) (recording : Bool) :
    logic.on_spectating_player id recording =
      ({ logic with
          target_id := id
          target_name := (logic.player_names id).getD (Utf8.bytes "ID " ++ to_string id)
          spectate_prompt_shown := ¬ recording ∨ logic.spectate_prompt_shown },
        if ¬ recording ∧ ¬ logic.spectate_prompt_shown then .show_start_prompt else .none) := by
  rw [Logic.on_spectating_player]
  by_cases hshow : ¬ recording ∧ ¬ logic.spectate_prompt_shown
  · simp [hshow]
  · rw [if_neg hshow, if_neg hshow]
    cases recording <;> cases hshown : logic.spectate_prompt_shown <;> simp_all

/-- The logic after the nickname of a spectated player is stored, if it has one. -/
def named (logic : Logic) (id : Int32) (nickname : Bytes) : Logic :=
  if nickname.isEmpty then logic else logic.on_player_name id nickname

theorem named_player_names {logic : Logic} {id : Int32} {nickname : Bytes} :
    (named logic id nickname).player_names = logic.player_names ↔
      nickname = [] ∨ logic.player_names id = some nickname := by
  rw [named]
  by_cases hempty : nickname = []
  · simp [hempty]
  · have hnames : (logic.on_player_name id nickname).player_names =
        Function.update logic.player_names id (some nickname) := by
      rw [Logic.on_player_name]
      split_ifs <;> rfl
    rw [if_neg (by simpa using hempty), hnames, Function.update_eq_self_iff, eq_comm,
      or_iff_right hempty]

/-- Apart from the two names everything stays. -/
theorem named_rest (logic : Logic) (id : Int32) (nickname : Bytes) :
    named logic id nickname =
      { logic with
        player_names := (named logic id nickname).player_names
        target_name := (named logic id nickname).target_name } := by
  rw [named, Logic.on_player_name]
  split_ifs <;> rfl

/-- What `on_spectating` makes of the plugin. -/
theorem on_spectating_eq (plugin : Globals) (id : UInt16) (nickname : Bytes) :
    plugin.on_spectating id nickname =
      let player := Int32.ofNat id.toNat
      { plugin with
        logic :=
          { plugin.logic with
            player_names := (named plugin.logic player nickname).player_names
            target_id := player
            target_name := ((named plugin.logic player nickname).player_names player).getD
              (Utf8.bytes "ID " ++ to_string player)
            spectate_prompt_shown := ¬ plugin.recording ∨ plugin.logic.spectate_prompt_shown }
        prompt :=
          if ¬ plugin.recording ∧ ¬ plugin.logic.spectate_prompt_shown then .start
          else plugin.prompt } := by
  dsimp only
  change ({ plugin with
    logic := ((named plugin.logic (Int32.ofNat id.toNat) nickname).on_spectating_player
      (Int32.ofNat id.toNat) plugin.recording).1
    prompt := if ((named plugin.logic (Int32.ofNat id.toNat) nickname).on_spectating_player
      (Int32.ofNat id.toNat) plugin.recording).2 = .show_start_prompt then .start
      else plugin.prompt } : Globals) = _
  generalize Int32.ofNat id.toNat = player
  have hshown : (named plugin.logic player nickname).spectate_prompt_shown =
      plugin.logic.spectate_prompt_shown := by rw [named_rest]
  rw [on_spectating_player_eq, hshown]
  conv_lhs => rw [named_rest]
  split_ifs <;> simp_all

/-- A spectated player leaves the plugin as it is when it is already the target under its name and
no prompt is due. -/
theorem on_spectating_eq_self_iff {plugin : Globals} {id : UInt16} {nickname : Bytes} :
    plugin.on_spectating id nickname = plugin ↔
      (nickname = [] ∨ plugin.logic.player_names (Int32.ofNat id.toNat) = some nickname) ∧
        plugin.logic.target_id = Int32.ofNat id.toNat ∧
        plugin.logic.target_name = (plugin.logic.player_names (Int32.ofNat id.toNat)).getD
          (Utf8.bytes "ID " ++ to_string (Int32.ofNat id.toNat)) ∧
        (plugin.recording ∨ plugin.logic.spectate_prompt_shown) := by
  rw [on_spectating_eq, ← named_player_names]
  generalize Int32.ofNat id.toNat = player
  constructor
  · intro h
    have hlogic := congrArg Globals.logic h
    have hnames := congrArg Logic.player_names hlogic
    have htarget := congrArg Logic.target_name hlogic
    have hprompt := congrArg Logic.spectate_prompt_shown hlogic
    change _ = _ at hnames
    refine ⟨hnames, (congrArg Logic.target_id hlogic).symm, ?_, ?_⟩
    · rw [← hnames]
      exact htarget.symm
    · change decide _ = _ at hprompt
      cases hrecording : plugin.recording
      · rw [hrecording] at hprompt
        exact .inr (by simpa using hprompt.symm)
      · exact .inl rfl
  · rintro ⟨hnames, htarget, hname, hprompt⟩
    have hquiet : ¬ (¬ plugin.recording ∧ ¬ plugin.logic.spectate_prompt_shown) := by tauto
    have hflag : decide (¬ plugin.recording ∨ plugin.logic.spectate_prompt_shown) =
        plugin.logic.spectate_prompt_shown := by
      rcases hprompt with hrecording | hdone
      · simp [hrecording]
      · simp [hdone]
    dsimp only
    rw [if_neg hquiet, hnames, ← hname, ← htarget, hflag]

def nameLength (bytes : List UInt8) : ℕ := LittleEndian.decode ((bytes.drop 2).take 1)

def playerId (bytes : List UInt8) : UInt16 := UInt16.ofNat (LittleEndian.decode (bytes.take 2))

/-- The fields of a call, with a string of the declared length, lie within its bits. A length field
that does not is no matter: the bits before the string are too many already. -/
def Complete (rpc : RpcPayload) : Prop :=
  if rpc.id = 11 then 24 + 8 * nameLength rpc.bytes ≤ rpc.bit_count
  else if rpc.id = 93 then
    0 ≤ messageLength rpc.bytes ∧ 64 + 8 * messageLength rpc.bytes ≤ rpc.bit_count
  else 24 ≤ rpc.bit_count

/-- The call lacks a byte of its fixed fields, or names a message length that is refused, or what
its bytes give, filled up and with a string that they do not hold taken as empty, is no news. -/
def Unaffected (plugin : Globals) (pool : UInt16 → Option Bytes) (clock : Clock)
    (rpc : RpcPayload) : Prop :=
  if rpc.id = 11 then
    rpc.bytes.length < 3 ∨
      Stores plugin.logic (Int32.ofNat (playerId rpc.bytes).toNat)
        (cp1251_to_utf8 (stringAt (rpc.bytes.drop 3) (nameLength rpc.bytes)))
  else if rpc.id = 93 then
    (rpc.bytes.length < 8 ∨ messageLength rpc.bytes < 0 ∨ 4096 < messageLength rpc.bytes) ∨
      ∀ pending, plugin.logic.pending = some pending →
        clock.steady - pending.sent_at ≤ Logic.window ∧
          ¬ Logic.confirms_punishment
            (cp1251_to_utf8 (stringAt (rpc.bytes.drop 8) (messageLength rpc.bytes).toNat))
            plugin.logic.admin
  else
    let id := Int32.ofNat (playerId rpc.bytes).toNat
    let nickname := player_name pool (playerId rpc.bytes)
    rpc.bytes.length < 3 ∨
      (nickname = [] ∨ plugin.logic.player_names id = some nickname) ∧
        plugin.logic.target_id = id ∧
        plugin.logic.target_name =
          (plugin.logic.player_names id).getD (Utf8.bytes "ID " ++ to_string id) ∧
        (plugin.recording ∨ plugin.logic.spectate_prompt_shown)

theorem when_read_eq_self_iff {α : Type} {plugin : Globals} {c : Prop} [Decidable c] {a : α}
    {act : α → Globals} :
    when_read plugin (if c then .ok a else .error .refused) act = .ok plugin ↔
      ¬ c ∨ act a = plugin := by
  by_cases h : c
  · rw [if_pos h, or_iff_right (not_not_intro h)]
    exact ⟨Except.ok.inj, congrArg Except.ok⟩
  · rw [if_neg h]
    exact iff_of_true rfl (.inl h)

theorem process_rpc_eq_self_iff {plugin : Globals} {pool : UInt16 → Option Bytes} {clock : Clock}
    {rpc : RpcPayload} (hid : rpc.id = 11 ∨ rpc.id = 93 ∨ rpc.id = 126)
    (hlength : rpc.bytes.length < 2 ^ 29) :
    process_rpc plugin pool clock rpc.id rpc.bytes = .ok plugin ↔
      Unaffected plugin pool clock rpc := by
  rw [process_rpc, Unaffected]
  by_cases hname : rpc.id = 11
  · rw [if_pos hname, if_pos hname, name_fields_eq hlength, when_read_eq_self_iff, Nat.not_le,
      ← on_player_name_eq_self_iff]
    apply or_congr_right
    constructor
    · exact congrArg Globals.logic
    · intro h
      change { plugin with
        logic := plugin.logic.on_player_name (Int32.ofNat (playerId rpc.bytes).toNat)
          (cp1251_to_utf8 (stringAt (rpc.bytes.drop 3) (nameLength rpc.bytes))) } = plugin
      rw [h]
  rw [if_neg hname, if_neg hname]
  by_cases hmessage : rpc.id = 93
  · rw [if_pos hmessage, if_pos hmessage, message_fields_eq hlength, when_read_eq_self_iff,
      on_server_message_eq_self_iff]
    apply or_congr_left
    omega
  · rw [if_neg hmessage, if_neg hmessage, if_pos ((hid.resolve_left hname).resolve_left hmessage),
      spectate_fields_eq hlength, when_read_eq_self_iff, Nat.not_le]
    exact or_congr_right on_spectating_eq_self_iff

/-- A call whose fields are cut off changes nothing exactly where its bytes bring no news. -/
theorem changesNothing_iff (plugin : Globals) (pool : UInt16 → Option Bytes) (clock : Clock)
    (packet : List UInt8) (rpc : RpcPayload) (hrpc : extract_rpc_payload packet = .ok rpc)
    (hid : rpc.id = 11 ∨ rpc.id = 93 ∨ rpc.id = 126) :
    (¬ Complete rpc → incoming_rpc_hook plugin pool clock packet = .ok plugin) ↔
      Complete rpc ∨ Unaffected plugin pool clock rpc := by
  have hhook : incoming_rpc_hook plugin pool clock packet =
      process_rpc plugin pool clock rpc.id rpc.bytes := by
    rw [incoming_rpc_hook, hrpc]
  rw [hhook, process_rpc_eq_self_iff hid (extract_fits hrpc).2, or_iff_not_imp_left]

/-- Call 11 for player 5 with a nickname of four bytes, of which none came. -/
def cutPacket : List UInt8 := [0, 11, 225, 128, 80, 0, 64]

def cutCall : RpcPayload := ⟨11, [5, 0, 4], 24⟩

theorem extract_cutPacket : extract_rpc_payload cutPacket = .ok cutCall := by
  rfl

def acquainted : Globals where
  logic := { player_names := Function.update (fun _ => none) 5 (some (Utf8.bytes "Kate")) }

theorem changesNothing_cutPacket :
    (¬ Complete cutCall → incoming_rpc_hook acquainted (fun _ => none) ⟨0, 0, []⟩ cutPacket =
      .ok acquainted) ↔
      Complete cutCall ∨ Unaffected acquainted (fun _ => none) ⟨0, 0, []⟩ cutCall :=
  changesNothing_iff acquainted (fun _ => none) ⟨0, 0, []⟩ cutPacket cutCall extract_cutPacket
    (.inl rfl)

/-- The known nickname is replaced by the empty one. -/
theorem not_alwaysChangesNothing :
    ¬ ∀ (plugin : Globals) (pool : UInt16 → Option Bytes) (clock : Clock) (packet : List UInt8)
      (rpc : RpcPayload), extract_rpc_payload packet = .ok rpc →
        rpc.id = 11 ∨ rpc.id = 93 ∨ rpc.id = 126 → ¬ Complete rpc →
          incoming_rpc_hook plugin pool clock packet = .ok plugin := by
  intro h
  have hcut : ¬ Complete cutCall := by
    rw [Complete, if_pos (show cutCall.id = 11 from rfl)]
    decide
  have hhook := h acquainted (fun _ => none) ⟨0, 0, []⟩ cutPacket cutCall extract_cutPacket
    (.inl rfl) hcut
  rw [incoming_rpc_hook, extract_cutPacket] at hhook
  have hnews := (process_rpc_eq_self_iff (.inl rfl) (by decide)).mp hhook
  rw [Unaffected, if_pos (show cutCall.id = 11 from rfl)] at hnews
  exact absurd (hnews.resolve_left (by decide)).1 (by decide +kernel)

end GambitRecord.Plugin
