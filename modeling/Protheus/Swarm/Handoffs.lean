import Protheus.Swarm.Run

/-!
Handoffs and channel messages of `swarm_runtime.rs`, and what they leave behind when they fail.

Both write before they send: a handoff updates the recipient's context and charges it for that, a
channel keeps the message in its log.  Where a send is then refused the command answers with an error
and what was written stays (`handoff_atomic_iff`, `publish_atomic_iff`).
-/

namespace Protheus.Swarm

open Std (ExtTreeMap)
open RustStd (u32Max addUpTo)

structure ChannelMessage where
  messageId : String
  senderSessionId : String
  payload : String
  timestampMs : ℕ
  deriving DecidableEq

/-- The state with the lists that handoffs and channels alone write: the `handoff_ids` of the sessions
and the messages of the channels. -/
structure SwarmBooks where
  swarm : SwarmState
  handoffIds : ExtTreeMap String (List String) := ∅
  channelMessages : ExtTreeMap String (List ChannelMessage) := ∅

namespace SwarmBooks

/-- `handoff_ids.push`, unless the handoff is there already. -/
def addHandoff (books : SwarmBooks) (sessionId handoffId : String) : SwarmBooks :=
  let ids := books.handoffIds[sessionId]?.getD []
  if ids.contains handoffId then books
  else { books with handoffIds := books.handoffIds.insert sessionId (ids ++ [handoffId]) }

def handoffId (host : Host) (senderSessionId recipientSessionId reason : String)
    (importance : Option ℚ) (nowMs : ℕ) : String :=
  "handoff-" ++ shortDigest host (Json.ofFields
    [("sender", .str senderSessionId), ("recipient", .str recipientSessionId),
      ("reason", .str reason), ("importance", (importance.map Json.ofRat).getD .null),
      ("ts", Json.ofNat nowMs)])

/-- The context a handoff passes on: the sender's own where none is given. -/
def handoffContext (sender : SessionMetadata) (contextOverride : Option Json) : Json :=
  contextOverride.getD (.obj sender.contextVars.toList)

/-- `register_handoff`. -/
def registerHandoff (host : Host) (readings : List ℕ) (books : SwarmBooks)
    (senderSessionId recipientSessionId reason : String) (importance : Option ℚ)
    (contextOverride : Option Json) (networkId : Option String) (nowMs : ℕ) :
    Except Stop String × SwarmBooks :=
  match books.swarm.sessions[senderSessionId]? with
  | none => (.error (.error ("unknown_sender_session:" ++ senderSessionId)), books)
  | some sender =>
    if !books.swarm.sessionExists recipientSessionId then
      (.error (.error ("unknown_recipient_session:" ++ recipientSessionId)), books)
    else if !inUnitRange importance then
      (.error (.error ("invalid_importance:" ++ host.display importance)), books)
    else
      match applyContextUpdate host books.swarm recipientSessionId
          (handoffContext sender contextOverride) true with
      | (.error stop, updated) => (.error stop, { books with swarm := updated })
      | (.ok _, updated) =>
        match sendSessionMessage host readings updated senderSessionId recipientSessionId
            (@Script.handoffPayload host senderSessionId recipientSessionId reason importance networkId)
            .atLeastOnce false defaultMessageTtlMs nowMs with
        | (.error stop, sent) => (.error stop, { books with swarm := sent })
        | (.ok _, sent) =>
          let id := handoffId host senderSessionId recipientSessionId reason importance nowMs
          (.ok id, (({ books with swarm := sent } : SwarmBooks).addHandoff senderSessionId id).addHandoff
            recipientSessionId id)

/-- The loop of `publish_channel_message` over the participants. -/
def sendEach (host : Host) (readings : List ℕ) (senderSessionId payload : String)
    (delivery : DeliveryGuarantee) (nowMs : ℕ) :
    SwarmState → List String → Except Stop Unit × SwarmState
  | state, [] => (.ok (), state)
  | state, participant :: rest =>
    match sendSessionMessage host readings state senderSessionId participant payload delivery false
        defaultMessageTtlMs nowMs with
    | (.error stop, sent) => (.error stop, sent)
    | (.ok _, sent) => sendEach host readings senderSessionId payload delivery nowMs sent rest

def channelMessage (host : Host) (channelId senderSessionId payload : String) (nowMs : ℕ) :
    ChannelMessage where
  messageId := "chanmsg-" ++ shortDigest host (Json.ofFields
    [("channel_id", .str channelId), ("sender", .str senderSessionId), ("payload", .str payload),
      ("ts", Json.ofNat nowMs)])
  senderSessionId
  payload
  timestampMs := nowMs

def log (books : SwarmBooks) (channelId : String) : List ChannelMessage :=
  books.channelMessages[channelId]?.getD []

/-- `publish_channel_message`. -/
def publishChannelMessage (host : Host) (readings : List ℕ) (books : SwarmBooks)
    (channelId senderSessionId payload : String) (delivery : DeliveryGuarantee) (nowMs : ℕ) :
    Except Stop String × SwarmBooks :=
  if !(senderSessionId == "coordinator" || books.swarm.sessionExists senderSessionId) then
    (.error (.error ("unknown_sender_session:" ++ senderSessionId)), books)
  else
    match books.swarm.channels[channelId]? with
    | none => (.error (.error ("unknown_channel:" ++ channelId)), books)
    | some participants =>
      let message := channelMessage host channelId senderSessionId payload nowMs
      let (result, sent) := sendEach host readings senderSessionId payload delivery nowMs books.swarm
        (participants.filter (· ≠ senderSessionId))
      (result.map fun _ => message.messageId,
        { books with
          swarm := sent
          channelMessages := books.channelMessages.insert channelId (books.log channelId ++ [message]) })

end SwarmBooks

/-! ## What a failure may not change -/

def SessionMetadata.shown (session : SessionMetadata) :
    ExtTreeMap String Json × Option String × Option BudgetTelemetry :=
  (session.contextVars, session.contextMode, session.budgetTelemetry)

/-- No session's context, budget, mailbox or list of handoffs differs. -/
structure Untouched (books books' : SwarmBooks) : Prop where
  sessions : ∀ id : String, books'.swarm.sessions[id]?.map SessionMetadata.shown =
    books.swarm.sessions[id]?.map SessionMetadata.shown
  mailboxes : books'.swarm.mailboxes = books.swarm.mailboxes
  handoffs : books'.handoffIds = books.handoffIds

/-- A handoff that answers with an error changed nothing. -/
def HandoffAtomic (host : Host) (readings : List ℕ) (books : SwarmBooks)
    (senderSessionId recipientSessionId reason : String) (importance : Option ℚ)
    (contextOverride : Option Json) (networkId : Option String) (nowMs : ℕ) : Prop :=
  let answer := books.registerHandoff host readings senderSessionId recipientSessionId reason importance
    contextOverride networkId nowMs
  ∀ text, answer.1 = .error (.error text) → Untouched books answer.2

/-- A channel message that answers with an error changed neither the channel's log nor the mailbox of a
participant. -/
def PublishAtomic (host : Host) (readings : List ℕ) (books : SwarmBooks)
    (channelId senderSessionId payload : String) (delivery : DeliveryGuarantee) (nowMs : ℕ) : Prop :=
  let answer := books.publishChannelMessage host readings channelId senderSessionId payload delivery nowMs
  ∀ text, answer.1 = .error (.error text) →
    answer.2.log channelId = books.log channelId ∧
      ∀ participant ∈ books.swarm.channels[channelId]?.getD [],
        answer.2.swarm.mailboxes[participant]? = books.swarm.mailboxes[participant]?

/-! ## Updates that change nothing -/

/-- Recording the request leaves the budget as it is: it is exhausted already, and nothing more can be
noted. -/
def BudgetTelemetry.Idle (t : BudgetTelemetry) (requestedTokens : ℕ) : Prop :=
  t.budgetConfig.maxTokens < addUpTo u32Max t.finalUsage requestedTokens ∧ t.budgetExhausted = true ∧
    match t.budgetConfig.exhaustionAction with
    | .failHard => True
    | .allowWithWarning => t.budgetConfig.maxTokens ≤ t.finalUsage
    | .triggerCompaction => t.compactionTriggered = true ∧
        min (compactedRequest requestedTokens) (t.budgetConfig.maxTokens - t.finalUsage) = 0

namespace BudgetTelemetry

variable (t : BudgetTelemetry) (tool : String) {n : ℕ}

theorem length_pushUsage (hn : 0 < n) :
    (t.pushUsage tool n).usageOverTime.length = t.usageOverTime.length + 1 := by
  rw [pushUsage, if_neg (by omega)]
  simp

/-- Usage is noted in a budget that agrees with another on what is noted. -/
theorem pushUsage_eq_iff {t t' : BudgetTelemetry} (h : t'.usageOverTime = t.usageOverTime) (n : ℕ) :
    t'.pushUsage tool n = t ↔ n = 0 ∧ t' = t := by
  by_cases hn : n = 0
  · rw [pushUsage, if_pos hn]
    simp [hn]
  · refine iff_of_false (fun heq => ?_) fun hboth => hn hboth.1
    have hlength := t'.length_pushUsage tool (Nat.pos_of_ne_zero hn)
    rw [heq, h] at hlength
    omega

/-- **What recording a request leaves as it is.** -/
theorem recordToolUsage_eq_self_iff (hn : 0 < n) : (t.recordToolUsage tool n).1 = t ↔ t.Idle n := by
  have hexhausted : ({ t with budgetExhausted := true } : BudgetTelemetry) = t ↔
      t.budgetExhausted = true :=
    ⟨fun h => (congrArg BudgetTelemetry.budgetExhausted h).symm, fun h => by rw [← h]⟩
  unfold recordToolUsage Idle
  simp only [gt_iff_lt]
  by_cases hover : t.budgetConfig.maxTokens < addUpTo u32Max t.finalUsage n
  · rw [if_pos hover]
    cases t.budgetConfig.exhaustionAction with
    | failHard => simpa [hover] using hexhausted
    | allowWithWarning =>
      have hpush := @pushUsage_eq_iff tool t { t with budgetExhausted := true } rfl
        (t.budgetConfig.maxTokens - t.finalUsage)
      rw [hexhausted] at hpush
      simpa [hover, Nat.sub_eq_zero_iff_le, and_comm] using hpush
    | triggerCompaction =>
      have hboth : ({ t with budgetExhausted := true, compactionTriggered := true } :
          BudgetTelemetry) = t ↔ t.budgetExhausted = true ∧ t.compactionTriggered = true := by
        constructor
        · intro h
          exact ⟨(congrArg BudgetTelemetry.budgetExhausted h).symm,
            (congrArg BudgetTelemetry.compactionTriggered h).symm⟩
        · rintro ⟨hexhausted, hcompacted⟩
          cases t
          cases hexhausted
          cases hcompacted
          rfl
      have hpush := @pushUsage_eq_iff tool t
        { t with budgetExhausted := true, compactionTriggered := true } rfl
        (min (compactedRequest n) (t.budgetConfig.maxTokens - t.finalUsage))
      rw [hboth] at hpush
      refine hpush.trans ?_
      tauto
  · rw [if_neg hover]
    refine iff_of_false (fun h => ?_) fun h => hover h.1
    have hlength := t.length_pushUsage tool hn
    split at h
    · have h := congrArg (fun t => t.usageOverTime.length) h
      dsimp only at h
      omega
    · have h := congrArg (fun t => t.usageOverTime.length) h
      dsimp only at h
      omega

end BudgetTelemetry

/-! ## Context updates -/

section Context

variable (host : Host) (session : SessionMetadata) (context : Json)

/-- The tokens a context asks for. -/
def updateTokens : ℕ := contextTokens host (effectiveContext host session context).1

/-- What an update puts into the context of a session: the last of the values under a key. -/
def contextEntries : List (String × Json) :=
  (normalizeContextMap (effectiveContext host session context).1).map fun entry =>
    (cleanText entry.1 64, entry.2)

def DeniesContext : Prop :=
  ∃ t, session.budgetTelemetry = some t ∧ t.Denies (updateTokens host session context)

def BudgetIdle : Prop :=
  ∀ t, session.budgetTelemetry = some t → t.Idle (updateTokens host session context)

/-- What the update would put into the context stands there already. -/
def Standing : Prop :=
  (∀ key value, (contextEntries host session context).reverse.lookup key = some value →
    session.contextVars[key]? = some value) ∧
  session.contextMode =
    some (if (effectiveContext host session context).2 then "context_compacted" else "full")

variable {host session context}

theorem getElem?_foldl_insert (entries : List (String × Json)) (key : String) :
    ∀ vars : ExtTreeMap String Json,
      (entries.foldl (fun vars entry => vars.insert entry.1 entry.2) vars)[key]? =
        (entries.reverse.lookup key).or vars[key]? := by
  induction entries with
  | nil => simp
  | cons entry rest ih =>
    intro vars
    rw [List.foldl_cons, ih, List.reverse_cons, List.lookup_append, Option.or_assoc,
      ExtTreeMap.getElem?_insert, List.lookup_cons, List.lookup_nil]
    congr 1
    by_cases hkey : key = entry.1
    · rw [if_pos (by simp [hkey]), beq_iff_eq.mpr hkey]
      rfl
    · rw [if_neg (by simp [Ne.symm hkey]), beq_eq_false_iff_ne.mpr hkey]
      rfl

theorem updateTokens_pos : 0 < updateTokens host session context := by
  rw [updateTokens, contextTokens]
  omega

/-- The session after an update that is applied. -/
structure Applied (host : Host) (session updated : SessionMetadata) (context : Json) : Prop where
  allowed : ¬DeniesContext host session context
  vars : updated.contextVars = (contextEntries host session context).foldl
    (fun vars entry => vars.insert entry.1 entry.2) session.contextVars
  mode : updated.contextMode =
    some (if (effectiveContext host session context).2 then "context_compacted" else "full")

/-- The session after an update that its budget denies. -/
structure Denied (host : Host) (session updated : SessionMetadata) (context : Json) : Prop where
  denied : DeniesContext host session context
  vars : updated.contextVars = session.contextVars
  mode : updated.contextMode = session.contextMode

/-- The budget after an update. -/
def Charges (host : Host) (session updated : SessionMetadata) (context : Json) : Prop :=
  updated.budgetTelemetry = session.budgetTelemetry.map fun t =>
    (t.recordToolUsage "context_propagation" (updateTokens host session context)).1

theorem putContext_applied (hallowed : ¬DeniesContext host session context) {charged : SessionMetadata}
    (hvars : charged.contextVars = session.contextVars) :
    Applied host session (charged.putContext (effectiveContext host session context).1
      (effectiveContext host session context).2 true) context where
  allowed := hallowed
  vars := by
    rw [contextEntries, List.foldl_map, ← hvars]
    rfl
  mode := rfl

/-- **What a context update does**: the budget is charged and the context updated, unless it is denied. -/
theorem contextUpdate_cases (host : Host) (session : SessionMetadata) (context : Json) :
    ∃ updated,
      ((∃ text, contextUpdate host session context true = (.error text, updated) ∧
          Denied host session updated context) ∨
        contextUpdate host session context true = (.ok (), updated) ∧
          Applied host session updated context) ∧
      Charges host session updated context ∧ updated.parentId = session.parentId := by
  unfold contextUpdate
  dsimp only
  cases ht : session.budgetTelemetry with
  | none =>
    have hallowed : ¬DeniesContext host session context := by
      rintro ⟨t, hsome, -⟩
      rw [ht] at hsome
      cases hsome
    refine ⟨_, .inr ⟨rfl, putContext_applied hallowed rfl⟩, ?_, rfl⟩
    rw [Charges, ht]
    exact ht
  | some t =>
    have hdenied := t.recordToolUsage_isDenied "context_propagation" (updateTokens host session context)
    have hcharges {updated : SessionMetadata} (h : updated.budgetTelemetry =
        some (t.recordToolUsage "context_propagation" (updateTokens host session context)).1) :
        Charges host session updated context := by
      rw [Charges, ht, h]
      rfl
    have hdenies : DeniesContext host session context ↔ t.Denies (updateTokens host session context) := by
      rw [DeniesContext, ht]
      exact ⟨fun ⟨_, hsame, h⟩ => Option.some.inj hsame ▸ h, fun h => ⟨t, rfl, h⟩⟩
    rw [← hdenies] at hdenied
    dsimp only
    cases hrecord : t.recordToolUsage "context_propagation"
      (contextTokens host (effectiveContext host session context).1) with
    | mk t' outcome =>
      have hrecord' : t.recordToolUsage "context_propagation" (updateTokens host session context) =
          (t', outcome) := hrecord
      rw [hrecord'] at hdenied hcharges
      cases outcome with
      | exceededDenied reason =>
        exact ⟨_, .inl ⟨reason, rfl, hdenied.mp rfl, rfl, rfl⟩, hcharges rfl, rfl⟩
      | _ =>
        have hallowed : ¬DeniesContext host session context :=
          fun h => Bool.false_ne_true (hdenied.mpr h)
        exact ⟨_, .inr ⟨rfl, putContext_applied hallowed rfl⟩, hcharges rfl, rfl⟩

/-- The budget a charge leaves as it was. -/
theorem Charges.eq_iff {updated : SessionMetadata} (h : Charges host session updated context) :
    updated.budgetTelemetry = session.budgetTelemetry ↔ BudgetIdle host session context := by
  rw [h, BudgetIdle]
  cases session.budgetTelemetry with
  | none => simp
  | some t =>
    simp only [Option.map_some, Option.some.injEq, forall_eq']
    exact t.recordToolUsage_eq_self_iff "context_propagation" updateTokens_pos

theorem Denied.shown_eq_iff {updated : SessionMetadata} (h : Denied host session updated context)
    (hcharges : Charges host session updated context) :
    updated.shown = session.shown ↔ BudgetIdle host session context := by
  rw [SessionMetadata.shown, SessionMetadata.shown, h.vars, h.mode, ← hcharges.eq_iff]
  simp

theorem Applied.shown_eq_iff {updated : SessionMetadata} (h : Applied host session updated context)
    (hcharges : Charges host session updated context) :
    updated.shown = session.shown ↔ BudgetIdle host session context ∧ Standing host session context := by
  have hvars : updated.contextVars = session.contextVars ↔
      ∀ key value, (contextEntries host session context).reverse.lookup key = some value →
        session.contextVars[key]? = some value := by
    rw [h.vars]
    constructor
    · intro hsame key value hentry
      have hget := getElem?_foldl_insert (contextEntries host session context) key session.contextVars
      rwa [hsame, hentry, Option.some_or] at hget
    · intro hstands
      refine ExtTreeMap.ext_getElem? fun key => ?_
      rw [getElem?_foldl_insert]
      cases hentry : (contextEntries host session context).reverse.lookup key with
      | none => rw [Option.none_or]
      | some value => rw [Option.some_or, hstands key value hentry]
  rw [SessionMetadata.shown, SessionMetadata.shown, Prod.mk.injEq, Prod.mk.injEq, hvars, h.mode,
    hcharges.eq_iff, Standing]
  tauto

end Context

/-! ## Sends -/

section Sends

variable {host : Host} {readings : List ℕ} {state state' : SwarmState}
  {senderSessionId recipientSessionId payload : String} {delivery : DeliveryGuarantee}
  {simulate : Bool} {ttlMs nowMs : ℕ}

/-- A send is refused: by the checks on its two sessions, or, where nothing is guaranteed, because the
recipient is out of reach and its mailbox not full. -/
def Refuses (state : SwarmState) (senderSessionId recipientSessionId : String)
    (delivery : DeliveryGuarantee) : Prop :=
  sendCheck state senderSessionId recipientSessionId ≠ .ok () ∨
    delivery = .atMostOnce ∧
      (state.sessions[recipientSessionId]?.map (·.reachable)).getD false = false ∧
      (state.mailboxes[recipientSessionId]?.map (·.unread.length)).getD 0 < maxMailboxUnread

theorem sendCheck_congr (h : ∀ id : String, state'.sessions[id]?.map SessionMetadata.parentId =
    state.sessions[id]?.map SessionMetadata.parentId) (senderSessionId recipientSessionId : String) :
    sendCheck state' senderSessionId recipientSessionId =
      sendCheck state senderSessionId recipientSessionId := by
  have hexists (id : String) : state'.sessionExists id = state.sessionExists id := by
    have hsome := congrArg Option.isSome (h id)
    rw [Option.isSome_map, Option.isSome_map] at hsome
    rw [SwarmState.sessionExists, SwarmState.sessionExists, ExtTreeMap.contains_eq_isSome_getElem?,
      ExtTreeMap.contains_eq_isSome_getElem?, hsome]
  have hallowed : isSiblingOrChildAllowed state' senderSessionId recipientSessionId =
      isSiblingOrChildAllowed state senderSessionId recipientSessionId := by
    have hsender := h senderSessionId
    have hrecipient := h recipientSessionId
    rw [isSiblingOrChildAllowed, isSiblingOrChildAllowed]
    cases hs : state.sessions[senderSessionId]? <;> cases hs' : state'.sessions[senderSessionId]? <;>
      cases hr : state.sessions[recipientSessionId]? <;> cases hr' : state'.sessions[recipientSessionId]? <;>
        simp_all
  rw [sendCheck, sendCheck, hexists, hexists, hallowed]

inductive SendCase (state : SwarmState) (senderSessionId recipientSessionId : String)
    (delivery : DeliveryGuarantee) : Except Stop SendReceipt × SwarmState → Prop where
  | checked (text : String) (h : sendCheck state senderSessionId recipientSessionId = .error text) :
      SendCase state senderSessionId recipientSessionId delivery (.error (.error text), state)
  | unending (h : sendCheck state senderSessionId recipientSessionId = .ok ()) :
      SendCase state senderSessionId recipientSessionId delivery (.error .unending, state)
  | unreachable (text : String) (message : AgentMessage)
      (h : sendCheck state senderSessionId recipientSessionId = .ok ())
      (hguarantee : delivery = .atMostOnce)
      (hreach : (state.sessions[recipientSessionId]?.map (·.reachable)).getD false = false)
      (hroom : (state.mailboxes[recipientSessionId]?.map (·.unread.length)).getD 0 < maxMailboxUnread) :
      SendCase state senderSessionId recipientSessionId delivery
        (.error (.error text), appendDeadLetter state message "recipient_unreachable" true)
  | sent (receipt : SendReceipt) (sent : SwarmState)
      (h : ¬Refuses state senderSessionId recipientSessionId delivery)
      (hsessions : sent.sessions = state.sessions)
      (hmailboxes : delivery ≠ .atMostOnce ∨
        (state.sessions[recipientSessionId]?.map (·.reachable)).getD false = true ∨
          sent.mailboxes = state.mailboxes)
      (hothers : ∀ id, id ≠ recipientSessionId → sent.mailboxes[id]? = state.mailboxes[id]?) :
      SendCase state senderSessionId recipientSessionId delivery (.ok receipt, sent)

theorem place_cases {message : AgentMessage}
    (hcheck : sendCheck state senderSessionId recipientSessionId = .ok ())
    (hrecipient : message.recipientSessionId = recipientSessionId)
    (hdelivery : message.delivery = delivery)
    (hdeferred : message.deferred =
      !(state.sessions[recipientSessionId]?.map (·.reachable)).getD false) :
    SendCase state senderSessionId recipientSessionId delivery (placeMessage state message) := by
  subst hrecipient hdelivery
  unfold placeMessage
  dsimp only
  split
  · rename_i hfull
    have hsessions := sameSessions_appendDeadLetter state message "mailbox_backpressure" true
    have hmailboxes : (appendDeadLetter state message "mailbox_backpressure" true).mailboxes =
        state.mailboxes := by
      simp only [appendDeadLetter]
    refine .sent _ _ ?_ hsessions.sessions (.inr (.inr hmailboxes)) fun id _ => by rw [hmailboxes]
    rintro (hnot | ⟨-, -, hroom⟩)
    · exact hnot hcheck
    · omega
  · rename_i hroom
    split
    · rename_i hrefused
      rw [Bool.and_eq_true, beq_iff_eq, hdeferred, Bool.not_eq_true'] at hrefused
      exact .unreachable _ _ hcheck hrefused.2 hrefused.1 (by omega)
    · rename_i hkept
      rw [Bool.and_eq_true, beq_iff_eq, hdeferred, Bool.not_eq_true', not_and'] at hkept
      have hsessions := sameSessions_recordDedupe (pushUnread state message.recipientSessionId message)
        message
      have hmailboxes : (recordDedupe (pushUnread state message.recipientSessionId message)
          message).mailboxes = (pushUnread state message.recipientSessionId message).mailboxes := by
        unfold recordDedupe
        split <;> rfl
      refine .sent _ _ ?_ hsessions.sessions ?_ fun id hid => ?_
      · rintro (hnot | ⟨hguarantee, hreach, -⟩)
        · exact hnot hcheck
        · exact hkept hguarantee hreach
      · by_cases hguarantee : message.delivery = .atMostOnce
        · exact .inr (.inl (Bool.eq_true_of_not_eq_false (hkept hguarantee)))
        · exact .inl hguarantee
      · rw [hmailboxes, pushUnread, ExtTreeMap.getElem?_insert, if_neg (by simpa using hid.symm)]

theorem send_cases (host : Host) (readings : List ℕ) (state : SwarmState)
    (senderSessionId recipientSessionId payload : String) (delivery : DeliveryGuarantee)
    (simulate : Bool) (ttlMs nowMs : ℕ) :
    SendCase state senderSessionId recipientSessionId delivery
      (sendSessionMessage host readings state senderSessionId recipientSessionId payload delivery
        simulate ttlMs nowMs) := by
  unfold sendSessionMessage
  split
  · rename_i text hcheck
    exact .checked text hcheck
  · rename_i hcheck
    have hallowed (h : delivery = .atMostOnce →
        (state.sessions[recipientSessionId]?.map (·.reachable)).getD false = false →
          maxMailboxUnread ≤ (state.mailboxes[recipientSessionId]?.map (·.unread.length)).getD 0) :
        ¬Refuses state senderSessionId recipientSessionId delivery := by
      rintro (hnot | ⟨hguarantee, hreach, hroom⟩)
      · exact hnot hcheck
      · exact absurd (h hguarantee hreach) (Nat.not_le.mpr hroom)
    split
    · rename_i existing hdedupe
      have hexactly : delivery = .exactlyOnce := by
        unfold dedupeLookup at hdedupe
        split at hdedupe
        · assumption
        · cases hdedupe
      refine .sent _ _ (hallowed fun h => ?_) rfl (.inr (.inr rfl)) fun _ _ => rfl
      rw [hexactly] at h
      cases h
    · split
      · exact .unending hcheck
      · rename_i messageId hid
        exact place_cases hcheck rfl rfl rfl

/-- A send that succeeds changes no other refusal. -/
theorem refuses_sent {sent : SwarmState} (hsessions : sent.sessions = state.sessions)
    (hmailboxes : delivery ≠ .atMostOnce ∨
      (state.sessions[recipientSessionId]?.map (·.reachable)).getD false = true ∨
        sent.mailboxes = state.mailboxes)
    (hothers : ∀ id, id ≠ recipientSessionId → sent.mailboxes[id]? = state.mailboxes[id]?)
    (other : String) :
    Refuses sent senderSessionId other delivery ↔ Refuses state senderSessionId other delivery := by
  have hcheck := @sendCheck_congr state sent (fun id => by rw [hsessions]) senderSessionId other
  rw [Refuses, Refuses, hcheck, hsessions]
  refine or_congr_right (and_congr_right fun hguarantee => and_congr_right fun hreach => ?_)
  have hsame : sent.mailboxes[other]? = state.mailboxes[other]? := by
    by_cases hother : other = recipientSessionId
    · subst hother
      obtain hnot | hreachable | hsame := hmailboxes
      · exact absurd hguarantee hnot
      · rw [hreach] at hreachable
        cases hreachable
      · rw [hsame]
    · exact hothers other hother
  rw [hsame]

/-- **Sends in a row fail** exactly where one of them is refused. -/
theorem sendEach_cases (host : Host) (readings : List ℕ) (senderSessionId payload : String)
    (delivery : DeliveryGuarantee) (nowMs : ℕ) (participants : List String) : ∀ state : SwarmState,
    let answer := SwarmBooks.sendEach host readings senderSessionId payload delivery nowMs state
      participants
    ((∃ text, answer.1 = .error (.error text)) ∧
        ∃ p ∈ participants, Refuses state senderSessionId p delivery) ∨
      answer.1 = .error .unending ∨
      answer.1 = .ok () ∧ ∀ p ∈ participants, ¬Refuses state senderSessionId p delivery := by
  induction participants with
  | nil => exact fun _ => .inr (.inr ⟨rfl, by simp⟩)
  | cons participant rest ih =>
    intro state
    dsimp only
    rw [SwarmBooks.sendEach]
    have hcases := send_cases host readings state senderSessionId participant payload delivery false
      defaultMessageTtlMs nowMs
    generalize sendSessionMessage host readings state senderSessionId participant payload delivery false
      defaultMessageTtlMs nowMs = answer at hcases ⊢
    cases hcases with
    | checked text hcheck =>
      refine .inl ⟨⟨text, rfl⟩, participant, List.mem_cons_self, .inl fun hok => ?_⟩
      rw [hcheck] at hok
      cases hok
    | unending => exact .inr (.inl rfl)
    | unreachable text message hcheck hguarantee hreach hroom =>
      exact .inl ⟨⟨text, rfl⟩, participant, List.mem_cons_self, .inr ⟨hguarantee, hreach, hroom⟩⟩
    | sent receipt sent hnot hsessions hmailboxes hothers =>
      have hrefuses (p : String) : Refuses sent senderSessionId p delivery ↔
          Refuses state senderSessionId p delivery := refuses_sent hsessions hmailboxes hothers p
      obtain ⟨htext, p, hp, hrefused⟩ | hunending | ⟨hok, hall⟩ := ih sent
      · exact .inl ⟨htext, p, List.mem_cons_of_mem participant hp, (hrefuses p).mp hrefused⟩
      · exact .inr (.inl hunending)
      · refine .inr (.inr ⟨hok, ?_⟩)
        rw [List.forall_mem_cons]
        exact ⟨hnot, fun p hp => mt (hrefuses p).mpr (hall p hp)⟩

end Sends

/-! ## Atomicity -/

/-- A handoff fails without a trace, if it fails past its checks: where the recipient's budget denies the
context it is exhausted already, and where it does not the send's checks hold, or the update changes
nothing. -/
def HandoffClear (host : Host) (books : SwarmBooks) (senderSessionId recipientSessionId : String)
    (importance : Option ℚ) (contextOverride : Option Json) : Prop :=
  ∀ sender recipient, books.swarm.sessions[senderSessionId]? = some sender →
    books.swarm.sessions[recipientSessionId]? = some recipient → inUnitRange importance = true →
    let context := SwarmBooks.handoffContext sender contextOverride
    (DeniesContext host recipient context → BudgetIdle host recipient context) ∧
    (¬DeniesContext host recipient context →
      sendCheck books.swarm senderSessionId recipientSessionId = .ok () ∨
        BudgetIdle host recipient context ∧ Standing host recipient context)

/-- No participant's message is refused, where the message gets as far as the participants. -/
def PublishClear (books : SwarmBooks) (channelId senderSessionId : String)
    (delivery : DeliveryGuarantee) : Prop :=
  (senderSessionId == "coordinator" || books.swarm.sessionExists senderSessionId) = true →
    ∀ participant ∈ books.swarm.channels[channelId]?.getD [], participant ≠ senderSessionId →
      ¬Refuses books.swarm senderSessionId participant delivery

section Atomicity

variable (host : Host) (readings : List ℕ) (books : SwarmBooks)

theorem Untouched.refl : Untouched books books := ⟨fun _ => rfl, rfl, rfl⟩

variable {books}

theorem untouched_insertSession_iff {id : String} {session updated : SessionMetadata}
    (hsession : books.swarm.sessions[id]? = some session) :
    Untouched books { books with swarm := books.swarm.insertSession id updated } ↔
      updated.shown = session.shown := by
  constructor
  · intro h
    have hid := h.sessions id
    rw [SwarmState.getElem?_insertSession, if_pos rfl, hsession] at hid
    exact Option.some.inj hid
  · intro h
    refine ⟨fun x => ?_, rfl, rfl⟩
    rw [SwarmState.getElem?_insertSession]
    split
    · rename_i hx
      rw [hx, hsession, Option.map_some, Option.map_some, h]
    · rfl

/-- The part of a handoff past its checks: the update and the send. -/
theorem atomic_past_checks {senderSessionId recipientSessionId : String} {recipient : SessionMetadata}
    (hrecipient : books.swarm.sessions[recipientSessionId]? = some recipient) (context : Json)
    (payload : String) (nowMs : ℕ) (done : SwarmState → Except Stop String × SwarmBooks)
    (hdone : ∀ sent, ∃ id, (done sent).1 = .ok id) :
    let answer : Except Stop String × SwarmBooks :=
      match applyContextUpdate host books.swarm recipientSessionId context true with
      | (.error stop, updated) => (.error stop, { books with swarm := updated })
      | (.ok _, updated) =>
        match sendSessionMessage host readings updated senderSessionId recipientSessionId payload
            .atLeastOnce false defaultMessageTtlMs nowMs with
        | (.error stop, sent) => (.error stop, { books with swarm := sent })
        | (.ok _, sent) => done sent
    (∀ text, answer.1 = .error (.error text) → Untouched books answer.2) ↔
      (DeniesContext host recipient context → BudgetIdle host recipient context) ∧
      (¬DeniesContext host recipient context →
        sendCheck books.swarm senderSessionId recipientSessionId = .ok () ∨
          BudgetIdle host recipient context ∧ Standing host recipient context) := by
  obtain ⟨updated, hcases, hcharges, hparent⟩ := contextUpdate_cases host recipient context
  rw [applyContextUpdate, hrecipient]
  dsimp only
  have huntouched := @untouched_insertSession_iff books recipientSessionId recipient updated hrecipient
  have herror (text : String) (books' : SwarmBooks) :
      (∀ text', (Except.error (Stop.error text) : Except Stop String) = .error (.error text') →
        Untouched books books') ↔ Untouched books books' :=
    ⟨fun h => h text rfl, fun h _ _ => h⟩
  obtain ⟨text, hupdate, hdenied⟩ | ⟨hupdate, happlied⟩ := hcases
  · rw [hupdate, herror, huntouched, hdenied.shown_eq_iff hcharges]
    simp [hdenied.denied]
  · rw [hupdate]
    dsimp only
    have hcheck := @sendCheck_congr books.swarm (books.swarm.insertSession recipientSessionId updated)
      (fun id => by
        rw [SwarmState.getElem?_insertSession]
        split
        · rename_i hid
          rw [hid, hrecipient, Option.map_some, Option.map_some, hparent]
        · rfl) senderSessionId recipientSessionId
    have hsend := send_cases host readings (books.swarm.insertSession recipientSessionId updated)
      senderSessionId recipientSessionId payload .atLeastOnce false defaultMessageTtlMs nowMs
    generalize sendSessionMessage host readings (books.swarm.insertSession recipientSessionId updated)
      senderSessionId recipientSessionId payload .atLeastOnce false defaultMessageTtlMs nowMs = answer
      at hsend ⊢
    have hallowed := happlied.allowed
    cases hsend with
    | checked text h =>
      rw [hcheck] at h
      rw [herror, huntouched, happlied.shown_eq_iff hcharges]
      simp [hallowed, h]
    | unending h =>
      rw [hcheck] at h
      exact iff_of_true (fun text heq => by cases heq) ⟨fun hdenies => absurd hdenies hallowed,
        fun _ => .inl h⟩
    | unreachable text message h hguarantee => cases hguarantee
    | sent receipt sent h =>
      have hok : sendCheck books.swarm senderSessionId recipientSessionId = .ok () := by
        rw [← hcheck]
        exact not_not.mp (not_or.mp h).1
      obtain ⟨id, hid⟩ := hdone sent
      refine iff_of_true (fun text heq => ?_) ⟨fun hdenies => absurd hdenies hallowed, fun _ => .inl hok⟩
      dsimp only at heq
      rw [hid] at heq
      cases heq

variable (books)

/-- **Where a handoff is all or nothing.** -/
theorem handoff_atomic_iff (senderSessionId recipientSessionId reason : String) (importance : Option ℚ)
    (contextOverride : Option Json) (networkId : Option String) (nowMs : ℕ) :
    HandoffAtomic host readings books senderSessionId recipientSessionId reason importance
        contextOverride networkId nowMs ↔
      HandoffClear host books senderSessionId recipientSessionId importance contextOverride := by
  unfold HandoffAtomic HandoffClear SwarmBooks.registerHandoff
  dsimp only
  cases hsender : books.swarm.sessions[senderSessionId]? with
  | none => exact iff_of_true (fun _ _ => .refl books) (by simp)
  | some sender =>
    dsimp only
    cases hrecipient : books.swarm.sessions[recipientSessionId]? with
    | none =>
      have hmissing : books.swarm.sessionExists recipientSessionId = false := by
        rw [SwarmState.sessionExists, ExtTreeMap.contains_eq_isSome_getElem?, hrecipient]
        rfl
      rw [hmissing, Bool.not_false, if_pos rfl]
      exact iff_of_true (fun _ _ => .refl books) (by simp)
    | some recipient =>
      have hthere : books.swarm.sessionExists recipientSessionId = true := by
        rw [SwarmState.sessionExists, ExtTreeMap.contains_eq_isSome_getElem?, hrecipient]
        rfl
      rw [hthere, Bool.not_true, if_neg Bool.false_ne_true]
      by_cases himportance : inUnitRange importance = true
      · rw [himportance, Bool.not_true, if_neg Bool.false_ne_true]
        refine (atomic_past_checks host readings hrecipient _ _ nowMs _ fun sent => ⟨_, rfl⟩).trans ?_
        constructor
        · intro h sender' recipient' hsame hsame' _
          cases hsame
          cases hsame'
          exact h
        · exact fun h => h sender recipient rfl rfl rfl
      · rw [Bool.eq_false_of_not_eq_true himportance, Bool.not_false, if_pos rfl]
        exact iff_of_true (fun _ _ => .refl books) (by simp)

/-- **Where a channel message is all or nothing**: it is where no participant's message is refused, and
nowhere else among the calls that return. -/
theorem publish_atomic_iff (channelId senderSessionId payload : String) (delivery : DeliveryGuarantee)
    (nowMs : ℕ)
    (hreturns : (books.publishChannelMessage host readings channelId senderSessionId payload delivery
      nowMs).1 ≠ .error .unending) :
    PublishAtomic host readings books channelId senderSessionId payload delivery nowMs ↔
      PublishClear books channelId senderSessionId delivery := by
  unfold PublishAtomic PublishClear
  unfold SwarmBooks.publishChannelMessage at hreturns ⊢
  dsimp only at hreturns ⊢
  split
  · rename_i hsender
    rw [Bool.not_eq_true'] at hsender
    refine iff_of_true (fun _ _ => ⟨rfl, fun _ _ => rfl⟩) fun h => ?_
    rw [hsender] at h
    cases h
  · rename_i hsender
    rw [if_neg hsender] at hreturns
    rw [Bool.not_eq_true', Bool.not_eq_false] at hsender
    cases hchannel : books.swarm.channels[channelId]? with
    | none => exact iff_of_true (fun _ _ => ⟨rfl, fun _ _ => rfl⟩) (by simp)
    | some participants =>
      rw [hchannel] at hreturns
      dsimp only at hreturns ⊢
      have hcases := sendEach_cases host readings senderSessionId payload delivery nowMs
        (participants.filter (· ≠ senderSessionId)) books.swarm
      dsimp only at hcases
      generalize SwarmBooks.sendEach host readings senderSessionId payload delivery nowMs books.swarm
        (participants.filter (· ≠ senderSessionId)) = answer at hcases hreturns ⊢
      have hmem (p : String) : p ∈ participants.filter (· ≠ senderSessionId) ↔
          p ∈ participants ∧ p ≠ senderSessionId := by simp
      obtain ⟨⟨text, htext⟩, p, hp, hrefused⟩ | hunending | ⟨hok, hall⟩ := hcases
      · refine iff_of_false (fun hatomic => ?_) fun hclear => ?_
        · have hlog := (hatomic text (by rw [htext]; rfl)).1
          have hlength := congrArg List.length hlog
          simp [SwarmBooks.log] at hlength
        · exact hclear hsender p ((hmem p).mp hp).1 ((hmem p).mp hp).2 hrefused
      · refine absurd ?_ hreturns
        rw [hunending]
        rfl
      · refine iff_of_true (fun text htext => ?_) fun _ p hp hne => hall p ((hmem p).mpr ⟨hp, hne⟩)
        rw [hok] at htext
        cases htext

/-- **Where sends of several steps are all or nothing.** -/
theorem sends_atomic_iff (nowMs : ℕ) :
    (∀ senderSessionId recipientSessionId reason importance contextOverride networkId,
      HandoffAtomic host readings books senderSessionId recipientSessionId reason importance
          contextOverride networkId nowMs ↔
        HandoffClear host books senderSessionId recipientSessionId importance contextOverride) ∧
    ∀ channelId senderSessionId payload delivery,
      if (books.publishChannelMessage host readings channelId senderSessionId payload delivery nowMs).1 =
          .error .unending then
        PublishAtomic host readings books channelId senderSessionId payload delivery nowMs
      else
        PublishAtomic host readings books channelId senderSessionId payload delivery nowMs ↔
          PublishClear books channelId senderSessionId delivery := by
  refine ⟨fun senderSessionId recipientSessionId reason importance contextOverride networkId =>
    handoff_atomic_iff host readings books senderSessionId recipientSessionId reason importance
      contextOverride networkId nowMs, fun channelId senderSessionId payload delivery => ?_⟩
  split
  · rename_i hunending
    intro text htext
    rw [hunending] at htext
    cases htext
  · rename_i hreturns
    exact publish_atomic_iff host readings books channelId senderSessionId payload delivery nowMs hreturns

end Atomicity

/-! ### A team -/

def leadId : String := "swarm-890f1c8b14f3"

def helperId : String := "swarm-2c7208bdf898"

def teamHost : Host := .ofDigests
  [(sessionSeed "lead" 0 1, "890f1c8b14f36413f495a44cf28aa5e22906b55388c9960c5a69dce05860a883"),
    (sessionSeed "helper" 1 2, "2c7208bdf8983ec67fd266a25d92ab63f82a0b529484b49299200a5e968501a2"),
    (Json.ofFields [("sender", .str "coordinator"), ("recipient", .str helperId),
      ("payload", .str "hello"), ("salt", Json.ofNat 0), ("ts", Json.ofNat 4)],
      "61ef6b223a2c5138f6c73eb3ad2d129150948dc2d8f9195803415ac1e943ce01")]

/-- A lead that is out of reach, a helper it spawned, and their channel. -/
def team : SwarmBooks where
  swarm := Runs.run (step teamHost) {}
    [(Command.spawn none "lead" false 8 none { simulateUnreachable := true }).at 1,
      (Command.spawn (some leadId) "helper" false 8 none {}).at 2,
      (Command.channelsCreate (some "team") [leadId, helperId]).at 3]

def teamChannel : String := "chan-000000000000"

/-- A helper hands over to its lead, and a message is published that nobody guarantees: both fail, the
one with the lead's context marked, the other with the message in the channel's log. -/
theorem failed_sends_traced :
    ¬HandoffAtomic teamHost [4] team helperId leadId "done" (some (1 / 2)) none none 4 ∧
      ¬PublishAtomic teamHost [4] team teamChannel "coordinator" "hello" .atMostOnce 4 := by
  have hhandoff : (team.registerHandoff teamHost [4] helperId leadId "done" (some (1 / 2)) none
      none 4).1 = .error (.error ("recipient_scope_denied:sender=swarm-2c7208bdf898:recipient=" ++
        "swarm-890f1c8b14f3")) := by
    decide +kernel
  have hmode : ((team.registerHandoff teamHost [4] helperId leadId "done" (some (1 / 2)) none
      none 4).2.swarm.sessions[leadId]?.bind (·.contextMode)) ≠
        team.swarm.sessions[leadId]?.bind (·.contextMode) := by
    decide +kernel
  have hpublish : (team.publishChannelMessage teamHost [4] teamChannel "coordinator" "hello"
      .atMostOnce 4).1 = .error (.error
        "recipient_unreachable:delivery=at_most_once:recipient=swarm-890f1c8b14f3") := by
    decide +kernel
  have hlog : ((team.publishChannelMessage teamHost [4] teamChannel "coordinator" "hello"
      .atMostOnce 4).2.log teamChannel).length ≠ (team.log teamChannel).length := by
    decide +kernel
  constructor
  · intro hatomic
    have hshown := (hatomic _ hhandoff).sessions leadId
    have hcontext := congrArg (Option.bind · fun shown => shown.2.1) hshown
    rw [Option.bind_map, Option.bind_map] at hcontext
    exact hmode hcontext
  · intro hatomic
    exact hlog (congrArg List.length (hatomic _ hpublish).1)

end Protheus.Swarm
