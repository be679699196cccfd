import Protheus.Swarm.Sessions

/-!
The mailboxes of `swarm_runtime.rs`: sending, receiving, acknowledging, expiry, dead
letters and their retry.
-/

namespace Protheus.Swarm

open Std (ExtTreeMap)
open RustStd (u64Max addUpTo)

def maxDeadLetterRows : ℕ := 256

def defaultMessageTtlMs : ℕ := 300000

def maxMailboxUnread : ℕ := 32

/-- `append_dead_letter`: past the cap the oldest rows go. -/
def appendDeadLetter (state : SwarmState) (message : AgentMessage) (reason : String)
    (retryable : Bool) : SwarmState :=
  let rows := state.deadLetters ++ [⟨message, reason, retryable⟩]
  { state with deadLetters := rows.drop (rows.length - maxDeadLetterRows) }

/-- The message identifiers `next_message_id` tries, one for each round of its loop. -/
def messageIdCandidates (host : Host) (readings : List ℕ)
    (senderSessionId recipientSessionId payload : String) : List String :=
  readings.zipIdx.map fun (ts, salt) =>
    "msg-" ++ shortDigest host (Json.ofFields
      [("sender", .str senderSessionId), ("recipient", .str recipientSessionId),
        ("payload", .str payload), ("salt", Json.ofNat salt), ("ts", Json.ofNat ts)])

/-- Whether some mailbox holds a message under the identifier. -/
def inMailboxes (state : SwarmState) (messageId : String) : Bool :=
  state.mailboxes.toList.any fun entry =>
    entry.2.unread.any (·.messageId == messageId) || entry.2.read.any (·.messageId == messageId)

/-- `next_message_id`; `none` when the loop is still going after the given rounds. -/
def nextMessageId (host : Host) (readings : List ℕ) (state : SwarmState)
    (senderSessionId recipientSessionId payload : String) : Option String :=
  (messageIdCandidates host readings senderSessionId recipientSessionId payload).find? fun id =>
    !inMailboxes state id

def isSiblingOrChildAllowed (state : SwarmState) (senderSessionId recipientSessionId : String) :
    Bool :=
  match state.sessions[senderSessionId]?, state.sessions[recipientSessionId]? with
  | some sender, some recipient =>
    sender.parentId == recipient.parentId || recipient.parentId == some senderSessionId
  | _, _ => false

/-- The key of a message in the exactly-once table. -/
def dedupeKey (host : Host) (senderSessionId recipientSessionId payload : String)
    (delivery : DeliveryGuarantee) : String :=
  host.digest (Json.ofFields
    [("sender", .str senderSessionId), ("recipient", .str recipientSessionId),
      ("payload", .str payload), ("delivery", .str delivery.asLabel)])

/-- Whether a session may send to another, with the text of the refusal. -/
def sendCheck (state : SwarmState) (senderSessionId recipientSessionId : String) :
    Except String Unit :=
  let coordinator := senderSessionId == "coordinator"
  if !coordinator && !state.sessionExists senderSessionId then
    .error ("unknown_sender_session:" ++ senderSessionId)
  else if !state.sessionExists recipientSessionId then
    .error ("unknown_recipient_session:" ++ recipientSessionId)
  else if !coordinator && senderSessionId == recipientSessionId then
    .error "self_delivery_blocked"
  else if !coordinator && !isSiblingOrChildAllowed state senderSessionId recipientSessionId then
    .error ("recipient_scope_denied:sender=" ++ senderSessionId ++ ":recipient=" ++
      recipientSessionId)
  else .ok ()

/-- What `send_session_message` answers. -/
inductive SendReceipt where
  /-- An exactly-once message that was sent before, by the identifier it got then. -/
  | dedupeHit (messageId : String)
  | deadLettered (message : AgentMessage)
  | delivered (message : AgentMessage)
  deriving DecidableEq, Repr

/-- The attempts `send_session_message` counts. -/
def sendAttempts (delivery : DeliveryGuarantee) (simulateFirstAttemptFail reachable : Bool) : ℕ :=
  if simulateFirstAttemptFail && delivery != .atMostOnce then 2
  else if !reachable && delivery != .atMostOnce then 3
  else 1

/-- The message `send_session_message` builds. -/
def buildMessage (host : Host) (messageId senderSessionId recipientSessionId payload : String)
    (delivery : DeliveryGuarantee) (simulateFirstAttemptFail reachable : Bool) (ttlMs nowMs : ℕ) :
    AgentMessage where
  messageId
  senderSessionId
  recipientSessionId
  payload
  delivery
  attempts := sendAttempts delivery simulateFirstAttemptFail reachable
  dedupeKey := if delivery = .exactlyOnce then
    some (dedupeKey host senderSessionId recipientSessionId payload delivery) else none
  ttlMs := max ttlMs 1
  expiresAtMs := addUpTo u64Max nowMs (max ttlMs 1)
  deferred := !reachable

/-- `ensure_mailbox(...).unread.push`. -/
def pushUnread (state : SwarmState) (recipientSessionId : String) (message : AgentMessage) :
    SwarmState :=
  let mailbox := state.mailboxes[recipientSessionId]?.getD {}
  { state with
    mailboxes := state.mailboxes.insert recipientSessionId
      { mailbox with unread := mailbox.unread ++ [message] } }

/-- `exactly_once_dedupe.insert`, for an exactly-once message. -/
def recordDedupe (state : SwarmState) (message : AgentMessage) : SwarmState :=
  match message.dedupeKey with
  | none => state
  | some key =>
    { state with exactlyOnceDedupe := state.exactlyOnceDedupe.insert key message.messageId }

/-- The message an exactly-once key stands for already. -/
def dedupeLookup (host : Host) (state : SwarmState)
    (senderSessionId recipientSessionId payload : String) (delivery : DeliveryGuarantee) :
    Option String :=
  if delivery = .exactlyOnce then
    state.exactlyOnceDedupe[dedupeKey host senderSessionId recipientSessionId payload delivery]?
  else none

/-- The end of `send_session_message`, for the message it built: a full mailbox makes it
a dead letter, and so does an unreachable recipient when nothing is guaranteed. -/
def placeMessage (state : SwarmState) (message : AgentMessage) :
    Except Stop SendReceipt × SwarmState :=
  let recipient := message.recipientSessionId
  let mailboxDepth := (state.mailboxes[recipient]?.map (·.unread.length)).getD 0
  if maxMailboxUnread ≤ mailboxDepth then
    (.ok (.deadLettered message), appendDeadLetter state message "mailbox_backpressure" true)
  else if message.deferred && message.delivery == .atMostOnce then
    (.error (.error ("recipient_unreachable:delivery=" ++ message.delivery.asLabel ++
        ":recipient=" ++ recipient)),
      appendDeadLetter state message "recipient_unreachable" true)
  else (.ok (.delivered message), recordDedupe (pushUnread state recipient message) message)

def sendSessionMessage (host : Host) (readings : List ℕ) (state : SwarmState)
    (senderSessionId recipientSessionId payload : String) (delivery : DeliveryGuarantee)
    (simulateFirstAttemptFail : Bool) (ttlMs nowMs : ℕ) : Except Stop SendReceipt × SwarmState :=
  match sendCheck state senderSessionId recipientSessionId with
  | .error text => (.error (.error text), state)
  | .ok () =>
    match dedupeLookup host state senderSessionId recipientSessionId payload delivery with
    | some existing => (.ok (.dedupeHit existing), state)
    | none =>
      match nextMessageId host readings state senderSessionId recipientSessionId payload with
      | none => (.error .unending, state)
      | some messageId =>
        let reachable := (state.sessions[recipientSessionId]?.map (·.reachable)).getD false
        placeMessage state (buildMessage host messageId senderSessionId recipientSessionId payload
          delivery simulateFirstAttemptFail reachable ttlMs nowMs)

def receiveSessionMessages (state : SwarmState) (sessionId : String) (limit : ℕ)
    (markRead : Bool) : Except Stop (List AgentMessage) × SwarmState :=
  if !state.sessionExists sessionId then
    (.error (.error ("unknown_session:" ++ sessionId)), state)
  else
    let mailbox := state.mailboxes[sessionId]?.getD {}
    let messages := mailbox.unread.take (max limit 1)
    let mailbox' : SessionMailbox :=
      if markRead then
        { unread := mailbox.unread.drop (max limit 1), read := mailbox.read ++ messages }
      else mailbox
    (.ok messages, { state with mailboxes := state.mailboxes.insert sessionId mailbox' })

/-- The first message under the identifier, acknowledged; `none` when there is none. -/
def ackFirst (messageId : String) (nowMs : ℕ) : List AgentMessage → Option (List AgentMessage)
  | [] => none
  | message :: rest =>
    if message.messageId = messageId then
      some ({ message with acknowledged := true, ackedAtMs := some nowMs } :: rest)
    else (ackFirst messageId nowMs rest).map (message :: ·)

def acknowledgeSessionMessage (state : SwarmState) (sessionId messageId : String) (nowMs : ℕ) :
    Except Stop Unit × SwarmState :=
  if !state.sessionExists sessionId then
    (.error (.error ("unknown_session:" ++ sessionId)), state)
  else
    let mailbox := state.mailboxes[sessionId]?.getD {}
    let keep (mailbox : SessionMailbox) : SwarmState :=
      { state with mailboxes := state.mailboxes.insert sessionId mailbox }
    match ackFirst messageId nowMs mailbox.unread, ackFirst messageId nowMs mailbox.read with
    | some unread, _ => (.ok (), keep { mailbox with unread })
    | none, some read => (.ok (), keep { mailbox with read })
    | none, none => (.error (.error ("unknown_message:" ++ messageId)), keep mailbox)

/-- `drain_expired_messages`. -/
def drainExpiredMessages (state : SwarmState) (nowMs : ℕ) : SwarmState :=
  let expired := state.mailboxes.toList.flatMap fun entry =>
    entry.2.unread.filter (·.expiresAtMs ≤ nowMs)
  let drained := { state with
    mailboxes := state.mailboxes.map fun _ mailbox =>
      { mailbox with unread := mailbox.unread.filter (¬ ·.expiresAtMs ≤ nowMs) } }
  expired.foldl (fun state message => appendDeadLetter state message "message_ttl_expired" true)
    drained

/-- The first dead letter of a message, and the others. -/
def takeDeadLetter (messageId : String) :
    List DeadLetterMessage → Option (DeadLetterMessage × List DeadLetterMessage)
  | [] => none
  | row :: rest =>
    if row.message.messageId = messageId then some (row, rest)
    else (takeDeadLetter messageId rest).map fun found => (found.1, row :: found.2)

/-- `sessions_retry_dead_letter`: the row is taken out before it is sent again, and
goes back only when it is not retryable. -/
def sessionsRetryDeadLetter (host : Host) (readings : List ℕ) (state : SwarmState)
    (messageId : String) (nowMs : ℕ) : Except Stop SendReceipt × SwarmState :=
  match takeDeadLetter messageId state.deadLetters with
  | none => (.error (.error ("unknown_dead_letter_message:" ++ messageId)), state)
  | some (entry, rest) =>
    if !entry.retryable then
      (.error (.error ("dead_letter_not_retryable:" ++ messageId)),
        { state with deadLetters := rest ++ [entry] })
    else
      sendSessionMessage host readings { state with deadLetters := rest }
        entry.message.senderSessionId entry.message.recipientSessionId entry.message.payload
        entry.message.delivery false (max entry.message.ttlMs defaultMessageTtlMs) nowMs

/-- The order of `Vec::sort` and `dedup` on strings. -/
def sortDedup (names : List String) : List String :=
  (ExtTreeMap.ofList (names.map fun name => (name, ()))).keys

/-- The identifier of a new channel. -/
def channelId (host : Host) (name : String) (participants : List String) (nowMs : ℕ) : String :=
  "chan-" ++ shortDigest host (Json.ofFields
    [("name", .str name), ("participants", .arr (participants.map .str)),
      ("ts", Json.ofNat nowMs)])

def createChannel (host : Host) (state : SwarmState) (name : String) (participants : List String)
    (nowMs : ℕ) : Except Stop String × SwarmState :=
  if participants.isEmpty then (.error (.error "channel_participants_required"), state)
  else
    let cleaned := sortDedup (participants.filter fun id => RustStd.trim id ≠ "")
    match cleaned.find? fun id => !state.sessionExists id with
    | some id => (.error (.error ("unknown_channel_participant:" ++ id)), state)
    | none =>
      let id := channelId host name cleaned nowMs
      (.ok id, { state with channels := state.channels.insert id cleaned })

/-! ## What messages leave alone -/

/-- The states whose sessions and services are the same. -/
structure SameSessions (state state' : SwarmState) : Prop where
  sessions : state'.sessions = state.sessions
  services : state'.serviceRegistry = state.serviceRegistry

theorem SameSessions.refl (state : SwarmState) : SameSessions state state := ⟨rfl, rfl⟩

theorem SameSessions.trans {state state' state'' : SwarmState} (h : SameSessions state state')
    (h' : SameSessions state' state'') : SameSessions state state'' :=
  ⟨h'.sessions.trans h.sessions, h'.services.trans h.services⟩

theorem sameSessions_appendDeadLetter (state : SwarmState) (message : AgentMessage) (reason : String)
    (retryable : Bool) : SameSessions state (appendDeadLetter state message reason retryable) := by
  constructor <;> simp only [appendDeadLetter]

theorem sameSessions_recordDedupe (state : SwarmState) (message : AgentMessage) :
    SameSessions state (recordDedupe state message) := by
  unfold recordDedupe
  split <;> exact ⟨rfl, rfl⟩

theorem sameSessions_placeMessage (state : SwarmState) (message : AgentMessage) :
    SameSessions state (placeMessage state message).2 := by
  unfold placeMessage
  dsimp only
  split
  · exact sameSessions_appendDeadLetter ..
  · split
    · exact sameSessions_appendDeadLetter ..
    · have hpushed : SameSessions state (pushUnread state message.recipientSessionId message) :=
        ⟨rfl, rfl⟩
      exact hpushed.trans (sameSessions_recordDedupe _ _)

theorem sameSessions_sendSessionMessage (host : Host) (readings : List ℕ) (state : SwarmState)
    (sender recipient payload : String) (delivery : DeliveryGuarantee) (simulate : Bool)
    (ttlMs nowMs : ℕ) : SameSessions state
      (sendSessionMessage host readings state sender recipient payload delivery simulate ttlMs
        nowMs).2 := by
  unfold sendSessionMessage
  split
  · exact .refl state
  · split
    · exact .refl state
    · split
      · exact .refl state
      · exact sameSessions_placeMessage _ _

theorem sameSessions_receiveSessionMessages (state : SwarmState) (sessionId : String) (limit : ℕ)
    (markRead : Bool) :
    SameSessions state (receiveSessionMessages state sessionId limit markRead).2 := by
  unfold receiveSessionMessages
  split <;> exact ⟨rfl, rfl⟩

theorem sameSessions_acknowledgeSessionMessage (state : SwarmState) (sessionId messageId : String)
    (nowMs : ℕ) : SameSessions state (acknowledgeSessionMessage state sessionId messageId nowMs).2 := by
  unfold acknowledgeSessionMessage
  split
  · exact .refl state
  · dsimp only
    split <;> exact ⟨rfl, rfl⟩

theorem sameSessions_drainExpiredMessages (state : SwarmState) (nowMs : ℕ) :
    SameSessions state (drainExpiredMessages state nowMs) := by
  have hfold (expired : List AgentMessage) : ∀ drained : SwarmState, SameSessions drained
      (expired.foldl (fun state message => appendDeadLetter state message "message_ttl_expired" true)
        drained) := by
    induction expired with
    | nil => exact .refl
    | cons message rest ih =>
      intro drained
      rw [List.foldl_cons]
      have hhead := sameSessions_appendDeadLetter drained message "message_ttl_expired" true
      generalize appendDeadLetter drained message "message_ttl_expired" true = next at hhead ⊢
      exact hhead.trans (ih next)
  have hmailboxes (mailboxes : ExtTreeMap String SessionMailbox) :
      SameSessions state { state with mailboxes } := ⟨rfl, rfl⟩
  unfold drainExpiredMessages
  dsimp only
  exact (hmailboxes _).trans (hfold _ _)

theorem sameSessions_sessionsRetryDeadLetter (host : Host) (readings : List ℕ) (state : SwarmState)
    (messageId : String) (nowMs : ℕ) :
    SameSessions state (sessionsRetryDeadLetter host readings state messageId nowMs).2 := by
  unfold sessionsRetryDeadLetter
  split
  · exact .refl state
  · split
    · exact ⟨rfl, rfl⟩
    · have hdeadLetters (deadLetters : List DeadLetterMessage) :
          SameSessions state { state with deadLetters } := ⟨rfl, rfl⟩
      exact (hdeadLetters _).trans (sameSessions_sendSessionMessage ..)

theorem sameSessions_createChannel (host : Host) (state : SwarmState) (name : String)
    (participants : List String) (nowMs : ℕ) :
    SameSessions state (createChannel host state name participants nowMs).2 := by
  unfold createChannel
  split
  · exact .refl state
  · dsimp only
    split
    · exact .refl state
    · exact ⟨rfl, rfl⟩

end Protheus.Swarm
