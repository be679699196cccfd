import Protheus.ApprovalGate
import Protheus.LaneUtils
import Protheus.Lib.Words

/-!
The replies that the message of a queued action asks for.

The message of `queue` ends with the two lines a user may reply with.  `parse_approval_command` reads
a reply as two words, so the identifier comes through exactly when it has no blank inside
(`instructions_work_iff`): an identifier is trimmed and cut when it is queued, and nothing else is
asked of it.
-/

namespace Protheus.ApprovalGate

open RustStd (isWhitespace trim)

/-- `str::split_whitespace`. -/
def splitWhitespace (text : String) : List String :=
  (Words.words isWhitespace text.toList).map String.ofList

/-- What `parse_approval_command` reads. -/
structure Reply where
  action : String
  actionId : String
  deriving DecidableEq, Repr

/-- `parse_approval_command`. -/
def parseApprovalCommand (text : String) : Option Reply :=
  match splitWhitespace (trim text) with
  | [action, actionId] =>
    let normalized := RustStd.toAsciiLowercase (trim action)
    if normalized = "approve" ∨ normalized = "deny" then some ⟨normalized, actionId⟩ else none
  | _ => none

/-- The replies that the last two lines of a message ask for. -/
def replyLines (message : String) : Option (String × String) :=
  match (RustStd.splitChar '\n' message).reverse with
  | deny :: approve :: _ => do
    some (← RustStd.stripPrefix approve "To approve, reply: ",
      ← RustStd.stripPrefix deny "To deny, reply: ")
  | _ => none

/-- The `approve` command with an identifier passed to it. -/
def approveCommand (actionId ts : String) : Command :=
  .approve (LaneUtils.parseFlag "action-id" false ["approve", "--action-id=" ++ actionId]) ts

/-- The `deny` command with an identifier passed to it. -/
def denyCommand (actionId : String) (reason : Option String) (ts : String) : Command :=
  .deny (LaneUtils.parseFlag "action-id" false ["deny", "--action-id=" ++ actionId]) reason ts

/-- The command takes an entry of the action out of the pending ones. -/
def TakesOut (queue : ApprovalQueue) (actionId : String) (cmd : Command) : Prop :=
  ∃ success queue' entry, exec queue cmd = (.ok success, queue') ∧ entry.actionId = actionId ∧
    queue.pending.Perm (entry :: queue'.pending)

/-- The two replies a queued action's message asks for are read with the identifier of its entry, and
the commands with this identifier decide on an entry of it. -/
def InstructionsWork (success : Success) (queue : ApprovalQueue) : Prop :=
  ∃ entry approve deny, queue.pending.getLast? = some entry ∧
    replyLines success.message = some (approve, deny) ∧
    parseApprovalCommand approve = some ⟨"approve", entry.actionId⟩ ∧
    parseApprovalCommand deny = some ⟨"deny", entry.actionId⟩ ∧
    (∀ ts, TakesOut queue entry.actionId (approveCommand entry.actionId ts)) ∧
    ∀ reason ts, TakesOut queue entry.actionId (denyCommand entry.actionId reason ts)

/-- No character of the text is a blank. -/
def Unbroken (text : String) : Prop := ∀ c ∈ text.toList, isWhitespace c = false

instance (text : String) : Decidable (Unbroken text) :=
  decidable_of_iff (text.toList.all fun c => !isWhitespace c) (by simp [Unbroken])

variable {actionId word text : String} {queue : ApprovalQueue}

/-! ## Reading a reply -/

/-- An identifier that is read from a reply has no blank. -/
theorem unbroken_of_parse {reply : Reply} (h : parseApprovalCommand text = some reply) :
    Unbroken reply.actionId := by
  unfold parseApprovalCommand at h
  split at h
  · rename_i action id hwords
    dsimp only at h
    split at h
    · have hid : id = reply.actionId := congrArg Reply.actionId (Option.some.inj h)
      have hmem : id ∈ splitWhitespace (trim text) := by
        rw [hwords]
        exact List.mem_cons_of_mem _ List.mem_cons_self
      rw [← hid]
      obtain ⟨chars, hchars, hword⟩ := List.mem_map.mp hmem
      intro c hc
      rw [← hword, String.toList_ofList] at hc
      exact (Words.free_of_mem_words hchars).2 c hc
    · cases h
  · cases h

theorem words_of_unbroken (hne : actionId ≠ "") (h : Unbroken actionId) :
    Words.words isWhitespace actionId.toList = [actionId.toList] := by
  rw [Words.words, List.splitOnP_eq_singleton h]
  have hchars : actionId.toList ≠ [] := fun hnil => hne (String.toList_eq_nil_iff.mp hnil)
  exact List.filter_cons_of_pos (by simpa using hchars)

/-- A word and an identifier without a blank are read as two words. -/
theorem splitWhitespace_reply (hne : actionId ≠ "") (h : Unbroken actionId) (hword : word ≠ "")
    (hfree : Unbroken word) :
    splitWhitespace (trim (word ++ " " ++ actionId)) = [word, actionId] := by
  have hwordne : word.toList ≠ [] := fun hnil => hword (String.toList_eq_nil_iff.mp hnil)
  have hidne : actionId.toList ≠ [] := fun hnil => hne (String.toList_eq_nil_iff.mp hnil)
  have hlist : (word ++ " " ++ actionId).toList = word.toList ++ ' ' :: actionId.toList := by simp
  have htrim : trim (word ++ " " ++ actionId) = word ++ " " ++ actionId := by
    apply LaneUtils.trim_eq_self_of
    · rw [hlist, List.head?_append_of_ne_nil _ hwordne]
      exact fun c hc => hfree c (List.mem_of_mem_head? hc)
    · rw [hlist, List.getLast?_append_of_ne_nil _ (List.cons_ne_nil _ _),
        List.getLast?_cons_of_ne_nil hidne]
      exact fun c hc => h c (List.mem_of_getLast? hc)
  rw [htrim, splitWhitespace, hlist, Words.words_append_gap (by decide) hwordne hfree,
    words_of_unbroken hne h]
  simp

/-- A reply of a word the command knows and an identifier without a blank is read back. -/
theorem parse_reply (hne : actionId ≠ "") (h : Unbroken actionId) :
    parseApprovalCommand ("APPROVE" ++ " " ++ actionId) = some ⟨"approve", actionId⟩ ∧
      parseApprovalCommand ("DENY" ++ " " ++ actionId) = some ⟨"deny", actionId⟩ := by
  have happrove : RustStd.toAsciiLowercase (trim "APPROVE") = "approve" := by decide
  have hdeny : RustStd.toAsciiLowercase (trim "DENY") = "deny" := by decide
  have hfree : Unbroken "APPROVE" ∧ Unbroken "DENY" := by decide
  unfold parseApprovalCommand
  rw [splitWhitespace_reply hne h (by decide) hfree.1, splitWhitespace_reply hne h (by decide) hfree.2]
  dsimp only
  rw [happrove, hdeny]
  exact ⟨if_pos (.inl rfl), if_pos (.inr rfl)⟩

/-! ## The lines of a message -/

theorem replyLines_of_lines {start approve deny : String}
    (happrove : '\n' ∉ approve.toList) (hdeny : '\n' ∉ deny.toList) :
    replyLines (start ++ "\n" ++ ("To approve, reply: " ++ approve) ++ "\n" ++
      ("To deny, reply: " ++ deny)) = some (approve, deny) := by
  have hlist : (start ++ "\n" ++ ("To approve, reply: " ++ approve) ++ "\n" ++
      ("To deny, reply: " ++ deny)).toList = start.toList ++ '\n' ::
        (("To approve, reply: " ++ approve).toList ++ '\n' :: ("To deny, reply: " ++ deny).toList) := by
    simp
  have hline {lead line : String} (hlead : '\n' ∉ lead.toList) (hfree : '\n' ∉ line.toList) :
      '\n' ∉ (lead ++ line).toList := by
    rw [String.toList_append, List.mem_append, not_or]
    exact ⟨hlead, hfree⟩
  have hleads : '\n' ∉ "To approve, reply: ".toList ∧ '\n' ∉ "To deny, reply: ".toList := by
    decide
  have hstrip {lead line : String} : RustStd.stripPrefix (lead ++ line) lead = some line :=
    RustStd.stripPrefix_eq_some.mpr rfl
  have hsplit : RustStd.splitChar '\n' (start ++ "\n" ++ ("To approve, reply: " ++ approve) ++ "\n" ++
      ("To deny, reply: " ++ deny)) = RustStd.splitChar '\n' start ++
        ["To approve, reply: " ++ approve, "To deny, reply: " ++ deny] := by
    rw [RustStd.splitChar, hlist, List.splitOn_append_cons_self,
      List.splitOn_append_cons_self_of_not_mem (hline hleads.1 happrove),
      List.splitOn_eq_singleton (hline hleads.2 hdeny), List.map_append, RustStd.splitChar,
      List.map_cons, List.map_singleton, String.ofList_toList, String.ofList_toList]
  have hreverse : (RustStd.splitChar '\n' start ++ ["To approve, reply: " ++ approve,
      "To deny, reply: " ++ deny]).reverse = ("To deny, reply: " ++ deny) ::
        ("To approve, reply: " ++ approve) :: (RustStd.splitChar '\n' start).reverse :=
    List.reverse_append
  rw [replyLines, hsplit, hreverse]
  dsimp only
  rw [hstrip, hstrip]
  rfl

/-- The message ends with the two lines. -/
theorem generateApprovalMessage_eq (entry : ApprovalEntry) : generateApprovalMessage entry =
    "Action: " ++ entry.summary ++ "\nType: " ++ entry.entryType ++ "\nDirective: " ++
      entry.directiveId ++ "\nWhy gated: " ++ entry.reason ++ "\nAction ID: " ++ entry.actionId ++
      "\n" ++ "\n" ++ ("To approve, reply: " ++ ("APPROVE" ++ " " ++ entry.actionId)) ++ "\n" ++
      ("To deny, reply: " ++ ("DENY" ++ " " ++ entry.actionId)) := by
  have happrove : "\n\nTo approve, reply: APPROVE " =
      "\n" ++ "\n" ++ "To approve, reply: " ++ "APPROVE" ++ " " := by decide
  have hdeny : "\nTo deny, reply: DENY " = "\n" ++ "To deny, reply: " ++ "DENY" ++ " " := by
    decide
  unfold generateApprovalMessage
  rewrite [happrove, hdeny]
  simp only [String.append_assoc]

/-- Where the identifier has no blank, the last two lines ask for the two replies. -/
theorem replyLines_message (entry : ApprovalEntry) (h : Unbroken entry.actionId) :
    replyLines (generateApprovalMessage entry) =
      some ("APPROVE" ++ " " ++ entry.actionId, "DENY" ++ " " ++ entry.actionId) := by
  have hline {word : String} (hword : '\n' ∉ word.toList) :
      '\n' ∉ (word ++ " " ++ entry.actionId).toList := by
    rw [String.toList_append, String.toList_append, List.mem_append, List.mem_append, not_or, not_or]
    have hblank : '\n' ∉ " ".toList := by decide
    refine ⟨⟨hword, hblank⟩, fun hmem => ?_⟩
    have hnewline : isWhitespace '\n' = true := by decide
    rw [h _ hmem] at hnewline
    cases hnewline
  have hwords : '\n' ∉ "APPROVE".toList ∧ '\n' ∉ "DENY".toList := by decide
  rw [generateApprovalMessage_eq]
  exact replyLines_of_lines (hline hwords.1) (hline hwords.2)

/-! ## Passing the identifier to a command -/

/-- The flag's value is the identifier, trimmed. -/
theorem parseFlag_actionId {command : String} (hcommand : command = "approve" ∨ command = "deny")
    (h : Unbroken actionId) :
    LaneUtils.parseFlag "action-id" false [command, "--action-id=" ++ actionId] = some actionId := by
  have hskip : LaneUtils.parseFlag "action-id" false [command, "--action-id=" ++ actionId] =
      LaneUtils.parseFlag "action-id" false ["--action-id=" ++ actionId] := by
    have hnone : RustStd.stripPrefix (trim command) ("--" ++ "action-id" ++ "=") = none ∧
        trim command ≠ "--" ++ "action-id" := by
      obtain rfl | rfl := hcommand
      · decide
      · decide
    rw [LaneUtils.parseFlag, hnone.1]
    exact if_neg hnone.2
  have hlead : Unbroken "--action-id=" := by decide
  have hfree : ∀ c ∈ ("--action-id=" ++ actionId).toList, isWhitespace c = false := by
    rw [String.toList_append]
    exact List.forall_mem_append.mpr ⟨hlead, h⟩
  have hstrip : RustStd.stripPrefix (trim ("--action-id=" ++ actionId))
      ("--" ++ "action-id" ++ "=") = some actionId := by
    rw [RustStd.trim_eq_self hfree]
    exact RustStd.stripPrefix_eq_some.mpr rfl
  rw [hskip, LaneUtils.parseFlag, hstrip]
  exact congrArg some (RustStd.trim_eq_self h)

/-- A decision on an action with a pending entry takes an entry of it out. -/
theorem takesOut_of_decision {cmd : Command} {denyReason : Option String} {ts : String}
    (hcmd : cmd.decision = some (actionId, denyReason, ts)) {entry : ApprovalEntry}
    (hentry : entry ∈ queue.pending) (hid : entry.actionId = actionId) :
    TakesOut queue actionId cmd := by
  have hcases := transition_cases actionId denyReason ts queue
  cases hanswer : transitionEntry actionId denyReason ts queue with
  | mk result queue' =>
    rw [hanswer] at hcases
    cases hcases with
    | missing text hfind =>
      exact absurd (List.find?_eq_none.mp hfind entry hentry) (by simpa using hid)
    | moved found success hfind =>
      refine ⟨success, _, found, (exec_of_decision hcmd).trans hanswer, ?_,
        (RustStd.cons_eraseP_perm hfind).symm⟩
      simpa using List.find?_some hfind

/-! ## The instructions -/

/-- What an accepted envelope leaves. -/
theorem commandQueue_ok {payload : QueuePayload} {ts : String} {success : Success}
    {queue' : ApprovalQueue} (h : commandQueue payload ts queue = (.ok success, queue')) :
    ∃ envelope entry, payload.actionEnvelope = some envelope ∧
      entry.actionId = cleanText (envelope.get? "action_id") 160 ∧ entry.actionId ≠ "" ∧
      success.message = generateApprovalMessage entry ∧
      queue' = { queue with pending := queue.pending ++ [entry] } := by
  unfold commandQueue at h
  split at h
  · cases h
  · rename_i envelope henvelope
    split at h
    · cases h
    · rename_i entry hentry
      cases h
      unfold queueEntryFromPayload at hentry
      split at hentry
      · cases hentry
      · dsimp only at hentry
        split at hentry
        · cases hentry
        · rename_i hid
          have hactionId : entry.actionId = cleanText (envelope.get? "action_id") 160 := by
            rw [← Except.ok.inj hentry]
          exact ⟨envelope, entry, henvelope, hactionId, hactionId.trans_ne hid, rfl, rfl⟩

/-- **The replies a queued action's message asks for work exactly when its identifier, as it was
trimmed and cut, has no blank.** -/
theorem instructions_work_iff (payload : QueuePayload) (ts : String) (queue : ApprovalQueue)
    {success : Success} {queue' : ApprovalQueue} {envelope : Json}
    (h : commandQueue payload ts queue = (.ok success, queue'))
    (henvelope : payload.actionEnvelope = some envelope) :
    InstructionsWork success queue' ↔ Unbroken (cleanText (envelope.get? "action_id") 160) := by
  obtain ⟨envelope', entry, henvelope', hid, hne, hmessage, rfl⟩ := commandQueue_ok h
  obtain rfl := Option.some.inj (henvelope'.symm.trans henvelope)
  have hlast : (queue.pending ++ [entry]).getLast? = some entry := List.getLast?_concat
  rw [← hid]
  constructor
  · rintro ⟨found, approve, deny, hfound, -, hparse, -⟩
    obtain rfl := Option.some.inj (hlast.symm.trans hfound)
    exact unbroken_of_parse hparse
  · intro hfree
    have hpending : entry ∈ (queue.pending ++ [entry]) := List.mem_concat_self
    refine ⟨entry, _, _, hlast, ?_, (parse_reply hne hfree).1, (parse_reply hne hfree).2, ?_, ?_⟩
    · rw [hmessage]
      exact replyLines_message entry hfree
    · intro ts
      have hflag := @parseFlag_actionId entry.actionId "approve" (.inl rfl) hfree
      refine @takesOut_of_decision _ _ _ none ts ?_ entry hpending rfl
      rw [approveCommand, hflag, Command.decision, RustStd.trim_eq_self hfree]
    · intro reason ts
      have hflag := @parseFlag_actionId entry.actionId "deny" (.inr rfl) hfree
      refine @takesOut_of_decision _ _ _ (some (denyReasonOf reason)) ts ?_ entry hpending rfl
      rw [denyCommand, hflag, Command.decision, RustStd.trim_eq_self hfree]

def publishEnvelope (actionId : String) : Json := .obj [("action_id", .str actionId)]

theorem instructions_work_publish : ∃ success queue',
    commandQueue { actionEnvelope := some (publishEnvelope "act_123") } "1" {} = (.ok success, queue') ∧
      InstructionsWork success queue' := by
  refine ⟨_, _, rfl, (instructions_work_iff { actionEnvelope := some (publishEnvelope "act_123") } "1"
    {} rfl rfl).mpr ?_⟩
  decide

/-- An identifier of two words is queued, and neither reply of its message is read. -/
theorem spaced_action_unanswered : ∃ success queue',
    commandQueue { actionEnvelope := some (publishEnvelope "release 7") } "1" {} =
        (.ok success, queue') ∧
      ¬ InstructionsWork success queue' := by
  refine ⟨_, _, rfl, ?_⟩
  rintro ⟨entry, approve, deny, hentry, -, hparse, -⟩
  have hfree := unbroken_of_parse hparse
  rw [← Option.some.inj hentry] at hfree
  have hblank : ¬ Unbroken (cleanText ((publishEnvelope "release 7").get? "action_id") 160) := by
    decide
  exact hblank hfree

end Protheus.ApprovalGate
