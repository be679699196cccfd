import Protheus.LaneUtils
import Protheus.Lib.Runs
import Protheus.V8Kernel

/-!
The memory session gate of `memory_session_isolation_kernel.rs`: which session may
name which resource.

The gate keeps one table, from resource keys to the session that named the resource
first.  A call is read into its tokens, its flags and from these its resource keys;
it is blocked when another session holds one of the keys, and otherwise takes all of
them.  A key is the flag as it is spelled and the value the flag table holds for it,
and the table holds the last of a flag's occurrences.  So a session is kept out of
what another one holds as long as calls do not repeat a flag with another value and
spell it the way the holder did.
-/

namespace Protheus.SessionIsolation

open LaneUtils

variable (printFloat : ℚ → String)

/-! ## Reading a call -/

/-- `to_bool`. -/
def toBool (value : Option Json) (fallback : Bool) : Bool :=
  match value with
  | some (.bool v) => v
  | some (.num n) => ((Json.num n).asI64.map fun row => decide (row ≠ 0)).getD fallback
  | some (.str v) => V8Kernel.parseBool (some v) fallback
  | _ => fallback

/-- `str::split_once` at a character. -/
def splitOnce (sep : Char) (s : String) : Option (String × String) :=
  if sep ∈ s.toList then
    some (String.ofList (s.toList.takeWhile (· != sep)),
      String.ofList (s.toList.dropWhile (· != sep)).tail)
  else none

/-- `str::trim_start_matches("--")`. -/
def trimStartDashes : List Char → List Char
  | '-' :: '-' :: rest => trimStartDashes rest
  | s => s

/-- What a token does to the flags; `none` for a positional one. -/
def flagOf (token : String) : Option (String × String) :=
  if (RustStd.stripPrefix token "--").isNone then none
  else
    match splitOnce '=' token with
    | some (key, value) => some (String.ofList (trimStartDashes key.toList), value)
    | none => some (String.ofList (trimStartDashes token.toList), "true")

/-- The flags of a call, the newest first, so that a lookup finds what the last
`insert` wrote. -/
abbrev Flags := List (String × String)

/-- `parse_cli_args`. -/
def parseCliArgs (rawArgs : List String) : List String × Flags :=
  rawArgs.foldl
    (fun out token =>
      match flagOf token with
      | none => (out.1 ++ [token], out.2)
      | some flag => (out.1, flag :: out.2))
    ([], [])

/-- `session_id_pattern`: three to a hundred and twenty-eight characters, the first a
letter or a digit. -/
def sessionIdPattern (s : String) : Bool :=
  match s.toList with
  | [] => false
  | c :: rest =>
    c.isAlphanum && 2 ≤ rest.length && rest.length ≤ 127 &&
      rest.all fun c => c.isAlphanum || ['.', '_', ':', '-'].contains c

theorem ne_empty_of_sessionIdPattern {s : String} (h : sessionIdPattern s = true) : s ≠ "" := by
  rintro rfl
  revert h
  decide

/-- `find_session_id`. -/
def findSessionId (flags : Flags) (options : List (String × Json)) : String :=
  let fromOptions :=
    asStr printFloat ((options.lookup "sessionId").or (options.lookup "session_id"))
  if fromOptions ≠ "" then fromOptions
  else
    let keys := ["session-id", "session_id", "session", "session-key", "session_key"]
    let values := (keys.filterMap fun key => flags.lookup key).map RustStd.trim
    (values.find? (· ≠ "")).getD ""

def resourceNames : List String :=
  ["resource-id", "resource_id", "item-id", "item_id", "node-id", "node_id", "uid",
    "memory-id", "memory_id", "task-id", "task_id"]

def resourceKey (name value : String) : String := name ++ ":" ++ value

/-- `Vec::dedup`. -/
def dedup : List String → List String
  | [] => []
  | [key] => [key]
  | key :: next :: rest => if key = next then dedup (next :: rest) else key :: dedup (next :: rest)

theorem mem_dedup {key : String} (keys : List String) : key ∈ dedup keys ↔ key ∈ keys := by
  induction keys using dedup.induct with
  | case1 => rfl
  | case2 k => rfl
  | case3 next rest ih => simp [dedup, ih]
  | case4 k next rest hne ih => simp [dedup, hne, ih]

/-- The key a flag contributes: none where its trimmed value is empty. -/
def resourceKey? (flags : Flags) (name : String) : Option String :=
  let value := RustStd.trim ((flags.lookup name).getD "")
  if value = "" then none else some (resourceKey name value)

/-- `collect_resource_keys`. -/
def collectResourceKeys (flags : Flags) : List String :=
  dedup (RustStd.sortBy compare (resourceNames.filterMap (resourceKey? flags)))

theorem mem_collectResourceKeys {flags : Flags} {key : String} :
    key ∈ collectResourceKeys flags ↔
      ∃ name ∈ resourceNames, resourceKey? flags name = some key := by
  rw [collectResourceKeys, mem_dedup, RustStd.sortBy, (List.perm_insertionSort _ _).mem_iff,
    List.mem_filterMap]

/-- One `validate` call, with the time stamp it reads. -/
structure Call where
  payload : List (String × Json)
  now : String

namespace Call

/-- The tokens of the call. -/
def args (call : Call) : List String :=
  ((call.payload.lookup "args").bind Json.asArray |>.getD []).map fun value =>
    asStr printFloat (some value)

def options (call : Call) : List (String × Json) :=
  (call.payload.lookup "options").bind Json.asObject |>.getD []

def flags (call : Call) : Flags := (parseCliArgs (call.args printFloat)).2

def command (call : Call) : String :=
  let explicit := asStr printFloat (call.options.lookup "command")
  if explicit ≠ "" then RustStd.toAsciiLowercase explicit
  else ((parseCliArgs (call.args printFloat)).1.head?.map RustStd.toAsciiLowercase).getD "status"

def requireSession (call : Call) : Bool :=
  toBool ((call.options.lookup "requireSession").or (call.options.lookup "require_session")) true &&
    !(["status", "verify", "health", "help"].contains (call.command printFloat))

def sessionId (call : Call) : String :=
  findSessionId printFloat (call.flags printFloat) call.options

def persist (call : Call) : Bool := toBool (call.options.lookup "persist") true

def resourceKeys (call : Call) : List String := collectResourceKeys (call.flags printFloat)

/-- The resources the call names: the flag and the trimmed value of every token that
sets one of the resource flags, wherever it stands. -/
def named (call : Call) : List (String × String) :=
  ((call.args printFloat).filterMap flagOf).filterMap fun flag =>
    let value := RustStd.trim flag.2
    if flag.1 ∈ resourceNames ∧ value ≠ "" then some (flag.1, value) else none

end Call

/-! ## The table -/

/-- `default_state_value`. -/
def defaultStateValue : Json :=
  .ofFields [("schema_version", .str "1.0"), ("resources", .ofFields [])]

/-- What loading and saving put in where it is missing. -/
def withDefaults (state : List (String × Json)) : List (String × Json) :=
  let state :=
    if (state.lookup "schema_version").isSome then state
    else Json.insertField "schema_version" (.str "1.0") state
  if ((state.lookup "resources").bind Json.asObject).isSome then state
  else Json.insertField "resources" (.ofFields []) state

/-- `load_state_value`, of a file that holds the given JSON; `none` where there is no
file or no JSON in it. -/
def loadStateValue (file : Option Json) : List (String × Json) :=
  withDefaults ((file.getD defaultStateValue).asObject.getD [])

/-- `save_state_value`: what the file then holds. -/
def saveStateValue (state : List (String × Json)) : Json := .obj (withDefaults state)

/-- The table of a state. -/
def resourcesOf (state : List (String × Json)) : List (String × Json) :=
  ((state.lookup "resources").bind Json.asObject).getD []

/-- The session that holds a key; empty where none does. -/
def holder (resources : List (String × Json)) (key : String) : String :=
  (((resources.lookup key).bind (·.get? "session_id")).bind Json.asStr).getD ""

/-- Another session holds the key. -/
def HeldByOther (resources : List (String × Json)) (session key : String) : Prop :=
  holder resources key ≠ "" ∧ session ≠ "" ∧ holder resources key ≠ session

instance (resources : List (String × Json)) (session key : String) :
    Decidable (HeldByOther resources session key) :=
  inferInstanceAs (Decidable (_ ∧ _))

/-- The record of a session that names a resource. -/
def claim (session now : String) : Json :=
  .ofFields [("session_id", .str session), ("last_seen_at", .str now)]

/-- The table after a session has taken the keys. -/
def take (session now : String) (keys : List String) (resources : List (String × Json)) :
    List (String × Json) :=
  keys.foldl (fun resources key => Json.insertField key (claim session now) resources) resources

theorem holder_take (session now : String) (keys : List String) (resources : List (String × Json))
    (key : String) :
    holder (take session now keys resources) key =
      if key ∈ keys then session else holder resources key := by
  induction keys generalizing resources with
  | nil => rfl
  | cons first rest ih =>
    rw [take, List.foldl_cons]
    change holder (take session now rest _) key = _
    rw [ih]
    by_cases hrest : key ∈ rest
    · simp [hrest]
    · rw [if_neg hrest]
      by_cases hfirst : key = first
      · subst hfirst
        have hread : (claim session now).get? "session_id" = some (.str session) :=
          @Json.get?_ofFields [("session_id", .str session), ("last_seen_at", .str now)] (by simp)
            ("session_id", .str session) (by simp)
        rw [if_pos List.mem_cons_self, holder, Json.lookup_insertField_same, Option.bind_some,
          hread]
        rfl
      · rw [if_neg (by simp [hfirst, hrest]), holder, Json.lookup_insertField_ne hfirst, holder]

/-- What is saved is what the next call loads. -/
theorem resourcesOf_load_save (state : List (String × Json)) (resources : List (String × Json)) :
    resourcesOf (loadStateValue
        (some (saveStateValue (Json.insertField "resources" (.obj resources) state)))) =
      resources := by
  have hkeeps (state : List (String × Json))
      (h : state.lookup "resources" = some (.obj resources)) :
      (withDefaults state).lookup "resources" = some (.obj resources) := by
    unfold withDefaults
    dsimp only
    by_cases hversion : (state.lookup "schema_version").isSome = true
    · rw [if_pos hversion, h]
      exact h
    · have hlookup : (Json.insertField "schema_version" (.str "1.0") state).lookup "resources" =
          some (.obj resources) := by
        rw [Json.lookup_insertField_ne (by decide), h]
      rw [if_neg hversion, hlookup]
      exact hlookup
  have hsaved := hkeeps _ (hkeeps _ (@Json.lookup_insertField_same _ _ state))
  rw [resourcesOf]
  change (((withDefaults (withDefaults _)).lookup "resources").bind Json.asObject).getD [] = _
  rw [hsaved]
  rfl

/-! ## The gate -/

/-- The session as an answer shows it. -/
def sessionValue (session : String) : Json := if session = "" then .null else .str session

/-- The answers `validate_value` gives before it looks at the state file. -/
def earlyAnswer (call : Call) : Option Json :=
  let session := call.sessionId printFloat
  if call.requireSession printFloat && session == "" then
    some (.ofFields [("ok", .bool false), ("type", .str "memory_session_isolation"),
      ("reason_code", .str "missing_session_id"), ("command", .str (call.command printFloat))])
  else if session ≠ "" ∧ sessionIdPattern session = false then
    some (.ofFields [("ok", .bool false), ("type", .str "memory_session_isolation"),
      ("reason_code", .str "invalid_session_id"), ("session_id", .str session)])
  else if call.resourceKeys printFloat = [] then
    some (.ofFields [("ok", .bool true), ("type", .str "memory_session_isolation"),
      ("reason_code", .str "no_resource_keys"), ("command", .str (call.command printFloat)),
      ("session_id", sessionValue session)])
  else none

/-- The answer to a call one of whose keys another session holds. -/
def blockedAnswer (resources : List (String × Json)) (session key : String) : Json :=
  .ofFields [("ok", .bool false), ("type", .str "memory_session_isolation"),
    ("reason_code", .str "cross_session_leak_blocked"), ("resource_key", .str key),
    ("expected_session_id", .str (holder resources key)), ("session_id", .str session)]

/-- The answer to a call that may go on. -/
def okAnswer (session : String) (keys : List String) : Json :=
  .ofFields [("ok", .bool true), ("type", .str "memory_session_isolation"),
    ("reason_code", .str "session_isolation_ok"), ("session_id", sessionValue session),
    ("resource_key_count", .ofNat keys.length)]

/-- The table a call finds in the file. -/
def tableOf (file : Option Json) : List (String × Json) := resourcesOf (loadStateValue file)

/-- The first key of the call that another session holds. -/
def leak? (resources : List (String × Json)) (call : Call) : Option String :=
  (call.resourceKeys printFloat).find? fun key =>
    decide (HeldByOther resources (call.sessionId printFloat) key)

theorem leak?_eq_none {resources : List (String × Json)} {call : Call}
    (h : leak? printFloat resources call = none) {key : String}
    (hkey : key ∈ call.resourceKeys printFloat) :
    ¬HeldByOther resources (call.sessionId printFloat) key := by
  have hfree := List.find?_eq_none.mp h key hkey
  rwa [decide_eq_true_eq] at hfree

/-- `validate_value`: the answer and what the state file holds afterwards. -/
def validateValue (file : Option Json) (call : Call) : Json × Option Json :=
  match earlyAnswer printFloat call with
  | some answer => (answer, file)
  | none =>
    let session := call.sessionId printFloat
    let keys := call.resourceKeys printFloat
    let resources := tableOf file
    match leak? printFloat resources call with
    | some key => (blockedAnswer resources session key, file)
    | none =>
      (okAnswer session keys,
        if call.persist && session != "" then
          some (saveStateValue (Json.insertField "resources"
            (.obj (take session call.now keys resources)) (loadStateValue file)))
        else file)

/-- The reason an answer gives. -/
def reasonCode (answer : Json) : String := ((answer.get? "reason_code").bind Json.asStr).getD ""

/-- The state file after a call. -/
def step (file : Option Json) (call : Call) : Option Json := (validateValue printFloat file call).2

/-- A call that runs under a session: its id is one the gate takes. -/
def Call.HasSession (call : Call) : Prop := sessionIdPattern (call.sessionId printFloat) = true

instance (call : Call) : Decidable (call.HasSession printFloat) :=
  inferInstanceAs (Decidable (_ = true))

theorem reasonCode_ofFields {fields : List (String × Json)} {reason : String}
    (hnodup : (fields.map Prod.fst).Nodup) (h : ("reason_code", .str reason) ∈ fields) :
    reasonCode (.ofFields fields) = reason := by
  rw [reasonCode, @Json.get?_ofFields fields hnodup ("reason_code", .str reason) h]
  rfl

theorem reasonCode_blockedAnswer (resources : List (String × Json)) (session key : String) :
    reasonCode (blockedAnswer resources session key) = "cross_session_leak_blocked" :=
  reasonCode_ofFields (by simp) (by simp)

variable {printFloat}

/-- A call under a session is only answered early where it names no resource. -/
theorem resourceKeys_of_earlyAnswer {call : Call} {answer : Json}
    (hsession : call.HasSession printFloat) (h : earlyAnswer printFloat call = some answer) :
    call.resourceKeys printFloat = [] := by
  have hne := ne_empty_of_sessionIdPattern hsession
  by_contra hkeys
  have hvalid : ¬(call.sessionId printFloat ≠ "" ∧
      sessionIdPattern (call.sessionId printFloat) = false) := by
    rintro ⟨-, hinvalid⟩
    rw [Call.HasSession, hinvalid] at hsession
    cases hsession
  rw [earlyAnswer, if_neg (by simp [hne]), if_neg hvalid, if_neg hkeys] at h
  cases h

/-- No early answer lets a call on to a resource. -/
theorem reasonCode_earlyAnswer {call : Call} {answer : Json}
    (h : earlyAnswer printFloat call = some answer) :
    reasonCode answer ≠ "session_isolation_ok" := by
  unfold earlyAnswer at h
  dsimp only at h
  split_ifs at h with hmissing hinvalid hkeys
  · have hreason : reasonCode answer = "missing_session_id" := by
      rw [← Option.some.inj h]
      exact reasonCode_ofFields (by simp) (by simp)
    rw [hreason]
    decide
  · have hreason : reasonCode answer = "invalid_session_id" := by
      rw [← Option.some.inj h]
      exact reasonCode_ofFields (by simp) (by simp)
    rw [hreason]
    decide
  · have hreason : reasonCode answer = "no_resource_keys" := by
      rw [← Option.some.inj h]
      exact reasonCode_ofFields (by simp) (by simp)
    rw [hreason]
    decide

/-- A session that names a key of another session is blocked. -/
theorem reasonCode_of_held {file : Option Json} {call : Call} {key : String}
    (hsession : call.HasSession printFloat) (hkey : key ∈ call.resourceKeys printFloat)
    (hheld : HeldByOther (tableOf file) (call.sessionId printFloat) key) :
    reasonCode (validateValue printFloat file call).1 = "cross_session_leak_blocked" := by
  unfold validateValue
  cases hearly : earlyAnswer printFloat call with
  | some answer =>
    rw [resourceKeys_of_earlyAnswer hsession hearly] at hkey
    cases hkey
  | none =>
    dsimp only
    cases hleak : leak? printFloat (tableOf file) call with
    | some blocked => exact reasonCode_blockedAnswer _ _ _
    | none => exact absurd hheld (leak?_eq_none printFloat hleak hkey)

/-- What a call does to the table: nothing, or, once it has passed, it takes its keys. -/
theorem tableOf_step (file : Option Json) (call : Call) :
    tableOf (step printFloat file call) = tableOf file ∨
      (∀ key ∈ call.resourceKeys printFloat,
        ¬HeldByOther (tableOf file) (call.sessionId printFloat) key) ∧
      call.sessionId printFloat ≠ "" ∧
      tableOf (step printFloat file call) =
        take (call.sessionId printFloat) call.now (call.resourceKeys printFloat) (tableOf file) := by
  unfold step validateValue
  cases hearly : earlyAnswer printFloat call with
  | some answer => exact .inl rfl
  | none =>
    dsimp only
    cases hleak : leak? printFloat (tableOf file) call with
    | some blocked => exact .inl rfl
    | none =>
      dsimp only
      by_cases hpersist : (call.persist && call.sessionId printFloat != "") = true
      · rw [if_pos hpersist]
        refine .inr ⟨fun key hkey => leak?_eq_none printFloat hleak hkey, ?_,
          resourcesOf_load_save _ _⟩
        simpa using (Bool.and_eq_true_iff.mp hpersist).2
      · rw [if_neg hpersist]
        exact .inl rfl

/-- **Ownership is kept.**  A key stays with the session that holds it, whatever calls
come. -/
theorem holder_step {file : Option Json} {call : Call} {key : String}
    (hheld : holder (tableOf file) key ≠ "") :
    holder (tableOf (step printFloat file call)) key = holder (tableOf file) key := by
  obtain hsame | ⟨hfree, hne, htable⟩ := @tableOf_step printFloat file call
  · rw [hsame]
  · rw [htable, holder_take]
    by_cases hkey : key ∈ call.resourceKeys printFloat
    · rw [if_pos hkey]
      by_contra hother
      exact hfree key hkey ⟨hheld, hne, Ne.symm hother⟩
    · rw [if_neg hkey]

/-- A call that passes holds its keys afterwards. -/
theorem holder_of_ok {file : Option Json} {call : Call} (hsession : call.HasSession printFloat)
    (hpersist : call.persist = true)
    (hok : reasonCode (validateValue printFloat file call).1 = "session_isolation_ok")
    {key : String} (hkey : key ∈ call.resourceKeys printFloat) :
    holder (tableOf (step printFloat file call)) key = call.sessionId printFloat := by
  have hne := ne_empty_of_sessionIdPattern hsession
  unfold validateValue at hok
  unfold step validateValue
  cases hearly : earlyAnswer printFloat call with
  | some answer =>
    rw [hearly] at hok
    exact absurd hok (reasonCode_earlyAnswer hearly)
  | none =>
    rw [hearly] at hok
    dsimp only at hok ⊢
    cases hleak : leak? printFloat (tableOf file) call with
    | some blocked =>
      rw [hleak] at hok
      dsimp only at hok
      rw [reasonCode_blockedAnswer] at hok
      exact absurd hok (by decide)
    | none =>
      dsimp only
      rw [if_pos (by simp [hpersist, hne]), tableOf, resourcesOf_load_save, holder_take,
        if_pos hkey]

/-! ## Runs of calls -/

variable (printFloat)

/-- Two spellings of one flag: with dashes or with underscores. -/
def sameFlag (name other : String) : Prop :=
  name.toList.map (fun c => if c = '_' then '-' else c) =
    other.toList.map fun c => if c = '_' then '-' else c

instance (name other : String) : Decidable (sameFlag name other) :=
  inferInstanceAs (Decidable (_ = _))

/-- Two calls name one resource: one value with one flag, in some spelling of it. -/
def Shares (a b : Call) : Prop :=
  ∃ m ∈ a.named printFloat, ∃ n ∈ b.named printFloat, sameFlag m.1 n.1 ∧ m.2 = n.2

instance (a b : Call) : Decidable (Shares printFloat a b) :=
  inferInstanceAs (Decidable (∃ m ∈ a.named printFloat, ∃ n ∈ b.named printFloat, _))

/-- What a call that passed has named is closed to the later calls of other sessions. -/
def Isolated (file : Option Json) (calls : List Call) : Prop :=
  ∀ i j a b, i < j → calls[i]? = some a → calls[j]? = some b →
    reasonCode (validateValue printFloat (Runs.before (step printFloat) file calls i) a).1 =
      "session_isolation_ok" →
    b.sessionId printFloat ≠ a.sessionId printFloat → Shares printFloat a b →
    reasonCode (validateValue printFloat (Runs.before (step printFloat) file calls j) b).1 =
      "cross_session_leak_blocked"

/-- The flag table holds every value the call names. -/
def Call.Unrepeated (call : Call) : Prop :=
  ∀ n ∈ call.named printFloat,
    (List.lookup n.1 (call.flags printFloat)).map RustStd.trim = some n.2

instance (call : Call) : Decidable (call.Unrepeated printFloat) :=
  inferInstanceAs (Decidable (∀ n ∈ call.named printFloat, _))

/-- Where another session holds a value the call names, it holds it in the call's own
spelling of the flag. -/
def Spelled (file : Option Json) (call : Call) : Prop :=
  ∀ n ∈ call.named printFloat, ∀ name ∈ resourceNames, sameFlag name n.1 →
    HeldByOther (tableOf file) (call.sessionId printFloat) (resourceKey name n.2) →
    HeldByOther (tableOf file) (call.sessionId printFloat) (resourceKey n.1 n.2)

instance (file : Option Json) (call : Call) : Decidable (Spelled printFloat file call) :=
  inferInstanceAs (Decidable (∀ n ∈ call.named printFloat, ∀ name ∈ resourceNames, _))

/-- The calls the gate reads as their callers wrote them. -/
def Legible (file : Option Json) (call : Call) : Prop :=
  call.Unrepeated printFloat ∧ Spelled printFloat file call

instance (file : Option Json) (call : Call) : Decidable (Legible printFloat file call) :=
  inferInstanceAs (Decidable (_ ∧ _))

variable {printFloat}

theorem mem_resourceNames_of_named {call : Call} {n : String × String}
    (hn : n ∈ call.named printFloat) : n.1 ∈ resourceNames ∧ n.2 ≠ "" := by
  obtain ⟨flag, -, hflag⟩ := List.mem_filterMap.mp hn
  dsimp only at hflag
  split_ifs at hflag with hresource
  obtain rfl := Option.some.inj hflag
  exact hresource

/-- A value the flag table holds has its key among those of the call. -/
theorem mem_resourceKeys_of_named {call : Call} {n : String × String}
    (hn : n ∈ call.named printFloat)
    (htable : (List.lookup n.1 (call.flags printFloat)).map RustStd.trim = some n.2) :
    resourceKey n.1 n.2 ∈ call.resourceKeys printFloat := by
  obtain ⟨hname, hvalue⟩ := mem_resourceNames_of_named hn
  obtain ⟨value, hlookup, htrim⟩ := Option.map_eq_some_iff.mp htable
  refine mem_collectResourceKeys.mpr ⟨n.1, hname, ?_⟩
  rw [resourceKey?, hlookup, Option.getD_some, htrim]
  exact if_neg hvalue

/-- **Memory session isolation.**  In a run of calls under sessions, none of which
repeats a resource flag with another value or spells one otherwise than the session
that holds it, what a call that passed has named is closed to every other session. -/
theorem sessions_isolated (file : Option Json) (calls : List Call)
    (hcalls : ∀ call ∈ calls, call.HasSession printFloat ∧ call.persist = true)
    (hmeets : Runs.Meets (step printFloat) (Legible printFloat) file calls) :
    Isolated printFloat file calls := by
  intro i j a b hij hi hj hok hother hshares
  obtain ⟨m, hm, n, hn, hflag, hvalue⟩ := hshares
  have hlegible {k : ℕ} {call : Call} (hk : calls[k]? = some call) :
      Legible printFloat (Runs.before (step printFloat) file calls k) call :=
    hmeets.guard_before hk
  obtain ⟨hsession, hpersist⟩ := hcalls a (List.mem_of_getElem? hi)
  have hsession' := (hcalls b (List.mem_of_getElem? hj)).1
  -- The first session holds its key right after its call, and still when the other comes.
  let Held (file : Option Json) : Prop :=
    holder (tableOf file) (resourceKey m.1 m.2) = a.sessionId printFloat
  have hheld : Held (Runs.before (step printFloat) file calls j) := by
    refine Runs.before_induction (P := Held) (step printFloat) (Nat.succ_le_of_lt hij) ?_ ?_
    · rw [Runs.before_succ_of_some _ hi]
      exact holder_of_ok hsession hpersist hok (mem_resourceKeys_of_named hm ((hlegible hi).1 m hm))
    · intro k call _ _ hk
      exact (holder_step (hk.symm ▸ ne_empty_of_sessionIdPattern hsession)).trans hk
  -- So the key is another session's, in the spelling of either call.
  have hheldByOther : HeldByOther (tableOf (Runs.before (step printFloat) file calls j))
      (b.sessionId printFloat) (resourceKey m.1 n.2) := by
    rw [← hvalue]
    refine ⟨?_, ne_empty_of_sessionIdPattern hsession', ?_⟩
    · exact hheld.symm ▸ ne_empty_of_sessionIdPattern hsession
    · exact hheld.symm ▸ Ne.symm hother
  have hown := (hlegible hj).2 n hn m.1 (mem_resourceNames_of_named hm).1 hflag hheldByOther
  exact reasonCode_of_held hsession' (mem_resourceKeys_of_named hn ((hlegible hj).1 n hn)) hown

/-- A call with the given arguments and no options. -/
def callOf (args : List String) : Call :=
  { payload := [("args", .arr (args.map .str))], now := "2026-03-20T00:00:00.000Z" }

/-- Two sessions name one item in the same words, the second after another flag. -/
def sharedItem : List Call :=
  [callOf ["query-index", "--session-id=session-a", "--item-id=x"],
    callOf ["query-index", "--session-id=session-b", "--uid=u", "--item-id=x"]]

theorem sharedItem_isolated :
    Isolated V8Kernel.pointed none sharedItem ∧
      Shares V8Kernel.pointed sharedItem[0] sharedItem[1] :=
  ⟨sessions_isolated none sharedItem (by decide) (by decide), by decide +kernel⟩

/-- The second session writes the flag with an underscore. -/
def respeltItem : List Call :=
  [callOf ["query-index", "--session-id=session-a", "--item-id=x"],
    callOf ["query-index", "--session-id=session-b", "--item_id=x"]]

/-- The second session names the item first and then another one with the same flag. -/
def repeatedItem : List Call :=
  [callOf ["query-index", "--session-id=session-a", "--item-id=x"],
    callOf ["query-index", "--session-id=session-b", "--item-id=x", "--item-id=y"]]

/-- Both second calls pass. -/
theorem item_not_isolated :
    ¬Isolated V8Kernel.pointed none respeltItem ∧
      ¬Isolated V8Kernel.pointed none repeatedItem := by
  refine ⟨fun h => ?_, fun h => ?_⟩
  · have hblocked := h 0 1 _ _ (by decide) rfl rfl (by decide +kernel) (by decide +kernel)
      (by decide +kernel)
    revert hblocked
    decide
  · have hblocked := h 0 1 _ _ (by decide) rfl rfl (by decide) (by decide)
      (by decide)
    revert hblocked
    decide

end Protheus.SessionIsolation
