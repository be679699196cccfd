import Protheus.AdaptiveStore.Paths

/-!
The provenance of mutations: `mutation_provenance_kernel.rs`.

A mutation names the source it comes from.  `enforce` takes a root off the front of an
absolute source, folds its backslashes, and looks for an allowed prefix at the front of
the text that is left.  The text may go on with `..`: an accepted source is at or below an
allowed prefix when its dots are resolved as long as it `Stays` (`sources_confined`).
-/

namespace Protheus.MutationProvenance

open UnixPath LaneUtils
open AdaptiveStore (normalizePathString normalizePathString_intercalate)

/-- What the process gets from outside: its working directory, the environment, the policy a path
holds, if it can be read as one, the clock, and the text of the error with which the log of
violations is appended to, if it fails. -/
structure Outside where
  root : Path
  root_ne : root ≠ []
  workspaceVar : Option String := none
  policyPathVar : Option String := none
  user : Option String := none
  strictVar : Option String := none
  adaptiveStrictVar : Option String := none
  memoryStrictVar : Option String := none
  isFile : Path → Bool
  readJson : Path → Option Json
  now : String
  appendFault : Option String := none
  printFloat : ℚ → String

/-! ## Roots -/

/-- An environment variable that is not blank. -/
def nonBlank (raw : Option String) : Option Path :=
  raw.bind fun raw => if RustStd.trim raw = "" then none else some (RustStd.trim raw).toList

def Outside.workspaceRoot (outside : Outside) : Path :=
  (nonBlank outside.workspaceVar).getD outside.root

def Outside.clientRoot (outside : Outside) : Path := join outside.workspaceRoot "client".toList

def Outside.runtimeRoot (outside : Outside) : Path :=
  join (join outside.workspaceRoot "client".toList) "runtime".toList

/-- The roots in the order in which they are tried. -/
def Outside.roots (outside : Outside) : List Path :=
  [outside.runtimeRoot, outside.clientRoot, outside.workspaceRoot]

/-! ## The policy -/

def defaultPolicyPath (outside : Outside) : Path :=
  let runtimeCandidate :=
    join (join outside.runtimeRoot "config".toList) "mutation_provenance_policy.json".toList
  if outside.isFile runtimeCandidate then runtimeCandidate
  else join (join outside.clientRoot "config".toList) "mutation_provenance_policy.json".toList

/-- `resolve_policy_path`; `none` where `clean_text` aborts. -/
def resolvePolicyPath (outside : Outside) (payload : List (String × Json)) : Option Path :=
  (cleanText outside.printFloat (payload.lookup "policy_path") 520).map fun explicit =>
    if explicit = "" then (nonBlank outside.policyPathVar).getD (defaultPolicyPath outside)
    else explicit.toList

def fallbackChannels : Json :=
  .obj
    [("adaptive", .obj [("allowed_source_prefixes", .arr (["systems/adaptive/", "systems/sensory/",
        "systems/strategy/", "systems/autonomy/", "systems/spine/", "lib/"].map Json.str)),
        ("require_reason", .bool true)]),
      ("memory", .obj [("allowed_source_prefixes", .arr (["systems/memory/", "systems/spine/",
        "systems/adaptive/core/", "lib/"].map Json.str)), ("require_reason", .bool true)])]

def fallbackPolicy : Json :=
  .obj [("channels", fallbackChannels), ("version", .str "1.0-fallback")]

/-- `value[key] = ...`, which makes an object of `null` and aborts on other values. -/
def setIndex (j : Json) (key : String) (value : Json) : Option Json :=
  match j with
  | .obj fields => some (.obj (Json.insertField key value fields))
  | .null => some (.obj [(key, value)])
  | _ => none

def loadPolicy (outside : Outside) (payload : List (String × Json)) : Option Json := do
  let path ← resolvePolicyPath outside payload
  let policy := (outside.readJson path).getD fallbackPolicy
  let policy ← if ((policy.get? "channels").bind Json.asObject).isNone then
    setIndex policy "channels" fallbackChannels else some policy
  if RustStd.trim (((policy.get? "version").bind Json.asStr).getD "") = "" then
    setIndex policy "version" (.str "1.0-fallback")
  else some policy

/-- `channel_config`: the allowed prefixes, and whether a reason is asked for. -/
def channelConfig (printFloat : ℚ → String) (policy : Json) (channel : String) : List Path × Bool :=
  let channelObj := (((policy.get? "channels").bind Json.asObject).bind (·.lookup channel)).bind
    Json.asObject
  let rows := ((channelObj.bind (·.lookup "allowed_source_prefixes")).bind Json.asArray).getD []
  let texts := rows.map fun row => normalizePathString (asStr printFloat (some row)).toList
  let prefixes := texts.filter (· ≠ [])
  (prefixes, ((channelObj.bind (·.lookup "require_reason")).bind Json.asBool).getD true)

/-! ## Sources -/

/-- The first root that is stripped off an absolute source, and what is left. -/
def strippedRoot (outside : Outside) (source : Path) : Option (Path × Path) :=
  if isAbsolute source then
    outside.roots.findSome? fun base => (stripPrefix base source).map fun rest => (base, rest)
  else none

def normalizeSource (outside : Outside) (raw : String) : Path :=
  let trimmed := (RustStd.trim raw).toList
  match strippedRoot outside trimmed with
  | some (_, rest) => normalizePathString rest
  | none => normalizePathString trimmed

/-- A text, or what stands for an empty one. -/
def orElse (text fallback : String) : String := if text = "" then fallback else text

/-- The source that `meta` names, or the one that stands in for it. -/
def sourceInput (printFloat : ℚ → String) (src : List (String × Json)) (fallbackSource : String) :
    String :=
  orElse (asStr printFloat (src.lookup "source")) (RustStd.trim fallbackSource)

/-- `normalize_meta_value`; `none` where `clean_text` aborts. -/
def normalizeMetaValue (outside : Outside) (src : List (String × Json))
    (fallbackSource defaultReason : String) : Option (List (String × Json)) := do
  let actor ← cleanText outside.printFloat (src.lookup "actor") 80
  let reason ← cleanText outside.printFloat (src.lookup "reason") 160
  let source := normalizeSource outside (sourceInput outside.printFloat src fallbackSource)
  let kept := src.filter fun field => decide (field.1 ∉ ["source", "actor", "reason"])
  some (Json.insertFields
    [("source", .str (String.ofList source)),
      ("actor", .str (orElse actor (outside.user.getD "unknown"))),
      ("reason", .str (orElse reason (RustStd.trim defaultReason)))] kept)

/-! ## Enforcing -/

/-- `parse_bool` of a value. -/
def parseBool (value : Option Json) (fallback : Bool) : Bool :=
  match value with
  | some (.bool v) => v
  | some (.str v) => V8Kernel.parseBool (some v) fallback
  | some (.num n) => ((Json.num n).asI64.map (· != 0)).getD fallback
  | _ => fallback

def isStrict (outside : Outside) (channel : String) (opts : List (String × Json)) : Bool :=
  parseBool (opts.lookup "strict") false || V8Kernel.parseBool outside.strictVar false ||
    match channel with
    | "adaptive" => V8Kernel.parseBool outside.adaptiveStrictVar false
    | "memory" => V8Kernel.parseBool outside.memoryStrictVar false
    | _ => false

/-- What `enforce` reads from its payload and its policy. -/
structure Request where
  channel : String
  policyVersion : String
  prefixes : List Path
  requireReason : Bool
  sourceInput : String
  normalized : List (String × Json)
  opts : List (String × Json)

/-- No request where a text is cut inside a character or the policy is no object, which aborts. -/
def readRequest (outside : Outside) (payload : List (String × Json)) : Option Request := do
  let channel ← cleanText outside.printFloat (payload.lookup "channel") 64
  let channel := RustStd.toAsciiLowercase channel
  let fallbackSource ← cleanText outside.printFloat (payload.lookup "fallback_source") 240
  let defaultReason ← cleanText outside.printFloat (payload.lookup "default_reason") 160
  let policy ← loadPolicy outside payload
  let config := channelConfig outside.printFloat policy channel
  let src := ((payload.lookup "meta").bind Json.asObject).getD []
  let normalized ← normalizeMetaValue outside src fallbackSource defaultReason
  some
    { channel
      policyVersion := asStr outside.printFloat (policy.get? "version")
      prefixes := config.1
      requireReason := config.2
      sourceInput := sourceInput outside.printFloat src fallbackSource
      normalized
      opts := ((payload.lookup "opts").bind Json.asObject).getD [] }

/-- `str::trim_end_matches('/')`. -/
def trimEndSlashes (p : Path) : Path := (p.reverse.dropWhile (· == '/')).reverse

/-- The source is an allowed prefix without its slash, or starts with one. -/
def allowed (prefixes : List Path) (source : Path) : Bool :=
  prefixes.any fun allowedPrefix =>
    source == trimEndSlashes allowedPrefix || allowedPrefix.isPrefixOf source

def Request.source (outside : Outside) (request : Request) : String :=
  asStr outside.printFloat (request.normalized.lookup "source")

def sourceViolations (prefixes : List Path) (source : String) : List String :=
  if source = "" then ["missing_source"]
  else if allowed prefixes source.toList then [] else ["source_not_allowlisted"]

/-- The violations of a request; `none` where `clean_text` aborts. -/
def violations (outside : Outside) (request : Request) : Option (List String) :=
  let reason := if request.requireReason then
    cleanText outside.printFloat (request.normalized.lookup "reason") 160 else some "given"
  reason.map fun reason => sourceViolations request.prefixes (request.source outside) ++
    if reason = "" then ["missing_reason"] else []

/-- What a command returns, and the row it wants to append to the log of violations. -/
structure Outcome where
  row : Option Json := none
  result : Except String Json

def violationRow (outside : Outside) (request : Request) (found : List String) (context : String) :
    Json :=
  let source := request.source outside
  Json.ofFields
    [("ts", .str outside.now), ("type", .str "mutation_provenance_violation"),
      ("channel", .str request.channel), ("policy_version", .str request.policyVersion),
      ("source", if source = "" then .null else .str source),
      ("reason", (request.normalized.lookup "reason").getD .null),
      ("actor", (request.normalized.lookup "actor").getD .null),
      ("context", .str context), ("violations", .arr (found.map .str))]

def response (outside : Outside) (request : Request) (found : List String) : Json :=
  Json.ofFields
    [("ok", .bool found.isEmpty), ("channel", .str request.channel),
      ("policy_version", .str request.policyVersion), ("meta", .obj request.normalized),
      ("source_rel", .str (request.source outside)), ("violations", .arr (found.map .str))]

/-- `enforce_value`. -/
def enforceValue (outside : Outside) (payload : List (String × Json)) : Option Outcome := do
  let request ← readRequest outside payload
  let found ← violations outside request
  let out := response outside request found
  if found.isEmpty then some { result := .ok out }
  else
    let context ← cleanText outside.printFloat (request.opts.lookup "context") 200
    let row := some (violationRow outside request found context)
    if let some err := outside.appendFault then some { row, result := .error err }
    else if isStrict outside request.channel request.opts then
      some { row, result := .error ("mutation_provenance_blocked:" ++ request.channel ++ ":" ++
        ",".intercalate found) }
    else some { row, result := .ok out }

/-! ## Where a source leads -/

/-- What a path stands for from a root, with its dots resolved. -/
def placeFrom (base p : Path) : Place := resolve (join (normalizePathString base) p)

/-- Taken from one of the roots, the source is an allowed prefix or lies below it. -/
def Confined (outside : Outside) (prefixes : List Path) (raw : String) : Prop :=
  ∃ base ∈ outside.roots, ∃ allowedPrefix ∈ prefixes, (placeFrom base allowedPrefix).Holds
    (placeFrom base (normalizePathString (RustStd.trim raw).toList))

instance (outside : Outside) (prefixes : List Path) (raw : String) :
    Decidable (Confined outside prefixes raw) :=
  inferInstanceAs (Decidable (∃ base ∈ outside.roots, ∃ allowedPrefix ∈ prefixes, _))

/-- After an allowed prefix the source never climbs above it. -/
def NeverClimbs (prefixes : List Path) (source : Path) : Prop :=
  ∃ allowedPrefix ∈ prefixes, source = trimEndSlashes allowedPrefix ∨
    allowedPrefix <+: source ∧ (route (segments (source.drop allowedPrefix.length))).ups = 0

instance (prefixes : List Path) (source : Path) : Decidable (NeverClimbs prefixes source) :=
  inferInstanceAs (Decidable (∃ allowedPrefix ∈ prefixes, _ ∨ _))

/-- The text that is left of a source is read as it is: no blanks are trimmed off it, and no
backslash at its front passes for the root. -/
def ReadAsIs (outside : Outside) (raw : String) : Prop :=
  RustStd.trim (String.ofList (normalizeSource outside raw)) =
      String.ofList (normalizeSource outside raw) ∧
    ((strippedRoot outside (RustStd.trim raw).toList).isSome →
      isAbsolute (normalizeSource outside raw) = false)

instance (outside : Outside) (raw : String) : Decidable (ReadAsIs outside raw) :=
  inferInstanceAs (Decidable (_ ∧ (_ → _)))

/-- What keeps an accepted source below the prefix that it starts with. -/
def Stays (outside : Outside) (prefixes : List Path) (raw : String) : Prop :=
  ReadAsIs outside raw ∧ NeverClimbs prefixes (normalizeSource outside raw)

instance (outside : Outside) (prefixes : List Path) (raw : String) :
    Decidable (Stays outside prefixes raw) :=
  inferInstanceAs (Decidable (_ ∧ _))

/-- `enforce` answers `ok` to the request of a payload. -/
def Accepts (outside : Outside) (payload : List (String × Json)) (request : Request) : Prop :=
  readRequest outside payload = some request ∧ ∃ outcome out,
    enforceValue outside payload = some outcome ∧ outcome.result = .ok out ∧
      out.get? "ok" = some (.bool true)

/-! ## Backslashes -/

theorem segments_normalizePathString (p : Path) : segments (normalizePathString p) =
    (segments p).flatMap fun seg => segments (normalizePathString seg) := by
  have hmap : normalizePathString p =
      ['/'].intercalate ((segments p).map normalizePathString) := by
    rw [← normalizePathString_intercalate, segments, List.intercalate_splitOn]
  rw [hmap, segments_intercalate_flatMap (by simp [segments]), List.flatMap_map]

/-- The components that a component has once its backslashes are folded. -/
def reread : Comp → List Comp
  | .normal name => body (segments (normalizePathString name))
  | c => [c]

theorem body_reread (seg : List Char) :
    body (segments (normalizePathString seg)) = (body [seg]).flatMap reread := by
  cases hseg : comp? seg with
  | none =>
    rw [body_cons_of_none hseg]
    unfold comp? at hseg
    split at hseg
    · rfl
    · rfl
    · cases hseg
    · cases hseg
  | some c =>
    rw [body_cons_of_some hseg]
    unfold comp? at hseg
    split at hseg
    · cases hseg
    · cases hseg
    · obtain rfl := Option.some.inj hseg
      rfl
    · obtain rfl := Option.some.inj hseg
      exact (List.append_nil _).symm

/-- Folding the backslashes of a path rereads its components. -/
theorem body_segments_normalizePathString (p : Path) :
    body (segments (normalizePathString p)) = (body (segments p)).flatMap reread := by
  rw [segments_normalizePathString]
  generalize segments p = segs
  induction segs with
  | nil => rfl
  | cons seg segs ih =>
    rw [List.flatMap_cons, body_append, ih, body_reread, ← List.flatMap_append, ← body_append,
      List.singleton_append]

theorem isAbsolute_normalizePathString {p : Path} (h : isAbsolute p = true) :
    isAbsolute (normalizePathString p) = true := by
  obtain ⟨q, rfl⟩ := isAbsolute_iff.mp h
  rfl

theorem components_ne_nil_of {p : Path} (h : p ≠ []) : components p ≠ [] := by
  intro hnil
  obtain ⟨hlead, hbody⟩ := List.append_eq_nil_iff.mp hnil
  cases p with
  | nil => exact h rfl
  | cons c q =>
    obtain ⟨-, hroot⟩ | ⟨habs, -⟩ := lead_cases (c :: q)
    · rw [hroot] at hlead
      cases hlead
    · have hc : ¬c = '/' := by simpa [isAbsolute] using habs
      have hsegs : segments (c :: q) = (segments q).modifyHead (c :: ·) := by
        rw [segments, List.splitOn_cons_eq_if_modifyHead, if_neg (by simpa using hc), segments]
      rw [lead, hsegs] at hlead
      rw [hsegs] at hbody
      cases hq : segments q with
      | nil => exact List.splitOn_ne_nil '/' q hq
      | cons first rest =>
        rw [hq, List.modifyHead_cons] at hlead hbody
        cases hcomp : comp? (c :: first) with
        | some found =>
          rw [body_cons_of_some hcomp] at hbody
          cases hbody
        | none =>
          unfold comp? at hcomp
          split at hcomp
          · rename_i heq
            cases heq
          · rename_i heq
            rw [heq] at hlead
            cases hlead
          · cases hcomp
          · cases hcomp

/-! ## From a root -/

section Roots

variable {outside : Outside} {raw : String} {base p rest : Path} {prefixes : List Path}

theorem join_ne_nil (hrel : rest ≠ []) : join base rest ≠ [] := by
  rw [join]
  split
  · exact hrel
  · split
    · exact List.append_ne_nil_of_right_ne_nil base hrel
    · exact List.append_ne_nil_of_right_ne_nil base (List.cons_ne_nil _ _)

theorem workspaceRoot_ne_nil (outside : Outside) : outside.workspaceRoot ≠ [] := by
  rw [Outside.workspaceRoot]
  cases hvar : nonBlank outside.workspaceVar with
  | none => exact outside.root_ne
  | some path =>
    obtain ⟨raw, -, hraw⟩ := Option.bind_eq_some_iff.mp hvar
    split at hraw
    · cases hraw
    · rename_i htrim
      rw [Option.getD_some, ← Option.some.inj hraw]
      simpa using htrim

theorem components_root (h : base ∈ outside.roots) : components base ≠ [] := by
  refine components_ne_nil_of ?_
  simp only [Outside.roots, List.mem_cons, List.not_mem_nil, or_false] at h
  obtain rfl | rfl | rfl := h
  · exact join_ne_nil (by decide)
  · exact join_ne_nil (by decide)
  · exact workspaceRoot_ne_nil outside

theorem strippedRoot_spec (h : strippedRoot outside p = some (base, rest)) :
    base ∈ outside.roots ∧ isAbsolute p = true ∧ stripPrefix base p = some rest := by
  rw [strippedRoot] at h
  split at h
  · rename_i habs
    obtain ⟨found, hmem, hfound⟩ := List.exists_of_findSome?_eq_some h
    obtain ⟨left, hleft, heq⟩ := Option.map_eq_some_iff.mp hfound
    obtain ⟨rfl, rfl⟩ := Prod.mk.inj heq
    exact ⟨hmem, habs, hleft⟩
  · cases h

/-- Stripping a root leaves the route from it. -/
theorem resolve_stripped (h : strippedRoot outside p = some (base, rest)) :
    isAbsolute (normalizePathString p) = true ∧ resolve (normalizePathString p) =
      (resolve (normalizePathString base)).follow (route (segments (normalizePathString rest))) := by
  obtain ⟨hmem, habs, hstrip⟩ := strippedRoot_spec h
  obtain ⟨hsame, hbody⟩ := body_of_stripPrefix (components_root hmem) hstrip
  have hnormal := isAbsolute_normalizePathString habs
  have hbase := isAbsolute_normalizePathString (hsame.symm.trans habs)
  refine ⟨hnormal, resolve_of_body (hnormal.trans hbase.symm) ?_⟩
  rw [body_segments_normalizePathString, hbody, List.flatMap_append,
    ← body_segments_normalizePathString, ← body_segments_normalizePathString]

theorem placeFrom_absolute (h : isAbsolute p = true) : placeFrom base p = resolve p := by
  rw [placeFrom, join, if_pos h]

theorem placeFrom_relative (h : isAbsolute p = false) :
    placeFrom base p = (resolve (normalizePathString base)).follow (route (segments p)) := by
  rw [placeFrom, resolve_join h, resolve_eq p, h, if_neg Bool.false_ne_true]

/-- What follows a slash is a route from there. -/
theorem resolve_append_of_slash (hlast : p.getLast? = some '/') (rest : Path) :
    resolve (p ++ rest) = (resolve p).follow (route (segments rest)) := by
  obtain ⟨front, rfl⟩ := List.getLast?_eq_some_iff.mp hlast
  refine resolve_of_body ?_ ?_
  · cases front with
    | nil => rfl
    | cons c front => rfl
  · rw [List.append_assoc, List.singleton_append, segments_append_slash, segments_append_slash,
      body_append, body_append]
    simp [segments]

theorem join_append (hp : p ≠ []) (rest : Path) : join base (p ++ rest) = join base p ++ rest := by
  have habs : isAbsolute (p ++ rest) = isAbsolute p := by
    cases p with
    | nil => exact absurd rfl hp
    | cons c p => rfl
  rw [join, join, habs]
  split
  · rfl
  · split
    · rw [List.append_assoc]
    · rw [List.append_assoc, List.cons_append]

theorem getLast?_join (hp : p ≠ []) : (join base p).getLast? = p.getLast? := by
  rw [join]
  split
  · rfl
  · split
    · rw [List.getLast?_append_of_ne_nil _ hp]
    · rw [List.getLast?_append_of_ne_nil _ (List.cons_ne_nil _ _),
        List.getLast?_cons_of_ne_nil hp]

/-- What a source adds to an allowed prefix is a route from it. -/
theorem placeFrom_append (hlast : p.getLast? = some '/') (rest : Path) :
    placeFrom base (p ++ rest) = (placeFrom base p).follow (route (segments rest)) := by
  have hp : p ≠ [] := by
    rintro rfl
    cases hlast
  rw [placeFrom, join_append hp, resolve_append_of_slash ((getLast?_join hp).trans hlast), placeFrom]

/-- An allowed prefix stands for the same place without its slash. -/
theorem placeFrom_trimEndSlashes (h : trimEndSlashes p ≠ []) :
    placeFrom base (trimEndSlashes p) = placeFrom base p := by
  obtain ⟨slashes, hslashes, hall⟩ : ∃ slashes, trimEndSlashes p ++ slashes = p ∧
      ∀ c ∈ slashes, c = '/' := by
    refine ⟨(p.reverse.takeWhile (· == '/')).reverse, ?_, ?_⟩
    · rw [trimEndSlashes, ← List.reverse_append, List.takeWhile_append_dropWhile,
        List.reverse_reverse]
    · intro c hc
      simpa using List.mem_takeWhile_imp (List.mem_reverse.mp hc)
  generalize trimEndSlashes p = exact at h hslashes
  subst hslashes
  cases slashes with
  | nil => rw [List.append_nil]
  | cons c slashes =>
    obtain rfl := hall c List.mem_cons_self
    have hblank (slashes : Path) (hall : ∀ c ∈ slashes, c = '/') : body (segments slashes) = [] := by
      induction slashes with
      | nil => rfl
      | cons c slashes ih =>
        obtain rfl := hall c List.mem_cons_self
        rw [segments_cons_slash]
        exact ih fun c hc => hall c (List.mem_cons_of_mem _ hc)
    have hroute := hblank slashes fun c hc => hall c (List.mem_cons_of_mem _ hc)
    rw [placeFrom, placeFrom, join_append h]
    have hjoin := @join_ne_nil (normalizePathString base) exact h
    generalize join (normalizePathString base) exact = path at hjoin
    have hplace : resolve (path ++ '/' :: slashes) =
        (resolve path).follow (route (segments slashes)) := by
      refine resolve_of_body ?_ ?_
      · cases path with
        | nil => exact absurd rfl hjoin
        | cons c path => rfl
      · rw [segments_append_slash, body_append]
    rw [hplace, route, hroute]
    exact (Place.follow_start _).symm

theorem confined_of_stays (hslash : ∀ allowedPrefix ∈ prefixes, allowedPrefix.getLast? = some '/')
    (hne : normalizeSource outside raw ≠ []) (h : Stays outside prefixes raw) :
    Confined outside prefixes raw := by
  obtain ⟨⟨-, hrelative⟩, allowedPrefix, hmem, hfront⟩ := h
  -- The root that was taken off, or any, where none was.
  obtain ⟨base, hbase, hplace⟩ : ∃ base ∈ outside.roots,
      placeFrom base (normalizePathString (RustStd.trim raw).toList) =
        placeFrom base (normalizeSource outside raw) := by
    cases hstrip : strippedRoot outside (RustStd.trim raw).toList with
    | some found =>
      obtain ⟨base, rest⟩ := found
      obtain ⟨hbase, -, -⟩ := strippedRoot_spec hstrip
      obtain ⟨habs, hresolve⟩ := resolve_stripped hstrip
      have hsource : normalizeSource outside raw = normalizePathString rest := by
        rw [normalizeSource, hstrip]
      have hrest := hrelative (by rw [hstrip]; rfl)
      refine ⟨base, hbase, ?_⟩
      rw [placeFrom_absolute habs, hresolve, placeFrom_relative hrest, hsource]
    | none =>
      refine ⟨outside.runtimeRoot, List.mem_cons_self, ?_⟩
      rw [normalizeSource, hstrip]
  refine ⟨base, hbase, allowedPrefix, hmem, ?_⟩
  rw [hplace]
  cases hfront with
  | inl hexact =>
    rw [hexact] at hne ⊢
    rw [placeFrom_trimEndSlashes hne]
    exact ⟨rfl, rfl, List.prefix_rfl⟩
  | inr hstart =>
    obtain ⟨⟨rest, hrest⟩, hups⟩ := hstart
    rw [← hrest, List.drop_left] at hups
    rw [← hrest, placeFrom_append (hslash _ hmem)]
    exact Place.holds_follow_of_ups_eq_zero hups

end Roots

/-! ## What is accepted -/

section Accepted

variable {outside : Outside} {payload : List (String × Json)} {request : Request}

theorem lookup_normalizeMetaValue {src normalized : List (String × Json)}
    {fallbackSource defaultReason : String}
    (h : normalizeMetaValue outside src fallbackSource defaultReason = some normalized) :
    normalized.lookup "source" = some (.str (String.ofList (normalizeSource outside
      (sourceInput outside.printFloat src fallbackSource)))) := by
  rw [normalizeMetaValue] at h
  obtain ⟨actor, -, h⟩ := Option.bind_eq_some_iff.mp h
  obtain ⟨reason, -, h⟩ := Option.bind_eq_some_iff.mp h
  obtain rfl := Option.some.inj h
  exact Json.lookup_insertFields (by simp) (f := ("source", _)) (by simp)

/-- What is checked is the text that is left of the source, trimmed. -/
theorem source_eq (h : readRequest outside payload = some request) :
    request.source outside =
      RustStd.trim (String.ofList (normalizeSource outside request.sourceInput)) := by
  rw [readRequest] at h
  obtain ⟨channel, -, h⟩ := Option.bind_eq_some_iff.mp h
  obtain ⟨fallbackSource, -, h⟩ := Option.bind_eq_some_iff.mp h
  obtain ⟨defaultReason, -, h⟩ := Option.bind_eq_some_iff.mp h
  obtain ⟨policy, -, h⟩ := Option.bind_eq_some_iff.mp h
  obtain ⟨normalized, hmeta, h⟩ := Option.bind_eq_some_iff.mp h
  have hsource := lookup_normalizeMetaValue hmeta
  obtain rfl := Option.some.inj h
  rw [Request.source, hsource, asStr]

theorem get?_ok_response (found : List String) :
    (response outside request found).get? "ok" = some (.bool found.isEmpty) :=
  Json.get?_ofFields_mem (by simp) List.mem_cons_self

/-- An accepted request has no violations. -/
theorem accepts_iff : Accepts outside payload request ↔
    readRequest outside payload = some request ∧ violations outside request = some [] := by
  constructor
  · rintro ⟨hread, outcome, out, hrun, hresult, hok⟩
    refine ⟨hread, ?_⟩
    rw [enforceValue, hread, Option.bind_eq_bind, Option.bind_some] at hrun
    obtain ⟨found, hfound, hrun⟩ := Option.bind_eq_some_iff.mp hrun
    cases found with
    | nil => exact hfound
    | cons violation found =>
      rw [List.isEmpty_cons, if_neg Bool.false_ne_true] at hrun
      obtain ⟨context, -, hrun⟩ := Option.bind_eq_some_iff.mp hrun
      dsimp only at hrun
      split at hrun
      · rw [← Option.some.inj hrun] at hresult
        cases hresult
      · split at hrun
        · rw [← Option.some.inj hrun] at hresult
          cases hresult
        · rw [← Option.some.inj hrun] at hresult
          rw [← Except.ok.inj hresult, get?_ok_response] at hok
          cases Option.some.inj hok
  · rintro ⟨hread, hfound⟩
    refine ⟨hread, ?_⟩
    rw [enforceValue, hread, Option.bind_eq_bind, Option.bind_some, hfound]
    exact ⟨_, _, rfl, rfl, get?_ok_response []⟩

/-- An accepted source is not empty. -/
theorem normalizeSource_ne_nil (h : Accepts outside payload request) :
    normalizeSource outside request.sourceInput ≠ [] := by
  obtain ⟨reason, -, hfound⟩ := Option.map_eq_some_iff.mp (accepts_iff.mp h).2
  have hsource := (List.append_eq_nil_iff.mp hfound).1
  intro hnil
  rw [source_eq h.1, hnil] at hsource
  cases hsource

end Accepted

/-- **An accepted source that stays is confined**: its remaining text is read as it is and never
climbs above the prefix it starts with. -/
theorem sources_confined (outside : Outside) (payload : List (String × Json)) (request : Request)
    (hslash : ∀ allowedPrefix ∈ request.prefixes, allowedPrefix.getLast? = some '/')
    (haccepts : Accepts outside payload request)
    (hstays : Stays outside request.prefixes request.sourceInput) :
    Confined outside request.prefixes request.sourceInput :=
  confined_of_stays hslash (normalizeSource_ne_nil haccepts) hstays

/-! ## A workspace -/

/-- A workspace without a policy file. -/
def workspace : Outside where
  root := "/w".toList
  root_ne := by decide
  isFile _ := false
  readJson _ := none
  now := "2026-01-01T00:00:00.000Z"
  printFloat := V8Kernel.pointed

def adaptivePayload (source : String) : List (String × Json) :=
  [("channel", .str "adaptive"),
    ("meta", .obj [("reason", .str "sync"), ("source", .str source)])]

/-- The request of such a payload, whose source is left as `source_rel` by the roots. -/
def adaptiveRequest (source sourceRel : String) : Request where
  channel := "adaptive"
  policyVersion := "1.0-fallback"
  prefixes := (channelConfig workspace.printFloat fallbackPolicy "adaptive").1
  requireReason := true
  sourceInput := source
  normalized := [("actor", .str "unknown"), ("reason", .str "sync"), ("source", .str sourceRel)]
  opts := []

/-- A dot-dot that stays below its prefix. -/
theorem lib_confined : Confined workspace
    (adaptiveRequest "/w/client/runtime/lib/a/../b.ts" "lib/a/../b.ts").prefixes
    "/w/client/runtime/lib/a/../b.ts" := by
  have haccepts : Accepts workspace (adaptivePayload "/w/client/runtime/lib/a/../b.ts")
      (adaptiveRequest "/w/client/runtime/lib/a/../b.ts" "lib/a/../b.ts") :=
    accepts_iff.mpr ⟨rfl, by decide +kernel⟩
  have hslash : ∀ allowedPrefix ∈
      (adaptiveRequest "/w/client/runtime/lib/a/../b.ts" "lib/a/../b.ts").prefixes,
        allowedPrefix.getLast? = some '/' := by
    decide +kernel
  exact sources_confined workspace _ _ hslash haccepts (by decide +kernel)

/-- The source of the failing request climbs out of the prefix it starts with. -/
theorem etc_not_confined : ¬∀ (outside : Outside) (payload : List (String × Json))
    (request : Request),
      (∀ allowedPrefix ∈ request.prefixes, allowedPrefix.getLast? = some '/') →
        Accepts outside payload request →
          Confined outside request.prefixes request.sourceInput := by
  intro h
  have haccepts : Accepts workspace (adaptivePayload "systems/adaptive/../../etc/x")
      (adaptiveRequest "systems/adaptive/../../etc/x" "systems/adaptive/../../etc/x") :=
    accepts_iff.mpr ⟨rfl, by decide +kernel⟩
  have hout : ¬Confined workspace
      (adaptiveRequest "systems/adaptive/../../etc/x" "systems/adaptive/../../etc/x").prefixes
      "systems/adaptive/../../etc/x" := by
    decide +kernel
  exact hout (h workspace _ _ (by decide +kernel) haccepts)

end Protheus.MutationProvenance
