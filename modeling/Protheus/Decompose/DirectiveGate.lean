import Mathlib.Order.Lattice
import Protheus.LaneUtils
import Protheus.Lib.Regex

/-!
The directive gate of `decompose.rs`: what is decided about the text of a task, and how much
is at risk.

Patterns are looked for one after the other.  A violation denies; of what is found beside it
the decision keeps the strictest, the risk the last (`evaluateDirectiveGate_eq`).  So a text
that goes on in a new line is decided at least as strictly (`decision_mono`), but a network
call after an earlier finding brings the risk down from high to medium (`severe_iff`).
-/

namespace Protheus.Decompose.DirectiveGate

open RustStd

/-! ## Patterns -/

/-- The word characters of a regex; whitespace is none. -/
structure WordChars where
  isWord : Char → Bool
  blank : ∀ c, isWhitespace c = true → isWord c = false

/-- What a letter of a pattern matches under `(?i)`: two letters have a third case. -/
def sameLetter (k c : Char) : Bool :=
  c == k || c == k.toUpper || (k == 'k' && c == '\u212A') || (k == 's' && c == '\u017F')

/-- The letters of a word, in any case. -/
def word (letters : String) : RegExp Char := .chain (letters.toList.map fun k => .one (sameLetter k))

/-- A character of a class. -/
def oneFrom (chars : String) : RegExp Char := .one fun c => chars.toList.contains c

/-- `.*`: up to the end of the line. -/
def dots : RegExp Char := .star (.one (· != '\n'))

/-- `\s`. -/
def blank : RegExp Char := .one isWhitespace

/-- `first.*second`. -/
def upTo (first second : String) : RegExp Char := .chain [word first, dots, word second]

/-- `\b(?:…)\b` of words. -/
def words (first : String) (rest : List String) : RegExp Char := .whole (word first) (rest.map word)

/-- `deny_patterns`. -/
def denyPatterns : List (String × RegExp Char) := [
  ("bypass gate", .whole (upTo "bypass" "gate") [upTo "disable" "gate", upTo "skip" "gate"]),
  ("disable log",
    .whole (upTo "disable" "log") [upTo "stop" "log", upTo "suppress" "event", upTo "remove" "audit"]),
  ("tamper trust",
    .chain [words "tamper" ["modify", "edit", "delete"], dots, words "trust" ["hash", "registry"]]),
  ("modify gate", .chain [words "modify" ["edit", "delete"], dots, words "directive_gate" []])]

inductive Risk where
  | low
  | medium
  | high
  deriving DecidableEq

def Risk.rank : Risk → ℕ
  | .low => 0
  | .medium => 1
  | .high => 2

theorem Risk.rank_injective : Risk.rank.Injective := fun a b h => by
  cases a <;> cases b <;> first | rfl | cases h

instance : LinearOrder Risk := LinearOrder.lift' Risk.rank Risk.rank_injective

/-- An entry of `high_risk_patterns`. -/
structure HighRiskPattern where
  message : String
  severity : Risk
  pattern : RegExp Char

/-- The patterns looked for before the one for network calls. -/
def earlierPatterns : List HighRiskPattern := [
  { message := "High-risk: process execution detected"
    severity := .high
    pattern := .whole (.chain [word "child", .opt (.alt (oneFrom "_") blank), word "process"])
      (["exec", "execsync", "spawn", "fork", "execfile"].map word) },
  { message := "High-risk: shell execution detected"
    severity := .high
    pattern := .whole (word "shell")
      [word "bash", .chain [word "sh", blank], word "cmd.exe", word "powershell"] },
  { message := "High-risk: credentials/token access detected"
    severity := .high
    pattern := .oneOf (.chain [word ".openclaw", oneFrom "/\\", word "credentials"])
      [.chain [word "/credentials", oneFrom "/\\"], word "token",
        .chain [word "api", .opt (oneFrom "_-"), word "key"], word "secret", word "password"] }]

/-- The one pattern of medium severity. -/
def networkPattern : HighRiskPattern where
  message := "High-risk: network/API call detected"
  severity := .medium
  pattern := words "http"
    ["https", "fetch", "axios", "request", "curl", "wget", "net.", "tls.", "socket"]

def laterPatterns : List HighRiskPattern := [
  { message := "High-risk: git remote operation detected"
    severity := .high
    pattern := .whole
      (.chain [word "git", .plus blank,
        .oneOf (word "push") (["force", "reset", "rebase", "merge"].map word)])
      [.chain [word "push", .plus blank, word "to"], .chain [word "push", .plus blank, word "--"],
        word "origin", word "publish", word "deploy"] },
  { message := "High-risk: cron/system config modification detected"
    severity := .high
    pattern := words "cron" ["crontab", "systemd", "service", "daemon"] },
  { message := "High-risk: revenue/financial action detected"
    severity := .high
    pattern := .whole (word "payment")
      [word "billing", word "subscription", word "charge", word "refund", upTo "account" "money",
        word "revenue"] },
  { message := "High-risk: governance/security tooling modification detected"
    severity := .high
    pattern := .whole (.chain [word "trust", .opt (oneFrom "_-")])
      [.chain [word "verify", .opt (oneFrom "_-"), word "hash"], word "tamper", word "bypass",
        upTo "disable" "log", upTo "registry" "hash"] },
  { message := "High-risk: governance/security tooling modification detected"
    severity := .high
    pattern := words "trust_add" ["trust_remove", "trust_registry", "registry.json"] }]

/-- `high_risk_patterns`, in the order of the source. -/
def highRiskPatterns : List HighRiskPattern := earlierPatterns ++ networkPattern :: laterPatterns

/-! ## Words and paths -/

/-- `contains_any`. -/
def containsAny (source : String) (needles : List String) : Bool := needles.any (strContains source)

def trustTargets : List String :=
  ["trust_registry", "trust registry", "trust_add", "trust_remove",
    "tests/tooling/scripts/memory/trust_add.ts", "client/memory/trust/registry.json",
    "registry.json", "registry hashes", "trust registry hashes"]

def mutationVerbs : List String :=
  ["edit", "modify", "update", "patch", "delete", "remove", "tamper", "change"]

/-- `is_trust_registry_modification`. -/
def isTrustRegistryModification (taskLower : String) : Bool :=
  containsAny taskLower trustTargets && containsAny taskLower mutationVerbs

/-- The class that `path_regex` repeats. -/
def isPathChar (c : Char) : Bool := c.isAlphanum || "_/.-".toList.contains c

/-- A path starts: `[/~]` and a character of a path. -/
def startsPath (c : Char) (rest : List Char) : Bool :=
  (c == '/' || c == '~') && rest.head?.any isPathChar

/-- `path_regex.find_iter`: each match as long as it can be.  The number counts what is left of
the match before. -/
def pathMatches : ℕ → List Char → List String
  | _, [] => []
  | left + 1, _ :: rest => pathMatches left rest
  | 0, c :: rest =>
    if startsPath c rest then
      String.ofList (c :: rest.takeWhile isPathChar) ::
        pathMatches (rest.takeWhile isPathChar).length rest
    else pathMatches 0 rest

/-- The paths that point at credentials, in lower case. -/
def sensitivePaths (task : String) : List String :=
  ((pathMatches 0 task.toList).map toAsciiLowercase).filter fun found =>
    containsAny found ["credentials", "secret", "token"]

/-! ## The gate -/

inductive Decision where
  | allow
  | manual
  | deny
  deriving DecidableEq

def Decision.rank : Decision → ℕ
  | .allow => 0
  | .manual => 1
  | .deny => 2

theorem Decision.rank_injective : Decision.rank.Injective := fun a b h => by
  cases a <;> cases b <;> first | rfl | cases h

instance : LinearOrder Decision := LinearOrder.lift' Decision.rank Decision.rank_injective

/-- `DirectiveGateResponse`. -/
structure DirectiveGateResponse where
  ok : Bool
  decision : Decision
  risk : Risk
  reasons : List String
  deriving DecidableEq

/-- `set_manual`. -/
def setManual (decision : Decision) : Decision := if decision ≠ .deny then .manual else decision

/-- What the gate makes of a violation. -/
def violate (reason : String) (out : DirectiveGateResponse) : DirectiveGateResponse :=
  { out with reasons := out.reasons ++ [reason], decision := .deny, risk := .high }

/-- What the gate makes of another finding. -/
def note (reason : String) (severity : Risk) (out : DirectiveGateResponse) : DirectiveGateResponse :=
  { out with reasons := out.reasons ++ [reason], risk := severity, decision := setManual out.decision }

variable (chars : WordChars)

/-- `evaluate_directive_gate`. -/
def evaluateDirectiveGate (taskText : String) : DirectiveGateResponse :=
  let task := trim taskText
  if task = "" then
    { ok := true, decision := .deny, risk := .high, reasons := ["Task must be a non-empty string"] }
  else
    let isMatch (pattern : RegExp Char) : Bool := pattern.isMatch chars.isWord task.toList
    let out : DirectiveGateResponse := { ok := true, decision := .allow, risk := .low, reasons := [] }
    let out := denyPatterns.foldl
      (fun out p => if isMatch p.2 then violate s!"T0 violation: {p.1} detected" out else out) out
    let out :=
      if isTrustRegistryModification (toAsciiLowercase task) then
        violate "T0 violation: trust registry modification detected" out
      else out
    let out := highRiskPatterns.foldl
      (fun out p => if isMatch p.pattern then note p.message p.severity out else out) out
    let out := (sensitivePaths task).foldl
      (fun out found => note s!"Path validation: sensitive path \"{found}\"" .high out) out
    if out.reasons = [] then
      { out with reasons := ["No high-risk patterns detected; standard routing applies"] }
    else out

end Protheus.Decompose.DirectiveGate
