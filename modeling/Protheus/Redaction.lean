import Protheus.Json
import Protheus.Lib.Replace

/-!
The redaction of `redaction_classification_kernel.rs`.

A policy is compiled into rules, and every match of a rule that redacts is replaced by a
text the caller gives.  The engine expands that text for each match, so it may put what
it hides back in: `redaction_hides_iff` says which replacement texts do not.
-/

namespace Protheus.Redaction

open Replace

/-- The flags of `RegexBuilder` the rules set. -/
structure Flags where
  caseInsensitive : Bool
  multiLine : Bool
  dotMatchesNewLine : Bool

/-- What comes from outside: how floats are printed, and what the engine makes of a pattern; `none`
where it does not compile. -/
structure Host where
  printFloat : ℚ → String
  build : String → Flags → Option Regex

structure CompiledRule where
  regex : Regex
  label : String
  action : String
  ruleId : String

/-- `clean_text`. -/
def cleanText (host : Host) (value : Option Json) (maxLen : ℕ) : String :=
  match value with
  | some (.str v) => String.ofList ((RustStd.joinWords v).take maxLen)
  | some .null | none => ""
  | some other => String.ofList ((RustStd.joinWords (other.render host.printFloat)).take maxLen)

def orElse (text fallback : String) : String := if text = "" then fallback else text

/-- What the engine makes of the pattern of a row. -/
def buildRow (host : Host) (row : Json) (patternKey : String) : Option Regex :=
  let source := cleanText host (row.get? patternKey) 512
  let flags := (cleanText host (row.get? "flags") 16).toList
  if source = "" then none
  else host.build source
    { caseInsensitive := flags.contains 'i'
      multiLine := flags.contains 'm'
      dotMatchesNewLine := flags.contains 's' }

/-- A row of `patterns`. -/
def compilePattern (host : Host) (row : Json) : Option CompiledRule :=
  (buildRow host row "pattern").map fun regex =>
    { regex
      label := orElse (cleanText host (row.get? "label") 80) "sensitive"
      action := String.ofList ((RustStd.toAsciiLowercase
        (cleanText host (row.get? "action") 32)).toList.take 16)
      ruleId := cleanText host (row.get? "id") 80 }

/-- A row of `rules`, which redacts when it has no action. -/
def compileRule (host : Host) (row : Json) : Option CompiledRule :=
  (buildRow host row "regex").map fun regex =>
    { regex
      label := orElse (cleanText host ((row.get? "category").or (row.get? "label")) 80) "sensitive"
      action := orElse (RustStd.toAsciiLowercase (cleanText host (row.get? "action") 32)) "redact"
      ruleId := cleanText host (row.get? "id") 80 }

def compileRules (host : Host) (policy : Json) : List CompiledRule :=
  (((policy.get? "patterns").bind Json.asArray).getD []).filterMap (compilePattern host) ++
    (((policy.get? "rules").bind Json.asArray).getD []).filterMap (compileRule host)

def CompiledRule.redacts (rule : CompiledRule) : Bool :=
  ["redact", "block", "mask"].contains rule.action

def redactText (text : String) (rules : List CompiledRule) (replacement : String) : Json :=
  let out := rules.foldl (fun out rule =>
    if rule.redacts then replaceAll rule.regex out replacement else out) text
  Json.ofFields [("ok", .bool true), ("text", .str out), ("replacement", .str replacement)]

/-- Under every policy with one rule, which redacts, two texts that are the same outside its matches
have one redaction. -/
def Hides (replacement : String) : Prop :=
  ∀ (host : Host) (policy : Json) (rule : CompiledRule), compileRules host policy = [rule] →
    rule.redacts = true → ∀ text text', SameOutside rule.regex text text' →
      redactText text [rule] replacement = redactText text' [rule] replacement

variable {replacement : String}

theorem redactText_single {rule : CompiledRule} (hredacts : rule.redacts = true) (text : String) :
    redactText text [rule] replacement = Json.ofFields [("ok", .bool true),
      ("text", .str (replaceAll rule.regex text replacement)), ("replacement", .str replacement)] := by
  rw [redactText, List.foldl_cons, List.foldl_nil, if_pos hredacts]

theorem replaceAll_of_redactText {rule : CompiledRule} (hredacts : rule.redacts = true)
    {text text' : String}
    (h : redactText text [rule] replacement = redactText text' [rule] replacement) :
    replaceAll rule.regex text replacement = replaceAll rule.regex text' replacement := by
  rw [redactText_single hredacts, redactText_single hredacts] at h
  have hfields := Json.ofFields_inj (by rfl) (by simp) h
  simpa using hfields

/-! ## A rule for digits -/

/-- A policy with a rule and no action. -/
def digitsPolicy : Json := .obj [("rules", .arr [.obj [("regex", .str "[0-9]+")]])]

/-- An engine whose pattern finds runs of digits, within as many groups as are asked for. -/
def digitsHost (count : ℕ) (names : List String) : Host where
  printFloat _ := ""
  build _ _ := some (digits count names)

def digitsRule (count : ℕ) (names : List String) : CompiledRule where
  regex := digits count names
  label := "sensitive"
  action := "redact"
  ruleId := ""

theorem compileRules_digits (count : ℕ) (names : List String) :
    compileRules (digitsHost count names) digitsPolicy = [digitsRule count names] := rfl

/-- The index of a numbered reference, and the name of a named one. -/
def pieceIndex : Piece → ℕ
  | .number index => index
  | _ => 0

def pieceName : Piece → Option String
  | .named name => some name
  | _ => none

/-- Groups for all the references of a replacement. -/
def referredRule (replacement : String) : CompiledRule :=
  digitsRule (1 + ((pieces replacement).map pieceIndex).sum) ((pieces replacement).filterMap pieceName)

/-- Every reference of the replacement puts the whole match in. -/
theorem length_expand_referred {found : Captures} (hgroup : ∀ index,
      index ≤ 1 + ((pieces replacement).map pieceIndex).sum → found.group index = some found.whole) :
    ∀ piece ∈ pieces replacement, piece.isLiteral = false →
      (piece.expand (referredRule replacement).regex found).length = found.whole.length := by
  intro piece hpiece hreference
  cases piece with
  | literal c => cases hreference
  | number index =>
    have hindex : index ≤ ((pieces replacement).map pieceIndex).sum :=
      List.le_sum_of_mem (List.mem_map.mpr ⟨_, hpiece, rfl⟩)
    rw [Piece.expand, hgroup index (by omega), Option.getD_some]
  | named name =>
    have hname : name ∈ (pieces replacement).filterMap pieceName :=
      List.mem_filterMap.mpr ⟨_, hpiece, rfl⟩
    have hindex : (referredRule replacement).regex.groupIndex name = some 1 := if_pos hname
    rw [Piece.expand, hindex, Option.bind_some, hgroup 1 (by omega), Option.getD_some]

/-- A text of digits is replaced as a whole. -/
theorem length_replaceAll_referred {run : List Char} (hrun : digitRuns run = ([([], run)], [])) :
    (replaceAll (referredRule replacement).regex (String.ofList run) replacement).toList.length =
      (pieces replacement).countP Piece.isLiteral +
        (pieces replacement).countP (fun piece => !piece.isLiteral) * run.length := by
  let count := 1 + ((pieces replacement).map pieceIndex).sum
  let found : Captures :=
    { gap := [], whole := run, group := fun index => if index ≤ count then some run else none,
      group_zero := rfl }
  have hsplit : (referredRule replacement).regex.capturesIter (String.ofList run).toList =
      ([found], []) := by
    rw [String.toList_ofList]
    change ((digitRuns run).1.map _, (digitRuns run).2) = _
    rw [hrun]
    rfl
  unfold replaceAll
  dsimp only
  rw [hsplit, String.toList_ofList, List.flatMap_singleton, List.append_nil, List.nil_append]
  exact length_expand found (length_expand_referred fun index hindex => if_pos hindex)

/-- **Which replacements hide what was matched**: those that refer to no group. -/
theorem redaction_hides_iff (replacement : String) : Hides replacement ↔ IsLiteral replacement := by
  constructor
  · intro h
    by_contra hnot
    unfold IsLiteral at hnot
    push Not at hnot
    obtain ⟨piece, hpiece, hreference⟩ := hnot
    have hsame : SameOutside (referredRule replacement).regex (String.ofList ['1'])
        (String.ofList ['2', '2']) := ⟨rfl, rfl⟩
    have hredacted := h (digitsHost _ _) digitsPolicy (referredRule replacement)
      (compileRules_digits _ _) rfl _ _ hsame
    have hout : (replaceAll (referredRule replacement).regex (String.ofList ['1'])
        replacement).toList.length = (replaceAll (referredRule replacement).regex
          (String.ofList ['2', '2']) replacement).toList.length := by
      rw [replaceAll_of_redactText rfl hredacted]
    have hone := @length_replaceAll_referred replacement ['1'] rfl
    have htwo := @length_replaceAll_referred replacement ['2', '2'] rfl
    have hpos : 0 < (pieces replacement).countP (fun piece => !piece.isLiteral) :=
      List.countP_pos_iff.mpr ⟨piece, hpiece, by simpa using hreference⟩
    rw [hone, htwo, List.length_singleton, List.length_cons, List.length_singleton] at hout
    omega
  · intro h host policy rule hrule hredacts text text' hsame
    rw [redactText_single hredacts, redactText_single hredacts, replaceAll_congr h hsame]

/-- A replacement that refers to the match puts it back. -/
theorem dollar_zero_shows : ¬∀ replacement, Hides replacement := by
  intro h
  have hsame : SameOutside (digitsRule 0 []).regex "id 123" "id 456" :=
    ⟨by decide, by decide⟩
  have hout := h "<$0>" (digitsHost 0 []) digitsPolicy (digitsRule 0 [])
    (compileRules_digits 0 []) rfl "id 123" "id 456" hsame
  have hshown : replaceAll (digitsRule 0 []).regex "id 123" "<$0>" = "id <123>" := by decide
  have hshown' : replaceAll (digitsRule 0 []).regex "id 456" "<$0>" = "id <456>" := by decide
  have heq := replaceAll_of_redactText rfl hout
  rw [hshown, hshown'] at heq
  exact absurd heq (by decide)

end Protheus.Redaction
