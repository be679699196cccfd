import Protheus.Decompose.DirectiveGate

/-!
How strict the directive gate is, and how much is at risk, when a task goes on.

What is found in a text is found in the text continued by a new line (`found_subset`).  The
decision is the strictest of what is found, so it never gets milder.  The risk is that of the
last finding, and it is the highest unless a network call is found after something else and
before nothing (`Overshadowed`).
-/

namespace Protheus.Decompose.DirectiveGate

open RustStd LaneUtils

variable (chars : WordChars)

/-! ## What is found -/

/-- A finding, with what is said about it. -/
inductive Finding where
  | violation (reason : String)
  | risky (reason : String) (severity : Risk)

namespace Finding

def severity : Finding → Risk
  | violation _ => .high
  | risky _ severity => severity

def isViolation : Finding → Bool
  | violation _ => true
  | risky _ _ => false

/-- The gate takes a finding. -/
def enter (out : DirectiveGateResponse) : Finding → DirectiveGateResponse
  | violation reason => violate reason out
  | risky reason severity => note reason severity out

end Finding

/-- A pattern is found in a task. -/
def Found (pattern : RegExp Char) (task : String) : Prop := pattern.isMatch chars.isWord task.toList = true

instance (pattern : RegExp Char) (task : String) : Decidable (Found chars pattern task) :=
  inferInstanceAs (Decidable (_ = true))

/-- What is found by patterns of high risk. -/
def foundOf (patterns : List HighRiskPattern) (task : String) : List Finding :=
  (patterns.filter fun p => p.pattern.isMatch chars.isWord task.toList).map fun p =>
    .risky p.message p.severity

/-- What is found before the high-risk patterns are looked for. -/
def violations (task : String) : List Finding :=
  (denyPatterns.filter fun p => p.2.isMatch chars.isWord task.toList).map
    (fun p => .violation s!"T0 violation: {p.1} detected") ++
  if isTrustRegistryModification (toAsciiLowercase task) then
    [.violation "T0 violation: trust registry modification detected"]
  else []

def foundPaths (task : String) : List Finding :=
  (sensitivePaths task).map fun found => .risky s!"Path validation: sensitive path \"{found}\"" .high

/-- All that is found in a task, in the order of the source. -/
def found (task : String) : List Finding :=
  violations chars task ++ foundOf chars highRiskPatterns task ++ foundPaths task

/-- The response before anything is found. -/
def cleared : DirectiveGateResponse where
  ok := true
  decision := .allow
  risk := .low
  reasons := []

/-- **The gate takes all that is found, one finding after the other.** -/
theorem evaluateDirectiveGate_eq {taskText : String} (h : trim taskText ≠ "") :
    let out := (found chars (trim taskText)).foldl Finding.enter cleared
    evaluateDirectiveGate chars taskText =
      if out.reasons = [] then
        { out with reasons := ["No high-risk patterns detected; standard routing applies"] }
      else out := by
  have hviolations (task : String) (out : DirectiveGateResponse) :
      (violations chars task).foldl Finding.enter out =
        (let out := denyPatterns.foldl (fun out p =>
          if p.2.isMatch chars.isWord task.toList then violate s!"T0 violation: {p.1} detected" out else out) out
        if isTrustRegistryModification (toAsciiLowercase task) then
          violate "T0 violation: trust registry modification detected" out
        else out) := by
    rw [violations, List.foldl_append, List.foldl_map, List.foldl_filter]
    dsimp only
    split <;> rfl
  simp only [evaluateDirectiveGate, if_neg h, found, List.foldl_append, hviolations, foundOf, foundPaths,
    List.foldl_map, List.foldl_filter]
  rfl

/-! ## The decision and the risk -/

variable {chars}

theorem decision_foldl (findings : List Finding) (out : DirectiveGateResponse) :
    (findings.foldl Finding.enter out).decision =
      if findings.any Finding.isViolation then .deny
      else if findings = [] then out.decision else setManual out.decision := by
  induction findings generalizing out with
  | nil => rfl
  | cons f findings ih =>
    rw [List.foldl_cons, ih]
    cases f with
    | violation reason =>
      have hdeny : (Finding.enter out (.violation reason)).decision = .deny := rfl
      rw [hdeny]
      simp [setManual, Finding.isViolation]
    | risky reason severity =>
      have hmanual : (Finding.enter out (.risky reason severity)).decision = setManual out.decision := rfl
      have htwice : setManual (setManual out.decision) = setManual out.decision := by
        cases out.decision <;> rfl
      simp [hmanual, htwice, Finding.isViolation]

theorem risk_foldl (findings : List Finding) (out : DirectiveGateResponse) :
    (findings.foldl Finding.enter out).risk = (findings.map Finding.severity).getLastD out.risk := by
  induction findings generalizing out with
  | nil => rfl
  | cons f findings ih =>
    have hrisk : (Finding.enter out f).risk = f.severity := by cases f <;> rfl
    rw [List.foldl_cons, ih, hrisk, List.map_cons, List.getLastD_cons]

theorem decision_eq {taskText : String} (h : trim taskText ≠ "") :
    (evaluateDirectiveGate chars taskText).decision =
      if (found chars (trim taskText)).any Finding.isViolation then .deny
      else if found chars (trim taskText) = [] then .allow else .manual := by
  have hfold := decision_foldl (found chars (trim taskText)) cleared
  rw [evaluateDirectiveGate_eq chars h]
  rw [apply_ite DirectiveGateResponse.decision, ite_self, hfold]
  rfl

/-- The risk is that of the last finding. -/
theorem risk_eq {taskText : String} (h : trim taskText ≠ "") :
    (evaluateDirectiveGate chars taskText).risk =
      ((found chars (trim taskText)).map Finding.severity).getLastD .low := by
  have hfold := risk_foldl (found chars (trim taskText)) cleared
  rw [evaluateDirectiveGate_eq chars h]
  rw [apply_ite DirectiveGateResponse.risk, ite_self, hfold]
  rfl

/-! ## A task that goes on -/

/-- A text that is not blank keeps what is left of it by `trim` when a new line follows. -/
theorem trim_newline {t : String} (ht : trim t ≠ "") (s : String) :
    ∃ more, (trim (t ++ "\n" ++ s)).toList = (trim t).toList ++ more ∧
      ∀ c ∈ more.head?, isWhitespace c = true := by
  have htrim (u : String) : (trim u).toList = trimEnd (u.toList.dropWhile isWhitespace) := by
    rw [trim, String.toList_ofList, trimEnd]
  generalize hwhole : t.toList.dropWhile isWhitespace = visible
  obtain ⟨blanks, hcut, hblanks⟩ :
      ∃ blanks, visible = trimEnd visible ++ blanks ∧ ∀ c ∈ blanks, isWhitespace c = true := by
    refine ⟨(visible.reverse.takeWhile isWhitespace).reverse, ?_, fun c hc => ?_⟩
    · rw [trimEnd, ← List.reverse_append, List.takeWhile_append_dropWhile, List.reverse_reverse]
    · exact List.mem_takeWhile_imp (List.mem_reverse.mp hc)
  have hvisible : visible.isEmpty = false := by
    rw [List.isEmpty_eq_false_iff]
    intro hnil
    refine ht (String.toList_injective ?_)
    rw [htrim, hwhole, hnil]
    rfl
  refine ⟨trimEnd (blanks ++ '\n' :: s.toList), ?_, fun c hc => ?_⟩
  · have hlist : (t ++ "\n" ++ s).toList = t.toList ++ '\n' :: s.toList := by simp
    rw [htrim, htrim, hlist, List.dropWhile_append, hwhole, hvisible, if_neg (by simp)]
    conv_lhs => rw [hcut, List.append_assoc, trimEnd_append (trimEnd_last _)]
  · obtain ⟨rest, hrest⟩ := List.head?_eq_some_iff.mp hc
    obtain ⟨after, hafter⟩ := trimEnd_initial (blanks ++ '\n' :: s.toList)
    rw [hrest, List.cons_append] at hafter
    cases blanks with
    | nil =>
      obtain rfl := (List.cons.inj hafter).1
      rfl
    | cons b blanks =>
      obtain rfl := (List.cons.inj hafter).1
      exact hblanks _ (.head _)

theorem strContains_append {text needle : String} (h : strContains text needle = true) (more : String) :
    strContains (text ++ more) needle = true := by
  have hwithin : needle.toList <:+: text.toList := of_decide_eq_true h
  rw [strContains, String.toList_append]
  exact decide_eq_true (hwithin.trans (List.infix_append' [] _ _))

section Continued

variable {task more : String} (hmore : ∀ c ∈ more.toList.head?, isWhitespace c = true)
include hmore

theorem Found.continued {pattern : RegExp Char} (h : Found chars pattern task) :
    Found chars pattern (task ++ more) := by
  rw [Found, String.toList_append]
  exact RegExp.isMatch_append (fun c hc => chars.blank c (hmore c hc)) h

theorem pathMatches_continued (left : ℕ) (l : List Char) :
    pathMatches left l <+: pathMatches left (l ++ more.toList) := by
  have hpath : ∀ c ∈ more.toList.head?, isPathChar c = false := by
    intro c hc
    have hblank := hmore c hc
    have hother : c ∉ "_/.-".toList := by
      intro hmem
      have hnot : ("_/.-".toList.all fun d => !isWhitespace d) = true := by decide
      have hvisible := List.all_eq_true.mp hnot c hmem
      rw [hblank] at hvisible
      cases hvisible
    rw [isPathChar, isAlphanum_of_isWhitespace hblank, Bool.false_or]
    simpa using hother
  induction l generalizing left with
  | nil => exact List.nil_prefix
  | cons c rest ih =>
    cases left with
    | succ left => exact ih left
    | zero =>
      have hstarts : startsPath c (rest ++ more.toList) = startsPath c rest := by
        cases rest with
        | nil =>
          rw [startsPath, startsPath, List.nil_append]
          cases hhead : more.toList.head? with
          | none => rfl
          | some d =>
            rw [Option.any_some, hpath d hhead]
            rfl
        | cons d rest => rfl
      have htake : (rest ++ more.toList).takeWhile isPathChar = rest.takeWhile isPathChar := by
        have hnone : more.toList.takeWhile isPathChar = [] := by
          cases hlist : more.toList with
          | nil => rfl
          | cons d tail =>
            refine List.takeWhile_cons_of_neg ?_
            simp [hpath d (by rw [hlist]; rfl)]
        rw [List.takeWhile_append]
        split
        · rename_i hall
          rw [hnone, List.append_nil]
          exact ((List.takeWhile_prefix _).eq_of_length hall).symm
        · rfl
      rw [List.cons_append, pathMatches, pathMatches, hstarts, htake]
      split
      · exact (List.prefix_cons_inj _).mpr (ih _)
      · exact ih 0

/-- What is found in a task is found in the task continued. -/
theorem found_subset : found chars task ⊆ found chars (task ++ more) := by
  have hpattern {pattern : RegExp Char} (h : pattern.isMatch chars.isWord task.toList = true) :
      pattern.isMatch chars.isWord (task ++ more).toList = true := Found.continued hmore h
  have hregistry (h : isTrustRegistryModification (toAsciiLowercase task) = true) :
      isTrustRegistryModification (toAsciiLowercase (task ++ more)) = true := by
    have hlower : toAsciiLowercase (task ++ more) = toAsciiLowercase task ++ toAsciiLowercase more := by
      rw [toAsciiLowercase, String.toList_append, List.map_append, String.ofList_append]
      rfl
    have hany (needles : List String) (hany : containsAny (toAsciiLowercase task) needles = true) :
        containsAny (toAsciiLowercase task ++ toAsciiLowercase more) needles = true := by
      obtain ⟨needle, hneedle, hin⟩ := List.any_eq_true.mp hany
      exact List.any_eq_true.mpr ⟨needle, hneedle, strContains_append hin _⟩
    rw [isTrustRegistryModification, Bool.and_eq_true] at h ⊢
    rw [hlower]
    exact h.imp (hany _) (hany _)
  have hpaths : sensitivePaths task ⊆ sensitivePaths (task ++ more) := by
    rw [sensitivePaths, sensitivePaths, String.toList_append]
    exact (((pathMatches_continued hmore 0 task.toList).map _).filter _).subset
  intro f hf
  rw [found, List.mem_append, List.mem_append] at hf ⊢
  refine hf.imp (Or.imp (fun hf => ?_) fun hf => ?_) fun hf => List.map_subset _ hpaths hf
  · rw [violations, List.mem_append] at hf ⊢
    refine hf.imp (fun hf => ?_) fun hf => ?_
    · obtain ⟨p, hp, rfl⟩ := List.mem_map.mp hf
      obtain ⟨hmem, hmatch⟩ := List.mem_filter.mp hp
      exact List.mem_map.mpr ⟨p, List.mem_filter.mpr ⟨hmem, hpattern hmatch⟩, rfl⟩
    · split at hf
      · rename_i h
        rwa [if_pos (hregistry h)]
      · cases hf
  · obtain ⟨p, hp, rfl⟩ := List.mem_map.mp hf
    obtain ⟨hmem, hmatch⟩ := List.mem_filter.mp hp
    exact List.mem_map.mpr ⟨p, List.mem_filter.mpr ⟨hmem, hpattern hmatch⟩, rfl⟩

end Continued

/-- What is found in a task is found when the task goes on in a new line. -/
theorem found_newline {t : String} (ht : trim t ≠ "") (s : String) :
    found chars (trim t) ⊆ found chars (trim (t ++ "\n" ++ s)) := by
  obtain ⟨more, htext, hmore⟩ := trim_newline ht s
  have hwhole : trim (t ++ "\n" ++ s) = trim t ++ String.ofList more :=
    String.toList_injective (by rw [htext, String.toList_append, String.toList_ofList])
  rw [hwhole]
  exact found_subset (by rwa [String.toList_ofList])

theorem trim_newline_ne {t : String} (ht : trim t ≠ "") (s : String) : trim (t ++ "\n" ++ s) ≠ "" := by
  obtain ⟨more, htext, -⟩ := trim_newline ht s
  intro hempty
  refine ht (String.toList_injective ?_)
  rw [hempty] at htext
  exact (List.append_eq_nil_iff.mp htext.symm).1

/-- **The decision never gets milder.** -/
theorem decision_mono {t : String} (ht : trim t ≠ "") (s : String) :
    (evaluateDirectiveGate chars t).decision ≤ (evaluateDirectiveGate chars (t ++ "\n" ++ s)).decision := by
  have hsubset : found chars (trim t) ⊆ found chars (trim (t ++ "\n" ++ s)) := found_newline ht s
  have hle (a : Decision) : a ≤ .deny := by cases a <;> decide
  rw [decision_eq ht, decision_eq (trim_newline_ne ht s)]
  split
  · rename_i hviolation
    obtain ⟨f, hf, h⟩ := List.any_eq_true.mp hviolation
    rw [if_pos (List.any_eq_true.mpr ⟨f, hsubset hf, h⟩)]
  · split
    · split
      · exact hle _
      · split <;> decide
    · rename_i hne
      have hne' : found chars (trim (t ++ "\n" ++ s)) ≠ [] := fun hnil =>
        hne (List.subset_nil.mp (hnil ▸ hsubset))
      rw [if_neg hne']
      split <;> decide

/-! ## The highest risk -/

def severities (chars : WordChars) (task : String) : List Risk := (found chars task).map Finding.severity

/-- The highest of some risks. -/
def highest (risks : List Risk) : Risk := risks.foldr max .low

theorem le_highest {r : Risk} {risks : List Risk} (h : r ∈ risks) : r ≤ highest risks := by
  induction risks with
  | nil => cases h
  | cons first rest ih =>
    rcases List.mem_cons.mp h with rfl | hmem
    · exact le_max_left _ _
    · exact (ih hmem).trans (le_max_right _ _)

theorem highest_le {bound : Risk} {risks : List Risk} (h : ∀ r ∈ risks, r ≤ bound) : highest risks ≤ bound := by
  induction risks with
  | nil => cases bound <;> decide
  | cons first rest ih => exact max_le (h first (.head _)) (ih fun r hr => h r (.tail _ hr))

theorem le_high (r : Risk) : r ≤ .high := by cases r <;> decide

theorem highest_eq_high {risks : List Risk} (h : .high ∈ risks) : highest risks = .high :=
  le_antisymm (highest_le fun r _ => le_high r) (le_highest h)

/-- **When is the last risk the highest?**  Of risks that are high but for one of medium risk: unless that one
comes last, after a high one. -/
theorem getLastD_eq_highest_iff {before after network : List Risk} (hbefore : ∀ r ∈ before, r = .high)
    (hafter : ∀ r ∈ after, r = .high) (hnetwork : network = [] ∨ network = [.medium]) :
    (before ++ network ++ after).getLastD .low = highest (before ++ network ++ after) ↔
      ¬(before ≠ [] ∧ network ≠ [] ∧ after = []) := by
  rw [List.getLastD_eq_getLast?]
  have hlast {l : List Risk} (hl : ∀ r ∈ l, r = .high) (hne : l ≠ []) :
      l.getLast? = some .high ∧ .high ∈ l := by
    have hmem := List.getLast_mem hne
    rw [List.getLast?_eq_some_getLast hne, hl _ hmem]
    exact ⟨rfl, hl _ hmem ▸ hmem⟩
  by_cases hend : after = []
  · subst hend
    rw [List.append_nil]
    by_cases hstart : before = []
    · subst hstart
      rcases hnetwork with rfl | rfl <;> simp <;> decide
    · obtain ⟨hgetLast, hmem⟩ := hlast hbefore hstart
      rcases hnetwork with rfl | rfl
      · rw [List.append_nil, hgetLast, highest_eq_high hmem]
        simp
      · rw [List.getLast?_concat, highest_eq_high (List.mem_append_left _ hmem)]
        simp [hstart]
  · obtain ⟨hgetLast, hmem⟩ := hlast hafter hend
    rw [List.getLast?_append, hgetLast, highest_eq_high (List.mem_append_right _ hmem)]
    simp [hend]

/-- A network call is found after something else and before nothing. -/
structure Overshadowed (chars : WordChars) (taskText : String) : Prop where
  earlier : (∃ p ∈ denyPatterns, Found chars p.2 (trim taskText)) ∨
    isTrustRegistryModification (toAsciiLowercase (trim taskText)) = true ∨
    ∃ p ∈ earlierPatterns, Found chars p.pattern (trim taskText)
  network : Found chars networkPattern.pattern (trim taskText)
  later : ∀ p ∈ laterPatterns, ¬Found chars p.pattern (trim taskText)
  paths : sensitivePaths (trim taskText) = []

theorem severity_violations (task : String) : ∀ r ∈ (violations chars task).map Finding.severity, r = .high := by
  intro r hr
  obtain ⟨f, hf, rfl⟩ := List.mem_map.mp hr
  rcases List.mem_append.mp hf with hf | hf
  · obtain ⟨p, -, rfl⟩ := List.mem_map.mp hf
    rfl
  · split at hf
    · obtain rfl := List.mem_singleton.mp hf
      rfl
    · cases hf

theorem violations_eq_nil_iff (task : String) : violations chars task = [] ↔
    ¬((∃ p ∈ denyPatterns, Found chars p.2 task) ∨ isTrustRegistryModification (toAsciiLowercase task) = true) := by
  rw [violations, List.append_eq_nil_iff, List.map_eq_nil_iff, List.filter_eq_nil_iff, not_or, not_exists]
  refine and_congr (forall_congr' fun p => by rw [not_and]; rfl) ?_
  split <;> simp_all

theorem foundOf_eq_nil_iff (patterns : List HighRiskPattern) (task : String) :
    foundOf chars patterns task = [] ↔ ∀ p ∈ patterns, ¬Found chars p.pattern task := by
  rw [foundOf, List.map_eq_nil_iff, List.filter_eq_nil_iff]
  rfl

theorem severity_foundOf {patterns : List HighRiskPattern} (h : ∀ p ∈ patterns, p.severity = .high) (task : String) :
    ∀ r ∈ (foundOf chars patterns task).map Finding.severity, r = .high := by
  intro r hr
  obtain ⟨f, hf, rfl⟩ := List.mem_map.mp hr
  obtain ⟨p, hp, rfl⟩ := List.mem_map.mp hf
  exact h p (List.mem_filter.mp hp).1

/-- The findings before the network call, the network call, and those after it. -/
theorem severities_eq (task : String) : severities chars task =
    ((violations chars task ++ foundOf chars earlierPatterns task).map Finding.severity ++
      (foundOf chars [networkPattern] task).map Finding.severity) ++
      (foundOf chars laterPatterns task ++ foundPaths task).map Finding.severity := by
  have hsplit : foundOf chars highRiskPatterns task =
      foundOf chars earlierPatterns task ++ foundOf chars [networkPattern] task ++
        foundOf chars laterPatterns task := by
    rw [highRiskPatterns, ← List.singleton_append, ← List.append_assoc]
    simp only [foundOf, List.filter_append, List.map_append]
  rw [severities, found, hsplit]
  simp only [List.map_append, List.append_assoc]

/-- **The risk is the highest of what is found unless it is overshadowed.** -/
theorem risk_eq_highest_iff {taskText : String} (h : trim taskText ≠ "") :
    (evaluateDirectiveGate chars taskText).risk = highest (severities chars (trim taskText)) ↔
      ¬Overshadowed chars taskText := by
  generalize htask : trim taskText = task
  have hnetwork : (foundOf chars [networkPattern] task).map Finding.severity = [] ∨
      (foundOf chars [networkPattern] task).map Finding.severity = [.medium] := by
    rw [foundOf, List.filter_singleton]
    cases networkPattern.pattern.isMatch chars.isWord task.toList with
    | true => exact .inr rfl
    | false => exact .inl rfl
  have hbefore : ∀ r ∈ (violations chars task ++ foundOf chars earlierPatterns task).map Finding.severity,
      r = .high := by
    intro r hr
    rw [List.map_append, List.mem_append] at hr
    exact hr.elim (severity_violations task r) (severity_foundOf (by decide) task r)
  have hafter : ∀ r ∈ (foundOf chars laterPatterns task ++ foundPaths task).map Finding.severity, r = .high := by
    intro r hr
    rw [List.map_append, List.mem_append] at hr
    refine hr.elim (severity_foundOf (by decide) task r) fun hr => ?_
    obtain ⟨f, hf, rfl⟩ := List.mem_map.mp hr
    obtain ⟨path, -, rfl⟩ := List.mem_map.mp hf
    rfl
  rw [risk_eq h, htask, ← severities, severities_eq, getLastD_eq_highest_iff hbefore hafter hnetwork]
  refine not_congr ⟨fun ⟨hb, hn, ha⟩ => ?_, fun ⟨hb, hn, hl, hp⟩ => ?_⟩
  · rw [ne_eq, List.map_eq_nil_iff, List.append_eq_nil_iff, violations_eq_nil_iff, foundOf_eq_nil_iff] at hb
    rw [ne_eq, List.map_eq_nil_iff, foundOf_eq_nil_iff] at hn
    rw [List.map_eq_nil_iff, List.append_eq_nil_iff, foundOf_eq_nil_iff, foundPaths, List.map_eq_nil_iff] at ha
    subst htask
    refine ⟨?_, by simpa using hn, ha.1, ha.2⟩
    by_contra hnone
    rw [← or_assoc, not_or] at hnone
    exact hb ⟨hnone.1, fun p hp hfound => hnone.2 ⟨p, hp, hfound⟩⟩
  · subst htask
    rw [ne_eq, List.map_eq_nil_iff, List.append_eq_nil_iff, violations_eq_nil_iff, foundOf_eq_nil_iff,
      ne_eq, List.map_eq_nil_iff, foundOf_eq_nil_iff, List.map_eq_nil_iff, List.append_eq_nil_iff,
      foundOf_eq_nil_iff, foundPaths, List.map_eq_nil_iff]
    refine ⟨fun hnone => ?_, by simpa using hn, hl, hp⟩
    rcases hb with hdeny | htrust | ⟨p, hp, hfound⟩
    · exact hnone.1 (.inl hdeny)
    · exact hnone.1 (.inr htrust)
    · exact hnone.2 p hp hfound

/-- **Violations are denied, and nothing else is.** -/
theorem deny_iff {taskText : String} (h : trim taskText ≠ "") :
    (evaluateDirectiveGate chars taskText).decision = .deny ↔
      (∃ p ∈ denyPatterns, Found chars p.2 (trim taskText)) ∨
        isTrustRegistryModification (toAsciiLowercase (trim taskText)) = true := by
  have hany : (found chars (trim taskText)).any Finding.isViolation = true ↔
      violations chars (trim taskText) ≠ [] := by
    have hother : ∀ f ∈ foundOf chars highRiskPatterns (trim taskText) ++ foundPaths (trim taskText),
        f.isViolation = false := by
      intro f hf
      rcases List.mem_append.mp hf with hf | hf
      · obtain ⟨p, -, rfl⟩ := List.mem_map.mp hf
        rfl
      · obtain ⟨path, -, rfl⟩ := List.mem_map.mp hf
        rfl
    have hown : ∀ f ∈ violations chars (trim taskText), f.isViolation = true := by
      intro f hf
      rcases List.mem_append.mp hf with hf | hf
      · obtain ⟨p, -, rfl⟩ := List.mem_map.mp hf
        rfl
      · split at hf
        · obtain rfl := List.mem_singleton.mp hf
          rfl
        · cases hf
    rw [List.any_eq_true]
    constructor
    · rintro ⟨f, hf, hviolation⟩ hnil
      rw [found, List.append_assoc, hnil, List.nil_append] at hf
      rw [hother f hf] at hviolation
      cases hviolation
    · intro hne
      obtain ⟨f, hf⟩ := List.exists_mem_of_ne_nil _ hne
      exact ⟨f, List.mem_append_left _ (List.mem_append_left _ hf), hown f hf⟩
  rw [ne_eq, violations_eq_nil_iff, not_not] at hany
  rw [decision_eq h, ← hany]
  split
  · rename_i hviolation
    simp [hviolation]
  · rename_i hviolation
    simp only [hviolation]
    split <;> simp

/-! ## Severity -/

/-- The gate is as severe about a task that goes on in a new line as about the task: what the
decision and the risk of each are, and that neither goes down. -/
structure Severe (chars : WordChars) (t s : String) : Prop where
  decision : (evaluateDirectiveGate chars t).decision ≤
    (evaluateDirectiveGate chars (t ++ "\n" ++ s)).decision
  risk : (evaluateDirectiveGate chars t).risk ≤ (evaluateDirectiveGate chars (t ++ "\n" ++ s)).risk
  denied : ∀ text ∈ [t, t ++ "\n" ++ s], (evaluateDirectiveGate chars text).decision = .deny ↔
    (∃ p ∈ denyPatterns, Found chars p.2 (trim text)) ∨
      isTrustRegistryModification (toAsciiLowercase (trim text)) = true
  highest : ∀ text ∈ [t, t ++ "\n" ++ s],
    (evaluateDirectiveGate chars text).risk = highest (severities chars (trim text))

/-- **The gate is as severe exactly when neither text is overshadowed.** -/
theorem severe_iff (chars : WordChars) {t : String} (ht : trim t ≠ "") (s : String) :
    Severe chars t s ↔ ¬Overshadowed chars t ∧ ¬Overshadowed chars (t ++ "\n" ++ s) := by
  have hnext := trim_newline_ne ht s
  constructor
  · intro h
    exact ⟨(risk_eq_highest_iff ht).mp (h.highest t (.head _)),
      (risk_eq_highest_iff hnext).mp (h.highest _ (.tail _ (.head _)))⟩
  · rintro ⟨hclear, hclear'⟩
    have hhighest := (risk_eq_highest_iff ht).mpr hclear
    have hhighest' := (risk_eq_highest_iff hnext).mpr hclear'
    refine ⟨decision_mono ht s, ?_, fun text htext => ?_, fun text htext => ?_⟩
    · rw [hhighest, hhighest']
      exact highest_le fun r hr => le_highest (List.map_subset _ (found_newline ht s) hr)
    · rcases List.mem_pair.mp htext with rfl | rfl
      · exact deny_iff ht
      · exact deny_iff hnext
    · rcases List.mem_pair.mp htext with rfl | rfl
      · exact hhighest
      · exact hhighest'

/-- The word characters of ASCII. -/
def plainChars : WordChars where
  isWord c := c.isAlphanum || c == '_'
  blank c h := by
    have hother : c ≠ '_' := by
      rintro rfl
      cases h
    rw [isAlphanum_of_isWhitespace h, beq_false_of_ne hother, Bool.or_false]

theorem severe_guard : Severe plainChars "fetch" "deploy" := by
  refine (severe_iff plainChars (by decide) "deploy").mpr ⟨fun h => ?_, fun h => ?_⟩
  · exact absurd h.earlier (by decide)
  · exact absurd h.earlier (by decide)

/-- A network call in the second line brings the risk down. -/
theorem risk_falls : ¬Severe plainChars "exec" "fetch" :=
  fun h => absurd h.risk (by decide)

end Protheus.Decompose.DirectiveGate
