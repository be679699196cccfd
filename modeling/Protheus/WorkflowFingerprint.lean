import Protheus.Lib.Frames
import Protheus.Lib.Utf8
import Protheus.Workflow

/-!
What the bytes a fingerprint is hashed over say of the step.

`stable_hash` numbers its lines and puts a bar after each, and nothing keeps a bar, a
number and a colon out of a line; `step_fingerprint` writes a parameter as its key, an
equals sign and its value, as lines after the command.  `Clear` says which arguments no
other arguments share their bytes with, and `identified_iff` that it is exact: there are
no parameters to take for a part of the command, and no text holds what another cut
could be made at.  Arguments whose texts have no bar, and whose keys have no equals
sign, are told from one another.
-/

namespace Protheus.Workflow

open Std (ExtTreeMap)
open Frames
open Utf8 (asBytes asBytes_inj)

/-- The bytes `stable_hash` feeds to the hasher. -/
def linesBytes (lines : List String) : List UInt8 := asBytes (stableHash id lines)

/-- What `step_fingerprint` is given. -/
structure Fingerprinted where
  workflowId : String
  seed : String
  idx : UInt64
  stepId : String
  step : WorkflowStep

namespace Fingerprinted

/-- The bytes `step_fingerprint` feeds to the hasher. -/
def bytes (a : Fingerprinted) : List UInt8 :=
  asBytes (stepFingerprint id a.workflowId a.seed a.idx.toNat a.stepId a.step)

/-- Two steps agree in all that the fingerprint is for. -/
structure Same (a b : Fingerprinted) : Prop where
  workflowId : a.workflowId = b.workflowId
  seed : a.seed = b.seed
  idx : a.idx = b.idx
  stepId : a.stepId = b.stepId
  kind : a.step.kind = b.step.kind
  action : a.step.action = b.step.action
  command : a.step.command = b.step.command
  params : a.step.params = b.step.params

/-- A text holds an index between its labels. -/
def Indexed (s : String) : Prop :=
  ∃ n : UInt64, label 2 ++ ((toString n.toNat).toList ++ label 3) <:+: s.toList

/-- No other arguments can be read in the bytes. -/
structure Clear (a : Fingerprinted) : Prop where
  /-- There are no parameters, which the command could end with as well. -/
  params : a.step.params = ∅
  /-- A text holds neither the label before it nor the one after it. -/
  workflowId : ¬ label 1 <:+: a.workflowId.toList
  /-- The labels around the index count where an index is between them. -/
  seed : ¬ label 1 <:+: a.seed.toList ∧ ¬ Indexed a.seed
  stepId : ¬ Indexed a.stepId ∧ ¬ label 4 <:+: a.stepId.toList
  kind : ¬ label 4 <:+: a.step.kind.toList ∧ ¬ label 5 <:+: a.step.kind.toList
  action : ¬ label 5 <:+: a.step.action.toList ∧ ¬ label 6 <:+: a.step.action.toList
  /-- The label of a first parameter counts where an equals sign follows. -/
  command : ¬ label 6 <:+: a.step.command.toList ∧
    ∀ x y, a.step.command.toList = x ++ (label 7 ++ y) → '=' ∉ y

/-- No text has a bar and no key an equals sign. -/
structure Plain (a : Fingerprinted) : Prop where
  texts : ∀ s ∈ [a.workflowId, a.seed, a.stepId, a.step.kind, a.step.action, a.step.command],
    '|' ∉ s.toList
  params : ∀ p ∈ a.step.params.toList, '|' ∉ p.1.toList ∧ '|' ∉ p.2.toList ∧ '=' ∉ p.1.toList

/-! ## The text -/

end Fingerprinted

theorem toList_join_mapIdx : ∀ (lines : List String) (k : ℕ),
    (String.join (lines.mapIdx fun idx line => toString (idx + k) ++ ":" ++ line ++ "|")).toList =
      framed k (lines.map String.toList)
  | [], _ => rfl
  | line :: lines, k => by
    have hshift : (lines.mapIdx fun idx line => toString (idx + 1 + k) ++ ":" ++ line ++ "|") =
        lines.mapIdx fun idx line => toString (idx + (k + 1)) ++ ":" ++ line ++ "|" := by
      congr 1
      funext idx line
      rw [Nat.add_assoc, Nat.add_comm 1 k]
    rw [List.mapIdx_cons, String.join_cons, hshift, String.toList_append, toList_join_mapIdx lines,
      List.map_cons, framed]
    simp [String.toList_append]

theorem toList_stableHash (lines : List String) :
    (stableHash id lines).toList = framed 0 (lines.map String.toList) := toList_join_mapIdx lines 0

theorem linesBytes_eq_iff {a b : List String} : linesBytes a = linesBytes b ↔
    framed 0 (a.map String.toList) = framed 0 (b.map String.toList) := by
  rw [← toList_stableHash, ← toList_stableHash]
  exact ⟨fun h => congrArg String.toList (asBytes_inj h),
    fun h => congrArg asBytes (String.toList_injective h)⟩

/-- What `stable_hash` tells of its lines: no other lines have their bytes exactly where there is no
line, or one in which no next line is labelled. -/
theorem linesBytes_unique_iff (lines : List String) :
    (∀ other, linesBytes other = linesBytes lines → other = lines) ↔
      lines = [] ∨ ∃ line, lines = [line] ∧ ¬ label 1 <:+: line.toList := by
  have hmap (l : List (List Char)) : (l.map String.ofList).map String.toList = l := by simp
  have hinj : Function.Injective (List.map String.toList) :=
    List.map_injective_iff.mpr fun _ _ h => String.toList_injective h
  have hunique := framed_unique_iff (lines.map String.toList)
  constructor
  · intro h
    have hothers : ∀ other, framed 0 other = framed 0 (lines.map String.toList) →
        other = lines.map String.toList := by
      intro other hother
      have hsame := h (other.map String.ofList) (linesBytes_eq_iff.mpr (by rw [hmap, hother]))
      rw [← hsame, hmap]
    rcases hunique.mp hothers with hnil | ⟨line, hline, hlabel⟩
    · exact .inl (List.map_eq_nil_iff.mp hnil)
    · obtain ⟨s, rfl, rfl⟩ := List.map_eq_singleton_iff.mp hline
      exact .inr ⟨s, rfl, hlabel⟩
  · intro h other hother
    refine hinj (hunique.mpr ?_ _ (linesBytes_eq_iff.mp hother))
    rcases h with rfl | ⟨line, rfl, hlabel⟩
    · exact .inl rfl
    · exact .inr ⟨line.toList, rfl, hlabel⟩

namespace Fingerprinted

/-! ## The text before each label -/

section Prefixes

variable (a : Fingerprinted)

def digits : List Char := (toString a.idx.toNat).toList

/-- The text before the index. -/
def beforeIdx : List Char := a.workflowId.toList ++ (label 1 ++ a.seed.toList)

/-- The text before the step's name. -/
def beforeId : List Char := a.beforeIdx ++ (label 2 ++ a.digits)

def beforeKind : List Char := a.beforeId ++ (label 3 ++ a.stepId.toList)

def beforeAction : List Char := a.beforeKind ++ (label 4 ++ a.step.kind.toList)

def beforeCommand : List Char := a.beforeAction ++ (label 5 ++ a.step.action.toList)

def paramLines : List (List Char) :=
  a.step.params.toList.map fun p => p.1.toList ++ '=' :: p.2.toList

/-- The command and the parameters. -/
def tail : List Char := chain a.step.command.toList 7 a.paramLines

end Prefixes

variable {a b : Fingerprinted}

theorem bytes_eq_iff : a.bytes = b.bytes ↔
    a.beforeCommand ++ (label 6 ++ a.tail) = b.beforeCommand ++ (label 6 ++ b.tail) := by
  have htext (a : Fingerprinted) :
      (stepFingerprint id a.workflowId a.seed a.idx.toNat a.stepId a.step).toList =
        (toString 0).toList ++ ':' :: (a.beforeCommand ++ (label 6 ++ a.tail) ++ ['|']) := by
    rw [stepFingerprint, toList_stableHash, List.cons_append, List.map_cons, framed_cons]
    have hparams : (a.step.params.toList.map fun p => p.1 ++ "=" ++ p.2).map String.toList =
        a.paramLines := by
      rw [paramLines, List.map_map]
      exact List.map_congr_left fun p _ => by simp [String.toList_append]
    simp only [List.cons_append, List.nil_append, List.map_cons, hparams, chain, chain_append,
      beforeCommand, beforeAction, beforeKind, beforeId, beforeIdx, digits, tail, List.append_assoc]
  constructor
  · intro h
    have hlist := congrArg String.toList (asBytes_inj h)
    rw [htext, htext] at hlist
    exact List.append_cancel_right (List.cons.inj (List.append_cancel_left hlist)).2
  · intro h
    exact congrArg asBytes (String.toList_injective (by rw [htext, htext, h]))

/-! ## Clear arguments -/

/-- What is not before a label is not before it with a part that does not hold it. -/
theorem not_behind {i j : ℕ} (hne : i ≠ j) {x y z : List Char} (hy : ¬ label j <:+: y)
    (hx : ∀ r, x ≠ z ++ (label j ++ r)) (r : List Char) : x ++ (label i ++ y) ≠ z ++ (label j ++ r) := by
  intro h
  rcases cut_of_notInfix hy h with ⟨heq, -, -⟩ | ⟨r', hr'⟩
  · exact hne heq
  · exact hx r' hr'

theorem notInfix_digits (a : Fingerprinted) (k : ℕ) : ¬ label k <:+: a.digits :=
  notInfix_of_barless (RustStd.notMem_toString rfl _)

section Clear

variable (h : a.Clear) (b : Fingerprinted) (r : List Char)
include h

/-- The cuts of other arguments are never behind: not the one before the step's name, -/
theorem beforeIdx_ne : a.beforeIdx ≠ b.beforeId ++ (label 3 ++ r) := by
  intro heq
  rw [beforeIdx, beforeId, List.append_assoc, List.append_assoc] at heq
  rcases cut heq with ⟨hlabel, -, -⟩ | ⟨r', hworkflow, -⟩ | ⟨r', -, hseed⟩
  · cases hlabel
  · exact h.workflowId ⟨b.workflowId.toList, b.seed.toList ++ (label 2 ++ r'), by
      rw [hworkflow, beforeIdx]
      simp⟩
  · exact h.seed.2 ⟨b.idx, r', r, by rw [hseed, digits]; simp⟩

/-- not the one before the kind, -/
theorem beforeId_ne : a.beforeId ≠ b.beforeKind ++ (label 4 ++ r) := by
  rw [beforeKind, List.append_assoc, List.append_assoc]
  exact not_behind (by decide) (notInfix_digits a 3) (beforeIdx_ne h b) _

/-- not the one before the action, -/
theorem beforeKind_ne : a.beforeKind ≠ b.beforeAction ++ (label 5 ++ r) := by
  rw [beforeAction, List.append_assoc, List.append_assoc]
  exact not_behind (by decide) h.stepId.2 (beforeId_ne h b) _

/-- and not the one before the command. -/
theorem beforeAction_ne : a.beforeAction ≠ b.beforeCommand ++ (label 6 ++ r) := by
  rw [beforeCommand, List.append_assoc, List.append_assoc]
  exact not_behind (by decide) h.kind.2 (beforeKind_ne h b) _

end Clear

/-- Two cuts at one label are one where it is on neither side. -/
theorem cut_same {k : ℕ} {w x y z : List Char} (hx : ¬ label k <:+: x) (hw : ∀ r, w ≠ y ++ (label k ++ r))
    (heq : w ++ (label k ++ x) = y ++ (label k ++ z)) : w = y ∧ x = z := by
  rcases cut_of_notInfix hx heq with ⟨-, hw', hx'⟩ | ⟨r, hr⟩
  · exact ⟨hw', hx'⟩
  · exact absurd hr (hw r)

section Clear

variable (h : a.Clear)
include h

theorem commands_eq (heq : a.beforeCommand ++ (label 6 ++ a.step.command.toList) =
    b.beforeCommand ++ (label 6 ++ b.tail)) :
    a.beforeCommand = b.beforeCommand ∧ a.step.command.toList = b.tail :=
  cut_same h.command.1 (not_behind (by decide) h.action.2 (beforeAction_ne h b)) heq

theorem actions_eq (heq : a.beforeCommand = b.beforeCommand) :
    a.beforeAction = b.beforeAction ∧ a.step.action.toList = b.step.action.toList :=
  cut_same h.action.1 (not_behind (by decide) h.kind.2 (beforeKind_ne h b)) heq

theorem kinds_eq (heq : a.beforeAction = b.beforeAction) :
    a.beforeKind = b.beforeKind ∧ a.step.kind.toList = b.step.kind.toList :=
  cut_same h.kind.1 (not_behind (by decide) h.stepId.2 (beforeId_ne h b)) heq

/-- The step's name may hold its own label, but not after an index. -/
theorem stepIds_eq (heq : a.beforeKind = b.beforeKind) :
    a.beforeId = b.beforeId ∧ a.stepId.toList = b.stepId.toList := by
  rcases cut heq with ⟨-, hbefore, hid⟩ | ⟨r, hr, -⟩ | ⟨r, hr, hid⟩
  · exact ⟨hbefore, hid⟩
  · exact absurd hr (not_behind (by decide) (notInfix_digits a 3) (beforeIdx_ne h b) r)
  · rcases cut hr with ⟨hlabel, -, -⟩ | ⟨r', -, hr'⟩ | ⟨r', -, hdigits⟩
    · cases hlabel
    · exact absurd ⟨b.idx, r', b.stepId.toList, by rw [hid, hr', digits]; simp⟩ h.stepId.1
    · exact absurd ⟨r', r, by rw [hdigits]; simp⟩ (notInfix_digits b 3)

theorem seeds_eq (heq : a.beforeIdx = b.beforeIdx) :
    a.workflowId.toList = b.workflowId.toList ∧ a.seed.toList = b.seed.toList :=
  cut_same h.seed.1 (fun r hr => h.workflowId ⟨b.workflowId.toList, r, by rw [hr]; simp⟩) heq

/-- A command holds no parameter. -/
theorem params_eq (heq : a.step.command.toList = b.tail) :
    b.step.params = ∅ ∧ a.step.command.toList = b.step.command.toList := by
  rw [tail] at heq
  cases hparams : b.step.params.toList with
  | nil =>
    rw [paramLines, hparams] at heq
    exact ⟨ExtTreeMap.toList_eq_nil_iff.mp hparams, heq⟩
  | cons p params =>
    rw [paramLines, hparams, List.map_cons, chain_cons] at heq
    exact absurd ((initial_chain _ _ _).subset (by simp)) (h.command.2 _ _ heq)

end Clear

theorem indices_eq (heq : a.beforeId = b.beforeId) : a.beforeIdx = b.beforeIdx ∧ a.idx = b.idx := by
  rcases cut heq with ⟨-, hbefore, hdigits⟩ | ⟨r, -, hr⟩ | ⟨r, -, hr⟩
  · exact ⟨hbefore, UInt64.toNat_inj.mp (RustStd.toString_injective (String.toList_injective hdigits))⟩
  · exact absurd ⟨r, a.digits, by rw [hr]; simp⟩ (notInfix_digits b 2)
  · exact absurd ⟨r, b.digits, by rw [hr]; simp⟩ (notInfix_digits a 2)

/-- No other arguments have the bytes of clear ones. -/
theorem Clear.same (h : a.Clear) (hbytes : a.bytes = b.bytes) : a.Same b := by
  have htail : a.tail = a.step.command.toList := by
    have hnone : a.paramLines = [] := by
      rw [paramLines, h.params]
      rfl
    rw [tail, hnone]
    rfl
  rw [bytes_eq_iff, htail] at hbytes
  obtain ⟨hcommand, hrest⟩ := commands_eq h hbytes
  obtain ⟨hparams, hcommands⟩ := params_eq h hrest
  obtain ⟨haction, hactions⟩ := actions_eq h hcommand
  obtain ⟨hkind, hkinds⟩ := kinds_eq h haction
  obtain ⟨hid, hids⟩ := stepIds_eq h hkind
  obtain ⟨hidx, hindices⟩ := indices_eq hid
  obtain ⟨hworkflow, hseed⟩ := seeds_eq h hidx
  exact ⟨String.toList_injective hworkflow, String.toList_injective hseed, hindices,
    String.toList_injective hids, String.toList_injective hkinds, String.toList_injective hactions,
    String.toList_injective hcommands, h.params.trans hparams.symm⟩

/-! ## Arguments that are not clear -/

/-- The text between the number of the first line and the last bar. -/
theorem bytes_eq_of_text
    (h : a.workflowId.toList ++ (label 1 ++ (a.seed.toList ++ (label 2 ++ (a.digits ++ (label 3 ++
        (a.stepId.toList ++ (label 4 ++ (a.step.kind.toList ++ (label 5 ++ (a.step.action.toList ++
        (label 6 ++ a.tail))))))))))) =
      b.workflowId.toList ++ (label 1 ++ (b.seed.toList ++ (label 2 ++ (b.digits ++ (label 3 ++
        (b.stepId.toList ++ (label 4 ++ (b.step.kind.toList ++ (label 5 ++ (b.step.action.toList ++
        (label 6 ++ b.tail)))))))))))) : a.bytes = b.bytes := by
  rw [bytes_eq_iff]
  simpa [beforeCommand, beforeAction, beforeKind, beforeId, beforeIdx] using h

/-- Where one cut at a label is the only one, the label is on neither side. -/
theorem notInfix_of_cut_unique {k : ℕ} {x y : List Char}
    (h : ∀ x' y', x ++ (label k ++ y) = x' ++ (label k ++ y') → x = x') :
    ¬ label k <:+: x ∧ ¬ label k <:+: y := by
  constructor
  · rintro ⟨p, q, hpq⟩
    have hlength := congrArg List.length (h p (q ++ (label k ++ y)) (by rw [← hpq]; simp))
    simp [← hpq, label] at hlength
  · rintro ⟨p, q, hpq⟩
    have hlength := congrArg List.length (h (x ++ (label k ++ p)) q (by rw [← hpq]; simp))
    simp [label] at hlength

theorem append_extend {l m n x y r : List Char} (h : l ++ (m ++ n) = x ++ (m ++ y)) :
    l ++ (m ++ (n ++ r)) = x ++ (m ++ (y ++ r)) := by
  simpa using congrArg (· ++ r) h

theorem tail_eq (a : Fingerprinted) : a.tail = a.step.command.toList ++ chain [] 7 a.paramLines := by
  rw [tail, ← chain_append, List.append_nil]

theorem toList_insert_empty (key value : String) :
    ((∅ : ExtTreeMap String String).insert key value).toList = [(key, value)] := by
  have hlength : ((∅ : ExtTreeMap String String).insert key value).toList.length = 1 := by
    rw [ExtTreeMap.length_toList, ExtTreeMap.size_insert]
    simp
  obtain ⟨p, hp⟩ := List.length_eq_one_iff.mp hlength
  have hmem : (key, value) ∈ ((∅ : ExtTreeMap String String).insert key value).toList := by
    rw [ExtTreeMap.mem_toList_iff_getElem?_eq_some]
    simp
  rw [hp, List.mem_singleton] at hmem
  rw [hp, hmem]

/-- Where one pair of texts around an index is the only one, neither of them holds one. -/
theorem not_indexed_of_unique {s t : String} {d : List Char}
    (h : ∀ (n : UInt64) (x y : List Char), s.toList ++ (label 2 ++ (d ++ (label 3 ++ t.toList))) =
      x ++ (label 2 ++ ((toString n.toNat).toList ++ (label 3 ++ y))) → s.toList = x) :
    ¬ Indexed s ∧ ¬ Indexed t := by
  constructor
  · rintro ⟨n, p, q, hpq⟩
    have hlength := congrArg List.length
      (h n p (q ++ (label 2 ++ (d ++ (label 3 ++ t.toList)))) (by rw [← hpq]; simp))
    simp [← hpq, label] at hlength
  · rintro ⟨n, p, q, hpq⟩
    have hlength := congrArg List.length
      (h n (s.toList ++ (label 2 ++ (d ++ (label 3 ++ p)))) q (by rw [← hpq]; simp))
    simp [label] at hlength

section Unique

variable (h : ∀ b, a.bytes = b.bytes → a.Same b)
include h

theorem params_of_unique : a.step.params = ∅ := by
  -- The parameters are taken for a part of the command.
  refine (h { a with step := { a.step with command := String.ofList a.tail, params := ∅ } }
    (bytes_eq_of_text ?_)).params
  have htail : tail { a with step := { a.step with command := String.ofList a.tail, params := ∅ } } =
      a.tail := String.toList_ofList
  rw [htail]
  rfl

theorem cut1_of_unique : ¬ label 1 <:+: a.workflowId.toList ∧ ¬ label 1 <:+: a.seed.toList := by
  refine notInfix_of_cut_unique fun x y heq => ?_
  have hsame := h { a with workflowId := String.ofList x, seed := String.ofList y } (bytes_eq_of_text ?_)
  · rw [hsame.workflowId, String.toList_ofList]
  · simp only [String.toList_ofList]
    exact append_extend heq

theorem indices_of_unique : ¬ Indexed a.seed ∧ ¬ Indexed a.stepId := by
  refine not_indexed_of_unique (d := a.digits) fun n x y heq => ?_
  have hsame := h { a with seed := String.ofList x, idx := n, stepId := String.ofList y }
    (bytes_eq_of_text ?_)
  · rw [hsame.seed, String.toList_ofList]
  · simp only [String.toList_ofList]
    have htext := congrArg (· ++ (label 4 ++ (a.step.kind.toList ++ (label 5 ++
      (a.step.action.toList ++ (label 6 ++ a.tail)))))) heq
    simp only [List.append_assoc] at htext
    exact congrArg (fun t => a.workflowId.toList ++ (label 1 ++ t)) htext

theorem cut4_of_unique : ¬ label 4 <:+: a.stepId.toList ∧ ¬ label 4 <:+: a.step.kind.toList := by
  refine notInfix_of_cut_unique fun x y heq => ?_
  have hsame := h { a with stepId := String.ofList x, step := { a.step with kind := String.ofList y } }
    (bytes_eq_of_text ?_)
  · rw [hsame.stepId, String.toList_ofList]
  · simp only [String.toList_ofList]
    exact congrArg (fun t => a.workflowId.toList ++ (label 1 ++ (a.seed.toList ++ (label 2 ++ (a.digits ++
      (label 3 ++ t)))))) (append_extend heq)

theorem cut5_of_unique : ¬ label 5 <:+: a.step.kind.toList ∧ ¬ label 5 <:+: a.step.action.toList := by
  refine notInfix_of_cut_unique fun x y heq => ?_
  have hsame := h { a with step := { a.step with kind := String.ofList x, action := String.ofList y } }
    (bytes_eq_of_text ?_)
  · rw [hsame.kind, String.toList_ofList]
  · simp only [String.toList_ofList]
    exact congrArg (fun t => a.workflowId.toList ++ (label 1 ++ (a.seed.toList ++ (label 2 ++ (a.digits ++
      (label 3 ++ (a.stepId.toList ++ (label 4 ++ t)))))))) (append_extend heq)

theorem cut6_of_unique : ¬ label 6 <:+: a.step.action.toList ∧ ¬ label 6 <:+: a.step.command.toList := by
  refine notInfix_of_cut_unique fun x y heq => ?_
  have hsame := h { a with step := { a.step with action := String.ofList x, command := String.ofList y } }
    (bytes_eq_of_text ?_)
  · rw [hsame.action, String.toList_ofList]
  · rw [tail_eq, tail_eq]
    simp only [String.toList_ofList]
    exact congrArg (fun t => a.workflowId.toList ++ (label 1 ++ (a.seed.toList ++ (label 2 ++ (a.digits ++
      (label 3 ++ (a.stepId.toList ++ (label 4 ++ (a.step.kind.toList ++ (label 5 ++ t))))))))))
      (append_extend heq)

/-- A parameter in the command is taken for one. -/
theorem command_of_unique (x y : List Char) (hcommand : a.step.command.toList = x ++ (label 7 ++ y)) :
    '=' ∉ y := by
  intro hmem
  obtain ⟨key, value, rfl⟩ := List.append_of_mem hmem
  have hsame := h { a with step := { a.step with
    command := String.ofList x,
    params := (∅ : ExtTreeMap String String).insert (String.ofList key) (String.ofList value) } }
    (bytes_eq_of_text ?_)
  · have hlength := congrArg (fun s => s.toList.length) hsame.command
    simp [hcommand, label] at hlength
  · have htail : a.tail = x ++ (label 7 ++ (key ++ '=' :: value)) := by
      rw [tail, paramLines, params_of_unique h, ← hcommand]
      rfl
    rw [htail, tail, paramLines, toList_insert_empty]
    simp only [List.map_cons, List.map_nil, String.toList_ofList]
    rfl

end Unique

/-- The arguments no others share their bytes with are the clear ones. -/
theorem clear_iff : (∀ b, a.bytes = b.bytes → a.Same b) ↔ a.Clear := by
  refine ⟨fun h => ?_, fun h b => h.same⟩
  exact {
    params := params_of_unique h
    workflowId := (cut1_of_unique h).1
    seed := ⟨(cut1_of_unique h).2, (indices_of_unique h).1⟩
    stepId := ⟨(indices_of_unique h).2, (cut4_of_unique h).1⟩
    kind := ⟨(cut4_of_unique h).2, (cut5_of_unique h).1⟩
    action := ⟨(cut5_of_unique h).2, (cut6_of_unique h).1⟩
    command := ⟨(cut6_of_unique h).2, command_of_unique h⟩ }

/-! ## Plain arguments -/

def lines (a : Fingerprinted) : List String :=
  [a.workflowId, a.seed, toString a.idx.toNat, a.stepId, a.step.kind, a.step.action, a.step.command] ++
    a.step.params.toList.map fun (key, value) => key ++ "=" ++ value

theorem bytes_eq_linesBytes (a : Fingerprinted) : a.bytes = linesBytes a.lines := rfl

/-- The lines of plain arguments have no bar. -/
theorem Plain.barless (h : a.Plain) : ∀ l ∈ a.lines.map String.toList, '|' ∉ l := by
  intro l hl
  obtain ⟨s, hs, rfl⟩ := List.mem_map.mp hl
  rcases List.mem_append.mp hs with hs | hs
  · have htexts := h.texts
    simp only [List.mem_cons, List.not_mem_nil, or_false] at hs htexts
    rcases hs with rfl | rfl | rfl | rfl | rfl | rfl | rfl
    case inr.inr.inl => exact RustStd.notMem_toString rfl _
    all_goals exact htexts _ (by simp)
  · obtain ⟨p, hp, rfl⟩ := List.mem_map.mp hs
    obtain ⟨hkey, hvalue, -⟩ := h.params p hp
    simp [String.toList_append, hkey, hvalue]

/-- Parameters without an equals sign in the key are told by their lines. -/
theorem paramLines_inj : ∀ {p q : List (String × String)}, (∀ x ∈ p, '=' ∉ x.1.toList) →
    (∀ x ∈ q, '=' ∉ x.1.toList) →
    (p.map fun (key, value) => key ++ "=" ++ value) = (q.map fun (key, value) => key ++ "=" ++ value) → p = q
  | [], [], _, _, _ => rfl
  | (key, value) :: p, (key', value') :: q, hp, hq, h => by
    obtain ⟨hline, hrest⟩ := List.cons.inj h
    have hlist := congrArg String.toList hline
    simp only [String.toList_append, List.append_assoc] at hlist
    obtain ⟨hkey, hvalue⟩ := RustStd.append_cons_inj (hp _ List.mem_cons_self) (hq _ List.mem_cons_self) hlist
    have hkeys : key = key' := String.toList_injective hkey
    have hvalues : value = value' := String.toList_injective hvalue
    rw [paramLines_inj (fun x hx => hp x (.tail _ hx)) (fun x hx => hq x (.tail _ hx)) hrest, hkeys, hvalues]

theorem Plain.same (ha : a.Plain) (hb : b.Plain) (h : a.bytes = b.bytes) : a.Same b := by
  rw [bytes_eq_linesBytes, bytes_eq_linesBytes, linesBytes_eq_iff] at h
  have hlines : a.lines = b.lines :=
    List.map_injective_iff.mpr (fun _ _ h => String.toList_injective h)
      (framed_inj_of_barless 0 ha.barless hb.barless h)
  simp only [lines, List.cons_append, List.nil_append, List.cons.injEq] at hlines
  obtain ⟨hworkflow, hseed, hidx, hid, hkind, haction, hcommand, hparams⟩ := hlines
  exact ⟨hworkflow, hseed, UInt64.toNat_inj.mp (RustStd.toString_injective hidx), hid, hkind, haction,
    hcommand, ExtTreeMap.toList_inj.mp (paramLines_inj (fun p hp => (ha.params p hp).2.2)
      (fun p hp => (hb.params p hp).2.2) hparams)⟩

/-- Plain arguments without parameters are clear. -/
theorem Plain.clear (h : a.Plain) (hparams : a.step.params = ∅) : a.Clear := by
  have htexts := h.texts
  simp only [List.mem_cons, List.not_mem_nil, or_false, forall_eq_or_imp, forall_eq] at htexts
  obtain ⟨hworkflow, hseed, hid, hkind, haction, hcommand⟩ := htexts
  have hindexed {s : String} (hs : '|' ∉ s.toList) : ¬ Indexed s := by
    rintro ⟨_, hn⟩
    exact hs (hn.subset List.mem_cons_self)
  exact {
    params := hparams
    workflowId := notInfix_of_barless hworkflow
    seed := ⟨notInfix_of_barless hseed, hindexed hseed⟩
    stepId := ⟨hindexed hid, notInfix_of_barless hid⟩
    kind := ⟨notInfix_of_barless hkind, notInfix_of_barless hkind⟩
    action := ⟨notInfix_of_barless haction, notInfix_of_barless haction⟩
    command := ⟨notInfix_of_barless hcommand, fun x y hxy =>
      absurd ⟨x, y, by rw [hxy, List.append_assoc]⟩ (notInfix_of_barless hcommand)⟩ }

/-- **What the bytes of a fingerprint tell.**  No other arguments share their bytes with some exactly
where these are clear; no other lines share theirs with some exactly where there is at most one line, in
which no next one is labelled; and any two plain arguments with the same bytes are the same. -/
theorem identified_iff (a : Fingerprinted) (lines : List String) :
    ((∀ b, a.bytes = b.bytes → a.Same b) ↔ a.Clear) ∧
      ((∀ other, linesBytes other = linesBytes lines → other = lines) ↔
        lines = [] ∨ ∃ line, lines = [line] ∧ ¬ label 1 <:+: line.toList) ∧
      (a.Plain → ∀ b, b.Plain → a.bytes = b.bytes → a.Same b) :=
  ⟨clear_iff, linesBytes_unique_iff lines, fun ha _ hb => Plain.same ha hb⟩

/-- A step of a workflow, with no parameters. -/
def demoArguments : Fingerprinted :=
  ⟨"wf", "seed", 0, "step_001", { kind := "task", action := "deploy", command := "run" }⟩

theorem identified_guard :
    ∀ b : Fingerprinted, demoArguments.bytes = b.bytes → demoArguments.Same b := by
  refine (identified_iff demoArguments []).1.mpr (Plain.clear ⟨?_, ?_⟩ rfl)
  · simp only [List.forall_mem_cons, List.not_mem_nil, false_imp_iff, implies_true, and_true]
    decide
  · intro p hp
    cases hp

/-- A bar in the action is taken for the one after it, and two lines are written as one is. -/
theorem fingerprints_meet :
    let a : Fingerprinted :=
      ⟨"wf", "seed", 0, "step_001", { kind := "task", action := "a|6:b", command := "c" }⟩
    let b : Fingerprinted :=
      ⟨"wf", "seed", 0, "step_001", { kind := "task", action := "a", command := "b|6:c" }⟩
    (a.bytes = b.bytes ∧ ¬ a.Same b) ∧ linesBytes ["a", "b"] = linesBytes ["a|1:b"] ∧
      ["a", "b"] ≠ ["a|1:b"] :=
  ⟨⟨by decide, fun h => absurd h.action (by decide)⟩, by decide, by decide⟩

end Fingerprinted

end Protheus.Workflow
