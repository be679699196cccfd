import Protheus.LaneUtils
import Protheus.Lib.UnixPath
import Protheus.V8Kernel

/-!
Where the adaptive store's targets lead: `resolve_adaptive_path` of
`adaptive_layer_store_kernel.rs`.

A target is meant to name a file below the adaptive root, or one of two files below
the adaptive runtime root.  The resolver folds backslashes and repeated slashes, takes
leading `./` and `adaptive/` off, and refuses what then starts with `..`.  It does
not look at a `..` further in: `targets_confined_iff` says of every accepted target whether
its file is where it is meant to be.
-/

namespace Protheus.AdaptiveStore

open UnixPath

/-- What the resolver gets from outside: the runtime root it finds, and `canonicalize`,
which gives its argument back where the file does not exist. -/
structure Host where
  runtimeRoot : Path
  canonicalize : Path → Path

/-! ## Texts -/

/-- `normalize_path_string`. -/
def normalizePathString (raw : Path) : Path := raw.map fun c => if c = '\\' then '/' else c

/-- `str::trim_start_matches` of a text that is not empty, at most `n` times. -/
def trimStartTimes (pat : List Char) : ℕ → List Char → List Char
  | 0, s => s
  | n + 1, s => if pat <+: s then trimStartTimes pat n (s.drop pat.length) else s

/-- `str::trim_start_matches`. -/
def trimStartMatches (pat s : List Char) : List Char := trimStartTimes pat s.length s

/-- What is taken off the front of a path does not count. -/
theorem body_trimStartTimes (n : ℕ) (s : Path) :
    body (segments (trimStartTimes "./".toList n s)) = body (segments s) := by
  induction n generalizing s with
  | zero => rfl
  | succ n ih =>
    rw [trimStartTimes]
    split
    · rename_i hinitial
      obtain ⟨rest, rfl⟩ := hinitial
      have hsegs : segments ("./".toList ++ rest) = ['.'] :: segments rest :=
        List.splitOn_append_cons_self_of_not_mem (show '/' ∉ ['.'] by decide) rest
      rw [ih, List.drop_left, hsegs, body_cons_of_none rfl]
    · rfl

theorem body_dropWhile_slash (s : Path) :
    body (segments (s.dropWhile (· == '/'))) = body (segments s) := by
  induction s with
  | nil => rfl
  | cons c s ih =>
    by_cases hc : c = '/'
    · subst hc
      rw [List.dropWhile_cons_of_pos (by decide), ih, segments_cons_slash, body_cons_of_none rfl]
    · rw [List.dropWhile_cons_of_neg (by simpa using hc)]

/-- `normalize_adaptive_rel`. -/
def normalizeAdaptiveRel (raw : Path) : Path :=
  let s := trimStartMatches "./".toList (normalizePathString raw)
  let s := s.dropWhile (· == '/')
  let s := trimStartMatches "adaptive/".toList s
  ['/'].intercalate ((segments s).filter (· ≠ []))

/-- `relative_within`. -/
def relativeWithin (rootPath targetPath : Path) : Option Path :=
  (stripPrefix rootPath targetPath).bind fun rest =>
    let rel := normalizePathString rest
    if rel = "..".toList ∨ "../".toList <+: rel then none else some rel

/-! ## The roots -/

/-- `adaptive_root`. -/
def Host.adaptiveRoot (host : Host) : Path := join host.runtimeRoot "adaptive".toList

/-- `adaptive_runtime_root`. -/
def Host.adaptiveRuntimeRoot (host : Host) : Path :=
  join (join host.runtimeRoot "local".toList) "adaptive".toList

/-- The files `runtime_adaptive_rel_allowed` lets through. -/
def allowedRels : List Path :=
  ["sensory/eyes/catalog.json".toList, "sensory/eyes/focus_triggers.json".toList]

/-- `runtime_adaptive_rel_allowed`. -/
def runtimeAdaptiveRelAllowed (rel : Path) : Bool := allowedRels.contains rel

/-- `resolve_adaptive_path`: the file of a target and the name it goes by. -/
def resolveAdaptivePath (host : Host) (targetPath : String) : Except String (Path × Path) :=
  let raw := (RustStd.trim targetPath).toList
  if raw = [] then .error "adaptive_store: target must be file path under adaptive/"
  else if isAbsolute raw then
    let absPath := host.canonicalize raw
    match relativeWithin host.adaptiveRoot absPath with
    | some sourceRel =>
      if sourceRel = [] then .error "adaptive_store: target must be file path under adaptive/"
      else
        let rel := normalizeAdaptiveRel sourceRel
        if runtimeAdaptiveRelAllowed rel then .ok (join host.adaptiveRuntimeRoot rel, rel)
        else .ok (absPath, rel)
    | none =>
      match relativeWithin host.adaptiveRuntimeRoot absPath with
      | some runtimeRel =>
        if runtimeRel = [] then
          .error ("adaptive_store: target outside adaptive roots: " ++ String.ofList absPath)
        else
          let rel := normalizeAdaptiveRel runtimeRel
          if runtimeAdaptiveRelAllowed rel then .ok (absPath, rel)
          else .error ("adaptive_store: runtime path not allowed: " ++ String.ofList absPath)
      | none => .error ("adaptive_store: target outside adaptive roots: " ++ String.ofList absPath)
  else
    let rel := normalizeAdaptiveRel raw
    if rel = [] then .error "adaptive_store: target must be file path under adaptive/"
    else if runtimeAdaptiveRelAllowed rel then .ok (join host.adaptiveRuntimeRoot rel, rel)
    else
      let abs := join host.adaptiveRoot rel
      match relativeWithin host.adaptiveRoot abs with
      | none => .error ("adaptive_store: target outside adaptive root: " ++ String.ofList abs)
      | some sourceRel =>
        if sourceRel = [] then
          .error ("adaptive_store: target outside adaptive root: " ++ String.ofList abs)
        else .ok (abs, normalizeAdaptiveRel sourceRel)

/-- The file that `read-json`, `ensure-json`, `set-json` or `delete-path` reads,
replaces or removes for a payload; `none` where `clean_text` aborts. -/
def commandPath (printFloat : ℚ → String) (host : Host) (payload : List (String × Json)) :
    Option (Except String Path) :=
  (LaneUtils.cleanText printFloat (payload.lookup "target_path") 520).map fun target =>
    (resolveAdaptivePath host target).map Prod.fst

/-! ## Where a file is -/

/-- The file of an allowed name below the adaptive runtime root. -/
def Host.allowedFile (host : Host) (rel : Path) : UnixPath.Place :=
  resolve (join host.adaptiveRuntimeRoot rel)

/-- Strictly below the adaptive root, or one of the two files below the adaptive runtime
root. -/
def Host.Confined (host : Host) (path : Path) : Prop :=
  (resolve host.adaptiveRoot).Below (resolve path) ∨
    ∃ rel ∈ allowedRels, resolve path = host.allowedFile rel

instance (host : Host) (path : Path) : Decidable (host.Confined path) :=
  inferInstanceAs (Decidable (_ ∨ ∃ rel ∈ allowedRels, _))

/-- The route goes up above the adaptive root and down again to a file that is allowed:
through the directories it has left, in their own names. -/
def Host.ComesBack (host : Host) (route : UnixPath.Place) : Prop :=
  0 < route.ups ∧
    ((∃ more, more ≠ [] ∧ (resolve host.adaptiveRoot).Leads route
        { resolve host.adaptiveRoot with names := (resolve host.adaptiveRoot).names ++ more }) ∨
      ∃ rel ∈ allowedRels, (resolve host.adaptiveRoot).Leads route (host.allowedFile rel))

/-- A route from the adaptive root that never leaves it and names something in it, or
comes back. -/
def Host.Stays (host : Host) (route : UnixPath.Place) : Prop :=
  route.ups = 0 ∧ route.names ≠ [] ∨ host.ComesBack route

/-- The targets whose file is where it is meant to be. -/
def Host.Kept (host : Host) (targetPath : String) : Prop :=
  let raw := (RustStd.trim targetPath).toList
  if isAbsolute raw then
    let absPath := host.canonicalize raw
    match relativeWithin host.adaptiveRoot absPath with
    | some sourceRel =>
      runtimeAdaptiveRelAllowed (normalizeAdaptiveRel sourceRel) ∨
        host.Stays (routeFrom host.adaptiveRoot absPath)
    | none => (routeFrom host.adaptiveRuntimeRoot absPath).names ∈ allowedRels.map segments
  else
    runtimeAdaptiveRelAllowed (normalizeAdaptiveRel raw) ∨
      host.Stays (resolve (normalizeAdaptiveRel raw))

/-! ### The roots as places -/

theorem resolve_join_names {base rel : Path} {names : List (List Char)}
    (habs : isAbsolute rel = false) (hrel : resolve rel = ⟨false, 0, names⟩) :
    resolve (join base rel) = { resolve base with names := (resolve base).names ++ names } := by
  rw [resolve_join habs, hrel, UnixPath.Place.follow_of_no_ups]

theorem resolve_adaptiveRoot (host : Host) :
    resolve host.adaptiveRoot = { resolve host.runtimeRoot with
      names := (resolve host.runtimeRoot).names ++ ["adaptive".toList] } :=
  resolve_join_names (by decide) (by decide)

theorem resolve_adaptiveRuntimeRoot (host : Host) :
    resolve host.adaptiveRuntimeRoot = { resolve host.runtimeRoot with
      names := (resolve host.runtimeRoot).names ++ ["local".toList, "adaptive".toList] } := by
  rw [Host.adaptiveRuntimeRoot, resolve_join_names (by decide)
    (show resolve "adaptive".toList = ⟨false, 0, ["adaptive".toList]⟩ by decide),
    resolve_join_names (by decide)
    (show resolve "local".toList = ⟨false, 0, ["local".toList]⟩ by decide)]
  simp

/-- The allowed names are plain routes. -/
theorem resolve_allowedRels : ∀ rel ∈ allowedRels,
    isAbsolute rel = false ∧ resolve rel = ⟨false, 0, segments rel⟩ := by
  decide

theorem allowedFile_eq {host : Host} {rel : Path} (h : rel ∈ allowedRels) :
    host.allowedFile rel = { resolve host.runtimeRoot with
      names := (resolve host.runtimeRoot).names ++ "local".toList :: "adaptive".toList ::
        segments rel } := by
  obtain ⟨habs, hrel⟩ := resolve_allowedRels rel h
  rw [Host.allowedFile, resolve_join_names habs hrel, resolve_adaptiveRuntimeRoot]
  simp

theorem components_ne_nil {p : Path} (h : (resolve p).names ≠ []) : components p ≠ [] := by
  intro hnil
  rw [resolve, hnil] at h
  exact h rfl

theorem components_adaptiveRoot (host : Host) : components host.adaptiveRoot ≠ [] :=
  components_ne_nil (by simp [resolve_adaptiveRoot])

theorem components_adaptiveRuntimeRoot (host : Host) :
    components host.adaptiveRuntimeRoot ≠ [] :=
  components_ne_nil (by simp [resolve_adaptiveRuntimeRoot])

/-- A place below the adaptive root is no place below the adaptive runtime root. -/
theorem adaptive_ne_local (host : Host) (names names' : List (List Char)) :
    (resolve host.adaptiveRoot).names ++ names ≠
      (resolve host.runtimeRoot).names ++ "local".toList :: names' := by
  intro h
  rw [resolve_adaptiveRoot] at h
  dsimp only at h
  rw [List.append_assoc, List.append_cancel_left_eq] at h
  exact absurd (List.cons.inj h).1 (by decide)

/-- Where a route from the adaptive root ends. -/
theorem confined_follow_iff (host : Host) {route : UnixPath.Place} {path : Path}
    (hroute : route.absolute = false)
    (hpath : resolve path = (resolve host.adaptiveRoot).follow route) :
    host.Confined path ↔ host.Stays route := by
  have hgoal {rel : Path} (hrel : rel ∈ allowedRels) :
      resolve path = host.allowedFile rel ↔
        (resolve host.adaptiveRoot).Leads route (host.allowedFile rel) := by
    rw [hpath]
    exact UnixPath.Place.follow_eq_iff (by rw [allowedFile_eq hrel, resolve_adaptiveRoot])
      (by rw [allowedFile_eq hrel, resolve_adaptiveRoot])
  rw [Host.Confined, Host.Stays, hpath]
  by_cases hups : route.ups = 0
  · have hallowed : ¬∃ rel ∈ allowedRels, (resolve host.adaptiveRoot).follow route =
        host.allowedFile rel := by
      rintro ⟨rel, hrel, heq⟩
      obtain ⟨absolute, ups, names⟩ := route
      cases hroute
      cases hups
      rw [UnixPath.Place.follow_of_no_ups, allowedFile_eq hrel] at heq
      exact adaptive_ne_local host _ _ (congrArg UnixPath.Place.names heq)
    rw [UnixPath.Place.below_follow_of_ups_eq_zero hups]
    simp [hallowed, hups, Host.ComesBack]
  · rw [UnixPath.Place.below_follow_iff, Host.ComesBack]
    simp only [hups, false_and, false_or, Nat.pos_of_ne_zero hups, true_and]
    refine or_congr Iff.rfl (exists_congr fun rel => and_congr_right fun hrel => ?_)
    rw [← hgoal hrel, hpath]

/-- A normalised target is relative. -/
theorem isAbsolute_normalizeAdaptiveRel (raw : Path) :
    isAbsolute (normalizeAdaptiveRel raw) = false := by
  unfold normalizeAdaptiveRel
  dsimp only
  generalize trimStartMatches "adaptive/".toList _ = s
  cases hsegs : (segments s).filter (· ≠ []) with
  | nil => rfl
  | cons first rest =>
    have hmem : first ∈ (segments s).filter (· ≠ []) := hsegs ▸ List.mem_cons_self
    obtain ⟨hfirst, hne⟩ := List.mem_filter.mp hmem
    cases first with
    | nil => cases hne
    | cons c first =>
      have hc : c ≠ '/' := by
        rintro rfl
        exact slash_notMem_segments hfirst List.mem_cons_self
      cases rest with
      | nil => simpa [isAbsolute] using hc
      | cons next rest => simpa [isAbsolute] using hc

/-! ### No dot-dot below the runtime root -/

theorem normalizePathString_intercalate (segs : List (List Char)) :
    normalizePathString (['/'].intercalate segs) =
      ['/'].intercalate (segs.map normalizePathString) := by
  induction segs with
  | nil => rfl
  | cons seg rest ih =>
    cases rest with
    | nil => simp
    | cons next rest =>
      rw [List.intercalate_cons_cons, normalizePathString, List.map_append, List.map_append]
      rw [normalizePathString] at ih
      rw [ih]
      simp [normalizePathString]

theorem dotDot_normalizePathString {p : Path} (h : dotDot ∈ segments p) :
    dotDot ∈ segments (normalizePathString p) := by
  have hmap : normalizePathString p =
      ['/'].intercalate ((segments p).map normalizePathString) := by
    rw [← normalizePathString_intercalate, segments, List.intercalate_splitOn]
  rw [hmap, segments_intercalate_flatMap (by simp [segments]), List.mem_flatMap]
  exact ⟨dotDot, List.mem_map.mpr ⟨dotDot, h, by decide⟩, by decide⟩

/-- Taking names off the front of a path leaves its `..` in place. -/
theorem dotDot_trimStartTimes {name : List Char} (hslash : '/' ∉ name) (hname : name ≠ dotDot)
    (n : ℕ) {s : Path} (h : dotDot ∈ segments s) :
    dotDot ∈ segments (trimStartTimes (name ++ ['/']) n s) := by
  induction n generalizing s with
  | zero => exact h
  | succ n ih =>
    rw [trimStartTimes]
    split
    · rename_i hinitial
      obtain ⟨rest, rfl⟩ := hinitial
      refine ih ?_
      have hsegs : segments (name ++ '/' :: rest) = name :: segments rest :=
        List.splitOn_append_cons_self_of_not_mem hslash rest
      rw [List.append_assoc, List.singleton_append, hsegs, List.mem_cons] at h
      rw [List.drop_left]
      exact h.resolve_left (Ne.symm hname)
    · exact h

theorem dotDot_dropWhile {s : Path} (h : dotDot ∈ segments s) :
    dotDot ∈ segments (s.dropWhile (· == '/')) := by
  induction s with
  | nil => exact h
  | cons c s ih =>
    by_cases hc : c = '/'
    · subst hc
      rw [List.dropWhile_cons_of_pos (by decide)]
      rw [segments_cons_slash, List.mem_cons] at h
      exact ih (h.resolve_left (by decide))
    · rwa [List.dropWhile_cons_of_neg (by simpa using hc)]

theorem dotDot_normalizeAdaptiveRel {p : Path} (h : dotDot ∈ segments p) :
    dotDot ∈ segments (normalizeAdaptiveRel p) := by
  have hdot := @dotDot_trimStartTimes ['.'] (by decide) (by decide)
    (normalizePathString p).length _ (dotDot_normalizePathString h)
  have hname := @dotDot_trimStartTimes "adaptive".toList (by decide) (by decide)
    ((trimStartMatches "./".toList (normalizePathString p)).dropWhile (· == '/')).length
    _ (dotDot_dropWhile hdot)
  have hkept : dotDot ∈ (segments (trimStartMatches "adaptive/".toList
      ((trimStartMatches "./".toList (normalizePathString p)).dropWhile (· == '/')))).filter
        (· ≠ []) :=
    List.mem_filter.mpr ⟨hname, by decide⟩
  rw [normalizeAdaptiveRel, segments_intercalate (List.ne_nil_of_mem hkept)]
  · exact hkept
  · exact fun seg hseg => slash_notMem_segments (List.mem_filter.mp hseg).1

/-- Where a path below the adaptive runtime root is that goes by an allowed name. -/
theorem confined_runtime_iff (host : Host) {path runtimeRel : Path}
    (hrel : relativeWithin host.adaptiveRuntimeRoot path = some runtimeRel)
    (hallowed : normalizeAdaptiveRel runtimeRel ∈ allowedRels) :
    host.Confined path ↔
      (routeFrom host.adaptiveRuntimeRoot path).names ∈ allowedRels.map segments := by
  obtain ⟨rest, hstrip, hrest⟩ := Option.bind_eq_some_iff.mp hrel
  have hbase := components_adaptiveRuntimeRoot host
  have hroute := routeFrom_eq hbase hstrip
  have hups : (routeFrom host.adaptiveRuntimeRoot path).ups = 0 := by
    rw [hroute]
    refine ups_route fun hdot => ?_
    dsimp only at hrest
    split at hrest
    · cases hrest
    · rw [← Option.some.inj hrest] at hallowed
      have hmem := dotDot_normalizeAdaptiveRel (dotDot_normalizePathString hdot)
      revert hmem
      generalize normalizeAdaptiveRel (normalizePathString rest) = rel at hallowed
      revert rel
      decide
  have hpath := resolve_eq_follow hbase hstrip
  have habs : (routeFrom host.adaptiveRuntimeRoot path).absolute = false := by
    rw [hroute, route_absolute]
  obtain ⟨names, hnames⟩ : ∃ names,
      routeFrom host.adaptiveRuntimeRoot path = ⟨false, 0, names⟩ := by
    rw [← habs, ← hups]
    exact ⟨_, rfl⟩
  rw [hnames, UnixPath.Place.follow_of_no_ups, resolve_adaptiveRuntimeRoot] at hpath
  have hplace : (resolve path).names = (resolve host.runtimeRoot).names ++
      "local".toList :: "adaptive".toList :: names := by
    rw [hpath]
    simp
  rw [hnames, List.mem_map]
  constructor
  · rintro (⟨-, -, ⟨more, hmore⟩, -⟩ | ⟨rel, hmem, heq⟩)
    · rw [hplace] at hmore
      exact absurd hmore (adaptive_ne_local host more _)
    · have hfile := congrArg UnixPath.Place.names heq
      rw [hplace, allowedFile_eq hmem] at hfile
      refine ⟨rel, hmem, ?_⟩
      simpa using hfile.symm
  · rintro ⟨rel, hmem, rfl⟩
    refine .inr ⟨rel, hmem, ?_⟩
    rw [hpath, allowedFile_eq hmem]
    simp

/-! ## The result -/

theorem confined_allowedFile (host : Host) {rel : Path}
    (h : runtimeAdaptiveRelAllowed rel = true) :
    host.Confined (join host.adaptiveRuntimeRoot rel) :=
  .inr ⟨rel, List.contains_iff_mem.mp h, rfl⟩

/-- The file of an accepted target is confined when the target is kept. -/
theorem confined_iff_kept (host : Host) (targetPath : String) {path rel : Path}
    (h : resolveAdaptivePath host targetPath = .ok (path, rel)) :
    host.Confined path ↔ host.Kept targetPath := by
  unfold resolveAdaptivePath at h
  unfold Host.Kept
  dsimp only at h ⊢
  split at h
  · cases h
  · by_cases habs : isAbsolute (RustStd.trim targetPath).toList = true
    · rw [if_pos habs] at h ⊢
      cases hwithin : relativeWithin host.adaptiveRoot
          (host.canonicalize (RustStd.trim targetPath).toList) with
      | some sourceRel =>
        rw [hwithin] at h
        dsimp only at h ⊢
        split at h
        · cases h
        · by_cases hallowed : runtimeAdaptiveRelAllowed (normalizeAdaptiveRel sourceRel) = true
          · rw [if_pos hallowed] at h
            obtain ⟨rfl, -⟩ := Prod.mk.inj (Except.ok.inj h)
            exact iff_of_true (confined_allowedFile host hallowed) (.inl hallowed)
          · rw [if_neg hallowed] at h
            obtain ⟨rfl, -⟩ := Prod.mk.inj (Except.ok.inj h)
            obtain ⟨rest, hstrip, -⟩ := Option.bind_eq_some_iff.mp hwithin
            have hbase := components_adaptiveRoot host
            rw [or_iff_right hallowed]
            refine confined_follow_iff host ?_ (resolve_eq_follow hbase hstrip)
            rw [routeFrom_eq hbase hstrip, route_absolute]
      | none =>
        rw [hwithin] at h
        dsimp only at h ⊢
        cases hruntime : relativeWithin host.adaptiveRuntimeRoot
            (host.canonicalize (RustStd.trim targetPath).toList) with
        | none =>
          rw [hruntime] at h
          cases h
        | some runtimeRel =>
          rw [hruntime] at h
          dsimp only at h
          split at h
          · cases h
          · split at h
            · rename_i hallowed
              obtain ⟨rfl, -⟩ := Prod.mk.inj (Except.ok.inj h)
              exact confined_runtime_iff host hruntime (List.contains_iff_mem.mp hallowed)
            · cases h
    · rw [if_neg habs] at h ⊢
      split at h
      · cases h
      · by_cases hallowed :
            runtimeAdaptiveRelAllowed (normalizeAdaptiveRel (RustStd.trim targetPath).toList) = true
        · rw [if_pos hallowed] at h
          obtain ⟨rfl, -⟩ := Prod.mk.inj (Except.ok.inj h)
          exact iff_of_true (confined_allowedFile host hallowed) (.inl hallowed)
        · rw [if_neg hallowed] at h
          rw [or_iff_right hallowed]
          have hrel : isAbsolute (normalizeAdaptiveRel (RustStd.trim targetPath).toList) = false :=
            isAbsolute_normalizeAdaptiveRel _
          have hpath : path = join host.adaptiveRoot
              (normalizeAdaptiveRel (RustStd.trim targetPath).toList) := by
            split at h
            · cases h
            · split at h
              · cases h
              · exact (Prod.mk.inj (Except.ok.inj h)).1.symm
          refine confined_follow_iff host ?_ (hpath ▸ resolve_join hrel)
          rw [resolve_eq, hrel, if_neg Bool.false_ne_true, route_absolute]

/-- **Path confinement.**  The file of an accepted target, and the one a command works on,
is strictly below the adaptive root, or one of the two files below the adaptive runtime
root, exactly when the target is kept: the components it adds to the root never climb
above it, or climb and come down again through the same names; and below the runtime
root they spell an allowed name as it is. -/
theorem targets_confined_iff (printFloat : ℚ → String) (host : Host) :
    (∀ targetPath path rel, resolveAdaptivePath host targetPath = .ok (path, rel) →
      (host.Confined path ↔ host.Kept targetPath)) ∧
      ∀ payload path, commandPath printFloat host payload = some (.ok path) →
        ∃ target,
          LaneUtils.cleanText printFloat (payload.lookup "target_path") 520 = some target ∧
            (host.Confined path ↔ host.Kept target) := by
  refine ⟨fun targetPath path rel h => confined_iff_kept host targetPath h, ?_⟩
  intro payload path h
  obtain ⟨target, htarget, hpath⟩ := Option.map_eq_some_iff.mp h
  refine ⟨target, htarget, ?_⟩
  cases hresolve : resolveAdaptivePath host target with
  | error e =>
    rw [hresolve] at hpath
    cases hpath
  | ok found =>
    obtain ⟨path', rel⟩ := found
    rw [hresolve] at hpath
    obtain rfl := Except.ok.inj hpath
    exact confined_iff_kept host target hresolve

/-- The runtime of a workspace in which the targets do not exist yet. -/
def emptyHost : Host := { runtimeRoot := "/w/client/runtime".toList, canonicalize := id }

/-- A dot-dot that does not leave the adaptive root. -/
theorem habits_confined :
    (emptyHost.Confined "/w/client/runtime/adaptive/habits/../habits.json".toList ↔
      emptyHost.Kept "adaptive//habits/../habits.json") ∧
      emptyHost.Confined "/w/client/runtime/adaptive/habits/../habits.json".toList :=
  ⟨(targets_confined_iff V8Kernel.pointed emptyHost).1 "adaptive//habits/../habits.json" _
    "habits/../habits.json".toList (by decide +kernel), by decide +kernel⟩

/-- A dot-dot further in leaves the adaptive root, in a relative target and in an absolute
one; below the runtime root a second `adaptive` directory passes for the first. -/
theorem secret_not_confined :
    resolveAdaptivePath emptyHost "a/../../secret.json" =
        .ok ("/w/client/runtime/adaptive/a/../../secret.json".toList,
          "a/../../secret.json".toList) ∧
      ¬emptyHost.Confined "/w/client/runtime/adaptive/a/../../secret.json".toList ∧
      resolveAdaptivePath emptyHost "/w/client/runtime/adaptive/a/../../../../etc/secret" =
        .ok ("/w/client/runtime/adaptive/a/../../../../etc/secret".toList,
          "a/../../../../etc/secret".toList) ∧
      ¬emptyHost.Confined "/w/client/runtime/adaptive/a/../../../../etc/secret".toList ∧
      resolveAdaptivePath emptyHost
          "/w/client/runtime/local/adaptive/adaptive/sensory/eyes/catalog.json" =
        .ok ("/w/client/runtime/local/adaptive/adaptive/sensory/eyes/catalog.json".toList,
          "sensory/eyes/catalog.json".toList) ∧
      ¬emptyHost.Confined
        "/w/client/runtime/local/adaptive/adaptive/sensory/eyes/catalog.json".toList := by
  decide +kernel

end Protheus.AdaptiveStore
