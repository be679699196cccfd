import Mathlib.Data.List.Basic
import Mathlib.Data.List.TakeWhile

/-!
Paths of a Unix file system as `std::path` reads them, and what they stand for when
their dots are resolved without looking at the disk.

A path is a text, its segments are what stands between its slashes, and its
components are the segments that count: a blank segment and a `.` do not.
`resolve` walks the components: a name is entered, a `..` leaves the last name that
was entered.  A relative path may leave more than it entered, so a `Place` counts
the `..` that are left over.

The route of a path below another one is the place it reaches by itself; `follow`
takes a route from a place.  `Place.Leads` says when a route ends at a given goal: it
goes up no further than to a directory of the goal and down again through the
goal's own names.
-/

namespace Protheus.UnixPath

abbrev Path := List Char

/-! ## Components -/

/-- `std::path::Component`, without the prefixes of other systems. -/
inductive Comp where
  | rootDir
  | curDir
  | parentDir
  | normal (name : List Char)
  deriving DecidableEq

/-- What stands between the slashes. -/
def segments (p : Path) : List (List Char) := p.splitOn '/'

/-- The component of a segment past the start of the path. -/
def comp? : List Char → Option Comp
  | [] => none
  | ['.'] => none
  | ['.', '.'] => some .parentDir
  | name => some (.normal name)

def body (segs : List (List Char)) : List Comp := segs.filterMap comp?

@[simp] theorem body_append (segs segs' : List (List Char)) :
    body (segs ++ segs') = body segs ++ body segs' :=
  List.filterMap_append

@[simp] theorem body_blank : body [[]] = [] := rfl

theorem body_cons_of_none {seg : List Char} (h : comp? seg = none) (segs : List (List Char)) :
    body (seg :: segs) = body segs :=
  List.filterMap_cons_none h

theorem body_cons_of_some {seg : List Char} {c : Comp} (h : comp? seg = some c)
    (segs : List (List Char)) : body (seg :: segs) = c :: body segs :=
  List.filterMap_cons_some h

/-- The component a path starts with because it stands at the start. -/
def lead (p : Path) : List Comp :=
  match segments p with
  | [] :: _ :: _ => [.rootDir]
  | ['.'] :: _ => [.curDir]
  | _ => []

/-- `Path::components`. -/
def components (p : Path) : List Comp := lead p ++ body (segments p)

/-- `Path::is_absolute`. -/
def isAbsolute (p : Path) : Bool := p.head? == some '/'

/-- `Path::join`. -/
def join (base rel : Path) : Path :=
  if isAbsolute rel then rel
  else if base = [] ∨ base.getLast? = some '/' then base ++ rel
  else base ++ '/' :: rel

/-- The segments past the first `n` components. -/
def skip : ℕ → List (List Char) → List (List Char)
  | 0, segs => segs
  | _ + 1, [] => []
  | n + 1, seg :: rest => if comp? seg = none then skip (n + 1) rest else skip n rest

/-- The text of a path's remaining segments: those that do not count are dropped at
both ends. -/
def asPath (segs : List (List Char)) : Path :=
  let blank (seg : List Char) : Bool := (comp? seg).isNone
  ['/'].intercalate ((segs.dropWhile blank).reverse.dropWhile blank).reverse

/-- `Path::strip_prefix`, of a base that has components. -/
def stripPrefix (base p : Path) : Option Path :=
  if components base <+: components p then
    some (asPath (skip (body (segments base)).length (segments p)))
  else none

theorem skip_sublist (n : ℕ) (segs : List (List Char)) : (skip n segs).Sublist segs := by
  induction segs generalizing n with
  | nil => cases n <;> exact List.Sublist.refl _
  | cons seg rest ih =>
    cases n with
    | zero => exact List.Sublist.refl _
    | succ n =>
      rw [skip]
      split
      · exact (ih _).cons seg
      · exact (ih _).cons seg

theorem body_skip (n : ℕ) (segs : List (List Char)) :
    body (skip n segs) = (body segs).drop n := by
  induction segs generalizing n with
  | nil => cases n <;> rfl
  | cons seg rest ih =>
    cases n with
    | zero => rfl
    | succ n =>
      rw [skip]
      cases hseg : comp? seg with
      | none => rw [if_pos rfl, ih, body_cons_of_none hseg]
      | some c => rw [if_neg nofun, ih, body_cons_of_some hseg, List.drop_succ_cons]

theorem segments_append_slash (p q : Path) : segments (p ++ '/' :: q) = segments p ++ segments q :=
  List.splitOn_append_cons_self p q

theorem slash_notMem_segments {p seg : List Char} (h : seg ∈ segments p) : '/' ∉ seg := by
  induction p generalizing seg with
  | nil => simp_all [segments]
  | cons c p ih =>
    rw [segments, List.splitOn_cons_eq_if_modifyHead] at h
    split at h
    · cases List.mem_cons.mp h with
      | inl hseg => simp [hseg]
      | inr hseg => exact ih hseg
    · rename_i hc
      cases hsegs : p.splitOn '/' with
      | nil => simp [hsegs] at h
      | cons first rest =>
        have ih' {seg : List Char} (hseg : seg ∈ first :: rest) : '/' ∉ seg := by
          rw [← hsegs] at hseg
          exact ih hseg
        rw [hsegs, List.modifyHead_cons, List.mem_cons] at h
        cases h with
        | inl hseg =>
          rw [hseg, List.mem_cons, not_or]
          exact ⟨fun hslash => hc (by simp [← hslash]), ih' List.mem_cons_self⟩
        | inr hseg => exact ih' (List.mem_cons_of_mem _ hseg)

/-- A text put together from segments is taken apart into them. -/
theorem segments_intercalate {segs : List (List Char)} (hne : segs ≠ [])
    (h : ∀ seg ∈ segs, '/' ∉ seg) : segments (['/'].intercalate segs) = segs :=
  List.splitOn_intercalate '/' h hne

theorem segments_intercalate_flatMap {segs : List (List Char)} (hne : segs ≠ []) :
    segments (['/'].intercalate segs) = segs.flatMap segments := by
  induction segs with
  | nil => exact absurd rfl hne
  | cons seg rest ih =>
    cases rest with
    | nil => simp
    | cons next rest =>
      rw [List.intercalate_cons_cons, List.append_assoc, List.singleton_append,
        segments_append_slash, ih nofun]
      rfl

theorem body_dropWhile_blank (segs : List (List Char)) :
    body (segs.dropWhile fun seg => (comp? seg).isNone) = body segs := by
  induction segs with
  | nil => rfl
  | cons seg rest ih =>
    cases hseg : comp? seg with
    | none => rw [List.dropWhile_cons_of_pos (by simp [hseg]), ih, body_cons_of_none hseg]
    | some c => rw [List.dropWhile_cons_of_neg (by simp [hseg])]

theorem body_reverse (segs : List (List Char)) : body segs.reverse = (body segs).reverse :=
  List.filterMap_reverse

/-- The dropped ends of a path do not count. -/
theorem body_segments_asPath {segs : List (List Char)} (h : ∀ seg ∈ segs, '/' ∉ seg) :
    body (segments (asPath segs)) = body segs := by
  let blank (seg : List Char) : Bool := (comp? seg).isNone
  let kept := ((segs.dropWhile blank).reverse.dropWhile blank).reverse
  have hbody : body kept = body segs := by
    rw [body_reverse, body_dropWhile_blank, body_reverse, List.reverse_reverse,
      body_dropWhile_blank]
  have hpath : asPath segs = ['/'].intercalate kept := rfl
  by_cases hkept : kept = []
  · rw [hpath, ← hbody, hkept]
    rfl
  · have hslash (seg : List Char) (hseg : seg ∈ kept) : '/' ∉ seg := by
      refine h seg ((List.dropWhile_sublist blank).mem ?_)
      exact List.mem_reverse.mp ((List.dropWhile_sublist blank).mem (List.mem_reverse.mp hseg))
    rw [hpath, segments_intercalate hkept hslash, hbody]

theorem isAbsolute_iff {p : Path} : isAbsolute p = true ↔ ∃ q, p = '/' :: q := by
  cases p with
  | nil => simp [isAbsolute]
  | cons c q => simp [isAbsolute]

theorem segments_cons_slash (q : Path) : segments ('/' :: q) = [] :: segments q := by
  rw [segments, List.splitOn_cons_eq_if_modifyHead]
  rfl

/-- What a path starts with, told from its first segment. -/
theorem lead_cases (p : Path) :
    isAbsolute p = true ∧ lead p = [.rootDir] ∨
      isAbsolute p = false ∧ (lead p = [] ∨ lead p = [.curDir]) := by
  cases p with
  | nil => exact .inr ⟨rfl, .inl rfl⟩
  | cons c q =>
    by_cases hc : c = '/'
    · subst hc
      refine .inl ⟨rfl, ?_⟩
      rw [lead, segments_cons_slash]
      cases hq : segments q with
      | nil => exact absurd hq (List.splitOn_ne_nil '/' q)
      | cons first rest => rfl
    · refine .inr ⟨by simpa [isAbsolute] using hc, ?_⟩
      have hsegs : segments (c :: q) = (segments q).modifyHead (c :: ·) := by
        rw [segments, List.splitOn_cons_eq_if_modifyHead, if_neg (by simpa using hc), segments]
      rw [lead, hsegs]
      cases segments q with
      | nil => exact .inl rfl
      | cons first rest =>
        by_cases hdot : c :: first = ['.']
        · rw [List.modifyHead_cons, hdot]
          exact .inr rfl
        · rw [List.modifyHead_cons]
          refine .inl ?_
          split
          · rename_i heq
            cases heq
          · rename_i heq
            exact absurd (List.cons.inj heq).1 hdot
          · rfl

/-! ## What a path stands for -/

/-- Where a walk has come to: from the root or not, how many names it has left above
its start, and the names it is in. -/
structure Place where
  absolute : Bool
  ups : ℕ
  names : List (List Char)
  deriving DecidableEq

/-- Where a relative walk starts. -/
def Place.start : Place := ⟨false, 0, []⟩

/-- One component of a walk. -/
def Place.enter (s : Place) : Comp → Place
  | .rootDir => ⟨true, 0, []⟩
  | .curDir => s
  | .parentDir =>
    if s.names ≠ [] then { s with names := s.names.dropLast }
    else if s.absolute then s
    else { s with ups := s.ups + 1 }
  | .normal name => { s with names := s.names ++ [name] }

/-- What a path stands for when its dots are resolved. -/
def resolve (p : Path) : Place := (components p).foldl Place.enter .start

/-- The place a walk comes to from `s` by a relative route. -/
def Place.follow (s route : Place) : Place :=
  if s.absolute ∨ route.ups ≤ s.names.length then
    { s with names := s.names.take (s.names.length - route.ups) ++ route.names }
  else { s with ups := s.ups + (route.ups - s.names.length), names := route.names }

theorem Place.follow_start (s : Place) : s.follow .start = s := by
  simp [follow, start]

/-- Following a route and then one component is following the longer route. -/
theorem Place.enter_follow {s route : Place} (hroute : route.absolute = false) {c : Comp}
    (hc : c ≠ .rootDir) : (s.follow route).enter c = s.follow (route.enter c) := by
  cases c with
  | rootDir => exact absurd rfl hc
  | curDir => rfl
  | normal name =>
    by_cases hwithin : s.absolute ∨ route.ups ≤ s.names.length
    · simp [enter, follow, hwithin]
    · simp [enter, follow, hwithin]
  | parentDir =>
    obtain ⟨absolute, ups, names⟩ := route
    cases hroute
    by_cases hnames : names = []
    · -- Nothing entered is left: the route goes up once more.
      subst hnames
      have henter : (Place.mk false ups []).enter .parentDir = ⟨false, ups + 1, []⟩ := rfl
      rw [henter]
      simp only [follow, List.append_nil]
      by_cases hups : ups < s.names.length
      · rw [if_pos (.inr (Nat.le_of_lt hups)), if_pos (.inr hups), enter, if_pos]
        · have hlast : (s.names.take (s.names.length - ups)).dropLast =
              s.names.take (s.names.length - (ups + 1)) := by
            rw [List.dropLast_eq_take, List.take_take, List.length_take]
            congr 1
            omega
          rw [hlast]
        · rw [← List.length_pos_iff, List.length_take]
          omega
      · have hleft : s.names.length - ups = 0 := by omega
        have hleft' : s.names.length - (ups + 1) = 0 := by omega
        rw [hleft, hleft', List.take_zero]
        cases habs : s.absolute with
        | true => simp [enter]
        | false =>
          by_cases heq : ups = s.names.length
          · simp [enter, heq]
          · have hmore : ¬ups ≤ s.names.length := by omega
            have hmore' : ¬ups + 1 ≤ s.names.length := by omega
            simp only [hmore, hmore', enter]
            simp
            omega
    · have henter : (Place.mk false ups names).enter .parentDir =
          ⟨false, ups, names.dropLast⟩ := by
        simp [enter, hnames]
      rw [henter]
      simp only [follow]
      split
      · rw [enter, if_pos (by simp [hnames]), List.dropLast_append_of_ne_nil hnames]
      · rw [enter, if_pos hnames]

theorem Place.enter_absolute {route : Place} {c : Comp} (hc : c ≠ .rootDir) :
    (route.enter c).absolute = route.absolute := by
  cases c with
  | rootDir => exact absurd rfl hc
  | curDir => rfl
  | normal name => rfl
  | parentDir =>
    simp only [enter]
    split
    · rfl
    · split <;> rfl

theorem rootDir_notMem_body (segs : List (List Char)) : .rootDir ∉ body segs := by
  intro h
  obtain ⟨seg, -, hseg⟩ := List.mem_filterMap.mp h
  unfold comp? at hseg
  split at hseg <;> cases hseg

/-- A walk from `s` is the walk from the start, followed from `s`. -/
theorem foldl_enter {s route : Place} (hroute : route.absolute = false) {comps : List Comp}
    (hcomps : .rootDir ∉ comps) :
    comps.foldl Place.enter (s.follow route) = s.follow (comps.foldl Place.enter route) := by
  induction comps generalizing route with
  | nil => rfl
  | cons c comps ih =>
    obtain ⟨hc, hcomps⟩ := not_or.mp (List.mem_cons.not.mp hcomps)
    rw [List.foldl_cons, Place.enter_follow hroute (Ne.symm hc), List.foldl_cons]
    exact ih ((Place.enter_absolute (Ne.symm hc)).trans hroute) hcomps

/-- The route the body of a path describes. -/
def route (segs : List (List Char)) : Place := (body segs).foldl Place.enter .start

theorem foldl_body (s : Place) (segs : List (List Char)) :
    (body segs).foldl Place.enter s = s.follow (route segs) := by
  have hwalk := @foldl_enter s .start rfl _ (rootDir_notMem_body segs)
  rwa [Place.follow_start] at hwalk

/-- A body of names leads where it says. -/
theorem route_of_names {segs names : List (List Char)} (h : body segs = names.map .normal) :
    route segs = ⟨false, 0, names⟩ := by
  have hwalk (names entered : List (List Char)) :
      (names.map Comp.normal).foldl Place.enter ⟨false, 0, entered⟩ = ⟨false, 0, entered ++ names⟩ := by
    induction names generalizing entered with
    | nil => rw [List.append_nil]; rfl
    | cons name rest ih =>
      have hrest := ih (entered ++ [name])
      rw [List.append_assoc, List.singleton_append] at hrest
      exact hrest
  rw [route, h]
  exact hwalk names []

theorem route_absolute (segs : List (List Char)) : (route segs).absolute = false := by
  have hkeep {comps : List Comp} (hcomps : .rootDir ∉ comps) {s : Place}
      (hs : s.absolute = false) : (comps.foldl Place.enter s).absolute = false := by
    induction comps generalizing s with
    | nil => exact hs
    | cons c comps ih =>
      obtain ⟨hc, hcomps⟩ := not_or.mp (List.mem_cons.not.mp hcomps)
      exact ih hcomps ((Place.enter_absolute (Ne.symm hc)).trans hs)
  exact hkeep (rootDir_notMem_body segs) rfl

theorem resolve_eq (p : Path) :
    resolve p = if isAbsolute p then (⟨true, 0, []⟩ : Place).follow (route (segments p))
      else route (segments p) := by
  rw [resolve, components, List.foldl_append]
  obtain ⟨habs, hlead⟩ | ⟨habs, hlead | hlead⟩ := lead_cases p
  · rw [habs, hlead, if_pos rfl]
    exact foldl_body _ _
  · rw [habs, hlead, if_neg Bool.false_ne_true]
    rfl
  · rw [habs, hlead, if_neg Bool.false_ne_true]
    rfl

/-- A path with the segments of a base and more, but for blank ones, is where the route of the rest
leads from the base. -/
theorem resolve_of_body {base p : Path} {rest : List (List Char)}
    (habs : isAbsolute p = isAbsolute base)
    (hbody : body (segments p) = body (segments base) ++ body rest) :
    resolve p = (resolve base).follow (route rest) := by
  have hroute : route (segments p) = (route (segments base)).follow (route rest) := by
    rw [route, hbody, List.foldl_append, foldl_body]
    rfl
  have hassoc (s : Place) : s.follow ((route (segments base)).follow (route rest)) =
      (s.follow (route (segments base))).follow (route rest) := by
    rw [← foldl_body (route (segments base)), ← foldl_enter (route_absolute _)
      (rootDir_notMem_body _), foldl_body]
  rw [resolve_eq p, resolve_eq base, habs, hroute]
  split
  · exact hassoc _
  · rfl

theorem isAbsolute_join {base rel : Path} (hrel : isAbsolute rel = false) :
    isAbsolute (join base rel) = isAbsolute base := by
  rw [join, hrel, if_neg Bool.false_ne_true]
  cases base with
  | nil =>
    rw [if_pos (.inl rfl)]
    exact hrel
  | cons c base =>
    split
    · rfl
    · rfl

/-- Joining puts the components one after the other. -/
theorem body_join {base rel : Path} (hrel : isAbsolute rel = false) :
    body (segments (join base rel)) = body (segments base) ++ body (segments rel) := by
  rw [join, hrel, if_neg Bool.false_ne_true]
  by_cases hnil : base = []
  · rw [if_pos (.inl hnil), hnil]
    rfl
  · by_cases hlast : base.getLast? = some '/'
    · rw [if_pos (.inr hlast)]
      obtain ⟨front, hfront⟩ := List.getLast?_eq_some_iff.mp hlast
      rw [hfront, List.append_assoc, List.singleton_append, segments_append_slash,
        segments_append_slash, body_append, body_append]
      simp [segments]
    · rw [if_neg (not_or.mpr ⟨hnil, hlast⟩), segments_append_slash, body_append]

theorem resolve_join {base rel : Path} (hrel : isAbsolute rel = false) :
    resolve (join base rel) = (resolve base).follow (resolve rel) := by
  rw [resolve_of_body (isAbsolute_join hrel) (body_join hrel), resolve_eq rel, hrel,
    if_neg Bool.false_ne_true]

/-- The route from a base to a path below it, as the path describes it. -/
def routeFrom (base p : Path) : Place :=
  ((components p).drop (components base).length).foldl Place.enter .start

/-- Paths one of which starts with the other start alike. -/
theorem lead_eq_of_prefix {base p : Path} (hbase : components base ≠ [])
    (h : components base <+: components p) : lead p = lead base := by
  have hnormal {p : Path} {c : Comp} (hc : c ∈ body (segments p)) : c ≠ .curDir := by
    rintro rfl
    obtain ⟨seg, -, hseg⟩ := List.mem_filterMap.mp hc
    unfold comp? at hseg
    split at hseg <;> cases hseg
  -- The first component tells what a path starts with.
  have hfirst {p : Path} : lead p = ((components p).head?.filter fun c =>
      c = .rootDir ∨ c = .curDir).toList := by
    rw [components]
    obtain ⟨-, hlead⟩ | ⟨-, hlead | hlead⟩ := lead_cases p
    · rw [hlead]
      rfl
    · rw [hlead, List.nil_append]
      cases hbody : body (segments p) with
      | nil => rfl
      | cons c comps =>
        have hmem : c ∈ body (segments p) := hbody ▸ List.mem_cons_self
        have hroot : c ≠ .rootDir := fun h => rootDir_notMem_body (segments p) (h ▸ hmem)
        simp [hroot, hnormal hmem]
    · rw [hlead]
      rfl
  obtain ⟨more, hmore⟩ := h
  rw [hfirst, hfirst, ← hmore, List.head?_append_of_ne_nil _ hbase]

/-- The segment that goes up. -/
def dotDot : List Char := ['.', '.']

/-- A route without it goes up nowhere. -/
theorem ups_route {segs : List (List Char)} (h : dotDot ∉ segs) : (route segs).ups = 0 := by
  have hparent : .parentDir ∉ body segs := by
    intro hmem
    obtain ⟨seg, hseg, hcomp⟩ := List.mem_filterMap.mp hmem
    unfold comp? at hcomp
    split at hcomp
    · cases hcomp
    · cases hcomp
    · exact h hseg
    · cases hcomp
  have hkeep {comps : List Comp} (hcomps : .parentDir ∉ comps) {s : Place} (hs : s.ups = 0) :
      (comps.foldl Place.enter s).ups = 0 := by
    induction comps generalizing s with
    | nil => exact hs
    | cons c comps ih =>
      obtain ⟨hc, hcomps⟩ := not_or.mp (List.mem_cons.not.mp hcomps)
      refine ih hcomps ?_
      cases c with
      | rootDir => rfl
      | curDir => exact hs
      | parentDir => exact absurd rfl hc
      | normal name => exact hs
  exact hkeep hparent rfl

/-- The route past a base is that of the stripped path. -/
theorem routeFrom_eq {base p rest : Path} (hbase : components base ≠ [])
    (h : stripPrefix base p = some rest) : routeFrom base p = route (segments rest) := by
  rw [stripPrefix] at h
  split at h
  · rename_i hinitial
    obtain rfl := Option.some.inj h
    have hdrop : (components p).drop (components base).length =
        body (skip (body (segments base)).length (segments p)) := by
      rw [body_skip, components, components, lead_eq_of_prefix hbase hinitial, List.length_append,
        List.drop_append, List.drop_eq_nil_of_le (by omega)]
      simp
    have hslash {seg : List Char}
        (hseg : seg ∈ skip (body (segments base)).length (segments p)) : '/' ∉ seg :=
      slash_notMem_segments ((skip_sublist _ _).mem hseg)
    rw [routeFrom, hdrop, route, body_segments_asPath fun seg hseg => hslash hseg]
  · cases h

/-- What is stripped is taken off the components of the path. -/
theorem body_of_stripPrefix {base p rest : Path} (hbase : components base ≠ [])
    (h : stripPrefix base p = some rest) : isAbsolute p = isAbsolute base ∧
      body (segments p) = body (segments base) ++ body (segments rest) := by
  rw [stripPrefix] at h
  split at h
  · rename_i hinitial
    obtain rfl := Option.some.inj h
    have hlead := lead_eq_of_prefix hbase hinitial
    have habs : isAbsolute p = isAbsolute base := by
      obtain ⟨hp, hleadp⟩ | ⟨hp, hleadp | hleadp⟩ := lead_cases p <;>
        obtain ⟨hb, hleadb⟩ | ⟨hb, hleadb | hleadb⟩ := lead_cases base <;>
          simp_all
    have hbody : body (segments base) <+: body (segments p) := by
      rw [components, components, hlead] at hinitial
      exact (List.prefix_append_right_inj _).mp hinitial
    obtain ⟨more, hmore⟩ := hbody
    have hslash (seg : List Char)
        (hseg : seg ∈ skip (body (segments base)).length (segments p)) : '/' ∉ seg :=
      slash_notMem_segments ((skip_sublist _ _).mem hseg)
    refine ⟨habs, ?_⟩
    rw [body_segments_asPath hslash, body_skip, ← hmore, List.drop_left]
  · cases h

/-- A path below a base is where the route past the base leads from it. -/
theorem resolve_eq_follow {base p rest : Path} (hbase : components base ≠ [])
    (h : stripPrefix base p = some rest) :
    resolve p = (resolve base).follow (routeFrom base p) := by
  rw [stripPrefix] at h
  split at h
  · rename_i hinitial
    have hsplit : components p =
        components base ++ (components p).drop (components base).length := by
      obtain ⟨more, hmore⟩ := hinitial
      rw [← hmore, List.drop_left]
    have hroot : .rootDir ∉ (components p).drop (components base).length := by
      rw [components, components, lead_eq_of_prefix hbase hinitial, List.length_append,
        List.drop_append, List.drop_eq_nil_of_le (by omega), List.nil_append]
      exact fun hmem => rootDir_notMem_body (segments p) (List.mem_of_mem_drop hmem)
    have hwalk := @foldl_enter (resolve base) .start rfl _ hroot
    rw [Place.follow_start] at hwalk
    rw [resolve, hsplit, List.foldl_append]
    simpa [routeFrom, resolve] using hwalk
  · cases h

/-! ## Below a place -/

def Place.Below (root s : Place) : Prop :=
  s.absolute = root.absolute ∧ s.ups = root.ups ∧ root.names <+: s.names ∧ root.names ≠ s.names

instance (root s : Place) : Decidable (root.Below s) :=
  inferInstanceAs (Decidable (_ ∧ _ ∧ _ ∧ _))

/-- The route goes up from `s` to a directory the goal shares with it and down again
through the goal's own names. -/
def Place.Leads (s route goal : Place) : Prop :=
  (s.absolute ∨ route.ups ≤ s.names.length) ∧
    s.names.take (s.names.length - route.ups) <+: goal.names ∧
    route.names = goal.names.drop (s.names.length - route.ups)

theorem Place.follow_of_within {s route : Place}
    (h : s.absolute ∨ route.ups ≤ s.names.length) : s.follow route =
      { s with names := s.names.take (s.names.length - route.ups) ++ route.names } :=
  if_pos h

/-- A route that only enters names. -/
theorem Place.follow_of_no_ups (s : Place) (names : List (List Char)) :
    s.follow ⟨false, 0, names⟩ = { s with names := s.names ++ names } := by
  rw [follow_of_within (.inr (Nat.zero_le _)), Nat.sub_zero, List.take_length]

/-- Where a route leads. -/
theorem Place.follow_eq_iff {s route goal : Place} (habs : goal.absolute = s.absolute)
    (hups : goal.ups = s.ups) : s.follow route = goal ↔ s.Leads route goal := by
  have hlength : (s.names.take (s.names.length - route.ups)).length =
      s.names.length - route.ups := by
    rw [List.length_take]
    omega
  constructor
  · intro h
    by_cases hwithin : s.absolute ∨ route.ups ≤ s.names.length
    · rw [follow_of_within hwithin] at h
      have hnames : s.names.take (s.names.length - route.ups) ++ route.names = goal.names :=
        congrArg Place.names h
      refine ⟨hwithin, ⟨_, hnames⟩, ?_⟩
      rw [← hnames, List.drop_left' hlength]
    · rw [follow, if_neg hwithin] at h
      have hmore : s.ups + (route.ups - s.names.length) = goal.ups := congrArg Place.ups h
      exact absurd (Or.inr (by omega)) hwithin
  · rintro ⟨hwithin, ⟨more, hmore⟩, hnames⟩
    rw [follow_of_within hwithin, hnames, ← hmore, List.drop_left' hlength, hmore]
    obtain ⟨absolute, ups, names⟩ := goal
    rw [← habs, ← hups]

/-- A route ends below its start where it goes up some names and down again through
the same names and further. -/
theorem Place.below_follow_iff {s route : Place} : s.Below (s.follow route) ↔
    ∃ more, more ≠ [] ∧ s.Leads route { s with names := s.names ++ more } := by
  have hgoal (more : List (List Char)) :
      s.follow route = { s with names := s.names ++ more } ↔
        s.Leads route { s with names := s.names ++ more } :=
    @follow_eq_iff s route { s with names := s.names ++ more } rfl rfl
  constructor
  · rintro ⟨habs, hups, ⟨more, hmore⟩, hne⟩
    refine ⟨more, ?_, (hgoal more).mp ?_⟩
    · rintro rfl
      exact hne (by rw [← hmore, List.append_nil])
    · rw [hmore, ← habs, ← hups]
  · rintro ⟨more, hne, hleads⟩
    rw [(hgoal more).mpr hleads]
    exact ⟨rfl, rfl, ⟨more, rfl⟩, by simpa using hne⟩

/-- A route that goes up nowhere ends below its start unless it goes nowhere. -/
theorem Place.below_follow_of_ups_eq_zero {s route : Place} (hups : route.ups = 0) :
    s.Below (s.follow route) ↔ route.names ≠ [] := by
  have hwithin : s.absolute ∨ route.ups ≤ s.names.length := .inr (by omega)
  rw [follow_of_within hwithin, hups, Nat.sub_zero, List.take_length]
  constructor
  · rintro ⟨-, -, -, hne⟩ hnames
    exact hne (by rw [hnames, List.append_nil])
  · intro hne
    exact ⟨rfl, rfl, List.prefix_append _ _, by simpa using hne⟩

/-! ## At a place or below it -/

/-- At a directory or below it. -/
def Place.Holds (dir s : Place) : Prop :=
  s.absolute = dir.absolute ∧ s.ups = dir.ups ∧ dir.names <+: s.names

instance (dir s : Place) : Decidable (dir.Holds s) :=
  inferInstanceAs (Decidable (_ ∧ _ ∧ _))

/-- A route that goes up nowhere stays in the directory. -/
theorem Place.holds_follow_of_ups_eq_zero {s route : Place} (hups : route.ups = 0) :
    s.Holds (s.follow route) := by
  rw [follow_of_within (.inr (by omega)), hups, Nat.sub_zero, List.take_length]
  exact ⟨rfl, rfl, List.prefix_append _ _⟩

end Protheus.UnixPath
