import Protheus.Egress
import Protheus.Lib.Words

/-!
The host the egress gateway reads off a URL, and the host the URL has.

The URL is cleaned before its host is looked for, and cleaning cuts it off after 2000 bytes.  A
URL whose host ends before that is read as it is.  Of a longer one the gateway takes what is
left in the place of the host (`Url.seenHost`): the beginning of it, or of the user information,
or of the scheme.  What a rule lets through is on its list if that is all there is to the host,
or an ending of it (`listed_iff`).
-/

namespace Protheus.Egress

open RustStd LaneUtils

/-! ## URLs -/

def isHostChar (c : Char) : Bool := c.isAlphanum || c = '-' || c = '.'

def isSchemeChar (c : Char) : Bool := c.isAlphanum || c = '+' || c = '-' || c = '.'

/-- Where the part of a URL that holds the host ends. -/
def isAuthorityEnd (c : Char) : Bool := c = '/' || c = '?' || c = '#'

/-- `scheme://[userinfo@]host[:port][path][?query][#fragment]`. -/
structure Url where
  scheme : String
  userinfo : Option String
  host : String
  port : Option String
  path : String
  query : Option String
  fragment : Option String
  scheme_ne : scheme ≠ ""
  scheme_chars : ∀ c ∈ scheme.toList, isSchemeChar c = true
  userinfo_chars : ∀ s ∈ userinfo, ∀ c ∈ s.toList, c ≠ '@' ∧ isAuthorityEnd c = false
  host_chars : ∀ c ∈ host.toList, isHostChar c = true
  port_chars : ∀ s ∈ port, ∀ c ∈ s.toList, c.isDigit = true
  path_head : ∀ c ∈ path.toList.head?, c = '/'

/-- A part that may be missing, in its delimiters. -/
def optional (before : String) (part : Option String) (after : String) : List Char :=
  match part with
  | some part => before.toList ++ part.toList ++ after.toList
  | none => []

namespace Url

variable (url : Url)

/-- The scheme and what separates it from the rest. -/
def lead : List Char := url.scheme.toList ++ "://".toList

/-- What follows the host and the port. -/
def resource : List Char :=
  url.path.toList ++ (optional "?" url.query "" ++ optional "#" url.fragment "")

/-- What follows the host. -/
def tail : List Char := optional ":" url.port "" ++ url.resource

def chars : List Char :=
  url.lead ++ (optional "" url.userinfo "@" ++ (url.host.toList ++ url.tail))

def text : String := String.ofList url.chars

/-- The URL as `clean_text` cuts it off; `none` where the cut falls inside a character. -/
def cut : Option (List Char) := truncate 2000 (joinWords (trim url.text))

/-- What a text that is left of the URL has in the place of the host: the beginning of the host;
of a text that ends before, what the user information has up to its first colon; of one that
ends in the scheme, the beginning of the scheme. -/
def nameIn (left : List Char) : String :=
  if left.length < url.lead.length then
    toAsciiLowercase (String.ofList (url.scheme.toList.take left.length))
  else if url.userinfo.isSome then
    if '@' ∈ left then
      toAsciiLowercase (String.ofList (url.host.toList.take ((left.dropWhile (· ≠ '@')).length - 1)))
    else
      let user := trim (toAsciiLowercase (String.ofList (left.drop url.lead.length)))
      trim (String.ofList (user.toList.takeWhile (· != ':')))
  else toAsciiLowercase (String.ofList (url.host.toList.take (left.length - url.lead.length)))

/-- What the gateway takes for the host. -/
def seenHost : Option String := url.cut.map url.nameIn

end Url

/-- A host is a domain or a name in it. -/
def Under (host domain : String) : Prop :=
  domain ≠ "" ∧ (host = domain ∨ '.' :: domain.toList <:+ host.toList)

theorem domainMatches_iff {host domain : String} :
    domainMatches host domain = true ↔ Under host (toAsciiLowercase (trim domain)) := by
  simp only [domainMatches, Under]
  split
  · simp [*]
  · simp [*]

theorem Under.trans {a b c : String} (hab : Under a b) (hbc : Under b c) : Under a c := by
  obtain ⟨-, hab⟩ := hab
  obtain ⟨hne, hbc⟩ := hbc
  refine ⟨hne, ?_⟩
  obtain rfl | hab := hab
  · exact hbc
  · obtain rfl | hbc := hbc
    · exact .inr hab
    · exact .inr (hbc.trans ((List.suffix_cons _ _).trans hab))

/-! ## Characters -/

section Chars

variable {c : Char}

/-- A character that delimits nothing. -/
structure Ordinary (c : Char) : Prop where
  visible : isWhitespace c = false
  ne_colon : c ≠ ':'
  ne_at : c ≠ '@'
  not_end : isAuthorityEnd c = false

theorem isAuthorityEnd_iff : isAuthorityEnd c = true ↔ c = '/' ∨ c = '?' ∨ c = '#' := by
  simp [isAuthorityEnd, or_assoc]

theorem isAuthorityEnd_toLower (c : Char) : isAuthorityEnd c.toLower = isAuthorityEnd c := by
  rw [Bool.eq_iff_iff, isAuthorityEnd_iff, isAuthorityEnd_iff, toLower_eq_iff (by decide),
    toLower_eq_iff (by decide), toLower_eq_iff (by decide)]

theorem Ordinary.toLower (h : Ordinary c) : Ordinary c.toLower where
  visible := by rw [isWhitespace_toLower, h.visible]
  ne_colon := fun heq => h.ne_colon ((toLower_eq_iff (by decide)).mp heq)
  ne_at := fun heq => h.ne_at ((toLower_eq_iff (by decide)).mp heq)
  not_end := by rw [isAuthorityEnd_toLower, h.not_end]

/-- Letters, digits and what else a scheme or a host may have. -/
theorem ordinary_of_toNat (h : (48 ≤ c.toNat ∧ c.toNat ≤ 57) ∨ (65 ≤ c.toNat ∧ c.toNat ≤ 90) ∨
    (97 ≤ c.toNat ∧ c.toNat ≤ 122) ∨ c.toNat = 43 ∨ c.toNat = 45 ∨ c.toNat = 46) : Ordinary c := by
  have hne {d : Char} (hd : d ∈ [':', '@', '/', '?', '#']) : c ≠ d := by
    rintro rfl
    revert h
    fin_cases hd <;> decide
  refine ⟨?_, hne (by simp), hne (by simp), ?_⟩
  · simp only [isWhitespace, Bool.or_eq_false_iff, Bool.and_eq_false_iff, decide_eq_false_iff_not,
      beq_eq_false_iff_ne]
    omega
  · rw [← Bool.not_eq_true, isAuthorityEnd_iff]
    rintro (h | h | h)
    · exact hne (by simp) h
    · exact hne (by simp) h
    · exact hne (by simp) h

theorem ordinary_of_isSchemeChar (h : isSchemeChar c = true) : Ordinary c := by
  apply ordinary_of_toNat
  simp only [isSchemeChar, Bool.or_eq_true, decide_eq_true_eq] at h
  obtain ((h | rfl) | rfl) | rfl := h
  · obtain h | h | h := toNat_of_isAlphanum h
    · exact .inl h
    · exact .inr (.inl h)
    · exact .inr (.inr (.inl h))
  · decide
  · decide
  · decide

theorem ordinary_of_isHostChar (h : isHostChar c = true) : Ordinary c := by
  apply ordinary_of_isSchemeChar
  simp only [isHostChar, isSchemeChar, Bool.or_eq_true, decide_eq_true_eq] at h ⊢
  tauto

theorem ordinary_of_isDigit (h : c.isDigit = true) : Ordinary c := by
  apply ordinary_of_isSchemeChar
  simp [isSchemeChar, Char.isAlphanum, h]

end Chars

theorem joinWords_trim (s : String) : joinWords (trim s) = joinWords s := by
  have hwords : Words.words isWhitespace (trim s).toList = Words.words isWhitespace s.toList := by
    rw [trim, String.toList_ofList, Words.words_reverse_dropWhile, List.reverse_reverse,
      Words.words_dropWhile]
  change Words.joined isWhitespace ' ' _ = Words.joined isWhitespace ' ' _
  rw [Words.joined, hwords, Words.joined]

/-! ## What `parse_host` reads -/

section ParseHost

/-- `parse_host` of what follows the scheme. -/
def hostOf (withoutScheme : List Char) : String :=
  let hostPort := (trim (String.ofList (withoutScheme.takeWhile (!isAuthorityEnd ·)))).toList
  let afterUser := (hostPort.reverse.takeWhile (· != '@')).reverse
  trim (String.ofList (afterUser.takeWhile (· != ':')))

theorem parseHost_eq (rawUrl : String) : parseHost rawUrl =
    hostOf ((afterScheme (toAsciiLowercase (trim rawUrl)).toList).getD
      (toAsciiLowercase (trim rawUrl)).toList) := by
  have hend : (fun c => !(['/', '?', '#'].contains c)) = (!isAuthorityEnd ·) := by
    funext c
    refine congrArg (!·) (Bool.eq_iff_iff.mpr ?_)
    rw [isAuthorityEnd_iff]
    simp
  unfold parseHost hostOf
  rw [hend]

theorem afterScheme_append {lead : List Char} (h : ∀ c ∈ lead, Ordinary c) (rest : List Char) :
    afterScheme (lead ++ rest) = afterScheme rest := by
  induction lead with
  | nil => rfl
  | cons c lead ih =>
    have hc := (h c List.mem_cons_self).ne_colon
    rw [List.cons_append, afterScheme, ih fun d hd => h d (List.mem_cons_of_mem c hd)]
    rintro _ rfl
    exact absurd rfl hc

/-- What can follow a host. -/
structure IsTail (rest : List Char) : Prop where
  head : ∀ c ∈ rest.head?, c = ':' ∨ isAuthorityEnd c = true
  no_at : '@' ∉ rest.takeWhile (!isAuthorityEnd ·)

theorem isTail_nil : IsTail [] := ⟨by simp, by simp⟩

theorem IsTail.of_prefix {rest rest' : List Char} (h : IsTail rest) (hinitial : rest' <+: rest) :
    IsTail rest' := by
  obtain ⟨more, rfl⟩ := hinitial
  constructor
  · intro c hc
    obtain ⟨tail, rfl⟩ := List.head?_eq_some_iff.mp hc
    exact h.head c rfl
  · intro hat
    refine h.no_at ?_
    rw [List.takeWhile_append]
    split
    · rename_i hlength
      refine List.mem_append_left _ ?_
      rwa [← (List.takeWhile_prefix _).eq_of_length hlength]
    · exact hat

theorem IsTail.toLower {rest : List Char} (h : IsTail rest) : IsTail (rest.map Char.toLower) := by
  have hsame : (!isAuthorityEnd ·) ∘ Char.toLower = (!isAuthorityEnd ·) := by
    funext c
    simp [isAuthorityEnd_toLower]
  constructor
  · intro c hc
    rw [List.head?_map, Option.mem_def, Option.map_eq_some_iff] at hc
    obtain ⟨d, hd, rfl⟩ := hc
    rw [toLower_eq_iff (by decide), isAuthorityEnd_toLower]
    exact h.head d hd
  · intro hat
    rw [List.takeWhile_map, hsame] at hat
    obtain ⟨d, hd, hlower⟩ := List.mem_map.mp hat
    obtain rfl := (toLower_eq_iff (by decide)).mp hlower
    exact h.no_at hd

/-- **The host between what can stand before it and after it.** -/
theorem hostOf_append {user name rest : List Char}
    (huser : user = [] ∨ ∃ u, user = u ++ ['@'] ∧ ∀ c ∈ u, isAuthorityEnd c = false)
    (hname : ∀ c ∈ name, Ordinary c) (hrest : IsTail rest) :
    hostOf (user ++ (name ++ rest)) = String.ofList name := by
  have hafter : rest.takeWhile (!isAuthorityEnd ·) <+: rest := List.takeWhile_prefix _
  have htake : (user ++ (name ++ rest)).takeWhile (!isAuthorityEnd ·) =
      user ++ (name ++ rest.takeWhile (!isAuthorityEnd ·)) := by
    rw [List.takeWhile_append_of_pos, List.takeWhile_append_of_pos]
    · intro c hc
      simp [(hname c hc).not_end]
    · intro c hc
      obtain rfl | ⟨u, rfl, hu⟩ := huser
      · cases hc
      · obtain hc | hc := List.mem_append.mp hc
        · simp [hu c hc]
        · obtain rfl := List.mem_singleton.mp hc
          rfl
  have hno_at := hrest.no_at
  have hhead := (hrest.of_prefix hafter).head
  have hcolon : ∀ c ∈ (rest.takeWhile (!isAuthorityEnd ·)).head?, c = ':' := by
    intro c hc
    have hend : isAuthorityEnd c = false := by
      simpa using List.mem_takeWhile_imp (List.mem_of_mem_head? hc)
    exact (hhead c hc).resolve_right (by simp [hend])
  rw [hostOf, htake]
  generalize rest.takeWhile (!isAuthorityEnd ·) = port at hno_at hcolon
  -- trimming takes away blanks before the user information and behind the port
  have htrim : ∃ user', (trim (String.ofList (user ++ (name ++ port)))).toList =
      user' ++ (name ++ trimEnd port) ∧ (user' = [] ∨ ∃ u, user' = u ++ ['@']) := by
    have hlast : ∀ c ∈ name.getLast?, isWhitespace c = false :=
      fun c hc => (hname c (List.mem_of_getLast? hc)).visible
    rw [trim_ofList, String.toList_ofList]
    obtain rfl | ⟨u, rfl, -⟩ := huser
    · refine ⟨[], ?_, .inl rfl⟩
      have hdrop : (name ++ port).dropWhile isWhitespace = name ++ port := by
        cases name with
        | cons c name =>
          rw [List.cons_append, List.dropWhile_cons_of_neg]
          simp [(hname c List.mem_cons_self).visible]
        | nil =>
          cases port with
          | nil => rfl
          | cons c port =>
            obtain rfl := hcolon c rfl
            rfl
      rw [List.nil_append, hdrop, trimEnd_append hlast, List.nil_append]
    · refine ⟨u.dropWhile isWhitespace ++ ['@'], ?_, .inr ⟨_, rfl⟩⟩
      have hdrop : ((u ++ ['@']) ++ (name ++ port)).dropWhile isWhitespace =
          u.dropWhile isWhitespace ++ ['@'] ++ name ++ port := by
        rw [List.append_assoc, List.dropWhile_append]
        split
        · rename_i hempty
          rw [List.isEmpty_iff.mp hempty]
          rfl
        · simp
      rw [hdrop, trimEnd_append]
      · simp
      · intro c hc
        rw [List.getLast?_append] at hc
        cases hname' : name.getLast? with
        | none =>
          rw [hname', Option.none_or, List.getLast?_concat] at hc
          cases hc
          rfl
        | some d =>
          rw [hname', Option.some_or] at hc
          cases hc
          exact hlast c hname'
  obtain ⟨user', htrim, huser'⟩ := htrim
  have hport : ∀ c ∈ name ++ trimEnd port, c ≠ '@' := by
    intro c hc
    obtain hc | hc := List.mem_append.mp hc
    · exact (hname c hc).ne_at
    · rintro rfl
      exact hno_at ((trimEnd_initial port).subset hc)
  have hafterUser : ((user' ++ (name ++ trimEnd port)).reverse.takeWhile (· != '@')).reverse =
      name ++ trimEnd port := by
    have hall : ∀ c ∈ (name ++ trimEnd port).reverse, (c != '@') = true := by
      intro c hc
      simpa using hport c (List.mem_reverse.mp hc)
    rw [List.reverse_append, List.takeWhile_append_of_pos hall]
    obtain rfl | ⟨u, rfl⟩ := huser'
    · simp
    · simp
  have hhost : (name ++ trimEnd port).takeWhile (· != ':') = name := by
    rw [List.takeWhile_append_of_pos fun c hc => by simpa using (hname c hc).ne_colon]
    cases hend : trimEnd port with
    | nil => simp
    | cons c more =>
      have hfirst : c ∈ port.head? := by
        obtain ⟨back, hback⟩ := trimEnd_initial port
        rw [← hback, hend]
        rfl
      obtain rfl := hcolon c hfirst
      simp
  rw [htrim, hafterUser, hhost]
  exact trim_eq_self fun c hc => by
    rw [String.toList_ofList] at hc
    exact (hname c hc).visible

/-- User information that is cut off. -/
theorem hostOf_user {user : List Char} (huser : ∀ c ∈ user, c ≠ '@' ∧ isAuthorityEnd c = false) :
    hostOf user =
      trim (String.ofList ((trim (String.ofList user)).toList.takeWhile (· != ':'))) := by
  have htake : user.takeWhile (!isAuthorityEnd ·) = user := by
    rw [List.takeWhile_eq_self_iff]
    intro c hc
    simp [(huser c hc).2]
  have hsub : (trim (String.ofList user)).toList ⊆ user := by
    rw [trim_ofList, String.toList_ofList]
    exact fun c hc => (List.dropWhile_sublist _).subset ((trimEnd_initial _).subset hc)
  have hno_at : (trim (String.ofList user)).toList.reverse.takeWhile (· != '@') =
      (trim (String.ofList user)).toList.reverse := by
    rw [List.takeWhile_eq_self_iff]
    intro c hc
    simpa using (huser c (hsub (List.mem_reverse.mp hc))).1
  rw [hostOf, htake, hno_at, List.reverse_reverse]

end ParseHost

/-! ## The cleaned URL -/

section Cleaned

variable (url : Url)

theorem optional_some (before part after : String) :
    optional before (some part) after = before.toList ++ part.toList ++ after.toList := rfl

theorem Url.scheme_ordinary : ∀ c ∈ url.scheme.toList, Ordinary c :=
  fun c hc => ordinary_of_isSchemeChar (url.scheme_chars c hc)

theorem Url.host_ordinary : ∀ c ∈ url.host.toList, Ordinary c :=
  fun c hc => ordinary_of_isHostChar (url.host_chars c hc)

theorem Url.lead_visible : ∀ c ∈ url.lead, isWhitespace c = false := by
  intro c hc
  obtain hc | hc := List.mem_append.mp hc
  · exact (url.scheme_ordinary c hc).visible
  · have hmark : c = ':' ∨ c = '/' := by simpa using hc
    obtain rfl | rfl := hmark <;> decide

theorem Url.lead_last : ∀ c ∈ url.lead.getLast?, isWhitespace c = false :=
  fun c hc => url.lead_visible c (List.mem_of_getLast? hc)

theorem visible_of_isAuthorityEnd {c : Char} (h : isAuthorityEnd c = true) : isWhitespace c = false := by
  obtain rfl | rfl | rfl := isAuthorityEnd_iff.mp h
  · decide
  · decide
  · decide

theorem head?_optional {before : String} {mark : Char} {rest : List Char}
    (hbefore : before.toList = mark :: rest) {part : Option String} {after : String} :
    ∀ c ∈ (optional before part after).head?, c = mark := by
  intro c hc
  cases part with
  | none => cases hc
  | some part =>
    rw [optional, hbefore] at hc
    exact (Option.some.inj hc).symm

theorem Url.resource_head : ∀ c ∈ url.resource.head?, isAuthorityEnd c = true := by
  intro c hc
  rw [Url.resource, List.head?_append, Option.mem_def, Option.or_eq_some_iff] at hc
  obtain hpath | ⟨-, hc⟩ := hc
  · rw [url.path_head c hpath]
    rfl
  · rw [List.head?_append, Option.or_eq_some_iff] at hc
    obtain hquery | ⟨-, hfragment⟩ := hc
    · rw [head?_optional (by rfl : "?".toList = '?' :: []) c hquery]
      rfl
    · rw [head?_optional (by rfl : "#".toList = '#' :: []) c hfragment]
      rfl

theorem Url.port_visible : ∀ c ∈ optional ":" url.port "", isWhitespace c = false ∧ c ≠ '@' ∧
    isAuthorityEnd c = false := by
  intro c hc
  cases hport : url.port with
  | none =>
    rw [hport] at hc
    cases hc
  | some port =>
    rw [hport, optional_some, List.append_assoc] at hc
    obtain hc | hc := List.mem_append.mp hc
    · obtain rfl : c = ':' := by simpa using hc
      decide
    · have hdigit : c ∈ port.toList := by simpa using hc
      have hordinary := ordinary_of_isDigit (url.port_chars port hport c hdigit)
      exact ⟨hordinary.visible, hordinary.ne_at, hordinary.not_end⟩

/-- Joining the words of what follows a host leaves its first character. -/
theorem Url.joined_tail : Words.joined isWhitespace ' ' url.tail =
    optional ":" url.port "" ++ Words.joined isWhitespace ' ' url.resource :=
  Words.joined_append_of_free (fun c hc => (url.port_visible c hc).1)
    fun c hc => visible_of_isAuthorityEnd (url.resource_head c hc)

theorem Url.joined_resource_head :
    ∀ c ∈ (Words.joined isWhitespace ' ' url.resource).head?, isAuthorityEnd c = true := by
  have hhead := url.resource_head
  cases hresource : url.resource with
  | nil => simp [Words.joined, Words.words, List.intercalate]
  | cons c rest =>
    rw [hresource] at hhead
    have hend := hhead c rfl
    obtain ⟨t, ht, -⟩ := @Words.joined_append_spec _ isWhitespace ' ' [c] rest (by simp)
      (by simpa using visible_of_isAuthorityEnd hend)
    rw [List.singleton_append] at ht
    rw [ht]
    simp [hend]

theorem Url.isTail_tail : IsTail (Words.joined isWhitespace ' ' url.tail) := by
  rw [url.joined_tail]
  constructor
  · intro c hc
    rw [List.head?_append, Option.mem_def, Option.or_eq_some_iff] at hc
    obtain hport | ⟨-, hresource⟩ := hc
    · exact .inl (head?_optional (by rfl : ":".toList = ':' :: []) c hport)
    · exact .inr (url.joined_resource_head c hresource)
  · have hnone : (Words.joined isWhitespace ' ' url.resource).takeWhile (!isAuthorityEnd ·) = [] := by
      have hhead := url.joined_resource_head
      cases hjoined : Words.joined isWhitespace ' ' url.resource with
      | nil => rfl
      | cons c rest =>
        rw [hjoined] at hhead
        rw [List.takeWhile_cons_of_neg]
        simp [hhead c rfl]
    rw [List.takeWhile_append_of_pos fun c hc => by simp [(url.port_visible c hc).2.2], hnone,
      List.append_nil]
    exact fun hat => (url.port_visible _ hat).2.1 rfl

theorem Url.tail_head : ∀ c ∈ url.tail.head?, isWhitespace c = false := by
  intro c hc
  rw [Url.tail, List.head?_append, Option.mem_def, Option.or_eq_some_iff] at hc
  obtain hport | ⟨-, hresource⟩ := hc
  · exact (url.port_visible c (List.mem_of_mem_head? hport)).1
  · exact visible_of_isAuthorityEnd (url.resource_head c hresource)

/-- The URL with its words joined: only the user information and what follows the host change. -/
theorem Url.exists_joined : ∃ user rest, joinWords (trim url.text) =
      url.lead ++ (user ++ (url.host.toList ++ rest)) ∧ IsTail rest ∧
    ((url.userinfo = none ∧ user = []) ∨ ∃ info u, url.userinfo = some info ∧ user = u ++ ['@'] ∧
      ∀ c ∈ u, c ≠ '@' ∧ isAuthorityEnd c = false) := by
  have hjoined : joinWords (trim url.text) = Words.joined isWhitespace ' ' url.chars := by
    rw [joinWords_trim, Url.text]
    change Words.joined isWhitespace ' ' (String.ofList url.chars).toList = _
    rw [String.toList_ofList]
  have hhost : ∀ c ∈ url.host.toList, isWhitespace c = false :=
    fun c hc => (url.host_ordinary c hc).visible
  rw [hjoined, Url.chars]
  cases hinfo : url.userinfo with
  | none =>
    refine ⟨[], _, ?_, url.isTail_tail, .inl ⟨rfl, rfl⟩⟩
    have hfree : ∀ c ∈ url.lead ++ url.host.toList, isWhitespace c = false := by
      intro c hc
      obtain hc | hc := List.mem_append.mp hc
      · exact url.lead_visible c hc
      · exact hhost c hc
    rw [optional, List.nil_append, List.nil_append, ← List.append_assoc, ← List.append_assoc]
    exact Words.joined_append_of_free hfree url.tail_head
  | some info =>
    have hlead : url.lead ≠ [] := by simp [Url.lead]
    obtain ⟨c, hc⟩ := List.exists_mem_of_ne_nil _ hlead
    obtain ⟨g, hg, happend⟩ := @Words.joined_append _ isWhitespace ' ' (url.lead ++ info.toList)
      ('@' :: (url.host.toList ++ url.tail)) ⟨c, List.mem_append_left _ hc, url.lead_visible c hc⟩
      ⟨'@', _, rfl, by decide⟩
    obtain ⟨t, ht, hmem⟩ := @Words.joined_append_spec _ isWhitespace ' ' url.lead info.toList hlead
      url.lead_visible
    have hafter : Words.joined isWhitespace ' ' ('@' :: (url.host.toList ++ url.tail)) =
        '@' :: (url.host.toList ++ Words.joined isWhitespace ' ' url.tail) := by
      have hfree : ∀ c ∈ '@' :: url.host.toList, isWhitespace c = false := by
        rw [List.forall_mem_cons]
        exact ⟨by decide, hhost⟩
      exact Words.joined_append_of_free hfree url.tail_head
    refine ⟨t ++ g ++ ['@'], _, ?_, url.isTail_tail, .inr ⟨info, t ++ g, rfl, rfl, ?_⟩⟩
    · have hparts : url.lead ++ (optional "" (some info) "@" ++ (url.host.toList ++ url.tail)) =
          (url.lead ++ info.toList) ++ '@' :: (url.host.toList ++ url.tail) := by
        simp [optional]
      rw [hparts, happend, ht, hafter]
      simp
    · have hblank : (' ' : Char) ≠ '@' ∧ isAuthorityEnd ' ' = false := by decide
      intro d hd
      obtain hd | hd := List.mem_append.mp hd
      · obtain rfl | hd := hmem d hd
        · exact hblank
        · exact url.userinfo_chars info hinfo d hd
      · obtain rfl | rfl := hg
        · cases hd
        · obtain rfl := List.mem_singleton.mp hd
          exact hblank

/-- A beginning of two texts is one of the first, or the first and one of the second. -/
theorem prefix_append_cases {l a b : List Char} (h : l <+: a ++ b) :
    (l <+: a ∧ l.length < a.length) ∨ ∃ r, l = a ++ r ∧ r <+: b := by
  obtain hla | ⟨r, rfl⟩ := List.prefix_or_prefix_of_prefix h (List.prefix_append a b)
  · obtain hlt | heq := Nat.lt_or_eq_of_le hla.length_le
    · exact .inl ⟨hla, hlt⟩
    · obtain rfl := hla.eq_of_length heq
      exact .inr ⟨[], by simp, List.nil_prefix⟩
  · exact .inr ⟨r, rfl, (List.prefix_append_right_inj a).mp h⟩

theorem ordinary_map_toLower {l : List Char} (h : ∀ c ∈ l, Ordinary c) :
    ∀ c ∈ l.map Char.toLower, Ordinary c := by
  intro c hc
  obtain ⟨d, hd, rfl⟩ := List.mem_map.mp hc
  exact (h d hd).toLower

/-- `parse_host` of what begins with a scheme. -/
theorem Url.parseHost_lead (rest : List Char) : parseHost (String.ofList (url.lead ++ rest)) =
    hostOf ((trimEnd rest).map Char.toLower) := by
  have htrim : trim (String.ofList (url.lead ++ rest)) = String.ofList (url.lead ++ trimEnd rest) := by
    have hdrop : (url.lead ++ rest).dropWhile isWhitespace = url.lead ++ rest := by
      cases hlead : url.lead with
      | nil => simp [Url.lead] at hlead
      | cons c lead =>
        have hc := url.lead_visible c (by rw [hlead]; exact List.mem_cons_self)
        rw [List.cons_append, List.dropWhile_cons_of_neg (by simp [hc])]
    rw [trim_ofList, hdrop, trimEnd_append url.lead_last]
  have hlower := ordinary_map_toLower url.scheme_ordinary
  have hmark : "://".toList.map Char.toLower = ':' :: '/' :: '/' :: [] := rfl
  rw [parseHost_eq, htrim, toAsciiLowercase, String.toList_ofList, String.toList_ofList,
    List.map_append, Url.lead, List.map_append, hmark, List.append_assoc, afterScheme_append hlower]
  rfl

/-- `parse_host` of what ends in the scheme. -/
theorem Url.parseHost_scheme {left : List Char} (h : left <+: url.lead)
    (hlength : left.length < url.lead.length) : parseHost (String.ofList left) =
      toAsciiLowercase (String.ofList (url.scheme.toList.take left.length)) := by
  have hparts : ∃ rest ∈ [[], [':'], [':', '/']], left = url.scheme.toList.take left.length ++ rest := by
    obtain ⟨hscheme, -⟩ | ⟨r, rfl, hr⟩ := prefix_append_cases h
    · exact ⟨[], by simp, by simpa using List.prefix_iff_eq_take.mp hscheme⟩
    · refine ⟨r, ?_, ?_⟩
      · rw [Url.lead, List.length_append, List.length_append] at hlength
        have hshort : r.length < 3 := Nat.lt_of_add_lt_add_left hlength
        have htake : r = [':', '/', '/'].take r.length := List.prefix_iff_eq_take.mp hr
        generalize r.length = n at hshort htake
        subst htake
        match n, hshort with
        | 0, _ => simp
        | 1, _ => simp
        | 2, _ => simp
      · rw [List.take_of_length_le (by simp)]
  obtain ⟨rest, hmem, hleft⟩ := hparts
  have hname : ∀ c ∈ (url.scheme.toList.take left.length).map Char.toLower, Ordinary c :=
    ordinary_map_toLower fun c hc => url.scheme_ordinary c ((List.take_subset _ _) hc)
  have htail : IsTail rest ∧ afterScheme rest = none ∧ rest.map Char.toLower = rest := by
    simp only [List.mem_cons, List.not_mem_nil, or_false] at hmem
    obtain rfl | rfl | rfl := hmem
    · exact ⟨isTail_nil, rfl, rfl⟩
    · exact ⟨⟨by simp, by decide⟩, rfl, rfl⟩
    · exact ⟨⟨by simp, by decide⟩, rfl, rfl⟩
  obtain ⟨htail, hscheme, hlower⟩ := htail
  have htrim : trim (String.ofList left) = String.ofList left :=
    trim_eq_self fun c hc => by
      rw [String.toList_ofList] at hc
      exact url.lead_visible c (h.subset hc)
  have hhost := @hostOf_append [] _ rest (.inl rfl) hname htail
  rw [parseHost_eq, htrim, toAsciiLowercase, String.toList_ofList, String.toList_ofList,
    toAsciiLowercase, String.toList_ofList]
  conv_lhs => rw [hleft]
  rw [List.map_append, hlower, afterScheme_append hname, hscheme, Option.getD_none]
  exact hhost

/-- `parse_host` of what has the whole user information. -/
theorem Url.parseHost_host {user name rest : List Char}
    (huser : user = [] ∨ ∃ u, user = u ++ ['@'] ∧ ∀ c ∈ u, isAuthorityEnd c = false)
    (hname : ∀ c ∈ name, Ordinary c) (hrest : IsTail rest) :
    parseHost (String.ofList (url.lead ++ (user ++ (name ++ rest)))) =
      toAsciiLowercase (String.ofList name) := by
  have hlast : ∀ c ∈ (user ++ name).getLast?, isWhitespace c = false := by
    intro c hc
    rw [List.getLast?_append, Option.mem_def, Option.or_eq_some_iff] at hc
    obtain hc | ⟨-, hc⟩ := hc
    · exact (hname c (List.mem_of_getLast? hc)).visible
    · obtain rfl | ⟨u, rfl, -⟩ := huser
      · cases hc
      · rw [List.getLast?_concat] at hc
        cases hc
        rfl
  have hlower : user.map Char.toLower = [] ∨ ∃ u, user.map Char.toLower = u ++ ['@'] ∧
      ∀ c ∈ u, isAuthorityEnd c = false := by
    obtain rfl | ⟨u, rfl, hu⟩ := huser
    · exact .inl rfl
    · refine .inr ⟨u.map Char.toLower, by rw [List.map_append]; rfl, fun c hc => ?_⟩
      obtain ⟨d, hd, rfl⟩ := List.mem_map.mp hc
      rw [isAuthorityEnd_toLower, hu d hd]
  rw [url.parseHost_lead, ← List.append_assoc, trimEnd_append hlast, List.append_assoc,
    List.map_append, List.map_append, hostOf_append hlower (ordinary_map_toLower hname)
      (hrest.of_prefix (trimEnd_initial rest)).toLower, toAsciiLowercase, String.toList_ofList]

/-- `parse_host` of what ends in the user information. -/
theorem Url.parseHost_user {user : List Char} (huser : ∀ c ∈ user, c ≠ '@' ∧ isAuthorityEnd c = false) :
    parseHost (String.ofList (url.lead ++ user)) =
      trim (String.ofList ((trim (toAsciiLowercase (String.ofList user))).toList.takeWhile (· != ':'))) := by
  have hlower : ∀ c ∈ (trimEnd user).map Char.toLower, c ≠ '@' ∧ isAuthorityEnd c = false := by
    intro c hc
    obtain ⟨d, hd, rfl⟩ := List.mem_map.mp hc
    obtain ⟨hat, hend⟩ := huser d ((trimEnd_initial user).subset hd)
    rw [isAuthorityEnd_toLower]
    exact ⟨fun heq => hat ((toLower_eq_iff (by decide)).mp heq), hend⟩
  rw [url.parseHost_lead, hostOf_user hlower, map_trimEnd, trim_trimEnd, toAsciiLowercase,
    String.toList_ofList]

/-- **What the gateway takes for the host** of a beginning of the cleaned URL. -/
theorem Url.parseHost_eq_nameIn {left : List Char} (h : left <+: joinWords (trim url.text)) :
    parseHost (String.ofList left) = url.nameIn left := by
  obtain ⟨user, rest, hjoined, hrest, huser⟩ := url.exists_joined
  rw [hjoined] at h
  obtain ⟨hlead, hlength⟩ | ⟨r, rfl, hafter⟩ := prefix_append_cases h
  · rw [url.parseHost_scheme hlead hlength, Url.nameIn, if_pos hlength]
  clear h
  -- what is left reaches behind the user information: its host is a beginning of the host
  have hhost {r : List Char} (hr : r <+: url.host.toList ++ rest) : ∃ rest', r =
      url.host.toList.take r.length ++ rest' ∧ IsTail rest' := by
    obtain ⟨hname, -⟩ | ⟨q, rfl, hq⟩ := prefix_append_cases hr
    · exact ⟨[], by simpa using List.prefix_iff_eq_take.mp hname, isTail_nil⟩
    · exact ⟨q, by rw [List.take_of_length_le (by simp)], hrest.of_prefix hq⟩
  have hordinary (n : ℕ) : ∀ c ∈ url.host.toList.take n, Ordinary c :=
    fun c hc => url.host_ordinary c (List.take_subset _ _ hc)
  have hlong : ¬(url.lead ++ r).length < url.lead.length := by simp
  rw [Url.nameIn, if_neg hlong]
  obtain ⟨hinfo, rfl⟩ | ⟨info, u, hinfo, rfl, hu⟩ := huser
  · rw [List.nil_append] at hafter
    obtain ⟨rest', hr, htail⟩ := hhost hafter
    have hparse := @Url.parseHost_host url [] (url.host.toList.take r.length) rest' (.inl rfl)
      (hordinary _) htail
    rw [List.nil_append, ← hr] at hparse
    rw [hparse, hinfo, Option.isSome_none, if_neg (by simp), List.length_append,
      Nat.add_sub_cancel_left]
  · rw [hinfo, Option.isSome_some, if_pos rfl]
    have hno_at {l : List Char} (hl : ∀ c ∈ l, c ≠ '@' ∧ isAuthorityEnd c = false) :
        '@' ∉ url.lead ++ l := by
      intro hat
      obtain hat | hat := List.mem_append.mp hat
      · obtain hat | hat := List.mem_append.mp hat
        · exact (url.scheme_ordinary _ hat).ne_at rfl
        · simp at hat
      · exact (hl _ hat).1 rfl
    have hinside {l : List Char} (hl : ∀ c ∈ l, c ≠ '@' ∧ isAuthorityEnd c = false) :
        parseHost (String.ofList (url.lead ++ l)) =
          if '@' ∈ url.lead ++ l then
            toAsciiLowercase (String.ofList (url.host.toList.take
              (((url.lead ++ l).dropWhile (· ≠ '@')).length - 1)))
          else
            let user := trim (toAsciiLowercase (String.ofList ((url.lead ++ l).drop url.lead.length)))
            trim (String.ofList (user.toList.takeWhile (· != ':'))) := by
      rw [if_neg (hno_at hl), url.parseHost_user hl, List.drop_left]
    rw [List.append_assoc] at hafter
    obtain ⟨hshort, -⟩ | ⟨q, rfl, hq⟩ := prefix_append_cases hafter
    · exact hinside fun c hc => hu c (hshort.subset hc)
    · cases q with
      | nil => exact hinside (by simpa using hu)
      | cons c q =>
        rw [List.singleton_append, List.cons_prefix_cons] at hq
        obtain ⟨rfl, hq⟩ := hq
        obtain ⟨rest', hr, htail⟩ := hhost hq
        have hparse := @Url.parseHost_host url (u ++ ['@']) (url.host.toList.take q.length) rest'
          (.inr ⟨u, rfl, fun c hc => (hu c hc).2⟩) (hordinary _) htail
        have hdrop : (url.lead ++ (u ++ '@' :: q)).dropWhile (· ≠ '@') = '@' :: q := by
          have hbefore : ∀ c ∈ url.lead ++ u, decide (c ≠ '@') = true := by
            intro c hc
            have hne : c ≠ '@' := fun heq => hno_at hu (heq ▸ hc)
            simpa using hne
          rw [← List.append_assoc, List.dropWhile_append_of_pos hbefore,
            List.dropWhile_cons_of_neg (by simp)]
        rw [if_pos (by simp), hdrop, List.length_cons, Nat.add_sub_cancel, ← hparse, ← hr]
        simp

end Cleaned

/-! ## What is let through -/

/-- What a rule with domains lets through to a URL is on its list, whatever the policy, the
state and the rest of the call. -/
def Listed (url : Url) : Prop :=
  ∀ (host : Host) (policy : Policy) (file : Option Json) (call : Call) (request : Request)
    (rule : ScopeRule), call.payload.lookup "url" = some (.str url.text) →
    readRequest host call = some request → resolveScopeRule policy request.scopeId = some rule →
    rule.domains ≠ [] → (authorize policy file request).1.allow = true →
    ∃ domain ∈ rule.domains, Under (toAsciiLowercase url.host) (toAsciiLowercase (trim domain))

section Listed

variable {url : Url}

theorem seenHost_of_readRequest {host : Host} {call : Call} {request : Request}
    (hurl : call.payload.lookup "url" = some (.str url.text))
    (h : readRequest host call = some request) : url.seenHost = some request.host := by
  obtain ⟨scope, -, h⟩ := Option.bind_eq_some_iff.mp h
  obtain ⟨method, -, h⟩ := Option.bind_eq_some_iff.mp h
  obtain ⟨caller, -, h⟩ := Option.bind_eq_some_iff.mp h
  obtain ⟨cleaned, hcleaned, h⟩ := Option.bind_eq_some_iff.mp h
  obtain ⟨allowlist, -, h⟩ := Option.bind_eq_some_iff.mp h
  cases h
  rw [hurl] at hcleaned
  obtain ⟨left, hleft, rfl⟩ := Option.map_eq_some_iff.mp hcleaned
  have hcut : url.cut = some left := hleft
  rw [Url.seenHost, hcut, Option.map_some]
  exact congrArg some (url.parseHost_eq_nameIn (truncate_spec hleft).1).symm

theorem exists_domain_of_allow {policy : Policy} {file : Option Json} {request : Request}
    {rule : ScopeRule} (hrule : resolveScopeRule policy request.scopeId = some rule)
    (hdomains : rule.domains ≠ []) (h : (authorize policy file request).1.allow = true) :
    request.host ≠ "" ∧ ∃ domain ∈ rule.domains, domainMatches request.host domain = true := by
  obtain ⟨hnone, -⟩ | ⟨rule', hrule', hrefusal, -⟩ | ⟨reason, heq⟩ := authorize_cases policy file request
  · rw [hrule] at hnone
    cases hnone
  · rw [hrule] at hrule'
    cases hrule'
    unfold ruleRefusal at hrefusal
    split at hrefusal
    · cases hrefusal
    split at hrefusal
    · cases hrefusal
    split at hrefusal
    · cases hrefusal
    · rename_i hhost hmatch
      have hany : rule.domains.any (domainMatches request.host) = true := by
        by_contra hne
        exact hmatch ⟨hdomains, by simpa using hne⟩
      exact ⟨hhost, List.any_eq_true.mp hany⟩
  · rw [heq] at h
    cases h

/-! ## A policy that lists a host -/

theorem afterScheme_suffix : ∀ {l rest : List Char}, afterScheme l = some rest → rest <:+ l
  | [], _, h => by cases h
  | c :: l, rest, h => by
    rw [afterScheme.eq_def] at h
    split at h
    · cases h
      rename_i heq
      rw [heq]
      exact ⟨[':', '/', '/'], rfl⟩
    · rename_i heq
      cases heq
      exact (afterScheme_suffix h).trans (List.suffix_cons _ _)
    · cases h

theorem trim_subset (s : String) : (trim s).toList ⊆ s.toList := by
  have htrim := trim_ofList s.toList
  rw [String.ofList_toList] at htrim
  rw [htrim, String.toList_ofList]
  exact fun c hc => (List.dropWhile_sublist _).subset ((trimEnd_initial _).subset hc)

theorem hostOf_subset (l : List Char) : (hostOf l).toList ⊆ l := by
  intro c hc
  have hc := trim_subset _ hc
  rw [String.toList_ofList] at hc
  have hc := (List.takeWhile_sublist _).subset hc
  have hc := (List.takeWhile_sublist _).subset (List.mem_reverse.mp hc)
  have hc := trim_subset _ (List.mem_reverse.mp hc)
  rw [String.toList_ofList] at hc
  exact (List.takeWhile_sublist _).subset hc

theorem toAsciiLowercase_trim_parseHost (rawUrl : String) :
    toAsciiLowercase (trim (parseHost rawUrl)) = parseHost rawUrl := by
  have htrim : trim (parseHost rawUrl) = parseHost rawUrl := trim_trim _
  have hlower : ∀ c ∈ (parseHost rawUrl).toList, c.toLower = c := by
    intro c hc
    rw [parseHost_eq] at hc
    have hc := hostOf_subset _ hc
    have hmem : c ∈ (toAsciiLowercase (trim rawUrl)).toList := by
      cases hscheme : afterScheme (toAsciiLowercase (trim rawUrl)).toList with
      | none => rwa [hscheme] at hc
      | some rest =>
        rw [hscheme] at hc
        exact (afterScheme_suffix hscheme).subset hc
    rw [toAsciiLowercase, String.toList_ofList] at hmem
    obtain ⟨d, -, rfl⟩ := List.mem_map.mp hmem
    exact Char.toLower_toLower_eq_toLower d
  have hmap : (parseHost rawUrl).toList.map Char.toLower = (parseHost rawUrl).toList :=
    (List.map_congr_left hlower).trans (List.map_id _)
  rw [htrim, toAsciiLowercase, hmap, String.ofList_toList]

/-- A policy with one rule, which lists one domain. -/
def onlyDomain (domain : String) : Policy where
  defaultDecision := "deny"
  globalRateCaps := ⟨none, none⟩
  scopes := [("s", ⟨"s", ["GET"], [domain], false, ⟨none, none⟩⟩)]
  scopes_id id' rule h := by
    rw [List.lookup_cons] at h
    split at h
    · cases h
      exact (beq_iff_eq.mp ‹_›).symm
    · cases h

/-- A call to a URL in the scope of that rule. -/
def fetchUrl (url : Url) : Call where
  payload := [("scope", .str "s"), ("url", .str url.text)]
  clockMs := 0

/-- A rule that lists the host that is read lets the call through. -/
theorem allow_onlyDomain {left : List Char} (hcut : url.cut = some left) (hne : url.nameIn left ≠ "") :
    ∃ request, readRequest epochHost (fetchUrl url) = some request ∧ request.scopeId = "s" ∧
      (authorize (onlyDomain (url.nameIn left)) none request).1.allow = true := by
  have hurl : cleanText epochHost.printFloat ((fetchUrl url).payload.lookup "url") 2000 =
      some (String.ofList left) := congrArg (Option.map String.ofList) hcut
  have hscope : cleanText epochHost.printFloat ((fetchUrl url).payload.lookup "scope") 160 =
      some "s" := by
    change cleanText epochHost.printFloat (some (.str "s")) 160 = some "s"
    decide
  have hmissing : (fetchUrl url).payload.lookup "method" = none ∧
      (fetchUrl url).payload.lookup "caller" = none ∧
      (fetchUrl url).payload.lookup "runtime_allowlist" = none ∧
      (fetchUrl url).payload.lookup "now_ms" = none ∧ (fetchUrl url).payload.lookup "apply" = none :=
    ⟨rfl, rfl, rfl, rfl, rfl⟩
  obtain ⟨hmethod, hcaller, hallowlist, hnow, happly⟩ := hmissing
  have hblank (n : ℕ) : cleanText epochHost.printFloat none n = some "" := by
    cases n <;> rfl
  have hhost : parseHost (String.ofList left) = url.nameIn left :=
    url.parseHost_eq_nameIn (truncate_spec hcut).1
  have hmatch : domainMatches (url.nameIn left) (url.nameIn left) = true := by
    rw [domainMatches_iff, ← hhost, toAsciiLowercase_trim_parseHost]
    exact ⟨by rwa [hhost], .inl rfl⟩
  refine ⟨{
    scopeId := "s"
    method := "GET"
    caller := "unknown"
    url := String.ofList left
    host := url.nameIn left
    runtimeAllowlist := []
    hourKey := "1970-01-01T00"
    dayKey := "1970-01-01"
    ts := "1970-01-01T00:00:00.000Z"
    apply := true }, ?_, rfl, ?_⟩
  · rw [readRequest, hurl, hscope, hmethod, hcaller, hallowlist, hnow, happly, hblank, hblank]
    have htokens : normalizeToken "s" 160 = "s" ∧ normalizeToken "" 20 = "" ∧
        normalizeToken "" 120 = "" := by decide
    obtain ⟨hs, hmethod, hcaller⟩ := htokens
    have htexts : textAt epochHost.hourText 0 0 = "1970-01-01T00" ∧
        textAt epochHost.dayText 0 0 = "1970-01-01" ∧
        textAt epochHost.isoText 0 0 = "1970-01-01T00:00:00.000Z" := by decide
    obtain ⟨hhour, hday, hiso⟩ := htexts
    have hclock : (fetchUrl url).clockMs = 0 := rfl
    simp only [Option.bind_eq_bind, Option.bind_some, hhost, hs, hmethod, hcaller, hclock, toU64,
      hhour, hday, hiso]
    rfl
  · have hrule : resolveScopeRule (onlyDomain (url.nameIn left)) "s" =
        some ⟨"s", ["GET"], [url.nameIn left], false, ⟨none, none⟩⟩ := rfl
    have hrefusal (request : Request) (hmethod : request.method = "GET")
        (hhost : request.host = url.nameIn left) :
        ruleRefusal ⟨"s", ["GET"], [url.nameIn left], false, ⟨none, none⟩⟩ request = none := by
      simp [ruleRefusal, hmethod, hhost, hne, hmatch]
    rw [authorize, hrule]
    dsimp only
    rw [hrefusal _ rfl rfl, Option.none_or]
    rfl

theorem Listed.under (h : Listed url) {name : String} (hname : url.seenHost = some name)
    (hne : name ≠ "") : Under (toAsciiLowercase url.host) name := by
  obtain ⟨left, hcut, rfl⟩ := Option.map_eq_some_iff.mp hname
  obtain ⟨request, hread, hscope, hallow⟩ := allow_onlyDomain hcut hne
  obtain ⟨domain, hdomain, hunder⟩ := h epochHost _ none (fetchUrl url) request _ rfl hread
    (by rw [hscope]; rfl) (List.cons_ne_nil _ _) hallow
  obtain rfl := List.mem_singleton.mp hdomain
  rwa [← url.parseHost_eq_nameIn (truncate_spec hcut).1, toAsciiLowercase_trim_parseHost,
    url.parseHost_eq_nameIn (truncate_spec hcut).1] at hunder

theorem listed_of_under
    (h : ∀ name, url.seenHost = some name → name = "" ∨ Under (toAsciiLowercase url.host) name) :
    Listed url := by
  intro host policy file call request rule hurl hread hrule hdomains hallow
  obtain ⟨hne, domain, hdomain, hmatch⟩ := exists_domain_of_allow hrule hdomains hallow
  have hunder := (h _ (seenHost_of_readRequest hurl hread)).resolve_left hne
  exact ⟨domain, hdomain, hunder.trans (domainMatches_iff.mp hmatch)⟩

/-- **What is let through is on the list**, if what is read in the place of the host is all
there is to it or an ending of it. -/
theorem listed_iff (url : Url) : Listed url ↔
    ∀ name, url.seenHost = some name → name = "" ∨ Under (toAsciiLowercase url.host) name := by
  constructor
  · intro h name hname
    by_cases hne : name = ""
    · exact .inl hne
    · exact .inr (h.under hname hne)
  · exact listed_of_under

/-- A URL with user information of so many characters. -/
def crowdedUrl (n : ℕ) : Url where
  scheme := "https"
  userinfo := some (String.ofList (List.replicate n 'u'))
  host := "api.example.com.evil.net"
  port := none
  path := "/"
  query := none
  fragment := none
  scheme_ne := by decide
  scheme_chars := List.all_eq_true.mp (by decide)
  userinfo_chars := by
    intro s hs c hc
    rw [← Option.some.inj hs, String.toList_ofList] at hc
    rw [List.eq_of_mem_replicate hc]
    decide
  host_chars := List.all_eq_true.mp (by decide)
  port_chars := by simp
  path_head := by simp

theorem lead_crowdedUrl (n : ℕ) : (crowdedUrl n).lead = "https://".toList := by
  have hlead : "https".toList ++ "://".toList = "https://".toList := by decide
  exact hlead

theorem chars_crowdedUrl (n : ℕ) : (crowdedUrl n).chars =
    ("https://".toList ++ (List.replicate n 'u' ++ "@api.example.com".toList)) ++
      ".evil.net/".toList := by
  have htail : (crowdedUrl n).tail = ['/'] := by
    simp [Url.tail, Url.resource, optional, crowdedUrl]
  have hhost : (crowdedUrl n).host.toList = "api.example.com".toList ++ ".evil.net".toList := by
    have hparts : "api.example.com.evil.net".toList = "api.example.com".toList ++ ".evil.net".toList := by
      decide
    exact hparts
  have huser : optional "" (crowdedUrl n).userinfo "@" = List.replicate n 'u' ++ ['@'] := by
    simp [crowdedUrl, optional]
  rw [Url.chars, lead_crowdedUrl, huser, hhost, htail]
  simp

theorem joinWords_crowdedUrl (n : ℕ) : joinWords (trim (crowdedUrl n).text) = (crowdedUrl n).chars := by
  have hvisible : ∀ c ∈ (crowdedUrl n).chars, isWhitespace c = false := by
    have hends : ∀ c ∈ "https://".toList ++ "@api.example.com".toList ++ ".evil.net/".toList,
        (!isWhitespace c) = true := List.all_eq_true.mp (by decide)
    intro c hc
    rw [chars_crowdedUrl] at hc
    simp only [List.mem_append] at hc hends
    obtain (hc | hc | hc) | hc := hc
    · simpa using hends c (.inl (.inl hc))
    · rw [List.eq_of_mem_replicate hc]
      decide
    · simpa using hends c (.inl (.inr hc))
    · simpa using hends c (.inr hc)
  have hfree := @Words.joined_append_of_free _ isWhitespace ' ' (crowdedUrl n).chars [] hvisible (by simp)
  rw [List.append_nil] at hfree
  rw [joinWords_trim, Url.text]
  change Words.joined isWhitespace ' ' (String.ofList (crowdedUrl n).chars).toList = _
  rw [String.toList_ofList, hfree]
  simp [Words.joined, Words.words, List.intercalate]

/-- Where the user information fills what is kept but for the beginning of the host, that
beginning is what the gateway sees. -/
theorem seenHost_crowdedUrl : (crowdedUrl 1976).seenHost = some "api.example.com" := by
  have hbytes (n : ℕ) : bytes ("https://".toList ++ (List.replicate n 'u' ++ "@api.example.com".toList)) =
      8 + (n + 16) := by
    have hfirst : bytes "https://".toList = 8 := by decide
    have hlast : bytes "@api.example.com".toList = 16 := by decide
    rw [bytes_append, bytes_append, hfirst, hlast, bytes, List.map_replicate, List.sum_replicate]
    simp [Char.utf8Size]
  have hname (n : ℕ) : (crowdedUrl n).nameIn
      ("https://".toList ++ (List.replicate n 'u' ++ "@api.example.com".toList)) = "api.example.com" := by
    have hbefore : ∀ c ∈ "https://".toList ++ List.replicate n 'u', decide (c ≠ '@') = true := by
      have hends : ∀ c ∈ "https://".toList, decide (c ≠ '@') = true :=
        List.all_eq_true.mp (by decide)
      intro c hc
      obtain hc | hc := List.mem_append.mp hc
      · exact hends c hc
      · rw [List.eq_of_mem_replicate hc]
        decide
    have hmark : "@api.example.com".toList = '@' :: "api.example.com".toList := by decide
    have hsome : (crowdedUrl n).userinfo.isSome = true := rfl
    rw [Url.nameIn, lead_crowdedUrl, if_neg (by rw [List.length_append]; omega), if_pos hsome,
      if_pos (by simp), ← List.append_assoc, List.dropWhile_append_of_pos hbefore, hmark,
      List.dropWhile_cons_of_neg (by decide)]
    change toAsciiLowercase (String.ofList (List.take _ "api.example.com.evil.net".toList)) = _
    decide
  have hcut : (crowdedUrl 1976).cut =
      some ("https://".toList ++ (List.replicate 1976 'u' ++ "@api.example.com".toList)) := by
    have htruncate := truncate_append
      ("https://".toList ++ (List.replicate 1976 'u' ++ "@api.example.com".toList)) ".evil.net/".toList
    rwa [← chars_crowdedUrl, ← joinWords_crowdedUrl, hbytes] at htruncate
  rw [Url.seenHost, hcut, Option.map_some, hname]

theorem other_host_listed : ¬∀ url : Url, Listed url := by
  intro h
  have hunder := (h (crowdedUrl 1976)).under seenHost_crowdedUrl (by decide)
  have hhost : (crowdedUrl 1976).host = "api.example.com.evil.net" := rfl
  rw [hhost] at hunder
  revert hunder
  simp only [Under]
  decide

end Listed

end Protheus.Egress
