/-
`net/url`, as far as the reverse proxy of the sidecar depends on it: `url.Parse`
of a scheme prefix `http://` or `https://` followed by a text, and the host a
parsed URL names. Which texts are IPv6 addresses (`netip.ParseAddr`) is a
parameter.
-/
import InferenceScheduler.Sidecar.Allowlist
import Mathlib.Data.List.TakeWhile

namespace InferenceScheduler.Sidecar

/-! ## Percent-encoding -/

/-- `encoding`: where in a URL an escaped text stands. -/
inductive Encoding
  | path
  | userPassword
  | host
  | zone
  | fragment
  deriving DecidableEq, Repr

def isHex (c : Char) : Bool := c.isDigit || ('a' ≤ c && c ≤ 'f') || ('A' ≤ c && c ≤ 'F')

def unhex (c : Char) : Nat :=
  if c.isDigit then c.toNat - '0'.toNat
  else if 'a' ≤ c then c.toNat - 'a'.toNat + 10
  else c.toNat - 'A'.toNat + 10

/-- The byte of `%ab`. -/
def unhexByte (a b : Char) : Char := Char.ofNat (16 * unhex a + unhex b)

/-- The characters `shouldEscape` leaves as they are in a host. -/
def isHostChar (c : Char) : Bool :=
  c.isAlphanum ||
    c ∈ ['!', '$', '&', '\'', '(', ')', '*', '+', ',', ';', '=', ':', '[', ']', '<', '>', '"', '-', '_', '.', '~']

/-- A host may escape only non-ASCII bytes and the percent sign. -/
def acceptsEscape (mode : Encoding) (a b : Char) : Bool :=
  isHex a && isHex b &&
    match mode with
    | .host => 8 ≤ unhex a || (a = '2' && b = '5')
    | .zone => (a = '2' && b = '5') || unhexByte a b = ' ' || isHostChar (unhexByte a b)
    | _ => true

/-- `unescape` accepts the character unescaped. -/
def acceptsChar (mode : Encoding) (c : Char) : Bool :=
  match mode with
  | .host | .zone => 0x80 ≤ c.toNat || isHostChar c
  | _ => true

def unescape (mode : Encoding) : GoString → Option GoString
  | [] => some []
  | c :: rest =>
    if c = '%' then
      match rest with
      | a :: b :: rest => if acceptsEscape mode a b then (unescape mode rest).map (unhexByte a b :: ·) else none
      | _ => none
    else if acceptsChar mode c then (unescape mode rest).map (c :: ·)
    else none

/-! ## The authority -/

/-- `validOptionalPort`: empty, or a colon and digits. -/
def validOptionalPort : GoString → Bool
  | [] => true
  | c :: port => c = ':' && port.all Char.isDigit

/-- The parts before and from the first `%25`. -/
def cutZone : GoString → Option (GoString × GoString)
  | [] => none
  | c :: rest =>
    if ['%', '2', '5'] <+: c :: rest then some ([], c :: rest)
    else (cutZone rest).map fun p => (c :: p.1, p.2)

/-- The host between brackets, with its zone. -/
def unescapeLiteral (hostname : GoString) : Option GoString :=
  match cutZone hostname with
  | some (host, zone) => (unescape .host host).bind fun host => (unescape .zone zone).map (host ++ ·)
  | none => unescape .host hostname

def parseHost (isIPv6 : GoString → Bool) (host : GoString) : Option GoString :=
  if host.head? = some '[' then
    match cutLast ']' host with
    | none => none
    | some (opened, colonPort) =>
      if validOptionalPort colonPort then
        (unescape .host colonPort).bind fun colonPort =>
          (unescapeLiteral opened.tail).bind fun hostname =>
            if isIPv6 hostname then some ('[' :: hostname ++ ']' :: colonPort) else none
      else none
  else
    match cutLast ':' host with
    | some (_, port) => if validOptionalPort (':' :: port) then unescape .host host else none
    | none => unescape .host host

structure Userinfo where
  username : GoString
  password : Option GoString
  deriving DecidableEq, Repr

def validUserinfo (s : GoString) : Bool :=
  s.all fun c => c.isAlphanum ||
    c ∈ ['-', '.', '_', ':', '~', '!', '$', '&', '\'', '(', ')', '*', '+', ',', ';', '=', '%', '@']

/-- The user information of `parseAuthority`. -/
def parseUserinfo (userinfo : GoString) : Option Userinfo :=
  if validUserinfo userinfo then
    match cutFirst ':' userinfo with
    | none => (unescape .userPassword userinfo).map (⟨·, none⟩)
    | some (username, password) =>
      (unescape .userPassword username).bind fun username =>
        (unescape .userPassword password).map fun password => ⟨username, some password⟩
  else none

def parseAuthority (isIPv6 : GoString → Bool) (authority : GoString) : Option (Option Userinfo × GoString) :=
  match cutLast '@' authority with
  | none => (parseHost isIPv6 authority).map (none, ·)
  | some (userinfo, host) =>
    (parseHost isIPv6 host).bind fun host => (parseUserinfo userinfo).map fun user => (some user, host)

/-! ## The URL -/

/-- `stringContainsCTLByte` looks for these. -/
def isCTL (c : Char) : Bool := c.toNat < 0x20 || c.toNat = 0x7f

/-- The texts `url.Parse` cuts a URL into after its scheme. -/
structure Parts where
  authority : GoString
  path : GoString
  rawQuery : GoString
  fragment : GoString

/-- The fragment is cut off first, then the query, then the path. -/
def splitParts (rest : GoString) : Parts :=
  let unfragmented := rest.takeWhile (· ≠ '#')
  let hierarchical := unfragmented.takeWhile (· ≠ '?')
  { authority := hierarchical.takeWhile (· ≠ '/')
    path := hierarchical.dropWhile (· ≠ '/')
    rawQuery := (unfragmented.dropWhile (· ≠ '?')).drop 1
    fragment := (rest.dropWhile (· ≠ '#')).drop 1 }

structure URL where
  user : Option Userinfo
  host : GoString
  path : GoString
  rawQuery : GoString
  fragment : GoString
  deriving DecidableEq, Repr

/-- `url.Parse` of `http://` or `https://` followed by `rest`. -/
def urlParse (isIPv6 : GoString → Bool) (rest : GoString) : Option URL :=
  if (rest.takeWhile (· ≠ '#')).any isCTL then none
  else
    let parts := splitParts rest
    (parseAuthority isIPv6 parts.authority).bind fun (user, host) =>
      (unescape .path parts.path).bind fun path =>
        (unescape .fragment parts.fragment).map fun fragment =>
          { user, host, path, rawQuery := parts.rawQuery, fragment }

/-- The brackets of an address taken off. -/
def stripBrackets (host : GoString) : GoString :=
  if host.head? = some '[' ∧ host.getLast? = some ']' then host.tail.dropLast else host

/-- `URL.Hostname`: the host without its port and its brackets. -/
def hostname (host : GoString) : GoString :=
  match cutLast ':' host with
  | some (front, port) => stripBrackets (if validOptionalPort (':' :: port) then front else host)
  | none => stripBrackets host

/-! ## Unescaping -/

theorem toNat_ofNat {n : Nat} (h : n < 256) : (Char.ofNat n).toNat = n := by
  have hv : n.isValidChar := .inl (by omega)
  rw [Char.ofNat, dif_pos hv]
  rfl

variable {c : Char}

theorem unhex_lt (h : isHex c) : unhex c < 16 := by
  simp only [isHex, Bool.or_eq_true, Bool.and_eq_true, decide_eq_true_eq, Char.isDigit, Char.le_def,
    UInt32.le_iff_toNat_le, ge_iff_le] at h
  simp only [unhex, Char.isDigit, Bool.and_eq_true, decide_eq_true_eq, Char.le_def,
    UInt32.le_iff_toNat_le, ge_iff_le, Char.toNat]
  split <;> [skip; split] <;> simp_all <;> omega

theorem unhexByte_of_acceptsEscape {a b : Char} (h : acceptsEscape .host a b) :
    unhexByte a b = '%' ∨ 0x80 ≤ (unhexByte a b).toNat := by
  simp only [acceptsEscape, Bool.and_eq_true, Bool.or_eq_true, decide_eq_true_eq] at h
  obtain ⟨⟨ha, hb⟩, h | ⟨rfl, rfl⟩⟩ := h
  · have := unhex_lt ha
    have := unhex_lt hb
    refine .inr ?_
    rw [unhexByte, toNat_ofNat (by omega)]
    omega
  · exact .inl (by decide)

variable {s : GoString}

theorem not_mem_of_unescape_host (hc : c.toNat < 0x80) (hp : c ≠ '%') {x : GoString}
    (h : unescape .host s = some x) (hs : c ∉ s) : c ∉ x := by
  fun_induction unescape .host s generalizing x with
  | case1 =>
    cases h
    exact List.not_mem_nil
  | case2 a b rest ha ih =>
    simp only [List.mem_cons, not_or] at hs
    obtain ⟨y, hy, rfl⟩ := Option.map_eq_some_iff.mp h
    rw [List.mem_cons]
    rintro (rfl | hm)
    · rcases unhexByte_of_acceptsEscape ha with he | hge
      · exact hp he
      · omega
    · exact ih hy hs.2.2.2 hm
  | case3 => cases h
  | case4 => cases h
  | case5 d rest _ _ ih =>
    obtain ⟨y, hy, rfl⟩ := Option.map_eq_some_iff.mp h
    simp only [List.mem_cons, not_or] at hs ⊢
    exact ⟨hs.1, ih hy hs.2⟩
  | case6 => cases h

theorem unescape_of_accepts {mode : Encoding} : ∀ {s : GoString},
    (∀ c ∈ s, c ≠ '%' ∧ acceptsChar mode c) → unescape mode s = some s
  | [], _ => rfl
  | c :: s, h => by
    obtain ⟨hc, ha⟩ := h c List.mem_cons_self
    rw [unescape.eq_def]
    simp only [hc, if_false, ha, if_true, unescape_of_accepts fun d hd => h d (List.mem_cons_of_mem _ hd),
      Option.map_some]

theorem accepts_of_isPlainChar (h : isPlainChar c) : c ≠ '%' ∧ acceptsChar .host c := by
  refine ⟨fun he => absurd h (he ▸ by decide), ?_⟩
  simp only [isPlainChar, Bool.or_eq_true, decide_eq_true_eq] at h
  obtain (((h | rfl) | rfl) | rfl) | rfl := h
  · simp [acceptsChar, isHostChar, h]
  all_goals decide

theorem isPlainChar_of_isDigit (h : c.isDigit) : isPlainChar c := by
  simp [isPlainChar, Char.isAlphanum, h]

theorem isPlainChar_visible (h : isPlainChar c) : 0x20 < c.toNat ∧ c.toNat < 0x7f := by
  simp only [isPlainChar, Bool.or_eq_true, decide_eq_true_eq] at h
  obtain (((h | rfl) | rfl) | rfl) | rfl := h
  · change (decide (65 ≤ c.val ∧ c.val ≤ 90) || (97 ≤ c.val && c.val ≤ 122) || 48 ≤ c.val && c.val ≤ 57) = true at h
    simp only [Bool.or_eq_true, Bool.and_eq_true, decide_eq_true_eq, UInt32.le_iff_toNat_le] at h
    simp only [Char.toNat]
    change (65 ≤ c.val.toNat ∧ c.val.toNat ≤ 90 ∨ 97 ≤ c.val.toNat ∧ c.val.toNat ≤ 122) ∨
      48 ≤ c.val.toNat ∧ c.val.toNat ≤ 57 at h
    omega
  all_goals decide

theorem not_isCTL_of_visible (h : 0x20 < c.toNat ∧ c.toNat < 0x7f) : ¬isCTL c := by
  simp only [isCTL, Bool.or_eq_true, decide_eq_true_eq]
  omega

theorem unescape_host_of_plain (h : ∀ c ∈ s, isPlainChar c) : unescape .host s = some s :=
  unescape_of_accepts fun c hc => accepts_of_isPlainChar (h c hc)

/-! ## Hosts -/

theorem head?_ne_of_not_mem (h : c ∉ s) : s.head? ≠ some c :=
  fun he => h (List.mem_of_head? he)

theorem stripBrackets_of_not_mem {host : GoString} (h : '[' ∉ host) : stripBrackets host = host :=
  if_neg fun hb => head?_ne_of_not_mem h hb.1

theorem stripBrackets_bracketed (host : GoString) : stripBrackets ('[' :: host ++ [']']) = host := by
  rw [stripBrackets, if_pos ⟨rfl, List.getLast?_concat⟩, List.cons_append, List.tail_cons, List.dropLast_concat]

theorem hostname_of_not_mem {host : GoString} (hc : ':' ∉ host) (hb : '[' ∉ host) : hostname host = host := by
  rw [hostname, cutLast_eq_none.mpr hc]
  exact stripBrackets_of_not_mem hb

theorem hostname_withPort {front port : GoString} (hc : ':' ∉ port) (hd : port.all Char.isDigit) :
    hostname (front ++ ':' :: port) = stripBrackets front := by
  simp [hostname, cutLast_append_cons hc, validOptionalPort, hd]

section

variable {isIPv6 : GoString → Bool} {host : GoString}

theorem parseHost_of_not_mem (hc : ':' ∉ host) (hb : '[' ∉ host) : parseHost isIPv6 host = unescape .host host := by
  rw [parseHost, if_neg (head?_ne_of_not_mem hb), cutLast_eq_none.mpr hc]

theorem parseHost_withPort {front port : GoString} (hf : ∀ c ∈ front, isPlainChar c) (hn : front ≠ [])
    (hc : ':' ∉ port) : parseHost isIPv6 (front ++ ':' :: port) =
      if port.all Char.isDigit then some (front ++ ':' :: port) else none := by
  have hb : (front ++ ':' :: port).head? ≠ some '[' := by
    rw [List.head?_append_of_ne_nil _ hn]
    exact head?_ne_of_not_mem (Plain.noBracket ⟨hn, hf⟩).1
  rw [parseHost, if_neg hb, cutLast_append_cons hc]
  simp only [validOptionalPort, decide_true, Bool.true_and]
  split
  · rename_i hd
    refine unescape_host_of_plain fun c hm => ?_
    rcases List.mem_append.mp hm with hm | hm
    · exact hf c hm
    · rcases List.mem_cons.mp hm with rfl | hm
      · decide
      · exact isPlainChar_of_isDigit (List.all_eq_true.mp hd c hm)
  · rfl

theorem cutZone_of_not_mem : ∀ {s : GoString}, '%' ∉ s → cutZone s = none
  | [], _ => rfl
  | c :: s, h => by
    rw [List.mem_cons, not_or] at h
    have hp : ¬['%', '2', '5'] <+: c :: s := fun hp => h.1 (List.cons_prefix_cons.mp hp).1
    rw [cutZone, if_neg hp, cutZone_of_not_mem h.2, Option.map_none]

/-- A bracketed host is kept, if it is an address and the port a number. -/
theorem parseHost_bracketed {name port : GoString} (hn : Plain name) (hb : NoBracket port) :
    parseHost isIPv6 ('[' :: name ++ ']' :: ':' :: port) =
      if port.all Char.isDigit ∧ isIPv6 name then some ('[' :: name ++ ']' :: ':' :: port) else none := by
  have hzone : unescapeLiteral name = some name := by
    rw [unescapeLiteral, cutZone_of_not_mem fun hm => absurd (hn.2 _ hm) (by decide)]
    exact unescape_host_of_plain hn.2
  have hcut : cutLast ']' ('[' :: name ++ ']' :: ':' :: port) = some ('[' :: name, ':' :: port) :=
    cutLast_append_cons (by simpa using hb.2) _
  have hhead : ('[' :: name ++ ']' :: ':' :: port).head? = some '[' := rfl
  rw [parseHost, if_pos hhead, hcut]
  simp only [validOptionalPort, decide_true, Bool.true_and, List.tail_cons, hzone]
  by_cases hd : port.all Char.isDigit
  · have hport : unescape .host (':' :: port) = some (':' :: port) := by
      refine unescape_host_of_plain fun c hm => ?_
      rcases List.mem_cons.mp hm with rfl | hm
      · decide
      · exact isPlainChar_of_isDigit (List.all_eq_true.mp hd c hm)
    simp only [hd, if_true, hport, Option.bind_some, true_and]
  · simp [hd]

theorem hostname_of_parseHost_bracketed {name port : GoString} (hn : Plain name) (hc : ':' ∉ port)
    (hb : NoBracket port) (h : parseHost isIPv6 ('[' :: name ++ ']' :: ':' :: port) = some host) :
    hostname host = name := by
  rw [parseHost_bracketed hn hb] at h
  split_ifs at h with hd
  cases h
  have he : '[' :: name ++ ']' :: ':' :: port = ('[' :: name ++ [']']) ++ ':' :: port := by simp
  rw [he, hostname_withPort hc hd.1, stripBrackets_bracketed]

/-! ## The authority of a URL -/

theorem parseAuthority_of_not_mem {a : GoString} (h : '@' ∉ a) :
    parseAuthority isIPv6 a = (parseHost isIPv6 a).map (none, ·) := by
  rw [parseAuthority, cutLast_eq_none.mpr h]

theorem parseAuthority_append {userinfo : GoString} (h : '@' ∉ host) :
    parseAuthority isIPv6 (userinfo ++ '@' :: host) =
      (parseHost isIPv6 host).bind fun host => (parseUserinfo userinfo).map fun user => (some user, host) := by
  rw [parseAuthority, cutLast_append_cons h]

/-- Everything but the authority parses. -/
def wellFormed (rest : GoString) : Bool :=
  !(rest.takeWhile (· ≠ '#')).any isCTL && (unescape .path (splitParts rest).path).isSome &&
    (unescape .fragment (splitParts rest).fragment).isSome

/-- **The hosts of parsed URLs** are those the authority parses to, in
well-formed texts. -/
theorem exists_urlParse_iff {rest : GoString} : (∃ u, urlParse isIPv6 rest = some u ∧ u.host = host) ↔
    wellFormed rest ∧ ∃ user, parseAuthority isIPv6 (splitParts rest).authority = some (user, host) := by
  constructor
  · rintro ⟨u, hu, rfl⟩
    unfold urlParse at hu
    split at hu
    · cases hu
    · rename_i hctl
      simp only [Option.bind_eq_some_iff, Option.map_eq_some_iff] at hu
      obtain ⟨⟨user, host⟩, ha, path, hp, fragment, hf, rfl⟩ := hu
      refine ⟨?_, user, ha⟩
      rw [wellFormed, hp, hf]
      simpa using hctl
  · rintro ⟨hw, user, ha⟩
    simp only [wellFormed, Bool.and_eq_true, Bool.not_eq_true', Option.isSome_iff_exists] at hw
    obtain ⟨⟨hctl, path, hp⟩, fragment, hf⟩ := hw
    refine ⟨⟨user, host, path, (splitParts rest).rawQuery, fragment⟩, ?_, rfl⟩
    rw [urlParse, hctl]
    simp [ha, hp, hf]

end

/-- No character that ends an authority. -/
def InAuthority (s : GoString) : Prop := ∀ c ∈ s, c ≠ '#' ∧ c ≠ '?' ∧ c ≠ '/'

theorem authority_append {a b : GoString} (h : InAuthority a) :
    (splitParts (a ++ b)).authority = a ++ (splitParts b).authority := by
  simp only [splitParts]
  rw [List.takeWhile_append_of_pos fun c hc => by simpa using (h c hc).1,
    List.takeWhile_append_of_pos fun c hc => by simpa using (h c hc).2.1,
    List.takeWhile_append_of_pos fun c hc => by simpa using (h c hc).2.2]

theorem mem_of_mem_authority (h : c ∈ (splitParts s).authority) : c ∈ s :=
  List.takeWhile_subset _ (List.takeWhile_subset _ (List.takeWhile_subset _ h))

theorem inAuthority_of_plain (h : ∀ c ∈ s, isPlainChar c) : InAuthority s := fun c hc =>
  ⟨fun he => absurd (h c hc) (he ▸ by decide), fun he => absurd (h c hc) (he ▸ by decide),
    fun he => absurd (h c hc) (he ▸ by decide)⟩

theorem InAuthority.authority_eq (h : InAuthority s) : (splitParts s).authority = s := by
  have ha := authority_append (b := []) h
  rwa [List.append_nil, show (splitParts []).authority = [] from rfl, List.append_nil] at ha

theorem authority_of_plain (h : ∀ c ∈ s, isPlainChar c) : (splitParts s).authority = s :=
  (inAuthority_of_plain h).authority_eq

theorem InAuthority.wellFormed (ha : InAuthority s) (hctl : ∀ c ∈ s, ¬isCTL c) : wellFormed s := by
  have hfrag : s.takeWhile (· ≠ '#') = s := List.takeWhile_eq_self_iff.mpr fun c hc => by simpa using (ha c hc).1
  have hquery : s.takeWhile (· ≠ '?') = s :=
    List.takeWhile_eq_self_iff.mpr fun c hc => by simpa using (ha c hc).2.1
  have hpath : s.dropWhile (· ≠ '/') = [] :=
    List.dropWhile_eq_nil_iff.mpr fun c hc => by simpa using (ha c hc).2.2
  have hnofrag : s.dropWhile (· ≠ '#') = [] :=
    List.dropWhile_eq_nil_iff.mpr fun c hc => by simpa using (ha c hc).1
  have hnone : s.any isCTL = false := List.any_eq_false.mpr hctl
  simp only [Sidecar.wellFormed, splitParts, hfrag, hquery, hpath, hnofrag, hnone]
  rfl

theorem wellFormed_of_plain (h : ∀ c ∈ s, isPlainChar c) : wellFormed s :=
  (inAuthority_of_plain h).wellFormed fun c hc => not_isCTL_of_visible (isPlainChar_visible (h c hc))

end InferenceScheduler.Sidecar
