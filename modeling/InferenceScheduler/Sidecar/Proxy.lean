/-
The reverse proxies of the routing sidecar (`sidecar/proxy`): the handler takes
the prefill and encoder endpoints from a request's headers, asks the allowlist
about them and has a proxy made, or found in a cache, for each one it contacts.
Concurrent handlers share the two caches, and the allowlist is rebuilt while
they run. `misreadHost` says on which strings the check and the proxy come
apart.
-/
import InferenceScheduler.Lib.Run
import InferenceScheduler.Sidecar.Url

namespace InferenceScheduler.Sidecar

/-! ## createProxyHandler -/

def httpPrefix : GoString := "http://".toList

/-- `strings.CutPrefix(hostPort, "http://")`. -/
def cutHttpPrefix (hostPort : GoString) : GoString :=
  if httpPrefix <+: hostPort then hostPort.drop httpPrefix.length else hostPort

/-- A cache of proxies; a proxy is the URL it forwards to. -/
abbrev ProxyCache := GoString → Option URL

/-- The proxy it returns, and the entry it adds to the cache, under the string after
the prefix is cut. -/
def createProxyHandler (isIPv6 : GoString → Bool) (cache : ProxyCache) (hostPort : GoString) :
    Option URL × Option (GoString × URL) :=
  match cache hostPort with
  | some proxy => (some proxy, none)
  | none =>
    let hostPort := cutHttpPrefix hostPort
    match urlParse isIPv6 hostPort with
    | none => (none, none)
    | some u => (some u, some (hostPort, u))

/-! ## The handler -/

/-- The caches: `prefillerProxies` and `encoderProxies`. -/
inductive Role
  | prefiller
  | encoder
  deriving DecidableEq, Repr

/-- `Config`, as far as the handler reads it. -/
structure Config where
  enablePrefillerSampling : Bool
  /-- A protocol with an encoder stage is configured
  (`runEPDConnectorProtocol` is not nil). -/
  encoderProtocol : Bool

/-- The entries of the two headers, split at commas and trimmed, and the draw of
`prefillSamplerFn`. -/
structure Request where
  prefillHostPorts : List GoString
  encoderHostPorts : List GoString
  sample : Nat

/-- What the handler does with a request. -/
inductive Protocol
  | forbidden
  | encodePrefill (prefillHostPort : GoString) (allowedEncoders : List GoString)
  | prefill (prefillHostPort : GoString)
  | decodeOnly
  deriving DecidableEq, Repr

def prefillHostPort (cfg : Config) (r : Request) : GoString :=
  r.prefillHostPorts.getD (if cfg.enablePrefillerSampling then r.sample else 0) []

def disaggregatedPrefillHandler (cfg : Config) (av : AllowlistValidator) (r : Request) : Protocol :=
  let prefillHostPort := prefillHostPort cfg r
  if prefillHostPort ≠ [] ∧ !av.isAllowed prefillHostPort then .forbidden
  else
    let allowedEncoders := r.encoderHostPorts.filter av.isAllowed
    if allowedEncoders ≠ [] ∧ cfg.encoderProtocol then .encodePrefill prefillHostPort allowedEncoders
    else if prefillHostPort ≠ [] then .prefill prefillHostPort
    else .decodeOnly

/-- The strings a connector makes proxies of. -/
def Protocol.targets : Protocol → List (Role × GoString)
  | .forbidden | .decodeOnly => []
  | .encodePrefill hostPort encoders =>
    encoders.map (.encoder, ·) ++ if hostPort ≠ [] then [(.prefiller, hostPort)] else []
  | .prefill hostPort => [(.prefiller, hostPort)]

/-! ## The server -/

/-- What a call of `createProxyHandler` is about to add waits in `adding`. -/
structure Server where
  allowlistValidator : AllowlistValidator
  proxies : Role → ProxyCache := fun _ _ => none
  adding : List (Role × GoString × URL) := []

/-- An entry of a cache set or dropped. -/
def Server.setProxy (s : Server) (role : Role) (hostPort : GoString) (u : Option URL) : Server :=
  { s with proxies := Function.update s.proxies role (Function.update (s.proxies role) hostPort u) }

inductive Act
  /-- The handler of a request makes a proxy of one of its targets. -/
  | contact (r : Request) (role : Role) (hostPort : GoString)
  /-- A new proxy gets into the cache. -/
  | add (role : Role) (hostPort : GoString) (u : URL)
  /-- The cache drops an entry. -/
  | evict (role : Role) (hostPort : GoString)
  /-- A pod or the pool changes. -/
  | rebuild (pods : List Pod)

variable (isIPv6 : GoString → Bool) (cfg : Config)

def step (s : Server) : Act → Option Server
  | .contact r role hostPort =>
    if (role, hostPort) ∈ (disaggregatedPrefillHandler cfg s.allowlistValidator r).targets then
      match (createProxyHandler isIPv6 (s.proxies role) hostPort).2 with
      | none => some s
      | some entry => some { s with adding := (role, entry) :: s.adding }
    else none
  | .add role hostPort u =>
    if (role, hostPort, u) ∈ s.adding then
      some { s.setProxy role hostPort (some u) with adding := s.adding.erase (role, hostPort, u) }
    else none
  | .evict role hostPort => some (s.setProxy role hostPort none)
  | .rebuild pods =>
    some { s with allowlistValidator :=
      { s.allowlistValidator with allowedTargets := rebuildAllowlist pods, plain := plain_rebuildAllowlist pods } }

/-- The server starts with empty caches and an empty allowlist. -/
def Server.init (enabled : Bool) : Server :=
  { allowlistValidator := { enabled, allowedTargets := ∅, plain := fun _ h => absurd h (Finset.notMem_empty _) } }

/-! ## Where the two readings come apart -/

/-- The host of the URL where the allowlist was asked about another: what follows the
last `@` of the authority when a port has one, the authority behind a prefix
`http://` taken for a name and its port, an address without its last group when
that can be a port. -/
def misreadHost (hostPort : GoString) : Option GoString :=
  let rest := cutHttpPrefix hostPort
  if wellFormed rest then
    match cutLast '@' (splitParts rest).authority with
    | some (userinfo, host) => if (parseUserinfo userinfo).isSome then unescape .host host else none
    | none =>
      if httpPrefix <+: hostPort then unescape .host (splitParts rest).authority
      else
        match cutLast ':' hostPort with
        | some (front, group) =>
          if hostPort.head? ≠ some '[' ∧ ':' ∈ front ∧ group.all Char.isDigit then some front else none
        | none => none
  else none

theorem cutHttpPrefix_append (rest : GoString) : cutHttpPrefix (httpPrefix ++ rest) = rest := by
  rw [cutHttpPrefix, if_pos (List.prefix_append ..), List.drop_left]

theorem cutHttpPrefix_of_not {s : GoString} (h : ¬httpPrefix <+: s) : cutHttpPrefix s = s := if_neg h

theorem not_httpPrefix_of_not_mem {s : GoString} {c : Char} (hc : c ∈ httpPrefix) (h : c ∉ s) :
    ¬httpPrefix <+: s :=
  fun hp => h (hp.subset hc)

theorem not_httpPrefix_of_plain {s : GoString} (h : Plain s) : ¬httpPrefix <+: s :=
  not_httpPrefix_of_not_mem (c := '/') (by decide) fun hm => absurd (h.2 _ hm) (by decide)

theorem Shape.of_httpPrefix {rest : GoString} (h : Shape (httpPrefix ++ rest)) : ':' ∉ rest ∧ NoBracket rest := by
  cases h with
  | name h | address h => exact absurd (List.prefix_append ..) (not_httpPrefix_of_plain h)
  | @withPort port h hs hn hp hb =>
    have hfirst : cutFirst ':' (httpPrefix ++ rest) = some (normalizeHostPort (httpPrefix ++ rest), port) :=
      cutFirst_eq_some.mpr ⟨hs, hn⟩
    have hfirst' : cutFirst ':' (httpPrefix ++ rest) = some ("http".toList, "//".toList ++ rest) :=
      cutFirst_eq_some.mpr ⟨rfl, by decide⟩
    rw [hfirst', Option.some.injEq, Prod.mk.injEq] at hfirst
    rw [← hfirst.2] at hp hb
    exact ⟨fun hm => hp (List.mem_append_right _ hm), hb.of_append⟩
  | bracketed h hs => cases hs

section

variable {isIPv6} {rest : GoString} {x : GoString}

/-- The host that a URL is parsed to, where its authority ends in a name. -/
theorem exists_hostname_of_authority {host : GoString} {o : Option (Option Userinfo)}
    (ha : parseAuthority isIPv6 (splitParts rest).authority =
      (unescape .host host).bind fun y => o.map fun info => (info, y))
    (hc : ':' ∉ host) (hb : '[' ∉ host) : (∃ u, urlParse isIPv6 rest = some u ∧ hostname u.host = x) ↔
      wellFormed rest ∧ o.isSome ∧ unescape .host host = some x := by
  have hname : ∀ {y}, unescape .host host = some y → hostname y = y := fun hy =>
    hostname_of_not_mem (not_mem_of_unescape_host (by decide) (by decide) hy hc)
      (not_mem_of_unescape_host (by decide) (by decide) hy hb)
  constructor
  · rintro ⟨u, hu, rfl⟩
    obtain ⟨hw, user, hp⟩ := exists_urlParse_iff.mp ⟨u, hu, rfl⟩
    rw [ha] at hp
    simp only [Option.bind_eq_some_iff, Option.map_eq_some_iff, Prod.mk.injEq] at hp
    obtain ⟨y, hy, info, hi, -, rfl⟩ := hp
    exact ⟨hw, by rw [hi]; rfl, by rw [hy, hname hy]⟩
  · rintro ⟨hw, hi, hx⟩
    obtain ⟨info, hi⟩ := Option.isSome_iff_exists.mp hi
    rw [hx, hi] at ha
    obtain ⟨u, hu, he⟩ := exists_urlParse_iff.mpr ⟨hw, _, ha⟩
    exact ⟨u, hu, by rw [he, hname hx]⟩

theorem exists_hostname_userinfo {userinfo host : GoString}
    (ha : (splitParts rest).authority = userinfo ++ '@' :: host) (hat : '@' ∉ host) (hc : ':' ∉ host)
    (hb : '[' ∉ host) : (∃ u, urlParse isIPv6 rest = some u ∧ hostname u.host = x) ↔
      wellFormed rest ∧ (parseUserinfo userinfo).isSome ∧ unescape .host host = some x := by
  rw [exists_hostname_of_authority (o := (parseUserinfo userinfo).map some) ?_ hc hb, Option.isSome_map]
  rw [ha, parseAuthority_append hat, parseHost_of_not_mem hc hb]
  simp [Function.comp_def]

theorem exists_hostname_bare (hat : '@' ∉ (splitParts rest).authority) (hc : ':' ∉ (splitParts rest).authority)
    (hb : '[' ∉ (splitParts rest).authority) : (∃ u, urlParse isIPv6 rest = some u ∧ hostname u.host = x) ↔
      wellFormed rest ∧ unescape .host (splitParts rest).authority = some x := by
  rw [exists_hostname_of_authority (o := some none) ?_ hc hb]
  · simp
  · rw [parseAuthority_of_not_mem hat, parseHost_of_not_mem hc hb, Option.map_eq_bind]
    rfl

theorem hostname_of_urlParse {u : URL} (hu : urlParse isIPv6 rest = some u)
    (hat : '@' ∉ (splitParts rest).authority) : parseHost isIPv6 (splitParts rest).authority = some u.host := by
  obtain ⟨-, user, hp⟩ := exists_urlParse_iff.mp ⟨u, hu, rfl⟩
  rw [parseAuthority_of_not_mem hat] at hp
  simp only [Option.map_eq_some_iff, Prod.mk.injEq] at hp
  obtain ⟨y, hy, -, rfl⟩ := hp
  exact hy

variable {s port : GoString}

theorem misreadHost_of_not_mem (hpre : ¬httpPrefix <+: s) (hat : '@' ∉ (splitParts s).authority) :
    misreadHost s = if wellFormed s then
      match cutLast ':' s with
      | some (front, group) =>
        if s.head? ≠ some '[' ∧ ':' ∈ front ∧ group.all Char.isDigit then some front else none
      | none => none
    else none := by
  simp only [misreadHost, cutHttpPrefix_of_not hpre, cutLast_eq_none.mpr hat, if_neg hpre]

theorem misreadHost_userinfo {userinfo host : GoString}
    (ha : (splitParts (cutHttpPrefix s)).authority = userinfo ++ '@' :: host) (hat : '@' ∉ host) (hc : ':' ∉ host)
    (hb : '[' ∉ host) : misreadHost s = some x ↔
      ∃ u, urlParse isIPv6 (cutHttpPrefix s) = some u ∧ hostname u.host = x := by
  rw [exists_hostname_userinfo ha hat hc hb]
  simp only [misreadHost, ha, cutLast_append_cons hat]
  split
  · rename_i hw
    split <;> simp_all
  · simp_all

variable (isIPv6) in
/-- Either `s` is not misread and every URL it gives names the host that was asked
about, or the host of its URL is the misread one. -/
def Readings (s : GoString) : Prop := (misreadHost s = none ∧
      ∀ u, urlParse isIPv6 (cutHttpPrefix s) = some u → hostname u.host = normalizeHostPort s) ∨
    ∀ x, misreadHost s = some x ↔ ∃ u, urlParse isIPv6 (cutHttpPrefix s) = some u ∧ hostname u.host = x

theorem readings_name (h : Plain s) (hn : normalizeHostPort s = s) (hc : ':' ∉ s) : Readings isIPv6 s := by
  have hpre := not_httpPrefix_of_plain h
  have hauth := authority_of_plain h.2
  have hat : '@' ∉ (splitParts s).authority := by
    rw [hauth]
    exact fun hm => absurd (h.2 _ hm) (by decide)
  refine .inl ⟨?_, fun u hu => ?_⟩
  · rw [misreadHost_of_not_mem hpre hat, cutLast_eq_none.mpr hc]
    simp
  · rw [cutHttpPrefix_of_not hpre] at hu
    have hp := hostname_of_urlParse hu hat
    rw [hauth, parseHost_of_not_mem hc h.noBracket.1, unescape_host_of_plain h.2, Option.some.injEq] at hp
    rw [← hp, hn, hostname_of_not_mem hc h.noBracket.1]

theorem readings_address {front group : GoString} (h : Plain s) (hs : s = front ++ ':' :: group)
    (hg : ':' ∉ group) (hf : ':' ∈ front) : misreadHost s = some x ↔
      ∃ u, urlParse isIPv6 (cutHttpPrefix s) = some u ∧ hostname u.host = x := by
  have hpre := not_httpPrefix_of_plain h
  have hauth := authority_of_plain h.2
  have hat : '@' ∉ s := fun hm => absurd (h.2 _ hm) (by decide)
  have hfp : ∀ c ∈ front, isPlainChar c := fun c hc => h.2 c (hs ▸ List.mem_append_left _ hc)
  have hfn : front ≠ [] := List.ne_nil_of_mem hf
  have hparse : parseHost isIPv6 (front ++ ':' :: group) = _ := parseHost_withPort hfp hfn hg
  have hname : ∀ (_ : group.all Char.isDigit), hostname s = front := fun hd => by
    rw [hs, hostname_withPort hg hd, stripBrackets_of_not_mem (Plain.noBracket ⟨hfn, hfp⟩).1]
  rw [cutHttpPrefix_of_not hpre, misreadHost_of_not_mem hpre (hauth.symm ▸ hat), hs, cutLast_append_cons hg, ← hs]
  have hhead : s.head? ≠ some '[' := head?_ne_of_not_mem h.noBracket.1
  rw [if_pos (wellFormed_of_plain h.2)]
  simp only [ne_eq, hhead, not_false_eq_true, hf, true_and]
  constructor
  · intro hx
    split at hx
    · rename_i hd
      cases hx
      have hp : parseAuthority isIPv6 (splitParts s).authority = some (none, s) := by
        rw [hauth, parseAuthority_of_not_mem hat, hs, hparse, if_pos hd]
        rfl
      obtain ⟨u, hu, he⟩ := exists_urlParse_iff.mpr ⟨wellFormed_of_plain h.2, _, hp⟩
      exact ⟨u, hu, by rw [he, hname hd]⟩
    · cases hx
  · rintro ⟨u, hu, rfl⟩
    have hp := hostname_of_urlParse hu (hauth.symm ▸ hat)
    rw [hauth, hs, hparse] at hp
    split at hp
    · rename_i hd
      rw [Option.some.injEq, ← hs] at hp
      rw [if_pos hd, ← hp, hname hd]
    · cases hp

theorem readings_port {front : GoString} (hs : s = front ++ ':' :: port) (hpre : ¬httpPrefix <+: s)
    (hin : InAuthority front) (hatf : '@' ∉ front) (hp : ':' ∉ port) (hb : NoBracket port)
    (hmis : s.head? = some '[' ∨ ':' ∉ front)
    (hname : ∀ q host, ':' ∉ q → NoBracket q → parseHost isIPv6 (front ++ ':' :: q) = some host →
      hostname host = normalizeHostPort s) : Readings isIPv6 s := by
  have hcut := cutHttpPrefix_of_not hpre
  have hcolon : InAuthority (front ++ [':']) := by
    intro c hc
    rcases List.mem_append.mp hc with hc | hc
    · exact hin c hc
    · rw [List.mem_singleton.mp hc]
      decide
  have hauth : (splitParts s).authority = front ++ ':' :: (splitParts port).authority := by
    have ha := authority_append (b := port) hcolon
    simpa [← hs] using ha
  have hc : ':' ∉ (splitParts port).authority := fun hm => hp (mem_of_mem_authority hm)
  have hbr : NoBracket (splitParts port).authority :=
    ⟨fun hm => hb.1 (mem_of_mem_authority hm), fun hm => hb.2 (mem_of_mem_authority hm)⟩
  cases hl : cutLast '@' (splitParts port).authority with
  | none =>
    have hat : '@' ∉ (splitParts s).authority := by
      rw [hauth, List.mem_append, List.mem_cons, not_or, not_or]
      exact ⟨hatf, by decide, cutLast_eq_none.mp hl⟩
    refine .inl ⟨?_, fun u hu => ?_⟩
    · have hno : ¬(s.head? ≠ some '[' ∧ ':' ∈ front ∧ port.all Char.isDigit) := by
        rintro ⟨hh, hf, -⟩
        exact hmis.elim hh fun hn => hn hf
      rw [misreadHost_of_not_mem hpre hat, show cutLast ':' s = _ from hs ▸ cutLast_append_cons hp front]
      simp only [if_neg hno, ite_self]
    · rw [hcut] at hu
      have hparse := hostname_of_urlParse hu hat
      rw [hauth] at hparse
      exact hname _ _ hc hbr hparse
  | some p =>
    -- the port has an `@`: it ends with the host
    obtain ⟨userinfo, host⟩ := p
    obtain ⟨ha, hat⟩ := cutLast_eq_some.mp hl
    rw [ha] at hc hbr hauth
    have hauth' : (splitParts (cutHttpPrefix s)).authority = (front ++ ':' :: userinfo) ++ '@' :: host := by
      rw [hcut, hauth, List.append_assoc, List.cons_append]
    refine .inr fun x => misreadHost_userinfo hauth' hat (fun hm => hc ?_) fun hm => hbr.1 ?_
    · exact List.mem_append_right _ (List.mem_cons_of_mem _ hm)
    · exact List.mem_append_right _ (List.mem_cons_of_mem _ hm)

theorem readings_withPort (h : Plain (normalizeHostPort s))
    (hs : s = normalizeHostPort s ++ ':' :: port) (hn : ':' ∉ normalizeHostPort s) (hp : ':' ∉ port)
    (hb : NoBracket port) : Readings isIPv6 s := by
  by_cases hpre : httpPrefix <+: s
  · -- the scheme was taken for the name
    obtain ⟨rest, hr⟩ := hpre
    have hrest : ':' ∉ rest ∧ NoBracket rest := (hr ▸ Shape.withPort h hs hn hp hb : Shape (httpPrefix ++ rest)).of_httpPrefix
    have hcut : cutHttpPrefix s = rest := by rw [← hr, cutHttpPrefix_append]
    have hc : ':' ∉ (splitParts rest).authority := fun hm => hrest.1 (mem_of_mem_authority hm)
    have hbr : '[' ∉ (splitParts rest).authority := fun hm => hrest.2.1 (mem_of_mem_authority hm)
    refine .inr fun x => ?_
    cases hl : cutLast '@' (splitParts rest).authority with
    | none =>
      have hat := cutLast_eq_none.mp hl
      rw [hcut, exists_hostname_bare hat hc hbr]
      simp only [misreadHost, hcut, hl, if_pos (show httpPrefix <+: s from ⟨rest, hr⟩)]
      split
      · rename_i hw
        exact ⟨fun hx => ⟨hw, hx⟩, And.right⟩
      · rename_i hw
        exact ⟨fun hx => absurd hx (by simp), fun hx => absurd hx.1 hw⟩
    | some p =>
      obtain ⟨ha, hat⟩ := cutLast_eq_some.mp hl
      rw [ha] at hc hbr
      refine misreadHost_userinfo (hcut.symm ▸ ha) hat (fun hm => hc ?_) fun hm => hbr ?_
      · exact List.mem_append_right _ (List.mem_cons_of_mem _ hm)
      · exact List.mem_append_right _ (List.mem_cons_of_mem _ hm)
  · refine readings_port hs hpre (inAuthority_of_plain h.2) (fun hm => absurd (h.2 _ hm) (by decide)) hp hb
      (.inr hn) fun q host hq _ hparse => ?_
    rw [parseHost_withPort h.2 h.1 hq] at hparse
    split at hparse
    · rename_i hd
      cases hparse
      rw [hostname_withPort hq hd, stripBrackets_of_not_mem h.noBracket.1]
    · cases hparse

theorem readings_bracketed (h : Plain (normalizeHostPort s))
    (hs : s = '[' :: normalizeHostPort s ++ ']' :: ':' :: port) (hp : ':' ∉ port) (hb : NoBracket port) : Readings isIPv6 s := by
  have hhead : s.head? = some '[' := by rw [hs]; rfl
  have hs' : s = ('[' :: normalizeHostPort s ++ [']']) ++ ':' :: port := by simpa using hs
  have hmem : ∀ c ∈ '[' :: normalizeHostPort s ++ [']'], c = '[' ∨ isPlainChar c ∨ c = ']' := by
    intro c hc
    simp only [List.mem_append, List.mem_cons, List.not_mem_nil, or_false] at hc
    rcases hc with (hc | hc) | hc
    · exact .inl hc
    · exact .inr (.inl (h.2 c hc))
    · exact .inr (.inr hc)
  have hpre : ¬httpPrefix <+: s := by
    rw [hs]
    intro hp
    cases (List.cons_prefix_cons.mp hp).1
  refine readings_port hs' hpre (fun c hc => ?_) (fun hm => ?_) hp hb (.inl hhead) fun q host hq hbq hparse => ?_
  · rcases hmem c hc with rfl | hc | rfl
    · decide
    · exact inAuthority_of_plain (s := [c]) (by simpa using hc) c (List.mem_singleton_self c)
    · decide
  · rcases hmem _ hm with hc | hc | hc
    · exact absurd hc (by decide)
    · exact absurd hc (by decide)
    · exact absurd hc (by decide)
  · rw [List.append_assoc, List.singleton_append] at hparse
    exact hostname_of_parseHost_bracketed h hq hbq hparse

/-- **The two readings of an accepted string.** -/
theorem readings (h : Shape s) : Readings isIPv6 s := by
  cases h with
  | name h hn hc => exact readings_name h hn hc
  | address h hs hg hf => exact .inr fun x => readings_address h hs hg hf
  | withPort h hs hn hp hb => exact readings_withPort h hs hn hp hb
  | bracketed h hs hp hb => exact readings_bracketed h hs hp hb

end

/-! ## The caches -/

section

variable {isIPv6} {cfg} {s s' : Server} {hostPort : GoString}

theorem shape_of_isAllowed {av : AllowlistValidator} (he : av.enabled)
    (h : av.isAllowed hostPort) : normalizeHostPort hostPort ∈ av.allowedTargets ∧ Shape hostPort := by
  simp only [AllowlistValidator.isAllowed, he, Bool.not_true, Bool.false_eq_true, if_false, decide_eq_true_eq] at h
  exact ⟨h, shape_of_plain (av.plain _ h)⟩

theorem not_httpPrefix_cutHttpPrefix (h : Shape hostPort) : ¬httpPrefix <+: cutHttpPrefix hostPort := by
  by_cases hpre : httpPrefix <+: hostPort
  · obtain ⟨rest, rfl⟩ := hpre
    rw [cutHttpPrefix_append]
    exact not_httpPrefix_of_not_mem (c := ':') (by decide) h.of_httpPrefix.1
  · rwa [cutHttpPrefix_of_not hpre]

theorem isAllowed_of_mem_targets {av : AllowlistValidator} {r : Request} {role : Role}
    (h : (role, hostPort) ∈ (disaggregatedPrefillHandler cfg av r).targets) : av.isAllowed hostPort := by
  unfold disaggregatedPrefillHandler at h
  dsimp only at h
  split at h
  · cases h
  · rename_i hprefill
    have hallowed : prefillHostPort cfg r ≠ [] → av.isAllowed (prefillHostPort cfg r) := fun hne => by
      simpa [hne] using hprefill
    split at h
    · simp only [Protocol.targets, List.mem_append, List.mem_map, List.mem_filter, Prod.mk.injEq] at h
      rcases h with ⟨e, he, -, rfl⟩ | h
      · exact he.2
      · split at h
        · rename_i hne
          simp only [List.mem_singleton, Prod.mk.injEq] at h
          rw [h.2]
          exact hallowed hne
        · cases h
    · split at h
      · rename_i hne
        simp only [Protocol.targets, List.mem_singleton, Prod.mk.injEq] at h
        rw [h.2]
        exact hallowed hne
      · cases h

/-- The proxy an entry of a cache should have. -/
def Fresh (isIPv6 : GoString → Bool) (hostPort : GoString) (u : URL) : Prop :=
  urlParse isIPv6 hostPort = some u ∧ ¬httpPrefix <+: hostPort

theorem createProxyHandler_fst {cache : ProxyCache} (h : ∀ k u, cache k = some u → Fresh isIPv6 k u) :
    (createProxyHandler isIPv6 cache hostPort).1 = urlParse isIPv6 (cutHttpPrefix hostPort) := by
  unfold createProxyHandler
  split
  · rename_i u hu
    obtain ⟨hp, hpre⟩ := h _ _ hu
    rw [cutHttpPrefix_of_not hpre, hp]
  · dsimp only
    split
    · rename_i hu
      exact hu.symm
    · rename_i hu
      exact hu.symm

theorem createProxyHandler_snd {cache : ProxyCache} {k : GoString} {u : URL} (hs : Shape hostPort)
    (h : (createProxyHandler isIPv6 cache hostPort).2 = some (k, u)) : Fresh isIPv6 k u := by
  unfold createProxyHandler at h
  split at h
  · cases h
  · dsimp only at h
    split at h
    · cases h
    · rename_i hu
      cases h
      exact ⟨hu, not_httpPrefix_cutHttpPrefix hs⟩

theorem proxies_setProxy {role role' : Role} {k k' : GoString} {v : Option URL} {u : URL}
    (h : (s.setProxy role k v).proxies role' k' = some u) :
    (role' = role ∧ k' = k ∧ v = some u) ∨ s.proxies role' k' = some u := by
  unfold Server.setProxy at h
  by_cases hr : role' = role
  · subst hr
    by_cases hk : k' = k
    · subst hk
      simp only [Function.update_self] at h
      exact .inl ⟨rfl, rfl, h⟩
    · simp only [Function.update_self, Function.update_of_ne hk] at h
      exact .inr h
  · simp only [Function.update_of_ne hr] at h
    exact .inr h

/-- The caches of a protected server. -/
structure Caches (isIPv6 : GoString → Bool) (s : Server) : Prop where
  enabled : s.allowlistValidator.enabled
  cached : ∀ role k u, s.proxies role k = some u → Fresh isIPv6 k u
  adding : ∀ role k u, (role, k, u) ∈ s.adding → Fresh isIPv6 k u

theorem Caches.step {a : Act} (h : Caches isIPv6 s) (hs : step isIPv6 cfg s a = some s') : Caches isIPv6 s' := by
  cases a with
  | contact r role hostPort =>
    simp only [Sidecar.step] at hs
    split at hs
    · rename_i hmem
      have hshape := (shape_of_isAllowed h.enabled (isAllowed_of_mem_targets hmem)).2
      split at hs
      · cases hs
        exact h
      · rename_i entry he
        cases hs
        refine ⟨h.enabled, h.cached, fun role' k u hm => ?_⟩
        rcases List.mem_cons.mp hm with hm | hm
        · cases hm
          exact createProxyHandler_snd hshape he
        · exact h.adding _ _ _ hm
    · cases hs
  | add role hostPort u =>
    simp only [Sidecar.step] at hs
    split at hs
    · rename_i hmem
      cases hs
      refine ⟨h.enabled, fun role' k v hv => ?_, fun role' k v hm => h.adding _ _ _ (List.mem_of_mem_erase hm)⟩
      rcases proxies_setProxy hv with ⟨rfl, rfl, he⟩ | hv
      · cases he
        exact h.adding _ _ _ hmem
      · exact h.cached _ _ _ hv
    · cases hs
  | evict role hostPort =>
    cases hs
    refine ⟨h.enabled, fun role' k v hv => ?_, h.adding⟩
    rcases proxies_setProxy hv with ⟨-, -, he⟩ | hv
    · cases he
    · exact h.cached _ _ _ hv
  | rebuild pods =>
    cases hs
    exact ⟨h.enabled, h.cached, h.adding⟩

theorem Caches.init : Caches isIPv6 (Server.init true) :=
  ⟨rfl, nofun, nofun⟩

theorem caches_reaches (h : Reaches (step isIPv6 cfg) Any (Server.init true) s) : Caches isIPv6 s :=
  h.invariant _ .init fun _ _ _ hi _ hs => hi.step hs

/-- **When the protection is sound.** In every state of a protected server, an
accepted string leads only to hosts of the allowlist exactly when the host it
is misread as, if any, is in the allowlist too. -/
theorem contacted_host_allowed_iff (h : Reaches (step isIPv6 cfg) Any (Server.init true) s) (role : Role)
    (hostPort : GoString) :
    (s.allowlistValidator.isAllowed hostPort →
      ∀ u, (createProxyHandler isIPv6 (s.proxies role) hostPort).1 = some u →
        hostname u.host ∈ s.allowlistValidator.allowedTargets) ↔
    (s.allowlistValidator.isAllowed hostPort →
      ∀ host, misreadHost hostPort = some host → host ∈ s.allowlistValidator.allowedTargets) := by
  have hc := caches_reaches h
  rw [createProxyHandler_fst (hc.cached role)]
  refine forall_congr' fun ha => ?_
  obtain ⟨hin, hshape⟩ := shape_of_isAllowed hc.enabled ha
  rcases readings hshape with ⟨hm, hu⟩ | hx
  · simp only [hm]
    exact ⟨nofun, fun _ u hp => hu u hp ▸ hin⟩
  · simp only [hx]
    exact ⟨fun hall host ⟨u, hp, he⟩ => he ▸ hall u hp, fun hall u hp => hall _ ⟨u, hp, rfl⟩⟩

end

/-- A pool of one pod, with an IPv4 address. -/
def onePod : List Pod :=
  [⟨"10.0.0.1".toList, "decode-0".toList, fun _ => by decide, fun _ => by decide⟩]

/-- A host and a number for a port is sound. -/
theorem contacted_host_allowed_port : ∃ s, Reaches (step (fun _ => true) ⟨false, true⟩) Any (Server.init true) s ∧
    s.allowlistValidator.isAllowed "10.0.0.1:8000".toList ∧
    ∀ u, (createProxyHandler (fun _ => true) (s.proxies .prefiller) "10.0.0.1:8000".toList).1 = some u →
      hostname u.host ∈ s.allowlistValidator.allowedTargets := by
  obtain ⟨s, hs, hp⟩ := exists_of_run (step (fun _ => true) ⟨false, true⟩) (Server.init true) [.rebuild onePod]
    (fun s => s.allowlistValidator.isAllowed "10.0.0.1:8000".toList) (by decide +kernel)
  have hm : misreadHost "10.0.0.1:8000".toList = none := by decide +kernel
  refine ⟨s, hs, hp, (contacted_host_allowed_iff hs .prefiller "10.0.0.1:8000".toList).mpr (fun _ host hx => ?_) hp⟩
  rw [hm] at hx
  cases hx

/-- **A host outside the allowlist is contacted.** The allowlist reads
`10.0.0.1` and the port `x@evil.example`, the proxy the user `10.0.0.1` with a
password and the host `evil.example`. -/
theorem contacted_host_outside : ∃ s, Reaches (step (fun _ => true) ⟨false, true⟩) Any (Server.init true) s ∧
    s.allowlistValidator.isAllowed "10.0.0.1:x@evil.example".toList ∧
    ∃ u, (createProxyHandler (fun _ => true) (s.proxies .prefiller) "10.0.0.1:x@evil.example".toList).1 = some u ∧
      hostname u.host = "evil.example".toList ∧ "evil.example".toList ∉ s.allowlistValidator.allowedTargets := by
  obtain ⟨s, hs, ha, hu, hn⟩ := exists_of_run (step (fun _ => true) ⟨false, true⟩) (Server.init true) [.rebuild onePod]
    (fun s => s.allowlistValidator.isAllowed "10.0.0.1:x@evil.example".toList ∧
      (createProxyHandler (fun _ => true) (s.proxies .prefiller) "10.0.0.1:x@evil.example".toList).1.map
        (hostname ·.host) = some "evil.example".toList ∧
      "evil.example".toList ∉ s.allowlistValidator.allowedTargets) (by decide +kernel)
  obtain ⟨u, hu, he⟩ := Option.map_eq_some_iff.mp hu
  exact ⟨s, hs, ha, u, hu, he, hn⟩

end InferenceScheduler.Sidecar
