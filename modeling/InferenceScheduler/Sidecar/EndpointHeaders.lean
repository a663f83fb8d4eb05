/-
The headers that carry the endpoints of a disaggregated request from the
scheduler (`HeadersHandler.PreRequest`) to the sidecar
(`disaggregatedPrefillHandler`), and what the sidecar's readers make of them: the
allowlist, the proxy, and the SGLang connector, which takes what stands before
the first colon for the host.
-/
import InferenceScheduler.Sidecar.Proxy

namespace InferenceScheduler.Sidecar

/-! ## The scheduler's side -/

/-- A plain address, which is an IPv6 address if it has colons, and a port. -/
structure Endpoint (isIPv6 : GoString → Bool) where
  address : GoString
  port : GoString
  plain : Plain address
  ipv6 : ':' ∈ address → isIPv6 address
  digits : ∀ c ∈ port, c.isDigit

variable {isIPv6 : GoString → Bool}

def Endpoint.hostPort (e : Endpoint isIPv6) : GoString := joinHostPort e.address e.port

/-- The prefill header, from the first target. -/
def prefillEndpointHeader (targetEndpoints : List (Endpoint isIPv6)) : Option GoString :=
  targetEndpoints.head?.map Endpoint.hostPort

/-- The encoder header, from all targets. -/
def encoderEndpointsHeader (targetEndpoints : List (Endpoint isIPv6)) : Option GoString :=
  let encodeHostPorts := targetEndpoints.map Endpoint.hostPort
  if encodeHostPorts = [] then none else some ([','].intercalate encodeHostPorts)

/-! ## The sidecar's side -/

/-- The entries of a header, from `Header.Values`. -/
def headerEntries (values : List GoString) : List GoString :=
  (if values.length = 1 then values.flatMap (·.splitOn ',') else values).map trimSpace

/-- What the handler reads; `draw` decides what `rand.IntN` returns. -/
def readRequest (prefillHeader encoderHeader : Option GoString) (draw : Nat) : Request :=
  let prefillHostPorts := headerEntries prefillHeader.toList
  { prefillHostPorts, encoderHostPorts := headerEntries encoderHeader.toList, sample := draw % prefillHostPorts.length }

def getBootstrapHost (prefillHostPort : GoString) : GoString := (prefillHostPort.splitOn ':').headD []

/-! ## One endpoint -/

theorem splitHostPort_bracketed {host port : GoString} (hb : NoBracket host) (hp : ':' ∉ port)
    (hbp : NoBracket port) : splitHostPort ('[' :: host ++ ']' :: ':' :: port) = .ok (host, port) := by
  have hlast : cutLast ':' ('[' :: host ++ ']' :: ':' :: port) = some ('[' :: host ++ [']'], port) := by
    rw [← cutLast_append_cons hp ('[' :: host ++ [']'])]
    simp
  have hopen : ']' ∉ '[' :: host := by simpa using hb.2
  have hfirst : cutFirst ']' ('[' :: host ++ ']' :: ':' :: port) = some ('[' :: host, ':' :: port) :=
    cutFirst_append_cons hopen
  have hhead : ('[' :: host ++ ']' :: ':' :: port).head? = some '[' := rfl
  have hafterOpen : '[' ∉ host ++ ']' :: ':' :: port := by simp [hb.1, hbp.1]
  have hafterClose : ']' ∉ ':' :: port := by simpa using hbp.2
  simp only [splitHostPort, hlast, hhead, hfirst, if_true]
  simp [checkBrackets, hafterOpen, hafterClose]

theorem getBootstrapHost_eq (s : GoString) : getBootstrapHost s = s.takeWhile (· ≠ ':') := by
  rw [getBootstrapHost]
  induction s with
  | nil => rfl
  | cons c s ih =>
    rw [List.splitOn_cons_eq_if_modifyHead]
    by_cases hc : c = ':'
    · simp [hc]
    · obtain ⟨x, xs, hs⟩ := List.exists_cons_of_ne_nil (List.splitOn_ne_nil ':' s)
      rw [hs] at ih ⊢
      simp only [List.headD_cons] at ih
      simp [hc, ih]

namespace Endpoint

variable (e : Endpoint isIPv6)

theorem port_plain : ∀ c ∈ e.port, isPlainChar c := fun c hc => isPlainChar_of_isDigit (e.digits c hc)

theorem not_mem_port {c : Char} (hc : c.isDigit = false) : c ∉ e.port := by
  intro hm
  simp [e.digits c hm] at hc

theorem port_noBracket : NoBracket e.port := ⟨e.not_mem_port (by decide), e.not_mem_port (by decide)⟩

/-- The characters of the joined text. -/
theorem mem_hostPort {c : Char} (hc : c ∈ e.hostPort) : isPlainChar c ∨ c = '[' ∨ c = ']' := by
  rw [hostPort, joinHostPort] at hc
  split_ifs at hc
  · simp only [List.cons_append, List.mem_cons, List.mem_append] at hc
    rcases hc with rfl | hc | rfl | rfl | hc
    · exact .inr (.inl rfl)
    · exact .inl (e.plain.2 c hc)
    · exact .inr (.inr rfl)
    · exact .inl (by decide)
    · exact .inl (e.port_plain c hc)
  · simp only [List.mem_append, List.mem_cons] at hc
    rcases hc with hc | rfl | hc
    · exact .inl (e.plain.2 c hc)
    · exact .inl (by decide)
    · exact .inl (e.port_plain c hc)

theorem not_mem_hostPort {c : Char} (hc : isPlainChar c = false ∧ c ≠ '[' ∧ c ≠ ']') : c ∉ e.hostPort := by
  intro hm
  rcases e.mem_hostPort hm with h | h | h
  · simp [h] at hc
  · exact hc.2.1 h
  · exact hc.2.2 h

theorem visible_hostPort {c : Char} (hc : c ∈ e.hostPort) : 0x20 < c.toNat ∧ c.toNat < 0x7f := by
  rcases e.mem_hostPort hc with h | rfl | rfl
  · exact isPlainChar_visible h
  · decide
  · decide

/-- The address and the port are read back. -/
theorem splitHostPort_hostPort : splitHostPort e.hostPort = .ok (e.address, e.port) := by
  have hport : ':' ∉ e.port := e.not_mem_port (by decide)
  rw [hostPort, joinHostPort]
  split_ifs with hc
  · exact splitHostPort_bracketed e.plain.noBracket hport e.port_noBracket
  · refine splitHostPort_withPort hport hc ⟨?_, ?_⟩
    · simp [e.plain.noBracket.1, e.port_noBracket.1]
    · simp [e.plain.noBracket.2, e.port_noBracket.2]

theorem parseHost_hostPort : parseHost isIPv6 e.hostPort = some e.hostPort := by
  have hdigits : e.port.all Char.isDigit := List.all_eq_true.mpr e.digits
  rw [hostPort, joinHostPort]
  split_ifs with hc
  · rw [parseHost_bracketed e.plain e.port_noBracket, if_pos ⟨hdigits, e.ipv6 hc⟩]
  · rw [parseHost_withPort e.plain.2 e.plain.1 (e.not_mem_port (by decide)), if_pos hdigits]

/-- The URL the proxy is made of has the text for its host. -/
theorem urlParse_hostPort : ∃ u, urlParse isIPv6 (cutHttpPrefix e.hostPort) = some u ∧ u.host = e.hostPort := by
  have hslash : '/' ∉ e.hostPort := e.not_mem_hostPort (by decide)
  have hat : '@' ∉ e.hostPort := e.not_mem_hostPort (by decide)
  have hin : InAuthority e.hostPort := by
    intro c hc
    refine ⟨?_, ?_, ?_⟩
    · rintro rfl
      exact e.not_mem_hostPort (by decide) hc
    · rintro rfl
      exact e.not_mem_hostPort (by decide) hc
    · rintro rfl
      exact hslash hc
  rw [cutHttpPrefix_of_not (not_httpPrefix_of_not_mem (c := '/') (by decide) hslash), exists_urlParse_iff]
  refine ⟨hin.wellFormed fun c hc => not_isCTL_of_visible (e.visible_hostPort hc), none, ?_⟩
  rw [hin.authority_eq, parseAuthority_of_not_mem hat, parseHost_hostPort]
  rfl

theorem getBootstrapHost_hostPort : getBootstrapHost e.hostPort = e.address ↔ ':' ∉ e.address := by
  rw [getBootstrapHost_eq, hostPort, joinHostPort]
  split_ifs with hc
  · -- the text begins with a bracket, which the address does not have
    refine iff_of_false ?_ (not_not.mpr hc)
    intro heq
    apply e.plain.noBracket.1
    rw [← heq]
    simp
  · refine iff_of_true ?_ hc
    rw [List.takeWhile_append_of_pos fun c hm => by simpa using fun h : c = ':' => hc (h ▸ hm)]
    simp

end Endpoint

/-! ## The lists -/

variable (prefill encode : List (Endpoint isIPv6))

theorem headerEntries_singleton {v : GoString} {entries : List GoString} (hv : v.splitOn ',' = entries)
    (htrim : ∀ s ∈ entries, trimSpace s = s) : headerEntries [v] = entries := by
  rw [headerEntries, if_pos List.length_singleton, List.flatMap_singleton, hv]
  exact (List.map_congr_left htrim).trans (List.map_id entries)

theorem trimSpace_hostPort (e : Endpoint isIPv6) : trimSpace e.hostPort = e.hostPort :=
  trimSpace_eq_self fun _ hc => isUnicodeSpace_of_visible (e.visible_hostPort hc)

theorem comma_not_mem_hostPort (e : Endpoint isIPv6) : ',' ∉ e.hostPort :=
  e.not_mem_hostPort (by decide)

theorem headerEntries_encoder :
    headerEntries (encoderEndpointsHeader encode).toList = encode.map Endpoint.hostPort := by
  rw [encoderEndpointsHeader]
  split_ifs with hnil
  · rw [hnil]
    rfl
  · refine headerEntries_singleton (List.splitOn_intercalate ',' ?_ hnil) ?_
    · intro s hs
      obtain ⟨e, -, rfl⟩ := List.mem_map.mp hs
      exact comma_not_mem_hostPort e
    · intro s hs
      obtain ⟨e, -, rfl⟩ := List.mem_map.mp hs
      exact trimSpace_hostPort e

/-- The first target alone is a list of one. -/
theorem headerEntries_prefill :
    headerEntries (prefillEndpointHeader prefill).toList = prefill.head?.toList.map Endpoint.hostPort := by
  cases prefill with
  | nil => rfl
  | cons e prefill =>
    have := headerEntries_encoder [e]
    simpa [encoderEndpointsHeader, prefillEndpointHeader] using this

/-- **The headers are read back.** For any targets, the sidecar's entries are
those of the first prefill target and of the encoder targets, in their order;
whichever is sampled, the prefill target is the scheduler's. The allowlist is
asked for the address of each of them, and the URL made of it names this address
and port. The bootstrap host is the prefill target's address just if this has no
colon. -/
theorem endpoint_headers_round_trip_iff (cfg : Config) (draw : Nat) :
    (readRequest (prefillEndpointHeader prefill) (encoderEndpointsHeader encode) draw).encoderHostPorts =
        encode.map Endpoint.hostPort ∧
      prefillHostPort cfg (readRequest (prefillEndpointHeader prefill) (encoderEndpointsHeader encode) draw) =
        (prefill.head?.map Endpoint.hostPort).getD [] ∧
      (∀ e ∈ prefill ++ encode, (∀ av : AllowlistValidator, av.isAllowed e.hostPort =
          (!av.enabled || decide (e.address ∈ av.allowedTargets))) ∧
        ∃ u, urlParse isIPv6 (cutHttpPrefix e.hostPort) = some u ∧ splitHostPort u.host = .ok (e.address, e.port)) ∧
      ((∀ e, prefill.head? = some e → getBootstrapHost e.hostPort = e.address) ↔
        ∀ e, prefill.head? = some e → ':' ∉ e.address) := by
  refine ⟨headerEntries_encoder encode, ?_, ?_, ?_⟩
  · rw [prefillHostPort, readRequest]
    simp only [headerEntries_prefill]
    cases prefill with
    | nil => simp
    | cons e prefill => simp [Nat.mod_one]
  · intro e _
    refine ⟨fun av => ?_, ?_⟩
    · rw [AllowlistValidator.isAllowed, normalizeHostPort_of_ok e.splitHostPort_hostPort]
      cases av.enabled <;> simp
    · obtain ⟨u, hu, hhost⟩ := e.urlParse_hostPort
      exact ⟨u, hu, by rw [hhost, e.splitHostPort_hostPort]⟩
  · exact forall_congr' fun e => imp_congr_right fun _ => e.getBootstrapHost_hostPort

/-- An IPv6 address and a port. -/
def documentationEndpoint : Endpoint (· = "2001:db8::1".toList) where
  address := "2001:db8::1".toList
  port := "8000".toList
  plain := by decide
  ipv6 _ := by decide
  digits := List.all_eq_true.mp (by decide)

/-- What stands before the first colon of `[2001:db8::1]:8000`. -/
theorem bootstrap_host_of_ipv6 :
    prefillEndpointHeader [documentationEndpoint] = some "[2001:db8::1]:8000".toList ∧
      getBootstrapHost documentationEndpoint.hostPort = "[2001".toList := by
  decide

end InferenceScheduler.Sidecar
