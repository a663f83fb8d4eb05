/-
What `runNIXLProtocolV2` does with a request: the body it sends to the
prefiller, the one it sends to the decoder, and what the client gets. The
request's map is changed in place for the prefiller and changed back for the
decoder.
-/
import InferenceScheduler.Sidecar.Containment

namespace InferenceScheduler.Sidecar

open SortedMap (put delete get? Sorted get?_put_of_ne)

/-! ## The two bodies -/

/-- The fields that are changed for the prefiller. -/
def stagedFields (api : APIType) : List Text :=
  requestFieldKVTransferParams :: requestFieldStream :: requestFieldStreamOptions :: tokenLimitFieldsForAPIType api

section

variable {N : Type} {e : Env N}

theorem get?_foldl_put (v : Json N) (k : Text) : ∀ (fields : List Text) (m : Fields N),
    get? (fields.foldl (fun m field => put field v m) m) k = if k ∈ fields then some v else get? m k
  | [], m => by simp
  | field :: fields, m => by
    rw [List.foldl_cons, get?_foldl_put v k fields]
    by_cases hk : k = field
    · subst hk
      simp
    · rw [get?_put_of_ne hk]
      simp [hk]

theorem get?_restoreField (original m : Fields N) (field k : Text) :
    get? (restoreField original m field) k = if k = field then get? original k else get? m k := by
  unfold restoreField
  by_cases hk : k = field
  · subst hk
    cases h : get? original k <;> simp
  · cases h : get? original field <;> simp [get?_put_of_ne hk, SortedMap.get?_delete_of_ne hk, hk]

theorem get?_foldl_restoreField (original : Fields N) (k : Text) : ∀ (fields : List Text) (m : Fields N),
    get? (fields.foldl (restoreField original) m) k = if k ∈ fields then get? original k else get? m k
  | [], m => by simp
  | field :: fields, m => by
    rw [List.foldl_cons, get?_foldl_restoreField original k fields, get?_restoreField]
    by_cases hk : k = field
    · subst hk
      simp
    · simp [hk]

variable {api : APIType} {m : Fields N}

theorem Env.get?_nixlPrefill {k : Text} (h : k ∉ stagedFields api) : get? (e.nixlPrefill api m) k = get? m k := by
  simp only [stagedFields, List.mem_cons, not_or] at h
  obtain ⟨hkv, hs, ho, ht⟩ := h
  rw [Env.nixlPrefill, get?_foldl_put, if_neg ht, SortedMap.get?_delete_of_ne ho, get?_put_of_ne hs,
    get?_put_of_ne hkv]

theorem sorted_foldl {f : Fields N → Text → Fields N} (hf : ∀ m field, Sorted m → Sorted (f m field)) :
    ∀ (fields : List Text) (m : Fields N), Sorted m → Sorted (fields.foldl f m)
  | [], _, h => h
  | field :: fields, m, h => sorted_foldl hf fields (f m field) (hf m field h)

theorem sorted_restoreField {original : Fields N} {field : Text} (h : Sorted m) :
    Sorted (restoreField original m field) := by
  unfold restoreField
  split
  · exact h.delete.put
  · exact h.delete

theorem Env.sorted_nixlPrefill (h : Sorted m) : Sorted (e.nixlPrefill api m) :=
  sorted_foldl (fun _ _ h => h.put) _ _ h.put.put.delete

theorem sorted_nixlDecode {original : Fields N} {kv : Json N} (h : Sorted m) :
    Sorted (nixlDecode api original m kv) := by
  refine (sorted_foldl (fun _ _ h => sorted_restoreField h) _ _ ?_).put
  split
  · exact (sorted_restoreField h).put
  · exact sorted_restoreField h

theorem Env.nixlDecode_eq {kv : Json N} (h : Sorted m) :
    nixlDecode api m (e.nixlPrefill api m) kv = put requestFieldKVTransferParams kv m := by
  refine (sorted_nixlDecode (e.sorted_nixlPrefill h)).ext h.put fun k => ?_
  by_cases hkv : k = requestFieldKVTransferParams
  · subst hkv
    simp [nixlDecode]
  rw [nixlDecode, get?_put_of_ne hkv, get?_put_of_ne hkv, get?_foldl_restoreField]
  by_cases ht : k ∈ tokenLimitFieldsForAPIType api
  · rw [if_pos ht]
  rw [if_neg ht]
  by_cases ho : k = requestFieldStreamOptions
  · subst ho
    have hs : requestFieldStreamOptions ≠ requestFieldStream := by decide
    cases hg : get? m requestFieldStreamOptions with
    | some v => simp
    | none =>
      simp only
      rw [get?_restoreField, if_neg hs, Env.nixlPrefill, get?_foldl_put, if_neg ht, SortedMap.get?_delete_self]
  · have hrest : get? (restoreField m (e.nixlPrefill api m) requestFieldStream) k = get? m k := by
      rw [get?_restoreField]
      split_ifs with hs
      · rfl
      · exact e.get?_nixlPrefill (by simp [stagedFields, hkv, hs, ho, ht])
    cases hg : get? m requestFieldStreamOptions with
    | some v => exact (get?_put_of_ne ho _).trans hrest
    | none => exact hrest

theorem canonical_kvTransferParams : Json.Canonical (kvTransferParams : Json N) := by
  have hs : [requestFieldDoRemoteDecode, requestFieldDoRemotePrefill, requestFieldRemoteBlockIDs,
      requestFieldRemoteEngineID, requestFieldRemoteHost, requestFieldRemotePort].Pairwise (· < ·) := by decide +kernel
  refine .object (List.pairwise_map.mp hs) fun x hx => ?_
  simp only [List.mem_cons, List.not_mem_nil, or_false] at hx
  rcases hx with rfl | rfl | rfl | rfl | rfl | rfl <;> constructor

theorem Env.canonical_prefillerParams {s : Text} {response : Option (Fields N)}
    (h : e.unmarshalMap s = some response) :
    Json.Canonical ((get? (response.getD []) requestFieldKVTransferParams).getD .null) := by
  cases response with
  | none => exact .null
  | some m =>
    cases hg : get? m requestFieldKVTransferParams with
    | none => simpa [hg] using Json.Canonical.null
    | some v => simpa [hg] using (e.canonical_of_unmarshalMap h).get? hg

theorem Env.canonical_nixlPrefill (h : Json.Canonical (.object m)) :
    Json.Canonical (.object (e.nixlPrefill api m)) := by
  have key : ∀ (fields : List Text) (m : Fields N), Json.Canonical (.object m) →
      Json.Canonical (.object (fields.foldl (fun m field => put field (e.int 1) m) m)) := by
    intro fields
    induction fields with
    | nil => exact fun m h => h
    | cons field fields ih => exact fun m h => ih _ (h.put (.number _))
  exact key _ _ ((h.put canonical_kvTransferParams).put (.bool false)).delete

/-! ## Headers that are passed on -/

theorem Header.values_add (h : Header) (key value k : Text) :
    (h.add key value).values k = if k = key then h.values key ++ [value] else h.values k := by
  unfold Header.values Header.add
  by_cases hk : k = key
  · subst hk
    simp [Header.values]
  · rw [get?_put_of_ne hk, if_neg hk]

theorem Header.get_add_of_ne {h : Header} {key value k : Text} (hk : k ≠ key) : (h.add key value).get k = h.get k := by
  rw [Header.get, Header.values_add, if_neg hk, Header.get]

theorem Client.foldl_addHeader (key : Text) : ∀ (values : List Text) (w : Client),
    ((values.map (.addHeader key)).foldl Client.call w).sent = w.sent ∧
      ∀ k, ((values.map (.addHeader key)).foldl Client.call w).header.values k =
        w.header.values k ++ if k = key then values else []
  | [], w => by simp
  | value :: values, w => by
    obtain ⟨hs, hv⟩ := Client.foldl_addHeader key values (w.call (.addHeader key value))
    refine ⟨hs, fun k => ?_⟩
    rw [List.map_cons, List.foldl_cons, hv k]
    simp only [Client.call, WriterCall.onHeader, Header.values_add]
    by_cases hk : k = key
    · subst hk
      simp
    · simp [hk]

theorem Client.foldl_copyHeader : ∀ {h : Header} (w : Client), Sorted h →
    ((copyHeader h).foldl Client.call w).sent = w.sent ∧
      ∀ k, ((copyHeader h).foldl Client.call w).header.values k = w.header.values k ++ h.values k
  | [], w, _ => by simp [copyHeader, Header.values]
  | (key, values) :: h, w, hs => by
    obtain ⟨hlt, hs⟩ := List.pairwise_cons.mp hs
    obtain ⟨hs₁, hv₁⟩ := Client.foldl_addHeader key values w
    obtain ⟨hs₂, hv₂⟩ := Client.foldl_copyHeader ((values.map (.addHeader key)).foldl Client.call w) hs
    have he : copyHeader ((key, values) :: h) = values.map (.addHeader key) ++ copyHeader h := rfl
    rw [he, List.foldl_append]
    refine ⟨hs₂.trans hs₁, fun k => ?_⟩
    rw [hv₂ k, hv₁ k]
    by_cases hk : k = key
    · subst hk
      have hn : get? h k = none := SortedMap.get?_eq_none_of_lt hlt
      simp [Header.values, get?, hn]
    · simp [Header.values, get?, hk]

theorem sorted_record (calls : List WriterCall) : Sorted (record calls).headers := by
  have key : ∀ (calls : List WriterCall) (w : BufferedResponseWriter), Sorted w.headers →
      Sorted (calls.foldl .call w).headers := by
    intro calls
    induction calls with
    | nil => exact fun w h => h
    | cons c calls ih =>
      intro w h
      refine ih _ ?_
      cases c with
      | addHeader key value | setHeader key values => exact h.put
      | clearHeader => exact .nil
      | writeHeader statusCode | write b | flush => exact h
  exact key calls {} .nil

/-! ## The program -/

/-- The body of a request to a prefiller. -/
def Call.prefillBody : Call → Option Text
  | .proxy (.prefiller _) req _ => some req.body
  | _ => none

/-- The body of a request to a decoder. -/
def Call.decodeBody : Call → Option Text
  | .proxy .decoder req _ | .proxy (.rank _) req _ => some req.body
  | _ => none

/-- The call answers the client. -/
def Call.answersClient : Call → Bool
  | .proxy _ _ writer => writer = .client
  | .answer _ => true
  | _ => false

section

variable (url : URL) (req : OutRequest) (writer : Writer) (calls : List WriterCall)

@[simp] theorem prefillBody_prefiller : (Call.proxy (.prefiller url) req writer).prefillBody = some req.body := rfl
@[simp] theorem prefillBody_answer : (Call.answer calls).prefillBody = none := rfl
@[simp] theorem decodeBody_prefiller : (Call.proxy (.prefiller url) req writer).decodeBody = none := rfl
@[simp] theorem decodeBody_answer : (Call.answer calls).decodeBody = none := rfl
@[simp] theorem answersClient_buffered (u : Upstream) : (Call.proxy u req .buffered).answersClient = false := rfl
@[simp] theorem answersClient_answer : (Call.answer calls).answersClient = true := rfl

end

/-- The header names no data-parallel rank, or one that is known. -/
def Env.findsDecoder {N : Type} (e : Env N) (header : Header) : Bool :=
  let hostPort := header.get dataParallelEndpointHeader
  !e.forwardDataParallel || hostPort = [] || e.dataParallelProxies hostPort

/-- The client after the handler's own calls on its writer. -/
def answered (calls : List Call) : Client :=
  calls.foldl (fun w c =>
    match c with
    | .answer calls => calls.foldl Client.call w
    | _ => w) {}

section

variable (ans : (c : Call) → Option c.Reply)

@[simp] theorem eval_answer (calls : List WriterCall) : ((answer calls).eval ans).1 = [.answer calls] := by
  unfold answer Prog.eval
  split <;> rfl

@[simp] theorem eval_forward (upstream : Upstream) (req : OutRequest) :
    ((forward upstream req).eval ans).1 = [.proxy upstream req .client] := by
  unfold forward Prog.eval
  split <;> rfl

theorem Env.eval_decode (req : OutRequest) : ∃ c, ((e.decode req).eval ans).1 = [c] ∧ c.answersClient ∧
    c.prefillBody = none ∧ c.decodeBody = if e.findsDecoder req.header then some req.body else none := by
  unfold Env.decode Env.findsDecoder Env.dataParallelHandler
  dsimp only
  by_cases hdp : e.forwardDataParallel
  · by_cases hhost : req.header.get dataParallelEndpointHeader = []
    · refine ⟨.proxy .decoder req .client, ?_, rfl, rfl, by simp [hhost, Call.decodeBody]⟩
      simp [hdp, hhost]
    · by_cases hknown : e.dataParallelProxies (req.header.get dataParallelEndpointHeader)
      · refine ⟨.proxy (.rank (req.header.get dataParallelEndpointHeader)) req .client, ?_, rfl, rfl,
          by simp [hknown, Call.decodeBody]⟩
        simp [hdp, hhost, hknown]
      · refine ⟨.answer [.writeHeader 400], ?_, rfl, rfl, by simp [hdp, hhost, hknown]⟩
        simp [hdp, hhost, hknown]
  · refine ⟨.proxy .decoder req .client, ?_, rfl, rfl, by simp [hdp, Call.decodeBody]⟩
    simp [hdp]

theorem Env.eval_nixlAfterPrefill (r : HttpRequest) (original uuid : Text) (api : APIType) {m : Fields N}
    (hm : Sorted m) (pw : BufferedResponseWriter) :
    ∃ c, ((e.nixlAfterPrefill r original uuid api m pw).eval ans).1 = [c] ∧ c.answersClient ∧ c.prefillBody = none ∧
      (isHTTPError pw.statusCode = false → c.decodeBody =
        if e.findsDecoder r.header then
          (e.unmarshalMap pw.buffer).map fun response => e.marshalMap (put requestFieldKVTransferParams
            ((get? (response.getD []) requestFieldKVTransferParams).getD .null) m)
        else none) ∧
      (isHTTPError pw.statusCode → shouldFallbackToDecode pw = false →
        c = .answer (copyHeader pw.headers ++ [.writeHeader pw.statusCode, .write pw.buffer])) ∧
      (isHTTPError pw.statusCode → shouldFallbackToDecode pw → c.decodeBody = some original) := by
  unfold Env.nixlAfterPrefill
  by_cases herr : isHTTPError pw.statusCode
  · rw [if_pos herr]
    by_cases hfall : shouldFallbackToDecode pw
    · rw [if_pos hfall]
      exact ⟨_, eval_forward ans _ _, rfl, rfl, by simp [herr], by simp [hfall], fun _ _ => rfl⟩
    · rw [if_neg hfall]
      exact ⟨_, eval_answer ans _, rfl, rfl, by simp [herr], fun _ _ => rfl, fun _ h => absurd h hfall⟩
  rw [if_neg herr]
  cases hresp : e.unmarshalMap pw.buffer with
  | none => exact ⟨_, eval_answer ans _, rfl, rfl, by simp, by simp [herr], by simp [herr]⟩
  | some response =>
    dsimp only
    generalize hkv : (get? (response.getD []) requestFieldKVTransferParams).getD .null = kv
    obtain ⟨c, hc, hans, hpre, hbody⟩ := e.eval_decode ans
      ⟨r.header.add requestHeaderRequestID uuid, e.marshalMap (nixlDecode api m (e.nixlPrefill api m) kv), true⟩
    have hne : dataParallelEndpointHeader ≠ requestHeaderRequestID := by decide
    rw [Env.findsDecoder, Header.get_add_of_ne hne, ← Env.findsDecoder, e.nixlDecode_eq hm] at hbody
    refine ⟨c, hc, hans, hpre, fun _ => ?_, by simp [herr], by simp [herr]⟩
    rw [hbody, Option.map_some, hkv]

end

theorem Env.calls_runNIXLProtocolV2 {r : HttpRequest} (d : Draws) (hostPort : GoString) (api : APIType)
    (ans : (c : Call) → Option c.Reply) {original : Text} (hb : r.body = .ok original)
    (hm : e.unmarshalMap original = some (some m)) :
    (((∃ err, d.uuid = .error err) ∨ e.proxyHandler .prefiller hostPort = none) ∧
      ∃ cs, ((e.runNIXLProtocolV2 r d hostPort api).eval ans).1 = [.answer cs]) ∨
    ∃ url uuid req, d.uuid = .ok uuid ∧ e.proxyHandler .prefiller hostPort = some url ∧
      req.body = e.marshalMap (e.nixlPrefill api m) ∧
      ((ans (.proxy (.prefiller url) req .buffered) = none ∧
          ((e.runNIXLProtocolV2 r d hostPort api).eval ans).1 = [.proxy (.prefiller url) req .buffered]) ∨
        ∃ response c, ans (.proxy (.prefiller url) req .buffered) = some response ∧
          ((e.runNIXLProtocolV2 r d hostPort api).eval ans).1 = [.proxy (.prefiller url) req .buffered, c] ∧
          ((e.nixlAfterPrefill r original uuid api m (record response)).eval ans).1 = [c]) := by
  have hsorted : Sorted m := by
    cases e.canonical_of_unmarshalMap hm
    assumption
  unfold Env.runNIXLProtocolV2
  simp only [hb, hm]
  cases d.uuid with
  | error err => exact .inl ⟨.inl ⟨err, rfl⟩, _, eval_answer ans _⟩
  | ok uuid =>
    simp only
    split
    · rename_i hurl
      exact .inl ⟨.inr hurl, _, eval_answer ans _⟩
    · rename_i url hurl
      refine .inr ⟨url, uuid, ⟨r.header.add requestHeaderRequestID uuid, e.marshalMap (e.nixlPrefill api m), true⟩, rfl,
        hurl, rfl, ?_⟩
      rw [Prog.eval]
      split
      · rename_i hans
        exact .inl ⟨hans, rfl⟩
      · rename_i response hans
        obtain ⟨c, hc, -⟩ := e.eval_nixlAfterPrefill ans r original uuid api hsorted (record response)
        refine .inr ⟨response, c, hans, ?_, hc⟩
        rw [Prod.map_fst, hc]

theorem sent_answered {pw : BufferedResponseWriter} (h : Sorted pw.headers) (herr : 400 ≤ pw.statusCode)
    (c : Call) (hc : ∀ calls, c ≠ .answer calls) :
    ∃ header, (answered [c, .answer (copyHeader pw.headers ++ [.writeHeader pw.statusCode, .write pw.buffer])]).sent =
      [.status pw.statusCode header, .body pw.buffer] ∧ ∀ k, header.values k = pw.headers.values k := by
  obtain ⟨hsent, hvalues⟩ := Client.foldl_copyHeader {} h
  have hfirst : answered [c, .answer (copyHeader pw.headers ++ [.writeHeader pw.statusCode, .write pw.buffer])] =
      (copyHeader pw.headers ++ [WriterCall.writeHeader pw.statusCode, .write pw.buffer]).foldl Client.call {} := by
    cases c with
    | answer calls => exact absurd rfl (hc calls)
    | _ => rfl
  rw [hfirst, List.foldl_append]
  generalize (copyHeader pw.headers).foldl Client.call {} = w at hsent hvalues
  have hinfo : ¬(pw.statusCode < 200) := by omega
  refine ⟨w.header, ?_, fun k => by simpa [Header.values] using hvalues k⟩
  simp [Client.call, Client.writeHeader, Client.wroteHeader, hsent, hinfo, Sent.isStatus]

/-- **The staging of a request.** Of a JSON object `m`:
* the prefiller is contacted once, if an identifier and its URL could be made, and
  sent `m` with only the staged fields changed;
* after a successful prefill one decoder is contacted, if the response is JSON and the
  request names no unknown rank, and sent `m` with the prefiller's `kv_transfer_params`;
* after a status from 400 to 451 no decoder is contacted, and the client gets
  the prefiller's status, header and body;
* after any other failure the decoder is sent the original text;
* the client is answered once, unless the prefiller's response breaks off. -/
theorem nixl_request_staged (e : Env N) (r : HttpRequest) (d : Draws) (hostPort : GoString) (api : APIType)
    (ans : (c : Call) → Option c.Reply) {original : Text} {m : Fields N} (hb : r.body = .ok original)
    (hm : e.unmarshalMap original = some (some m)) :
    let calls := ((e.runNIXLProtocolV2 r d hostPort api).eval ans).1
    (∃ p, e.unmarshalMap p = some (some (e.nixlPrefill api m)) ∧
      (∀ k ∉ stagedFields api, get? (e.nixlPrefill api m) k = get? m k) ∧
      calls.filterMap Call.prefillBody =
        if d.uuid.toOption.isSome && (e.proxyHandler .prefiller hostPort).isSome then [p] else []) ∧
    (∀ url req response, .proxy (.prefiller url) req .buffered ∈ calls →
      ans (.proxy (.prefiller url) req .buffered) = some response →
      let pw := record response
      (isHTTPError pw.statusCode = false →
        (e.unmarshalMap pw.buffer = none ∨ e.findsDecoder r.header = false → calls.filterMap Call.decodeBody = []) ∧
        ∀ response, e.unmarshalMap pw.buffer = some response → e.findsDecoder r.header →
          ∃ body, calls.filterMap Call.decodeBody = [body] ∧ e.unmarshalMap body = some (some
            (put requestFieldKVTransferParams ((get? (response.getD []) requestFieldKVTransferParams).getD .null) m))) ∧
      (400 ≤ pw.statusCode → pw.statusCode ≤ 451 → calls.filterMap Call.decodeBody = [] ∧
        ∃ header, (answered calls).sent = [.status pw.statusCode header, .body pw.buffer] ∧
          ∀ k, header.values k = pw.headers.values k) ∧
      (isHTTPError pw.statusCode → ¬(400 ≤ pw.statusCode ∧ pw.statusCode ≤ 451) →
        calls.filterMap Call.decodeBody = [original])) ∧
    ((∀ c ∈ calls, c.prefillBody.isSome → (ans c).isSome) → calls.countP Call.answersClient = 1) := by
  intro calls
  have hcanon := e.canonical_of_unmarshalMap hm
  have hcanon' : Json.Canonical (.object (e.nixlPrefill api m)) := e.canonical_nixlPrefill hcanon
  have hprefill := e.unmarshalMap_marshalMap hcanon'
  have hsorted : Sorted m := by
    cases hcanon
    assumption
  have hstaged : ∀ k ∉ stagedFields api, get? (e.nixlPrefill api m) k = get? m k := fun k hk => e.get?_nixlPrefill hk
  rcases e.calls_runNIXLProtocolV2 d hostPort api ans hb hm with
    ⟨hfailed, cs, hcalls⟩ | ⟨url, uuid, req, huuid, hurl, hreq, hcalls⟩
  · -- an error before the prefill
    refine ⟨⟨_, hprefill, hstaged, ?_⟩, by simp [calls, hcalls], by simp [calls, hcalls]⟩
    rcases hfailed with ⟨err, he⟩ | he <;> simp [calls, hcalls, he, Except.toOption]
  rcases hcalls with ⟨hans, hcalls⟩ | ⟨response, c, hans, hcalls, hc⟩
  · -- the prefiller's response breaks off
    simp only [calls, hcalls]
    refine ⟨⟨_, hprefill, hstaged, by simp [hreq, huuid, hurl, Except.toOption]⟩, fun url' req' response hmem hresp => ?_,
      fun hall => ?_⟩
    · obtain ⟨rfl, rfl⟩ : url' = url ∧ req' = req := by simpa using hmem
      rw [hans] at hresp
      cases hresp
    · simpa [hans] using hall _ List.mem_cons_self
  · obtain ⟨c', hc', hclient, hpre, hok, herr, hfall⟩ :=
      e.eval_nixlAfterPrefill ans r original uuid api hsorted (record response)
    obtain rfl : c = c' := by simpa using hc.symm.trans hc'
    simp only [calls, hcalls]
    refine ⟨⟨_, hprefill, hstaged, by simp [hpre, hreq, huuid, hurl, Except.toOption]⟩,
      fun url' req' response' hmem hresp => ?_, fun _ => ?_⟩
    · -- the prefill request is the first call, for the second is none
      have hne : Call.proxy (.prefiller url') req' .buffered ≠ c := fun he => by simp [← he] at hpre
      obtain ⟨rfl, rfl⟩ : url' = url ∧ req' = req := by simpa [hne] using hmem
      obtain rfl : response = response' := by simpa [hans] using hresp
      refine ⟨fun hs => ?_, fun h₁ h₂ => ?_, fun hs hn => ?_⟩
      · have hdecode := hok hs
        refine ⟨fun hnone => ?_, fun p hp hfinds => ?_⟩
        · have hc : c.decodeBody = none := by
            rw [hdecode]
            rcases hnone with h | h <;> simp [h]
          simp [hc]
        · rw [if_pos hfinds, hp, Option.map_some] at hdecode
          refine ⟨_, ?_, e.unmarshalMap_marshalMap (hcanon.put (e.canonical_prefillerParams hp))⟩
          rw [List.filterMap_cons_none rfl, List.filterMap_cons_some hdecode, List.filterMap_nil]
      · have hs : isHTTPError (record response).statusCode := by simp [isHTTPError]; omega
        have hf : shouldFallbackToDecode (record response) = false := by simp [shouldFallbackToDecode, h₁, h₂]
        obtain rfl := herr hs hf
        exact ⟨by simp, sent_answered (sorted_record response) h₁ _ (by simp)⟩
      · have hf : shouldFallbackToDecode (record response) := by
          simp only [shouldFallbackToDecode, Bool.not_eq_true', Bool.and_eq_false_iff, decide_eq_false_iff_not]
          omega
        rw [List.filterMap_cons_none rfl, List.filterMap_cons_some (hfall hs hf), List.filterMap_nil]
    · simp [hclient]

theorem Env.unmarshalMap_eq_some {s : Text} (h : (e.unmarshalMap s).any Option.isSome) :
    e.unmarshalMap s = some (some ((e.unmarshalMap s).join.getD [])) := by
  cases hs : e.unmarshalMap s with
  | none => simp [hs] at h
  | some m =>
    cases m with
    | none => simp [hs] at h
    | some m => rfl

end

def nixlSidecar {N : Type} (numbers : Json.NumberFormat N) : Env N where
  numbers := numbers
  jsonError _ := []
  urlError _ := []
  isIPv6 _ := false
  proxies _ _ := none
  kvConnector := .nixlV2
  forwardDataParallel := true
  dataParallelProxies _ := false
  sglangBootstrapPort := 8998
  flushable := true

def chatRequest : HttpRequest :=
  { header := [], body := .ok "\x7b\"stream\":true,\"max_tokens\":16,\"prompt\":\"hi\"\x7d".toList }

/-- One response of the prefillers, one of the decoders; `none` breaks off. -/
def answerWith (prefill decode : Option (List WriterCall)) : (c : Call) → Option c.Reply
  | .proxy (.prefiller _) _ _ => prefill
  | .proxy (.encoder _) _ _ | .proxy .decoder _ _ | .proxy (.rank _) _ _ => decode
  | .answer _ => some ()
  | .inspect => some .failed
  | .gather => some none

theorem nixl_request_staged_chat :
    let ans := answerWith (some [.writeHeader 200, .write "\x7b\"kv_transfer_params\":\x7b\"id\":7\x7d\x7d".toList])
      (some [])
    let calls := (((nixlSidecar Json.natFormat).runNIXLProtocolV2 chatRequest oneRoom "10.0.0.7:8000".toList
      .chatCompletions).eval ans).1
    calls.filterMap Call.decodeBody =
      ["\x7b\"kv_transfer_params\":\x7b\"id\":7\x7d,\"max_tokens\":16,\"prompt\":\"hi\",\"stream\":true\x7d".toList] ∧
    (calls.filterMap Call.prefillBody).length = 1 ∧ calls.countP Call.answersClient = 1 := by
  intro ans calls
  obtain ⟨⟨p, -, -, hp⟩, -, hanswered⟩ := nixl_request_staged (nixlSidecar Json.natFormat) chatRequest oneRoom
    "10.0.0.7:8000".toList .chatCompletions ans rfl ((nixlSidecar Json.natFormat).unmarshalMap_eq_some (by decide +kernel))
  rw [if_pos (by decide +kernel)] at hp
  refine ⟨by decide +kernel, congrArg List.length hp, hanswered fun c _ _ => ?_⟩
  cases c with
  | proxy upstream req writer => cases upstream <;> rfl
  | _ => rfl

/-- A prefiller's status 499 does not reach the client; the decoder is
contacted. A response of the prefiller that breaks off leaves the client
without an answer. And a seed that no float holds is another one for the decoder. -/
theorem nixl_client_error_falls_back :
    let calls (prefill : Option (List WriterCall)) := (((nixlSidecar Json.natFormat).runNIXLProtocolV2 chatRequest oneRoom
      "10.0.0.7:8000".toList .chatCompletions).eval (answerWith prefill (some []))).1
    ((calls (some [.writeHeader 499, .write "gone".toList])).filterMap Call.decodeBody).length = 1 ∧
      (calls none).countP Call.answersClient = 0 ∧
      (((nixlSidecar Json.float53).runNIXLProtocolV2 { header := [], body := .ok "\x7b\"seed\":9007199254740993\x7d".toList }
        oneRoom "10.0.0.7:8000".toList .chatCompletions).eval
          (answerWith (some [.write "\x7b\x7d".toList]) (some []))).1.filterMap Call.decodeBody =
        ["\x7b\"kv_transfer_params\":null,\"seed\":9007199254740992\x7d".toList] := by
  decide +kernel

end InferenceScheduler.Sidecar
