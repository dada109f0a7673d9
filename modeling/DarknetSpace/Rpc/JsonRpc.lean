import DarknetSpace.Chain.Storage
import DarknetSpace.Net.JsonMaps

/-!
# Calls over HTTP (`http_server_handlers_map2.h`, `http_abstract_invoke.h`)

Wallets, miners and pools ask the daemon by POSTs. A command with an URI of its own has its
structures as portable storages; the methods of JSON RPC share one URI, and their structures stand
in an envelope with the name of the method. For the caller it is as if the daemon's callback had
been called on the spot.

A response with neither an error code nor an error text is a success for the client: a callback
that fails has to say why.
-/

namespace DarknetSpace.Rpc

open PortableStorage

/-! ## Envelopes -/

/-- `json_rpc::error`. -/
structure Error where
  code : Int64
  message : Blob
  deriving DecidableEq, Inhabited

/-- `KV` map of `error`. -/
def Error.kvMap : KvMap Error where
  fields := [
    ⟨nameOf "code", _, .int64, code, fun v x => { x with code := v }⟩,
    ⟨nameOf "message", _, .string, message, fun v x => { x with message := v }⟩]
  distinct := by decide
  whole _ _ := rfl

/-- The error that is in a result. -/
def Error.none : Error := ⟨0, []⟩

namespace Error

/-- The body is no JSON. -/
def parseError : Error := ⟨-32700, nameOf "Parse error"⟩

/-- There is no method in the request. -/
def invalidRequest : Error := ⟨-32600, nameOf "Invalid Request"⟩

/-- There is no such method. -/
def methodNotFound : Error := ⟨-32601, nameOf "Method not found"⟩

/-- The parameters cannot be loaded. -/
def invalidParams : Error := ⟨-32602, nameOf "Invalid params"⟩

/-- The handler has failed. -/
def internalError : Error := ⟨-32603, nameOf "Internal error"⟩

end Error

/-- A `storage_entry` that nothing was put into. -/
def noEntry : StorageEntry := .pod .uint64 0

/-- The version that both sides put into the envelope. -/
def version : Blob := nameOf "2.0"

/-- Members under their names; `none` is a member that stores nothing. -/
def storeMembers (members : List (Blob × Option StorageEntry)) : Section :=
  members.foldl (fun s pair => pair.2.elim s (setValue pair.1 · s)) []

/-- `json_rpc::request`; `params` as its members store it. -/
def requestSection (id : StorageEntry) (method : Blob) (params : Option StorageEntry) : Section :=
  storeMembers [(nameOf "jsonrpc", some (.string version)), (nameOf "id", some id),
    (nameOf "method", some (.string method)), (nameOf "params", params)]

/-- `json_rpc::response` with a `dummy_error`. -/
def resultSection (id : StorageEntry) (result : Option StorageEntry) : Section :=
  storeMembers [(nameOf "jsonrpc", some (.string version)), (nameOf "id", some id),
    (nameOf "result", result)]

/-- `json_rpc::error_response`. -/
def errorSection (jsonrpc : Blob) (id : StorageEntry) (e : Error) : Section :=
  storeMembers [(nameOf "jsonrpc", some (.string jsonrpc)), (nameOf "id", some id),
    (nameOf "error", (Kind.object Error.kvMap).toEntry e)]

/-! ## The daemon -/

/-- What comes back over HTTP, as far as it is looked at. -/
structure HttpResponse where
  responseCode : Nat
  body : Blob
  deriving DecidableEq

/-- What a callback leaves behind; `MAP_JON_RPC` hands it no `error`. -/
structure Called (β : Type) where
  ok : Bool
  result : β
  error : Error

/-- A line of the JSON RPC map. -/
structure Method (S : Type) where
  methodName : Blob
  Request : Type
  Response : Type
  request : Kind Request
  response : Kind Response
  newRequest : Request
  newResponse : Response
  callback : Request → S → Called Response × S

/-- `MAP_JON_RPC`: the error does not depend on the callback. -/
def mapJonRpc {S β γ : Type} (methodName : Blob) (request : Kind β) (response : Kind γ)
    (newRequest : β) (newResponse : γ) (callback : β → S → (Bool × γ) × S) : Method S where
  methodName
  Request := β
  Response := γ
  request
  response
  newRequest
  newResponse
  callback req s :=
    let ((ok, result), s) := callback req s
    (⟨ok, result, .internalError⟩, s)

/-- `MAP_JON_RPC_WE`: the callback sets it. -/
def mapJonRpcWe {S β γ : Type} (methodName : Blob) (request : Kind β) (response : Kind γ)
    (newRequest : β) (newResponse : γ) (callback : β → S → Called γ × S) : Method S :=
  ⟨methodName, β, γ, request, response, newRequest, newResponse, callback⟩

/-- `MAP_URI_AUTO_BIN2`. -/
structure BinCommand (S : Type) where
  uri : Blob
  Request : Type
  Response : Type
  request : KvMap Request
  response : KvMap Response
  newRequest : Request
  newResponse : Response
  callback : Request → S → (Bool × Response) × S

/-- The URI map: the commands, and the methods of JSON RPC. -/
structure UriMap (S : Type) where
  commands : List (BinCommand S)
  jsonRpcUri : Blob
  methods : List (Method S)

namespace Method

variable {S : Type}

/-- The `id` and the `params` of a request, as `req.load(ps)` leaves them; the name has been read
before. -/
def loadRequest (m : Method S) (ps : Section) : StorageEntry × PortableStorage.Loaded m.Request :=
  match Kind.string.ofEntry (findStorageEntry (nameOf "jsonrpc") ps) [] with
  | (_, false) => (noEntry, (m.newRequest, false))
  | (_, true) =>
    ((findStorageEntry (nameOf "id") ps).getD noEntry,
      m.request.ofEntry (findStorageEntry (nameOf "params") ps) m.newRequest)

/-- A line of the map, once its method has been asked for. -/
def handle (m : Method S) (ps : Section) (s : S) : Section × S :=
  match m.loadRequest ps with
  | (id, (_, false)) => (errorSection version id .invalidParams, s)
  | (id, (params, true)) =>
    let (called, s) := m.callback params s
    if called.ok then (resultSection id (m.response.toEntry called.result), s)
    else (errorSection version id called.error, s)

end Method

namespace UriMap

variable {S : Type}

/-- `BEGIN_JSON_RPC_MAP` as far as `END_JSON_RPC_MAP`; `none` if an exception gets out: a method's
name that is no string. -/
def handleJsonRpc (d : DoubleText) (map : UriMap S) (body : Blob) (s : S) : Option (Section × S) :=
  match loadFromJson d body with
  | none => some (errorSection [] noEntry .parseError, s)
  | some ps =>
    match findStorageEntry (nameOf "method") ps with
    | none => some (errorSection version noEntry .invalidRequest, s)
    | some (.string callbackName) =>
      match map.methods.find? fun m => m.methodName == callbackName with
      | none =>
        some (errorSection version ((findStorageEntry (nameOf "id") ps).getD (.string []))
          .methodNotFound, s)
      | some m => some (m.handle ps s)
    | some _ => none

end UriMap

/-- A command's own URI: a request that cannot be loaded is not found. -/
def BinCommand.handle {S : Type} (c : BinCommand S) (body : Blob) (s : S) : HttpResponse × S :=
  match c.request.loadTFromBinary c.newRequest body with
  | (_, false) => (⟨404, []⟩, s)
  | (req, true) =>
    let ((ok, resp), s) := c.callback req s
    if ok then (⟨200, (c.response.storeTToBinary resp).getD []⟩, s) else (⟨500, []⟩, s)

namespace UriMap

variable {S : Type}

/-- `handle_http_request`. -/
def handleHttpRequest (d : DoubleText) (map : UriMap S) (uri body : Blob) (s : S) :
    Option (HttpResponse × S) :=
  match map.commands.find? fun c => c.uri == uri with
  | some c => some (c.handle body s)
  | none =>
    if uri = map.jsonRpcUri then
      (map.handleJsonRpc d body s).map fun (rsp, s) => (⟨200, dumpAsJson d rsp 0⟩, s)
    else some (⟨404, []⟩, s)

end UriMap

/-! ## The client -/

/-- A request to an URI and the response there is; the state is the daemon's. -/
abbrev Transport (S : Type) := Blob → Blob → S → Option HttpResponse × S

/-- A connection to the daemon: what is asked is handled, and no exception answers. -/
def UriMap.transport {S : Type} (d : DoubleText) (map : UriMap S) : Transport S := fun uri body s =>
  match map.handleHttpRequest d uri body s with
  | none => (none, s)
  | some (rsp, s) => (some rsp, s)

section Client

variable {S β γ : Type}

/-- `invoke_http_bin_remote_command2`. -/
def invokeHttpBinRemoteCommand2 (transport : Transport S) (request : KvMap β) (response : KvMap γ)
    (url : Blob) (outStruct : β) (resultStruct : γ) (s : S) : PortableStorage.Loaded γ × S :=
  match request.storeTToBinary outStruct with
  | none => ((resultStruct, false), s)
  | some reqParam =>
    match transport url reqParam s with
    | (none, s) => ((resultStruct, false), s)
    | (some rsp, s) =>
      if rsp.responseCode ≠ 200 then ((resultStruct, false), s)
      else (response.loadTFromBinary resultStruct rsp.body, s)

/-- `json_rpc::response` with an `error`: the result and the error as the client loads them. -/
def loadResponse (response : Kind γ) (newResult : γ) (ps : Section) :
    PortableStorage.Loaded (γ × Error) :=
  match Kind.string.ofEntry (findStorageEntry (nameOf "jsonrpc") ps) [] with
  | (_, false) => ((newResult, .none), false)
  | (_, true) =>
    match response.ofEntry (findStorageEntry (nameOf "result") ps) newResult with
    | (result, false) => ((result, .none), false)
    | (result, true) =>
      ((Kind.object Error.kvMap).ofEntry (findStorageEntry (nameOf "error") ps) .none).map
        (fun e => (result, e)) id

/-- `invoke_http_json_rpc`, with `invoke_http_json_remote_command2`. -/
def invokeHttpJsonRpc (d : DoubleText) (transport : Transport S) (request : Kind β)
    (response : Kind γ) (newResult : γ) (url methodName reqId : Blob) (outStruct : β)
    (resultStruct : γ) (s : S) : PortableStorage.Loaded γ × S :=
  let reqParam :=
    dumpAsJson d (requestSection (.string reqId) methodName (request.toEntry outStruct)) 0
  match transport url reqParam s with
  | (none, s) => ((resultStruct, false), s)
  | (some rsp, s) =>
    if rsp.responseCode ≠ 200 then ((resultStruct, false), s)
    else
      match loadFromJson d rsp.body with
      | none => ((resultStruct, false), s)
      | some ps =>
        match loadResponse response newResult ps with
        | (_, false) => ((resultStruct, false), s)
        | ((result, e), true) =>
          if e.code ≠ 0 ∨ e.message ≠ [] then ((resultStruct, false), s)
          else ((result, true), s)

end Client

/-! ## What is heard of an envelope -/

/-- A member is found under its name, if the names are different. -/
theorem find_storeMembers {members : List (Blob × Option StorageEntry)}
    (hdistinct : (members.map Prod.fst).Nodup) (name : Blob) :
    findStorageEntry name (storeMembers members) = (members.lookup name).join := by
  have hfold : ∀ s : Section, findStorageEntry name
      (members.foldl (fun s pair => pair.2.elim s (setValue pair.1 · s)) s) =
        (members.lookup name).join.or (findStorageEntry name s) := by
    induction members with
    | nil => exact fun _ => rfl
    | cons head members ih =>
      intro s
      obtain ⟨name', e⟩ := head
      obtain ⟨hnew, hdistinct⟩ := List.nodup_cons.1 hdistinct
      rw [List.foldl_cons, ih hdistinct, List.lookup_cons]
      by_cases hname : name = name'
      · subst hname
        have hnone : members.lookup name = none := by
          refine List.lookup_eq_none_iff.2 fun pair hpair => bne_iff_ne.2 fun heq => hnew ?_
          exact List.mem_map.2 ⟨pair, hpair, heq.symm⟩
        rw [hnone, beq_self_eq_true]
        cases e with
        | none => rfl
        | some e =>
          show findStorageEntry name (setValue name e s) = some e
          rw [find_setValue, if_pos rfl]
      · rw [beq_false_of_ne hname]
        cases e with
        | none => rfl
        | some e =>
          show _ = (members.lookup name).join.or _
          rw [show findStorageEntry name ((some e).elim s (setValue name' · s)) =
            findStorageEntry name (setValue name' e s) from rfl, find_setValue,
            if_neg fun heq => hname heq.symm]
  rw [storeMembers, hfold]
  exact Option.or_none

/-- What the members of an envelope need to be for the other side to hear them. -/
def Speakable (members : List (Blob × Option StorageEntry)) : Prop :=
  (members.map Prod.fst).Nodup ∧ ∀ pair ∈ members, ∀ e, pair.2 = some e →
    Ordinary e ∧ ∃ e', asJson e = some (some e')

/-- An entry as the other side has it. -/
def heard (e : StorageEntry) : Option StorageEntry := (asJson e).getD none

/-- Storing the members makes a sorted section of them and of nothing else. -/
theorem storeMembers_keeps {members : List (Blob × Option StorageEntry)} {s : Section}
    (hsorted : Sorted s) :
    Sorted (members.foldl (fun s pair => pair.2.elim s (setValue pair.1 · s)) s) ∧
      ∀ pair ∈ members.foldl (fun s pair => pair.2.elim s (setValue pair.1 · s)) s,
        pair ∈ s ∨ (pair.1, some pair.2) ∈ members := by
  induction members generalizing s with
  | nil => exact ⟨hsorted, fun pair hpair => .inl hpair⟩
  | cons head members ih =>
    obtain ⟨name, e⟩ := head
    cases e with
    | none =>
      obtain ⟨hs, hmem⟩ := ih hsorted
      exact ⟨hs, fun pair hpair => (hmem pair hpair).imp_right (List.mem_cons_of_mem _)⟩
    | some e =>
      obtain ⟨hs, hmem⟩ := ih (hsorted.setValue name e)
      refine ⟨hs, fun pair hpair => ?_⟩
      rcases hmem pair hpair with hset | hmore
      · rcases mem_setValue hset with rfl | hold
        · exact .inr (List.mem_cons_self ..)
        · exact .inl hold
      · exact .inr (List.mem_cons_of_mem _ hmore)

/-- A section that can be spoken is heard with all its members. -/
theorem Speakable.heard {members : List (Blob × Option StorageEntry)} (h : Speakable members)
    (d : DoubleText) :
    ∃ ps, loadFromJson d (dumpAsJson d (storeMembers members) 0) = some ps ∧
      ∀ name, findStorageEntry name ps = (members.lookup name).join.bind Rpc.heard := by
  obtain ⟨hsorted, hmem⟩ : Sorted (storeMembers members) ∧
      ∀ pair ∈ storeMembers members, pair ∈ [] ∨ (pair.1, some pair.2) ∈ members :=
    storeMembers_keeps List.Pairwise.nil
  have hentries : ∀ pair ∈ storeMembers members,
      Ordinary pair.2 ∧ ∃ e', asJson pair.2 = some (some e') := by
    intro pair hpair
    rcases hmem pair hpair with hnil | hmember
    · exact absurd hnil List.not_mem_nil
    · exact h.2 _ hmember pair.2 rfl
  obtain ⟨ps, hps, hfind⟩ := asJsonEntries_finds fun pair hpair => (hentries pair hpair).2
  refine ⟨ps, ?_, fun name => ?_⟩
  · have hordinary : Ordinary (.object (storeMembers members)) :=
      ⟨hsorted, ordinaryEntries_of fun pair hpair => (hentries pair hpair).1⟩
    have hread := loadFromJson_dumpAsJson (d := d) hordinary 0 []
    rw [List.append_nil] at hread
    exact hread.trans hps
  · rw [hfind, find_storeMembers h.1]
    rfl

theorem speaks_string (s : Blob) {e : StorageEntry} (h : some (StorageEntry.string s) = some e) :
    Ordinary e ∧ ∃ e', asJson e = some (some e') := by
  cases h
  exact ⟨trivial, _, rfl⟩

theorem speaks_kind {β : Type} {k : Kind β} (hk : k.SpeaksJson) {x : β} {e : StorageEntry}
    (h : k.toEntry x = some e) : Ordinary e ∧ ∃ e', asJson e = some (some e') := by
  obtain ⟨hordinary, e', he, -⟩ := hk x e h
  exact ⟨hordinary, e', he⟩

/-- A member that has come over is loaded as it was. -/
theorem ofEntry_heard {β : Type} {k : Kind β} (hk : k.SpeaksJson) (x old : β) :
    k.ofEntry ((k.toEntry x).bind heard) old = (x, true) := by
  cases hentry : k.toEntry x with
  | none =>
    have hback := k.back x old
    rw [hentry] at hback
    exact hback
  | some e =>
    obtain ⟨-, e', he, hback⟩ := hk x e hentry
    rw [Option.bind_some, heard, he]
    exact hback old

theorem Error.plain : Error.kvMap.Plain := by
  intro f hf
  simp only [Error.kvMap, List.mem_cons, List.not_mem_nil, or_false] at hf
  rcases hf with rfl | rfl
  · exact Kind.plain_int64
  · exact .string

/-- The envelope of a request can be spoken. -/
theorem speakable_request (id method : Blob) {β : Type} {k : Kind β} (hk : k.SpeaksJson) (x : β) :
    Speakable [(nameOf "jsonrpc", some (.string version)), (nameOf "id", some (.string id)),
      (nameOf "method", some (.string method)), (nameOf "params", k.toEntry x)] := by
  refine ⟨?_, fun pair hpair e he => ?_⟩
  · show [nameOf "jsonrpc", nameOf "id", nameOf "method", nameOf "params"].Nodup
    decide
  simp only [List.mem_cons, List.not_mem_nil, or_false] at hpair
  rcases hpair with rfl | rfl | rfl | rfl
  · exact speaks_string _ he
  · exact speaks_string _ he
  · exact speaks_string _ he
  · exact speaks_kind hk he

/-- So can that of a response. -/
theorem speakable_response (id name : Blob) {β : Type} {k : Kind β} (hk : k.SpeaksJson) (x : β)
    (hname : [nameOf "jsonrpc", nameOf "id", name].Nodup) :
    Speakable [(nameOf "jsonrpc", some (.string version)), (nameOf "id", some (.string id)),
      (name, k.toEntry x)] := by
  refine ⟨hname, fun pair hpair e he => ?_⟩
  simp only [List.mem_cons, List.not_mem_nil, or_false] at hpair
  rcases hpair with rfl | rfl | rfl
  · exact speaks_string _ he
  · exact speaks_string _ he
  · exact speaks_kind hk he

/-! ## One call -/

section Calls

variable {S : Type} {d : DoubleText} {map : UriMap S}

/-- A method that can be called: it is the one of its name, what it is given and gives can be said
in JSON, and it says why it fails. -/
structure UriMap.Serves (map : UriMap S) (m : Method S) : Prop where
  ownUri : map.commands.find? (fun c => c.uri == map.jsonRpcUri) = none
  found : map.methods.find? (fun x => x.methodName == m.methodName) = some m
  request : m.request.Plain
  response : m.response.Plain
  explains : ∀ params s, (m.callback params s).1.ok = false → (m.callback params s).1.error ≠ .none

/-- The daemon's answer to a request. -/
theorem handleJsonRpc_request {m : Method S} (h : map.Serves m) (id : Blob) (params : m.Request)
    (s : S) :
    map.handleJsonRpc d (dumpAsJson d
      (requestSection (.string id) m.methodName (m.request.toEntry params)) 0) s =
        some (if (m.callback params s).1.ok then
            (resultSection (.string id) (m.response.toEntry (m.callback params s).1.result),
              (m.callback params s).2)
          else (errorSection version (.string id) (m.callback params s).1.error,
            (m.callback params s).2)) := by
  obtain ⟨ps, hps, hfind⟩ := (speakable_request id m.methodName h.request.speaksJson params).heard d
  have hmethod : findStorageEntry (nameOf "method") ps = some (.string m.methodName) :=
    (hfind _).trans rfl
  have hjsonrpc : findStorageEntry (nameOf "jsonrpc") ps = some (.string version) :=
    (hfind _).trans rfl
  have hid : findStorageEntry (nameOf "id") ps = some (.string id) := (hfind _).trans rfl
  have hparams : findStorageEntry (nameOf "params") ps = (m.request.toEntry params).bind heard :=
    (hfind _).trans rfl
  have hload : m.loadRequest ps = (.string id, (params, true)) := by
    unfold Method.loadRequest
    rw [hjsonrpc, hid, hparams, ofEntry_heard h.request.speaksJson]
    rfl
  unfold UriMap.handleJsonRpc
  rw [requestSection, hps]
  simp only
  rw [hmethod]
  simp only
  rw [h.found]
  simp only
  unfold Method.handle
  rw [hload]

/-- A result is loaded from the envelope it was put into, and no error. -/
theorem loadResponse_result {β : Type} {k : Kind β} (hk : k.SpeaksJson) (id : Blob) (x new : β) :
    ∃ ps, loadFromJson d (dumpAsJson d (resultSection (.string id) (k.toEntry x)) 0) = some ps ∧
      loadResponse k new ps = ((x, .none), true) := by
  obtain ⟨ps, hps, hfind⟩ := (speakable_response id (nameOf "result") hk x (by decide)).heard d
  refine ⟨ps, hps, ?_⟩
  have hjsonrpc : findStorageEntry (nameOf "jsonrpc") ps = some (.string version) :=
    (hfind _).trans rfl
  have hresult : findStorageEntry (nameOf "result") ps = (k.toEntry x).bind heard :=
    (hfind _).trans rfl
  have herror : findStorageEntry (nameOf "error") ps = none := (hfind _).trans rfl
  unfold loadResponse
  rw [hjsonrpc, hresult, herror, ofEntry_heard hk]
  rfl

/-- An error arrives, unless loading ends before it. -/
theorem loadResponse_error {β : Type} (k : Kind β) (id : Blob) (e : Error) (new : β) :
    ∃ ps, loadFromJson d (dumpAsJson d (errorSection version (.string id) e) 0) = some ps ∧
      ((loadResponse k new ps).2 = false ∨ (loadResponse k new ps).1.2 = e) := by
  have hk := Kind.speaksJson_object Error.plain.speaksJson
  obtain ⟨ps, hps, hfind⟩ := (speakable_response id (nameOf "error") hk e (by decide)).heard d
  refine ⟨ps, hps, ?_⟩
  have hjsonrpc : findStorageEntry (nameOf "jsonrpc") ps = some (.string version) :=
    (hfind _).trans rfl
  have herror : findStorageEntry (nameOf "error") ps =
      ((Kind.object Error.kvMap).toEntry e).bind heard := (hfind _).trans rfl
  unfold loadResponse
  rw [hjsonrpc, herror, ofEntry_heard hk]
  simp only [Kind.string]
  cases k.ofEntry (findStorageEntry (nameOf "result") ps) new with
  | mk result ok =>
    cases ok with
    | false => exact .inl rfl
    | true => exact .inr rfl

/-- The URI of JSON-RPC is served by its handler, unless a command has the same URI. -/
theorem transport_jsonRpc (hown : map.commands.find? (fun c => c.uri == map.jsonRpcUri) = none)
    {body : Blob} {s s' : S} {rsp : Section}
    (hhandled : map.handleJsonRpc d body s = some (rsp, s')) :
    map.transport d map.jsonRpcUri body s = (some ⟨200, dumpAsJson d rsp 0⟩, s') := by
  unfold UriMap.transport UriMap.handleHttpRequest
  rw [hown]
  simp only
  rw [if_pos trivial, hhandled]
  rfl

/-- A call over HTTP is one call of the callback. -/
theorem invokeHttpJsonRpc_served {m : Method S} (h : map.Serves m) (reqId : Blob)
    (params : m.Request) (resultStruct : m.Response) (s : S) :
    invokeHttpJsonRpc d (map.transport d) m.request m.response m.newResponse map.jsonRpcUri
      m.methodName reqId params resultStruct s =
        (if (m.callback params s).1.ok then ((m.callback params s).1.result, true)
          else (resultStruct, false), (m.callback params s).2) := by
  have hhandled := handleJsonRpc_request (d := d) h reqId params s
  cases hok : (m.callback params s).1.ok with
  | true =>
    rw [if_pos hok] at hhandled
    obtain ⟨ps, hps, hload⟩ := loadResponse_result (d := d) h.response.speaksJson reqId
      (m.callback params s).1.result m.newResponse
    unfold invokeHttpJsonRpc
    simp only
    rw [transport_jsonRpc h.ownUri hhandled]
    simp only
    rw [if_neg (by decide), hps]
    simp only
    rw [hload]
    rfl
  | false =>
    rw [if_neg (ne_true_of_eq_false hok)] at hhandled
    obtain ⟨ps, hps, hload⟩ := loadResponse_error (d := d) m.response reqId
      (m.callback params s).1.error m.newResponse
    have hexplains := h.explains params s hok
    unfold invokeHttpJsonRpc
    simp only
    rw [transport_jsonRpc h.ownUri hhandled]
    simp only
    rw [if_neg (by decide), hps, if_neg Bool.false_ne_true]
    simp only
    split
    · rfl
    · rename_i result e heq
      rw [heq] at hload
      rcases hload with hfalse | rfl
      · cases hfalse
      · refine if_pos ?_
        by_contra hnot
        obtain ⟨hcode, hmessage⟩ := not_or.1 hnot
        refine hexplains ?_
        show (m.callback params s).1.error = ⟨0, []⟩
        rw [← not_not.1 hcode, ← not_not.1 hmessage]

end Calls

/-! ## Whole programs -/

section Programs

variable {S α : Type} {d : DoubleText} {map : UriMap S}

/-- A structure that can be stored, and loaded again. -/
structure Fits {β : Type} (m : KvMap β) (x : β) : Prop where
  need : m.need < recursionBudget
  stored : ∃ bytes, m.storeTToBinary x = some bytes ∧ bytes.length < maxStringLenPossible

theorem Fits.comes_back {β : Type} {m : KvMap β} {x : β} (h : Fits m x) :
    ∃ bytes, m.storeTToBinary x = some bytes ∧ ∀ out, m.loadTFromBinary out bytes = (x, true) := by
  obtain ⟨bytes, hstore, hlen⟩ := h.stored
  refine ⟨bytes, hstore, fun out => ?_⟩
  have hload := m.loadTFromBinary_storeTToBinary h.need hstore hlen [] out
  rwa [List.append_nil] at hload

/-- A command that can be asked this: it is the one at its URI, and what is said fits. -/
structure UriMap.Offers (map : UriMap S) (c : BinCommand S) (req : c.Request) : Prop where
  found : map.commands.find? (fun x => x.uri == c.uri) = some c
  asked : Fits c.request req
  answered : ∀ s, (c.callback req s).1.1 = true → Fits c.response (c.callback req s).1.2

/-- So is a command's call. -/
theorem invokeHttpBinRemoteCommand2_offered {c : BinCommand S} {req : c.Request}
    (h : map.Offers c req) (resultStruct : c.Response) (s : S) :
    invokeHttpBinRemoteCommand2 (map.transport d) c.request c.response c.uri req resultStruct s =
      (if (c.callback req s).1.1 then ((c.callback req s).1.2, true) else (resultStruct, false),
        (c.callback req s).2) := by
  obtain ⟨bytes, hstore, hload⟩ := h.asked.comes_back
  have hhandle : map.transport d c.uri bytes s =
      (some (c.handle bytes s).1, (c.handle bytes s).2) := by
    unfold UriMap.transport UriMap.handleHttpRequest
    rw [h.found]
  unfold invokeHttpBinRemoteCommand2
  rw [hstore]
  simp only
  rw [hhandle]
  simp only
  unfold BinCommand.handle
  rw [hload]
  simp only
  cases hok : (c.callback req s).1.1 with
  | true =>
    obtain ⟨rsp, hrsp, hback⟩ := (h.answered s hok).comes_back
    rw [if_pos rfl, if_pos rfl, hrsp]
    show (if (200 : Nat) ≠ 200 then _ else (c.response.loadTFromBinary resultStruct rsp, _)) = _
    rw [if_neg (by decide), hback]
  | false =>
    rw [if_neg Bool.false_ne_true, if_neg Bool.false_ne_true]
    exact if_pos (show (500 : Nat) ≠ 200 by decide)

/-- What a client does: it asks, and goes on with the result it gets, if it gets one. -/
inductive Program (S α : Type) : Type 1 where
  | done (a : α)
  | askMethod (m : Method S) (reqId : Blob) (params : m.Request)
      (next : Option m.Response → Program S α)
  | askCommand (c : BinCommand S) (req : c.Request) (next : Option c.Response → Program S α)

/-- A result that there is only if the call has succeeded. -/
def given {β : Type} : PortableStorage.Loaded β → Option β
  | (x, true) => some x
  | (_, false) => none

namespace Program

/-- Asking by HTTP. -/
def overHttp (d : DoubleText) (map : UriMap S) : Program S α → S → α × S
  | done a, s => (a, s)
  | askMethod m reqId params next, s =>
    let (result, s) := invokeHttpJsonRpc d (map.transport d) m.request m.response m.newResponse
      map.jsonRpcUri m.methodName reqId params m.newResponse s
    (next (given result)).overHttp d map s
  | askCommand c req next, s =>
    let (result, s) := invokeHttpBinRemoteCommand2 (map.transport d) c.request c.response c.uri req
      c.newResponse s
    (next (given result)).overHttp d map s

/-- Calling the callbacks. -/
def onTheSpot : Program S α → S → α × S
  | done a, s => (a, s)
  | askMethod m _ params next, s =>
    let (called, s) := m.callback params s
    (next (given (called.result, called.ok))).onTheSpot s
  | askCommand c req next, s =>
    let ((ok, result), s) := c.callback req s
    (next (given (result, ok))).onTheSpot s

/-- Whatever it is told, the program asks for what there is. -/
def Served (map : UriMap S) : Program S α → Prop
  | done _ => True
  | askMethod m _ _ next => map.Serves m ∧ ∀ result, (next result).Served map
  | askCommand c req next => map.Offers c req ∧ ∀ result, (next result).Served map

/-- The daemon is as good as on the spot. -/
theorem overHttp_eq {p : Program S α} (h : p.Served map) (s : S) :
    p.overHttp d map s = p.onTheSpot s := by
  induction p generalizing s with
  | done a => rfl
  | askMethod m reqId params next ih =>
    obtain ⟨hm, hnext⟩ := h
    have hgiven : given (if (m.callback params s).1.ok then ((m.callback params s).1.result, true)
        else (m.newResponse, false)) =
          given ((m.callback params s).1.result, (m.callback params s).1.ok) := by
      cases (m.callback params s).1.ok <;> rfl
    rw [overHttp, invokeHttpJsonRpc_served hm, onTheSpot]
    simp only
    rw [hgiven]
    exact ih _ (hnext _) _
  | askCommand c req next ih =>
    obtain ⟨hc, hnext⟩ := h
    have hgiven : given (if (c.callback req s).1.1 then ((c.callback req s).1.2, true)
        else (c.newResponse, false)) =
          given ((c.callback req s).1.2, (c.callback req s).1.1) := by
      cases (c.callback req s).1.1 <;> rfl
    rw [overHttp, invokeHttpBinRemoteCommand2_offered hc, onTheSpot]
    simp only
    rw [hgiven]
    exact ih _ (hnext _) _

end Program

end Programs

/-! ## `getblockcount` -/

section BlockCount

/-- `COMMAND_RPC_GETBLOCKCOUNT::response`. -/
structure BlockCount where
  count : UInt64
  status : Blob
  deriving DecidableEq, Inhabited

/-- `KV` map of the response of `COMMAND_RPC_GETBLOCKCOUNT`. -/
def BlockCount.kvMap : KvMap BlockCount where
  fields := [
    ⟨nameOf "count", _, .uint64, count, fun v x => { x with count := v }⟩,
    ⟨nameOf "status", _, .string, status, fun v x => { x with status := v }⟩]
  distinct := by decide
  whole _ _ := rfl

/-- `on_getblockcount`; a core that is not ready says so, and the call succeeds. -/
def onGetblockcount (coreReady : Bool) (_ : List Blob) (s : Storage) :
    (Bool × BlockCount) × Storage :=
  if coreReady then ((true, ⟨UInt64.ofNat s.getCurrentBlockchainHeight, nameOf "OK"⟩), s)
  else ((true, ⟨0, nameOf "BUSY"⟩), s)

/-- The method of `on_getblockcount`. -/
def getblockcount (coreReady : Bool) : Method Storage :=
  mapJonRpc (nameOf "getblockcount") .strings (.object BlockCount.kvMap) [] default
    (onGetblockcount coreReady)

theorem BlockCount.plain : BlockCount.kvMap.Plain := by
  intro f hf
  simp only [BlockCount.kvMap, List.mem_cons, List.not_mem_nil, or_false] at hf
  rcases hf with rfl | rfl
  · exact Kind.plain_uint64
  · exact .string

/-- The part of the map that has the method. -/
def blockCountMap (coreReady : Bool) : UriMap Storage :=
  ⟨[], nameOf "/json_rpc", [getblockcount coreReady]⟩

/-- The server of the example has the method. -/
theorem serves_getblockcount (coreReady : Bool) :
    (blockCountMap coreReady).Serves (getblockcount coreReady) where
  ownUri := rfl
  found := rfl
  request := .strings
  response := .object BlockCount.plain
  explains _ _ _ := show Error.internalError ≠ Error.none by decide

/-- A client that asks how long the chain is. -/
def askHeight (coreReady : Bool) : Program Storage (Option UInt64) :=
  .askMethod (getblockcount coreReady) [48] [] fun result => .done (result.map BlockCount.count)

theorem served_askHeight (coreReady : Bool) :
    (askHeight coreReady).Served (blockCountMap coreReady) :=
  ⟨serves_getblockcount coreReady, fun _ => trivial⟩

/-- The height of an empty chain, asked for over HTTP. -/
theorem overHttp_eq_blockCount :
    (askHeight true).overHttp noDoubles (blockCountMap true) (Storage.empty ∅) =
      (some 0, Storage.empty ∅) :=
  (Program.overHttp_eq (served_askHeight true) _).trans rfl

end BlockCount

end DarknetSpace.Rpc
