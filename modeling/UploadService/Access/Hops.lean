import UploadService.Config.Value

/-!
# Identity along a chain of services

A service that handles a message sends the next one with `MicroserviceClient`, which writes the
identity of the request into the headers; the next service reads it there twice, in
`ProjectAccessGuard` to check it and in `UserContextInterceptor` to keep it for its own messages.
The client and the guard call the token `projectToken`. The interceptor reads `x-project-token`.

Main results:

- `user_along_chain`: the user survives every chain;
- `projectToken_of_two_hops`: no token survives two hops;
- `identity_along_chain_iff`: user and token survive exactly where there is no hop, or one hop and
  the token came under both names.
-/

namespace UploadService

/-! ### Messages -/

inductive Transport where
  | kafka | tcp
  deriving DecidableEq, Repr

/-- A message: its headers, and the payload where there is one. -/
structure Message where
  headers : Object
  value : Option Value
  deriving Repr

/-- What becomes of texts on the way: `JSON.stringify`, and what the parser of the receiving side
makes of a text it got from Kafka. -/
structure MessageCodec where
  stringify : Value → String
  parse : String → Value

/-- The parser reads back the object. -/
def MessageCodec.ReadsBack (codec : MessageCodec) (user : Object) : Prop :=
  codec.parse (codec.stringify (.map user)) = .map user

/-- The store of the asynchronous context, for the handling of one message. -/
structure Cls where
  id : Option String
  user : Option Value
  projectToken : Option Value
  deriving Repr

/-! ### Sending and receiving -/

namespace MicroserviceClient

/-- The headers of `formatDataV2`. -/
def headersV2 (codec : MessageCodec) (transport : Transport) (cls : Cls) : Object :=
  let headers : Object := [("traceId", .str (cls.id.getD ""))]
  let headers := match cls.user with
    | some user => match transport with
      | .kafka => ObjectMap.set headers "user" (.str (codec.stringify user))
      | .tcp => ObjectMap.set headers "user" user
    | none => headers
  match cls.projectToken with
  | some (.str projectToken) => ObjectMap.set headers "projectToken" (.str projectToken)
  | _ => headers

/-- The payload of `formatDataV2`. -/
def valueV2 (codec : MessageCodec) (transport : Transport) (data : Option Value) : Option Value :=
  match data, transport with
  | some (.str s), _ => some (.str s)
  | some data, .kafka => some (.str (codec.stringify data))
  | none, .kafka => some (.str "undefined")
  | data, .tcp => data

def formatDataV2 (codec : MessageCodec) (transport : Transport) (cls : Cls) (data : Option Value) :
    Message := ⟨headersV2 codec transport cls, valueV2 codec transport data⟩

end MicroserviceClient

/-- The parser of the receiving side reads texts from Kafka. -/
def MessageCodec.received (codec : MessageCodec) : Value → Value
  | .str s => codec.parse s
  | v => v

/-- The message as it arrives. -/
def deliver (codec : MessageCodec) (transport : Transport) (message : Message) : Message :=
  match transport with
  | .kafka => ⟨message.headers.map fun e => (e.1, codec.received e.2),
      message.value.map codec.received⟩
  | .tcp => message

def extractHeaders (message : Message) : Object := message.headers

/-- `UserContextInterceptor.intercept`. -/
def intercept (headers : Object) (cls : Cls) : Cls :=
  let user := ObjectMap.get? headers "user"
  let projectToken := ObjectMap.get? headers "x-project-token"
  { cls with
    user := if user.any Value.isTruthy then user else cls.user
    projectToken := if projectToken.any Value.isTruthy then projectToken else cls.projectToken }

/-- One service sends a message to the next while it handles one. -/
structure Hop where
  transport : Transport
  traceId : Option String
  data : Option Value
  deriving Repr

/-- The message that the next service receives. -/
def relay (codec : MessageCodec) (message : Message) (hop : Hop) : Message :=
  let cls := intercept (extractHeaders message) ⟨hop.traceId, none, none⟩
  deliver codec hop.transport
    (MicroserviceClient.formatDataV2 codec hop.transport cls hop.data)

/-- The message that the last service of a chain receives. -/
def chain (codec : MessageCodec) (message : Message) (hops : List Hop) : Message :=
  hops.foldl (relay codec) message

/-- What `ProjectAccessGuard` reads: `headers?.user` and `headers?.projectToken`. -/
def identityOf (message : Message) : Option Value × Option Value :=
  (ObjectMap.get? (extractHeaders message) "user",
    ObjectMap.get? (extractHeaders message) "projectToken")

/-! ### One hop -/

variable {codec : MessageCodec} {message : Message} {user : Object}

/-- The transport of a header. -/
def MessageCodec.carry (codec : MessageCodec) (transport : Transport) (v : Value) : Value :=
  match transport with
  | .kafka => codec.received v
  | .tcp => v

theorem get?_deliver (transport : Transport) (message : Message) (name : String) :
    ObjectMap.get? (deliver codec transport message).headers name =
      (ObjectMap.get? message.headers name).map (codec.carry transport) := by
  cases transport with
  | kafka => exact ObjectMap.get?_map message.headers (fun _ => codec.received) name
  | tcp =>
      show _ = Option.map id _
      rw [Option.map_id]
      rfl

/-- `typeof projectToken === 'string'`. -/
def onlyText : Option Value → Option Value
  | some (.str s) => some (.str s)
  | _ => none

/-- A text from the interceptor is sent as the token, and anything else is not. -/
def sentToken : Option Value → Option Value
  | some (.str s) => if s = "" then none else some (.str s)
  | _ => none

@[simp] theorem sentToken_str {s : String} (hs : s ≠ "") :
    sentToken (some (.str s)) = some (.str s) := by
  show (if s = "" then none else _) = _
  rw [if_neg hs]

/-- The user, as it is written into the headers. -/
def sentUser (codec : MessageCodec) (transport : Transport) (user : Value) : Value :=
  match transport with
  | .kafka => .str (codec.stringify user)
  | .tcp => user

theorem get?_headersV2_user (transport : Transport) (cls : Cls) :
    ObjectMap.get? (MicroserviceClient.headersV2 codec transport cls) "user" =
      cls.user.map (sentUser codec transport) := by
  obtain ⟨id, user, projectToken⟩ := cls
  unfold MicroserviceClient.headersV2
  cases user with
  | none =>
      cases projectToken with
      | none => rfl
      | some v => cases v <;> rfl
  | some u =>
      cases projectToken with
      | none => cases transport <;> rfl
      | some v => cases transport <;> cases v <;> rfl

theorem get?_headersV2_other (transport : Transport) (cls : Cls) :
    ObjectMap.get? (MicroserviceClient.headersV2 codec transport cls) "x-project-token" = none := by
  obtain ⟨id, user, projectToken⟩ := cls
  unfold MicroserviceClient.headersV2
  cases user with
  | none =>
      cases projectToken with
      | none => rfl
      | some v => cases v <;> rfl
  | some u =>
      cases projectToken with
      | none => cases transport <;> rfl
      | some v => cases transport <;> cases v <;> rfl

/-- The token that the client writes is what the interceptor found under its own name. -/
theorem get?_headersV2_token (transport : Transport) (headers : Object) (traceId : Option String) :
    ObjectMap.get? (MicroserviceClient.headersV2 codec transport
      (intercept headers ⟨traceId, none, none⟩)) "projectToken" =
        sentToken (ObjectMap.get? headers "x-project-token") := by
  have hwritten : ∀ cls : Cls, ObjectMap.get? (MicroserviceClient.headersV2 codec transport cls)
      "projectToken" = onlyText cls.projectToken := by
    intro cls
    obtain ⟨id, user, projectToken⟩ := cls
    unfold MicroserviceClient.headersV2
    cases user with
    | none =>
        cases projectToken with
        | none => rfl
        | some v => cases v <;> rfl
    | some u =>
        cases projectToken with
        | none => cases transport <;> rfl
        | some v => cases transport <;> cases v <;> rfl
  rw [hwritten]
  show onlyText (if (ObjectMap.get? headers "x-project-token").any Value.isTruthy then
    ObjectMap.get? headers "x-project-token" else none) = _
  cases ObjectMap.get? headers "x-project-token" with
  | none => rfl
  | some v =>
      cases v with
      | str s =>
          by_cases hs : s = ""
          · rw [hs]
            rfl
          · rw [sentToken_str hs, Option.any_some]
            simp [Value.isTruthy, onlyText, hs]
      | bool b => cases b <;> rfl
      | num lexeme =>
          show onlyText (if (lexeme != "0" && lexeme != "NaN") = true then _ else none) = none
          cases lexeme != "0" && lexeme != "NaN" <;> rfl
      | null => rfl
      | list items => rfl
      | map entries => rfl

/-- **Step.** The user object is read back in the next service. -/
theorem relay_user (hcodec : codec.ReadsBack user) (hop : Hop)
    (huser : ObjectMap.get? message.headers "user" = some (.map user)) :
    ObjectMap.get? (relay codec message hop).headers "user" = some (.map user) := by
  have hkept : (intercept (extractHeaders message) ⟨hop.traceId, none, none⟩).user =
      some (.map user) := by
    show (if (ObjectMap.get? message.headers "user").any Value.isTruthy then
      ObjectMap.get? message.headers "user" else none) = _
    rw [huser]
    rfl
  unfold relay
  rw [get?_deliver]
  show Option.map _ (ObjectMap.get? (MicroserviceClient.headersV2 codec hop.transport _) "user") = _
  rw [get?_headersV2_user, hkept]
  cases hop.transport with
  | kafka => exact congrArg some hcodec
  | tcp => rfl

/-- **Step.** The token of the next service is what came under the other name. -/
theorem relay_token (message : Message) (hop : Hop) :
    ObjectMap.get? (relay codec message hop).headers "projectToken" =
      (sentToken (ObjectMap.get? message.headers "x-project-token")).map
        (codec.carry hop.transport) := by
  unfold relay
  rw [get?_deliver]
  show Option.map _ (ObjectMap.get? (MicroserviceClient.headersV2 codec hop.transport _)
    "projectToken") = _
  rw [get?_headersV2_token]
  rfl

/-- **Step.** Nothing is sent on under the other name. -/
theorem relay_other (message : Message) (hop : Hop) :
    ObjectMap.get? (relay codec message hop).headers "x-project-token" = none := by
  unfold relay
  rw [get?_deliver]
  show Option.map _ (ObjectMap.get? (MicroserviceClient.headersV2 codec hop.transport _)
    "x-project-token") = _
  rw [get?_headersV2_other]
  rfl

/-! ### Chains -/

/-- **Main result.** The user survives every chain. -/
theorem user_along_chain (hcodec : codec.ReadsBack user) (hops : List Hop)
    (huser : ObjectMap.get? message.headers "user" = some (.map user)) :
    ObjectMap.get? (chain codec message hops).headers "user" = some (.map user) := by
  induction hops generalizing message with
  | nil => exact huser
  | cons hop hops ih => exact ih (relay_user hcodec hop huser)

/-- Nothing arrives under the other name after a hop, so nothing is sent as the token after it. -/
theorem projectToken_of_two_hops (message : Message) (first second : Hop) (hops : List Hop) :
    ObjectMap.get? (chain codec message (first :: second :: hops)).headers "projectToken" = none := by
  induction hops generalizing message first second with
  | nil =>
      show ObjectMap.get? (relay codec (relay codec message first) second).headers _ = none
      rw [relay_token, relay_other]
      rfl
  | cons third hops ih => exact ih (relay codec message first) second third

/-- The token came under both names, and arrives as it was. -/
def TokenUnderBothNames (codec : MessageCodec) (transport : Transport) (message : Message)
    (projectToken : String) : Prop :=
  ∃ other, other ≠ "" ∧ ObjectMap.get? message.headers "x-project-token" = some (.str other) ∧
    codec.carry transport (.str other) = .str projectToken

/-- **Main result.** The guard of the last service reads the identity of the first message exactly
where there is no hop, or one hop and the token came under both names. -/
theorem identity_along_chain_iff (codec : MessageCodec) (message : Message) (user : Object)
    (projectToken : String) (hcodec : codec.ReadsBack user)
    (hidentity : identityOf message = (some (.map user), some (.str projectToken)))
    (hops : List Hop) :
    identityOf (chain codec message hops) = (some (.map user), some (.str projectToken)) ↔
      hops = [] ∨ ∃ hop, hops = [hop] ∧
        TokenUnderBothNames codec hop.transport message projectToken := by
  obtain ⟨huser, htoken⟩ := Prod.mk.inj hidentity
  have hkept := user_along_chain hcodec hops huser
  have hiff : identityOf (chain codec message hops) = (some (.map user), some (.str projectToken)) ↔
      ObjectMap.get? (chain codec message hops).headers "projectToken" = some (.str projectToken) := by
    constructor
    · intro h
      exact (Prod.mk.inj h).2
    · intro h
      exact Prod.ext hkept h
  rw [hiff]
  cases hops with
  | nil => exact iff_of_true htoken (.inl rfl)
  | cons first hops =>
      cases hops with
      | nil =>
          show ObjectMap.get? (relay codec message first).headers "projectToken" = _ ↔ _
          rw [relay_token]
          unfold TokenUnderBothNames
          constructor
          · intro h
            right
            refine ⟨first, rfl, ?_⟩
            cases hother : ObjectMap.get? message.headers "x-project-token" with
            | none =>
                rw [hother] at h
                cases h
            | some v =>
                rw [hother] at h
                cases v with
                | str s =>
                    by_cases hs : s = ""
                    · rw [hs] at h
                      cases h
                    · refine ⟨s, hs, rfl, ?_⟩
                      rw [sentToken_str hs] at h
                      exact Option.some.inj h
                | null | bool | num | list | map => cases h
          · rintro (hnil | ⟨hop, hhop, other, hne, hother, hcarry⟩)
            · cases hnil
            · obtain rfl := (List.cons.inj hhop).1
              rw [hother, sentToken_str hne]
              exact congrArg some hcarry
      | cons second hops =>
          rw [projectToken_of_two_hops]
          refine iff_of_false nofun ?_
          rintro (hnil | ⟨hop, hhop, -⟩)
          · cases hnil
          · cases hhop

/-! ### A request with a token -/

/-- A codec for one user: its text, and every other text as it is. -/
def eveCodec : MessageCodec where
  stringify _ := "\x7b\"email\":\"eve\"\x7d"
  parse s := if s = "\x7b\"email\":\"eve\"\x7d" then .map [("email", .str "eve")] else .str s

/-- A message of `eve` with a token of a project. -/
def eveWithToken : Message := ⟨[("user", .map [("email", .str "eve")]), ("projectToken", .str "t")], none⟩

/-- With the token under both names, the second service reads it. -/
theorem token_under_both_names :
    identityOf (chain eveCodec { eveWithToken with
        headers := eveWithToken.headers ++ [("x-project-token", .str "t")] } [⟨.kafka, none, none⟩]) =
      (some (.map [("email", .str "eve")]), some (.str "t")) := by
  apply (identity_along_chain_iff eveCodec { eveWithToken with
    headers := eveWithToken.headers ++ [("x-project-token", .str "t")] } [("email", .str "eve")] "t"
      rfl rfl [⟨.kafka, none, none⟩]).mpr
  exact .inr ⟨⟨.kafka, none, none⟩, rfl, "t", by decide, rfl, rfl⟩

/-- The second service reads no token, over either transport. -/
theorem token_lost_at_first_hop :
    identityOf eveWithToken = (some (.map [("email", .str "eve")]), some (.str "t")) ∧
    identityOf (chain eveCodec eveWithToken [⟨.kafka, none, none⟩]) =
      (some (.map [("email", .str "eve")]), none) ∧
    identityOf (chain eveCodec eveWithToken [⟨.tcp, none, none⟩]) =
      (some (.map [("email", .str "eve")]), none) := by
  refine ⟨rfl, rfl, rfl⟩

end UploadService
