import UploadService.Json

/-!
# Errors between services

A service throws an error to its caller as a text: `CustomRpcExceptionFilter` writes the error as
JSON and puts that as the message of another JSON text. `handleRpcError` looks in what a caller
received, a text or an object, for an error with an error code in five places.

Main result: `appError_survives_iff`, an error comes back exactly where its data counts as true or
is missing, and its status code is a finite number other than 0 or is missing.
-/

namespace UploadService

inductive ErrorCode where
  | appOther | dlvOther | dlvNotFound | dlvDownload | dlvDownloadNotAvailable | dlvCNotExist
  | dlvCInvalid | dlvCNotVerified | dlvCPackageTooLarge | dlvCClearIssue | pmOther
  | pmDeleteProjectFailed | pmWebhookInvalid | pmLabelNotFound | pmLabelAlreadyExists
  | pmLabelInUse | mapOther | mapNotFound | mapBboxInvalid | mapBboxNotInPolygon
  | getRecordsFailed | mapExportFailed | mapRequestedInProcessing | mapAreaTooLarge
  | mapAreaTooSmall | deviceNotFound | deviceHasChildren | deviceDtNotFound
  | deviceDtAlreadyExists | devicePlatformNotFound | devicePlatformAlreadyExists | groupNotFound
  | groupNotAllowedToAdd | groupOrgIdUnknown | groupOrgIdNotAllowed | groupOrgIdConflict
  | groupOrgIdNotFound | ruleValidationFailed | ruleFieldNotSupported | ruleFieldAlreadyExists
  | ruleFieldNotFound | releaseHasDependents
  deriving DecidableEq, Repr

def ErrorCode.value : ErrorCode → String
  | appOther => "APP.unknown"
  | dlvOther => "DELIVERY.unknown"
  | dlvNotFound => "DELIVERY.notFound"
  | dlvDownload => "DELIVERY.download"
  | dlvDownloadNotAvailable => "DELIVERY.downloadNotAvailable"
  | dlvCNotExist => "DELIVERY.notExist"
  | dlvCInvalid => "DELIVERY.invalid"
  | dlvCNotVerified => "DELIVERY.notVerified"
  | dlvCPackageTooLarge => "DELIVERY.packageTooLarge"
  | dlvCClearIssue => "DELIVERY.unableClearCache"
  | pmOther => "PROJECT_MANAGEMENT.unknown"
  | pmDeleteProjectFailed => "PROJECT_MANAGEMENT.deleteProjectFailed"
  | pmWebhookInvalid => "PROJECT_MANAGEMENT.webhookInvalid"
  | pmLabelNotFound => "PROJECT_MANAGEMENT.labelNotFound"
  | pmLabelAlreadyExists => "PROJECT_MANAGEMENT.labelAlreadyExists"
  | pmLabelInUse => "PROJECT_MANAGEMENT.labelInUse"
  | mapOther => "MAP.unknown"
  | mapNotFound => "MAP.notFound"
  | mapBboxInvalid => "MAP.bBoxIsInvalid"
  | mapBboxNotInPolygon => "MAP.bBoxNotInAnyPolygon"
  | getRecordsFailed => "MAP.getRecordsFailed"
  | mapExportFailed => "MAP.exportMapFailed"
  | mapRequestedInProcessing => "MAP.requestInProgress"
  | mapAreaTooLarge => "MAP.areaTooLarge"
  | mapAreaTooSmall => "MAP.areaTooSmall"
  | deviceNotFound => "DEVICE.notFound"
  | deviceHasChildren => "DEVICE.hasChildren"
  | deviceDtNotFound => "DEVICE_TYPE.notFound"
  | deviceDtAlreadyExists => "DEVICE_TYPE.alreadyExists"
  | devicePlatformNotFound => "DEVICE_PLATFORM.notFound"
  | devicePlatformAlreadyExists => "DEVICE_PLATFORM.alreadyExists"
  | groupNotFound => "GROUP.notFound"
  | groupNotAllowedToAdd => "GROUP.notAllowedToAdd"
  | groupOrgIdUnknown => "GROUP.orgIdUnknown"
  | groupOrgIdNotAllowed => "GROUP.orgIdNotAllowed"
  | groupOrgIdConflict => "GROUP.orgIdConflict"
  | groupOrgIdNotFound => "GROUP.orgIdNotFound"
  | ruleValidationFailed => "RULE.validationFailed"
  | ruleFieldNotSupported => "RULE.fieldNotSupported"
  | ruleFieldAlreadyExists => "RULE.fieldAlreadyExists"
  | ruleFieldNotFound => "RULE.fieldNotFound"
  | releaseHasDependents => "RELEASE.hasDependents"

/-- What `new AppError` stores. -/
structure AppError where
  errorCode : Value
  message : String
  statusCode : Option Value
  data : Option Value
  deriving DecidableEq, Repr

/-- `new AppError(errorCode, message, statusCode, data)`; the message becomes a text. -/
def AppError.create (errorCode : Value) (message statusCode data : Option Value) : AppError where
  errorCode := errorCode
  message := (message.map Value.toText).getD ""
  statusCode := statusCode
  data := data

/-- `a || b`. -/
def Value.or (a b : Option Value) : Option Value := if a.any Value.isTruthy then a else b

/-- An object of which the fields that are `undefined` are left out, as in its text. -/
def Value.ofFields (fields : List (String × Option Value)) : Value :=
  .map (fields.filterMap fun field => field.2.map fun v => (field.1, v))

/-! ### The filter -/

namespace CustomRpcExceptionFilter

inductive RpcFailure where
  | app (exception : AppError)
  | http (name message : String) (response : Value) (status : ℕ)
  | other (name message : String)
  deriving Repr

def name : RpcFailure → String
  | .app _ => "AppError"
  | .http name .. | .other name _ => name

def message : RpcFailure → String
  | .app exception => exception.message
  | .http _ message .. | .other _ message => message

def errorData : RpcFailure → Value
  | .app exception => .ofFields [("errorCode", some exception.errorCode),
      ("message", some (.str exception.message)), ("data", exception.data)]
  | .http _ _ response _ => response
  | .other .. => .map []

def statusCode : RpcFailure → Option Value
  | .app exception => Value.or exception.statusCode (some (.num "500"))
  | .http _ _ _ status => some (.num (toString status))
  | .other .. => some (.num "500")

def errorCode : RpcFailure → Option Value
  | .app exception => some exception.errorCode
  | _ => none

/-- The object written as the message. -/
def details (exception : RpcFailure) (stack : Option String) : Value :=
  .ofFields [("code", statusCode exception), ("message", some (.str (message exception))),
    ("errorCode", errorCode exception), ("stack", stack.map .str),
    ("error_data", some (errorData exception))]

/-- What `catch` throws. The stack of an error is not among what is written of it. -/
def catchException (exception : RpcFailure) (stack : Option String) : String :=
  (Value.map [("name", .str (name exception)),
    ("message", .str (details exception stack).json)]).json

end CustomRpcExceptionFilter

/-! ### The handler -/

namespace RpcErrorHandler

/-- An instance of `Error`, with its properties. -/
inductive ErrorInstance where
  | app (error : AppError)
  | plain (properties : Object)
  deriving Repr

/-- What a caller catches; a value that is no instance may be `undefined`. -/
inductive RpcError where
  | ofInstance (error : ErrorInstance)
  | ofValue (error : Option Value)
  deriving Repr

/-- `error?.[key]`. -/
def read (error : RpcError) (key : String) : Option Value :=
  match error with
  | .ofInstance (.app error) =>
      if key = "errorCode" then some error.errorCode
      else if key = "message" then some (.str error.message)
      else if key = "statusCode" then error.statusCode
      else if key = "data" then error.data
      else none
  | .ofInstance (.plain properties) => ObjectMap.get? properties key
  | .ofValue error => error.bind fun v => v.member key

/-- The error in a parsed text, which has an error code of its own. -/
def fromParsed (parsed : Value) : Option AppError :=
  match Value.or (parsed.member "errorCode") none with
  | none => none
  | some errorCode => some (.create errorCode (parsed.member "message")
      (Value.or (parsed.member "code") (Value.or (parsed.member "statusCode") (some (.num "500"))))
      (Value.or ((parsed.member "error_data").bind fun v => v.member "data")
        (parsed.member "data")))

/-- The error in a message that is itself a text. -/
def fromMessage (message : Option Value) : Option AppError :=
  match message with
  | some (.str text) => if text = "" then none else (JSON.parse text).bind fromParsed
  | _ => none

/-- The error in a message that is an object. -/
def fromMessageObject (message : Option Value) : Option AppError :=
  match message with
  | some (.map fields) =>
      (ObjectMap.get? fields "errorCode").map fun errorCode => .create errorCode
        (Value.or (ObjectMap.get? fields "message") (ObjectMap.get? fields "errorMessage"))
        (Value.or (ObjectMap.get? fields "statusCode")
          (Value.or (ObjectMap.get? fields "code") (some (.num "500"))))
        (ObjectMap.get? fields "data")
  | _ => none

/-- The error that has an error code itself. -/
def fromError (error : RpcError) : Option AppError :=
  match error, Value.or (read error "errorCode") none with
  | _, none => none
  | .ofInstance (.app error), _ => some error
  | error, some errorCode => some (.create errorCode (read error "message")
      (Value.or (read error "statusCode") (Value.or (read error "code") (some (.num "500"))))
      (read error "data"))

/-- The places in a text: the message in it, and the text itself. -/
def fromText (error : RpcError) : Option AppError :=
  match error with
  | .ofValue (some (.str text)) =>
      (JSON.parse text).bind fun parsed =>
        (fromMessage (parsed.member "message")).or (fromParsed parsed)
  | _ => none

/-- The error where none of the places has one. -/
def plainError (error : RpcError) : ErrorInstance :=
  match error with
  | .ofInstance error => error
  | .ofValue v =>
      let text := match v with
        | some (.str text) => text
        | _ => "Unknown error"
      .plain [("message",
        .str ((Value.or (read error "message") (some (.str text))).elim text Value.toText))]

def handleRpcError (error : RpcError) : ErrorInstance :=
  match (fromText error).or ((fromMessage (read error "message")).or
      ((fromMessageObject (read error "message")).or (fromError error))) with
  | some error => .app error
  | none => plainError error

end RpcErrorHandler

/-! ### Objects of the filter -/

theorem JSON.fieldsJson_iff (fields : Object) :
    JSON.FieldsJson fields ↔ ∀ field ∈ fields, JSON.IsJson field.2 := by
  induction fields with
  | nil => exact ⟨fun _ _ h => (nomatch h), fun _ => trivial⟩
  | cons field fields ih =>
      obtain ⟨key, v⟩ := field
      rw [List.forall_mem_cons, ← ih]
      exact Iff.rfl

/-- The fields that are not `undefined` make an object of JSON. -/
theorem Value.isJson_ofFields {fields : List (String × Option Value)}
    (hnodup : (fields.map (·.1)).Nodup)
    (h : ∀ field ∈ fields, ∀ v, field.2 = some v → JSON.IsJson v) :
    JSON.IsJson (ofFields fields) := by
  constructor
  · have hsublist : ∀ fs : List (String × Option Value),
        (ObjectMap.keys (fs.filterMap fun field => field.2.map fun v => (field.1, v))).Sublist
          (fs.map (·.1)) := by
      intro fs
      induction fs with
      | nil => exact List.Sublist.refl _
      | cons field fs ih =>
          obtain ⟨key, v⟩ := field
          cases v with
          | none => exact List.Sublist.cons key ih
          | some v => exact List.Sublist.cons_cons key ih
    exact (hsublist fields).nodup hnodup
  · refine (JSON.fieldsJson_iff _).mpr fun field hfield => ?_
    obtain ⟨source, hsource, hmap⟩ := List.mem_filterMap.mp hfield
    obtain ⟨v, hv, rfl⟩ := Option.map_eq_some_iff.mp hmap
    exact h source hsource v hv

/-- A field reads back as it was given. -/
theorem Value.member_ofFields {fields : List (String × Option Value)}
    (hnodup : (fields.map (·.1)).Nodup) (key : String) :
    (ofFields fields).member key = (ObjectMap.get? fields key).join := by
  show ObjectMap.get? (fields.filterMap _) key = _
  induction fields with
  | nil => rfl
  | cons field fields ih =>
      obtain ⟨hnot, hrest⟩ := List.nodup_cons.mp hnodup
      obtain ⟨name, v⟩ := field
      have htail := ih hrest
      rw [ObjectMap.get?_cons]
      by_cases hname : name = key
      · rw [if_pos hname]
        subst hname
        cases v with
        | none =>
            have hnone : ObjectMap.get? fields name = none := ObjectMap.get?_eq_none_iff.mpr hnot
            rw [hnone] at htail
            exact htail
        | some v =>
            show ObjectMap.get? ((name, v) :: _) name = some v
            rw [ObjectMap.get?_cons, if_pos rfl]
      · rw [if_neg hname, ← htail]
        cases v with
        | none => rfl
        | some v =>
            show ObjectMap.get? ((name, v) :: _) key = _
            rw [ObjectMap.get?_cons, if_neg hname]

theorem ErrorCode.value_ne_empty (code : ErrorCode) : code.value ≠ "" := by
  cases code <;> decide

/-! ### An error on the wire -/

namespace RpcErrorHandler

open CustomRpcExceptionFilter JSON

/-- The text of a number, which need not be finite. -/
def IsNumber (n : String) : Prop :=
  IsNumberText n ∨ n = "NaN" ∨ n = "Infinity" ∨ n = "-Infinity"

/-- The error of the arguments, with a number as its status code. -/
def appError (code : ErrorCode) (message : String) (statusCode : Option String)
    (data : Option Value) : AppError where
  errorCode := .str code.value
  message := message
  statusCode := statusCode.map .num
  data := data

def errorFields (e : AppError) : List (String × Option Value) :=
  [("errorCode", some e.errorCode), ("message", some (.str e.message)), ("data", e.data)]

/-- The fields of the object in which the error travels, with the status code as it is read from
the text. -/
def wireFields (statusCode : Value) (e : AppError) (stack : Option String) :
    List (String × Option Value) :=
  [("code", some statusCode), ("message", some (.str e.message)),
    ("errorCode", some e.errorCode), ("stack", stack.map .str),
    ("error_data", some (.ofFields (errorFields e)))]

theorem errorFields_nodup (e : AppError) : ((errorFields e).map (·.1)).Nodup := by
  show (["errorCode", "message", "data"] : List String).Nodup
  decide

theorem wireFields_nodup (c : Value) (e : AppError) (stack : Option String) :
    ((wireFields c e stack).map (·.1)).Nodup := by
  show (["code", "message", "errorCode", "stack", "error_data"] : List String).Nodup
  decide

variable {code : ErrorCode} {message : String} {statusCode : Option String} {data : Option Value}

theorem isNumberText_500 : IsNumberText "500" := by
  unfold IsNumberText
  decide +kernel

theorem isJson_wire {c : Value} (hc : IsJson c) (hdata : ∀ v, data = some v → IsJson v)
    (stack : Option String) :
    IsJson (.ofFields (wireFields c (appError code message statusCode data) stack)) := by
  have herror : IsJson (.ofFields (errorFields (appError code message statusCode data))) := by
    apply Value.isJson_ofFields (errorFields_nodup _)
    simp only [errorFields, List.forall_mem_cons, List.not_mem_nil, false_imp_iff, implies_true,
      and_true]
    refine ⟨?_, ?_, hdata⟩
    · rintro v ⟨⟩
      trivial
    · rintro v ⟨⟩
      trivial
  apply Value.isJson_ofFields (wireFields_nodup _ _ _)
  simp only [wireFields, List.forall_mem_cons, List.not_mem_nil, false_imp_iff, implies_true,
    and_true]
  refine ⟨?_, ?_, ?_, ?_, ?_⟩
  · rintro v ⟨⟩
    exact hc
  · rintro v ⟨⟩
    trivial
  · rintro v ⟨⟩
    trivial
  · intro v hv
    obtain ⟨text, -, rfl⟩ := Option.map_eq_some_iff.mp hv
    trivial
  · rintro v ⟨⟩
    exact herror

/-- **Spec.** The error that is read from the object it travels in. -/
theorem fromParsed_wire (c : Value) (stack : Option String) :
    fromParsed (.ofFields (wireFields c (appError code message statusCode data) stack)) =
      some ⟨.str code.value, message, Value.or (some c) (some (.num "500")), Value.or data none⟩ := by
  have hread : ∀ key, _ := Value.member_ofFields
    (wireFields_nodup c (appError code message statusCode data) stack)
  have hdata : ∀ key, _ := Value.member_ofFields
    (errorFields_nodup (appError code message statusCode data))
  have htruthy : (Value.str code.value).isTruthy = true := by
    simpa [Value.isTruthy] using code.value_ne_empty
  have hcode : Value.or (some (.str code.value)) none = some (.str code.value) := if_pos htruthy
  unfold fromParsed
  rw [hread, hread, hread, hread, hread, hread]
  show (match Value.or (some (.str code.value)) none with
    | none => none
    | some errorCode => some (AppError.create errorCode (some (.str message))
        (Value.or (some c) (Value.or none (some (.num "500"))))
        (Value.or ((Value.ofFields (errorFields (appError code message statusCode data))).member
          "data") none))) = _
  rw [hcode, hdata]
  rfl

/-- The status code as the filter sends it, and as it is read from the text: what is not finite
is read as `null`. -/
theorem sent_code (hstatus : ∀ n, statusCode = some n → IsNumber n) :
    ∃ sent c, Value.or (statusCode.map .num) (some (.num "500")) = some sent ∧
      IsJson c ∧ Value.json c = Value.json sent ∧
      (Value.or (some c) (some (.num "500")) = some (.num (statusCode.getD "500")) ↔
        ∀ n, statusCode = some n → IsNumberText n ∧ n ≠ "0") := by
  cases statusCode with
  | none => exact ⟨.num "500", .num "500", rfl, isNumberText_500, rfl, fun _ _ h => (nomatch h),
      fun _ => rfl⟩
  | some n =>
      have hiff : (∀ m, some n = some m → IsNumberText m ∧ m ≠ "0") ↔ IsNumberText n ∧ n ≠ "0" :=
        ⟨fun h => h n rfl, fun h m hm => Option.some.inj hm ▸ h⟩
      rw [hiff]
      rcases hstatus n rfl with hfinite | rfl | rfl | rfl
      · have hnan : n ≠ "NaN" := by
          rintro rfl
          exact @IsNumberText.not_mem _ hfinite 'N' rfl (by decide)
        by_cases hzero : n = "0"
        · subst hzero
          refine ⟨.num "500", .num "500", rfl, isNumberText_500, rfl, fun h => ?_, fun h => ?_⟩
          · exact absurd h (by decide)
          · exact absurd rfl h.2
        · have htruthy : (Value.num n).isTruthy = true := by
            simp [Value.isTruthy, hzero, hnan]
          exact ⟨.num n, .num n, if_pos htruthy, hfinite, rfl, fun _ => ⟨hfinite, hzero⟩,
            fun _ => if_pos htruthy⟩
      · refine ⟨.num "500", .num "500", rfl, isNumberText_500, rfl, fun h => ?_, fun h => ?_⟩
        · exact absurd h (by decide)
        · exact absurd (by decide) (@IsNumberText.not_mem _ h.1 'N' rfl)
      · refine ⟨.num "Infinity", .null, rfl, trivial, rfl, fun h => ?_, fun h => ?_⟩
        · exact absurd h (by decide)
        · exact absurd (by decide) (@IsNumberText.not_mem _ h.1 'I' rfl)
      · refine ⟨.num "-Infinity", .null, rfl, trivial, rfl, fun h => ?_, fun h => ?_⟩
        · exact absurd h (by decide)
        · exact absurd (by decide) (@IsNumberText.not_mem _ h.1 'I' rfl)

/-- The text of the object depends on the status code through the text of that. -/
theorem json_wire {c sent : Value} (h : Value.json c = Value.json sent) (e : AppError)
    (stack : Option String) :
    Value.json (.ofFields (wireFields c e stack)) =
      Value.json (.ofFields (wireFields sent e stack)) := by
  show Value.json (.map (("code", c) :: _)) = Value.json (.map (("code", sent) :: _))
  rw [Value.json, Value.json, Value.jsonFields, Value.jsonFields, Value.jsonField, Value.jsonField, h]

/-- **Spec.** The message of the thrown text, read back and looked into. -/
theorem fromMessage_details (hstatus : ∀ n, statusCode = some n → IsNumber n)
    (hdata : ∀ v, data = some v → IsJson v) (stack : Option String) :
    ∃ status, fromMessage (some (.str
        (details (.app (appError code message statusCode data)) stack).json)) =
          some ⟨.str code.value, message, some status, Value.or data none⟩ ∧
      (status = .num (statusCode.getD "500") ↔
        ∀ n, statusCode = some n → IsNumberText n ∧ n ≠ "0") := by
  obtain ⟨sent, c, hsent, hjson, htext, hiff⟩ := sent_code hstatus
  have hdetails : details (.app (appError code message statusCode data)) stack =
      .ofFields (wireFields sent (appError code message statusCode data) stack) := by
    show Value.ofFields [("code", Value.or (statusCode.map .num) (some (.num "500"))), _, _, _, _] = _
    rw [hsent]
    rfl
  have hne : (details (.app (appError code message statusCode data)) stack).json ≠ "" := by
    intro hempty
    have hlist := toList_json_map _ ▸ congrArg String.toList hempty
    cases hlist
  obtain ⟨status, hcode⟩ : ∃ status, Value.or (some c) (some (.num "500")) = some status := by
    unfold Value.or
    split
    · exact ⟨c, rfl⟩
    · exact ⟨.num "500", rfl⟩
  refine ⟨status, ?_, ?_⟩
  · unfold fromMessage
    dsimp only
    rw [if_neg hne, hdetails, ← json_wire htext, parse_json (isJson_wire hjson hdata stack),
      Option.bind_some, fromParsed_wire, hcode]
  · rw [← hiff, hcode, Option.some.injEq]

/-- The text that is thrown is read back as the name and the message. -/
theorem parse_catchException (stack : Option String) :
    JSON.parse (catchException (.app (appError code message statusCode data)) stack) =
      some (.map [("name", .str "AppError"),
        ("message", .str (details (.app (appError code message statusCode data)) stack).json)]) := by
  refine parse_json ⟨?_, ?_⟩
  · show (["name", "message"] : List String).Nodup
    decide
  · exact ⟨trivial, trivial, trivial⟩

/-- The error comes back as it was, with the status code 500 if it had none, from the thrown text
and from the object it is parsed to. -/
def Survives (code : ErrorCode) (message : String) (statusCode : Option String)
    (data : Option Value) (stack : Option String) : Prop :=
  let thrown := catchException (.app (appError code message statusCode data)) stack
  ∀ error ∈ [RpcError.ofValue (some (.str thrown)), .ofValue (JSON.parse thrown)],
    handleRpcError error =
      .app ⟨.str code.value, message, some (.num (statusCode.getD "500")), data⟩

/-- **Spec.** What is made of the thrown text, and of the object it is parsed to. -/
theorem handleRpcError_thrown {stack : Option String} {e : AppError}
    (h : fromMessage (some (.str
      (details (.app (appError code message statusCode data)) stack).json)) = some e)
    {error : RpcError}
    (herror : error ∈ [RpcError.ofValue
        (some (.str (catchException (.app (appError code message statusCode data)) stack))),
      .ofValue (JSON.parse (catchException (.app (appError code message statusCode data)) stack))]) :
    handleRpcError error = .app e := by
  unfold handleRpcError
  rcases List.mem_pair.mp herror with rfl | rfl
  · have htext : fromText (.ofValue
        (some (.str (catchException (.app (appError code message statusCode data)) stack)))) =
        some e := by
      unfold fromText
      dsimp only
      rw [parse_catchException, Option.bind_some]
      show (fromMessage (some (.str _))).or _ = some e
      rw [h]
      rfl
    rw [htext]
    rfl
  · rw [parse_catchException]
    show (match (Option.none).or ((fromMessage (some (.str _))).or _) with
      | some error => ErrorInstance.app error
      | none => _) = _
    rw [h]
    rfl

theorem or_none_eq_iff {v : Option Value} :
    Value.or v none = v ↔ ∀ x, v = some x → x.isTruthy = true := by
  unfold Value.or
  cases v with
  | none => exact ⟨fun _ _ h => (nomatch h), fun _ => rfl⟩
  | some x =>
      cases htruthy : x.isTruthy with
      | true => simp [htruthy]
      | false => simp [htruthy]

/-- **Main result.** An error survives exactly where its data counts as true or is missing, and its
status code is finite and not 0 or is missing. -/
theorem appError_survives_iff (code : ErrorCode) (message : String) (statusCode : Option String)
    (data : Option Value) (stack : Option String)
    (hstatus : ∀ n, statusCode = some n → IsNumber n)
    (hdata : ∀ v, data = some v → IsJson v) :
    Survives code message statusCode data stack ↔
      (∀ v, data = some v → v.isTruthy = true) ∧
        ∀ n, statusCode = some n → IsNumberText n ∧ n ≠ "0" := by
  obtain ⟨status, hmessage, hiff⟩ := @fromMessage_details code message _ _ hstatus hdata stack
  rw [← hiff, ← or_none_eq_iff]
  constructor
  · intro h
    have hsame := h _ List.mem_cons_self
    rw [handleRpcError_thrown hmessage List.mem_cons_self] at hsame
    have he := ErrorInstance.app.inj hsame
    exact ⟨congrArg AppError.data he, Option.some.inj (congrArg AppError.statusCode he)⟩
  · rintro ⟨hdata', rfl⟩ error herror
    rw [handleRpcError_thrown hmessage herror, hdata']

theorem isNumberText_404 {n : String} (h : some "404" = some n) : IsNumberText n ∧ n ≠ "0" := by
  obtain rfl := Option.some.inj h
  unfold IsNumberText
  exact ⟨by decide +kernel, by decide⟩

/-- An error without data comes back, with quotes in its message. -/
theorem notFound_survives :
    Survives .mapNotFound "no \"map\"" (some "404") none (some "AppError: no map") :=
  (appError_survives_iff .mapNotFound "no \"map\"" (some "404") none (some "AppError: no map")
    (fun _ h => .inl (isNumberText_404 h).1) fun _ h => nomatch h).mpr
    ⟨fun _ h => (nomatch h), fun _ h => isNumberText_404 h⟩

/-- Data that is `false` is lost. -/
theorem false_is_lost : ¬ Survives .mapNotFound "" none (some (.bool false)) none := by
  intro h
  obtain ⟨status, hmessage, -⟩ := @fromMessage_details .mapNotFound "" none (some (.bool false))
    (fun _ hn => nomatch hn) (fun v hv => by
      obtain rfl := Option.some.inj hv
      trivial) none
  have hsame := h _ List.mem_cons_self
  rw [handleRpcError_thrown hmessage List.mem_cons_self] at hsame
  have hlost : (none : Option Value) = some (.bool false) :=
    congrArg AppError.data (ErrorInstance.app.inj hsame)
  cases hlost

end RpcErrorHandler

end UploadService
