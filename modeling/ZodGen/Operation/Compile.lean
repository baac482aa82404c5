import ZodGen.Operation.Parameter
import ZodGen.Operation.Status

/-!
# Validators of operations

A request is an object of method, path, query, headers and body; a response is a union of objects of
status, headers and body. An operation that takes several media types gives one pair of validators
for each of them, told apart by a literal `Content-Type` header.
-/

namespace ZodGen.Operation

/-- The validators of an operation, for one media type of its request. -/
structure Compiled where
  path : String
  method : String
  contentType : Option String
  request : Validator
  response : Validator

/-- A request body for one media type. -/
structure Body where
  contentType : Option String
  validator : Validator

/-- The header that tells media types apart. -/
def contentTypeHeader : String := "Content-Type"

/-- The members under `content`, when there are any. -/
def content? (v : Value) : Option (Assoc Value) :=
  (v.obj? "content").filter (!·.isEmpty)

/-- An absent group of parameters counts as an empty one. -/
def groupObject (shape : Shape Validator) : Validator :=
  if shape.isEmpty then .plain (.default (Validator.object shape).optional (.obj []))
  else .object shape

/-- The validator of a media type: anything when it has no schema. -/
def mediaValidator (c : Schema.Compiler) (media : Value) : Outcome Validator :=
  match media.get? "schema" with
  | some schema => c.compile schema {}
  | none => .ok (.plain .any)

/-- The same, or absent unless it is required. -/
def orAbsent (required : Bool) (v : Validator) : Validator := if required then v else v.optional

/-- The request bodies of an operation, one for each media type. -/
def bodies (c : Schema.Compiler) (op : Value) : Outcome (List Body) :=
  match op.get? "requestBody" with
  | none => .ok [⟨none, .plain .undefined⟩]
  | some raw => do
    let body ← Reference.resolveObject c.root raw
    let required := isRequired body
    match content? body with
    | none => .ok [⟨none, orAbsent required (.plain .undefined)⟩]
    | some content => content.mapM fun (contentType, media) => do
      .ok ⟨some contentType, orAbsent required (← mediaValidator c media)⟩

/-- The media type whose schema a response body is checked against: JSON itself, then a kind of
JSON, then a wildcard, then the first. -/
def selectMedia (content : Assoc Value) : Option Value :=
  let ofKind := (content.find? fun (k, _) => "+json".toList.isSuffixOf k.toList).map Prod.snd
  (Assoc.get? "application/json" content).or <| ofKind.or <|
    (Assoc.get? "application/*" content).or <| (Assoc.get? "*/*" content).or <|
      content.head?.map Prod.snd

/-- The media types of a response that get a branch, each with the type to name in the headers. For
a request told apart by its media type, the response under `200` takes the same type if it can, and
other responses get a branch for every type. -/
def responseMedia (key : String) (requestType : Option String) (tagged : Bool)
    (content : Option (Assoc Value)) : List (Option String × Option Value) :=
  match content with
  | none => [(none, none)]
  | some content =>
    if tagged && key == "200" then
      [(none, (requestType.bind fun t => Assoc.get? t content).or (selectMedia content))]
    else if tagged && content.length > 1 then
      content.map fun (t, media) => (some t, some media)
    else
      [(none, selectMedia content)]

def responseHeaders (c : Schema.Compiler) (response : Value) : Outcome (Shape Validator) :=
  ((response.obj? "headers").getD []).foldlM (fun shape (name, raw) => do
    let header ← Reference.resolveObject c.root raw
    let v ← c.compile ((header.get? "schema").getD (.obj [])) .header
    .ok (shape.insert name (v.describe (header.str? "description")) (isRequired header)))
    Shape.empty

/-- Names the media type in the headers. -/
def withContentType (headers : Shape Validator) : Option String → Shape Validator
  | some t => headers.insert contentTypeHeader (.literalText t) true
  | none => headers

def branch (status : Status) (headers : Shape Validator) (body : Validator) : Validator :=
  .object <| ((Shape.empty.insert "status" status.validator true).insert "headers"
    ⟨.object headers, some "Response headers"⟩ true).insert "body" body true

/-- The branches of the response under one key. -/
def responseBranches (c : Schema.Compiler) (requestType : Option String) (tagged : Bool)
    (key : String) (raw : Value) : Outcome (Status × List Validator) := do
  let status ← classify key
  let response ← Reference.resolveObject c.root raw
  let headers ← responseHeaders c response
  let branches ← (responseMedia key requestType tagged (content? response)).mapM
    fun (contentType, media) => do
      let body ← match media with
        | none => .ok (.plain .undefined)
        | some media => mediaValidator c media
      .ok (branch status (withContentType headers contentType) body)
  .ok (status, branches)

/-- The validator of the responses: branches in order, those of `default` last. -/
def responses (c : Schema.Compiler) (requestType : Option String) (tagged : Bool)
    (ms : Assoc Value) : Outcome Validator := do
  let found ← ms.mapM fun (key, raw) => responseBranches c requestType tagged key raw
  let (defaults, others) := found.partition fun (status, _) => status == .default
  match (others ++ defaults).flatMap Prod.snd with
  | [single] => .ok single
  | branches => .ok (.plain (.union branches))

def request (method : String) (ps : Parameters) (headers : Shape Validator) (body : Validator) :
    Validator :=
  let front := ((Shape.empty.insert "method" (.literalText method) true).insert "path"
    (groupObject ps.path) true).insert "query" (groupObject ps.query) true
  let front := if headers.isEmpty then front else front.insert "headers" (.object headers) true
  .object (front.insert "body" body true)

/-- Method and path, as messages name an operation. -/
def label (op : Document.Operation) : String :=
  String.ofList (op.method.toList.map Char.toUpper) ++ " " ++ op.path

/-- The validators of an operation, one pair for each media type of its request. -/
def compile (c : Schema.Compiler) (op : Document.Operation) : Outcome (List Compiled) := do
  let ps ← (← mergedParameters c.root op).foldlM (addParameter c (label op)) {}
  let variants ← bodies c op.body
  let tagged := variants.length > 1
  match (op.body.obj? "responses").filter (!·.isEmpty) with
  | none => fail .noResponsesDefined (label op)
  | some ms => variants.mapM fun variant => do
    let tag := if tagged then variant.contentType else none
    let response ← responses c tag tagged ms
    .ok ⟨op.path, op.method, variant.contentType,
      request op.method ps (withContentType ps.header tag) variant.validator, response⟩

end ZodGen.Operation
