import OzoneRust.Gateway.Parsing

/-!
# Routing

`route` reads a request and calls one operation of the gateway. `OzoneRust.route` is the
part of it that decides: from the method, the path, the query, the headers and the body it
finds the operation and its arguments, or the error. What an operation does is modelled with
the operation, and the rendering of its result as a response is left out.

The principal is left out, as in the operations. The body is what `collect_body` and, for a
framed body, `decode_aws_chunked` give.
-/

namespace OzoneRust

open Text

/-! ### Requests -/

/-- A method. -/
inductive Method where
  /-- `GET`. -/
  | get
  /-- `PUT`. -/
  | put
  /-- `POST`. -/
  | post
  /-- `DELETE`. -/
  | delete
  /-- `HEAD`. -/
  | head
  /-- Any other. -/
  | other (name : String)
  deriving DecidableEq, Repr

/-- The name of a method. -/
def Method.name : Method → String
  | .get => "GET"
  | .put => "PUT"
  | .post => "POST"
  | .delete => "DELETE"
  | .head => "HEAD"
  | .other name => name

/-- A request. -/
structure HttpRequest where
  /-- The method. -/
  method : Method
  /-- The path, as it was sent. -/
  path : Text
  /-- The query string. -/
  query : Option Text
  /-- The headers, with their names in lower case. -/
  headers : List (String × Bytes)
  /-- The body, or the failure to read it. -/
  body : Outcome GatewayError Bytes

/-- `HeaderValue::to_str`. -/
def headerText (value : Bytes) : Option Text :=
  if value.all fun b => (0x20 ≤ b && b < 0x7F) || b == 0x09 then some (value.map ofByte) else none

namespace HttpRequest

/-- The first header with a name, if it is text. -/
def header (req : HttpRequest) (name : String) : Option Text :=
  (req.headers.find? fun h => h.1 = name).bind fun h => headerText h.2

/-- All headers with a name that are text, joined by commas, unless that is empty. -/
def joinedHeader (req : HttpRequest) (name : String) : Option Text :=
  let joined := [','].intercalate
    ((req.headers.filter fun h => h.1 = name).filterMap fun h => headerText h.2)
  if joined = [] then none else some joined

/-- A directive with the value `REPLACE`. -/
def replaces (req : HttpRequest) (name : String) : Bool :=
  ((req.header name).map fun d => eqIgnoreAsciiCase d "REPLACE".toList).getD false

/-- `collect_user_metadata`. -/
def userMetadata (req : HttpRequest) : List (String × String) :=
  let contentType := match req.header "content-type" with
    | some ct => [("content-type", String.ofList ct)]
    | none => []
  req.headers.foldl (fun m h =>
    if "x-amz-meta-".toList <+: h.1.toList then
      match headerText h.2 with
      | some v => AssocList.put (h.1, String.ofList v) m
      | none => m
    else m) contentType

end HttpRequest

/-! ### Operations -/

/-- What a `PUT` of an object stores. -/
inductive Upload where
  /-- A copy of another object. -/
  | copy (source : KeyName) (directives : CopyDirectives)
  /-- The body. -/
  | object (body : Bytes) (metadata tags : List (String × String))
  deriving DecidableEq

/-- The conditional headers of a read. -/
structure Preconditions where
  /-- `If-Match`. -/
  ifMatch : Option Text
  /-- `If-None-Match`. -/
  ifNoneMatch : Option Text
  /-- `If-Modified-Since`. -/
  ifModifiedSince : Option Text
  /-- `If-Unmodified-Since`. -/
  ifUnmodifiedSince : Option Text
  deriving DecidableEq, Repr

/-- An operation of the gateway, with its arguments. -/
inductive Action where
  /-- `list_buckets`. -/
  | listBuckets
  /-- `put_object_tagging`. -/
  | putObjectTagging (key : KeyName) (tags : List (String × String))
  /-- `get_object_tagging`. -/
  | getObjectTagging (key : KeyName)
  /-- `put_object_tagging` without tags. -/
  | deleteObjectTagging (key : KeyName)
  /-- `object_attributes`. -/
  | objectAttributes (key : KeyName) (requested : List Text)
  /-- `initiate_multipart`. -/
  | initiateMultipart (key : KeyName)
  /-- `upload_part`. -/
  | uploadPart (key : KeyName) (uploadId : Text) (partNumber : UInt32) (body : Bytes)
  /-- `complete_multipart`. -/
  | completeMultipart (key : KeyName) (uploadId : Text) (partNumbers : List UInt32)
  /-- `abort_multipart`. -/
  | abortMultipart (key : KeyName) (uploadId : Text)
  /-- `list_parts`. -/
  | listParts (key : KeyName) (uploadId : Text)
  /-- `delete_objects`. -/
  | deleteObjects (bucket : String) (keys : List String) (quiet : Bool)
  /-- The region of the gateway. -/
  | bucketLocation
  /-- `list_multipart_uploads`. -/
  | listMultipartUploads (bucket : String)
  /-- `head_bucket`. -/
  | headBucket (bucket : String)
  /-- `create_bucket`. -/
  | createBucket (bucket : String)
  /-- `delete_bucket`. -/
  | deleteBucket (bucket : String)
  /-- `list_objects`. -/
  | listObjects (bucket : String) (start delimiter : Text) (maxKeys : UInt32) (token : Text)
  /-- `copy_object` or `put_object`. With `createOnly`, `head_object` must not find the object,
  and is called before the rest of the request is looked at. -/
  | putObject (key : KeyName) (createOnly : Bool) (upload : Outcome GatewayError Upload)
  /-- `get_object`. -/
  | getObject (key : KeyName) (conditions : Preconditions) (range : Option Text)
  /-- `head_object`. -/
  | headObject (key : KeyName) (conditions : Preconditions)
  /-- `delete_object`. -/
  | deleteObject (key : KeyName)
  deriving DecidableEq

/-! ### Dispatch -/

/-- Pairs of texts as strings. -/
def stringPairs (tags : List (Text × Text)) : List (String × String) :=
  tags.map fun tag => (String.ofList tag.1, String.ofList tag.2)

namespace HttpRequest

/-- The conditional headers. -/
def preconditions (req : HttpRequest) : Preconditions where
  ifMatch := req.header "if-match"
  ifNoneMatch := req.header "if-none-match"
  ifModifiedSince := req.header "if-modified-since"
  ifUnmodifiedSince := req.header "if-unmodified-since"

/-- The tags in the header of a `PUT`. -/
def headerTags (req : HttpRequest) : Outcome GatewayError (List (String × String)) :=
  match req.header "x-amz-tagging" with
  | some h => do return stringPairs (← parseTaggingHeader h)
  | none => .ok []

/-- What a `PUT` of an object stores: a copy if there is a source for one. -/
def upload (req : HttpRequest) (bucket key : Text) : Outcome GatewayError Upload :=
  match req.header "x-amz-copy-source" with
  | some source => do
    let (srcBucket, srcKey) ← parseCopySource source
    let replaceMetadata := req.replaces "x-amz-metadata-directive"
    if srcBucket = bucket ∧ srcKey = key ∧ ¬replaceMetadata then
      .err (.badRequest
        "copy destination is the same as the source without replacing metadata")
    else do
      let replaceTags := req.replaces "x-amz-tagging-directive"
      let tags ← if replaceTags then req.headerTags else pure []
      return .copy ⟨String.ofList srcBucket, String.ofList srcKey⟩
        ⟨replaceMetadata, req.userMetadata, replaceTags, tags⟩
  | none => do
    let body ← req.body
    let tags ← req.headerTags
    return .object body req.userMetadata tags

/-- The error for a method that has no operation. -/
def unsupported (req : HttpRequest) : GatewayError :=
  .badRequest ("unsupported operation: " ++ req.method.name ++ " " ++ String.ofList req.path)

/-- The requests for an object. -/
def dispatchObject (req : HttpRequest) (bucket key : Text) : Outcome GatewayError Action :=
  let name : KeyName := ⟨String.ofList bucket, String.ofList key⟩
  if (queryParam req.query "tagging".toList).isSome then
    match req.method with
    | .put => do return .putObjectTagging name (stringPairs (← parseTagging (← req.body)))
    | .get => .ok (.getObjectTagging name)
    | .delete => .ok (.deleteObjectTagging name)
    | _ => .err (.badRequest "unsupported tagging operation")
  else if (queryParam req.query "attributes".toList).isSome then
    if req.method ≠ .get then .err (.badRequest "unsupported attributes operation")
    else
      let requested := ((req.joinedHeader "x-amz-object-attributes").map
        parseObjectAttributesHeader).getD []
      if requested = [] then .err (.badRequest "missing x-amz-object-attributes header")
      else .ok (.objectAttributes name requested)
  else if req.method = .post ∧ (queryParam req.query "uploads".toList).isSome then
    .ok (.initiateMultipart name)
  else
    match queryParam req.query "uploadId".toList with
    | some uploadId =>
      match req.method with
      | .put =>
        match (queryParam req.query "partNumber".toList).bind (parseUnsigned (2 ^ 32)) with
        | some n => do return .uploadPart name uploadId (UInt32.ofNat n) (← req.body)
        | none => .err (.badRequest "missing or invalid partNumber")
      | .post => do return .completeMultipart name uploadId (← parseCompleteParts (← req.body))
      | .delete => .ok (.abortMultipart name uploadId)
      | .get => .ok (.listParts name uploadId)
      | _ => .err (.badRequest "unsupported multipart operation")
    | none =>
      match req.method with
      | .put => .ok (.putObject name (req.header "if-none-match" = some "*".toList)
          (req.upload bucket key))
      | .get => .ok (.getObject name req.preconditions (req.header "range"))
      | .head => .ok (.headObject name req.preconditions)
      | .delete => .ok (.deleteObject name)
      | _ => .err req.unsupported

/-- The requests for a bucket. -/
def dispatchBucket (req : HttpRequest) (bucket : Text) : Outcome GatewayError Action :=
  let name := String.ofList bucket
  if req.method = .post ∧ (queryParam req.query "delete".toList).isSome then do
    let (keys, quiet) ← parseDeleteRequest (← req.body)
    if 1000 < keys.length then
      .err (.badRequest "a delete request can contain at most 1000 keys")
    else .ok (.deleteObjects name (keys.map String.ofList) quiet)
  else if req.method = .get ∧ (queryParam req.query "location".toList).isSome then
    .ok .bucketLocation
  else if req.method = .get ∧ (queryParam req.query "uploads".toList).isSome then
    .ok (.listMultipartUploads name)
  else
    match req.method with
    | .head => .ok (.headBucket name)
    | .put => .ok (.createBucket name)
    | .delete => .ok (.deleteBucket name)
    | .get =>
      let start := (queryParam req.query "prefix".toList).getD []
      let delimiter := (queryParam req.query "delimiter".toList).getD []
      let token := (queryParam req.query "continuation-token".toList).getD []
      match queryParam req.query "max-keys".toList with
      | none => .ok (.listObjects name start delimiter 1000 token)
      | some v =>
        match parseUnsigned (2 ^ 32) (trim v) with
        | some n => .ok (.listObjects name start delimiter (UInt32.ofNat (min n 1000)) token)
        | none => .err (.badRequest "invalid max-keys")
    | _ => .err req.unsupported

end HttpRequest

/-- The decisions of `route`. -/
def route (req : HttpRequest) : Outcome GatewayError Action :=
  let (bucket, key) := splitPath req.path
  if bucket = [] then
    if req.method = .get then .ok .listBuckets
    else .err (.badRequest "missing bucket in path")
  else if key = [] then req.dispatchBucket bucket
  else req.dispatchObject bucket key

end OzoneRust
