import OzoneRust.Gateway.Backend
import OzoneRust.Lib.Text

/-!
# The parsers of a request

The functions of the gateway's `lib.rs` that read a request: the path, the query string, the
header that names the source of a copy, and the XML documents of the bodies. They work on flat
text. Percent-encoding is decoded in the query and in headers (`OzoneRust.pctDecode`), and XML
entities in bodies (`OzoneRust.xmlUnescape`); the path is split as it is
(`OzoneRust.splitPath`).

The XML parsers look for literal tags, one after the other (`OzoneRust.elements`).
-/

namespace OzoneRust

open Rewrite Text

/-! ### Path and query -/

/-- `split_path`. -/
def splitPath (path : Text) : Text × Text :=
  let trimmed := trimStartMatches '/' path
  match splitOnce '/' trimmed with
  | some (b, k) => (b, k)
  | none => (trimmed, [])

/-- `char::to_digit` of a byte, in base 16. -/
def hexDigit (b : UInt8) : Option ℕ :=
  if 0x30 ≤ b ∧ b ≤ 0x39 then some (b.toNat - 0x30)
  else if 0x41 ≤ b ∧ b ≤ 0x46 then some (b.toNat - 0x41 + 10)
  else if 0x61 ≤ b ∧ b ≤ 0x66 then some (b.toNat - 0x61 + 10)
  else none

/-- One step of the loop of `pct_decode`. A `%` without two hexadecimal digits stays. -/
def pctRule : List UInt8 → List UInt8 × ℕ
  | [] => ([], 0)
  | b :: rest =>
    if b = 0x2B then ([0x20], 0)
    else if b = 0x25 then
      match rest with
      | hi :: lo :: _ =>
        match hexDigit hi, hexDigit lo with
        | some hi, some lo => ([UInt8.ofNat (hi * 16 + lo)], 2)
        | _, _ => ([b], 0)
      | _ => ([b], 0)
    else ([b], 0)

/-- `pct_decode`. -/
def pctDecode (s : Text) : Text := lossy (rewrite pctRule (utf8 s))

/-- `query_param`. -/
def queryParam (query : Option Text) (key : Text) : Option Text :=
  query.bind fun q => (q.splitOn '&').findSome? fun kv =>
    let pair := (splitOnce '=' kv).getD (kv, [])
    if pair.1 = key then some (pctDecode pair.2) else none

/-- `parse_copy_source`. -/
def parseCopySource (header : Text) : Outcome GatewayError (Text × Text) :=
  let trimmed := trimStartMatches '/' header
  let withoutQuery := trimmed.takeWhile (· != '?')
  match splitOnce '/' withoutQuery with
  | none => .err (.badRequest "malformed x-amz-copy-source")
  | some (bucket, key) =>
    if bucket = [] ∨ key = [] then .err (.badRequest "empty copy-source bucket or key")
    else .ok (pctDecode bucket, pctDecode key)

/-! ### XML -/

/-- `xml_escape`. -/
def xmlEscape (s : Text) : Text :=
  replace ['>'] "&gt;".toList (replace ['<'] "&lt;".toList (replace ['&'] "&amp;".toList s))

/-- `xml_unescape`. -/
def xmlUnescape (s : Text) : Text :=
  replace "&amp;".toList ['&'] (replace "&apos;".toList ['\''] (replace "&quot;".toList ['"']
    (replace "&gt;".toList ['>'] (replace "&lt;".toList ['<'] s))))

/-- The opening tag of an element. -/
def openTag (name : Text) : Text := '<' :: (name ++ ['>'])

/-- The closing tag of an element. -/
def closeTag (name : Text) : Text := '<' :: '/' :: (name ++ ['>'])

/-- `extract_xml_element`. -/
def extractXmlElement (haystack name : Text) : Option Text := do
  let opened ← cut (openTag name) haystack
  let closed ← cut (closeTag name) opened.2
  return closed.1

/-- Where the loop of an XML parser goes on after an element: some go on at its closing tag. -/
def resume (keepClose : Bool) (name tail : Text) : Text :=
  if keepClose then closeTag name ++ tail else tail

theorem length_resume_lt {keepClose : Bool} {name xs s rest inner tail : Text}
    (h : cut (openTag name) xs = some (s, rest))
    (h' : cut (closeTag name) rest = some (inner, tail)) :
    (resume keepClose name tail).length < xs.length := by
  have hresume : (resume keepClose name tail).length ≤ (closeTag name ++ tail).length := by
    unfold resume
    split <;> simp
  have hxs := congrArg List.length (eq_of_cut h)
  have hrest := congrArg List.length (eq_of_cut h')
  simp only [List.length_append, openTag, List.length_cons] at hxs hrest hresume
  omega

/-- The loop of the XML parsers: each element with the name is found and read. An opening tag
without a closing one is the error `unclosed`. -/
def elements {β : Type} (keepClose : Bool) (name : Text) (unclosed : GatewayError)
    (read : Text → Outcome GatewayError β) (xs : Text) : Outcome GatewayError (List β) :=
  match _h : cut (openTag name) xs with
  | none => .ok []
  | some (_, rest) =>
    match _h' : cut (closeTag name) rest with
    | none => .err unclosed
    | some (inner, tail) => do
      let b ← read inner
      let bs ← elements keepClose name unclosed read (resume keepClose name tail)
      return b :: bs
termination_by xs.length
decreasing_by exact length_resume_lt _h _h'

/-- `parse_delete_request`. -/
def parseDeleteRequest (body : Bytes) : Outcome GatewayError (List Text × Bool) := do
  let s := lossy body
  let quiet := ((extractXmlElement s "Quiet".toList).map fun v =>
    eqIgnoreAsciiCase (trim v) "true".toList).getD false
  let keys ← elements true "Key".toList (.badRequest "malformed Delete request")
    (fun inner => .ok (xmlUnescape inner)) s
  if keys = [] then .err (.badRequest "no keys in delete request")
  else .ok (keys, quiet)

/-- `parse_complete_parts`. -/
def parseCompleteParts (body : Bytes) : Outcome GatewayError (List UInt32) := do
  let parts ← elements true "PartNumber".toList (.badRequest "malformed Part in complete request")
    (fun inner => match parseUnsigned (2 ^ 32) (trim inner) with
      | some n => .ok (UInt32.ofNat n)
      | none => .err (.badRequest "invalid PartNumber")) (lossy body)
  if parts = [] then .err (.badRequest "no parts in complete request")
  else .ok parts

/-- `validate_tags`. -/
def validateTags (tags : List (Text × Text)) : Outcome GatewayError Unit :=
  if 10 < tags.length then .err (.badRequest "a request can contain at most 10 tags")
  else
    match tags.find? fun tag => tag.1 = [] ∨ 128 < tag.1.length ∨ 256 < tag.2.length with
    | none => .ok ()
    | some tag =>
      if tag.1 = [] ∨ 128 < tag.1.length then .err (.badRequest "tag key length out of range")
      else .err (.badRequest "tag value length out of range")

/-- `parse_tagging`. -/
def parseTagging (body : Bytes) : Outcome GatewayError (List (Text × Text)) := do
  let tags ← elements false "Tag".toList (.badRequest "malformed Tagging: unterminated <Tag>")
    (fun block => match extractXmlElement block "Key".toList with
      | none => .err (.badRequest "tag missing <Key>")
      | some key =>
        .ok (xmlUnescape key, xmlUnescape ((extractXmlElement block "Value".toList).getD [])))
    (lossy body)
  validateTags tags
  return tags

/-- `parse_tagging_header`. -/
def parseTaggingHeader (header : Text) : Outcome GatewayError (List (Text × Text)) :=
  let header := trim header
  if header = [] then .ok []
  else do
    let tags := (header.splitOn '&').map fun kv =>
      let pair := (splitOnce '=' kv).getD (kv, [])
      (pctDecode pair.1, pctDecode pair.2)
    validateTags tags
    return tags

/-- `parse_object_attributes_header`. -/
def parseObjectAttributesHeader (header : Text) : List Text :=
  ((header.splitOn ',').map trim).filter (· ≠ [])

end OzoneRust
