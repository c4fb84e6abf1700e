import Mathlib.Data.List.TakeWhile
import OzoneRust.Gateway.Codecs
import OzoneRust.Gateway.Route

/-!
# The names of a key

A client names an object by the path of a request, as the source of a copy, in the document of
`DeleteObjects` and as the prefix of a listing. `OzoneRust.OneKey` says that all of them mean
the same key, the one the client had in mind. It holds for the keys that percent-encoding
leaves alone, and only for them (`OzoneRust.oneKey_iff`): the path is not decoded, so an object
stored under any other key has the encoded key for its name, while the copy, the deletion and
the listing ask for the key itself (`OzoneRust.two_names_for_a_key`).
-/

namespace OzoneRust

open Rewrite Text

/-! ### What a client sends -/

/-- The name of a bucket: letters, digits and `-._~`. -/
structure BucketName where
  /-- The name. -/
  text : Text
  /-- It is not empty. -/
  ne_nil : text ≠ []
  /-- It needs no encoding. -/
  plain : ∀ c ∈ text, isPathChar c = true ∧ c ≠ '/'

/-- The path of an object. -/
def objectPath (B : BucketName) (K : Text) : Text := '/' :: (B.text ++ '/' :: pctEncode true K)

/-- The source of a copy, with or without a slash before it. -/
def copySource (slash : Bool) (B : BucketName) (K : Text) : Text :=
  (if slash then ['/'] else []) ++ (B.text ++ '/' :: pctEncode true K)

/-- **One key, one name**: every request for the path of `K` is one for `K`; a copy from `K`
has `K` as its source; the keys of a document, `K` among them, are the keys to delete; and a
listing with the prefix `K` asks for that prefix. -/
structure OneKey (B : BucketName) (K : Text) : Prop where
  /-- The path. -/
  path : ∀ req : HttpRequest, req.path = objectPath B K →
    route req = req.dispatchObject B.text K
  /-- The source of a copy. -/
  copy : ∀ slash, parseCopySource (copySource slash B K) = .ok (B.text, K)
  /-- The document of `DeleteObjects`. -/
  delete : ∀ (req : HttpRequest) (before after : Option Bool) (keys : List Text), K ∈ keys →
    keys.length ≤ 1000 → req.method = .post → req.path = '/' :: B.text →
    req.query = some "delete".toList → req.body = .ok (utf8 (deleteXml before after keys)) →
    route req = .ok (.deleteObjects (String.ofList B.text) (keys.map String.ofList)
      ((before <|> after).getD false))
  /-- The prefix of a listing. -/
  list : ∀ req : HttpRequest, req.method = .get → req.path = '/' :: B.text →
    req.query = some ("prefix=".toList ++ pctEncode false K) →
    route req = .ok (.listObjects (String.ofList B.text) K [] 1000 [])

/-! ### What the gateway makes of it -/

section Names

variable {B : BucketName} {K : Text}

theorem BucketName.slash_not_mem (B : BucketName) : '/' ∉ B.text := fun h => (B.plain _ h).2 rfl

theorem BucketName.trim_cons (B : BucketName) (rest : Text) :
    trimStartMatches '/' ('/' :: (B.text ++ rest)) = B.text ++ rest ∧
      trimStartMatches '/' (B.text ++ rest) = B.text ++ rest := by
  have htrim : trimStartMatches '/' (B.text ++ rest) = B.text ++ rest := by
    refine trimStartMatches_of_head fun c hc hslash => ?_
    obtain ⟨d, name, hname⟩ := List.exists_cons_of_ne_nil B.ne_nil
    rw [hname, List.cons_append, List.head?_cons, Option.mem_some_iff] at hc
    refine B.slash_not_mem ?_
    rw [hname, hc, hslash]
    exact List.mem_cons_self
  exact ⟨htrim, htrim⟩

/-- Encoded text has no characters but `%` and those that are not encoded. -/
theorem isPathChar_of_mem_pctEncode {slash : Bool} {s : Text} {c : Char}
    (h : c ∈ pctEncode slash s) : isPathChar c = true ∨ c = '%' := by
  obtain ⟨b, hb, rfl⟩ := List.mem_map.mp h
  obtain ⟨b', -, hb'⟩ := List.mem_flatMap.mp hb
  have hhex : ∀ n < 16, isPathChar (ofByte (hexByte n)) = true := by decide
  have hlt := b'.toNat_lt
  unfold pctByte at hb'
  split_ifs at hb' with hkept
  · rw [List.mem_singleton.mp hb']
    refine .inl (isPathChar_ofByte ?_)
    unfold isKept at hkept ⊢
    cases slash <;> simp_all
  · simp only [List.mem_cons, List.not_mem_nil, or_false] at hb'
    rcases hb' with rfl | rfl | rfl
    · exact .inr (by decide)
    · exact .inl (hhex _ (by omega))
    · exact .inl (hhex _ (by omega))

theorem not_mem_pctEncode {slash : Bool} {c : Char} (hpath : isPathChar c = false) (hpct : c ≠ '%')
    (s : Text) : c ∉ pctEncode slash s := by
  intro h
  rcases isPathChar_of_mem_pctEncode h with h | h
  · rw [hpath] at h
    cases h
  · exact hpct h

theorem pctEncode_ne_nil {slash : Bool} (hK : K ≠ []) : pctEncode slash K ≠ [] := by
  intro h
  have hdecode := pctDecode_pctEncode slash K
  rw [h] at hdecode
  exact hK hdecode.symm

theorem splitPath_objectPath (B : BucketName) (K : Text) :
    splitPath (objectPath B K) = (B.text, pctEncode true K) := by
  unfold splitPath objectPath
  dsimp only
  rw [(B.trim_cons _).1, splitOnce_append B.slash_not_mem]

theorem splitPath_bucket (B : BucketName) : splitPath ('/' :: B.text) = (B.text, []) := by
  have htrim := (B.trim_cons []).1
  rw [List.append_nil] at htrim
  have hsplit : splitOnce '/' B.text = none :=
    cut_eq_none (List.cons_ne_nil _ _) (avoids_of_not_mem B.slash_not_mem)
  unfold splitPath
  dsimp only
  rw [htrim, hsplit]

/-- **A request for the path of a key is one for the encoded key.** -/
theorem dispatch_objectPath (hK : K ≠ []) {req : HttpRequest} (h : req.path = objectPath B K) :
    route req = req.dispatchObject B.text (pctEncode true K) := by
  unfold route
  rw [h, splitPath_objectPath]
  dsimp only
  rw [if_neg B.ne_nil, if_neg (pctEncode_ne_nil hK)]

/-- The name of a bucket is its own encoding. -/
theorem BucketName.pctDecode_text (B : BucketName) : pctDecode B.text = B.text := by
  have hself := pctEncode_eq_self_iff.mpr fun c hc => (B.plain c hc).1
  have hdecode := pctDecode_pctEncode true B.text
  rwa [hself] at hdecode

/-- **The source of a copy is the key**, whatever the key. -/
theorem parseCopySource_copySource (hK : K ≠ []) (slash : Bool) :
    parseCopySource (copySource slash B K) = .ok (B.text, K) := by
  have htrim : trimStartMatches '/' (copySource slash B K) = B.text ++ '/' :: pctEncode true K := by
    unfold copySource
    cases slash with
    | true => exact (B.trim_cons _).1
    | false => exact (B.trim_cons _).2
  have hquery : (B.text ++ '/' :: pctEncode true K).takeWhile (· != '?') =
      B.text ++ '/' :: pctEncode true K := by
    rw [List.takeWhile_eq_self_iff]
    intro c hc
    rw [bne_iff_ne]
    rintro rfl
    rcases List.mem_append.mp hc with hc | hc
    · have hplain := (B.plain _ hc).1
      revert hplain
      decide
    · rcases List.mem_cons.mp hc with hc | hc
      · revert hc
        decide
      · exact not_mem_pctEncode (by decide) (by decide) K hc
  unfold parseCopySource
  dsimp only
  rw [htrim, hquery, splitOnce_append B.slash_not_mem]
  dsimp only
  rw [if_neg (not_or.mpr ⟨B.ne_nil, pctEncode_ne_nil hK⟩), B.pctDecode_text, pctDecode_pctEncode]

/-- A query with one parameter. -/
theorem queryParam_one {name value : Text} (hname : '=' ∉ name) (hamp : '&' ∉ name ++ '=' :: value)
    (key : Text) : queryParam (some (name ++ '=' :: value)) key =
      if name = key then some (pctDecode value) else none := by
  have hsplit : (name ++ '=' :: value).splitOn '&' = [name ++ '=' :: value] :=
    List.splitOnP_eq_singleton fun c hc => by
      simp only [beq_eq_false_iff_ne]
      rintro rfl
      exact hamp hc
  unfold queryParam
  rw [Option.bind_some, hsplit, List.findSome?_cons, splitOnce_append hname, Option.getD_some]
  dsimp only
  by_cases hkey : name = key
  · rw [if_pos hkey]
  · rw [if_neg hkey, List.findSome?_nil]

/-- **The keys of a document are the keys to delete.** -/
theorem dispatch_deleteXml {req : HttpRequest} {before after : Option Bool} {keys : List Text}
    (hkeys : keys ≠ []) (hlen : keys.length ≤ 1000) (hmethod : req.method = .post)
    (hpath : req.path = '/' :: B.text) (hquery : req.query = some "delete".toList)
    (hbody : req.body = .ok (utf8 (deleteXml before after keys))) :
    route req = .ok (.deleteObjects (String.ofList B.text) (keys.map String.ofList)
      ((before <|> after).getD false)) := by
  have hparam : (queryParam req.query "delete".toList).isSome = true := by
    rw [hquery]
    decide
  unfold route
  rw [hpath, splitPath_bucket]
  dsimp only
  rw [if_neg B.ne_nil, if_pos rfl]
  unfold HttpRequest.dispatchBucket
  dsimp only
  rw [if_pos ⟨hmethod, hparam⟩, hbody, Outcome.ok_bind, parseDeleteRequest_deleteXml _ _ hkeys,
    Outcome.ok_bind]
  exact if_neg (Nat.not_lt.mpr hlen)

/-- **The prefix of a listing is the key.** -/
theorem dispatch_listing {req : HttpRequest} (hmethod : req.method = .get)
    (hpath : req.path = '/' :: B.text)
    (hquery : req.query = some ("prefix=".toList ++ pctEncode false K)) :
    route req = .ok (.listObjects (String.ofList B.text) K [] 1000 []) := by
  have hamp : '&' ∉ "prefix".toList ++ '=' :: pctEncode false K := by
    have hencoded := @not_mem_pctEncode false '&' (by decide) (by decide) K
    simp only [List.mem_append, List.mem_cons, not_or]
    exact ⟨by decide, by decide, hencoded⟩
  have hparam : ∀ key, queryParam req.query key =
      if "prefix".toList = key then some K else none := by
    intro key
    rw [hquery, show "prefix=".toList ++ pctEncode false K =
      "prefix".toList ++ '=' :: pctEncode false K from rfl, queryParam_one (by decide) hamp,
      pctDecode_pctEncode]
  unfold route
  rw [hpath, splitPath_bucket]
  dsimp only
  rw [if_neg B.ne_nil, if_pos rfl]
  unfold HttpRequest.dispatchBucket
  dsimp only
  simp only [hparam, hmethod]
  rfl

end Names

/-! ### One key, one name -/

/-- **One key has one name exactly if percent-encoding leaves it alone.** -/
theorem oneKey_iff {B : BucketName} {K : Text} (hK : K ≠ []) :
    OneKey B K ↔ ∀ c ∈ K, isPathChar c = true := by
  rw [← pctEncode_eq_self_iff]
  constructor
  · intro h
    -- a deletion shows which key the path names
    have hname := (dispatch_objectPath hK rfl).symm.trans
      (h.path ⟨.delete, objectPath B K, none, [], .ok []⟩ rfl)
    injection hname with hname
    injection hname with hname
    injection hname with _ hkey
    exact String.ofList_injective hkey
  · intro h
    refine ⟨fun req hpath => ?_, parseCopySource_copySource hK, ?_, ?_⟩
    · rw [dispatch_objectPath hK hpath, h]
    · intro req before after keys hmem hlen hmethod hpath hquery hbody
      exact dispatch_deleteXml (List.ne_nil_of_mem hmem) hlen hmethod hpath hquery hbody
    · intro req hmethod hpath hquery
      exact dispatch_listing hmethod hpath hquery

/-- A bucket. -/
def bucketB : BucketName := ⟨['b'], by decide, List.forall_mem_singleton.mpr (by decide)⟩

theorem oneKey_iff_twoSegments :
    OneKey bucketB "a/b".toList ∧ ∀ c ∈ "a/b".toList, isPathChar c = true :=
  ⟨(oneKey_iff (by decide)).mpr (List.all_eq_true.mp (by decide)), List.all_eq_true.mp (by decide)⟩

/-- **A key with a blank has two names**: the object is stored under the encoded key, and a copy
looks for it under the key. -/
theorem two_names_for_a_key :
    route ⟨.put, objectPath bucketB "a b".toList, none, [], .ok []⟩ =
      .ok (.putObject ⟨"b", "a%20b"⟩ false (.ok (.object [] [] []))) ∧
    parseCopySource (copySource true bucketB "a b".toList) = .ok ("b".toList, "a b".toList) := by
  refine ⟨?_, parseCopySource_copySource (by decide) true⟩
  rw [dispatch_objectPath (by decide) rfl]
  decide

end OzoneRust
