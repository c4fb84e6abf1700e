import OzoneRust.Gateway.Codecs

/-!
# Tags, and the codecs together

A set of tags comes as an XML document, the one the gateway itself renders
(`OzoneRust.taggingXml`), or as a header in which keys and values are percent-encoded
(`OzoneRust.taggingHeader`). Both are read back as they were written, as long as the tags are
within the limits (`OzoneRust.parseTagging_taggingXml`,
`OzoneRust.parseTaggingHeader_taggingHeader`).

`OzoneRust.codecs_inverse` puts the decoders of requests together: each inverts its rendering,
whatever the text looks like.
-/

namespace OzoneRust

open Rewrite Text

/-! ### The document -/

/-- An element that holds text. -/
def elementXml (name text : Text) : Text := openTag name ++ (xmlEscape text ++ closeTag name)

/-- What is inside the `<Tag>` of a tag. -/
def tagInner (tag : Text × Text) : Text :=
  elementXml "Key".toList tag.1 ++ elementXml "Value".toList tag.2

/-- A tag in the document. -/
def tagXml (tag : Text × Text) : Text :=
  openTag "Tag".toList ++ (tagInner tag ++ closeTag "Tag".toList)

/-- `tagging_xml`. -/
def taggingXml (tags : List (Text × Text)) : Text :=
  "<?xml version=\"1.0\" encoding=\"UTF-8\"?>".toList ++
    ("<Tagging xmlns=\"http://s3.amazonaws.com/doc/2006-03-01/\">".toList ++ ("<TagSet>".toList ++
      (tags.flatMap tagXml ++ ("</TagSet>".toList ++ "</Tagging>".toList))))

theorem avoids_elementXml {name text tag : Text} (hopen : Avoids ('<' :: tag) (openTag name))
    (hclose : Avoids ('<' :: tag) (closeTag name)) :
    Avoids ('<' :: tag) (elementXml name text) :=
  hopen.append ((avoids_xmlEscape text).append hclose)

/-- How `parse_tagging` reads what is inside a `<Tag>`. -/
def readTag (block : Text) : Outcome GatewayError (Text × Text) :=
  match extractXmlElement block "Key".toList with
  | none => .err (.badRequest "tag missing <Key>")
  | some key =>
    .ok (xmlUnescape key, xmlUnescape ((extractXmlElement block "Value".toList).getD []))

theorem extractXmlElement_elementXml {name pre : Text} (hpre : Avoids (openTag name) pre)
    (text tail : Text) :
    extractXmlElement (pre ++ (elementXml name text ++ tail)) name = some (xmlEscape text) := by
  rw [elementXml, List.append_assoc, List.append_assoc]
  exact extractXmlElement_eq_some hpre (avoids_xmlEscape text) tail

/-- **A tag is read back**, whatever it spells. -/
theorem readTag_tagInner (tag : Text × Text) : readTag (tagInner tag) = .ok tag := by
  have hkey : extractXmlElement (tagInner tag) "Key".toList = some (xmlEscape tag.1) :=
    extractXmlElement_elementXml (avoids_nil _) tag.1 _
  have hpre : Avoids (openTag "Value".toList) (elementXml "Key".toList tag.1) :=
    avoids_elementXml (avoids_of_tails (by decide)) (avoids_of_tails (by decide))
  have hvalue : extractXmlElement (tagInner tag) "Value".toList = some (xmlEscape tag.2) := by
    have h := extractXmlElement_elementXml hpre tag.2 []
    rwa [List.append_nil] at h
  rw [readTag, hkey]
  simp only [hvalue, Option.getD_some, xmlUnescape_xmlEscape]

/-- Nothing in a tag looks like its end. -/
theorem avoids_tagInner (tag : Text × Text) : Avoids (closeTag "Tag".toList) (tagInner tag) :=
  (avoids_elementXml (avoids_of_tails (by decide)) (avoids_of_tails (by decide))).append
    (avoids_elementXml (avoids_of_tails (by decide)) (avoids_of_tails (by decide)))

/-- The loop of `parse_tagging`. -/
def readTags (xs : Text) : Outcome GatewayError (List (Text × Text)) :=
  elements false "Tag".toList (.badRequest "malformed Tagging: unterminated <Tag>") readTag xs

theorem readTags_tagXml {after : Text} (hafter : Avoids (openTag "Tag".toList) after)
    (tags : List (Text × Text)) : ∀ pre, Avoids (openTag "Tag".toList) pre →
      readTags (pre ++ (tags.flatMap tagXml ++ after)) = .ok tags := by
  induction tags with
  | nil => exact fun pre hpre => elements_of_avoids (hpre.append hafter)
  | cons tag tags ih =>
    intro pre hpre
    have hrest := ih [] (avoids_nil _)
    rw [List.flatMap_cons, tagXml, List.append_assoc, List.append_assoc, List.append_assoc,
      readTags, elements_cons hpre (avoids_tagInner tag), readTag_tagInner, Outcome.ok_bind]
    exact (congrArg (· >>= fun bs => pure (tag :: bs)) hrest).trans rfl

/-- **The document of tags is read back.** -/
theorem parseTagging_taggingXml {tags : List (Text × Text)} (h : validateTags tags = .ok ()) :
    parseTagging (utf8 (taggingXml tags)) = .ok tags := by
  have hread : readTags (taggingXml tags) = .ok tags := by
    have hpre : Avoids (openTag "Tag".toList)
        ("<?xml version=\"1.0\" encoding=\"UTF-8\"?>".toList ++
        ("<Tagging xmlns=\"http://s3.amazonaws.com/doc/2006-03-01/\">".toList ++
          "<TagSet>".toList)) :=
      Avoids.append (avoids_of_tails (by decide +kernel))
        (Avoids.append (avoids_of_tails (by decide +kernel)) (avoids_of_tails (by decide +kernel)))
    have hafter : Avoids (openTag "Tag".toList) ("</TagSet>".toList ++ "</Tagging>".toList) :=
      Avoids.append (avoids_of_tails (by decide +kernel)) (avoids_of_tails (by decide +kernel))
    have hread := readTags_tagXml hafter tags _ hpre
    rw [List.append_assoc, List.append_assoc] at hread
    exact hread
  unfold parseTagging
  rw [lossy_utf8]
  refine (congrArg (· >>= _) hread).trans ?_
  rw [Outcome.ok_bind, h]
  rfl

/-! ### The header -/

/-- A tag in the header. -/
def tagPair (tag : Text × Text) : Text := pctEncode false tag.1 ++ '=' :: pctEncode false tag.2

/-- The header a client sends for some tags. -/
def taggingHeader (tags : List (Text × Text)) : Text := ['&'].intercalate (tags.map tagPair)

/-- What is encoded has no separator and no white space. -/
theorem pctEncode_char {s : Text} {c : Char} (hc : c ∈ pctEncode false s) :
    c ≠ '&' ∧ c ≠ '=' ∧ isWhiteSpace c = false := by
  have hall : ∀ n < 256, (pctByte false (UInt8.ofNat n)).all (fun b =>
      ofByte b != '&' && ofByte b != '=' && !isWhiteSpace (ofByte b)) = true := by decide +kernel
  obtain ⟨b, hb, rfl⟩ := List.mem_map.mp hc
  obtain ⟨b', -, hmem⟩ := List.mem_flatMap.mp hb
  have hone := hall b'.toNat b'.toNat_lt
  rw [UInt8.ofNat_toNat] at hone
  simpa [and_assoc] using List.all_eq_true.mp hone b hmem

theorem tagPair_char {tag : Text × Text} {c : Char} (hc : c ∈ tagPair tag) :
    c ≠ '&' ∧ isWhiteSpace c = false := by
  rcases List.mem_append.mp hc with hc | hc
  · exact ⟨(pctEncode_char hc).1, (pctEncode_char hc).2.2⟩
  rcases List.mem_cons.mp hc with rfl | hc
  · exact ⟨by decide, by decide⟩
  · exact ⟨(pctEncode_char hc).1, (pctEncode_char hc).2.2⟩

theorem splitOnce_tagPair (tag : Text × Text) :
    splitOnce '=' (tagPair tag) = some (pctEncode false tag.1, pctEncode false tag.2) :=
  splitOnce_append (fun h => (pctEncode_char h).2.1 rfl) _

/-- The header begins with its first tag, and has no white space. -/
theorem taggingHeader_cons : ∀ (tag : Text × Text) (tags : List (Text × Text)),
    (∃ rest, taggingHeader (tag :: tags) = tagPair tag ++ rest) ∧
      ∀ c ∈ taggingHeader (tag :: tags), isWhiteSpace c = false
  | tag, [] => by
    have hone : taggingHeader [tag] = tagPair tag := by simp [taggingHeader, List.intercalate]
    rw [hone]
    exact ⟨⟨[], (List.append_nil _).symm⟩, fun c hc => (tagPair_char hc).2⟩
  | tag, tag' :: tags => by
    have hmore : taggingHeader (tag :: tag' :: tags) =
        tagPair tag ++ '&' :: taggingHeader (tag' :: tags) := by
      simp [taggingHeader, List.intercalate]
    rw [hmore]
    refine ⟨⟨_, rfl⟩, fun c hc => ?_⟩
    rcases List.mem_append.mp hc with hc | hc
    · exact (tagPair_char hc).2
    rcases List.mem_cons.mp hc with rfl | hc
    · decide
    · exact (taggingHeader_cons tag' tags).2 c hc

/-- **The header of tags is read back.** -/
theorem parseTaggingHeader_taggingHeader {tags : List (Text × Text)}
    (h : validateTags tags = .ok ()) : parseTaggingHeader (taggingHeader tags) = .ok tags := by
  cases tags with
  | nil => rfl
  | cons tag tags =>
    obtain ⟨⟨rest, hrest⟩, hspace⟩ := taggingHeader_cons tag tags
    have hne : taggingHeader (tag :: tags) ≠ [] := by
      rw [hrest, tagPair]
      simp
    have hsplit : (taggingHeader (tag :: tags)).splitOn '&' = (tag :: tags).map tagPair := by
      refine List.splitOn_intercalate '&' (fun pair hpair hmem => ?_) (by simp)
      obtain ⟨tag', -, rfl⟩ := List.mem_map.mp hpair
      exact (tagPair_char hmem).1 rfl
    have hread : ((tag :: tags).map tagPair).map (fun kv =>
        let pair := (splitOnce '=' kv).getD (kv, [])
        (pctDecode pair.1, pctDecode pair.2)) = tag :: tags := by
      rw [List.map_map]
      refine List.map_id'' (fun tag => ?_) _
      simp only [Function.comp, splitOnce_tagPair, Option.getD_some, pctDecode_pctEncode]
    unfold parseTaggingHeader
    dsimp only
    rw [trim_eq_self hspace, if_neg hne, hsplit, hread, h]
    rfl

/-! ### The codecs -/

/-- **The decoders invert the renderings**: escaped text, tags in a document and in a header, and
the keys and the flag of a `DeleteObjects` document, whose element for the flag comes before or
after the keys. -/
theorem codecs_inverse :
    (∀ s, xmlUnescape (xmlEscape s) = s) ∧
    (∀ tags, validateTags tags = .ok () → parseTagging (utf8 (taggingXml tags)) = .ok tags ∧
      parseTaggingHeader (taggingHeader tags) = .ok tags) ∧
    (∀ keys, keys ≠ [] → ∀ quiet,
      parseDeleteRequest (utf8 (deleteXml (some quiet) none keys)) = .ok (keys, quiet) ∧
      parseDeleteRequest (utf8 (deleteXml none (some quiet) keys)) = .ok (keys, quiet)) := by
  refine ⟨xmlUnescape_xmlEscape, fun tags h => ?_, fun keys hkeys quiet => ?_⟩
  · exact ⟨parseTagging_taggingXml h, parseTaggingHeader_taggingHeader h⟩
  · exact ⟨parseDeleteRequest_deleteXml _ _ hkeys, parseDeleteRequest_deleteXml _ _ hkeys⟩

/-- A tag and a key that look like markup. -/
theorem codecs_inverse_markup :
    validateTags [("</Tag>".toList, "a=b&c".toList)] = .ok () ∧
      parseTagging (utf8 (taggingXml [("</Tag>".toList, "a=b&c".toList)])) =
        .ok [("</Tag>".toList, "a=b&c".toList)] ∧
      parseDeleteRequest (utf8 (deleteXml (some true) none ["<Quiet>false</Quiet>".toList])) =
        .ok (["<Quiet>false</Quiet>".toList], true) :=
  have hvalid : validateTags [("</Tag>".toList, "a=b&c".toList)] = .ok () := by decide +kernel
  ⟨hvalid, (codecs_inverse.2.1 _ hvalid).1,
    (codecs_inverse.2.2 _ (List.cons_ne_nil _ _) true).1⟩

end OzoneRust
