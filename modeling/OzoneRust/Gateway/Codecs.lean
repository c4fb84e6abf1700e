import OzoneRust.Gateway.Parsing

/-!
# The codecs of requests

A client percent-encodes what it puts into a path, a query or a header
(`OzoneRust.pctEncode`), and escapes what it puts into XML. The gateway's decoders invert both:
`OzoneRust.pctDecode_pctEncode` and `OzoneRust.xmlUnescape_xmlEscape`, for every text. A key in
a document has no `<` once it is escaped (`OzoneRust.lt_not_mem_xmlEscape`), so it cannot be
taken for a tag (`OzoneRust.avoids_xmlEscape`), and the keys of a `DeleteObjects` document are
read back as they were written (`OzoneRust.parseDeleteRequest_deleteXml`).
-/

namespace OzoneRust

open Rewrite Text

/-! ### XML -/

section Xml

/-- A character, with its own text for the three that are escaped. -/
def xmlPiece (lt gt amp : Text) (c : Char) : Text :=
  if c = '&' then amp else if c = '<' then lt else if c = '>' then gt else [c]

theorem flatMap_xmlPiece (s : Text) : s.flatMap (xmlPiece ['<'] ['>'] ['&']) = s := by
  have hpiece : ∀ c ∈ s, xmlPiece ['<'] ['>'] ['&'] c = [c] := by
    intro c _
    unfold xmlPiece
    split_ifs with h₁ h₂ h₃
    · rw [h₁]
    · rw [h₂]
    · rw [h₃]
    · rfl
  rw [List.flatMap_congr hpiece, List.flatMap_singleton']

/-- A replacement in a text of such pieces, where it replaces at most those of one of the three
characters. -/
theorem replace_xmlPiece {a : Char} {p new lt gt amp lt' gt' amp' : Text}
    (hamp : amp = a :: p ∧ amp' = new ∨ amp' = amp ∧ Avoids (a :: p) amp)
    (hlt : lt = a :: p ∧ lt' = new ∨ lt' = lt ∧ Avoids (a :: p) lt)
    (hgt : gt = a :: p ∧ gt' = new ∨ gt' = gt ∧ Avoids (a :: p) gt)
    (ha : a = '&' ∨ a = '<' ∨ a = '>') (s : Text) :
    replace (a :: p) new (s.flatMap (xmlPiece lt gt amp)) = s.flatMap (xmlPiece lt' gt' amp') := by
  refine replace_flatMap (List.cons_ne_nil a p) fun c _ => ?_
  unfold xmlPiece
  split_ifs with h₁ h₂ h₃
  · exact hamp
  · exact hlt
  · exact hgt
  · refine .inr ⟨rfl, avoids_of_not_mem fun hmem => ?_⟩
    rw [List.mem_singleton] at hmem
    subst hmem
    exact ha.elim h₁ fun h => h.elim h₂ h₃

theorem xmlEscape_eq (s : Text) :
    xmlEscape s = s.flatMap (xmlPiece "&lt;".toList "&gt;".toList "&amp;".toList) := by
  have hamp : replace ['&'] "&amp;".toList s = s.flatMap (xmlPiece ['<'] ['>'] "&amp;".toList) := by
    have h : replace ['&'] "&amp;".toList (s.flatMap (xmlPiece ['<'] ['>'] ['&'])) =
        s.flatMap (xmlPiece ['<'] ['>'] "&amp;".toList) :=
      replace_xmlPiece (.inl ⟨rfl, rfl⟩) (.inr ⟨rfl, avoids_of_tails (by decide)⟩)
        (.inr ⟨rfl, avoids_of_tails (by decide)⟩) (.inl rfl) s
    rwa [flatMap_xmlPiece] at h
  rw [xmlEscape, hamp,
    replace_xmlPiece (.inr ⟨rfl, avoids_of_tails (by decide)⟩) (.inl ⟨rfl, rfl⟩)
      (.inr ⟨rfl, avoids_of_tails (by decide)⟩) (.inr (.inl rfl)),
    replace_xmlPiece (.inr ⟨rfl, avoids_of_tails (by decide)⟩)
      (.inr ⟨rfl, avoids_of_tails (by decide)⟩) (.inl ⟨rfl, rfl⟩) (.inr (.inr rfl))]

/-- **Unescaping inverts escaping**, whatever the text spells. -/
theorem xmlUnescape_xmlEscape (s : Text) : xmlUnescape (xmlEscape s) = s := by
  have hlt : replace "&lt;".toList ['<'] (xmlEscape s) =
      s.flatMap (xmlPiece ['<'] "&gt;".toList "&amp;".toList) := by
    rw [xmlEscape_eq]
    exact replace_xmlPiece (.inr ⟨rfl, avoids_of_tails (by decide)⟩) (.inl ⟨rfl, rfl⟩)
      (.inr ⟨rfl, avoids_of_tails (by decide)⟩) (.inl rfl) s
  have hgt : replace "&gt;".toList ['>'] (s.flatMap (xmlPiece ['<'] "&gt;".toList "&amp;".toList)) =
      s.flatMap (xmlPiece ['<'] ['>'] "&amp;".toList) :=
    replace_xmlPiece (.inr ⟨rfl, avoids_of_tails (by decide)⟩)
      (.inr ⟨rfl, avoids_of_tails (by decide)⟩) (.inl ⟨rfl, rfl⟩) (.inl rfl) s
  -- the text has none of the other two entities now: what looks like one still has its `&amp;`
  have hquot : replace "&quot;".toList ['"'] (s.flatMap (xmlPiece ['<'] ['>'] "&amp;".toList)) =
      s.flatMap (xmlPiece ['<'] ['>'] "&amp;".toList) :=
    replace_xmlPiece (.inr ⟨rfl, avoids_of_tails (by decide)⟩)
      (.inr ⟨rfl, avoids_of_tails (by decide)⟩) (.inr ⟨rfl, avoids_of_tails (by decide)⟩)
      (.inl rfl) s
  have hapos : replace "&apos;".toList ['\''] (s.flatMap (xmlPiece ['<'] ['>'] "&amp;".toList)) =
      s.flatMap (xmlPiece ['<'] ['>'] "&amp;".toList) :=
    replace_xmlPiece (.inr ⟨rfl, avoids_of_tails (by decide)⟩)
      (.inr ⟨rfl, avoids_of_tails (by decide)⟩) (.inr ⟨rfl, avoids_of_tails (by decide)⟩)
      (.inl rfl) s
  have hamp : replace "&amp;".toList ['&'] (s.flatMap (xmlPiece ['<'] ['>'] "&amp;".toList)) =
      s.flatMap (xmlPiece ['<'] ['>'] ['&']) :=
    replace_xmlPiece (.inl ⟨rfl, rfl⟩) (.inr ⟨rfl, avoids_of_tails (by decide)⟩)
      (.inr ⟨rfl, avoids_of_tails (by decide)⟩) (.inl rfl) s
  rw [xmlUnescape, hlt, hgt, hquot, hapos, hamp, flatMap_xmlPiece]

/-- Escaped text has no `<`. -/
theorem lt_not_mem_xmlEscape (s : Text) : '<' ∉ xmlEscape s := by
  rw [xmlEscape_eq, List.mem_flatMap]
  rintro ⟨c, -, hmem⟩
  unfold xmlPiece at hmem
  split_ifs at hmem with h₁ h₂ h₃
  · revert hmem
    decide
  · revert hmem
    decide
  · revert hmem
    decide
  · exact h₂ (List.mem_singleton.mp hmem).symm

/-- Escaped text cannot be taken for a tag. -/
theorem avoids_xmlEscape {tag : Text} (s : Text) : Avoids ('<' :: tag) (xmlEscape s) :=
  avoids_of_not_mem (lt_not_mem_xmlEscape s)

/-! An element of a document is found if what is before it avoids its opening tag. -/

section Elements

variable {β : Type} {keepClose : Bool} {name : Text} {unclosed : GatewayError}
  {read : Text → Outcome GatewayError β}

theorem elements_of_avoids {xs : Text} (h : Avoids (openTag name) xs) :
    elements keepClose name unclosed read xs = .ok [] := by
  rw [elements]
  split
  · rfl
  · next _ hcut =>
    cases (cut_eq_none (List.cons_ne_nil _ _) h).symm.trans hcut

theorem cut_openTag {pre : Text} (hpre : Avoids (openTag name) pre) (rest : Text) :
    cut (openTag name) (pre ++ (openTag name ++ rest)) = some (pre, rest) :=
  cut_append (List.cons_ne_nil _ _) hpre rest

theorem cut_closeTag {inner : Text} (hinner : Avoids (closeTag name) inner) (tail : Text) :
    cut (closeTag name) (inner ++ (closeTag name ++ tail)) = some (inner, tail) :=
  cut_append (List.cons_ne_nil _ _) hinner tail

theorem elements_cons {pre inner tail : Text} (hpre : Avoids (openTag name) pre)
    (hinner : Avoids (closeTag name) inner) :
    elements keepClose name unclosed read
        (pre ++ (openTag name ++ (inner ++ (closeTag name ++ tail)))) =
      (read inner >>= fun b =>
        elements keepClose name unclosed read (resume keepClose name tail) >>= fun bs =>
          pure (b :: bs)) := by
  rw [elements]
  split
  · next hcut => cases (cut_openTag hpre _).symm.trans hcut
  · next _ rest hcut =>
    cases (cut_openTag hpre _).symm.trans hcut
    split
    · next hcut' => cases (cut_closeTag hinner _).symm.trans hcut'
    · next inner' tail' hcut' =>
      cases (cut_closeTag hinner _).symm.trans hcut'
      rfl

theorem extractXmlElement_eq_some {pre inner : Text} (hpre : Avoids (openTag name) pre)
    (hinner : Avoids (closeTag name) inner) (tail : Text) :
    extractXmlElement (pre ++ (openTag name ++ (inner ++ (closeTag name ++ tail)))) name =
      some inner := by
  unfold extractXmlElement
  rw [cut_openTag hpre, Option.bind_eq_bind, Option.bind_some, cut_closeTag hinner]
  rfl

theorem extractXmlElement_eq_none {xs : Text} (h : Avoids (openTag name) xs) :
    extractXmlElement xs name = none := by
  have hcut : cut (openTag name) xs = none := cut_eq_none (List.cons_ne_nil _ _) h
  unfold extractXmlElement
  rw [hcut]
  rfl

end Elements

/-! ### The document of `DeleteObjects` -/

/-- A key in the document. -/
def objectXml (key : Text) : Text :=
  "<Object>".toList ++ (openTag "Key".toList ++ (xmlEscape key ++ (closeTag "Key".toList ++
    "</Object>".toList)))

/-- The element that asks for a quiet answer, or not. -/
def quietXml (quiet : Bool) : Text :=
  openTag "Quiet".toList ++ ((if quiet then "true".toList else "false".toList) ++
    closeTag "Quiet".toList)

/-- The document a client sends to delete keys: the element comes before them, after them, or
not at all. -/
def deleteXml (before after : Option Bool) (keys : List Text) : Text :=
  "<Delete>".toList ++ ((before.elim [] quietXml) ++ (keys.flatMap objectXml ++
    ((after.elim [] quietXml) ++ "</Delete>".toList)))

theorem objectXml_append (key tail : Text) :
    objectXml key ++ tail = "<Object>".toList ++ (openTag "Key".toList ++ (xmlEscape key ++
      (closeTag "Key".toList ++ ("</Object>".toList ++ tail)))) := by
  have hassoc : ∀ a b c d e : Text,
      a ++ (b ++ (c ++ (d ++ e))) ++ tail = a ++ (b ++ (c ++ (d ++ (e ++ tail)))) := by
    intro a b c d e
    simp only [List.append_assoc]
  exact hassoc _ _ _ _ _

/-- A key cannot be taken for the other element. -/
theorem avoids_objectXml (key : Text) : Avoids (openTag "Quiet".toList) (objectXml key) := by
  refine Avoids.append (avoids_of_tails (by decide)) ?_
  refine Avoids.append (avoids_of_tails (by decide)) ?_
  refine Avoids.append (avoids_xmlEscape key) ?_
  exact Avoids.append (avoids_of_tails (by decide)) (avoids_of_tails (by decide))

theorem avoids_quietXml (quiet : Option Bool) :
    Avoids (openTag "Key".toList) (quiet.elim [] quietXml) := by
  rcases quiet with _ | _ | _
  · exact avoids_nil _
  · exact avoids_of_tails (by decide)
  · exact avoids_of_tails (by decide)

/-- The loop over the keys of a document. -/
def readKeys (xs : Text) : Outcome GatewayError (List Text) :=
  elements true "Key".toList (.badRequest "malformed Delete request")
    (fun inner => .ok (xmlUnescape inner)) xs

theorem readKeys_cons {pre tail key : Text} (hpre : Avoids (openTag "Key".toList) pre) :
    readKeys (pre ++ (openTag "Key".toList ++ (xmlEscape key ++ (closeTag "Key".toList ++ tail)))) =
      (readKeys (closeTag "Key".toList ++ tail) >>= fun keys => pure (key :: keys)) := by
  rw [readKeys, elements_cons hpre (avoids_xmlEscape key), xmlUnescape_xmlEscape,
    Outcome.ok_bind, resume, if_pos rfl, readKeys]

/-- **The keys of a document are read back**, whatever they spell. -/
theorem readKeys_objectXml {after : Text} (hafter : Avoids (openTag "Key".toList) after)
    (keys : List Text) : ∀ pre, Avoids (openTag "Key".toList) pre →
      readKeys (pre ++ (keys.flatMap objectXml ++ after)) = .ok keys := by
  induction keys with
  | nil =>
    intro pre hpre
    exact elements_of_avoids (hpre.append hafter)
  | cons key keys ih =>
    intro pre hpre
    have hobject : Avoids (openTag "Key".toList) (pre ++ "<Object>".toList) :=
      hpre.append (avoids_of_tails (by decide))
    have hclose : Avoids (openTag "Key".toList) (closeTag "Key".toList ++ "</Object>".toList) :=
      Avoids.append (avoids_of_tails (by decide)) (avoids_of_tails (by decide))
    have hcons : readKeys ((pre ++ "<Object>".toList) ++ (openTag "Key".toList ++ (xmlEscape key ++
        (closeTag "Key".toList ++ ("</Object>".toList ++ (keys.flatMap objectXml ++ after)))))) =
        .ok (key :: keys) := by
      rw [readKeys_cons hobject, ← List.append_assoc (closeTag _), ih _ hclose]
      rfl
    rw [List.flatMap_cons, List.append_assoc, objectXml_append]
    rwa [List.append_assoc] at hcons

/-- Whether a document asks for a quiet answer. -/
theorem extractXmlElement_deleteXml (before after : Option Bool) (keys : List Text) :
    extractXmlElement (deleteXml before after keys) "Quiet".toList =
      (before <|> after).map fun quiet => if quiet then "true".toList else "false".toList := by
  have hdelete : Avoids (openTag "Quiet".toList) "<Delete>".toList := avoids_of_tails (by decide)
  have hkeys : Avoids (openTag "Quiet".toList) (keys.flatMap objectXml) :=
    Avoids.flatMap fun key _ => avoids_objectXml key
  have hend : Avoids (openTag "Quiet".toList) "</Delete>".toList := avoids_of_tails (by decide)
  have hfound : ∀ (pre tail : Text) (quiet : Bool), Avoids (openTag "Quiet".toList) pre →
      extractXmlElement (pre ++ (quietXml quiet ++ tail)) "Quiet".toList =
        some (if quiet then "true".toList else "false".toList) := by
    intro pre tail quiet hpre
    have hvalue : '<' ∉ (if quiet then "true".toList else "false".toList) := by
      cases quiet <;> decide
    rw [quietXml, List.append_assoc, List.append_assoc]
    exact extractXmlElement_eq_some hpre (avoids_of_not_mem hvalue) tail
  rcases before with _ | quiet
  · rcases after with _ | quiet
    · exact extractXmlElement_eq_none (hdelete.append (hkeys.append hend))
    · have h := hfound ("<Delete>".toList ++ keys.flatMap objectXml) "</Delete>".toList quiet
        (hdelete.append hkeys)
      rw [List.append_assoc] at h
      exact h
  · exact hfound "<Delete>".toList _ quiet hdelete

/-- **The document of `DeleteObjects` is read back**: the keys in order, and the flag. -/
theorem parseDeleteRequest_deleteXml (before after : Option Bool) {keys : List Text}
    (hkeys : keys ≠ []) :
    parseDeleteRequest (utf8 (deleteXml before after keys)) =
      .ok (keys, (before <|> after).getD false) := by
  have hread : readKeys (deleteXml before after keys) = .ok keys := by
    have hpre : Avoids (openTag "Key".toList) ("<Delete>".toList ++ before.elim [] quietXml) :=
      Avoids.append (avoids_of_tails (by decide)) (avoids_quietXml before)
    have hafter : Avoids (openTag "Key".toList) (after.elim [] quietXml ++ "</Delete>".toList) :=
      (avoids_quietXml after).append (avoids_of_tails (by decide))
    have h := readKeys_objectXml hafter keys _ hpre
    rw [List.append_assoc] at h
    exact h
  have hquiet : (((before <|> after).map fun quiet =>
      if quiet then "true".toList else "false".toList).map fun v =>
        eqIgnoreAsciiCase (trim v) "true".toList).getD false = (before <|> after).getD false := by
    rcases before <|> after with _ | _ | _ <;> decide
  unfold parseDeleteRequest
  dsimp only
  rw [lossy_utf8, extractXmlElement_deleteXml, hquiet]
  exact (congrArg (· >>= _) hread).trans (if_neg hkeys)

end Xml

/-! ### Percent-encoding -/

section Percent

/-- The bytes that stand for themselves everywhere: letters, digits and `-._~`. -/
def isUnreserved (b : UInt8) : Bool :=
  (0x30 ≤ b && b ≤ 0x39) || (0x41 ≤ b && b ≤ 0x5A) || (0x61 ≤ b && b ≤ 0x7A) ||
    [0x2D, 0x2E, 0x5F, 0x7E].contains b

/-- The bytes a client does not encode. In the path of an object it leaves the slashes. -/
def isKept (slash : Bool) (b : UInt8) : Bool := isUnreserved b || (slash && b == 0x2F)

/-- A hexadecimal digit. -/
def hexByte (n : ℕ) : UInt8 := if n < 10 then UInt8.ofNat (0x30 + n) else UInt8.ofNat (0x37 + n)

/-- A byte as the client sends it. -/
def pctByte (slash : Bool) (b : UInt8) : List UInt8 :=
  if isKept slash b then [b] else [0x25, hexByte (b.toNat / 16), hexByte (b.toNat % 16)]

/-- What a client sends for a text. -/
def pctEncode (slash : Bool) (s : Text) : Text := ((utf8 s).flatMap (pctByte slash)).map ofByte

variable {slash : Bool} {b : UInt8}

theorem isKept_bounds (h : isKept slash b = true) : b < 128 ∧ b ≠ 0x2B ∧ b ≠ 0x25 := by
  have hall : ∀ n < 256, ∀ slash, isKept slash (UInt8.ofNat n) = true →
      UInt8.ofNat n < 128 ∧ UInt8.ofNat n ≠ 0x2B ∧ UInt8.ofNat n ≠ 0x25 := by decide +kernel
  have hb := hall b.toNat b.toNat_lt slash
  rw [UInt8.ofNat_toNat] at hb
  exact hb h

theorem hexByte_spec : ∀ n < 16, hexDigit (hexByte n) = some n ∧ hexByte n < 128 := by decide

theorem pctByte_lt (slash : Bool) (b : UInt8) : ∀ b' ∈ pctByte slash b, b' < 128 := by
  have hb := b.toNat_lt
  unfold pctByte
  split_ifs with hkept
  · intro b' hb'
    rw [List.mem_singleton.mp hb']
    exact (isKept_bounds hkept).1
  · intro b' hb'
    simp only [List.mem_cons, List.not_mem_nil, or_false] at hb'
    rcases hb' with rfl | rfl | rfl
    · decide
    · exact (hexByte_spec _ (by omega)).2
    · exact (hexByte_spec _ (by omega)).2

theorem utf8_pctEncode (slash : Bool) (s : Text) :
    utf8 (pctEncode slash s) = (utf8 s).flatMap (pctByte slash) := by
  refine utf8_map_ofByte fun b hb => ?_
  obtain ⟨b', -, hb'⟩ := List.mem_flatMap.mp hb
  exact pctByte_lt slash b' b hb'

theorem pctRule_of_ne (hplus : b ≠ 0x2B) (hpct : b ≠ 0x25) (rest : List UInt8) :
    pctRule (b :: rest) = ([b], 0) :=
  (if_neg hplus).trans (if_neg hpct)

theorem pctRule_pct {hi lo : UInt8} {m n : ℕ} (hhi : hexDigit hi = some m)
    (hlo : hexDigit lo = some n) (rest : List UInt8) :
    pctRule (0x25 :: hi :: lo :: rest) = ([UInt8.ofNat (m * 16 + n)], 2) := by
  simp [pctRule, hhi, hlo]

/-- An encoded byte is decoded, whatever comes after it. -/
theorem rewrite_pctByte (slash : Bool) (b : UInt8) (rest : List UInt8) :
    rewrite pctRule (pctByte slash b ++ rest) = [b] ++ rewrite pctRule rest := by
  unfold pctByte
  split_ifs with hkept
  · obtain ⟨-, hplus, hpct⟩ := isKept_bounds hkept
    exact rewrite_append (List.cons_ne_nil b []) (pctRule_of_ne hplus hpct rest)
  · have hb := b.toNat_lt
    have hhi := (hexByte_spec (b.toNat / 16) (by omega)).1
    have hlo := (hexByte_spec (b.toNat % 16) (by omega)).1
    have hrule := pctRule_pct hhi hlo rest
    rw [show b.toNat / 16 * 16 + b.toNat % 16 = b.toNat by omega, UInt8.ofNat_toNat] at hrule
    exact rewrite_append (List.cons_ne_nil _ _) hrule

/-- **Percent-decoding inverts percent-encoding**, for every text. -/
theorem pctDecode_pctEncode (slash : Bool) (s : Text) : pctDecode (pctEncode slash s) = s := by
  rw [pctDecode, utf8_pctEncode, rewrite_flatMap fun b _ => rewrite_pctByte slash b,
    List.flatMap_singleton', lossy_utf8]

/-- The characters a client does not encode in the path of an object. -/
def isPathChar (c : Char) : Bool := c.isAlphanum || ['-', '.', '_', '~', '/'].contains c

theorem isPathChar_ofByte (h : isKept true b = true) : isPathChar (ofByte b) = true := by
  have hall : ∀ n < 256, isKept true (UInt8.ofNat n) = true →
      isPathChar (ofByte (UInt8.ofNat n)) = true := by decide +kernel
  have hb := hall b.toNat b.toNat_lt
  rw [UInt8.ofNat_toNat] at hb
  exact hb h

theorem toNat_lt_of_isPathChar {c : Char} (h : isPathChar c = true) : c.toNat < 128 := by
  have hle : ∀ d : Char, d.toNat < 128 → c.val ≤ d.val → c.toNat < 128 := fun d hd hcd =>
    (UInt32.le_iff_toNat_le.mp hcd).trans_lt hd
  rcases (Bool.or_eq_true _ _).mp h with h | h
  · rcases (Bool.or_eq_true _ _).mp h with h | h
    · rcases (Bool.or_eq_true _ _).mp h with h | h
      · exact hle 'Z' (by decide) (of_decide_eq_true h).2
      · exact hle 'z' (by decide) (of_decide_eq_true ((Bool.and_eq_true _ _).mp h).2)
    · exact hle '9' (by decide) (of_decide_eq_true ((Bool.and_eq_true _ _).mp h).2)
  · have hall : ∀ c ∈ ['-', '.', '_', '~', '/'], c.toNat < 128 := by simp
    exact hall c (List.contains_iff_mem.mp h)

theorem exists_byte_of_isPathChar {c : Char} (h : isPathChar c = true) :
    ∃ b, String.utf8EncodeChar c = [b] ∧ isKept true b = true ∧ ofByte b = c := by
  have hall : ∀ n < 128, isPathChar (Char.ofNat n) = true →
      isKept true (UInt8.ofNat n) = true ∧ ofByte (UInt8.ofNat n) = Char.ofNat n := by
    decide +kernel
  have hlt := toNat_lt_of_isPathChar h
  have hc := hall c.toNat hlt
  rw [Char.ofNat_toNat] at hc
  obtain ⟨hkept, hof⟩ := hc h
  refine ⟨UInt8.ofNat c.toNat, ?_, hkept, hof⟩
  have hutf8 := utf8_ofByte (isKept_bounds hkept).1
  rwa [hof] at hutf8

theorem length_le_flatMap_pctByte (slash : Bool) (bs : List UInt8) :
    bs.length ≤ (bs.flatMap (pctByte slash)).length ∧
      ((∃ b ∈ bs, isKept slash b = false) → bs.length < (bs.flatMap (pctByte slash)).length) := by
  induction bs with
  | nil => simp
  | cons b bs ih =>
    rw [List.flatMap_cons, List.length_append, List.length_cons]
    cases hb : isKept slash b with
    | true =>
      have hone : (pctByte slash b).length = 1 := by rw [pctByte, if_pos hb]; rfl
      refine ⟨by omega, ?_⟩
      rintro ⟨b', hb', hnot⟩
      rcases List.mem_cons.mp hb' with rfl | hmem
      · rw [hb] at hnot
        cases hnot
      · have hlt := ih.2 ⟨b', hmem, hnot⟩
        omega
    | false =>
      have hthree : (pctByte slash b).length = 3 := by
        rw [pctByte, if_neg (by rw [hb]; decide)]
        rfl
      omega

theorem length_le_utf8 (s : Text) : s.length ≤ (utf8 s).length := by
  induction s with
  | nil => rfl
  | cons c s ih =>
    have hpos := c.utf8Size_pos
    rw [utf8, List.flatMap_cons, List.length_append, String.length_utf8EncodeChar, List.length_cons]
    rw [utf8] at ih
    omega

/-- **Encoding a path leaves a key alone exactly if no character of it is encoded.** -/
theorem pctEncode_eq_self_iff {s : Text} :
    pctEncode true s = s ↔ ∀ c ∈ s, isPathChar c = true := by
  constructor
  · intro h
    -- encoding a byte makes the text longer
    have hkept : ∀ b ∈ utf8 s, isKept true b = true := by
      intro b hb
      by_contra hnot
      have hlt := (length_le_flatMap_pctByte true (utf8 s)).2 ⟨b, hb, Bool.eq_false_iff.mpr hnot⟩
      have hlen := congrArg List.length h
      rw [pctEncode, List.length_map] at hlen
      have hle := length_le_utf8 s
      omega
    intro c hc
    rw [← h, pctEncode] at hc
    obtain ⟨b, hb, rfl⟩ := List.mem_map.mp hc
    obtain ⟨b', hb', hmem⟩ := List.mem_flatMap.mp hb
    rw [pctByte, if_pos (hkept b' hb'), List.mem_singleton] at hmem
    rw [hmem]
    exact isPathChar_ofByte (hkept b' hb')
  · intro h
    induction s with
    | nil => rfl
    | cons c s ih =>
      obtain ⟨b, hutf8, hkept, hof⟩ := exists_byte_of_isPathChar (h c List.mem_cons_self)
      have hs := ih fun c' hc' => h c' (List.mem_cons_of_mem c hc')
      rw [pctEncode, utf8] at hs
      rw [pctEncode, utf8, List.flatMap_cons, hutf8, List.singleton_append, List.flatMap_cons,
        pctByte, if_pos hkept, List.singleton_append, List.map_cons, hof, hs]

end Percent

end OzoneRust
