import OzoneRust.Gateway.Changes
import OzoneRust.Gateway.ListObjects
import OzoneRust.Lib.AssocList
import OzoneRust.Lib.Text

/-!
# The ETag of an object

`put_object`, `copy_object` and `complete_multipart` return the ETag of what they have written,
and `head_object`, `get_object` and `list_objects` report one later. The ETag is an entry `ETAG`
of the metadata, which a commit appends to the metadata of the user. If those already have such an
entry there are two, and then the readers find the first, that of the user.

A copy that keeps the metadata of its source has all of it for the metadata of the user, the
source's own `ETAG` included. That entry is the last one of the source, since the metadata is
read into a map. So a copy reports the ETag of its source. For a source that is itself an
ordinary object that is the MD5 of the same bytes, and nobody sees it; for one that was uploaded
in parts it is not (`OzoneRust.Etags.copy_of_multipart`). `OzoneRust.Etags.etag_agreement_iff`
says of every write when the readers agree with it.
-/

namespace OzoneRust

namespace Etags

open AssocList Changes

/-! ### Writes and readers -/

/-- A write, with the arguments of the call. Maps have distinct keys. -/
inductive Write where
  /-- `put_object`. -/
  | put (key : KeyName) (body : Bytes) (metadata tags : List (String × String))
      (distinct : Distinct metadata)
  /-- `complete_multipart`. -/
  | complete (key : KeyName) (uploadId : String) (partNumbers : List UInt32)
  /-- `copy_object`. -/
  | copy (key source : KeyName) (directives : CopyDirectives)
      (distinct : Distinct directives.metadata)

/-- The key that is written. -/
def Write.key : Write → KeyName
  | .put key _ _ _ _ => key
  | .complete key _ _ => key
  | .copy key _ _ _ => key

/-- The program of a write: the ETag. -/
def Write.run (gw : Gateway) : Write → GwM String
  | .put key body metadata tags _ => gw.putObject key body metadata tags
  | .complete key uploadId partNumbers => Gateway.completeMultipart key uploadId partNumbers
  | .copy key source directives _ => do return (← gw.copyObject key source directives).1

/-- Writes, one after the other. Each returns or fails. -/
inductive Session (gw : Gateway) : World → List Write → World → Prop
  /-- No write. -/
  | nil (w : World) : Session gw w [] w
  /-- One write, and those after it. -/
  | cons {t c o w w₁ calls w'} : (Write.run gw c).Ends (gatewaySystem.answers t) w o w₁ →
    Session gw w₁ calls w' → Session gw w (c :: calls) w'

/-- A manager lists keys of the world. -/
def ListsFrom (om : ListObjects.Manager) (w : World) (bucket : String) : Prop :=
  ∀ k, om.Offers k → ∃ name rec info, w.keys ⟨bucket, name⟩ = some rec ∧
    info.metadata = rec.metadata ∧ k = .ofKeyInfo (Text.utf8 name.toList) info

/-- **A reader reports an ETag** for a key. -/
inductive Reports (gw : Gateway) (w : World) (key : KeyName) : String → Prop
  /-- `head_object` returns it. -/
  | head {t reply w'} :
    (Gateway.headObject key).Ends (gatewaySystem.answers t) w (.ok reply) w' →
    Reports gw w key reply.etag
  /-- `get_object` returns it. -/
  | get {t reply w'} :
    (gw.getObject key).Ends (gatewaySystem.answers t) w (.ok reply) w' →
    Reports gw w key reply.etag
  /-- `list_objects` lists it. -/
  | list {om q fuel n token l n' e} : ListsFrom om w key.bucket →
    ListObjects.listObjects om q fuel n token = some (.ok l, n') → e ∈ l.contents →
    e.key = Text.utf8 key.key.toList → Reports gw w key e.etag

/-! ### What readers report -/

/-- The ETag of the first entry. -/
def reported (rec : KeyRecord) : String := ((AssocList.get rec.metadata "ETAG").bind id).getD ""

/-- The ETag of the last entry, which a copy finds. -/
def sourceEtag (rec : KeyRecord) : Option String :=
  (AssocList.getLast rec.metadata "ETAG").map (·.getD "")

section Read

variable {gw : Gateway} {w w' : World} {t : Tid} {key : KeyName}

theorem etag_ofKeyInfo (name : Bytes) (info : KeyInfo) :
    (ListObjects.ObjectEntry.ofListing (.ofKeyInfo name info)).etag =
      ((AssocList.get info.metadata "ETAG").bind id).getD "" := by
  rw [AssocList.get, Option.bind_map]
  rfl

/-- `get_key_info` answers from the record. -/
theorem getKeyInfo_ends {info : KeyMeta}
    (h : (OmClient.getKeyInfo key).Ends (gatewaySystem.answers t) w (.ok info) w') :
    ∃ rec, w.keys key = some rec ∧ w'.keys = w.keys ∧
      info.metadata = rec.metadata.map (fun kv => (kv.1, kv.2.getD "")) ∧
      info.etag.getD "" = reported rec := by
  obtain ⟨r, w₁, ⟨served, w₂, hans, rfl⟩, h⟩ := h
  have hkeys := keys_of_quiet (by rfl) hans
  rcases r with e | _ | found
  · cases h.1
  · cases h.1
  · cases served with
    | false =>
      obtain ⟨-, ⟨e, he⟩ | he⟩ := hans
      · cases he
      · cases he
    | true =>
      obtain ⟨rfl, hans⟩ := hans
      cases hrec : w₂.keys key with
      | none =>
        rw [hrec] at hans
        cases hans
      | some rec =>
        rw [hrec] at hans
        obtain ⟨_, ⟨⟩, -, hmd, -⟩ := hans
        obtain ⟨blocks, -, ⟨-, rfl⟩, ⟨⟩, rfl⟩ :=
          Prog.Ends.of_bind (p := Prog.lift (blocksOfKeyInfo found)) h
        refine ⟨rec, rfl, rfl, by rw [← hmd], ?_⟩
        show (AssocList.get (found.metadata.map fun kv => (kv.1, kv.2.getD "")) "ETAG").getD "" = _
        rw [AssocList.get_map fun v : Option String => v.getD "", hmd, reported]
        rcases AssocList.get rec.metadata "ETAG" with _ | _ | _ <;> rfl

/-- **All readers report the first entry.** -/
theorem Reports.eq {e : String} (h : Reports gw w key e) :
    ∃ rec, w.keys key = some rec ∧ e = reported rec := by
  cases h with
  | head h =>
    obtain ⟨info, w₁, hinfo, ⟨⟩, -⟩ := Prog.Ends.of_bind h
    obtain ⟨rec, hrec, -, -, hetag⟩ := getKeyInfo_ends hinfo.of_mapErr
    exact ⟨rec, hrec, hetag⟩
  | get h =>
    obtain ⟨info, w₁, hinfo, h⟩ := Prog.Ends.of_bind h
    obtain ⟨out, w₂, -, ⟨⟩, -⟩ := Prog.Ends.of_bind h
    obtain ⟨rec, hrec, -, -, hetag⟩ := getKeyInfo_ends hinfo.of_mapErr
    exact ⟨rec, hrec, hetag⟩
  | list hfrom hlist he hkey =>
    obtain ⟨k, hoffers, rfl⟩ := ListObjects.mem_contents_listObjects hlist he
    obtain ⟨name, rec, info, hrec, hmd, rfl⟩ := hfrom k hoffers
    have hname : name = key.key := by
      have hlossy := congrArg Text.lossy hkey
      rw [Text.lossy_utf8] at hlossy
      have htext : name.toList = key.key.toList := (Text.lossy_utf8 _).symm.trans hlossy
      exact String.toList_injective htext
    subst hname
    exact ⟨rec, hrec, by rw [etag_ofKeyInfo, hmd, reported]⟩

/-- A listing reports the ETag of every key there is. -/
theorem reports_of_keys {rec : KeyRecord} (hrec : w.keys key = some rec) :
    Reports gw w key (reported rec) := by
  have hlist : ListObjects.listObjects (fun _ _ _ _ => .ok [.ofKeyInfo (Text.utf8 key.key.toList)
      ⟨rec.size, rec.metadata, 0, []⟩]) ⟨[], [], 2⟩ 1 0 [] = some (.ok ⟨false, [],
      [.ofListing (.ofKeyInfo (Text.utf8 key.key.toList) ⟨rec.size, rec.metadata, 0, []⟩)], []⟩,
        1) :=
    rfl
  have hfrom : ListsFrom (fun _ _ _ _ => .ok [.ofKeyInfo (Text.utf8 key.key.toList)
      ⟨rec.size, rec.metadata, 0, []⟩]) w key.bucket := by
    rintro k ⟨-, -, -, -, _, ⟨⟩, hk⟩
    exact ⟨key.key, rec, _, hrec, rfl, List.mem_singleton.mp hk⟩
  have hreport : Reports gw w key _ := .list hfrom hlist List.mem_cons_self rfl
  rwa [etag_ofKeyInfo] at hreport

end Read

/-! ### What a write leaves -/

/-- A map yields each of its entries once. -/
def IsOrder (gw : Gateway) : Prop := ∀ m, (gw.hashOrder m).Perm m

theorem tagMetaPrefix_ne (s : String) : tagMetaPrefix ++ s ≠ "ETAG" := by
  intro h
  have hlist := congrArg String.toList h
  rw [String.toList_append] at hlist
  cases hlist

theorem get_putMetadata (metadata tags : List (String × String)) :
    AssocList.get (Gateway.putMetadata metadata tags) "ETAG" = AssocList.get metadata "ETAG" := by
  unfold Gateway.putMetadata
  induction tags generalizing metadata with
  | nil => rfl
  | cons tag tags ih =>
    rw [List.foldl_cons, ih]
    exact (get_put _ _ _).trans (if_neg (tagMetaPrefix_ne tag.1))

theorem distinct_putMetadata {metadata : List (String × String)} (h : Distinct metadata)
    (tags : List (String × String)) : Distinct (Gateway.putMetadata metadata tags) := by
  unfold Gateway.putMetadata
  induction tags generalizing metadata with
  | nil => exact h
  | cons tag tags ih => exact ih (distinct_put _ h)

/-- The user metadata of a source: its entries without the tags. -/
theorem fst_foldl_splitEntry (l : List (String × String))
    (acc : List (String × String) × List (String × String)) :
    (l.foldl Gateway.splitEntry acc).1 =
      (l.filter fun kv => ¬tagMetaPrefix.toList <+: kv.1.toList).foldl
        (fun m e => put e m) acc.1 := by
  induction l generalizing acc with
  | nil => rfl
  | cons kv l ih =>
    rw [List.foldl_cons, ih]
    by_cases htag : tagMetaPrefix.toList <+: kv.1.toList
    · simp [Gateway.splitEntry, htag]
    · rw [List.filter_cons_of_pos (by simpa using htag), List.foldl_cons, Gateway.splitEntry,
        if_neg htag]

/-- The `ETAG` of a source is user metadata. -/
theorem userMeta_splitEntry {gw : Gateway} (horder : IsOrder gw) {m : List (String × String)}
    (hm : Distinct m) : Distinct ((gw.hashOrder m).foldl Gateway.splitEntry ([], [])).1 ∧
      AssocList.get ((gw.hashOrder m).foldl Gateway.splitEntry ([], [])).1 "ETAG" =
        AssocList.get m "ETAG" := by
  have horder' := hm.perm (horder m).symm
  rw [fst_foldl_splitEntry]
  refine ⟨distinct_foldl_put _ List.nodup_nil, ?_⟩
  rw [get_foldl_put, getLast_eq_get (horder'.filter _), get_filter, get_perm (horder m) horder']
  · exact Option.or_none ..
  · rintro ⟨_, v⟩ rfl
    exact (by decide : (decide ¬tagMetaPrefix.toList <+: "ETAG".toList) = true)

section Written

variable {gw : Gateway} {w w' : World} {t : Tid} {key : KeyName}

/-- **A put** leaves a record that reports the `ETAG` of the user's metadata, if there is one. A
copy of it finds its own. -/
theorem putObject_ends (horder : IsOrder gw) {body : Bytes} {metadata tags : List (String × String)}
    (hdistinct : Distinct metadata) {etag : String}
    (h : (gw.putObject key body metadata tags).Ends (gatewaySystem.answers t) w (.ok etag) w') :
    etag = gw.md5Hex body ∧ ∃ rec, w'.keys = Function.update w.keys key (some rec) ∧
      reported rec = (AssocList.get metadata "ETAG").getD etag ∧ sourceEtag rec = some etag := by
  obtain ⟨⟨blocks, clientId⟩, w₁, hwrite, h⟩ := Prog.Ends.of_bind h
  obtain ⟨_, w₂, hcommit, ⟨⟩, rfl⟩ := Prog.Ends.of_bind h
  have hkeys := keys_of_quiet_ends (allocateAndWrite_quiet gw key body none) hwrite
  obtain ⟨r, w₃, ⟨served, w₄, hans, rfl⟩, h⟩ := hcommit.of_mapErr
  rcases r with e | ⟨⟩
  · cases h.1
  obtain ⟨-, rfl⟩ := h
  cases served with
  | false =>
    obtain ⟨-, e, he⟩ := hans
    cases he
  | true =>
    obtain rfl := hans
    refine ⟨rfl, ⟨blocks.map blockToKeyLocation, UInt64.ofNat body.length,
      (gw.hashOrder (Gateway.putMetadata metadata tags)).map (fun kv => (kv.1, some kv.2)) ++
        [("ETAG", some (gw.md5Hex body))]⟩, ?_, ?_, ?_⟩
    · rw [← hkeys]
      rfl
    · rw [reported, get_append, AssocList.get_map some, get_perm (horder _)
        ((distinct_putMetadata hdistinct tags).perm (horder _).symm), get_putMetadata]
      rcases AssocList.get metadata "ETAG" with _ | v <;> rfl
    · rw [sourceEtag, getLast_append_singleton]
      rfl

/-- A completion leaves a record with one `ETAG`, the one it returns. -/
theorem completeMultipart_ends {uploadId : String} {partNumbers : List UInt32} {etag : String}
    (h : (Gateway.completeMultipart key uploadId partNumbers).Ends (gatewaySystem.answers t) w
      (.ok etag) w') :
    ∃ rec, w'.keys = Function.update w.keys key (some rec) ∧ reported rec = etag := by
  unfold Gateway.completeMultipart at h
  split at h
  · cases h.1
  split at h
  · cases h.1
  obtain ⟨completed, w₁, h, ⟨⟩, rfl⟩ := Prog.Ends.of_bind h
  obtain ⟨r, w₂, ⟨served, w₃, hans, rfl⟩, h⟩ := h.of_mapErr
  rcases r with e | _ | _ | etag
  · cases h.1
  · cases h.1
  · cases h.1
  obtain ⟨info, w₄, hinfo, ⟨⟩, rfl⟩ := Prog.Ends.of_bind (p := OmClient.getKeyInfo key) h
  obtain ⟨-, -, hkeys, -⟩ := getKeyInfo_ends hinfo
  cases served with
  | false =>
    obtain ⟨-, e, he⟩ := hans
    cases he
  | true =>
    obtain ⟨rec, hash, rfl, hfilter, hetag⟩ := hans
    refine ⟨rec, hkeys, ?_⟩
    rw [hetag etag rfl, reported, AssocList.get, ← List.head?_filter, hfilter]
    rfl

/-- **A copy** is a put with the bytes of the source, and with the directives' metadata or that of
the source. -/
theorem copyObject_ends {source : KeyName} {directives : CopyDirectives} {reply : String × UInt64}
    (horder : IsOrder gw)
    (h : (gw.copyObject key source directives).Ends (gatewaySystem.answers t) w (.ok reply) w') :
    ∃ rec got metadata tags w₁, w.keys source = some rec ∧ w₁.keys = w.keys ∧
      (gw.getObject source).Ends (gatewaySystem.answers t) w (.ok got) w₁ ∧
      (gw.putObject key got.body metadata tags).Ends (gatewaySystem.answers t) w₁ (.ok reply.1)
        w' ∧
      (directives.replaceMetadata = true → metadata = directives.metadata) ∧
      (directives.replaceMetadata = false → Distinct metadata ∧
        AssocList.get metadata "ETAG" = sourceEtag rec) := by
  obtain ⟨got, w₁, hget, h⟩ := Prog.Ends.of_bind h
  obtain ⟨etag, w₂, hput, ⟨⟩, rfl⟩ := Prog.Ends.of_bind h
  have hkeys := keys_of_quiet_ends (getObject_quiet gw source) hget
  obtain ⟨info, w₃, hinfo, hgot⟩ := Prog.Ends.of_bind hget
  obtain ⟨out, w₄, -, ⟨⟩, -⟩ := Prog.Ends.of_bind hgot
  obtain ⟨rec, hrec, -, hmd, -⟩ := getKeyInfo_ends hinfo.of_mapErr
  refine ⟨rec, _, _, _, w₁, hrec, hkeys, hget, hput, fun hreplace => if_pos hreplace,
    fun hkeep => ?_⟩
  rw [hkeep, if_neg Bool.false_ne_true]
  obtain ⟨hdistinct, hget⟩ := userMeta_splitEntry (m := info.metadata.foldl
    (fun m kv => put kv m) []) horder (distinct_foldl_put info.metadata List.nodup_nil)
  refine ⟨hdistinct, hget.trans ((get_foldl_put info.metadata [] "ETAG").trans ?_)⟩
  rw [hmd, getLast_map fun v : Option String => v.getD ""]
  exact Option.or_none ..

end Written

/-! ### Agreement -/

/-- **The bytes that a write stores**, and the ETag that it returns for them: a copy stores what
it reads of its source. A completion stores the parts that are there. -/
def Write.Stores (gw : Gateway) (t : Tid) (w : World) (etag : String) (body : Bytes) :
    Write → Prop
  | .put _ given _ _ _ => body = given ∧ etag = gw.md5Hex body
  | .complete _ _ _ => True
  | .copy _ source _ _ => etag = gw.md5Hex body ∧ ∃ got w₁,
      (gw.getObject source).Ends (gatewaySystem.answers t) w (.ok got) w₁ ∧ got.body = body

/-- **The metadata has no `ETAG` but the MD5 of the bytes**: that of a put or a copy with metadata
of its own, or that of the source of a copy without, which is then the last entry. -/
def KeepsEtag (gw : Gateway) (w : World) (body : Bytes) : Write → Prop
  | .put _ _ metadata _ _ => ∀ v, ("ETAG", v) ∈ metadata → v = gw.md5Hex body
  | .complete _ _ _ => True
  | .copy _ source directives _ =>
    if directives.replaceMetadata then
      ∀ v, ("ETAG", v) ∈ directives.metadata → v = gw.md5Hex body
    else ∀ rec v, w.keys source = some rec → sourceEtag rec = some v → v = gw.md5Hex body

section Agreement

variable {gw : Gateway} {w w' : World} {t : Tid} {c : Write}

theorem getD_eq_iff {o : Option String} {etag : String} :
    o.getD etag = etag ↔ ∀ v, o = some v → v = etag := by
  rcases o with _ | v <;> simp

theorem getD_get_eq_iff {metadata : List (String × String)} (h : Distinct metadata)
    {etag : String} : (AssocList.get metadata "ETAG").getD etag = etag ↔
      ∀ v, ("ETAG", v) ∈ metadata → v = etag := by
  rw [getD_eq_iff]
  simp only [get_eq_some_iff h]

/-- **What a write leaves**, and when it reports the ETag that the write returns. -/
theorem Write.ends (horder : IsOrder gw) {etag : String}
    (h : (c.run gw).Ends (gatewaySystem.answers t) w (.ok etag) w') :
    ∃ body rec, c.Stores gw t w etag body ∧ w'.keys = Function.update w.keys c.key (some rec) ∧
      (reported rec = etag ↔ KeepsEtag gw w body c) := by
  cases c with
  | put key body metadata tags hdistinct =>
    obtain ⟨rfl, rec, hkeys, hreported, -⟩ := putObject_ends horder hdistinct h
    refine ⟨body, rec, ⟨rfl, rfl⟩, hkeys, ?_⟩
    rw [hreported]
    exact getD_get_eq_iff hdistinct
  | complete key uploadId partNumbers =>
    obtain ⟨rec, hkeys, hreported⟩ := completeMultipart_ends h
    exact ⟨[], rec, trivial, hkeys, iff_of_true hreported trivial⟩
  | copy key source directives hdistinct =>
    obtain ⟨reply, w₁, h, ⟨⟩, rfl⟩ := Prog.Ends.of_bind h
    obtain ⟨rec, got, metadata, tags, w₁, hrec, hkeys, hget, hput, hreplace, hkeep⟩ :=
      copyObject_ends horder h
    cases hdir : directives.replaceMetadata with
    | true =>
      obtain rfl := hreplace hdir
      obtain ⟨hetag, rec', hkeys', hreported, -⟩ := putObject_ends horder hdistinct hput
      refine ⟨got.body, rec', ⟨hetag, got, w₁, hget, rfl⟩, hkeys ▸ hkeys', ?_⟩
      rw [hreported, KeepsEtag, if_pos hdir, ← hetag]
      exact getD_get_eq_iff hdistinct
    | false =>
      obtain ⟨hmeta, hsource⟩ := hkeep hdir
      obtain ⟨hetag, rec', hkeys', hreported, -⟩ := putObject_ends horder hmeta hput
      refine ⟨got.body, rec', ⟨hetag, got, w₁, hget, rfl⟩, hkeys ▸ hkeys', ?_⟩
      rw [hreported, hsource, getD_eq_iff, KeepsEtag, hdir, if_neg Bool.false_ne_true, ← hetag]
      constructor
      · rintro h rec₁ v hrec₁ hv
        cases hrec.symm.trans hrec₁
        exact h v hv
      · intro h v hv
        exact h rec v hrec hv

/-- A write changes its own key only. -/
theorem Write.spares {key : KeyName} (hkey : c.key ≠ key) : (c.run gw).Makes (Spares key) := by
  have hcommit : ∀ {key' : KeyName} {body : Bytes} {metadata tags : List (String × String)},
      key' ≠ key → (gw.putObject key' body metadata tags).Makes (Spares key) := by
    intro key' body metadata tags hne
    refine ((allocateAndWrite_quiet gw key' body none).mono fun _ h => h.spares key).bind ?_
    rintro ⟨blocks, clientId⟩
    refine Prog.Makes.bind (Prog.Makes.mapErr ?_) fun _ => trivial
    refine (Prog.makes_perform ?_).bind fun _ => makes_okOr _ _
    rintro b ⟨⟩
    exact hne rfl
  cases c with
  | put key' body metadata tags _ => exact hcommit hkey
  | complete key' uploadId partNumbers =>
    rw [Write.run, Gateway.completeMultipart]
    split
    · trivial
    split
    · trivial
    have hcomplete : (OmClient.completeMultipart key' uploadId partNumbers).Makes (Spares key) := by
      refine (Prog.makes_perform ?_).bind fun _ => (makes_okOr _ _).bind fun _ => ?_
      · rintro b ⟨⟩
        exact hkey rfl
      · refine (makes_present _ _).bind fun _ => (makes_present _ _).bind fun _ => ?_
        exact ((getKeyInfo_quiet key').mono fun _ h => h.spares key).bind fun _ => trivial
    exact hcomplete.mapErr.bind fun _ => trivial
  | copy key' source directives _ =>
    refine Prog.Makes.bind ?_ fun _ => trivial
    refine ((getObject_quiet gw source).mono fun _ h => h.spares key).bind fun _ => ?_
    exact (hcommit hkey).bind fun _ => trivial

/-- Writes of other keys leave a key as it is. -/
theorem Session.keys_eq {key : KeyName} {calls : List Write} (h : Session gw w calls w')
    (hother : ∀ c ∈ calls, c.key ≠ key) : w'.keys key = w.keys key := by
  induction h with
  | nil => rfl
  | cons hrun _ ih =>
    have hhead := keys_of_ends (Write.spares (hother _ List.mem_cons_self)) hrun
    exact (ih fun c hc => hother c (List.mem_cons_of_mem _ hc)).trans hhead

/-- **When the ETag that a write returns is the one that all readers report** until the next write
to the key: exactly when the metadata it commits has no `ETAG` but the MD5 of its bytes. -/
theorem etag_agreement_iff (gw : Gateway) (horder : IsOrder gw) (c : Write) {t : Tid}
    {w w' : World} {etag : String}
    (h : (c.run gw).Ends (gatewaySystem.answers t) w (.ok etag) w') :
    ∃ body, c.Stores gw t w etag body ∧
      ((∀ later w'', Session gw w' later w'' → (∀ d ∈ later, d.key ≠ c.key) →
        ∀ e, Reports gw w'' c.key e → e = etag) ↔ KeepsEtag gw w body c) := by
  obtain ⟨body, rec, hstores, hkeys, hiff⟩ := c.ends horder h
  have hrec : w'.keys c.key = some rec := by rw [hkeys, Function.update_self]
  refine ⟨body, hstores, ?_⟩
  rw [← hiff]
  constructor
  · intro hall
    exact hall [] w' (.nil w') (by simp) _ (reports_of_keys hrec)
  · rintro rfl later w'' hsession hother e hreport
    obtain ⟨rec', hrec', rfl⟩ := hreport.eq
    rw [hsession.keys_eq hother, hrec] at hrec'
    cases hrec'
    rfl

end Agreement

/-! ### Two writes -/

/-- A gateway with the MD5 of the byte `5` and of nothing, which is all that is stored below. -/
def fewMd5 : Gateway := { Gateway.reference with
  md5Hex := fun body => if body = [5] then "8bb6c17838643f9691cc6a4de6c51709"
    else "d41d8cd98f00b204e9800998ecf8427e" }

/-- The byte `5` under a key, with a colour, a tag, and its own MD5 in the metadata. -/
def putFive : Write :=
  .put ⟨"b", "k"⟩ [5] [("color", "red"), ("ETAG", "8bb6c17838643f9691cc6a4de6c51709")]
    [("kind", "test")] (by unfold Distinct; decide)

open Placement in
/-- The readers agree with the put. -/
theorem etag_agreement_iff_five : ∃ w',
    (putFive.run fewMd5).Ends (gatewaySystem.answers 0) World.empty
      (.ok "8bb6c17838643f9691cc6a4de6c51709") w' ∧
    ∀ later w'', Session fewMd5 w' later w'' → (∀ d ∈ later, d.key ≠ putFive.key) →
      ∀ e, Reports fewMd5 w'' putFive.key e → e = "8bb6c17838643f9691cc6a4de6c51709" := by
  have hput : (putFive.run fewMd5).Ends (gatewaySystem.answers 0) World.empty
      (.ok "8bb6c17838643f9691cc6a4de6c51709") _ :=
    ⟨.ok ⟨some 0, some ⟨0, [], 0, [[mirrorLocation 0]]⟩⟩, _, ⟨true, _,
      ⟨[(mirrorLocation 0, mirror)], grants_mirror fun _ => rfl, rfl, by rintro _ ⟨⟩ _ ⟨⟩; rfl⟩,
        rfl⟩,
      -- the first slot, then the second: dial, container, chunk, block
      .ok (), _, ⟨true, _, rfl, rfl⟩, .ok (), _, ⟨true, _, rfl, rfl⟩,
      .ok (), _, ⟨true, _, ⟨_, rfl, fun _ => rfl⟩, rfl⟩,
      .ok (), _, ⟨true, _, ⟨_, rfl, fun _ => rfl⟩, rfl⟩,
      .ok (), _, ⟨true, _, rfl, rfl⟩, .ok (), _, ⟨true, _, rfl, rfl⟩,
      .ok (), _, ⟨true, _, ⟨_, rfl, fun _ => rfl⟩, rfl⟩,
      .ok (), _, ⟨true, _, ⟨_, rfl, fun _ => rfl⟩, rfl⟩,
      .ok (), _, ⟨true, _, rfl, rfl⟩, rfl, rfl⟩
  obtain ⟨body, ⟨rfl, -⟩, hiff⟩ := etag_agreement_iff fewMd5 (fun _ => .refl _) putFive hput
  refine ⟨_, hput, hiff.mpr fun v hv => ?_⟩
  simp only [List.mem_cons, Prod.mk.injEq, List.not_mem_nil, or_false] at hv
  obtain ⟨h, -⟩ | ⟨-, rfl⟩ := hv
  · exact absurd h (by decide)
  · rfl

/-- **A copy of an object that was uploaded in parts** returns the MD5 of its bytes, and
`head_object` reports the ETag of the source. -/
theorem copy_of_multipart : ∃ w₁ w₂,
    ((Write.complete ⟨"b", "a"⟩ "u" [1]).run fewMd5).Ends (gatewaySystem.answers 0)
      World.empty (.ok "h-1") w₁ ∧
    ((Write.copy ⟨"b", "k"⟩ ⟨"b", "a"⟩ ⟨false, [], false, []⟩ List.nodup_nil).run fewMd5).Ends
      (gatewaySystem.answers 1) w₁ (.ok "d41d8cd98f00b204e9800998ecf8427e") w₂ ∧
    Reports fewMd5 w₂ ⟨"b", "k"⟩ "h-1" := by
  have hcomplete : ((Write.complete ⟨"b", "a"⟩ "u" [1]).run fewMd5).Ends (gatewaySystem.answers 0)
      World.empty (.ok "h-1") _ :=
    ⟨.ok (some (some "h-1")), _, ⟨true, _, ⟨⟨[], 0, [("ETAG", some "h-1")]⟩, "h", rfl, rfl,
      by rintro _ ⟨⟩; rfl⟩, rfl⟩,
      .ok (some ⟨0, [("ETAG", some "h-1")], 0, []⟩), _,
        ⟨true, _, ⟨rfl, _, rfl, rfl, rfl, .nil⟩, rfl⟩,
      rfl, rfl⟩
  refine ⟨_, _, hcomplete, ⟨.ok (some ⟨0, [("ETAG", some "h-1")], 0, []⟩), _,
    ⟨true, _, ⟨rfl, _, rfl, rfl, rfl, .nil⟩, rfl⟩, .ok ⟨some 0, some ⟨0, [], 0, []⟩⟩, _,
    ⟨true, _, ⟨[], ⟨by simp, by simp, by simp, by simp⟩, rfl, by rintro _ ⟨⟩ _ ⟨⟩; rfl⟩, rfl⟩,
    .ok (), _, ⟨true, _, rfl, rfl⟩, rfl, rfl⟩, ?_⟩
  have hreply : ("h-1" : String) = (⟨0, "h-1", [("ETAG", "d41d8cd98f00b204e9800998ecf8427e")], 0⟩ :
      Gateway.HeadReply).etag := rfl
  rw [hreply]
  exact .head (t := 2) ⟨.ok (some ⟨0, [("ETAG", some "h-1"),
    ("ETAG", some "d41d8cd98f00b204e9800998ecf8427e")], 0, []⟩), _,
    ⟨true, _, ⟨rfl, _, rfl, rfl, rfl, .nil⟩, rfl⟩, rfl, rfl⟩

end Etags

end OzoneRust
